import ShellBox.Kernel.Memory.Basic
import ShellBox.Logic.Buckets

/-!
# The block store

`struct asbestos` holds the translated blocks of an address space. A block is on a list of the hash
table, on the lists of the pages of its first and last byte, and for each of its jumps that is
chained to a block on a list of that block. A block that is invalidated leaves these lists and waits
on the list of jetsam, since a thread may be executing it. All of this happens under `lock`.
-/

namespace ShellBox

open Function

/-- A pointer to a block: the number of its allocation. -/
abbrev BlockId := ℕ

/-- `struct fiber_block`, what is written when it is compiled. -/
structure FiberBlock where
  addr : BitVec 64
  endAddr : BitVec 64
  used : ℕ
  /-- The host address of `code`. -/
  code : BitVec 64
  /-- The guest address each jump goes to, `none` where `jump_ip` is null. -/
  target : Fin 2 → Option (BitVec 64)
  deriving Inhabited

/-- What `*jump_ip[i]` holds. -/
inductive JumpIp where
  /-- A guest address, tagged with bit 63. -/
  | fake (target : BitVec 64)
  /-- The code of a block. -/
  | chained (b : BlockId)
  deriving DecidableEq

/-- What has become of a block: it is `live` once it is inserted, and `jetsam` from when
`is_jetsam` is set until it is freed. -/
inductive BlockFate where
  | unborn | live | jetsam | freed
  deriving DecidableEq

/-- `struct asbestos`, with the blocks it points to. -/
structure Asbestos where
  memUsed : ℕ
  numBlocks : ℕ
  hash : ℕ → List BlockId
  hashSize : ℕ
  pageHash : Fin 2 → ℕ → List BlockId
  jetsam : List BlockId
  /-- How often blocks were invalidated: `invalidate_gen` counts it in 32 bits. -/
  invalidations : ℕ
  block : BlockId → FiberBlock
  jumpIp : BlockId → Fin 2 → Option JumpIp
  jumpsFrom : Fin 2 → BlockId → List BlockId
  fate : BlockId → BlockFate
  /-- The next allocation. -/
  nextBlock : BlockId
  /-- The calls of `free`. -/
  freed : List BlockId

namespace Asbestos

-- for the two entries of `jump_ip`, of `page` and so on
scoped instance twoEntries : NeZero 2 := ⟨two_ne_zero⟩

/-- `asbestos_new`. -/
def asbestosNew : Asbestos where
  memUsed := 0
  numBlocks := 0
  hash _ := []
  hashSize := 1024
  pageHash _ _ := []
  jetsam := []
  invalidations := 0
  block _ := default
  jumpIp _ _ := none
  jumpsFrom _ _ := []
  fate _ := .unborn
  nextBlock := 0
  freed := []

def invalidateGen (s : Asbestos) : ℕ := s.invalidations % 2 ^ 32

def addr (s : Asbestos) (b : BlockId) : BitVec 64 := (s.block b).addr

/-- `PAGE(addr)` and `PAGE(end_addr)`. -/
def pageOf (s : Asbestos) (b : BlockId) : Fin 2 → ℕ
  | 0 => page (s.addr b).toNat
  | 1 => page (s.block b).endAddr.toNat

/-- `old_jump_ip`. -/
def oldJumpIp (s : Asbestos) (b : BlockId) (i : Fin 2) : Option JumpIp :=
  ((s.block b).target i).map .fake

/-- The list of `blocks_list`. -/
def pageBucket (page : ℕ) : ℕ := page % 1024

/-- The list of the hash table for an address. -/
def hashBucket (s : Asbestos) (addr : BitVec 64) : ℕ := addr.toNat % s.hashSize

/-! ### Insertion and lookup -/

/-- The word in the slot. -/
def word (s : Asbestos) : JumpIp → BitVec 64
  | .fake target => target ||| (1 <<< 63)
  | .chained b   => (s.block b).code

/-- A new block, as `gen_end` leaves it. -/
def genEnd (s : Asbestos) (new : FiberBlock) : Asbestos :=
  { s with
    block := update s.block s.nextBlock new
    jumpIp := update s.jumpIp s.nextBlock fun i => (new.target i).map .fake
    jumpsFrom := fun i => update (s.jumpsFrom i) s.nextBlock []
    nextBlock := s.nextBlock + 1 }

def fiberResizeHash (s : Asbestos) (newSize : ℕ) : Asbestos :=
  { s with
    hash := regroup (fun b => (s.addr b).toNat % newSize) ((List.range s.hashSize).flatMap s.hash)
    hashSize := newSize }

/-- The links of `fiber_insert`. -/
def link (s : Asbestos) (b : BlockId) : Asbestos :=
  { s with
    fate := update s.fate b .live
    hash := update s.hash (s.hashBucket (s.addr b)) (b :: s.hash (s.hashBucket (s.addr b)))
    pageHash := fun i =>
      if i = 0 ∨ s.pageOf b 0 ≠ s.pageOf b 1 then
        update (s.pageHash i) (pageBucket (s.pageOf b i))
          (b :: s.pageHash i (pageBucket (s.pageOf b i)))
      else s.pageHash i }

/-- Twice as many lists, where there are too many blocks. -/
def grow (s : Asbestos) : Asbestos :=
  if s.numBlocks ≥ s.hashSize * 2 then s.fiberResizeHash (s.hashSize * 2) else s

/-- The counters of `fiber_insert`. -/
def count (s : Asbestos) (b : BlockId) : Asbestos :=
  { s with memUsed := s.memUsed + (s.block b).used, numBlocks := s.numBlocks + 1 }

def fiberInsert (s : Asbestos) (b : BlockId) : Asbestos := (s.count b).grow.link b

def fiberLookup (s : Asbestos) (addr : BitVec 64) : Option BlockId :=
  (s.hash (s.hashBucket addr)).find? fun b => s.addr b = addr

/-- Look a block up, and if there is none insert the one that is compiled. -/
def findOrCompile (s : Asbestos) (new : FiberBlock) : BlockId × Asbestos :=
  match s.fiberLookup new.addr with
  | some b => (b, s)
  | none   => (s.nextBlock, (s.genEnd new).fiberInsert s.nextBlock)

/-! ### Chaining -/

/-- The slot gets the code of `b`, and its link goes on the list of `b`. -/
def patch (s : Asbestos) (last b : BlockId) (i : Fin 2) : Asbestos :=
  { s with
    jumpIp := update s.jumpIp last (update (s.jumpIp last) i (some (.chained b)))
    jumpsFrom := update s.jumpsFrom i (update (s.jumpsFrom i) b (last :: s.jumpsFrom i b)) }

/-- One of the two slots in the loop that chains `last` to `b`. -/
def chainSlot (s : Asbestos) (last b : BlockId) (i : Fin 2) : Asbestos :=
  match s.jumpIp last i with
  | none   => s
  | some w => if s.word w &&& 0xffffffff = s.addr b then s.patch last b i else s

def chain (s : Asbestos) (last b : BlockId) : Asbestos :=
  if s.fate last = .jetsam ∨ s.fate b = .jetsam then s
  else (s.chainSlot last b 0).chainSlot last b 1

/-! ### Removal -/

/-- `fiber_block_disconnect`. A block that is chained to itself has left its own list when the
slots are restored. -/
def fiberBlockDisconnect (s : Asbestos) (b : BlockId) : Asbestos :=
  { s with
    memUsed := s.memUsed - (s.block b).used
    numBlocks := s.numBlocks - 1
    hash := fun k => (s.hash k).erase b
    pageHash := fun i k => (s.pageHash i k).erase b
    jumpsFrom := fun i => update (fun c => (s.jumpsFrom i c).erase b) b []
    jumpIp := fun prev i =>
      if prev ∈ (s.jumpsFrom i b).erase b then s.oldJumpIp prev i else s.jumpIp prev i }

/-- The body of the loops over the blocks of a list. -/
def discard (s : Asbestos) (b : BlockId) : Asbestos :=
  { s.fiberBlockDisconnect b with fate := update s.fate b .jetsam, jetsam := b :: s.jetsam }

/-- Both lists of a bucket, one after the other. -/
def discardBucket (s : Asbestos) (k : ℕ) : Asbestos :=
  let s := (s.pageHash 0 k).foldl discard s
  (s.pageHash 1 k).foldl discard s

/-- The buckets one after the other. Each block that is discarded goes on the list of jetsam, and
`did_invalidate` is whether there were any. -/
def discardBuckets (s : Asbestos) (ks : List ℕ) : Asbestos :=
  let s' := ks.foldl discardBucket s
  if s'.jetsam = s.jetsam then s' else { s' with invalidations := s'.invalidations + 1 }

def asbestosInvalidateRange (s : Asbestos) (start stop : ℕ) : Asbestos :=
  s.discardBuckets ((List.range' start (stop - start)).map pageBucket)

def asbestosInvalidatePage (s : Asbestos) (p : ℕ) : Asbestos :=
  if s.pageHash 0 (pageBucket p) = [] ∧ s.pageHash 1 (pageBucket p) = [] then s
  else s.asbestosInvalidateRange p (p + 1)

def asbestosInvalidateAll (s : Asbestos) : Asbestos := s.discardBuckets (List.range 1024)

def fiberFreeJetsam (s : Asbestos) : Asbestos :=
  { s with
    fate := fun b => if b ∈ s.jetsam then .freed else s.fate b
    jetsam := []
    freed := s.freed ++ s.jetsam }

def fiberBlockFree (s : Asbestos) (b : BlockId) : Asbestos :=
  { s.fiberBlockDisconnect b with fate := update s.fate b .freed, freed := s.freed ++ [b] }

/-- `asbestos_free`, up to the memory of the lists. -/
def asbestosFree (s : Asbestos) : Asbestos :=
  (((List.range s.hashSize).flatMap s.hash).foldl fiberBlockFree s).fiberFreeJetsam

end Asbestos

end ShellBox
