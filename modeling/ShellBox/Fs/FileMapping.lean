import ShellBox.Fs.TmpfsFile
import ShellBox.Kernel.Mmap

/-!
# Mappings of files

A mapping that passes the end of its file is made in one of two ways. If it is shared and
writable and ends in the last host page of the file, the file is mapped as it is. Otherwise the
memory is anonymous, the whole host pages of the file are mapped over it, and the rest of the file
is read into it.

What is read in is a copy. A shared mapping that is writable loses what is written to it.
-/

namespace ShellBox

open Function World

variable {w w' : World} {s : ℕ}

/-! ### Host memory -/

/-- What a byte of host memory holds: a byte of a file that is shared, or a byte of its own. -/
inductive Backing
  | file (pos : ℕ)
  | memory (value : UInt8)
  deriving DecidableEq

structure HostByte where
  backing : Backing
  writable : Bool
  deriving DecidableEq

/-- Host memory from an address on. An access where there is no byte is a fault. -/
abbrev HostBlock := ℕ → Option HostByte

namespace HostBlock

def anonymous (len : ℕ) : HostBlock :=
  fun i => if i < len then some { backing := .memory 0, writable := true } else none

/-- `mmap` with `MAP_FIXED` at the start of the block. -/
def overlay (b : HostBlock) (n : ℕ) (m : HostBlock) : HostBlock :=
  fun i => if i < n then m i else b i

/-- Bytes are stored from `start` on. -/
def fill (b : HostBlock) (start count : ℕ) (bytes : ℕ → UInt8) : HostBlock := fun i =>
  if start ≤ i ∧ i < start + count then
    (b i).map fun x => { x with backing := .memory (bytes i) }
  else b i

/-- `mprotect` with `PROT_READ` from `start` on. -/
def protect (b : HostBlock) (start : ℕ) : HostBlock := fun i =>
  if start ≤ i then (b i).map fun x => { x with writable := false } else b i

end HostBlock

structure FileHost where
  realPageSize : ℕ
  size : ℕ
  file : ℕ → UInt8
  fstatOk : Bool
  directOk : Bool
  anonOk : Bool
  fixedOk : Bool
  protectOk : Bool
  /-- The result of `pread` at a place, of at most so many bytes. -/
  pread : ℕ → ℕ → ℤ
  page_pos : 0 < realPageSize
  page_le : realPageSize ≤ 2 ^ 32
  size_lt : size < 2 ^ 63
  pread_pos : ∀ pos len, pos < size → 0 < len → 0 < pread pos len
  pread_le : ∀ pos len, pread pos len ≤ len

namespace FileHost

variable (fh : FileHost)

def eofPageEnd : ℕ := (fh.size + fh.realPageSize - 1) / fh.realPageSize * fh.realPageSize

/-- A byte of a mapping of the file. Behind the end there are zeros up to the end of the last
page, and then nothing. -/
def fileByte (isShared write : Bool) (pos : ℕ) : Option HostByte :=
  if pos < fh.size then
    some { backing := if isShared then .file pos else .memory (fh.file pos), writable := write }
  else if pos < fh.eofPageEnd then some { backing := .memory 0, writable := write }
  else none

def maps (ok : Bool) (flags : MmapFlags) : Bool := ok && (flags.shared != flags.isPrivate)

/-- `mmap` of the file. -/
def hostMmap (ok : Bool) (flags : MmapFlags) (write : Bool) (start len : ℕ) : Option HostBlock :=
  if maps ok flags ∧ start + len < 2 ^ 63 then
    some fun i => if i < len then fh.fileByte flags.shared write (start + i) else none
  else none

/-- The loop of `pread`s, for at most `fuel` rounds. -/
def readIn (realOffset start remaining : ℕ) : ℕ → ℕ → HostBlock → HostBlock
  | 0, _, b => b
  | fuel + 1, total, b =>
    if total < remaining then
      let n := fh.pread (realOffset + start + total) (remaining - total)
      if n ≤ 0 then b
      else readIn realOffset start remaining fuel (total + n.toNat)
        (b.fill (start + total) n.toNat fun i => fh.file (realOffset + i))
    else b

/-- What is done with the anonymous memory after the file has been mapped over its start. -/
def finish (write : Bool) (realOffset mapSize fileBytes fileMapSize : ℕ) (b : HostBlock) :
    HostBlock :=
  let remaining := fileBytes - fileMapSize
  let b := if fileMapSize < fileBytes then
      fh.readIn realOffset fileMapSize remaining remaining 0 b
    else b
  if !write && decide (fileMapSize < mapSize) && fh.protectOk then b.protect fileMapSize else b

/-- The anonymous path of `realfs_mmap`. -/
def mapPastEnd (flags : MmapFlags) (write : Bool) (realOffset mapSize : ℕ) : Option HostBlock :=
  if fh.anonOk then
    let fileBytes := min (fh.size - realOffset) mapSize
    let fileMapSize := fileBytes / fh.realPageSize * fh.realPageSize
    let b := HostBlock.anonymous mapSize
    match if 0 < fileMapSize then
        fh.hostMmap fh.fixedOk flags write realOffset fileMapSize
      else none with
    | none   => some (fh.finish write realOffset mapSize fileBytes 0 b)
    | some m =>
      some (fh.finish write realOffset mapSize fileBytes fileMapSize (b.overlay fileMapSize m))
  else none

/-- The host memory that `realfs_mmap` makes. -/
def hostMemory (flags : MmapFlags) (write : Bool) (realOffset mapSize : ℕ) : Option HostBlock :=
  if fh.fstatOk ∧ (fh.size : ℤ) < offT (realOffset + mapSize) then
    match if flags.shared && write && decide (offT (realOffset + mapSize) ≤ offT fh.eofPageEnd) then
        fh.hostMmap fh.directOk flags write realOffset mapSize
      else none with
    | some b => some b
    | none   => fh.mapPastEnd flags write realOffset mapSize
  else fh.hostMmap fh.directOk flags write realOffset mapSize

end FileHost

/-! ### The guest's side -/

structure FileMapping where
  block : HostBlock
  file : ℕ → UInt8

namespace FileMapping

def load (m : FileMapping) (i : ℕ) : Option UInt8 :=
  (m.block i).map fun x =>
    match x.backing with
    | .file pos     => m.file pos
    | .memory value => value

def store (i : ℕ) (value : UInt8) (m : FileMapping) : Option FileMapping :=
  match m.block i with
  | none   => none
  | some x =>
    if x.writable then
      match x.backing with
      | .file pos => some { m with file := update m.file pos value }
      | .memory _ =>
        some { m with block := update m.block i (some { x with backing := .memory value }) }
    else none

end FileMapping

/-- `realfs_mmap`, with the host memory that the pages of the range then have. -/
def realfsMmap (h : Host) (fh : FileHost) (s : ℕ) (r : PageRange) (offset : ℕ) (prot : Flags)
    (flags : MmapFlags) (w : World) : World × Except Errno HostBlock :=
  let realOffset := offset / fh.realPageSize * fh.realPageSize
  let correction := offset - realOffset
  let mapSize := r.pages * pageSize + correction
  match fh.hostMemory flags prot.write realOffset mapSize with
  | none       => (w, .error .enomem)
  | some block =>
    let memory := fun i => (FileMapping.load { block, file := fh.file } i).getD 0
    match ptMap h s r.start r.pages (some memory) correction prot w with
    | (w', .error e) => (w', .error e)
    | (w', .ok ())   => (w', .ok block)

/-- The entry of the page of a guest address, if it belongs to the object `d`. -/
def fileEntry (w : World) (s : ℕ) (d : DataId) (addr : ℕ) : Option PtEntry :=
  (w.slot (s, ptIndex (page addr))).filter fun e => e.data = d

def guestLoad (w : World) (s : ℕ) (d : DataId) (addr : ℕ) (m : FileMapping) : Option UInt8 :=
  (fileEntry w s d addr).bind fun e => m.load (e.offset + pgoffset addr)

def guestStore (w : World) (s : ℕ) (d : DataId) (addr : ℕ) (value : UInt8) (m : FileMapping) :
    Option FileMapping :=
  (fileEntry w s d addr).bind fun e =>
    if e.flags.write then m.store (e.offset + pgoffset addr) value else none

/-- Stores at distances from the address `base`. -/
def guestStores (w : World) (s : ℕ) (d : DataId) (base : ℕ) :
    List (ℕ × UInt8) → FileMapping → Option FileMapping
  | [], m => some m
  | (n, value) :: stores, m =>
    (guestStore w s d (base + n) value m).bind (guestStores w s d base stores)

def storedInFile (offset : ℕ) : List (ℕ × UInt8) → (ℕ → UInt8) → ℕ → UInt8
  | [], file => file
  | (n, value) :: stores, file => storedInFile offset stores (update file (offset + n) value)

/-- The mapping of `r` that has been made in `w` and is there in `w'` shows the file. -/
structure ShowsFile (fh : FileHost) (s : ℕ) (r : PageRange) (offset : ℕ) (prot : Flags)
    (flags : MmapFlags) (w w' : World) (block : HostBlock) : Prop where
  inside : ∀ n < r.pages * pageSize, offset + n < fh.size →
    guestLoad w' s w.nextData (r.start * pageSize + n) { block, file := fh.file } =
      some (fh.file (offset + n))
  behind : ∀ n < r.pages * pageSize, fh.size ≤ offset + n →
    guestLoad w' s w.nextData (r.start * pageSize + n) { block, file := fh.file } = some 0
  stores : flags.shared = true → prot.write = true →
    ∀ stores : List (ℕ × UInt8), (∀ x ∈ stores, x.1 < r.pages * pageSize) →
      ∃ m, guestStores w' s w.nextData (r.start * pageSize) stores { block, file := fh.file } =
          some m ∧
        ∀ pos < fh.size, m.file pos = storedInFile offset stores fh.file pos

/-- When a mapping shows its file. Without the size of the file it has to end in the last page. A
shared mapping that is writable and passes the end of the file has to end in the last page too, or
the file has to end with a page; and the host has to map it. -/
def FileHost.Suits (fh : FileHost) (pages offset : ℕ) (flags : MmapFlags) (write : Bool) : Prop :=
  (fh.fstatOk = false → pages = 0 ∨ offset + pages * pageSize ≤ fh.eofPageEnd) ∧
  (fh.fstatOk = true → flags.shared = true → write = true → offset < fh.size →
    fh.size < offset + pages * pageSize →
      offT (offset + pages * pageSize) ≤ offT fh.eofPageEnd ∧
          FileHost.maps fh.directOk flags = true ∨
        fh.realPageSize ∣ fh.size ∧ FileHost.maps fh.fixedOk flags = true)

/-! ### The pages of the mapping -/

section Guest

variable {h : Host} {r : PageRange} {c n : ℕ} {prot : Flags} {memory : ℕ → UInt8}

lemma fileEntry_of_ptMap (hb : w.Balanced)
    (hmap : ptMap h s r.start r.pages (some memory) c prot w = (w', .ok ()))
    (hn : n < r.pages * pageSize) :
    fileEntry w' s w.nextData (r.start * pageSize + n) =
      some (newEntry w.nextData r.start c prot (r.start + n / pageSize)) := by
  have hfits := r.fits
  have hdata : h.dataOk r.start = true := by
    by_contra hno
    simp [ptMap, hno] at hmap
  obtain ⟨w₁, hw₁, hloop⟩ := ptMap_ok (S := ⟨Set.univ, ∅, True⟩) (s := s) memory c prot hb
    (show r.pages ≤ memPages by omega) hdata (fun q _ _ e _ => Or.inl (Set.mem_univ _))
    (Or.inr trivial)
  obtain rfl : w' = w₁ := (Prod.ext_iff.mp (hmap.symm.trans hw₁)).1
  have hpage : page (r.start * pageSize + n) = r.start + n / pageSize := by
    rw [page, Nat.add_comm, Nat.add_mul_div_right _ _ (by decide : 0 < pageSize), Nat.add_comm]
  have hlt : n / pageSize < r.pages := Nat.div_lt_of_lt_mul (by rwa [Nat.mul_comm])
  have hslot := hloop.inside (r.start + n / pageSize) (Nat.le_add_right _ _) (by omega)
  rw [fileEntry, hpage, hslot]
  exact Option.filter_some_pos (by simp [newEntry])

lemma newEntry_offset {d : DataId} :
    (newEntry d r.start c prot (r.start + n / pageSize)).offset +
      pgoffset (r.start * pageSize + n) = n + c := by
  have hmod : pgoffset (r.start * pageSize + n) = n % pageSize := by
    rw [pgoffset, Nat.add_comm, Nat.add_mul_mod_self_right]
  have hdiv := Nat.div_add_mod' n pageSize
  rw [hmod, newEntry, Nat.add_sub_cancel_left]
  change n / pageSize * pageSize + c + n % pageSize = n + c
  omega

lemma guestLoad_of_ptMap (hb : w.Balanced)
    (hmap : ptMap h s r.start r.pages (some memory) c prot w = (w', .ok ()))
    (hn : n < r.pages * pageSize) (m : FileMapping) :
    guestLoad w' s w.nextData (r.start * pageSize + n) m = m.load (n + c) := by
  rw [guestLoad, fileEntry_of_ptMap hb hmap hn, Option.bind_some, newEntry_offset]

lemma guestStore_of_ptMap (hb : w.Balanced)
    (hmap : ptMap h s r.start r.pages (some memory) c prot w = (w', .ok ()))
    (hn : n < r.pages * pageSize) (hwrite : prot.write = true) (value : UInt8) (m : FileMapping) :
    guestStore w' s w.nextData (r.start * pageSize + n) value m = m.store (n + c) value := by
  rw [guestStore, fileEntry_of_ptMap hb hmap hn, Option.bind_some, newEntry_offset]
  exact if_pos hwrite

end Guest

/-! ### The host memory -/

namespace HostBlock

variable {b : HostBlock} {start n m : ℕ} {bytes : ℕ → UInt8}

@[simp] lemma fill_zero : b.fill start 0 bytes = b := by
  funext i
  exact if_neg (by omega)

lemma fill_fill : (b.fill start n bytes).fill (start + n) m bytes = b.fill start (n + m) bytes := by
  funext i
  unfold fill
  split_ifs <;> first | rfl | omega

end HostBlock

namespace FileHost

variable {fh : FileHost} {flags : MmapFlags} {isShared write : Bool} {realOffset len m : ℕ}
  {b : HostBlock}

lemma readIn_eq {start remaining : ℕ} (hsize : realOffset + start + remaining ≤ fh.size) :
    ∀ (fuel total : ℕ) (b : HostBlock), total ≤ remaining → remaining ≤ fuel + total →
      fh.readIn realOffset start remaining fuel total b =
        b.fill (start + total) (remaining - total) fun i => fh.file (realOffset + i) := by
  intro fuel
  induction fuel with
  | zero =>
    intro total b hle hfuel
    rw [readIn, show remaining - total = 0 by omega, HostBlock.fill_zero]
  | succ fuel ih =>
    intro total b hle hfuel
    rw [readIn]
    by_cases hlt : total < remaining
    · have hpos := fh.pread_pos (realOffset + start + total) (remaining - total) (by omega)
        (by omega)
      have hmost := fh.pread_le (realOffset + start + total) (remaining - total)
      rw [if_pos hlt, if_neg (by omega), ih _ _ (by omega) (by omega), ← Nat.add_assoc,
        HostBlock.fill_fill]
      congr 1
      omega
    · rw [if_neg hlt, show remaining - total = 0 by omega, HostBlock.fill_zero]

/-- The first `m` bytes of the block are mapped, and the others are anonymous memory with the
bytes of the file. -/
structure Lays (fh : FileHost) (isShared write : Bool) (realOffset len m : ℕ) (b : HostBlock) :
    Prop where
  mapped : ∀ i < len, i < m → b i = fh.fileByte isShared write (realOffset + i)
  copied : ∀ i < len, m ≤ i → ∃ x, b i = some x ∧ (write = true → x.writable = true) ∧
    x.backing = .memory (if realOffset + i < fh.size then fh.file (realOffset + i) else 0)

lemma lays_hostMmap {ok : Bool} (hb : fh.hostMmap ok flags write realOffset len = some b) :
    fh.Lays flags.shared write realOffset len len b ∧ maps ok flags = true ∧
      realOffset + len < 2 ^ 63 := by
  unfold hostMmap at hb
  split_ifs at hb with hmaps
  obtain rfl := Option.some.inj hb
  exact ⟨⟨fun i hi _ => if_pos hi, fun i hi hle => absurd hi (by omega)⟩, hmaps⟩

lemma lays_finish {fileBytes : ℕ} (hbytes : fileBytes = min (fh.size - realOffset) len)
    (hm : m ≤ fileBytes)
    (hmapped : ∀ i < len, i < m → b i = fh.fileByte isShared write (realOffset + i))
    (hanon : ∀ i < len, m ≤ i → b i = some { backing := .memory 0, writable := true }) :
    fh.Lays isShared write realOffset len m (fh.finish write realOffset len fileBytes m b) := by
  have hread : (if m < fileBytes then
        fh.readIn realOffset m (fileBytes - m) (fileBytes - m) 0 b else b) =
      b.fill m (fileBytes - m) fun i => fh.file (realOffset + i) := by
    split_ifs with hlt
    · exact readIn_eq (by omega) _ _ _ (by omega) (by omega)
    · rw [show fileBytes - m = 0 by omega, HostBlock.fill_zero]
  have hin : ∀ i < len, (i < m + (fileBytes - m) ↔ realOffset + i < fh.size) := by
    intro i hi
    omega
  -- before the protection is changed
  have hlow : ∀ i < len, i < m →
      (b.fill m (fileBytes - m) fun i => fh.file (realOffset + i)) i =
        fh.fileByte isShared write (realOffset + i) := by
    intro i hi him
    rw [HostBlock.fill, if_neg (by omega), hmapped i hi him]
  have hhigh : ∀ i < len, m ≤ i →
      (b.fill m (fileBytes - m) fun i => fh.file (realOffset + i)) i =
        some { backing := .memory
                (if realOffset + i < fh.size then fh.file (realOffset + i) else 0)
               writable := true } := by
    intro i hi him
    rw [HostBlock.fill, hanon i hi him]
    by_cases hlt : realOffset + i < fh.size
    · rw [if_pos ⟨him, (hin i hi).2 hlt⟩, if_pos hlt]
      rfl
    · rw [if_neg fun hno => hlt ((hin i hi).1 hno.2), if_neg hlt]
  simp only [finish, hread]
  split_ifs with hprot
  · have hwrite : write = false := by
      simp only [Bool.and_eq_true, Bool.not_eq_true'] at hprot
      exact hprot.1.1
    refine ⟨fun i hi him => ?_, fun i hi him => ?_⟩
    · rw [HostBlock.protect, if_neg (by omega), hlow i hi him]
    · rw [HostBlock.protect, if_pos him, hhigh i hi him]
      exact ⟨_, rfl, fun hyes => absurd hyes (by simp [hwrite]), rfl⟩
  · exact ⟨hlow, fun i hi him => ⟨_, hhigh i hi him, fun _ => rfl, rfl⟩⟩

def mappedHead (fh : FileHost) (flags : MmapFlags) (realOffset len : ℕ) : ℕ :=
  if maps fh.fixedOk flags then
    min (fh.size - realOffset) len / fh.realPageSize * fh.realPageSize
  else 0

lemma lays_mapPastEnd (hb : fh.mapPastEnd flags write realOffset len = some b) :
    fh.Lays flags.shared write realOffset len (fh.mappedHead flags realOffset len) b := by
  unfold mapPastEnd at hb
  split_ifs at hb with hanon
  simp only at hb
  have hle := Nat.div_mul_le_self (min (fh.size - realOffset) len) fh.realPageSize
  have hlow : ∀ i < len, 0 ≤ i →
      HostBlock.anonymous len i = some { backing := .memory 0, writable := true } :=
    fun i hi _ => if_pos hi
  by_cases hmap : 0 < min (fh.size - realOffset) len / fh.realPageSize * fh.realPageSize ∧
      maps fh.fixedOk flags = true
  · have hfits : realOffset + min (fh.size - realOffset) len / fh.realPageSize *
        fh.realPageSize < 2 ^ 63 := by
      have := fh.size_lt
      omega
    rw [if_pos hmap.1, hostMmap, if_pos ⟨hmap.2, hfits⟩] at hb
    obtain rfl := Option.some.inj hb
    rw [mappedHead, if_pos hmap.2]
    refine lays_finish rfl hle (fun i hi him => ?_) fun i hi him => ?_
    · rw [HostBlock.overlay, if_pos him, if_pos him]
    · rw [HostBlock.overlay, if_neg (by omega), hlow i hi (Nat.zero_le _)]
  · have hnone : (if 0 < min (fh.size - realOffset) len / fh.realPageSize * fh.realPageSize then
          fh.hostMmap fh.fixedOk flags write realOffset
            (min (fh.size - realOffset) len / fh.realPageSize * fh.realPageSize)
        else none) = none := by
      split_ifs with hpos
      · exact if_neg fun hno => hmap ⟨hpos, hno.1⟩
      · rfl
    have hzero : fh.mappedHead flags realOffset len = 0 := by
      rw [mappedHead]
      split_ifs with hmaps
      · by_contra hne
        exact hmap ⟨Nat.pos_of_ne_zero hne, hmaps⟩
      · rfl
    rw [hnone] at hb
    obtain rfl := Option.some.inj hb
    rw [hzero]
    exact lays_finish rfl (Nat.zero_le _) (fun i _ him => absurd him (Nat.not_lt_zero i)) hlow

end FileHost

/-! ### Loads -/

namespace FileMapping

variable {m : FileMapping} {i pos : ℕ} {value : UInt8} {x : HostByte}

lemma load_file (hi : m.block i = some x) (hx : x.backing = .file pos) :
    m.load i = some (m.file pos) := by
  simp [load, hi, hx]

lemma load_memory (hi : m.block i = some x) (hx : x.backing = .memory value) :
    m.load i = some value := by
  simp [load, hi, hx]

lemma load_fault (hi : m.block i = none) : m.load i = none := by
  rw [load, hi, Option.map_none]

end FileMapping

/-! ### Stores to a shared mapping -/

/-- All bytes of the mapping that are in the file are the file's, and all bytes can be written. -/
structure FileMapping.Shares (m : FileMapping) (fh : FileHost) (offset count c : ℕ) : Prop where
  inside : ∀ n < count, offset + n < fh.size →
    m.block (n + c) = some { backing := .file (offset + n), writable := true }
  behind : ∀ n < count, fh.size ≤ offset + n →
    ∃ value, m.block (n + c) = some { backing := .memory value, writable := true }

section Stores

variable {fh : FileHost} {h : Host} {r : PageRange} {offset c n : ℕ} {prot : Flags}
  {memory : ℕ → UInt8} {m : FileMapping}

lemma FileMapping.Shares.store (hm : m.Shares fh offset (r.pages * pageSize) c)
    (hn : n < r.pages * pageSize) (value : UInt8) :
    ∃ m', m.store (n + c) value = some m' ∧ m'.Shares fh offset (r.pages * pageSize) c ∧
      ∀ pos < fh.size, m'.file pos = update m.file (offset + n) value pos := by
  by_cases hlt : offset + n < fh.size
  · refine ⟨{ m with file := update m.file (offset + n) value }, ?_, ⟨hm.inside, hm.behind⟩,
      fun _ _ => rfl⟩
    simp [FileMapping.store, hm.inside n hn hlt]
  · obtain ⟨old, hold⟩ := hm.behind n hn (by omega)
    have hnew : m.store (n + c) value = some { m with
        block := update m.block (n + c)
          (some { backing := .memory value, writable := true }) } := by
      simp [FileMapping.store, hold]
    refine ⟨_, hnew, ⟨?_, ?_⟩, ?_⟩
    · intro k hk hkin
      rw [← hm.inside k hk hkin]
      exact update_of_ne (by omega) _ _
    · intro k hk hkout
      by_cases hkn : k = n
      · exact ⟨value, by rw [hkn]; exact update_self _ _ _⟩
      · obtain ⟨v, hv⟩ := hm.behind k hk hkout
        exact ⟨v, (update_of_ne (by omega) _ _).trans hv⟩
    · intro pos hpos
      exact (update_of_ne (by omega) _ _).symm

lemma FileMapping.Shares.stores (hb : w.Balanced)
    (hmap : ptMap h s r.start r.pages (some memory) c prot w = (w', .ok ()))
    (hwrite : prot.write = true) (stores : List (ℕ × UInt8)) :
    ∀ (m : FileMapping) (file : ℕ → UInt8), m.Shares fh offset (r.pages * pageSize) c →
      (∀ pos < fh.size, m.file pos = file pos) → (∀ x ∈ stores, x.1 < r.pages * pageSize) →
      ∃ m', guestStores w' s w.nextData (r.start * pageSize) stores m = some m' ∧
        ∀ pos < fh.size, m'.file pos = storedInFile offset stores file pos := by
  induction stores with
  | nil =>
    intro m file _ hfile _
    exact ⟨m, rfl, hfile⟩
  | cons x stores ih =>
    intro m file hm hfile hall
    obtain ⟨n, value⟩ := x
    have hn : n < r.pages * pageSize := hall (n, value) List.mem_cons_self
    obtain ⟨m₁, hstore, hm₁, hfile₁⟩ := hm.store hn value
    have hstep : guestStore w' s w.nextData (r.start * pageSize + n) value m = some m₁ :=
      (guestStore_of_ptMap hb hmap hn hwrite value m).trans hstore
    have hsame : ∀ pos < fh.size, m₁.file pos = update file (offset + n) value pos := by
      intro pos hpos
      rw [hfile₁ pos hpos]
      by_cases heq : pos = offset + n
      · rw [heq, update_self, update_self]
      · rw [update_of_ne heq, update_of_ne heq, hfile pos hpos]
    obtain ⟨m', hrun, hend⟩ := ih m₁ _ hm₁ hsame fun y hy => hall y (List.mem_cons_of_mem _ hy)
    refine ⟨m', ?_, hend⟩
    rw [guestStores, hstep]
    exact hrun

end Stores

/-! ### When a mapping shows its file -/

/-- All that a mapping has to have: zeros and no faults behind the file, and for stores the file's
own bytes and no copies. -/
def FileHost.Suffices (fh : FileHost) (pages offset c m : ℕ) (flags : MmapFlags) (write : Bool) :
    Prop :=
  (∀ n < pages * pageSize, fh.size ≤ offset + n → n + c < m → offset + n < fh.eofPageEnd) ∧
    (flags.shared = true → write = true →
      ∀ n < pages * pageSize, offset + n < fh.size → n + c < m)

section Shows

variable {fh : FileHost} {h : Host} {r : PageRange} {offset realOffset c m : ℕ} {prot : Flags}
  {flags : MmapFlags} {memory : ℕ → UInt8} {block : HostBlock}

lemma FileHost.Lays.load_inside
    (hl : fh.Lays flags.shared prot.write realOffset (r.pages * pageSize + c) m block)
    (hoffset : realOffset + c = offset) {n : ℕ} (hn : n < r.pages * pageSize)
    (hlt : offset + n < fh.size) :
    FileMapping.load { block, file := fh.file } (n + c) = some (fh.file (offset + n)) := by
  have hpos : realOffset + (n + c) = offset + n := by omega
  by_cases hm : n + c < m
  · have hbyte := hl.mapped (n + c) (by omega) hm
    rw [hpos, FileHost.fileByte, if_pos hlt] at hbyte
    by_cases hshared : flags.shared = true
    · exact FileMapping.load_file hbyte (if_pos hshared)
    · exact FileMapping.load_memory hbyte (if_neg hshared)
  · obtain ⟨x, hx, -, hback⟩ := hl.copied (n + c) (by omega) (by omega)
    rw [hpos, if_pos hlt] at hback
    exact FileMapping.load_memory hx hback

lemma FileHost.Lays.load_behind
    (hl : fh.Lays flags.shared prot.write realOffset (r.pages * pageSize + c) m block)
    (hoffset : realOffset + c = offset) {n : ℕ} (hn : n < r.pages * pageSize)
    (hle : fh.size ≤ offset + n) :
    FileMapping.load { block, file := fh.file } (n + c) = some 0 ↔
      (n + c < m → offset + n < fh.eofPageEnd) := by
  have hpos : realOffset + (n + c) = offset + n := by omega
  by_cases hm : n + c < m
  · have hbyte := hl.mapped (n + c) (by omega) hm
    rw [hpos, FileHost.fileByte, if_neg (by omega)] at hbyte
    by_cases hend : offset + n < fh.eofPageEnd
    · rw [if_pos hend] at hbyte
      exact iff_of_true (FileMapping.load_memory hbyte rfl) fun _ => hend
    · rw [if_neg hend] at hbyte
      rw [FileMapping.load_fault hbyte]
      exact iff_of_false (fun hno => by cases hno) fun hno => hend (hno hm)
  · obtain ⟨x, hx, -, hback⟩ := hl.copied (n + c) (by omega) (by omega)
    rw [hpos, if_neg (by omega)] at hback
    exact iff_of_true (FileMapping.load_memory hx hback) fun hno => absurd hno hm

lemma FileHost.Lays.store_copied
    (hl : fh.Lays flags.shared prot.write realOffset (r.pages * pageSize + c) m block)
    {n : ℕ} (hn : n < r.pages * pageSize) (hm : m ≤ n + c) {value : UInt8} {m' : FileMapping}
    (hstore : FileMapping.store (n + c) value { block, file := fh.file } = some m') :
    m'.file = fh.file := by
  obtain ⟨x, hx, -, hback⟩ := hl.copied (n + c) (by omega) hm
  simp only [FileMapping.store, hx, hback] at hstore
  split_ifs at hstore
  obtain rfl := Option.some.inj hstore
  rfl

lemma showsFile_iff_of_lays (hb : w.Balanced)
    (hmap : ptMap h s r.start r.pages (some memory) c prot w = (w', .ok ()))
    (hl : fh.Lays flags.shared prot.write realOffset (r.pages * pageSize + c) m block)
    (hoffset : realOffset + c = offset) :
    ShowsFile fh s r offset prot flags w w' block ↔
      fh.Suffices r.pages offset c m flags prot.write := by
  constructor
  · intro hshows
    refine ⟨fun n hn hle => ?_, fun hshared hwrite n hn hlt => ?_⟩
    · have hzero := hshows.behind n hn hle
      rw [guestLoad_of_ptMap hb hmap hn] at hzero
      exact (hl.load_behind hoffset hn hle).1 hzero
    · by_contra hm
      -- a store of any other value is lost
      obtain ⟨m', hrun, hfile⟩ := hshows.stores hshared hwrite
        [(n, fh.file (offset + n) + 1)] (by simpa using hn)
      rw [guestStores, guestStore_of_ptMap hb hmap hn hwrite] at hrun
      obtain ⟨m₁, hstore, hnil⟩ := Option.bind_eq_some_iff.1 hrun
      obtain rfl : m₁ = m' := Option.some.inj hnil
      have hsame := hfile (offset + n) hlt
      rw [hl.store_copied hn (by omega) hstore, storedInFile, storedInFile, update_self] at hsame
      simp at hsame
  · rintro ⟨hbehind, hstores⟩
    refine ⟨fun n hn hlt => ?_, fun n hn hle => ?_, fun hshared hwrite stores hall => ?_⟩
    · rw [guestLoad_of_ptMap hb hmap hn]
      exact hl.load_inside hoffset hn hlt
    · rw [guestLoad_of_ptMap hb hmap hn]
      exact (hl.load_behind hoffset hn hle).2 (hbehind n hn hle)
    · refine FileMapping.Shares.stores hb hmap hwrite stores _ fh.file ⟨?_, ?_⟩
        (fun _ _ => rfl) hall
      · intro n hn hlt
        have hbyte := hl.mapped (n + c) (by omega) (hstores hshared hwrite n hn hlt)
        rw [show realOffset + (n + c) = offset + n by omega, FileHost.fileByte, if_pos hlt,
          if_pos hshared, hwrite] at hbyte
        exact hbyte
      · intro n hn hle
        by_cases hm : n + c < m
        · have hbyte := hl.mapped (n + c) (by omega) hm
          rw [show realOffset + (n + c) = offset + n by omega, FileHost.fileByte,
            if_neg (by omega), if_pos (hbehind n hn hle hm), hwrite] at hbyte
          exact ⟨0, hbyte⟩
        · obtain ⟨⟨back, wr⟩, hx, hwritable, hback⟩ := hl.copied (n + c) (by omega) (by omega)
          obtain rfl : wr = true := hwritable hwrite
          exact ⟨_, hx.trans (by rw [show back = _ from hback])⟩

end Shows

namespace FileHost

variable {fh : FileHost} {flags : MmapFlags} {write : Bool} {pages offset realOffset c : ℕ}
  {b : HostBlock}

lemma size_le_eofPageEnd : fh.size ≤ fh.eofPageEnd := by
  have hdiv := Nat.div_add_mod' (fh.size + fh.realPageSize - 1) fh.realPageSize
  have hmod := Nat.mod_lt (fh.size + fh.realPageSize - 1) fh.page_pos
  have hpos := fh.page_pos
  unfold eofPageEnd
  omega

lemma offT_le {n : ℕ} (hn : n < 2 ^ 64) : offT n ≤ n ∧ (2 ^ 63 ≤ n → offT n < 0) := by
  by_cases hsmall : n < 2 ^ 63
  · rw [TmpFile.offT_eq hsmall]
    exact ⟨le_rfl, fun hlarge => absurd hsmall (Nat.not_lt.2 hlarge)⟩
  · have hneg : offT n = (n : ℤ) - (2 ^ 64 : ℕ) :=
      (Int.sub_bmod_right _ _).symm.trans (Int.bmod_eq_of_le (by omega) (by omega))
    rw [hneg]
    exact ⟨by omega, fun _ => by omega⟩

lemma eofPageEnd_lt : fh.eofPageEnd < 2 ^ 64 := by
  have hle := Nat.div_mul_le_self (fh.size + fh.realPageSize - 1) fh.realPageSize
  have hsize := fh.size_lt
  have hpage := fh.page_le
  unfold eofPageEnd
  omega

lemma mappedHead_eq_iff (hreal : fh.realPageSize ∣ realOffset) (hle : realOffset < fh.size)
    (hlen : fh.size - realOffset ≤ c) :
    fh.size - realOffset ≤ fh.mappedHead flags realOffset c ↔
      fh.realPageSize ∣ fh.size ∧ maps fh.fixedOk flags = true := by
  rw [mappedHead, Nat.min_eq_left hlen]
  by_cases hmaps : maps fh.fixedOk flags = true
  · rw [if_pos hmaps]
    have hdvd : fh.realPageSize ∣ fh.size ↔ fh.realPageSize ∣ fh.size - realOffset :=
      ((Nat.dvd_sub_iff_left hle.le hreal)).symm
    constructor
    · intro hfull
      refine ⟨hdvd.2 ⟨(fh.size - realOffset) / fh.realPageSize, ?_⟩, hmaps⟩
      rw [Nat.mul_comm]
      exact le_antisymm hfull (Nat.div_mul_le_self _ _)
    · rintro ⟨hpage, -⟩
      exact (Nat.div_mul_cancel (hdvd.1 hpage)).ge
  · rw [if_neg hmaps]
    exact iff_of_false (by omega) fun h => hmaps h.2

lemma mappedHead_le : fh.mappedHead flags realOffset c ≤ fh.size - realOffset := by
  rw [mappedHead]
  split_ifs
  · exact (Nat.div_mul_le_self _ _).trans (min_le_left _ _)
  · exact Nat.zero_le _

lemma suffices_direct {ok : Bool}
    (hpast : ¬ (fh.fstatOk = true ∧ (fh.size : ℤ) < offT (offset + pages * pageSize)))
    (hoffset : realOffset + c = offset)
    (hb : fh.hostMmap ok flags write realOffset (pages * pageSize + c) = some b) :
    fh.Suffices pages offset c (pages * pageSize + c) flags write ↔
      fh.Suits pages offset flags write := by
  have hsmall := (lays_hostMmap hb).2.2
  have hend := TmpFile.offT_eq (show offset + pages * pageSize < 2 ^ 63 by omega)
  have heof : fh.size ≤ fh.eofPageEnd := size_le_eofPageEnd
  by_cases hstat : fh.fstatOk = true
  · have hle : offset + pages * pageSize ≤ fh.size := by
      by_contra hno
      exact hpast ⟨hstat, by omega⟩
    exact iff_of_true ⟨fun n hn _ _ => by omega, fun _ _ n hn _ => by omega⟩
      ⟨fun hno => absurd hno (by simp [hstat]), fun _ _ _ _ _ => by omega⟩
  · -- nothing is known about the size
    have hstat' : fh.fstatOk = false := by simpa using hstat
    constructor
    · rintro ⟨hbehind, -⟩
      refine ⟨fun _ => ?_, fun hyes => absurd hyes hstat⟩
      by_contra hno
      push Not at hno
      have hlast := hbehind (pages * pageSize - 1)
      have hcount : 0 < pages * pageSize := Nat.mul_pos (by omega) (by decide)
      omega
    · rintro ⟨hsuits, -⟩
      refine ⟨fun n hn _ _ => ?_, fun _ _ n hn _ => by omega⟩
      rcases hsuits hstat' with rfl | hle
      · simp at hn
      · omega

lemma suffices_mappedHead (hreal : fh.realPageSize ∣ realOffset) (hoffset : realOffset + c = offset)
    (hstat : fh.fstatOk = true) (hpast : fh.size < offset + pages * pageSize)
    (hdirect : ¬ (flags.shared = true ∧ write = true ∧
      offT (offset + pages * pageSize) ≤ offT fh.eofPageEnd ∧ maps fh.directOk flags = true)) :
    fh.Suffices pages offset c (fh.mappedHead flags realOffset (pages * pageSize + c)) flags
        write ↔ fh.Suits pages offset flags write := by
  have hhead : fh.mappedHead flags realOffset (pages * pageSize + c) ≤ fh.size - realOffset :=
    mappedHead_le
  constructor
  · rintro ⟨-, hstores⟩
    refine ⟨fun hno => absurd hno (by simp [hstat]), fun _ hshared hwrite hlow hhigh => ?_⟩
    have hlast := hstores hshared hwrite (fh.size - 1 - offset) (by omega) (by omega)
    have hfull : fh.size - realOffset ≤
        fh.mappedHead flags realOffset (pages * pageSize + c) := by omega
    exact Or.inr ((mappedHead_eq_iff hreal (by omega) (by omega)).1 hfull)
  · rintro ⟨-, hsuits⟩
    refine ⟨fun n hn hle hm => absurd hm (by omega), fun hshared hwrite n hn hin => ?_⟩
    rcases hsuits hstat hshared hwrite (by omega) (by omega) with hlast | hwhole
    · exact absurd ⟨hshared, hwrite, hlast⟩ hdirect
    · have hall := (mappedHead_eq_iff hreal (by omega)
        (show fh.size - realOffset ≤ pages * pageSize + c by omega)).2 hwhole
      omega

/-- What is laid in the memory that `realfs_mmap` makes, and when that is all that is wanted. -/
lemma lays_hostMemory (hreal : fh.realPageSize ∣ realOffset) (hoffset : realOffset + c = offset)
    (hlt : offset + pages * pageSize < 2 ^ 64)
    (hb : fh.hostMemory flags write realOffset (pages * pageSize + c) = some b) :
    ∃ m, fh.Lays flags.shared write realOffset (pages * pageSize + c) m b ∧
      (fh.Suffices pages offset c m flags write ↔ fh.Suits pages offset flags write) := by
  have hstop : realOffset + (pages * pageSize + c) = offset + pages * pageSize := by omega
  unfold hostMemory at hb
  rw [hstop] at hb
  by_cases hpast : fh.fstatOk = true ∧ (fh.size : ℤ) < offT (offset + pages * pageSize)
  · rw [if_pos hpast] at hb
    obtain ⟨hstat, hpast⟩ := hpast
    have hsmall : offset + pages * pageSize < 2 ^ 63 := by
      by_contra hno
      have := (offT_le hlt).2 (by omega)
      omega
    have hend := TmpFile.offT_eq hsmall
    by_cases hdirect : (flags.shared && write &&
        decide (offT (offset + pages * pageSize) ≤ offT fh.eofPageEnd)) = true ∧
          maps fh.directOk flags = true
    · -- the whole range is mapped, and ends in the last page
      obtain ⟨hcond, hmaps⟩ := hdirect
      have hmmap : fh.hostMmap fh.directOk flags write realOffset (pages * pageSize + c) =
          some fun i => if i < pages * pageSize + c then
            fh.fileByte flags.shared write (realOffset + i) else none :=
        if_pos ⟨hmaps, by omega⟩
      rw [if_pos hcond, hmmap] at hb
      simp only [Bool.and_eq_true, decide_eq_true_eq] at hcond
      have hinside : offset + pages * pageSize ≤ fh.eofPageEnd := by
        have := (offT_le fh.eofPageEnd_lt).1
        omega
      refine ⟨pages * pageSize + c, (lays_hostMmap (hmmap.trans hb)).1, ?_⟩
      exact iff_of_true ⟨fun n hn _ _ => by omega, fun _ _ n hn _ => by omega⟩
        ⟨fun hno => absurd hno (by simp [hstat]), fun _ _ _ _ _ => Or.inl ⟨hcond.2, hmaps⟩⟩
    · have hnone : (if (flags.shared && write &&
            decide (offT (offset + pages * pageSize) ≤ offT fh.eofPageEnd)) = true then
            fh.hostMmap fh.directOk flags write realOffset (pages * pageSize + c)
          else none) = none := by
        split_ifs with hcond
        · exact if_neg fun hmaps => hdirect ⟨hcond, hmaps.1⟩
        · rfl
      rw [hnone] at hb
      refine ⟨_, lays_mapPastEnd hb, suffices_mappedHead hreal hoffset hstat (by omega) ?_⟩
      rintro ⟨hshared, hwrite, hlast, hmaps⟩
      exact hdirect ⟨by simp [hshared, hwrite, hlast], hmaps⟩
  · rw [if_neg hpast] at hb
    exact ⟨_, (lays_hostMmap hb).1, suffices_direct hpast hoffset hb⟩

end FileHost

section Realfs

variable {fh : FileHost} {h : Host} {r : PageRange} {offset : ℕ} {prot : Flags}
  {flags : MmapFlags} {block : HostBlock}

lemma realfsMmap_lays (hoffset : offset < 2 ^ 63)
    (hok : realfsMmap h fh s r offset prot flags w = (w', .ok block)) :
    ∃ realOffset c m memory, realOffset + c = offset ∧
      ptMap h s r.start r.pages (some memory) c prot w = (w', .ok ()) ∧
      fh.Lays flags.shared prot.write realOffset (r.pages * pageSize + c) m block ∧
      (fh.Suffices r.pages offset c m flags prot.write ↔
        fh.Suits r.pages offset flags prot.write) := by
  have hreal : offset / fh.realPageSize * fh.realPageSize +
      (offset - offset / fh.realPageSize * fh.realPageSize) = offset :=
    Nat.add_sub_cancel' (Nat.div_mul_le_self _ _)
  have hlt : offset + r.pages * pageSize < 2 ^ 64 := by
    have hfits := r.fits
    unfold memPages at hfits
    unfold pageSize
    omega
  unfold realfsMmap at hok
  simp only at hok
  cases hmem : fh.hostMemory flags prot.write (offset / fh.realPageSize * fh.realPageSize)
      (r.pages * pageSize + (offset - offset / fh.realPageSize * fh.realPageSize)) with
  | none =>
    rw [hmem] at hok
    cases (Prod.ext_iff.mp hok).2
  | some b =>
    rw [hmem] at hok
    simp only at hok
    obtain ⟨m, hl, hsuits⟩ := FileHost.lays_hostMemory (Nat.dvd_mul_left _ _) hreal hlt hmem
    split at hok
    · cases (Prod.ext_iff.mp hok).2
    next hmap =>
      cases hok
      exact ⟨_, _, m, _, hreal, hmap, hl, hsuits⟩

/-- A mapping that `realfs_mmap` has made shows its file just if `Suits` says so. -/
theorem realfsMmap_shows_iff (hb : w.Balanced) (hoffset : offset < 2 ^ 63)
    (hok : realfsMmap h fh s r offset prot flags w = (w', .ok block)) :
    ShowsFile fh s r offset prot flags w w' block ↔
      fh.Suits r.pages offset flags prot.write := by
  obtain ⟨realOffset, c, m, memory, hreal, hmap, hl, hsuits⟩ := realfsMmap_lays hoffset hok
  exact (showsFile_iff_of_lays hb hmap hl hreal).trans hsuits

lemma realfsMmap_ok {b : HostBlock} (hdata : h.dataOk r.start = true)
    (hmem : fh.hostMemory flags prot.write (offset / fh.realPageSize * fh.realPageSize)
      (r.pages * pageSize + (offset - offset / fh.realPageSize * fh.realPageSize)) = some b) :
    ∃ w', realfsMmap h fh s r offset prot flags w = (w', .ok b) := by
  unfold realfsMmap
  simp only [hmem, ptMap, if_pos hdata]
  exact ⟨_, rfl⟩

end Realfs

/-- A file of 100 bytes, on a host with pages of 4096 bytes that does all it is asked for. -/
def smallFile : FileHost where
  realPageSize := 4096
  size := 100
  file := fun _ => 7
  fstatOk := true
  directOk := true
  anonOk := true
  fixedOk := true
  protectOk := true
  pread := fun _ len => len
  page_pos := by decide
  page_le := by decide
  size_lt := by decide
  pread_pos := fun _ _ _ hlen => Int.natCast_pos.2 hlen
  pread_le := fun _ _ => le_rfl

/-- A writable shared mapping of one page shows the file. -/
theorem realfsMmap_shows_onePage :
    ∃ w' block, realfsMmap {} smallFile 0 ⟨0, 1, by decide⟩ 0 { read := true, write := true }
        { shared := true } World.init = (w', .ok block) ∧
      ShowsFile smallFile 0 ⟨0, 1, by decide⟩ 0 { read := true, write := true }
        { shared := true } World.init w' block := by
  have hsome : (smallFile.hostMemory { shared := true } true (0 / 4096 * 4096)
      (1 * pageSize + (0 - 0 / 4096 * 4096))).isSome = true := by decide +kernel
  obtain ⟨block, hmem⟩ := Option.isSome_iff_exists.1 hsome
  have hdone : ∃ w', realfsMmap {} smallFile 0 ⟨0, 1, by decide⟩ 0
      { read := true, write := true } { shared := true } World.init = (w', .ok block) :=
    realfsMmap_ok rfl hmem
  obtain ⟨w', hok⟩ := hdone
  refine ⟨w', block, hok, (realfsMmap_shows_iff balanced_init (by decide) hok).2 ⟨?_, ?_⟩⟩
  · exact fun hno => by cases hno
  · exact fun _ _ _ _ _ => Or.inl ⟨by decide +kernel, rfl⟩

/-- With a second page, what is stored in the file's bytes is lost. -/
theorem realfsMmap_loses_stores :
    ∃ w' block, realfsMmap {} smallFile 0 ⟨0, 2, by decide⟩ 0 { read := true, write := true }
        { shared := true } World.init = (w', .ok block) ∧
      ¬ ShowsFile smallFile 0 ⟨0, 2, by decide⟩ 0 { read := true, write := true }
        { shared := true } World.init w' block := by
  have hsome : (smallFile.hostMemory { shared := true } true (0 / 4096 * 4096)
      (2 * pageSize + (0 - 0 / 4096 * 4096))).isSome = true := by decide +kernel
  obtain ⟨block, hmem⟩ := Option.isSome_iff_exists.1 hsome
  have hdone : ∃ w', realfsMmap {} smallFile 0 ⟨0, 2, by decide⟩ 0
      { read := true, write := true } { shared := true } World.init = (w', .ok block) :=
    realfsMmap_ok rfl hmem
  obtain ⟨w', hok⟩ := hdone
  refine ⟨w', block, hok, fun hshows => ?_⟩
  obtain ⟨realOffset, c, m, memory, hreal, hmap, hl, hsuits⟩ :=
    realfsMmap_lays (by decide) hok
  have hsuits' := hsuits.1 ((showsFile_iff_of_lays balanced_init hmap hl hreal).1 hshows)
  rcases hsuits'.2 rfl rfl rfl (by decide) (by decide) with ⟨hend, -⟩ | ⟨hpage, -⟩
  · exact absurd hend (by decide +kernel)
  · exact absurd hpage (by decide)

end ShellBox
