import ShellBox.Logic.RingBuffer
import ShellBox.Logic.Loop

/-!
# Byte fifos

A fifo keeps its bytes in a ring: `size` bytes from `start` on. A write that does not fit fails, or
makes room by dropping the oldest bytes; a read takes the oldest bytes or the newest, or only looks
at them.

The sizes are words of 64 bits. An access outside of the buffer, and a division by a capacity of 0,
has no result.
-/

namespace ShellBox

open RingBuffer

/-- Sum of two `size_t`. -/
def addSize (a b : ℕ) : ℕ := (a + b) % 2 ^ 64

/-- Difference of two `size_t`. -/
def subSize (a b : ℕ) : ℕ := (a + 2 ^ 64 - b) % 2 ^ 64

/-- `struct fifo` -/
structure Fifo where
  buf : ℕ → UInt8
  capacity : ℕ
  size : ℕ
  start : ℕ

def fifoOverwrite : BitVec 32 := 1
def fifoPeek : BitVec 32 := 1
def fifoLast : BitVec 32 := 2

/-- `flags & flag` -/
def hasFifoFlag (flags flag : BitVec 32) : Bool := flags &&& flag ≠ 0

/-- `fifo_init`; what `malloc` returns has any contents. -/
def fifoInit (buf : ℕ → UInt8) (capacity : ℕ) : Fifo := ⟨buf, capacity, 0, 0⟩

namespace Fifo

/-- `fifo_remaining` -/
def remaining (f : Fifo) : ℕ := subSize f.capacity f.size

/-- The oldest bytes go, so that `size` bytes fit. -/
def makeRoom (f : Fifo) (size : ℕ) : Fifo :=
  let excess := subSize size f.remaining
  { f with start := addSize f.start excess % f.capacity, size := subSize f.size excess }

/-- The two copies of `fifo_write`. -/
def append (f : Fifo) (data : List UInt8) : Option Fifo :=
  let tail := addSize f.start f.size % f.capacity
  if data.length - min (f.capacity - tail) data.length ≤ f.capacity then
    some { f with
      buf := putAround f.buf f.capacity tail data
      size := addSize f.size data.length }
  else none

/-- `fifo_write`; `some false` stands for the result 1. -/
def write (f : Fifo) (data : List UInt8) (flags : BitVec 32) : Option (Fifo × Bool) :=
  if f.remaining < data.length ∧ ¬ hasFifoFlag flags fifoOverwrite then some (f, false)
  else if f.capacity = 0 then none
  else
    ((if f.remaining < data.length then f.makeRoom data.length else f).append data).map (·, true)

def readStart (f : Fifo) (size : ℕ) (flags : BitVec 32) : ℕ :=
  if hasFifoFlag flags fifoLast then addSize f.start (subSize f.size size) % f.capacity else f.start

/-- `fifo_read`; without bytes for the result 1. -/
def read (f : Fifo) (size : ℕ) (flags : BitVec 32) : Option (Fifo × Option (List UInt8)) :=
  if f.size < size then some (f, none)
  else if f.capacity = 0 ∧ (hasFifoFlag flags fifoLast ∨ ¬ hasFifoFlag flags fifoPeek) then none
  else
    let start := f.readStart size flags
    let first := min (subSize f.capacity f.start) size
    if start + first ≤ f.capacity ∧ size - first ≤ f.capacity then
      let bytes := slice f.buf start first ++ slice f.buf 0 (size - first)
      if hasFifoFlag flags fifoPeek then some (f, some bytes)
      else
        some ({ f with start := addSize start size % f.capacity, size := subSize f.size size },
          some bytes)
    else none

/-- `fifo_flush` -/
def flush (f : Fifo) : Fifo := { f with size := 0 }

def contents (f : Fifo) : List UInt8 := window f.buf f.capacity f.start f.size

end Fifo

inductive FifoOp
  | write (data : List UInt8) (flags : BitVec 32)
  | read (size : ℕ) (flags : BitVec 32)
  | flush

def fifoStep (f : Fifo) : FifoOp → Option (Fifo × Option (List UInt8))
  | .write data flags => (f.write data flags).map fun r => (r.1, if r.2 then some [] else none)
  | .read size flags => f.read size flags
  | .flush => some (f.flush, some [])

/-! ### Bounded queues -/

/-- What the operations do to a queue of at most `cap` bytes. -/
def queueStep (cap : ℕ) (q : List UInt8) : FifoOp → List UInt8 × Option (List UInt8)
  | .write data flags =>
    if cap < q.length + data.length ∧ ¬ hasFifoFlag flags fifoOverwrite then (q, none)
    else ((q ++ data).rtake cap, some [])
  | .read size flags =>
    if q.length < size then (q, none)
    else if hasFifoFlag flags fifoLast then
      (if hasFifoFlag flags fifoPeek then q else q.rdrop size, some (q.rtake size))
    else (if hasFifoFlag flags fifoPeek then q else q.drop size, some (q.take size))
  | .flush => ([], some [])

/-! ### One operation -/

/-- Bytes and positions are in the buffer, which an object of the host's memory can hold. -/
structure Fifo.Valid (f : Fifo) : Prop where
  capacity : f.capacity ≤ 2 ^ 63
  size : f.size ≤ f.capacity
  start : f.start < f.capacity ∨ f.start = 0

/-- The first of the newest `size` bytes. -/
def Fifo.lastStart (f : Fifo) (size : ℕ) : ℕ := (f.start + (f.size - size)) % f.capacity

/-- An operation that the fifo does right: a write that overwrites has at most `capacity` bytes; a
read of the newest bytes would be split in two at the same byte if it began at the oldest one, and
if it takes them away, it takes all or the fifo is full. -/
def FifoOp.Fits (f : Fifo) : FifoOp → Prop
  | .write data flags => f.capacity < f.size + data.length ∧ ¬ hasFifoFlag flags fifoOverwrite ∨
      0 < f.capacity ∧ data.length ≤ f.capacity
  | .read size flags => f.size < size ∨
      (hasFifoFlag flags fifoLast ∨ ¬ hasFifoFlag flags fifoPeek → 0 < f.capacity) ∧
      (hasFifoFlag flags fifoLast →
        min (f.capacity - f.start) size = min (f.capacity - f.lastStart size) size ∧
        (¬ hasFifoFlag flags fifoPeek → size = f.size ∨ f.size = f.capacity))
  | .flush => True

lemma addSize_eq {a b : ℕ} (h : a + b < 2 ^ 64) : addSize a b = a + b := Nat.mod_eq_of_lt h

lemma subSize_eq {a b : ℕ} (h : b ≤ a) (ha : a < 2 ^ 64) : subSize a b = a - b := by
  unfold subSize
  rw [Nat.sub_add_comm h, Nat.add_mod_right, Nat.mod_eq_of_lt (by omega)]

namespace Fifo

variable {f : Fifo}

@[simp] lemma length_contents (f : Fifo) : f.contents.length = f.size := length_window _ _ _ _

lemma Valid.remaining (hf : f.Valid) : f.remaining = f.capacity - f.size :=
  subSize_eq hf.size (lt_of_le_of_lt hf.capacity (by norm_num))

lemma contents_drop {n : ℕ} (hn : n ≤ f.size) :
    contents { f with start := (f.start + n) % f.capacity, size := f.size - n } =
      f.contents.drop n := by
  unfold contents
  rw [drop_window _ _ _ hn, window_mod]

lemma contents_putAround {data : List UInt8} (hcap : 0 < f.capacity)
    (hfit : f.size + data.length ≤ f.capacity) :
    contents { f with
      buf := putAround f.buf f.capacity ((f.start + f.size) % f.capacity) data
      size := f.size + data.length } = f.contents ++ data :=
  window_putAround hcap hfit

lemma append_eq (hf : f.Valid) (data : List UInt8) (hcap : 0 < f.capacity)
    (hfit : f.size + data.length ≤ f.capacity) :
    ∃ f', f.append data = some f' ∧ f'.Valid ∧ f'.capacity = f.capacity ∧
      f'.contents = f.contents ++ data := by
  obtain ⟨hlarge, hsize, hstart⟩ := hf
  have htail : addSize f.start f.size = f.start + f.size := addSize_eq (by omega)
  have hnew : addSize f.size data.length = f.size + data.length := addSize_eq (by omega)
  unfold append
  rw [htail, hnew]
  refine ⟨_, if_pos (by omega), ⟨hlarge, hfit, hstart⟩, rfl, contents_putAround hcap hfit⟩

lemma makeRoom_eq (hf : f.Valid) {size : ℕ} (hcap : 0 < f.capacity) (hle : size ≤ f.capacity)
    (hroom : f.capacity < f.size + size) :
    f.makeRoom size = { f with
      start := (f.start + (f.size + size - f.capacity)) % f.capacity
      size := f.capacity - size } := by
  have hremaining := hf.remaining
  obtain ⟨hlarge, hsize, hstart⟩ := hf
  have hexcess : subSize size f.remaining = f.size + size - f.capacity := by
    rw [hremaining, subSize_eq (by omega) (by omega)]
    omega
  have hstart' : addSize f.start (f.size + size - f.capacity) =
      f.start + (f.size + size - f.capacity) := addSize_eq (by omega)
  have hsize' : subSize f.size (f.size + size - f.capacity) = f.capacity - size := by
    rw [subSize_eq (by omega) (by omega)]
    omega
  unfold makeRoom
  simp only [hexcess, hstart', hsize']

lemma write_spec (hf : f.Valid) {data : List UInt8} {flags : BitVec 32}
    (hfits : (FifoOp.write data flags).Fits f) :
    ∃ f', fifoStep f (.write data flags) =
        some (f', (queueStep f.capacity f.contents (.write data flags)).2) ∧
      f'.Valid ∧ f'.capacity = f.capacity ∧
      f'.contents = (queueStep f.capacity f.contents (.write data flags)).1 := by
  have hremaining := hf.remaining
  have hlen := f.length_contents
  have hsize := hf.size
  unfold fifoStep queueStep write
  simp only [hremaining, hlen]
  by_cases hfull : f.capacity < f.size + data.length ∧ ¬ hasFifoFlag flags fifoOverwrite
  · have hroom : f.capacity - f.size < data.length := by omega
    rw [if_pos ⟨hroom, hfull.2⟩, if_pos hfull]
    exact ⟨f, rfl, hf, rfl, rfl⟩
  · obtain ⟨hcap, hdata⟩ := hfits.resolve_left hfull
    rw [if_neg fun h => hfull ⟨by omega, h.2⟩, if_neg (Nat.pos_iff_ne_zero.mp hcap), if_neg hfull]
    by_cases hroom : f.capacity - f.size < data.length
    · rw [if_pos hroom, makeRoom_eq hf hcap hdata (by omega)]
      have hdrop := contents_drop (f := f) (n := f.size + data.length - f.capacity) (by omega)
      have hleft : f.size - (f.size + data.length - f.capacity) = f.capacity - data.length := by
        omega
      rw [hleft] at hdrop
      have hvalid : Fifo.Valid { f with
          start := (f.start + (f.size + data.length - f.capacity)) % f.capacity
          size := f.capacity - data.length } :=
        ⟨hf.capacity, Nat.sub_le _ _, Or.inl (Nat.mod_lt _ hcap)⟩
      obtain ⟨f', happend, hf', hcap', hcontents⟩ := append_eq hvalid data hcap
        (Nat.sub_add_cancel hdata).le
      refine ⟨f', by rw [happend]; rfl, hf', hcap', ?_⟩
      rw [hcontents, hdrop, List.rtake, List.length_append, hlen,
        List.drop_append_of_le_length (by rw [hlen]; omega)]
    · rw [if_neg hroom]
      obtain ⟨f', happend, hf', hcap', hcontents⟩ := append_eq hf data hcap (by omega)
      refine ⟨f', by rw [happend]; rfl, hf', hcap', ?_⟩
      rw [hcontents, List.rtake, List.length_append, hlen, Nat.sub_eq_zero_of_le (by omega),
        List.drop_zero]

lemma readStart_eq (hf : f.Valid) {size : ℕ} (hsize : size ≤ f.size) (flags : BitVec 32) :
    f.readStart size flags = if hasFifoFlag flags fifoLast then f.lastStart size else f.start := by
  obtain ⟨hlarge, hbound, hstart⟩ := hf
  unfold readStart lastStart
  rw [subSize_eq hsize (by omega), addSize_eq (by omega)]

lemma read_eq (hf : f.Valid) {size : ℕ} {flags : BitVec 32} (hsize : size ≤ f.size)
    (hfits : (FifoOp.read size flags).Fits f) :
    f.read size flags =
      let bytes := window f.buf f.capacity (f.readStart size flags) size
      if hasFifoFlag flags fifoPeek then some (f, some bytes)
      else some ({ f with
        start := (f.readStart size flags + size) % f.capacity
        size := f.size - size }, some bytes) := by
  obtain ⟨hcap, hlast⟩ := hfits.resolve_left (by omega)
  have hstart := readStart_eq hf hsize flags
  obtain ⟨hlarge, hbound, hlt⟩ := hf
  have hread : f.readStart size flags < f.capacity ∨ f.readStart size flags = 0 ∧ size = 0 := by
    rw [hstart]
    split_ifs with hflag
    · exact Or.inl (Nat.mod_lt _ (hcap (Or.inl hflag)))
    · omega
  have hfirst : min (f.capacity - f.start) size =
      min (f.capacity - f.readStart size flags) size := by
    rw [hstart]
    split_ifs with hflag
    · exact (hlast hflag).1
    · rfl
  unfold read
  generalize f.readStart size flags = start at hread hfirst ⊢
  have hrest : subSize f.capacity f.start = f.capacity - f.start :=
    subSize_eq (by omega) (by omega)
  have hend : addSize start size = start + size := addSize_eq (by omega)
  have hleft : subSize f.size size = f.size - size := subSize_eq hsize (by omega)
  have hbytes : slice f.buf start (min (f.capacity - start) size) ++
      slice f.buf 0 (size - min (f.capacity - start) size) =
      window f.buf f.capacity start size := by
    rcases hread with hlt | ⟨-, rfl⟩
    · exact slice_append_slice hlt (by omega)
    · simp [slice]
  rw [if_neg (by omega), if_neg fun h => (hcap h.2).ne' h.1]
  simp only [hrest, hfirst, hend, hleft, hbytes]
  exact if_pos ⟨by omega, by omega⟩

lemma window_readStart (hf : f.Valid) {size : ℕ} (hsize : size ≤ f.size) (flags : BitVec 32) :
    window f.buf f.capacity (f.readStart size flags) size =
      if hasFifoFlag flags fifoLast then f.contents.rtake size else f.contents.take size := by
  rw [readStart_eq hf hsize]
  split_ifs with hflag
  · have hdrop := drop_window f.buf f.capacity f.start (Nat.sub_le f.size size)
    rw [Nat.sub_sub_self hsize] at hdrop
    rw [lastStart, window_mod, List.rtake, length_contents]
    exact hdrop.symm
  · exact (take_window f.buf f.capacity f.start hsize).symm

lemma contents_read (hf : f.Valid) {size : ℕ} (flags : BitVec 32) (hsize : size ≤ f.size)
    (hlast : hasFifoFlag flags fifoLast → size = f.size ∨ f.size = f.capacity) :
    contents { f with
        start := (f.readStart size flags + size) % f.capacity
        size := f.size - size } =
      if hasFifoFlag flags fifoLast then f.contents.rdrop size else f.contents.drop size := by
  rw [readStart_eq hf hsize]
  split_ifs with hflag
  · rw [List.rdrop, length_contents]
    rcases hlast hflag with rfl | hfull
    · simp [contents]
    · have hturn : (f.lastStart size + size) % f.capacity = f.start % f.capacity := by
        rw [lastStart, Nat.mod_add_mod, hfull, add_assoc, Nat.sub_add_cancel (hfull ▸ hsize),
          Nat.add_mod_right]
      simp only [contents]
      rw [hturn, window_mod]
      exact (take_window f.buf f.capacity f.start (Nat.sub_le _ _)).symm
  · exact contents_drop hsize

lemma read_spec (hf : f.Valid) {size : ℕ} {flags : BitVec 32}
    (hfits : (FifoOp.read size flags).Fits f) :
    ∃ f', fifoStep f (.read size flags) =
        some (f', (queueStep f.capacity f.contents (.read size flags)).2) ∧
      f'.Valid ∧ f'.capacity = f.capacity ∧
      f'.contents = (queueStep f.capacity f.contents (.read size flags)).1 := by
  simp only [fifoStep, queueStep, length_contents]
  by_cases hfew : f.size < size
  · rw [if_pos hfew]
    exact ⟨f, if_pos hfew, hf, rfl, rfl⟩
  · rw [if_neg hfew]
    rw [Nat.not_lt] at hfew
    obtain ⟨hcap, hlast⟩ := hfits.resolve_left (by omega)
    rw [read_eq hf hfew hfits, window_readStart hf hfew]
    by_cases hpeek : hasFifoFlag flags fifoPeek = true
    · simp only [hpeek, if_true]
      refine ⟨f, ?_, hf, rfl, ?_⟩
      · split_ifs <;> rfl
      · split_ifs <;> rfl
    · simp only [hpeek, if_false, Bool.false_eq_true]
      have hleft := contents_read hf flags hfew fun hflag => (hlast hflag).2 hpeek
      refine ⟨{ f with
        start := (f.readStart size flags + size) % f.capacity
        size := f.size - size }, ?_, ⟨hf.capacity, ?_, ?_⟩, rfl, ?_⟩
      · split_ifs <;> rfl
      · exact (Nat.sub_le _ _).trans hf.size
      · exact Or.inl (Nat.mod_lt _ (hcap (Or.inr hpeek)))
      · rw [hleft]
        split_ifs <;> rfl

end Fifo

lemma fifoStep_spec {f : Fifo} (hf : f.Valid) (op : FifoOp) (hfits : op.Fits f) :
    ∃ f', fifoStep f op = some (f', (queueStep f.capacity f.contents op).2) ∧
      f'.Valid ∧ f'.capacity = f.capacity ∧
      f'.contents = (queueStep f.capacity f.contents op).1 := by
  cases op with
  | write data flags => exact Fifo.write_spec hf hfits
  | read size flags => exact Fifo.read_spec hf hfits
  | flush => exact ⟨f.flush, rfl, ⟨hf.capacity, Nat.zero_le _, hf.start⟩, rfl, rfl⟩

/-! ### Runs -/

def fifoRun (f : Fifo) : List FifoOp → Option (Fifo × List (Option (List UInt8)))
  | [] => some (f, [])
  | op :: ops =>
    (fifoStep f op).bind fun r => (fifoRun r.1 ops).map fun r' => (r'.1, r.2 :: r'.2)

def queueRun (cap : ℕ) (q : List UInt8) : List FifoOp → List UInt8 × List (Option (List UInt8))
  | [] => (q, [])
  | op :: ops =>
    let r := queueStep cap q op
    let r' := queueRun cap r.1 ops
    (r'.1, r.2 :: r'.2)

instance decidableFifoFits (f : Fifo) : ∀ op : FifoOp, Decidable (op.Fits f)
  | .write _ _ => inferInstanceAs (Decidable (_ ∨ _))
  | .read _ _ => inferInstanceAs (Decidable (_ ∨ _))
  | .flush => inferInstanceAs (Decidable True)

def FitsAll (f : Fifo) (ops : List FifoOp) : Prop :=
  AllSteps fifoStep (fun f op => op.Fits f) f ops

instance decidableFitsAll (f : Fifo) (ops : List FifoOp) : Decidable (FitsAll f ops) :=
  inferInstanceAs (Decidable (AllSteps _ _ _ _))

def Fifo.Refines (f : Fifo) (ops : List FifoOp) : Prop := ∃ f',
  fifoRun f ops = some (f', (queueRun f.capacity f.contents ops).2) ∧
    f'.contents = (queueRun f.capacity f.contents ops).1 ∧ f'.contents.length ≤ f.capacity

lemma refines_of_fitsAll {f : Fifo} (hf : f.Valid) {ops : List FifoOp} (hfits : FitsAll f ops) :
    f.Refines ops := by
  induction ops generalizing f with
  | nil => exact ⟨f, rfl, rfl, by rw [Fifo.length_contents]; exact hf.size⟩
  | cons op ops ih =>
    obtain ⟨f', hstep, hf', hcap, hcontents⟩ := fifoStep_spec hf op hfits.1
    obtain ⟨f'', hrun, hlast, hlength⟩ := ih hf' (hfits.2 _ hstep)
    rw [hcap, hcontents] at hrun hlast
    refine ⟨f'', ?_, hlast, hcap ▸ hlength⟩
    simp only [fifoRun, hstep, Option.bind_some, hrun, Option.map_some]
    rfl

/-- From an empty fifo on, whatever the buffer holds. -/
theorem fifo_refines {capacity : ℕ} (hcap : capacity ≤ 2 ^ 63) (buf : ℕ → UInt8)
    {ops : List FifoOp} (hfits : FitsAll (fifoInit buf capacity) ops) :
    (fifoInit buf capacity).Refines ops :=
  refines_of_fitsAll ⟨hcap, Nat.zero_le _, Or.inr rfl⟩ hfits

/-- A fifo that wraps, and a look at its newest byte. -/
theorem fifo_refines_wrapped :
    (fifoInit (fun _ => 0) 4).Refines [.write [1, 2, 3] 0, .read 2 0, .write [4, 5, 6] 0,
      .read 2 fifoPeek, .read 1 (fifoPeek ||| fifoLast)] :=
  fifo_refines (by norm_num) _ (by decide +kernel)

lemma Fifo.Refines.run_eq {f : Fifo} {ops : List FifoOp} (h : f.Refines ops) :
    (fifoRun f ops).map (fun r => (r.1.contents, r.2)) =
      some (queueRun f.capacity f.contents ops) := by
  obtain ⟨f', hrun, hcontents, -⟩ := h
  rw [hrun, Option.map_some, hcontents]

/-- The newest bytes of a fifo that wraps are not read from the buffer alone, others go than those
that are taken from the end, and more bytes than the capacity are written past its end. -/
theorem fifo_differs :
    ¬ (fifoInit (fun _ => 0) 4).Refines
        [.write [1, 2, 3] 0, .read 2 0, .write [4, 5] 0, .read 2 (fifoPeek ||| fifoLast)] ∧
      ¬ (fifoInit (fun _ => 0) 4).Refines [.write [1, 2, 3] 0, .read 1 fifoLast] ∧
      ¬ (fifoInit (fun _ => 0) 4).Refines [.write [1, 2, 3, 4, 5, 6, 7, 8, 9] fifoOverwrite] := by
  refine ⟨fun h => ?_, fun h => ?_, fun h => ?_⟩
  · have hrun := h.run_eq
    revert hrun
    decide +kernel
  · have hrun := h.run_eq
    revert hrun
    decide +kernel
  · have hrun := h.run_eq
    revert hrun
    decide +kernel

end ShellBox
