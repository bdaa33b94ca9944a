import ShellBox.Kernel.Memory.PageTable
import ShellBox.Kernel.Memory.Reservations

/-!
# Address spaces and the objects behind them

The state the memory code works on: the address spaces, numbered, and the `struct data`
objects they share, together with the global count of anonymous pages. Numbers of objects
are never used again, and `freed` lists those given to `free`.

The updates below are the only ones the memory code makes.
-/

namespace ShellBox

open Function

/-- `struct mem`. -/
structure Mem where
  pt : PageTable
  mmapHint : ℕ
  reservations : List MemReservation
  changes : ℕ

def Mem.init : Mem := { pt := .empty, mmapHint := 0, reservations := [], changes := 0 }

/-- All address spaces, the objects, and `anon_page_count`. -/
structure World where
  mem : ℕ → Mem
  data : DataId → Option Data
  nextData : DataId
  freed : List DataId
  anonPageCount : ℤ
  fresh : ∀ d, nextData ≤ d → data d = none ∧ d ∉ freed

/-- What the host answers during one operation: which host mappings, allocations and
protection changes succeed, the error it reports otherwise, and the stack limit. -/
structure Host where
  mmapOk : ℕ → Bool := fun _ => true
  dataOk : ℕ → Bool := fun _ => true
  reservationOk : MemReservation → Bool := fun _ => true
  protectOk : ℕ → Bool := fun _ => true
  errno : Errno := .enomem
  stackLimit : Option ℕ := none

namespace World

def init : World where
  mem := fun _ => .init
  data := fun _ => none
  nextData := 0
  freed := []
  anonPageCount := 0
  fresh := by simp

/-- The page-table entries of all address spaces, by space and page index. -/
def slot (w : World) (k : ℕ × ℕ) : Option PtEntry := (w.mem k.1).pt.entry k.2

/-! ### Updates of one address space -/

def setMem (w : World) (s : ℕ) (m : Mem) : World := { w with mem := update w.mem s m }

def memChanged (w : World) (s : ℕ) : World :=
  w.setMem s { w.mem s with changes := (w.mem s).changes + 1 }

def memPtNew (w : World) (s page : ℕ) (e : PtEntry) : World :=
  w.setMem s { w.mem s with pt := (w.mem s).pt.memPtNew page e }

def memPtDel (w : World) (s page : ℕ) : World :=
  w.setMem s { w.mem s with pt := (w.mem s).pt.memPtDel page }

def setFlags (w : World) (s page : ℕ) (f : Flags) : World :=
  w.setMem s { w.mem s with pt := (w.mem s).pt.setFlags page f }

/-! ### Updates of the objects and of the count -/

def addAnon (w : World) (n : ℤ) : World := { w with anonPageCount := w.anonPageCount + n }

/-- A new `struct data`, to which no entry refers yet. -/
def allocData (w : World) (bytes : ℕ → UInt8) : World :=
  { w with
    data := update w.data w.nextData (some { bytes, refcount := 0 })
    nextData := w.nextData + 1
    fresh := fun d hd => by
      rw [update_of_ne (Nat.ne_of_gt hd)]
      exact w.fresh d (Nat.le_of_succ_le hd) }

def modifyData (w : World) (d : DataId) (f : Data → Data) : World :=
  { w with
    data := update w.data d ((w.data d).map f)
    fresh := fun d' hd' => by
      refine ⟨?_, (w.fresh d' hd').2⟩
      by_cases h : d' = d
      · subst h; simp [(w.fresh d' hd').1]
      · rw [update_of_ne h, (w.fresh d' hd').1] }

/-- `data->refcount++`. -/
def refData (w : World) (d : DataId) : World :=
  w.modifyData d fun x => { x with refcount := x.refcount + 1 }

/-- `free(data)`. -/
def freeData (w : World) (d : DataId) (h : (w.data d).isSome) : World :=
  { w with
    data := update w.data d none
    freed := d :: w.freed
    fresh := fun d' hd' => by
      have hne : d' ≠ d := fun heq => by simp [← heq, (w.fresh d' hd').1] at h
      rw [update_of_ne hne, List.mem_cons, not_or]
      exact ⟨(w.fresh d' hd').1, hne, (w.fresh d' hd').2⟩ }

/-- `if (--data->refcount == 0) free(data)`. -/
def unrefData (w : World) (d : DataId) : World :=
  if h : (w.data d).isSome then
    if ((w.data d).get h).refcount = 1 then w.freeData d h
    else w.modifyData d fun x => { x with refcount := x.refcount - 1 }
  else w

def store (w : World) (p : HostPtr) (byte : UInt8) : World :=
  w.modifyData p.data fun x => { x with bytes := update x.bytes p.offset byte }

def load (w : World) (p : HostPtr) : Option UInt8 := (w.data p.data).map (·.bytes p.offset)

/-! ### What each update leaves alone -/

section Frame

variable (w : World) (s page : ℕ) (e : PtEntry) (f : Flags) (m : Mem) (d : DataId)

@[simp] lemma setMem_data : (w.setMem s m).data = w.data := rfl
@[simp] lemma setMem_nextData : (w.setMem s m).nextData = w.nextData := rfl
@[simp] lemma setMem_freed : (w.setMem s m).freed = w.freed := rfl
@[simp] lemma setMem_anon : (w.setMem s m).anonPageCount = w.anonPageCount := rfl
@[simp] lemma setMem_self : (w.setMem s m).mem s = m := update_self ..
@[simp] lemma setMem_of_ne {s'} (h : s' ≠ s) : (w.setMem s m).mem s' = w.mem s' := update_of_ne h ..

@[simp] lemma memChanged_data : (w.memChanged s).data = w.data := rfl
@[simp] lemma memChanged_anon : (w.memChanged s).anonPageCount = w.anonPageCount := rfl
@[simp] lemma memPtNew_data : (w.memPtNew s page e).data = w.data := rfl
@[simp] lemma memPtNew_anon : (w.memPtNew s page e).anonPageCount = w.anonPageCount := rfl
@[simp] lemma memPtDel_data : (w.memPtDel s page).data = w.data := rfl
@[simp] lemma memPtDel_anon : (w.memPtDel s page).anonPageCount = w.anonPageCount := rfl
@[simp] lemma setFlags_data : (w.setFlags s page f).data = w.data := rfl
@[simp] lemma setFlags_anon : (w.setFlags s page f).anonPageCount = w.anonPageCount := rfl

@[simp] lemma addAnon_mem (n : ℤ) : (w.addAnon n).mem = w.mem := rfl
@[simp] lemma addAnon_data (n : ℤ) : (w.addAnon n).data = w.data := rfl
@[simp] lemma addAnon_anon (n : ℤ) : (w.addAnon n).anonPageCount = w.anonPageCount + n := rfl
@[simp] lemma addAnon_slot (n : ℤ) : (w.addAnon n).slot = w.slot := rfl

@[simp] lemma allocData_mem (b : ℕ → UInt8) : (w.allocData b).mem = w.mem := rfl
@[simp] lemma allocData_slot (b : ℕ → UInt8) : (w.allocData b).slot = w.slot := rfl
@[simp] lemma allocData_anon (b : ℕ → UInt8) :
    (w.allocData b).anonPageCount = w.anonPageCount := rfl

@[simp] lemma modifyData_mem (g : Data → Data) : (w.modifyData d g).mem = w.mem := rfl
@[simp] lemma modifyData_slot (g : Data → Data) : (w.modifyData d g).slot = w.slot := rfl
@[simp] lemma modifyData_anon (g : Data → Data) :
    (w.modifyData d g).anonPageCount = w.anonPageCount := rfl
@[simp] lemma modifyData_data (g : Data → Data) :
    (w.modifyData d g).data = update w.data d ((w.data d).map g) := rfl

@[simp] lemma refData_mem : (w.refData d).mem = w.mem := rfl
@[simp] lemma refData_slot : (w.refData d).slot = w.slot := rfl
@[simp] lemma refData_anon : (w.refData d).anonPageCount = w.anonPageCount := rfl

@[simp] lemma unrefData_mem : (w.unrefData d).mem = w.mem := by
  unfold unrefData; split_ifs <;> rfl
@[simp] lemma unrefData_anon : (w.unrefData d).anonPageCount = w.anonPageCount := by
  unfold unrefData; split_ifs <;> rfl
@[simp] lemma unrefData_slot : (w.unrefData d).slot = w.slot := by
  funext k; simp [slot]

lemma unrefData_data_of_ne {d' : DataId} (hd : d' ≠ d) : (w.unrefData d).data d' = w.data d' := by
  unfold unrefData
  split_ifs <;> simp only [freeData, modifyData_data, update_of_ne hd]

@[simp] lemma store_mem (p : HostPtr) (b : UInt8) : (w.store p b).mem = w.mem := rfl
@[simp] lemma store_slot (p : HostPtr) (b : UInt8) : (w.store p b).slot = w.slot := rfl

lemma setMem_slot (h : m.pt.entry = (w.mem s).pt.entry) : (w.setMem s m).slot = w.slot := by
  funext ⟨s', i⟩
  by_cases hs : s' = s
  · subst hs; simp [slot, h]
  · simp [slot, hs]

@[simp] lemma memChanged_slot : (w.memChanged s).slot = w.slot := setMem_slot _ _ _ rfl

lemma memChanged_pt (s' : ℕ) : ((w.memChanged s).mem s').pt = (w.mem s').pt := by
  by_cases hs : s' = s
  · subst hs; simp [memChanged]
  · simp [memChanged, hs]

private lemma slot_setMem_update (pt : PageTable) (i : ℕ) (v : Option PtEntry)
    (h : pt.entry = update (w.mem s).pt.entry i v) :
    (w.setMem s { w.mem s with pt }).slot = update w.slot (s, i) v := by
  funext ⟨s', j⟩
  by_cases hs : s' = s
  · subst hs
    by_cases hj : j = i
    · subst hj; simp [slot, h]
    · simp [slot, h, hj]
  · simp [slot, hs]

@[simp] lemma memPtNew_slot :
    (w.memPtNew s page e).slot = update w.slot (s, ptIndex page) (some e) :=
  slot_setMem_update _ _ _ _ _ rfl

@[simp] lemma memPtDel_slot :
    (w.memPtDel s page).slot = update w.slot (s, ptIndex page) none :=
  slot_setMem_update _ _ _ _ _ rfl

@[simp] lemma setFlags_slot :
    (w.setFlags s page f).slot = update w.slot (s, ptIndex page)
      ((w.slot (s, ptIndex page)).map ({ · with flags := f })) :=
  slot_setMem_update _ _ _ _ _ rfl

end Frame

lemma memPt_eq_slot (w : World) (s page : ℕ) :
    (w.mem s).pt.memPt page = w.slot (s, ptIndex page) := rfl

end World

end ShellBox
