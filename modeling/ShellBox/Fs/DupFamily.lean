import ShellBox.Fs.CloseRange

/-!
# Duplicating descriptors

`dup`, `dup2`, `dup3` and the two duplicating `fcntl` calls, each from its `f_get` to the release
of the references of the system call. A store into the table or into its close-on-exec bits has no
result outside their bounds, and neither has a failed assertion.
-/

namespace ShellBox

open Function

structure DupWorld where
  fds : FdWorld
  /-- The inode of a description. -/
  inode : FdId → Option ℕ
  /-- Whether the table owns record locks on an inode. -/
  locks : ℕ → Bool

namespace FdTable

def InBounds (T : FdTable) (f : ℤ) : Prop := 0 ≤ f ∧ f < T.files.length

instance decidableInBounds (T : FdTable) (f : ℤ) : Decidable (T.InBounds f) :=
  inferInstanceAs (Decidable (0 ≤ f ∧ f < T.files.length))

/-- `table->files[f] = fd` -/
def storeIn (T : FdTable) (f : ℤ) (fd : FdId) : Option FdTable :=
  if T.InBounds f then some (T.store f (some fd)) else none

/-- `bit_set` and `bit_clear` -/
def markIn (T : FdTable) (f : ℤ) (bit : Bool) : Option FdTable :=
  if T.InBounds f then some (T.setCloexec f bit) else none

end FdTable

namespace DupWorld

variable (w : DupWorld) (t : TaskId) (tb : TableId)

def setTable (T : FdTable) : DupWorld := { w with fds := w.fds.setTable tb T }

def retain (fd : FdId) : DupWorld := { w with fds := w.fds.fdRetain fd }

/-- `fdtable_close` -/
def close (f : ℤ) : DupWorld :=
  match (w.fds.tables tb).bind (·.get f) with
  | none => w
  | some fd =>
    { w with
      fds := FdWorld.fdtableClose tb w.fds f
      locks := (w.inode fd).elim w.locks fun i => update w.locks i false }

/-- `f_install_start`, with the assertion it begins with. -/
def installStart (T : FdTable) (fd : FdId) (start : ℤ) (rlimit : ℕ) (oom : Bool) :
    Option (DupWorld × ℤ) :=
  if start < 0 then none
  else
    let slot := T.installSlot start.toNat rlimit oom
    if 0 ≤ slot.2 then
      (slot.1.storeIn slot.2 fd).bind fun T => (T.markIn slot.2 false).map fun T =>
        (w.setTable tb T, slot.2)
    else some ({ w with fds := (w.fds.setTable tb slot.1).fdClose fd }, slot.2)

/-- `syscall_refs_drain` -/
def drain : DupWorld := { w with fds := w.fds.syscallRefsRelease t }

/-- A system call between its `f_get` and `syscall_refs_drain`. -/
def withFd (f : ℤ) (oom : Bool) (k : DupWorld → TableId → FdTable → FdId → Option (DupWorld × ℤ)) :
    Option (DupWorld × ℤ) :=
  (w.fds.table t).bind fun (tb, T) =>
    match w.fds.fGet t f oom with
    | (fds, none) => some ({ w with fds }, fdEbadf)
    | (fds, some fd) =>
      (k { w with fds } tb T fd).map fun r => (r.1.drain t, r.2)

/-- `sys_dup`, with `f_install` for no flags. -/
def sysDup (f : ℤ) (rlimit : ℕ) (oomRef oom : Bool) : Option (DupWorld × ℤ) :=
  w.withFd t f oomRef fun w tb T fd => (w.retain fd).installStart tb T fd 0 rlimit oom

def sysDup3 (f newF : ℤ) (flags rlimit : ℕ) (oomRef oom : Bool) : Option (DupWorld × ℤ) :=
  w.withFd t f oomRef fun w tb T fd =>
    match T.expand newF rlimit oom with
    | .error err => some (w, err)
    | .ok T =>
      let w := ((w.setTable tb T).retain fd).close tb newF
      (w.fds.tables tb).bind fun T => (T.storeIn newF fd).bind fun T =>
        (if flags &&& oCloexec ≠ 0 then T.markIn newF true else some T).map fun T =>
          (w.setTable tb T, newF)

def sysDup2 (f newF : ℤ) (rlimit : ℕ) (oomRef oom : Bool) : Option (DupWorld × ℤ) :=
  w.sysDup3 t f newF 0 rlimit oomRef oom

/-- `F_DUPFD` -/
def fcntlDupfd (f arg : ℤ) (rlimit : ℕ) (oomRef oom : Bool) : Option (DupWorld × ℤ) :=
  w.withFd t f oomRef fun w tb T fd => (w.retain fd).installStart tb T fd arg rlimit oom

/-- `F_DUPFD_CLOEXEC`, which sets the bit of whatever it has got. -/
def fcntlDupfdCloexec (f arg : ℤ) (rlimit : ℕ) (oomRef oom : Bool) : Option (DupWorld × ℤ) :=
  w.withFd t f oomRef fun w tb T fd =>
    ((w.retain fd).installStart tb T fd arg rlimit oom).bind fun r =>
      (r.1.fds.tables tb).bind fun T => (T.markIn r.2 true).map fun T => (r.1.setTable tb T, r.2)

end DupWorld

inductive DupOp
  | dup (f : ℤ)
  | dup2 (f newF : ℤ)
  | dup3 (f newF : ℤ) (flags : ℕ)
  | dupfd (f arg : ℤ)
  | dupfdCloexec (f arg : ℤ)

def dupStep (w : DupWorld) (t : TaskId) (rlimit : ℕ) (oomRef oom : Bool) :
    DupOp → Option (DupWorld × ℤ)
  | .dup f => w.sysDup t f rlimit oomRef oom
  | .dup2 f newF => w.sysDup2 t f newF rlimit oomRef oom
  | .dup3 f newF flags => w.sysDup3 t f newF flags rlimit oomRef oom
  | .dupfd f arg => w.fcntlDupfd t f arg rlimit oomRef oom
  | .dupfdCloexec f arg => w.fcntlDupfdCloexec t f arg rlimit oomRef oom

/-! ### What the calls are for -/

namespace DupOp

def old : DupOp → ℤ
  | .dup f => f
  | .dup2 f _ => f
  | .dup3 f _ _ => f
  | .dupfd f _ => f
  | .dupfdCloexec f _ => f

def cloexec : DupOp → Bool
  | .dup _ => false
  | .dup2 _ _ => false
  | .dup3 _ _ flags => decide (flags &&& oCloexec ≠ 0)
  | .dupfd _ _ => false
  | .dupfdCloexec _ _ => true

def Asks : DupOp → ℤ → Prop
  | .dup _, n => 0 ≤ n
  | .dup2 _ newF, n => n = newF
  | .dup3 _ newF _, n => n = newF
  | .dupfd _ arg, n => arg ≤ n
  | .dupfdCloexec _ arg, n => arg ≤ n

def Onto : DupOp → Prop
  | .dup _ => False
  | .dup2 f newF => newF = f
  | .dup3 f newF _ => newF = f
  | .dupfd _ _ => False
  | .dupfdCloexec _ _ => False

end DupOp

structure SlotSet (T T' : FdTable) (n : ℕ) (fd : FdId) (bit : Bool) : Prop where
  slot : T'.files[n]? = some (some fd)
  bit : T'.cloexec n = bit
  others : ∀ g, g ≠ n → (T'.files[g]?).join = (T.files[g]?).join ∧ T'.cloexec g = T.cloexec g

/-- A table between two calls: its descriptions are alive, and the bits of empty slots are clear. -/
structure TableOk (w : DupWorld) (t : TaskId) (tb : TableId) (T : FdTable) : Prop where
  table : w.fds.table t = some (tb, T)
  size : T.files.length < 2 ^ 31
  live : ∀ (g : ℕ) fd, (T.files[g]?).join = some fd → ∃ n, w.fds.refcount fd = some (n + 1)
  clear : ∀ g : ℕ, (T.files[g]?).join = none → T.cloexec g = false
  /-- The last system call of the task has returned. -/
  drained : w.fds.refs t = []

/-- A call has stayed within the bounds. It has failed and left everything as it was, or it has
duplicated a descriptor onto itself and done so as well, or it has set one slot. -/
def DupOutcome (w : DupWorld) (tb : TableId) (T : FdTable) (f : ℤ) (asks : ℤ → Prop) (onto : Prop)
    (bit : Bool) (res : Option (DupWorld × ℤ)) : Prop :=
  ∃ w' n, res = some (w', n) ∧
    ((n < 0 ∧ w' = w) ∨ (0 ≤ n ∧ asks n ∧ ((onto ∧ w' = w) ∨
      (¬ onto ∧ ∃ fd T', T.get f = some fd ∧ w'.fds.tables tb = some T' ∧
        SlotSet T T' n.toNat fd bit))))

def DupOp.Right (op : DupOp) (w : DupWorld) (tb : TableId) (T : FdTable) (t : TaskId) (rlimit : ℕ)
    (oomRef oom : Bool) : Prop :=
  DupOutcome w tb T op.old op.Asks op.Onto op.cloexec (dupStep w t rlimit oomRef oom op)

/-! ### When they do it -/

/-- `f_install_start` finds a slot. -/
def FdTable.HasSlot (T : FdTable) (start rlimit : ℕ) (oom : Bool) : Prop :=
  (∃ f, start ≤ f ∧ f < T.scanEnd rlimit ∧ T.files[f]? = some none) ∨
    (max start (T.scanEnd rlimit) < rlimit ∧
      (max start (T.scanEnd rlimit) < T.files.length ∨ oom = false))

/-- `dup3` may be asked for this number. A negative one has to fail in `fdtable_expand`, and the
number of the descriptor itself has to fail there as well, or to have the right flag and no locks.
-/
def DupWorld.FitsDup3 (w : DupWorld) (T : FdTable) (f newF : ℤ) (bit : Bool) (rlimit : ℕ)
    (oom : Bool) : Prop :=
  if newF < 0 then rlimit < ((newF + 1) % 2 ^ 32).toNat ∨ (newF ≠ -1 ∧ oom = true)
  else newF = f → rlimit ≤ newF.toNat ∨ (T.cloexec f.toNat = bit ∧
    ∀ fd ∈ T.get f, ∀ i ∈ w.inode fd, w.locks i = false)

def DupOp.Fits (w : DupWorld) (T : FdTable) (rlimit : ℕ) (oom : Bool) : DupOp → Prop
  | .dup _ => True
  | .dup2 f newF => w.FitsDup3 T f newF false rlimit oom
  | .dup3 f newF flags => w.FitsDup3 T f newF (decide (flags &&& oCloexec ≠ 0)) rlimit oom
  | .dupfd _ arg => 0 ≤ arg
  | .dupfdCloexec _ arg => 0 ≤ arg ∧ T.HasSlot arg.toNat rlimit oom

/-- The numbers are what a `fd_t` holds. -/
def DupOp.Args32 : DupOp → Prop
  | .dup f => -2 ^ 31 ≤ f ∧ f < 2 ^ 31
  | .dup2 _ newF => -2 ^ 31 ≤ newF ∧ newF < 2 ^ 31
  | .dup3 _ newF _ => -2 ^ 31 ≤ newF ∧ newF < 2 ^ 31
  | .dupfd _ arg => -2 ^ 31 ≤ arg ∧ arg < 2 ^ 31
  | .dupfdCloexec _ arg => -2 ^ 31 ≤ arg ∧ arg < 2 ^ 31

variable {w : DupWorld} {t : TaskId} {tb : TableId} {T T' : FdTable} {fd : FdId} {rlimit : ℕ}
  {oomRef oom : Bool}

/-! ### The reference of the system call -/

namespace DupWorld

/-- After `f_get`. -/
def got (w : DupWorld) (t : TaskId) (fd : FdId) : DupWorld :=
  { w with fds := { w.fds.fdRetain fd with refs := update w.fds.refs t [fd] } }

lemma withFd_none (h : TableOk w t tb T) {f : ℤ} (hf : T.get f = none ∨ oom = true)
    (k : DupWorld → TableId → FdTable → FdId → Option (DupWorld × ℤ)) :
    w.withFd t f oom k = some (w, fdEbadf) := by
  have hget : w.fds.fGet t f oom = (w.fds, none) := by
    rw [FdWorld.fGet, h.table, Option.bind_some]
    cases hfd : T.get f with
    | none => rfl
    | some fd =>
      obtain hno | rfl := hf
      · rw [hno] at hfd
        cases hfd
      · simp [h.drained]
  rw [withFd, h.table, Option.bind_some, hget]

lemma withFd_some (h : TableOk w t tb T) {f : ℤ} (hf : T.get f = some fd)
    (k : DupWorld → TableId → FdTable → FdId → Option (DupWorld × ℤ)) :
    w.withFd t f false k = (k (w.got t fd) tb T fd).map fun r => (r.1.drain t, r.2) := by
  have hget : w.fds.fGet t f false = ((w.got t fd).fds, some fd) := by
    rw [FdWorld.fGet, h.table, Option.bind_some, hf]
    simp [h.drained, got, FdWorld.fdRetain]
  rw [withFd, h.table, Option.bind_some, hget]
  rfl

lemma drain_eq (h : TableOk w t tb T) {v : FdWorld} (hv : v.refs = update w.fds.refs t [fd]) :
    v.syscallRefsRelease t = { v with refs := w.fds.refs }.fdClose fd := by
  have hback : update (update w.fds.refs t [fd]) t [] = w.fds.refs := by
    rw [update_idem, ← h.drained, update_eq_self]
  rw [FdWorld.syscallRefsRelease, hv, update_self, hback]
  rfl

end DupWorld

/-! ### The slot that is found -/

lemma expand_cases (T : FdTable) {m : ℕ} (hm : m < 2 ^ 31) (rlimit : ℕ) (oom : Bool) :
    ((m < rlimit ∧ (m < T.files.length ∨ oom = false)) ∧
      ∃ T', T.expand m rlimit oom = .ok T' ∧ T'.InBounds m ∧ T'.cloexec = T.cloexec ∧
        ∀ i : ℕ, (T'.files[i]?).join = (T.files[i]?).join) ∨
    (¬ (m < rlimit ∧ (m < T.files.length ∨ oom = false)) ∧
      ∃ err, T.expand m rlimit oom = .error err ∧ err < 0) := by
  have hsize : (((m : ℤ) + 1) % 2 ^ 32).toNat = m + 1 := by omega
  cases hexp : T.expand m rlimit oom with
  | error err =>
    refine Or.inr ⟨?_, err, rfl, FdWorld.expand_error hexp⟩
    rintro ⟨hlimit, hroom⟩
    simp only [FdTable.expand, hsize] at hexp
    split_ifs at hexp with h₁ h₂ h₃
    · omega
    · rcases hroom with hroom | hroom
      · omega
      · rw [hroom] at h₃
        cases h₃
  | ok T' =>
    refine Or.inl ⟨?_, T', rfl, ?_, ?_, (FdWorld.expand_slots hexp).1⟩
    all_goals
      simp only [FdTable.expand, hsize] at hexp
      split_ifs at hexp with h₁ h₂ h₃
    · exact ⟨by omega, Or.inl (by omega)⟩
    · exact ⟨by omega, Or.inr (by simpa using h₃)⟩
    · cases hexp
      exact ⟨by omega, by omega⟩
    · cases hexp
      refine ⟨by omega, ?_⟩
      simp only [FdTable.resize, List.length_append, List.length_replicate]
      omega
    · cases hexp
      rfl
    · cases hexp
      rfl

lemma installSlot_cases (hsize : T.files.length < 2 ^ 31) {start : ℕ} (hstart : start < 2 ^ 31)
    (rlimit : ℕ) (oom : Bool) :
    (T.HasSlot start rlimit oom ∧ ∃ T' f, T.installSlot start rlimit oom = (T', f) ∧
      (start : ℤ) ≤ f ∧ T'.InBounds f ∧ T'.cloexec = T.cloexec ∧
      ∀ i : ℕ, (T'.files[i]?).join = (T.files[i]?).join) ∨
    (¬ T.HasSlot start rlimit oom ∧ ∃ err, T.installSlot start rlimit oom = (T, err) ∧
      err < 0) := by
  have hend : T.scanEnd rlimit ≤ T.files.length := min_le_right _ _
  cases hfind : (List.range' start (T.scanEnd rlimit - start)).find?
      (fun f => T.files[f]? = some none) with
  | some f =>
    have hmem := List.mem_of_find?_eq_some hfind
    have hempty : T.files[f]? = some none := by simpa using List.find?_some hfind
    rw [List.mem_range'_1] at hmem
    refine Or.inl ⟨Or.inl ⟨f, by omega, by omega, hempty⟩, T, f, ?_, by omega,
      ⟨by omega, by omega⟩, rfl, fun _ => rfl⟩
    simp only [FdTable.installSlot, hfind]
    rw [FdWorld.asFdT_of_lt (by omega)]
  | none =>
    have hno : ¬ ∃ f, start ≤ f ∧ f < T.scanEnd rlimit ∧ T.files[f]? = some none := by
      rintro ⟨f, hf, hlt, hempty⟩
      rw [List.find?_eq_none] at hfind
      exact hfind f (by rw [List.mem_range'_1]; omega) (by simpa using hempty)
    have hm : max start (T.scanEnd rlimit) < 2 ^ 31 := by omega
    have hslot : T.HasSlot start rlimit oom ↔ max start (T.scanEnd rlimit) < rlimit ∧
        (max start (T.scanEnd rlimit) < T.files.length ∨ oom = false) := or_iff_right hno
    rw [hslot]
    obtain ⟨hroom, T', hexp, hin, hbits, hslots⟩ | ⟨hroom, err, hexp, herr⟩ :=
      expand_cases T hm rlimit oom
    · refine Or.inl ⟨hroom, T', _, ?_, by omega, hin, hbits, hslots⟩
      simp only [FdTable.installSlot, hfind, FdWorld.asFdT_of_lt hm, hexp]
    · refine Or.inr ⟨hroom, err, ?_, herr⟩
      simp only [FdTable.installSlot, hfind, FdWorld.asFdT_of_lt hm, hexp]

lemma slotSet_store {f : ℤ} (hin : T'.InBounds f) (hbits : T'.cloexec = T.cloexec)
    (hslots : ∀ i : ℕ, (T'.files[i]?).join = (T.files[i]?).join) (fd : FdId) (bit : Bool) :
    SlotSet T ((T'.store f (some fd)).setCloexec f bit) f.toNat fd bit := by
  obtain ⟨n, rfl⟩ := Int.eq_ofNat_of_zero_le hin.1
  have hn : n < T'.files.length := by simpa using hin.2
  rw [FdWorld.store_nat, FdWorld.setCloexec_nat, Int.toNat_natCast]
  refine ⟨List.getElem?_set_self hn, update_self _ _ _, fun g hg => ⟨?_, ?_⟩⟩
  · rw [List.getElem?_set_ne (Ne.symm hg), hslots]
  · exact (update_of_ne hg _ _).trans (congrFun hbits g)

lemma inBounds_store {f g : ℤ} (v : Option FdId) (hin : T.InBounds f) :
    (T.store g v).InBounds f := by
  rw [FdTable.InBounds, FdTable.store]
  split_ifs
  · exact hin
  · rw [List.length_set]
    exact hin

lemma inBounds_setCloexec {f g : ℤ} (bit : Bool) (hin : T.InBounds f) :
    (T.setCloexec g bit).InBounds f := by
  rw [FdTable.InBounds, (FdWorld.files_setCloexec T g bit).1]
  exact hin

/-! ### The calls -/

namespace DupWorld

lemma live_get (h : TableOk w t tb T) {f : ℤ} (hf : T.get f = some fd) :
    ∃ n, w.fds.refcount fd = some (n + 1) := by
  obtain ⟨-, -, hslot⟩ := FdWorld.get_eq_some hf
  exact h.live f.toNat fd (by rw [hslot]; rfl)

lemma tables_eq (h : TableOk w t tb T) : w.fds.tables tb = some T :=
  (FdWorld.table_eq_some h.table).2

lemma close_retain (h : TableOk w t tb T) {f : ℤ} (hf : T.get f = some fd) :
    ((w.got t fd).fds.fdRetain fd).fdClose fd = (w.got t fd).fds := by
  obtain ⟨n, hn⟩ := live_get h hf
  have hcount : (w.got t fd).fds.refcount fd = some (n + 2) := by
    show update w.fds.refcount fd _ fd = _
    rw [update_self, hn]
    rfl
  refine FdWorld.fdClose_fdRetain ?_ ?_
  · rw [hcount]
    rfl
  · rw [hcount]
    simp

lemma retain_close (h : TableOk w t tb T) {f : ℤ} (hf : T.get f = some fd) :
    (w.fds.fdRetain fd).fdClose fd = w.fds := by
  obtain ⟨n, hn⟩ := live_get h hf
  refine FdWorld.fdClose_fdRetain ?_ ?_
  · rw [hn]
    rfl
  · rw [hn]
    simp

lemma drain_got (h : TableOk w t tb T) {f : ℤ} (hf : T.get f = some fd) :
    (w.got t fd).drain t = w := by
  have hdrain : (w.got t fd).fds.syscallRefsRelease t = w.fds := by
    rw [drain_eq h rfl]
    exact retain_close h hf
  rw [drain, hdrain]
  rfl

lemma setTable_self (h : TableOk w t tb T) : w.setTable tb T = w := by
  rw [setTable, FdWorld.setTable, ← tables_eq h, update_eq_self]

lemma tables_drain (v : FdWorld) (t : TaskId) : (v.syscallRefsRelease t).tables = v.tables := by
  rw [FdWorld.syscallRefsRelease]
  refine List.foldlRecOn (motive := fun u : FdWorld => u.tables = v.tables) (v.refs t)
    FdWorld.fdClose rfl fun u hu fd _ => ?_
  rw [FdWorld.tables_fdClose, hu]

lemma installStart_cases (h : TableOk w t tb T) {f : ℤ} (hf : T.get f = some fd) {start : ℤ}
    (hstart : 0 ≤ start) (hlt : start < 2 ^ 31) (rlimit : ℕ) (oom : Bool) :
    (T.HasSlot start.toNat rlimit oom ∧ ∃ T' n,
      ((w.got t fd).retain fd).installStart tb T fd start rlimit oom =
        some (((w.got t fd).retain fd).setTable tb T', n) ∧
      start ≤ n ∧ T'.InBounds n ∧ SlotSet T T' n.toNat fd false) ∨
    (¬ T.HasSlot start.toNat rlimit oom ∧ ∃ err, err < 0 ∧
      ((w.got t fd).retain fd).installStart tb T fd start rlimit oom =
        some (w.got t fd, err)) := by
  obtain ⟨m, rfl⟩ := Int.eq_ofNat_of_zero_le hstart
  rw [installStart, if_neg (by omega), Int.toNat_natCast]
  obtain ⟨hslot, T', n, heq, hle, hin, hbits, hslots⟩ | ⟨hslot, err, heq, herr⟩ :=
    installSlot_cases h.size (show m < 2 ^ 31 by omega) rlimit oom
  · have hin' : (T'.store n (some fd)).InBounds n := inBounds_store (some fd) hin
    refine Or.inl ⟨hslot, (T'.store n (some fd)).setCloexec n false, n, ?_, hle,
      inBounds_setCloexec false hin', slotSet_store hin hbits hslots fd false⟩
    simp only [heq]
    rw [if_pos hin.1, FdTable.storeIn, if_pos hin, Option.bind_some, FdTable.markIn, if_pos hin']
    rfl
  · refine Or.inr ⟨hslot, err, herr, ?_⟩
    have hself : ((w.got t fd).fds.fdRetain fd).setTable tb T = (w.got t fd).fds.fdRetain fd := by
      have htables : ((w.got t fd).fds.fdRetain fd).tables tb = some T := tables_eq h
      rw [FdWorld.setTable, ← htables, update_eq_self]
    simp only [heq]
    rw [if_neg (by omega)]
    show some (({ w.got t fd with
      fds := (((w.got t fd).fds.fdRetain fd).setTable tb T).fdClose fd } : DupWorld), err) = _
    rw [hself, close_retain h hf]

lemma close_table {v : DupWorld} (newF : ℤ) (hv : v.fds.tables tb = some T') :
    ∃ T₂, (v.close tb newF).fds.tables tb = some T₂ ∧ T₂.files.length = T'.files.length ∧
      (∀ g : ℕ, (g : ℤ) ≠ newF → T₂.files[g]? = T'.files[g]? ∧ T₂.cloexec g = T'.cloexec g) ∧
      ((T'.get newF = none ∧ T₂ = T') ∨ T₂.cloexec newF.toNat = false) := by
  rw [close, hv, Option.bind_some]
  cases hget : T'.get newF with
  | none => exact ⟨T', hv, rfl, fun _ _ => ⟨rfl, rfl⟩, Or.inl ⟨rfl, rfl⟩⟩
  | some old =>
    obtain ⟨hnonneg, -, -⟩ := FdWorld.get_eq_some hget
    obtain ⟨n, rfl⟩ := Int.eq_ofNat_of_zero_le hnonneg
    refine ⟨(T'.store n none).setCloexec n false, ?_, ?_, fun g hg => ?_, Or.inr ?_⟩
    · simp only [FdWorld.fdtableClose, hv, hget]
      exact update_self _ _ _
    · rw [(FdWorld.files_setCloexec _ _ _).1, FdWorld.store_nat, List.length_set]
    · have hne : n ≠ g := fun heq => hg (heq ▸ rfl)
      rw [FdWorld.setCloexec_nat, FdWorld.store_nat]
      exact ⟨List.getElem?_set_ne hne, update_of_ne hne.symm _ _⟩
    · rw [FdWorld.setCloexec_nat, Int.toNat_natCast]
      exact update_self _ _ _

/-- `dup3` after `fdtable_expand`. -/
def dup3Store (w : DupWorld) (tb : TableId) (T : FdTable) (fd : FdId) (newF : ℤ) (bit : Bool) :
    Option (DupWorld × ℤ) :=
  let w := ((w.setTable tb T).retain fd).close tb newF
  (w.fds.tables tb).bind fun T => (T.storeIn newF fd).bind fun T =>
    (if bit then T.markIn newF true else some T).map fun T => (w.setTable tb T, newF)

lemma sysDup3_eq (h : TableOk w t tb T) {f : ℤ} (hf : T.get f = some fd) (newF : ℤ)
    (flags rlimit : ℕ) (oom : Bool) : w.sysDup3 t f newF flags rlimit false oom =
      (match T.expand newF rlimit oom with
        | .error err => some (w.got t fd, err)
        | .ok T' => (w.got t fd).dup3Store tb T' fd newF (decide (flags &&& oCloexec ≠ 0))).map
      fun (r : DupWorld × ℤ) => (r.1.drain t, r.2) := by
  rw [sysDup3, withFd_some h hf]
  cases T.expand newF rlimit oom with
  | error err => rfl
  | ok T' => simp only [dup3Store, decide_eq_true_eq]

lemma dup3Store_outside {v : DupWorld} {newF : ℤ} (hin : ¬ T'.InBounds newF) (fd : FdId)
    (bit : Bool) : v.dup3Store tb T' fd newF bit = none := by
  obtain ⟨T₂, hT₂, hlen, -, -⟩ := close_table newF
    (show ((v.setTable tb T').retain fd).fds.tables tb = some T' from update_self _ _ _)
  have hin' : ¬ T₂.InBounds newF := by
    rw [FdTable.InBounds, hlen]
    exact hin
  simp only [dup3Store, hT₂, Option.bind_some, FdTable.storeIn]
  rw [if_neg hin']
  rfl

lemma dup3Store_inside {v : DupWorld} {n : ℕ} (hin : T'.InBounds n)
    (hbits : T'.cloexec = T.cloexec) (hslots : ∀ i : ℕ, (T'.files[i]?).join = (T.files[i]?).join)
    (hclear : (T.files[n]?).join = none → T.cloexec n = false) (fd : FdId) (bit : Bool) :
    ∃ (u : DupWorld) (T₃ : FdTable), v.dup3Store tb T' fd n bit = some (u, (n : ℤ)) ∧
      u.fds.tables tb = some T₃ ∧
      SlotSet T T₃ n fd bit := by
  obtain ⟨T₂, hT₂, hlen, hother, hself⟩ := close_table n
    (show ((v.setTable tb T').retain fd).fds.tables tb = some T' from update_self _ _ _)
  have hin₂ : T₂.InBounds n := by
    rw [FdTable.InBounds, hlen]
    exact hin
  have hclear₂ : T₂.cloexec n = false := by
    rcases hself with ⟨hnone, rfl⟩ | hself
    · rw [hbits]
      refine hclear ?_
      rw [← hslots]
      rw [FdTable.get, if_neg, Int.toNat_natCast] at hnone
      · exact hnone
      · exact not_or_intro (by omega) (by have := hin.2; omega)
    · exact hself
  have hlt : n < T₂.files.length := by simpa using hin₂.2
  have hin₃ : (T₂.store n (some fd)).InBounds n := inBounds_store (some fd) hin₂
  obtain ⟨T₃, hT₃⟩ : ∃ T₃, T₃ =
      if bit then (T₂.store n (some fd)).setCloexec n true else T₂.store n (some fd) := ⟨_, rfl⟩
  refine ⟨(((v.setTable tb T').retain fd).close tb n).setTable tb T₃, T₃, ?_,
    update_self _ _ _, ?_⟩
  · simp only [dup3Store, hT₂, Option.bind_some, FdTable.storeIn, FdTable.markIn, hT₃]
    rw [if_pos hin₂, Option.bind_some, if_pos hin₃]
    cases bit <;> rfl
  · rw [hT₃]
    have hset : ∀ g, g ≠ n → (T₂.files[g]?).join = (T.files[g]?).join ∧
        T₂.cloexec g = T.cloexec g := by
      intro g hg
      obtain ⟨hfile, hbit⟩ := hother g (by exact_mod_cast hg)
      exact ⟨by rw [hfile, hslots], hbit.trans (congrFun hbits g)⟩
    cases bit with
    | false =>
      rw [if_neg Bool.false_ne_true, FdWorld.store_nat]
      refine ⟨List.getElem?_set_self hlt, hclear₂, fun g hg => ⟨?_, (hset g hg).2⟩⟩
      rw [List.getElem?_set_ne (Ne.symm hg)]
      exact (hset g hg).1
    | true =>
      rw [if_pos rfl, FdWorld.store_nat, FdWorld.setCloexec_nat]
      refine ⟨List.getElem?_set_self hlt, update_self _ _ _, fun g hg => ⟨?_, ?_⟩⟩
      · rw [List.getElem?_set_ne (Ne.symm hg)]
        exact (hset g hg).1
      · exact (update_of_ne hg _ _).trans (hset g hg).2

lemma dup3Store_self (h : TableOk w t tb T) {n : ℕ} (hf : T.get n = some fd) (bit : Bool) :
    (w.got t fd).dup3Store tb T fd n bit = some
      ({ (w.got t fd).setTable tb { T with cloexec := update T.cloexec n bit } with
        locks := (w.inode fd).elim w.locks fun i => update w.locks i false }, (n : ℤ)) := by
  obtain ⟨-, hlt, hslot⟩ := FdWorld.get_eq_some hf
  rw [Int.toNat_natCast] at hlt hslot
  have hin : T.InBounds n := ⟨by omega, by omega⟩
  have htables : w.fds.tables tb = some T := tables_eq h
  have hgot : (w.got t fd).setTable tb T = w.got t fd := by
    have hself : update w.fds.tables tb (some T) = w.fds.tables := by
      rw [← htables, update_eq_self]
    show ({ fds := { (w.got t fd).fds with tables := update w.fds.tables tb (some T) }, inode := _,
            locks := _ } : DupWorld) = _
    rw [hself]
    rfl
  have hclose : ((w.got t fd).retain fd).close tb n =
      { (w.got t fd).setTable tb ((T.store n none).setCloexec n false) with
        locks := (w.inode fd).elim w.locks fun i => update w.locks i false } := by
    have htables' : ((w.got t fd).retain fd).fds.tables tb = some T := htables
    rw [close, htables', Option.bind_some, hf]
    simp only [FdWorld.fdtableClose, htables', hf]
    show ({ fds := (((w.got t fd).fds.fdRetain fd).fdClose fd).setTable tb _, inode := _,
            locks := _ } : DupWorld) = _
    rw [close_retain h hf]
    rfl
  have hfiles : (T.files.set n none).set n (some fd) = T.files := by
    have hget : T.files[n] = some fd := by
      rw [List.getElem?_eq_getElem hlt] at hslot
      exact Option.some.inj hslot
    rw [List.set_set, ← hget, List.set_getElem_self]
  have hin₂ : ((T.store n none).setCloexec n false).InBounds n :=
    inBounds_setCloexec false (inBounds_store none hin)
  have hin₃ : (((T.store n none).setCloexec n false).store n (some fd)).InBounds n :=
    inBounds_store (some fd) hin₂
  have htables₂ : ∀ T', ((w.got t fd).setTable tb T').fds.tables tb = some T' :=
    fun T' => update_self _ _ _
  simp only [dup3Store, hgot, hclose, htables₂, Option.bind_some, FdTable.storeIn, FdTable.markIn]
  rw [if_pos hin₂, Option.bind_some, if_pos hin₃]
  cases bit with
  | false =>
    rw [if_neg Bool.false_ne_true, Option.map_some, FdWorld.store_nat, FdWorld.setCloexec_nat,
      FdWorld.store_nat]
    simp only [hfiles]
    simp [setTable, FdWorld.setTable]
  | true =>
    rw [if_pos rfl, Option.map_some]
    simp only [FdWorld.store_nat, FdWorld.setCloexec_nat, hfiles, update_idem]
    simp [setTable, FdWorld.setTable]

lemma outcome_failed (h : TableOk w t tb T) {f : ℤ} (hf : T.get f = some fd) {err : ℤ}
    (herr : err < 0) (asks : ℤ → Prop) (onto : Prop) (bit : Bool) :
    DupOutcome w tb T f asks onto bit ((some (w.got t fd, err)).map
      fun (r : DupWorld × ℤ) => (r.1.drain t, r.2)) :=
  ⟨w, err, by rw [Option.map_some, drain_got h hf], Or.inl ⟨herr, rfl⟩⟩

lemma outcome_set {f : ℤ} (hf : T.get f = some fd) {u : DupWorld} {n : ℤ} {asks : ℤ → Prop}
    {onto : Prop} {bit : Bool} (hn : 0 ≤ n) (hasks : asks n) (honto : ¬ onto)
    (hT : u.fds.tables tb = some T') (hset : SlotSet T T' n.toNat fd bit) :
    DupOutcome w tb T f asks onto bit ((some (u, n)).map
      fun (r : DupWorld × ℤ) => (r.1.drain t, r.2)) := by
  refine ⟨u.drain t, n, rfl, Or.inr ⟨hn, hasks, Or.inr ⟨honto, fd, T', hf, ?_, hset⟩⟩⟩
  rw [drain, tables_drain]
  exact hT

lemma expand_negative (T : FdTable) (hsize : T.files.length < 2 ^ 31) {newF : ℤ} (hneg : newF < 0)
    (hlow : -2 ^ 31 ≤ newF) (rlimit : ℕ) (oom : Bool) :
    ((rlimit < ((newF + 1) % 2 ^ 32).toNat ∨ (newF ≠ -1 ∧ oom = true)) ∧
      ∃ err, T.expand newF rlimit oom = .error err ∧ err < 0) ∨
    (¬ (rlimit < ((newF + 1) % 2 ^ 32).toNat ∨ (newF ≠ -1 ∧ oom = true)) ∧
      ∃ T', T.expand newF rlimit oom = .ok T') := by
  cases hexp : T.expand newF rlimit oom with
  | error err =>
    refine Or.inl ⟨?_, err, rfl, FdWorld.expand_error hexp⟩
    simp only [FdTable.expand] at hexp
    split_ifs at hexp with h₁ h₂ h₃
    · exact Or.inl h₁
    · refine Or.inr ⟨?_, h₃⟩
      rintro rfl
      exact h₂ (Nat.zero_le _)
  | ok T' =>
    refine Or.inr ⟨?_, T', rfl⟩
    simp only [FdTable.expand] at hexp
    split_ifs at hexp with h₁ h₂ h₃
    · have hone : newF = -1 := by omega
      exact not_or_intro h₁ fun hno => hno.1 hone
    · exact not_or_intro h₁ fun hno => h₃ hno.2

lemma outcome_self (h : TableOk w t tb T) {n : ℕ} (hf : T.get n = some fd) {rlimit : ℕ}
    (hlimit : n < rlimit) (hexp : T.expand n rlimit oom = .ok T') (bit : Bool) :
    DupOutcome w tb T n (· = (n : ℤ)) ((n : ℤ) = n) bit
      (((w.got t fd).dup3Store tb T' fd n bit).map
        fun (r : DupWorld × ℤ) => (r.1.drain t, r.2)) ↔
    ((n : ℤ) = n → rlimit ≤ (n : ℤ).toNat ∨ (T.cloexec (n : ℤ).toNat = bit ∧
      ∀ fd ∈ T.get n, ∀ i ∈ w.inode fd, w.locks i = false)) := by
  obtain ⟨-, hlt, -⟩ := FdWorld.get_eq_some hf
  rw [Int.toNat_natCast] at hlt ⊢
  have hsame : T' = T := by
    have hsize : (((n : ℤ) + 1) % 2 ^ 32).toNat = n + 1 := by
      have := h.size
      omega
    simp only [FdTable.expand, hsize] at hexp
    rw [if_neg (by omega), if_pos (by omega)] at hexp
    cases hexp
    rfl
  subst hsame
  have hlocks : (w.inode fd).elim w.locks (fun i => update w.locks i false) = w.locks ↔
      ∀ i ∈ w.inode fd, w.locks i = false := by
    cases w.inode fd with
    | none => exact iff_of_true rfl fun i hi => by cases hi
    | some i =>
      rw [Option.elim_some]
      constructor
      · intro hsame j hj
        cases hj
        rw [← hsame, update_self]
      · intro hclear
        rw [← hclear i rfl, update_eq_self]
  have hfits : ((n : ℤ) = n → rlimit ≤ n ∨ (T'.cloexec n = bit ∧
      ∀ fd ∈ T'.get n, ∀ i ∈ w.inode fd, w.locks i = false)) ↔
      T'.cloexec n = bit ∧ (w.inode fd).elim w.locks (fun i => update w.locks i false) =
        w.locks := by
    rw [hlocks, imp_iff_right rfl, or_iff_right (not_le.mpr hlimit), hf]
    refine and_congr_right fun _ => ⟨fun hall => hall fd rfl, fun hall g hg => ?_⟩
    cases hg
    exact hall
  rw [hfits, dup3Store_self h hf, Option.map_some]
  have hdrain : ({ (w.got t fd).setTable tb { T' with cloexec := update T'.cloexec n bit } with
      locks := (w.inode fd).elim w.locks fun i => update w.locks i false } : DupWorld).drain t =
      { w.setTable tb { T' with cloexec := update T'.cloexec n bit } with
        locks := (w.inode fd).elim w.locks fun i => update w.locks i false } := by
    have hfds : ((w.got t fd).fds.setTable tb
        { T' with cloexec := update T'.cloexec n bit }).syscallRefsRelease t =
        w.fds.setTable tb { T' with cloexec := update T'.cloexec n bit } := by
      rw [drain_eq h rfl]
      show ((w.fds.fdRetain fd).setTable tb _).fdClose fd = _
      rw [FdWorld.fdClose_setTable, retain_close h hf]
    show ({ fds := ((w.got t fd).fds.setTable tb _).syscallRefsRelease t, inode := _, locks := _ } :
      DupWorld) = _
    rw [hfds]
    rfl
  rw [hdrain]
  constructor
  · rintro ⟨w', m, hres, hw'⟩
    obtain ⟨hw, rfl⟩ := Prod.mk.inj (Option.some.inj hres)
    have hsame : w' = w := by
      rcases hw' with ⟨-, hsame⟩ | ⟨-, -, ⟨-, hsame⟩ | ⟨hno, -⟩⟩
      · exact hsame
      · exact hsame
      · exact absurd rfl hno
    rw [hsame] at hw
    have htable := congrArg (fun v : DupWorld => v.fds.tables tb) hw
    have hbits : some { T' with cloexec := update T'.cloexec n bit } = some T' :=
      (update_self tb _ w.fds.tables).symm.trans (htable.trans (tables_eq h))
    refine ⟨?_, congrArg DupWorld.locks hw⟩
    rw [← congrArg (fun T : FdTable => T.cloexec n) (Option.some.inj hbits)]
    exact update_self _ _ _
  · rintro ⟨hbit, hsame⟩
    refine ⟨w, n, ?_, Or.inr ⟨by omega, rfl, Or.inl ⟨rfl, rfl⟩⟩⟩
    rw [hsame, ← hbit, update_eq_self, setTable_self h]

lemma outcome_dup3 (h : TableOk w t tb T) {f newF : ℤ} (hf : T.get f = some fd)
    (hlow : -2 ^ 31 ≤ newF) (hhigh : newF < 2 ^ 31) (flags rlimit : ℕ) (oom : Bool) :
    DupOutcome w tb T f (· = newF) (newF = f) (decide (flags &&& oCloexec ≠ 0))
      (w.sysDup3 t f newF flags rlimit false oom) ↔
    w.FitsDup3 T f newF (decide (flags &&& oCloexec ≠ 0)) rlimit oom := by
  rw [sysDup3_eq h hf, FitsDup3]
  generalize decide (flags &&& oCloexec ≠ 0) = bit
  by_cases hneg : newF < 0
  · rw [if_pos hneg]
    obtain ⟨hfits, err, hexp, herr⟩ | ⟨hfits, T', hexp⟩ :=
      expand_negative T h.size hneg hlow rlimit oom
    · simp only [hexp]
      exact iff_of_true (outcome_failed h hf herr _ _ _) hfits
    · simp only [hexp]
      refine iff_of_false ?_ hfits
      rintro ⟨w', n, hres, -⟩
      have hout : ¬ T'.InBounds newF := fun hin => absurd hin.1 (not_le.mpr hneg)
      rw [dup3Store_outside hout] at hres
      cases hres
  · rw [if_neg hneg]
    obtain ⟨n, rfl⟩ := Int.eq_ofNat_of_zero_le (not_lt.mp hneg)
    have hn : n < 2 ^ 31 := by omega
    obtain ⟨hroom, T', hexp, hin, hbits, hslots⟩ | ⟨hroom, err, hexp, herr⟩ :=
      expand_cases T hn rlimit oom
    · simp only [hexp]
      by_cases hself : (n : ℤ) = f
      · subst hself
        exact outcome_self h hf hroom.1 hexp bit
      · obtain ⟨u, T₃, hu, hT₃, hset⟩ := dup3Store_inside (v := w.got t fd) hin hbits hslots
          (h.clear n) fd bit
        rw [hu]
        refine iff_of_true ?_ fun hn => absurd hn hself
        refine outcome_set hf (by omega) rfl hself hT₃ ?_
        rw [Int.toNat_natCast]
        exact hset
    · simp only [hexp]
      refine iff_of_true (outcome_failed h hf herr _ _ _) fun hself => ?_
      subst hself
      obtain ⟨-, hlt, -⟩ := FdWorld.get_eq_some hf
      rw [Int.toNat_natCast] at hlt ⊢
      left
      by_contra hlimit
      exact hroom ⟨by omega, Or.inl hlt⟩

lemma outcome_install (h : TableOk w t tb T) {f start : ℤ} (hf : T.get f = some fd)
    (hlt : start < 2 ^ 31) (rlimit : ℕ) (oom : Bool) {asks : ℤ → Prop}
    (hasks : ∀ n, 0 ≤ n → start ≤ n → asks n) :
    DupOutcome w tb T f asks False false
      (w.withFd t f false fun w tb T fd => (w.retain fd).installStart tb T fd start rlimit oom) ↔
    0 ≤ start := by
  rw [withFd_some h hf]
  by_cases hstart : 0 ≤ start
  · refine iff_of_true ?_ hstart
    obtain ⟨-, T', n, heq, hle, hin, hset⟩ | ⟨-, err, herr, heq⟩ :=
      installStart_cases h hf hstart hlt rlimit oom
    · rw [heq]
      exact outcome_set hf hin.1 (hasks n hin.1 hle) id (update_self _ _ _) hset
    · rw [heq]
      exact outcome_failed h hf herr _ _ _
  · refine iff_of_false ?_ hstart
    rintro ⟨w', n, hres, -⟩
    rw [installStart, if_pos (not_le.mp hstart)] at hres
    cases hres

lemma outcome_installCloexec (h : TableOk w t tb T) {f start : ℤ} (hf : T.get f = some fd)
    (hlt : start < 2 ^ 31) (rlimit : ℕ) (oom : Bool) :
    DupOutcome w tb T f (start ≤ ·) False true (w.fcntlDupfdCloexec t f start rlimit false oom) ↔
    0 ≤ start ∧ T.HasSlot start.toNat rlimit oom := by
  rw [fcntlDupfdCloexec, withFd_some h hf]
  by_cases hstart : 0 ≤ start
  · rw [and_iff_right hstart]
    obtain ⟨hslot, T', n, heq, hle, hin, hset⟩ | ⟨hslot, err, herr, heq⟩ :=
      installStart_cases h hf hstart hlt rlimit oom
    · refine iff_of_true ?_ hslot
      have htables : (((w.got t fd).retain fd).setTable tb T').fds.tables tb = some T' :=
        update_self _ _ _
      simp only [heq, Option.bind_some, htables, FdTable.markIn]
      rw [if_pos hin]
      obtain ⟨m, rfl⟩ := Int.eq_ofNat_of_zero_le hin.1
      refine outcome_set hf hin.1 hle id (update_self _ _ _) ?_
      rw [Int.toNat_natCast, FdWorld.setCloexec_nat] at *
      refine ⟨hset.slot, update_self _ _ _, fun g hg => ⟨(hset.others g hg).1, ?_⟩⟩
      exact (update_of_ne hg _ _).trans (hset.others g hg).2
    · refine iff_of_false ?_ hslot
      rintro ⟨w', n, hres, -⟩
      have hout : ¬ T.InBounds err := fun hin => absurd hin.1 (not_le.mpr herr)
      have htables : (w.got t fd).fds.tables tb = some T := (tables_eq h : w.fds.tables tb = _)
      simp only [heq, Option.bind_some, htables, FdTable.markIn] at hres
      rw [if_neg hout] at hres
      cases hres
  · refine iff_of_false ?_ fun hfits => hstart hfits.1
    rintro ⟨w', n, hres, -⟩
    rw [installStart, if_pos (not_le.mp hstart)] at hres
    cases hres

end DupWorld

open DupWorld in
/-- The calls stay within bounds and do what they are asked for exactly when there is no descriptor
to duplicate, or they fit. -/
theorem dup_family_exact (h : TableOk w t tb T) {op : DupOp} (hop : op.Args32) (rlimit : ℕ)
    (oomRef oom : Bool) : op.Right w tb T t rlimit oomRef oom ↔
      T.get op.old = none ∨ oomRef = true ∨ op.Fits w T rlimit oom := by
  by_cases hno : T.get op.old = none ∨ oomRef = true
  · have hres : dupStep w t rlimit oomRef oom op = some (w, fdEbadf) := by
      cases op <;>
        simp only [dupStep, sysDup, sysDup2, sysDup3, fcntlDupfd, fcntlDupfdCloexec] <;>
        exact withFd_none h hno _
    exact iff_of_true ⟨w, fdEbadf, hres, Or.inl ⟨by decide, rfl⟩⟩ (or_assoc.mp (Or.inl hno))
  · rw [← or_assoc, or_iff_right hno]
    obtain ⟨hget, hoom⟩ := not_or.mp hno
    obtain ⟨fd, hf⟩ := Option.ne_none_iff_exists'.mp hget
    obtain rfl : oomRef = false := by simpa using hoom
    cases op with
    | dup f =>
      have hiff := outcome_install h hf (by decide : (0 : ℤ) < 2 ^ 31) rlimit oom fun n hn _ => hn
      exact hiff.trans (iff_of_true le_rfl trivial)
    | dup2 f newF => exact outcome_dup3 h hf hop.1 hop.2 0 rlimit oom
    | dup3 f newF flags => exact outcome_dup3 h hf hop.1 hop.2 flags rlimit oom
    | dupfd f arg => exact outcome_install h hf hop.2 rlimit oom fun n _ hle => hle
    | dupfdCloexec f arg => exact outcome_installCloexec h hf hop.2 rlimit oom

def threeOpenDup : DupWorld := ⟨FdWorld.threeOpenWorld, fun _ => none, fun _ => false⟩

lemma tableOk_threeOpen : TableOk threeOpenDup 0 0 FdWorld.threeOpen where
  table := rfl
  size := by decide
  live g fd hfd := by
    rcases g with _ | _ | _ | g
    · cases hfd
      exact ⟨0, rfl⟩
    · cases hfd
      exact ⟨0, rfl⟩
    · cases hfd
      exact ⟨0, rfl⟩
    · cases hfd
  clear _ _ := rfl
  drained := rfl

/-- A descriptor is duplicated onto an open one, with the flag. -/
theorem dup_family_exact_dup3 :
    (DupOp.dup3 1 2 oCloexec).Right threeOpenDup 0 FdWorld.threeOpen 0 1024 false false :=
  (dup_family_exact tableOk_threeOpen
    (show (DupOp.dup3 1 2 oCloexec).Args32 from ⟨by decide, by decide⟩) 1024 false false).mpr
    (Or.inr (Or.inr fun hno => absurd hno (by decide)))

/-- The new number -1 makes a store before the array. -/
theorem dup_family_not_exact :
    ¬ (DupOp.dup2 1 (-1)).Right threeOpenDup 0 FdWorld.threeOpen 0 1024 false false := by
  rintro ⟨w', n, hres, -⟩
  have hnone : dupStep threeOpenDup 0 1024 false false (.dup2 1 (-1)) = none := by rfl
  rw [hnone] at hres
  cases hres

end ShellBox
