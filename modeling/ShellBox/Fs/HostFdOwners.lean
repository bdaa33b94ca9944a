import ShellBox.Fs.HostFds

/-!
# Who owns a descriptor of the host

While a call runs it owns the descriptors that it has obtained and not passed on; every other that
is open belongs to one description. A description that is made takes one of them from the call,
and the end of a description closes its own. So a call that has given one away has nothing to
close any more, which the error paths of the calls do not take into account.
-/

namespace ShellBox

open Function

namespace FdTable

variable {T T' : FdTable}

/-- The table has a place for one more descriptor: a slot below the limit that is empty, or the one
where the search ends, if that is below the limit and there is memory for a table with it. -/
def Takes (T : FdTable) (rlimit : ℕ) (oom : Bool) : Prop :=
  (∃ f < T.scanEnd rlimit, f < 2 ^ 31 ∧ T.files[f]? = some none) ∨
    T.scanEnd rlimit < rlimit ∧ T.scanEnd rlimit < 2 ^ 31 ∧
      (T.files[T.scanEnd rlimit]? = some none ∨ T.files.length ≤ T.scanEnd rlimit ∧ oom = false)

def filled (T : FdTable) (rlimit : ℕ) (oom : Bool) (fd : FdId) : FdTable :=
  let slot := T.installSlot 0 rlimit oom
  slot.1.store slot.2 (some fd)

lemma takes_congr (h : T'.files = T.files) {rlimit : ℕ} {oom : Bool} :
    T'.Takes rlimit oom ↔ T.Takes rlimit oom := by
  unfold Takes scanEnd
  rw [h]

lemma hasRoom_of_takes {rlimit : ℕ} {oom : Bool} (h : T.Takes rlimit oom) :
    T.HasRoom 0 rlimit := by
  obtain ⟨f, hf, -, hempty⟩ | ⟨-, -, hempty | ⟨hlen, -⟩⟩ := h
  · exact .inr (.inl ⟨f, Nat.zero_le f, hf, hempty⟩)
  · refine .inr (.inr ?_)
    rw [Nat.zero_max, hempty]
    rfl
  · refine .inr (.inr ?_)
    rw [Nat.zero_max, List.getElem?_eq_none hlen]
    rfl

lemma expand_scanEnd {f rlimit : ℕ} (oom : Bool) (hf : f < 2 ^ 31) (hlimit : f < rlimit)
    (hroom : f < T.files.length ∨ oom = false) : ∃ T', T.expand f rlimit oom = .ok T' := by
  have hsize : (((f : ℤ) + 1) % 2 ^ 32).toNat = f + 1 := by omega
  unfold expand
  simp only [hsize]
  split_ifs with h h' h''
  · omega
  · exact ⟨_, rfl⟩
  · obtain hlen | hoom := hroom
    · omega
    · rw [hoom] at h''
      cases h''
  · exact ⟨_, rfl⟩

lemma asFdT_of_lt {f : ℕ} (hf : f < 2 ^ 31) : asFdT f = f := if_pos hf

lemma installSlot_of_takes {rlimit : ℕ} {oom : Bool} (h : T.Takes rlimit oom) :
    0 ≤ (T.installSlot 0 rlimit oom).2 := by
  unfold installSlot
  cases hfind : (List.range' 0 (T.scanEnd rlimit - 0)).find?
      (fun f => T.files[f]? = some none) with
  | some f =>
    simp only [hfind]
    obtain ⟨f', hf', hlt, hempty⟩ | ⟨-, hlt, -⟩ := h
    · -- the first empty slot comes before every other
      have hle : f ≤ f' := by
        by_contra hgt
        rw [List.find?_range'_eq_some] at hfind
        have hbefore := hfind.2.2 f' (Nat.zero_le f') (by omega)
        simp [hempty] at hbefore
      rw [asFdT_of_lt (by omega)]
      exact Int.natCast_nonneg f
    · have hmem := List.mem_of_find?_eq_some hfind
      rw [List.mem_range'_1] at hmem
      rw [asFdT_of_lt (by omega)]
      exact Int.natCast_nonneg f
  | none =>
    simp only [hfind]
    rw [List.find?_eq_none] at hfind
    obtain ⟨f', hf', -, hempty⟩ | ⟨hlimit, hlt, hroom⟩ := h
    · have hno := hfind f' (by rw [List.mem_range'_1]; omega)
      simp [hempty] at hno
    · rw [Nat.zero_max]
      obtain ⟨T', hok⟩ := expand_scanEnd oom hlt hlimit (hroom.imp
        (fun hempty => (List.getElem?_eq_some_iff.1 hempty).1) And.right)
      rw [asFdT_of_lt hlt, hok]
      exact Int.natCast_nonneg _

end FdTable

lemma FdWorld.table_install {w : FdWorld} {t : TaskId} {tb : TableId} {T : FdTable} {i : ℕ}
    {fd : FdId} (flags : ℕ) {rlimit : ℕ} {oom : Bool} (hpending : w.pending t = none)
    (htable : w.table t = some (tb, T)) (hheld : w.held i = some fd)
    (hslot : 0 ≤ (T.installSlot 0 rlimit oom).2) :
    (fdStep w (.install t i flags rlimit oom)).pending = w.pending ∧
      (fdStep w (.install t i flags rlimit oom)).held = update w.held i none ∧
      ∃ T', (fdStep w (.install t i flags rlimit oom)).table t = some (tb, T') ∧
        T'.files = (T.filled rlimit oom fd).files := by
  have hfiles := (table_eq_some htable).1
  let w₀ : FdWorld := { w with held := update w.held i none }
  let slot := T.installSlot 0 rlimit oom
  have hstep : fdStep w (.install t i flags rlimit oom) = w₀.fInstall tb T fd flags rlimit oom := by
    simp only [fdStep, onTable, hpending, htable, hheld]
    rfl
  have hstart : (w₀.fInstallStart tb T fd 0 rlimit oom).1 = (w₀.setTable tb slot.1).setTable tb
      ((slot.1.store slot.2 (some fd)).setCloexec slot.2 false) := by
    unfold fInstallStart
    rw [if_pos hslot]
  have hfilled : ((slot.1.store slot.2 (some fd)).setCloexec slot.2 false).files =
      (T.filled rlimit oom fd).files := (files_setCloexec _ _ _).1
  rw [hstep]
  obtain heq | ⟨T₁, bit, f, hT₁, heq⟩ := fInstall_eq w₀ tb T fd flags rlimit oom
  · rw [heq, hstart]
    exact ⟨rfl, rfl, _, table_of_eq hfiles (by simp [setTable]), hfilled⟩
  · rw [hstart] at heq hT₁
    rw [heq]
    simp only [setTable, update_self, Option.some.injEq] at hT₁
    refine ⟨rfl, rfl, _, table_of_eq hfiles (by simp [setTable]; rfl), ?_⟩
    rw [(files_setCloexec _ _ _).1, ← hT₁]
    exact hfilled

open FdWorld in
lemma FdWorld.get_same (w : FdWorld) (t : TaskId) (f : ℤ) (oom : Bool) :
    (fdStep w (.get t f oom)).tables = w.tables ∧ (fdStep w (.get t f oom)).files = w.files ∧
      (fdStep w (.get t f oom)).pending = w.pending ∧
      (fdStep w (.get t f oom)).held = w.held := by
  refine onTable_rule (P := fun w' => w'.tables = w.tables ∧ w'.files = w.files ∧
    w'.pending = w.pending ∧ w'.held = w.held) ⟨rfl, rfl, rfl, rfl⟩ t fun tb T _ _ _ => ?_
  unfold fGet
  split
  · exact ⟨rfl, rfl, rfl, rfl⟩
  · split_ifs
    · exact ⟨rfl, rfl, rfl, rfl⟩
    · exact ⟨rfl, rfl, rfl, rfl⟩
    · exact ⟨rfl, rfl, rfl, rfl⟩

namespace HostWorld

variable {w : HostWorld} {L : List ℕ} {t : TaskId}

/-- Each open descriptor of the host belongs to a description, or to the call that runs, which has
those of a list; and none has been closed twice. -/
structure OwnedBut (L : List ℕ) (w : HostWorld) : Prop where
  inv : w.fds.Inv
  strays : w.strays = []
  nodup : L.Nodup
  isOpen : ∀ n, w.isOpen n = true ↔
    n ∈ L ∨ ∃ fd, w.fds.refcount fd ≠ none ∧ w.realFd fd = some n
  loose : ∀ n ∈ L, ∀ fd, w.fds.refcount fd ≠ none → w.realFd fd ≠ some n
  unique : ∀ fd fd' n, w.fds.refcount fd ≠ none → w.fds.refcount fd' ≠ none →
    w.realFd fd = some n → w.realFd fd' = some n → fd = fd'
  made : ∀ fd, w.realFd fd ≠ none → w.fds.refcount fd ≠ none ∨ fd ∈ w.fds.closed

lemma foldr_closeOp (l : List FdId) (hl : l.Nodup)
    (hopen : ∀ fd ∈ l, ∀ n, w.realFd fd = some n → w.isOpen n = true)
    (huniq : ∀ fd ∈ l, ∀ fd' ∈ l, ∀ n, w.realFd fd = some n → w.realFd fd' = some n → fd = fd') :
    let w' := l.foldr (fun fd w => closeOp w fd) w
    w'.fds = w.fds ∧ w'.realFd = w.realFd ∧ w'.strays = w.strays ∧
      ∀ n, w'.isOpen n = true ↔ w.isOpen n = true ∧ ∀ fd ∈ l, w.realFd fd ≠ some n := by
  induction l with
  | nil => simp
  | cons fd l ih =>
    rw [List.nodup_cons] at hl
    obtain ⟨hfds, hreal, hstrays, hisOpen⟩ := ih hl.2
      (fun fd' h => hopen fd' (List.mem_cons_of_mem fd h))
      fun fd' h fd'' h' => huniq fd' (List.mem_cons_of_mem fd h) fd'' (List.mem_cons_of_mem fd h')
    simp only [List.foldr_cons]
    generalize l.foldr (fun fd w => closeOp w fd) w = w' at hfds hreal hstrays hisOpen ⊢
    unfold closeOp
    split
    · rename_i n hn
      rw [hreal] at hn
      have hother : ∀ fd' ∈ l, w.realFd fd' ≠ some n := by
        intro fd' hfd' hn'
        exact hl.1 (huniq fd List.mem_cons_self fd' (List.mem_cons_of_mem fd hfd') n hn hn' ▸ hfd')
      have hnow : w'.isOpen n = true :=
        (hisOpen n).2 ⟨hopen fd List.mem_cons_self n hn, hother⟩
      unfold hostClose
      rw [if_pos hnow]
      refine ⟨hfds, hreal, hstrays, fun m => ?_⟩
      by_cases hm : m = n
      · simp [hm, hn]
      · simp only [update_of_ne hm, hisOpen, List.forall_mem_cons, hn]
        have hne : some n ≠ some m := fun h => hm (Option.some.inj h).symm
        tauto
    · rename_i hn
      rw [hreal] at hn
      refine ⟨hfds, hreal, hstrays, fun m => ?_⟩
      rw [hisOpen, List.forall_mem_cons, hn]
      simp

/-! ### What keeps the descriptors owned -/

namespace OwnedBut

lemma hostOpen (h : w.OwnedBut L) {n : ℕ} (hn : w.isOpen n = false) :
    (w.hostOpen n).OwnedBut (n :: L) := by
  have hnew : ∀ fd, w.fds.refcount fd ≠ none → w.realFd fd ≠ some n := by
    intro fd hfd hreal
    rw [(h.isOpen n).2 (.inr ⟨fd, hfd, hreal⟩)] at hn
    cases hn
  refine ⟨h.inv, h.strays, List.nodup_cons.2 ⟨fun hmem => ?_, h.nodup⟩, fun m => ?_, fun m hm => ?_,
    h.unique, h.made⟩
  · rw [(h.isOpen n).2 (.inl hmem)] at hn
    cases hn
  · by_cases hm : m = n
    · simp [HostWorld.hostOpen, hm]
    · simp only [HostWorld.hostOpen, update_of_ne hm, List.mem_cons, hm, false_or]
      exact h.isOpen m
  · obtain rfl | hm := List.mem_cons.1 hm
    · exact hnew
    · exact h.loose m hm

lemma hostClose {n : ℕ} (h : w.OwnedBut (n :: L)) : (w.hostClose n).OwnedBut L := by
  have hnow : w.isOpen n = true := (h.isOpen n).2 (.inl List.mem_cons_self)
  obtain ⟨hn, hL⟩ := List.nodup_cons.1 h.nodup
  unfold HostWorld.hostClose
  rw [if_pos hnow]
  refine ⟨h.inv, h.strays, hL, fun m => ?_, fun m hm => h.loose m (List.mem_cons_of_mem n hm),
    h.unique, h.made⟩
  by_cases hm : m = n
  · simp only [hm, update_self, Bool.false_eq_true, false_iff, not_or, not_exists, not_and]
    exact ⟨hn, h.loose n List.mem_cons_self⟩
  · simp only [update_of_ne hm]
    rw [h.isOpen, List.mem_cons, or_iff_right hm]

lemma setFds (h : w.OwnedBut L) {fds : FdWorld} (hinv : fds.Inv) (hc : w.fds.Closes fds) :
    (w.setFds fds).OwnedBut L := by
  have hmem : ∀ fd, fd ∈ fds.closed.filter (· ∉ w.fds.closed) ↔
      w.fds.refcount fd ≠ none ∧ fds.refcount fd = none := by
    intro fd
    rw [List.mem_filter, hc.closed]
    simp only [decide_eq_true_eq]
    have hdead : fd ∈ w.fds.closed → w.fds.refcount fd = none := h.inv.fd.fds.dead fd
    tauto
  obtain ⟨hfds, hreal, hstrays, hisOpen⟩ := foldr_closeOp (w := { w with fds := fds })
    (fds.closed.filter (· ∉ w.fds.closed)) (hinv.fd.fds.nodup.filter _)
    (fun fd hfd n hn => (h.isOpen n).2 (.inr ⟨fd, ((hmem fd).1 hfd).1, hn⟩))
    fun fd hfd fd' hfd' n hn hn' =>
      h.unique fd fd' n ((hmem fd).1 hfd).1 ((hmem fd').1 hfd').1 hn hn'
  have hlive : ∀ fd, fds.refcount fd ≠ none → w.fds.refcount fd ≠ none :=
    fun fd hfd hgone => hfd (hc.gone fd hgone)
  show OwnedBut L ((fds.closed.filter (· ∉ w.fds.closed)).foldr (fun fd w => closeOp w fd)
    { w with fds := fds })
  generalize List.foldr (fun fd w => closeOp w fd) { w with fds := fds }
    (fds.closed.filter (· ∉ w.fds.closed)) = w' at hfds hreal hstrays hisOpen ⊢
  refine ⟨hfds ▸ hinv, hstrays.trans h.strays, h.nodup, fun n => ?_, fun n hn fd hfd => ?_,
    fun fd fd' n hfd hfd' => ?_, fun fd hfd => ?_⟩
  · rw [hisOpen, h.isOpen, hfds, hreal]
    constructor
    · rintro ⟨hL | ⟨fd, hfd, hn⟩, hkeep⟩
      · exact .inl hL
      · exact .inr ⟨fd, fun hgone => hkeep fd ((hmem fd).2 ⟨hfd, hgone⟩) hn, hn⟩
    · rintro (hL | ⟨fd, hfd, hn⟩)
      · exact ⟨.inl hL, fun fd hfd => h.loose n hL fd ((hmem fd).1 hfd).1⟩
      · refine ⟨.inr ⟨fd, hlive fd hfd, hn⟩, fun fd' hfd' hn' => ?_⟩
        obtain ⟨hlive', hgone⟩ := (hmem fd').1 hfd'
        rw [h.unique fd fd' n (hlive fd hfd) hlive' hn hn'] at hfd
        exact hfd hgone
  · rw [hfds] at hfd
    rw [hreal]
    exact h.loose n hn fd (hlive fd hfd)
  · rw [hfds] at hfd hfd'
    rw [hreal]
    exact h.unique fd fd' n (hlive fd hfd) (hlive fd' hfd')
  · rw [hreal] at hfd
    rw [hfds, hc.closed]
    have hmade := h.made fd hfd
    tauto

end OwnedBut

@[simp] lemma fds_setFds (fds : FdWorld) : (w.setFds fds).fds = fds := by
  unfold setFds
  refine List.foldrRecOn (motive := fun w' : HostWorld => w'.fds = fds) _ _ rfl ?_
  intro w' hw' fd _
  unfold closeOp
  split
  · unfold HostWorld.hostClose
    split_ifs
    · exact hw'
    · exact hw'
  · exact hw'

lemma isOpen_fdOp {n : ℕ} (op : FdOp) (hn : w.isOpen n = false) :
    (w.fdOp op).isOpen n = false := by
  unfold fdOp setFds
  refine List.foldrRecOn (motive := fun w' : HostWorld => w'.isOpen n = false) _ _ hn ?_
  intro w' hw' fd _
  unfold closeOp
  split
  · rename_i m _
    unfold HostWorld.hostClose
    split_ifs
    · by_cases hm : n = m
      · simp [hm]
      · simpa [update_of_ne hm] using hw'
    · exact hw'
  · exact hw'

@[simp] lemma fds_fdOp (op : FdOp) : (w.fdOp op).fds = fdStep w.fds op := fds_setFds _

lemma runs_table (hruns : w.Runs t) :
    w.fds.pending t = none ∧ ∃ tb T, w.fds.table t = some (tb, T) := by
  obtain ⟨hpending, htable⟩ := hruns
  obtain ⟨⟨tb, T⟩, hT⟩ := Option.isSome_iff_exists.1 htable
  exact ⟨Option.isNone_iff_eq_none.1 hpending, tb, T, hT⟩

def withFd (w : HostWorld) (i : ℕ) (fd : FdId) : FdWorld :=
  { w.fds with
    refcount := update w.fds.refcount fd (some 1)
    held := update w.fds.held i (some fd) }

lemma fdOp_create {i : ℕ} {fd : FdId} (hnew : w.Fresh i fd) :
    w.fdOp (.create i fd) = { w with fds := w.withFd i fd } := by
  have hfds : fdStep w.fds (.create i fd) = w.withFd i fd := if_pos hnew
  have hnone : (w.withFd i fd).closed.filter (· ∉ w.fds.closed) = [] := by
    rw [List.filter_eq_nil_iff]
    simp [withFd]
  unfold fdOp setFds
  rw [hfds, hnone]
  rfl

namespace OwnedBut

lemma make {L' : List ℕ} (h : w.OwnedBut L') {i : ℕ} {fd : FdId} (hnew : w.Fresh i fd)
    {v : Option ℕ} (hL : L.Nodup) (hv : ∀ n, n ∈ L' ↔ n ∈ L ∨ v = some n)
    (hdisjoint : ∀ n ∈ L, v ≠ some n) (socket : FdId → Option SocketInfo) :
    OwnedBut L { w with
      fds := w.withFd i fd, realFd := update w.realFd fd v, socket := socket } := by
  have hinv : (fdStep w.fds (.create i fd)).Inv := inv_fdStep trivial h.inv
  rw [show fdStep w.fds (.create i fd) = w.withFd i fd from if_pos hnew] at hinv
  -- the other descriptions are there, and have what they had
  have hother : ∀ fd', fd' ≠ fd → ((w.withFd i fd).refcount fd' = w.fds.refcount fd' ∧
      update w.realFd fd v fd' = w.realFd fd') :=
    fun fd' hne => ⟨update_of_ne hne _ _, update_of_ne hne _ _⟩
  have hself : (w.withFd i fd).refcount fd ≠ none := by
    simp [withFd]
  refine ⟨hinv, h.strays, hL, fun n => ?_, fun n hn fd' hfd' => ?_,
    fun fd₁ fd₂ n hfd₁ hfd₂ => ?_, fun fd' hfd' => ?_⟩
  · simp only
    rw [h.isOpen, hv, or_assoc]
    refine or_congr_right ⟨?_, ?_⟩
    · rintro (rfl | ⟨fd', hfd', hn⟩)
      · exact ⟨fd, hself, update_self fd _ _⟩
      · have hne : fd' ≠ fd := fun heq => hfd' (heq ▸ hnew.2.1)
        exact ⟨fd', (hother fd' hne).1 ▸ hfd', (hother fd' hne).2.trans hn⟩
    · rintro ⟨fd', hfd', hn⟩
      by_cases hne : fd' = fd
      · rw [hne, update_self] at hn
        exact .inl hn
      · rw [(hother fd' hne).2] at hn
        rw [(hother fd' hne).1] at hfd'
        exact .inr ⟨fd', hfd', hn⟩
  · simp only at hfd' ⊢
    by_cases hne : fd' = fd
    · rw [hne, update_self]
      exact hdisjoint n hn
    · rw [(hother fd' hne).1] at hfd'
      rw [(hother fd' hne).2]
      exact h.loose n ((hv n).2 (.inl hn)) fd' hfd'
  · have hfresh : ∀ fd', fd' ≠ fd → (w.withFd i fd).refcount fd' ≠ none →
        v = some n → w.realFd fd' ≠ some n := by
      intro fd' hne hfd' hn
      rw [(hother fd' hne).1] at hfd'
      exact h.loose n ((hv n).2 (.inr hn)) fd' hfd'
    simp only at hfd₁ hfd₂ ⊢
    by_cases hne₁ : fd₁ = fd
    · by_cases hne₂ : fd₂ = fd
      · exact fun _ _ => hne₁.trans hne₂.symm
      · rw [hne₁, update_self, (hother fd₂ hne₂).2]
        exact fun hn hn₂ => absurd hn₂ (hfresh fd₂ hne₂ hfd₂ hn)
    · by_cases hne₂ : fd₂ = fd
      · rw [hne₂, update_self, (hother fd₁ hne₁).2]
        exact fun hn₁ hn => absurd hn₁ (hfresh fd₁ hne₁ hfd₁ hn)
      · rw [(hother fd₁ hne₁).1] at hfd₁
        rw [(hother fd₂ hne₂).1] at hfd₂
        rw [(hother fd₁ hne₁).2, (hother fd₂ hne₂).2]
        exact h.unique fd₁ fd₂ n hfd₁ hfd₂
  · simp only at hfd' ⊢
    by_cases hne : fd' = fd
    · exact .inl (hne ▸ hself)
    · rw [(hother fd' hne).2] at hfd'
      rw [(hother fd' hne).1]
      exact h.made fd' hfd'

lemma adhocFdCreate {n : ℕ} (h : w.OwnedBut (n :: L)) {i : ℕ} {fd : FdId}
    (hnew : w.Fresh i fd) (info : Option SocketInfo) :
    (w.adhocFdCreate i fd n info).OwnedBut L := by
  obtain ⟨hn, hL⟩ := List.nodup_cons.1 h.nodup
  unfold HostWorld.adhocFdCreate
  rw [fdOp_create hnew]
  refine h.make hnew hL (fun m => ?_) (fun m hm heq => ?_) _
  · rw [List.mem_cons, Option.some.injEq, or_comm, eq_comm]
  · exact hn (Option.some.inj heq ▸ hm)

lemma fdOp (h : w.OwnedBut L) (op : FdOp) (hop : op.Lands w.fds) :
    (w.fdOp op).OwnedBut L := by
  have hinv := inv_fdStep hop h.inv
  by_cases hcreate : ∃ i fd, op = .create i fd
  · obtain ⟨i, fd, rfl⟩ := hcreate
    by_cases hnew : w.Fresh i fd
    · have hreal : w.realFd fd = none := by
        by_contra hreal
        obtain hlive | hclosed := h.made fd hreal
        · exact hlive hnew.2.1
        · exact hnew.2.2 hclosed
      rw [fdOp_create hnew]
      have hmake := h.make (L := L) (v := none) hnew h.nodup (by simp) (by simp) w.socket
      rwa [← hreal, update_eq_self] at hmake
    · have hsame : fdStep w.fds (.create i fd) = w.fds := if_neg hnew
      exact h.setFds hinv (by rw [hsame]; exact FdWorld.Closes.rfl)
  · exact h.setFds hinv (closes_fdStep w.fds fun i fd heq => hcreate ⟨i, fd, heq⟩)

lemma fdCreate {n : ℕ} (h : w.OwnedBut (n :: L)) {i : ℕ} {c : Creation}
    (hpending : w.fds.pending t = none) {tb : TableId} {T : FdTable}
    (htable : w.fds.table t = some (tb, T)) (hnew : w.Fresh i c.fd) (hnull : c.null = false)
    (htakes : T.Takes c.rlimit c.oom) (info : Option SocketInfo) (flags : ℕ) :
    let r := w.fdCreate t i n info flags c
    0 ≤ r.2 ∧ r.1.OwnedBut L ∧ r.1.fds.pending t = none ∧
      (∃ T', r.1.fds.table t = some (tb, T') ∧
        T'.files = (T.filled c.rlimit c.oom c.fd).files) ∧
      ∀ fd, fd ≠ c.fd → w.Fresh i fd → r.1.Fresh i fd := by
  have hmade := h.adhocFdCreate hnew info
  have hfds : (w.adhocFdCreate i c.fd n info).fds = w.withFd i c.fd := by
    unfold HostWorld.adhocFdCreate
    rw [fdOp_create hnew]
  have hslot := FdTable.installSlot_of_takes htakes
  have hlands : (FdOp.install t i flags c.rlimit c.oom).Lands
      (w.adhocFdCreate i c.fd n info).fds := by
    intro tb' T' hT'
    rw [hfds] at hT'
    obtain ⟨-, rfl⟩ := Prod.mk.inj (Option.some.inj (hT'.symm.trans htable))
    exact FdTable.hasRoom_of_takes htakes
  have htable' : (w.adhocFdCreate i c.fd n info).fds.table t = some (tb, T) := by
    rw [hfds]
    exact htable
  have hheld : (w.withFd i c.fd).held i = some c.fd := update_self i _ _
  have hpending' : (w.withFd i c.fd).pending t = none := hpending
  obtain ⟨hpend, hheld, T', hT', hfiles⟩ := FdWorld.table_install flags hpending'
    (hfds ▸ htable') hheld hslot
  have hr : w.fdCreate t i n info flags c =
      ((w.adhocFdCreate i c.fd n info).fdOp (.install t i flags c.rlimit c.oom),
        (T.installSlot 0 c.rlimit c.oom).2) := by
    unfold HostWorld.fdCreate HostWorld.fInstall
    rw [hnull, if_neg Bool.false_ne_true, htable']
  rw [← hfds] at hpend hheld hT'
  rw [hr]
  simp only [fds_fdOp]
  refine ⟨hslot, hmade.fdOp _ hlands, ?_, ⟨T', hT', hfiles⟩, fun fd hne hfresh => ?_⟩
  · rw [hpend, hfds]
    exact hpending
  · obtain ⟨-, hcount, hclosed⟩ := hfresh
    have hcount' : (w.adhocFdCreate i c.fd n info).fds.refcount fd = none := by
      rw [hfds]
      exact (update_of_ne hne _ _).trans hcount
    have hcloses : (w.adhocFdCreate i c.fd n info).fds.Closes
        (fdStep (w.adhocFdCreate i c.fd n info).fds (.install t i flags c.rlimit c.oom)) :=
      closes_fdStep _ (by intro h fd heq; cases heq)
    refine ⟨?_, ?_, ?_⟩
    · rw [fds_fdOp, hheld, update_self]
    · rw [fds_fdOp]
      exact hcloses.gone fd hcount'
    · rw [fds_fdOp, hcloses.closed]
      rintro (hmem | ⟨hlive, -⟩)
      · rw [hfds] at hmem
        exact hclosed hmem
      · exact hlive hcount'

end OwnedBut

def CanTake (w : HostWorld) (t : TaskId) (c : Creation) : Prop :=
  ∀ tb T, w.fds.table t = some (tb, T) → T.Takes c.rlimit c.oom

def CanTakeTwo (w : HostWorld) (t : TaskId) (c₀ c₁ : Creation) : Prop :=
  ∀ tb T, w.fds.table t = some (tb, T) → T.Takes c₀.rlimit c₀.oom ∧
    (T.filled c₀.rlimit c₀.oom c₀.fd).Takes c₁.rlimit c₁.oom

/-- The references of a message land in empty slots, as far as there are slots for them. -/
def LandAll (t : TaskId) : HostWorld → List (ℕ × ℕ × Bool) → Prop
  | _, [] => True
  | w, (h, rlimit, oom) :: rest => (FdOp.install t h 0 rlimit oom).Lands w.fds ∧
      (0 ≤ (w.fInstall t h 0 rlimit oom).2 → LandAll t (w.fInstall t h 0 rlimit oom).1 rest)

end HostWorld

/-- The condition on a call. One descriptor is made if there is memory for it and a place in the
table, or not even the memory; two if there is everything for both of them and the result can be
written, or nothing; and the data that comes with descriptors can be written. -/
def HostFdCall.Cleans (w : HostWorld) : HostFdCall → Prop
  | .socket t _ _ _ reply c => reply = none ∨ c.null = true ∨ w.CanTake t c
  | .accept t _ sockFd oom reply written c | .accept4 t _ sockFd _ oom reply written c =>
    w.sockGetfd t sockFd oom = none ∨ reply = none ∨ written = false ∨ c.null = true ∨ w.CanTake t c
  | .socketpair t _ _ _ reply c₀ c₁ mapped | .pipe2 t _ _ reply c₀ c₁ mapped =>
    reply = none ∨ c₀.null = true ∨ c₁.null = false ∧ mapped = true ∧ w.CanTakeTwo t c₀ c₁
  | .recvmsg t sockFd oom dummy fault peek scm => ∀ n, dummy = some n → fault = false ∧
      (peek = true ∨
        HostWorld.LandAll t (((w.fdOp (.get t sockFd oom)).hostOpen n).hostClose n) scm)
  | .fd op => op.Lands w.fds

namespace HostWorld

variable {w : HostWorld} {L : List ℕ} {t : TaskId}

namespace OwnedBut

lemma createOne {n : ℕ} (h : w.OwnedBut (n :: L)) {i : ℕ} {c : Creation} (hruns : w.Runs t)
    (hnew : w.Fresh i c.fd) (hc : c.null = true ∨ w.CanTake t c) (info : Option SocketInfo)
    (flags : ℕ) :
    let r := w.fdCreate t i n info flags c
    (r.2 < 0 ∧ (r.1.hostClose n).OwnedBut L) ∨ (0 ≤ r.2 ∧ r.1.OwnedBut L) := by
  by_cases hnull : c.null = true
  · have hr : w.fdCreate t i n info flags c = (w, fdEnomem) := if_pos hnull
    rw [hr]
    exact .inl ⟨show fdEnomem < 0 by decide, h.hostClose⟩
  · obtain ⟨hpending, tb, T, htable⟩ := runs_table hruns
    obtain ⟨hr, howned, -⟩ := h.fdCreate hpending htable hnew (by simpa using hnull)
      (hc.resolve_left hnull tb T htable) info flags
    exact .inr ⟨hr, howned⟩

lemma swap {m n : ℕ} (h : w.OwnedBut (m :: n :: L)) : w.OwnedBut (n :: m :: L) :=
  ⟨h.inv, h.strays, (List.Perm.swap n m L).nodup_iff.1 h.nodup, fun k => by
    rw [h.isOpen, (List.Perm.swap n m L).mem_iff],
    fun k hk => h.loose k ((List.Perm.swap n m L).mem_iff.2 hk), h.unique, h.made⟩

lemma createTwo {m n : ℕ} (h : w.OwnedBut (n :: m :: L)) {i : ℕ} {c₀ c₁ : Creation}
    (hruns : w.Runs t) (hnew₀ : w.Fresh i c₀.fd) (hnew₁ : w.Fresh i c₁.fd) (hne : c₀.fd ≠ c₁.fd)
    (hnull₀ : c₀.null = false) (hnull₁ : c₁.null = false) (htwo : w.CanTakeTwo t c₀ c₁)
    (info₀ info₁ : Option SocketInfo) (flags₀ flags₁ : ℕ) :
    let r₀ := w.fdCreate t i m info₀ flags₀ c₀
    let r₁ := r₀.1.fdCreate t i n info₁ flags₁ c₁
    0 ≤ r₀.2 ∧ 0 ≤ r₁.2 ∧ r₁.1.OwnedBut L := by
  obtain ⟨hpending, tb, T, htable⟩ := runs_table hruns
  obtain ⟨htakes₀, htakes₁⟩ := htwo tb T htable
  obtain ⟨hr₀, howned, hpending', ⟨T', hT', hfiles⟩, hfresh⟩ :=
    h.swap.fdCreate hpending htable hnew₀ hnull₀ htakes₀ info₀ flags₀
  obtain ⟨hr₁, howned', -⟩ := howned.fdCreate hpending' hT' (hfresh c₁.fd hne.symm hnew₁) hnull₁
    ((FdTable.takes_congr hfiles).2 htakes₁) info₁ flags₁
  exact ⟨hr₀, hr₁, howned'⟩

lemma get_keeps (w : HostWorld) (t : TaskId) (f : ℤ) (oom : Bool) (hruns : w.Runs t) :
    (w.fdOp (.get t f oom)).Runs t ∧
      (∀ i fd, w.Fresh i fd → (w.fdOp (.get t f oom)).Fresh i fd) ∧
      ∀ c, w.CanTake t c → (w.fdOp (.get t f oom)).CanTake t c := by
  obtain ⟨htables, hfiles, hpending, hheld⟩ := FdWorld.get_same w.fds t f oom
  have htable : (w.fdOp (.get t f oom)).fds.table t = w.fds.table t := by
    rw [fds_fdOp]
    unfold FdWorld.table
    rw [htables, hfiles]
  have hcloses : w.fds.Closes (fdStep w.fds (.get t f oom)) :=
    closes_fdStep _ (by intro h fd heq; cases heq)
  refine ⟨?_, fun i fd hnew => ⟨?_, ?_, ?_⟩, fun c hc tb T hT => hc tb T (htable ▸ hT)⟩
  · unfold Runs
    rw [htable, fds_fdOp, hpending]
    exact hruns
  · rw [fds_fdOp, hheld]
    exact hnew.1
  · rw [fds_fdOp]
    exact hcloses.gone fd hnew.2.1
  · rw [fds_fdOp, hcloses.closed]
    rintro (hmem | ⟨hlive, -⟩)
    · exact hnew.2.2 hmem
    · exact hlive hnew.2.1

lemma sysSocket (h : w.OwnedBut []) {i domain type : ℕ} {reply : Option ℕ} {c : Creation}
    (hgiven : (HostFdCall.socket t i domain type reply c).Given w = true)
    (hc : (HostFdCall.socket t i domain type reply c).Cleans w) :
    (w.sysSocket t i domain type reply c).OwnedBut [] := by
  simp only [HostFdCall.Given, Bool.decide_and, Bool.and_eq_true, decide_eq_true_eq] at hgiven
  obtain ⟨hruns, hnew, hfree⟩ := hgiven
  cases reply with
  | none => exact h
  | some sock =>
    have hsock : w.isOpen sock = false := by simpa using hfree
    have hroom := hc.resolve_left (Option.some_ne_none sock)
    unfold HostWorld.sysSocket HostWorld.sockFdCreate
    obtain ⟨hr, howned⟩ | ⟨hr, howned⟩ := (h.hostOpen hsock).createOne (w := w.hostOpen sock) hruns
      hnew hroom (some ⟨domain, type &&& socketTypeMask⟩) (type - (type &&& socketTypeMask))
    · simp only [if_pos hr]
      exact howned
    · simp only [if_neg hr.not_gt]
      exact howned

lemma pair (h : w.OwnedBut []) {i m n : ℕ} {c₀ c₁ : Creation} (hruns : w.Runs t)
    (hnew₀ : w.Fresh i c₀.fd) (hnew₁ : w.Fresh i c₁.fd) (hne : c₀.fd ≠ c₁.fd)
    (hm : w.isOpen m = false) (hn : w.isOpen n = false) (hmn : m ≠ n)
    (hc : c₀.null = true ∨ c₁.null = false ∧ w.CanTakeTwo t c₀ c₁)
    (info₀ info₁ : Option SocketInfo) (flags₀ flags₁ : ℕ) :
    let r₀ := ((w.hostOpen m).hostOpen n).fdCreate t i m info₀ flags₀ c₀
    let r₁ := r₀.1.fdCreate t i n info₁ flags₁ c₁
    (c₀.null = true ∧ r₀.2 < 0 ∧ ((r₀.1.hostClose m).hostClose n).OwnedBut []) ∨
      (¬ c₀.null = true ∧ 0 ≤ r₀.2 ∧ 0 ≤ r₁.2 ∧ r₁.1.OwnedBut []) := by
  have hn' : (w.hostOpen m).isOpen n = false := (update_of_ne hmn.symm _ _).trans hn
  have hopen := (h.hostOpen hm).hostOpen hn'
  by_cases hnull : c₀.null = true
  · have hr : ((w.hostOpen m).hostOpen n).fdCreate t i m info₀ flags₀ c₀ =
        ((w.hostOpen m).hostOpen n, fdEnomem) := if_pos hnull
    rw [hr]
    exact .inl ⟨hnull, show fdEnomem < 0 by decide, hopen.swap.hostClose.hostClose⟩
  · obtain ⟨hnull₁, htwo⟩ := hc.resolve_left hnull
    obtain ⟨hr₀, hr₁, howned⟩ := hopen.createTwo (w := (w.hostOpen m).hostOpen n) hruns hnew₀ hnew₁
      hne (by simpa using hnull) hnull₁ htwo info₀ info₁ flags₀ flags₁
    exact .inr ⟨hnull, hr₀, hr₁, howned⟩

lemma sysPipe2 (h : w.OwnedBut []) {i flags : ℕ} {reply : Option (ℕ × ℕ)} {c₀ c₁ : Creation}
    {mapped : Bool} (hgiven : (HostFdCall.pipe2 t i flags reply c₀ c₁ mapped).Given w = true)
    (hc : (HostFdCall.pipe2 t i flags reply c₀ c₁ mapped).Cleans w) :
    (w.sysPipe2 t i flags reply c₀ c₁ mapped).OwnedBut [] := by
  simp only [HostFdCall.Given, Bool.decide_and, Bool.and_eq_true, decide_eq_true_eq] at hgiven
  obtain ⟨hruns, hnew₀, hnew₁, hne, hfree⟩ := hgiven
  cases reply with
  | none => exact h
  | some p =>
    obtain ⟨p₀, p₁⟩ := p
    simp only [Option.all_some, Bool.and_eq_true, Bool.not_eq_true', bne_iff_ne] at hfree
    have hroom := hc.resolve_left (Option.some_ne_none _)
    unfold HostWorld.sysPipe2 HostWorld.pipeFCreate
    obtain ⟨-, hr, howned⟩ | ⟨hnull, hr₀, hr₁, howned⟩ := h.pair hruns hnew₀ hnew₁ hne hfree.1.1
      hfree.1.2 hfree.2 (hroom.imp_right fun h => ⟨h.1, h.2.2⟩) none none flags flags
    · simp only [if_pos hr]
      exact howned
    · simp only [if_neg hr₀.not_gt, if_neg hr₁.not_gt, if_pos (hroom.resolve_left hnull).2.1]
      exact howned

lemma sysSocketpair (h : w.OwnedBut []) {i domain type : ℕ} {reply : Option (ℕ × ℕ)}
    {c₀ c₁ : Creation} {mapped : Bool}
    (hgiven : (HostFdCall.socketpair t i domain type reply c₀ c₁ mapped).Given w = true)
    (hc : (HostFdCall.socketpair t i domain type reply c₀ c₁ mapped).Cleans w) :
    (w.sysSocketpair t i domain type reply c₀ c₁ mapped).OwnedBut [] := by
  simp only [HostFdCall.Given, Bool.decide_and, Bool.and_eq_true, decide_eq_true_eq] at hgiven
  obtain ⟨hruns, hnew₀, hnew₁, hne, hfree⟩ := hgiven
  cases reply with
  | none => exact h
  | some p =>
    obtain ⟨s₀, s₁⟩ := p
    simp only [Option.all_some, Bool.and_eq_true, Bool.not_eq_true', bne_iff_ne] at hfree
    have hroom := hc.resolve_left (Option.some_ne_none _)
    let info : Option SocketInfo := some ⟨domain, type &&& socketTypeMask⟩
    let flags := type - (type &&& socketTypeMask)
    unfold HostWorld.sysSocketpair HostWorld.sockFdCreate
    obtain ⟨hnull, hr, howned⟩ | ⟨hnull, hr₀, hr₁, howned⟩ := h.pair hruns hnew₀ hnew₁ hne hfree.1.1
      hfree.1.2 hfree.2 (hroom.imp_right fun h => ⟨h.1, h.2.2⟩) info info flags flags
    · simp only [info, flags] at hr howned
      simp only [if_pos hr, if_pos hnull]
      exact howned
    · simp only [info, flags] at hr₀ hr₁ howned
      simp only [if_neg hr₀.not_gt, if_neg hr₁.not_gt, if_pos (hroom.resolve_left hnull).2.1]
      exact (howned.fdOp (.get t _ false) trivial).fdOp (.get t _ false) trivial

lemma sysAccept (h : w.OwnedBut []) {i : ℕ} {sockFd : ℤ} {oom : Bool} {reply : Option ℕ}
    {written : Bool} {c : Creation} (hruns : w.Runs t) (hnew : w.Fresh i c.fd)
    (hfree : reply.all fun n => !w.isOpen n)
    (hc : (HostFdCall.accept t i sockFd oom reply written c).Cleans w) :
    (w.sysAccept t i sockFd oom reply written c).1.OwnedBut [] := by
  have hget : (w.fdOp (.get t sockFd oom)).OwnedBut [] := h.fdOp _ trivial
  obtain ⟨hruns', hnew', hroom'⟩ := get_keeps w t sockFd oom hruns
  unfold HostWorld.sysAccept
  simp only []
  cases hsock : w.sockGetfd t sockFd oom with
  | none => exact hget
  | some sock =>
    cases reply with
    | none => exact hget
    | some client =>
      have hclient : (w.fdOp (.get t sockFd oom)).isOpen client = false :=
        isOpen_fdOp _ (by simpa using hfree)
      have hopen := hget.hostOpen hclient
      simp only []
      by_cases hwritten : written = true
      · rw [if_pos hwritten]
        have hroom : c.null = true ∨ (w.fdOp (.get t sockFd oom)).CanTake t c := by
          obtain hno | hno | hno | hroom := hc
          · rw [hsock] at hno
            cases hno
          · cases hno
          · rw [hwritten] at hno
            cases hno
          · exact hroom.imp_right (hroom' c)
        unfold HostWorld.sockFdCreate
        obtain ⟨hr, howned⟩ | ⟨hr, howned⟩ := hopen.createOne
          (w := (w.fdOp (.get t sockFd oom)).hostOpen client) hruns' (hnew' i c.fd hnew) hroom
          (some ⟨sock.domain, sock.type &&& socketTypeMask⟩)
          (sock.type - (sock.type &&& socketTypeMask))
        · simp only [if_pos hr]
          exact howned
        · simp only [if_neg hr.not_gt]
          split_ifs
          · exact howned.fdOp _ trivial
          · exact howned
      · rw [if_neg hwritten]
        exact hopen.hostClose

lemma sysAccept4 (h : w.OwnedBut []) {i : ℕ} {sockFd : ℤ} {flags : ℕ} {oom : Bool}
    {reply : Option ℕ} {written : Bool} {c : Creation} (hruns : w.Runs t) (hnew : w.Fresh i c.fd)
    (hfree : reply.all fun n => !w.isOpen n)
    (hc : (HostFdCall.accept4 t i sockFd flags oom reply written c).Cleans w) :
    (w.sysAccept4 t i sockFd flags oom reply written c).OwnedBut [] := by
  have haccept := h.sysAccept hruns hnew hfree hc
  unfold HostWorld.sysAccept4
  simp only []
  split_ifs
  · exact haccept
  · exact (haccept.fdOp (.get t _ false) trivial).fdOp (.fcntlSetfd t _ true) trivial
  · exact haccept.fdOp _ trivial

lemma installAll {scm : List (ℕ × ℕ × Bool)} (h : w.OwnedBut []) (hland : LandAll t w scm) :
    (HostWorld.installAll t w scm).OwnedBut [] := by
  induction scm generalizing w with
  | nil => exact h
  | cons x rest ih =>
    obtain ⟨i, rlimit, oom⟩ := x
    obtain ⟨hlands, hrest⟩ := hland
    have hinstall : (w.fInstall t i 0 rlimit oom).1.OwnedBut [] := by
      unfold HostWorld.fInstall
      split
      · exact h.fdOp _ hlands
      · exact h
    unfold HostWorld.installAll
    simp only []
    split_ifs with hr
    · refine List.foldlRecOn (motive := fun w' => OwnedBut [] w') rest _ hinstall ?_
      intro w' hw' y _
      exact hw'.fdOp _ trivial
    · exact ih hinstall (hrest (not_lt.1 hr))

lemma sysRecvmsg (h : w.OwnedBut []) {sockFd : ℤ} {oom fault peek : Bool} {dummy : Option ℕ}
    {scm : List (ℕ × ℕ × Bool)}
    (hgiven : (HostFdCall.recvmsg t sockFd oom dummy fault peek scm).Given w = true)
    (hc : (HostFdCall.recvmsg t sockFd oom dummy fault peek scm).Cleans w) :
    (w.sysRecvmsg t sockFd oom dummy fault peek scm).OwnedBut [] := by
  have hget : (w.fdOp (.get t sockFd oom)).OwnedBut [] := h.fdOp _ trivial
  simp only [HostFdCall.Given, Bool.decide_and, Bool.and_eq_true, decide_eq_true_eq] at hgiven
  obtain ⟨-, hfree, hlocal⟩ := hgiven
  unfold HostWorld.sysRecvmsg
  simp only []
  cases hsock : w.sockGetfd t sockFd oom with
  | none => exact hget
  | some sock =>
    cases dummy with
    | none => exact hget
    | some n =>
      obtain ⟨hfault, hpeek⟩ := hc n rfl
      have hn : (w.fdOp (.get t sockFd oom)).isOpen n = false :=
        isOpen_fdOp _ (by simpa using hfree)
      have hdomain : sock.domain = afLocal := by
        have hall := hlocal rfl
        rw [hsock] at hall
        simpa using hall
      have hclosed := (hget.hostOpen hn).hostClose
      simp only [hfault, Bool.false_eq_true, if_false, if_pos hdomain]
      split_ifs with hp
      · exact hclosed
      · exact hclosed.installAll (hpeek.resolve_left hp)

/-- Every call that meets the condition leaves each descriptor of the host with its owner. -/
theorem step (h : w.OwnedBut []) {call : HostFdCall} (hc : call.Cleans w) :
    (hostStep w call).OwnedBut [] := by
  unfold hostStep
  split_ifs with hgiven
  · cases call with
    | socket t i domain type reply c =>
      exact (h.sysSocket hgiven hc).fdOp _ trivial
    | socketpair t i domain type reply c₀ c₁ mapped =>
      exact (h.sysSocketpair hgiven hc).fdOp _ trivial
    | accept t i sockFd oom reply written c =>
      simp only [HostFdCall.Given, Bool.decide_and, Bool.and_eq_true, decide_eq_true_eq] at hgiven
      exact (h.sysAccept hgiven.1 hgiven.2.1 hgiven.2.2 hc).fdOp _ trivial
    | accept4 t i sockFd flags oom reply written c =>
      simp only [HostFdCall.Given, Bool.decide_and, Bool.and_eq_true, decide_eq_true_eq] at hgiven
      exact (h.sysAccept4 hgiven.1 hgiven.2.1 hgiven.2.2 hc).fdOp _ trivial
    | recvmsg t sockFd oom dummy fault peek scm =>
      exact (h.sysRecvmsg hgiven hc).fdOp _ trivial
    | pipe2 t i flags reply c₀ c₁ mapped =>
      exact (h.sysPipe2 hgiven hc).fdOp _ trivial
    | fd op => exact h.fdOp op hc
  · exact h

end OwnedBut

lemma ownedBut_init (t : TaskId) (tb : TableId) : (HostWorld.init t tb).OwnedBut [] where
  inv := FdWorld.inv_init t tb
  strays := rfl
  nodup := List.nodup_nil
  isOpen n := by simp [HostWorld.init]
  loose n hn := absurd hn List.not_mem_nil
  unique fd fd' n hfd := absurd rfl hfd
  made fd hfd := absurd rfl hfd

/-- Each open descriptor of the host belongs to exactly one description, which something refers to,
and each description has its descriptor open; none has been closed twice. -/
structure Owned (w : HostWorld) : Prop where
  strays : w.strays = []
  isOpen : ∀ n, w.isOpen n = true ↔ ∃ fd, w.fds.refcount fd ≠ none ∧ w.realFd fd = some n
  unique : ∀ fd fd' n, w.fds.refcount fd ≠ none → w.fds.refcount fd' ≠ none →
    w.realFd fd = some n → w.realFd fd' = some n → fd = fd'
  held : ∀ fd, w.fds.refcount fd ≠ none → ∃ k, w.fds.owner k = some fd

lemma OwnedBut.owned (h : w.OwnedBut []) : w.Owned where
  strays := h.strays
  isOpen n := by simpa using h.isOpen n
  unique := h.unique
  held fd hfd := by
    by_contra hno
    have hfreed := (h.inv.fd.fds.freed_iff (.inl (Option.isSome_iff_ne_none.2 hfd))).2
      fun k hk => hno ⟨k, hk⟩
    exact hfd (h.inv.fd.fds.dead fd hfreed)

end HostWorld

/-- In every run whose calls meet the condition, every descriptor of the host that is open belongs
to one description, and none has been closed twice. -/
theorem host_descriptors_owned {t : TaskId} {tb : TableId} {calls : List HostFdCall}
    (hcalls : RunAll hostStep (fun w call => call.Cleans w) (HostWorld.init t tb) calls) :
    (run hostStep (HostWorld.init t tb) calls).Owned :=
  (run_invariant (P := HostWorld.OwnedBut []) (fun _ _ hc h => h.step hc) hcalls
    (HostWorld.ownedBut_init t tb)).owned

def socketAndPipe : List HostFdCall :=
  [.socket 0 0 1 1 (some 7) ⟨0, false, 1024, false⟩,
    .pipe2 0 0 0 (some (8, 9)) ⟨1, false, 1024, false⟩ ⟨2, false, 1024, false⟩ true,
    .socket 0 0 1 1 (some 10) ⟨3, true, 1024, false⟩, .recvmsg 0 0 false (some 11) false false [],
    .fd (.close 0 1)]

theorem host_descriptors_owned_pipe :
    (run hostStep (HostWorld.init 0 0) socketAndPipe).Owned ∧
      (List.range 12).filter (run hostStep (HostWorld.init 0 0) socketAndPipe).isOpen = [7, 9] := by
  refine ⟨host_descriptors_owned ⟨.inr (.inr ?_), .inr (.inr ⟨rfl, rfl, ?_⟩), .inr (.inl rfl), ?_,
    trivial, trivial⟩, by decide⟩
  · intro tb T hT
    cases hT
    exact .inl ⟨0, by decide, by decide, rfl⟩
  · intro tb T hT
    cases hT
    exact ⟨.inl ⟨1, by decide, by decide, rfl⟩, .inl ⟨2, by decide, by decide, rfl⟩⟩
  · exact fun n _ => ⟨rfl, .inr trivial⟩

/-- A pipe whose descriptors cannot be written, and a socket for which there is no place, are closed
twice; and the descriptor that has come with a message is left open, if the data of the message
cannot be written. -/
theorem host_descriptors_stray :
    (run hostStep (HostWorld.init 0 0) [.pipe2 0 0 0 (some (8, 9)) ⟨0, false, 1024, false⟩
        ⟨1, false, 1024, false⟩ false]).strays = [9, 8] ∧
      (run hostStep (HostWorld.init 0 0)
        [.socket 0 0 1 1 (some 7) ⟨0, false, 0, false⟩]).strays = [7] ∧
      (run hostStep (HostWorld.init 0 0) [.socket 0 0 1 1 (some 7) ⟨0, false, 1024, false⟩,
        .recvmsg 0 0 false (some 8) true false []]).isOpen 8 = true ∧
      ¬ ∀ t tb calls, (run hostStep (HostWorld.init t tb) calls).Owned := by
  refine ⟨by decide, by decide, by decide, fun h => ?_⟩
  have hstray := (h 0 0 [.socket 0 0 1 1 (some 7) ⟨0, false, 0, false⟩]).strays
  exact absurd hstray (by decide)

end ShellBox
