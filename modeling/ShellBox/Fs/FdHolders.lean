import ShellBox.Fs.FdTable

/-!
# The holders of descriptions and tables

The holders of a description are the slots of the live tables, the entries of the reference lists
of running system calls, the stores that are still to be made, and whoever else keeps a retained
pointer. The holders of a table are tasks and readers.
-/

namespace ShellBox

open Function

inductive FdHolder
  | slot (tb : TableId) (f : ℕ)
  | syscall (t : TaskId) (fd : FdId)
  | pending (t : TaskId)
  | held (h : ℕ)
deriving DecidableEq

inductive TableHolder
  | task (t : TaskId)
  | reader (r : ℕ)
deriving DecidableEq

namespace FdWorld

def slot (w : FdWorld) (tb : TableId) (f : ℕ) : Option FdId :=
  (w.tables tb).bind fun T => (T.files[f]?).join

def owner (w : FdWorld) : FdHolder → Option FdId
  | .slot tb f => w.slot tb f
  | .syscall t fd => if fd ∈ w.refs t then some fd else none
  | .pending t => (w.pending t).map PendingStore.fd
  | .held h => w.held h

def tableOwner (w : FdWorld) : TableHolder → Option TableId
  | .task t => w.files t
  | .reader r => w.readers r

def fdStore (w : FdWorld) : RefStore FdHolder FdId := ⟨w.owner, w.refcount, w.closed⟩

def tableStore (w : FdWorld) : RefStore TableHolder TableId :=
  ⟨w.tableOwner, fun tb => (w.tables tb).map FdTable.refcount, w.freedTables⟩

/-- The reference counts are right, and a running system call has one entry for each description
it looked up. -/
structure FdSound (w : FdWorld) : Prop where
  fds : w.fdStore.Sound
  nodup : ∀ t, (w.refs t).Nodup

variable {w : FdWorld} {t : TaskId} {tb : TableId} {T T' : FdTable} {fd : FdId}

/-! ### What the operations do to the holders -/

lemma table_eq_some (h : w.table t = some (tb, T)) : w.files t = some tb ∧ w.tables tb = some T := by
  simp only [table, Option.bind_eq_some_iff, Option.map_eq_some_iff, Prod.mk.injEq] at h
  obtain ⟨tb', hfiles, T', htables, rfl, rfl⟩ := h
  exact ⟨hfiles, htables⟩

lemma table_of_eq (hfiles : w.files t = some tb) (htables : w.tables tb = some T) :
    w.table t = some (tb, T) := by
  simp [table, hfiles, htables]

lemma owner_congr {w' : FdWorld} (hslot : ∀ tb f, w'.slot tb f = w.slot tb f)
    (hrefs : w'.refs = w.refs) (hpending : w'.pending = w.pending) (hheld : w'.held = w.held) :
    w'.owner = w.owner := by
  funext k
  cases k with
  | slot tb f => exact hslot tb f
  | syscall t fd => simp only [owner, hrefs]
  | pending t => simp only [owner, hpending]
  | held h => simp only [owner, hheld]

lemma slot_setTable (tb' : TableId) (f : ℕ) : (w.setTable tb T).slot tb' f =
    if tb' = tb then (T.files[f]?).join else w.slot tb' f := by
  unfold slot setTable
  by_cases h : tb' = tb
  · simp [h]
  · simp [h]

lemma owner_eq_none (hslot : ∀ tb f, w.slot tb f = none) (hrefs : ∀ t, w.refs t = [])
    (hpending : ∀ t, w.pending t = none) (hheld : ∀ h, w.held h = none) (k : FdHolder) :
    w.owner k = none := by
  cases k with
  | slot tb f => exact hslot tb f
  | syscall t fd => simp [owner, hrefs t]
  | pending t => simp [owner, hpending t]
  | held h => exact hheld h

lemma owner_setTable (htables : w.tables tb = some T)
    (hfiles : ∀ i : ℕ, (T'.files[i]?).join = (T.files[i]?).join) :
    (w.setTable tb T').owner = w.owner := by
  refine owner_congr (fun tb' f => ?_) rfl rfl rfl
  rw [slot_setTable]
  split_ifs with h
  · rw [hfiles, h, slot, htables]
    rfl
  · rfl

lemma owner_setSlot (htables : w.tables tb = some T) {f : ℕ} (hf : f < T.files.length)
    {v : Option FdId} (hfiles : T'.files = T.files.set f v) :
    (w.setTable tb T').owner = update w.owner (.slot tb f) v := by
  funext k
  cases k with
  | slot tb' f' =>
    have hslot : (w.setTable tb T').owner (.slot tb' f') = (w.setTable tb T').slot tb' f' := rfl
    rw [hslot, slot_setTable, hfiles]
    by_cases htb : tb' = tb
    · subst htb
      by_cases hff : f' = f
      · subst hff
        simp [hf]
      · rw [if_pos rfl, List.getElem?_set_ne (Ne.symm hff), update_of_ne (by simp [hff])]
        simp only [owner, slot, htables, Option.bind_some]
    · rw [if_neg htb, update_of_ne (by simp [htb])]
      rfl
  | syscall t fd => rfl
  | pending t => rfl
  | held h => rfl

lemma owner_setHeld (h : ℕ) (v : Option FdId) :
    ({ w with held := update w.held h v } : FdWorld).owner = update w.owner (.held h) v := by
  funext k
  cases k with
  | held h' =>
    by_cases hh : h' = h
    · subst hh
      simp [owner]
    · rw [update_of_ne (by simp [hh])]
      simp [owner, update_of_ne hh]
  | slot tb f => rfl
  | syscall t fd => rfl
  | pending t => rfl

lemma owner_setPending (t : TaskId) (v : Option PendingStore) :
    ({ w with pending := update w.pending t v } : FdWorld).owner =
      update w.owner (.pending t) (v.map PendingStore.fd) := by
  funext k
  cases k with
  | pending t' =>
    by_cases htt : t' = t
    · subst htt
      simp [owner]
    · rw [update_of_ne (by simp [htt])]
      simp [owner, update_of_ne htt]
  | slot tb f => rfl
  | syscall t fd => rfl
  | held h => rfl

lemma owner_setRefs {w' : FdWorld} {l : List FdId} {v : Option FdId}
    (hrefs : w'.refs = update w.refs t l) (htables : w'.tables = w.tables)
    (hpending : w'.pending = w.pending) (hheld : w'.held = w.held)
    (hmem : ∀ x, x ≠ fd → (x ∈ l ↔ x ∈ w.refs t)) (hv : v = if fd ∈ l then some fd else none) :
    w'.owner = update w.owner (.syscall t fd) v := by
  funext k
  cases k with
  | syscall t' fd' =>
    by_cases htt : t' = t
    · subst htt
      by_cases hff : fd' = fd
      · subst hff
        simp [owner, hrefs, hv]
      · rw [update_of_ne (by simp [hff])]
        simp [owner, hrefs, hmem fd' hff]
    · rw [update_of_ne (by simp [htt])]
      simp [owner, hrefs, update_of_ne htt]
  | slot tb f => simp [owner, slot, htables]
  | pending t => simp [owner, hpending]
  | held h => simp [owner, hheld]

lemma tableStore_setTable (w : FdWorld) (tb : TableId) (T : FdTable) :
    (w.setTable tb T).tableStore =
      ⟨w.tableOwner, update w.tableStore.count tb (some T.refcount), w.freedTables⟩ := by
  unfold tableStore
  congr 1
  funext tb'
  by_cases h : tb' = tb
  · simp [setTable, h]
  · simp [setTable, update_of_ne h]

lemma tableStore_erase (w : FdWorld) (tb : TableId) :
    ({ w with tables := update w.tables tb none, freedTables := tb :: w.freedTables } :
      FdWorld).tableStore =
      ⟨w.tableStore.owner, update w.tableStore.count tb none, tb :: w.tableStore.freed⟩ := by
  unfold tableStore
  congr 1
  funext tb'
  by_cases h : tb' = tb
  · simp [h]
  · simp [update_of_ne h]

/-! ### One reference more or less -/

lemma fdClose_eq (w : FdWorld) (fd : FdId) : w.fdClose fd =
    { w with refcount := (w.fdStore.drop fd).1, closed := (w.fdStore.drop fd).2 } := by
  rcases hw : w.refcount fd with _ | _ | _ | n <;> simp [fdClose, RefStore.drop, fdStore, hw]

lemma FdSound.close {w' : FdWorld} (h : w.FdSound) {k : FdHolder} (hk : w.owner k = some fd)
    (howner : w'.owner = update w.owner k none) (hcount : w'.refcount = (w.fdClose fd).refcount)
    (hclosed : w'.closed = (w.fdClose fd).closed) (hnodup : ∀ t, (w'.refs t).Nodup) :
    w'.FdSound := by
  refine ⟨?_, hnodup⟩
  have hstore := h.fds.unlink hk
  rw [fdClose_eq] at hcount hclosed
  unfold fdStore at hstore ⊢
  rw [howner, hcount, hclosed]
  exact hstore

lemma FdSound.retain {w' : FdWorld} (h : w.FdSound) {k : FdHolder} (hk : w.owner k = none)
    (hfd : (w.refcount fd).isSome) (howner : w'.owner = update w.owner k (some fd))
    (hcount : w'.refcount = (w.fdRetain fd).refcount) (hclosed : w'.closed = w.closed)
    (hnodup : ∀ t, (w'.refs t).Nodup) : w'.FdSound := by
  refine ⟨?_, hnodup⟩
  obtain ⟨n, hn⟩ := Option.isSome_iff_exists.mp hfd
  have hstore := h.fds.link hk hn
  unfold fdStore at hstore ⊢
  rw [howner, hcount, hclosed]
  simpa only [fdRetain, hn, Option.map_some] using hstore

lemma FdSound.move {w' : FdWorld} (h : w.FdSound) {k j : FdHolder} (hk : w.owner k = some fd)
    (hj : w.owner j = none)
    (howner : w'.owner = update (update w.owner j (some fd)) k none)
    (hcount : w'.refcount = w.refcount) (hclosed : w'.closed = w.closed)
    (hnodup : ∀ t, (w'.refs t).Nodup) : w'.FdSound := by
  refine ⟨?_, hnodup⟩
  have hstore := h.fds.move hk hj
  unfold fdStore at hstore ⊢
  rw [howner, hcount, hclosed]
  exact hstore

lemma FdSound.congr {w' : FdWorld} (h : w.FdSound) (howner : w'.owner = w.owner)
    (hcount : w'.refcount = w.refcount) (hclosed : w'.closed = w.closed)
    (hnodup : ∀ t, (w'.refs t).Nodup) : w'.FdSound := by
  refine ⟨?_, hnodup⟩
  have hstore := h.fds
  unfold fdStore at hstore ⊢
  rwa [howner, hcount, hclosed]

lemma FdSound.live (h : w.FdSound) {k : FdHolder} (hk : w.owner k = some fd) :
    (w.refcount fd).isSome :=
  h.fds.live k fd hk

@[simp] lemma tables_fdClose : (w.fdClose fd).tables = w.tables := by rw [fdClose_eq]
@[simp] lemma owner_fdClose : (w.fdClose fd).owner = w.owner := by rw [fdClose_eq]; rfl

lemma fdClose_fdRetain (hfd : (w.refcount fd).isSome) (hpos : w.refcount fd ≠ some 0) :
    (w.fdRetain fd).fdClose fd = w := by
  rcases hw : w.refcount fd with _ | _ | n
  · simp [hw] at hfd
  · exact absurd hw hpos
  · have hself : update w.refcount fd (some (n + 1)) = w.refcount := by rw [← hw, update_eq_self]
    simp [fdClose, fdRetain, hw, hself]

/-- The reference lists of the system calls and the holders of the tables are as they were. -/
structure Keeps (w w' : FdWorld) : Prop where
  refs : w'.refs = w.refs
  tables : w'.tableStore = w.tableStore

lemma Keeps.rfl : w.Keeps w := ⟨Eq.refl _, Eq.refl _⟩

lemma Keeps.trans {w₁ w₂ : FdWorld} (h : w.Keeps w₁) (h' : w₁.Keeps w₂) : w.Keeps w₂ :=
  ⟨h'.refs.trans h.refs, h'.tables.trans h.tables⟩

lemma Keeps.nodup {w' : FdWorld} (hk : w.Keeps w') (h : w.FdSound) (t : TaskId) :
    (w'.refs t).Nodup := by
  rw [hk.refs]
  exact h.nodup t

lemma keeps_foldl {α : Type*} {f : FdWorld → α → FdWorld} (hf : ∀ w a, Keeps w (f w a))
    (w : FdWorld) (l : List α) : w.Keeps (l.foldl f w) :=
  List.foldlRecOn (motive := fun w' => w.Keeps w') l f Keeps.rfl fun w' hw a _ => hw.trans (hf w' a)

lemma keeps_fdClose (w : FdWorld) (fd : FdId) : w.Keeps (w.fdClose fd) := by
  rw [fdClose_eq]
  exact ⟨rfl, rfl⟩

lemma keeps_fdRetain (w : FdWorld) (fd : FdId) : w.Keeps (w.fdRetain fd) := ⟨rfl, rfl⟩

lemma keeps_setTable (htables : w.tables tb = some T) (hcount : T'.refcount = T.refcount) :
    w.Keeps (w.setTable tb T') := by
  refine ⟨rfl, ?_⟩
  have hself : w.tableStore.count tb = some T.refcount := by simp [tableStore, htables]
  rw [tableStore_setTable, hcount, ← hself, update_eq_self]
  rfl

lemma files_setCloexec (T : FdTable) (f : ℤ) (bit : Bool) :
    (T.setCloexec f bit).files = T.files ∧ (T.setCloexec f bit).refcount = T.refcount := by
  unfold FdTable.setCloexec
  split_ifs <;> exact ⟨rfl, rfl⟩

lemma refcount_store (T : FdTable) (f : ℤ) (v : Option FdId) :
    (T.store f v).refcount = T.refcount := by
  unfold FdTable.store
  split_ifs <;> rfl

/-! ### Closing slots -/

lemma get_eq_some {f : ℤ} (h : T.get f = some fd) :
    0 ≤ f ∧ f.toNat < T.files.length ∧ T.files[f.toNat]? = some (some fd) := by
  unfold FdTable.get at h
  split_ifs at h with hf
  push Not at hf
  refine ⟨hf.1, hf.2, ?_⟩
  rw [List.getElem?_eq_getElem hf.2] at h ⊢
  simpa using h

lemma owner_slot_get {f : ℤ} (htables : w.tables tb = some T) (h : T.get f = some fd) :
    w.owner (.slot tb f.toNat) = some fd := by
  obtain ⟨-, -, hfd⟩ := get_eq_some h
  simp [owner, slot, htables, hfd]

lemma fdSound_fdtableClose (h : w.FdSound) (tb : TableId) (f : ℤ) :
    (fdtableClose tb w f).FdSound := by
  unfold fdtableClose
  split
  · exact h
  · rename_i T htables
    split
    · exact h
    · rename_i fd hget
      obtain ⟨hf, hlt, -⟩ := get_eq_some hget
      refine h.close (owner_slot_get htables hget) ?_ rfl rfl fun t => ?_
      · rw [owner_setSlot (by simpa using htables) hlt (v := none), owner_fdClose]
        simp [FdTable.store, FdTable.setCloexec, not_lt.mpr hf]
      · have hclose : w.Keeps (w.fdClose fd) := keeps_fdClose w fd
        exact hclose.nodup h t

lemma keeps_fdtableClose (w : FdWorld) (tb : TableId) (f : ℤ) :
    w.Keeps (fdtableClose tb w f) := by
  unfold fdtableClose
  split
  · exact Keeps.rfl
  · rename_i T htables
    split
    · exact Keeps.rfl
    · refine (keeps_fdClose w _).trans (keeps_setTable (T := T) (by simpa using htables) ?_)
      rw [(files_setCloexec _ _ _).2, refcount_store]

lemma slot_fdtableClose (tb' : TableId) (f : ℤ) (i : ℕ) : (fdtableClose tb w f).slot tb' i =
    if tb' = tb ∧ (i : ℤ) = f then none else w.slot tb' i := by
  unfold fdtableClose
  split
  · rename_i htables
    split_ifs with h
    · simp [slot, h.1, htables]
    · rfl
  · rename_i T htables
    split
    · rename_i hget
      split_ifs with h
      · rw [← h.2] at hget
        simp only [FdTable.get, Int.natCast_nonneg, not_lt.mpr, Int.toNat_natCast, false_or] at hget
        simp only [slot, h.1, htables, Option.bind_some]
        split_ifs at hget with hlen
        · simp [List.getElem?_eq_none hlen]
        · exact hget
      · rfl
    · rename_i fd hget
      obtain ⟨hf, hlt, -⟩ := get_eq_some hget
      rw [slot_setTable]
      simp only [FdTable.store, FdTable.setCloexec, not_lt.mpr hf, if_false]
      by_cases htb : tb' = tb
      · subst htb
        by_cases hif : (i : ℤ) = f
        · have hi : f.toNat = i := by rw [← hif, Int.toNat_natCast]
          simp [hif, hi, hi ▸ hlt]
        · have hi : f.toNat ≠ i := by omega
          simp [hif, List.getElem?_set_ne hi, slot, htables]
      · simp [htb, slot]

lemma slot_closeAll (w : FdWorld) (l : List ℕ) (i : ℕ) :
    (l.foldl (fun w (f : ℕ) => fdtableClose tb w f) w).slot tb i =
      if i ∈ l then none else w.slot tb i := by
  induction l generalizing w with
  | nil => simp
  | cons f l ih =>
    rw [List.foldl_cons, ih, slot_fdtableClose]
    by_cases hl : i ∈ l
    · simp [hl]
    · by_cases hf : i = f <;> simp [hl, hf]

lemma fdSound_closeAll (h : w.FdSound) (tb : TableId) (l : List ℕ) :
    (l.foldl (fun w (f : ℕ) => fdtableClose tb w f) w).FdSound :=
  List.foldlRecOn l _ h fun _ hw f _ => fdSound_fdtableClose hw tb f

lemma keeps_closeAll (w : FdWorld) (tb : TableId) (l : List ℕ) :
    w.Keeps (l.foldl (fun w (f : ℕ) => fdtableClose tb w f) w) :=
  keeps_foldl (fun w (f : ℕ) => keeps_fdtableClose w tb f) w l

lemma slot_out {i : ℕ} (htables : w.tables tb = some T) (hi : T.files.length ≤ i) :
    w.slot tb i = none := by
  simp [slot, htables, List.getElem?_eq_none hi]

lemma fdSound_fdtableRelease (h : w.FdSound) (tb : TableId) : (w.fdtableRelease tb).FdSound := by
  unfold fdtableRelease
  split
  · exact h
  · rename_i T htables
    let w' := w.setTable tb { T with refcount := T.refcount - 1 }
    have howner : w'.owner = w.owner := owner_setTable htables fun i => rfl
    have hw' : w'.FdSound := h.congr howner rfl rfl h.nodup
    simp only []
    split_ifs with hcount
    · have hclosed := fdSound_closeAll hw' tb (List.range T.files.length)
      refine hclosed.congr (owner_congr (fun tb' i => ?_) rfl rfl rfl) rfl rfl hclosed.nodup
      have hslot : w'.slot tb' i = w.slot tb' i := congrFun howner (.slot tb' i)
      by_cases htb : tb' = tb
      · subst htb
        rw [slot_closeAll, hslot]
        split_ifs with hi
        · simp [slot]
        · rw [slot_out htables (by simpa using hi)]
          simp [slot]
      · simp only [slot, update_of_ne htb]
        rfl
    · exact hw'

lemma tableStore_fdtableRelease (htables : w.tables tb = some T) (hpos : T.refcount ≠ 0) :
    (w.fdtableRelease tb).tableStore =
      ⟨w.tableOwner, (w.tableStore.drop tb).1, (w.tableStore.drop tb).2⟩ := by
  have hcount : w.tableStore.count tb = some T.refcount := by simp [tableStore, htables]
  unfold fdtableRelease
  rw [htables]
  simp only []
  split_ifs with hone
  · have hdrop : w.tableStore.drop tb = (update w.tableStore.count tb none, tb :: w.freedTables) := by
      have hone' : T.refcount = 1 := by omega
      simp only [RefStore.drop, hcount, hone']
      rfl
    rw [tableStore_erase, (keeps_closeAll _ tb _).tables, tableStore_setTable, hdrop, update_idem]
  · rw [tableStore_setTable, RefStore.drop_of_ne_one hcount (by omega)]
    rfl

/-! ### References of system calls -/

lemma nodup_setRefs {l : List FdId} (h : w.FdSound) (hl : l.Nodup) (t' : TaskId) :
    (update w.refs t l t').Nodup := by
  by_cases htt : t' = t
  · simpa [htt] using hl
  · simpa [update_of_ne htt] using h.nodup t'

lemma fdSound_fGet (h : w.FdSound) (t : TaskId) (f : ℤ) (oom : Bool) :
    (w.fGet t f oom).1.FdSound := by
  unfold fGet
  split
  · exact h
  · rename_i fd hget
    split_ifs with hmem hoom
    · exact h
    · exact h
    · obtain ⟨⟨tb, T⟩, htable, hget⟩ := Option.bind_eq_some_iff.mp hget
      obtain ⟨-, htables⟩ := table_eq_some htable
      have hlive := h.live (owner_slot_get htables hget)
      have hnodup : (w.refs t ++ [fd]).Nodup := by
        rw [← List.concat_eq_append]
        exact (h.nodup t).concat hmem
      refine h.retain (k := .syscall t fd) (by simp [owner, hmem]) hlive ?_ rfl rfl
        (nodup_setRefs (w := w) h hnodup)
      exact owner_setRefs rfl rfl rfl rfl (by simp +contextual [fdRetain]) (by simp)

lemma fdClose_setRefs (t : TaskId) (l : List FdId) :
    ({ w.fdClose fd with refs := update w.refs t l } : FdWorld) =
      { w with refs := update w.refs t l }.fdClose fd := by
  simp only [fdClose_eq]
  rfl

lemma fdSound_syscallRefsRelease (h : w.FdSound) (t : TaskId) :
    (w.syscallRefsRelease t).FdSound := by
  unfold syscallRefsRelease
  generalize hl : w.refs t = l
  induction l generalizing w with
  | nil =>
    have hself : update w.refs t [] = w.refs := by rw [← hl, update_eq_self]
    simpa [hself] using h
  | cons fd l ih =>
    have hnodup := h.nodup t
    rw [hl, List.nodup_cons] at hnodup
    let w' : FdWorld := { w.fdClose fd with refs := update w.refs t l }
    have hclose : w'.FdSound := by
      refine h.close (k := .syscall t fd) (by simp [owner, hl]) ?_ rfl rfl
        (nodup_setRefs h hnodup.2)
      refine owner_setRefs rfl (by simp [w']) ?_ ?_ (by simp +contextual [hl]) (by simp [hnodup.1])
      · simp [w', fdClose_eq]
      · simp [w', fdClose_eq]
    have htail := ih hclose (by simp [w'])
    have hw' : ({ w' with refs := update w'.refs t [] } : FdWorld) =
        { w with refs := update w.refs t [] }.fdClose fd := by
      rw [← fdClose_setRefs]
      simp [w']
    rwa [hw'] at htail

/-! ### Installing -/

lemma expand_slots {max : ℤ} {rlimit : ℕ} {oom : Bool} (h : T.expand max rlimit oom = .ok T') :
    (∀ i : ℕ, (T'.files[i]?).join = (T.files[i]?).join) ∧ T'.refcount = T.refcount := by
  unfold FdTable.expand at h
  simp only [] at h
  split_ifs at h
  · cases h
    exact ⟨fun i => rfl, rfl⟩
  · cases h
    refine ⟨fun i => ?_, rfl⟩
    simp only [FdTable.resize, List.getElem?_append, List.getElem?_replicate]
    split_ifs with hi
    · rfl
    · simp [List.getElem?_eq_none (not_lt.mp hi)]
    · simp [List.getElem?_eq_none (not_lt.mp hi)]

lemma installSlot_slots (start rlimit : ℕ) (oom : Bool) :
    (∀ i : ℕ, ((T.installSlot start rlimit oom).1.files[i]?).join = (T.files[i]?).join) ∧
      (T.installSlot start rlimit oom).1.refcount = T.refcount := by
  unfold FdTable.installSlot
  simp only []
  split
  · exact ⟨fun i => rfl, rfl⟩
  · split
    · rename_i h
      exact expand_slots h
    · exact ⟨fun i => rfl, rfl⟩

lemma expand_error {max err : ℤ} {rlimit : ℕ} {oom : Bool}
    (h : T.expand max rlimit oom = .error err) : err < 0 := by
  unfold FdTable.expand at h
  simp only [] at h
  split_ifs at h <;> cases h <;> decide

lemma expand_ok {f rlimit : ℕ} {oom : Bool} (hf : f < 2 ^ 31)
    (h : T.expand f rlimit oom = .ok T') :
    f < rlimit ∧ (f < T.files.length ∧ T' = T ∨ T'.files[f]? = some none) := by
  have hsize : (((f : ℤ) + 1) % 2 ^ 32).toNat = f + 1 := by omega
  unfold FdTable.expand at h
  simp only [hsize] at h
  split_ifs at h with hlimit hlen hoom
  · cases h
    exact ⟨by omega, Or.inl ⟨by omega, rfl⟩⟩
  · cases h
    refine ⟨by omega, Or.inr ?_⟩
    simp only [FdTable.resize]
    rw [List.getElem?_append_right (by omega), List.getElem?_replicate, if_pos (by omega)]

lemma asFdT_nonneg {f : ℕ} (hf : f < 2 ^ 32) (h : 0 ≤ asFdT f) : f < 2 ^ 31 ∧ asFdT f = f := by
  unfold asFdT at h ⊢
  split_ifs at h ⊢ with hlt
  · exact ⟨hlt, rfl⟩
  · omega

lemma installSlot_room {start rlimit : ℕ} (hroom : T.HasRoom start rlimit)
    (hstart : start < 2 ^ 31) {oom : Bool} (h : 0 ≤ (T.installSlot start rlimit oom).2) :
    (T.installSlot start rlimit oom).1.files[(T.installSlot start rlimit oom).2.toNat]? =
      some none := by
  have hend : T.scanEnd rlimit < 2 ^ 32 := by
    unfold FdTable.scanEnd
    omega
  unfold FdTable.installSlot at h ⊢
  cases hfind : (List.range' start (T.scanEnd rlimit - start)).find?
      (fun f => T.files[f]? = some none) with
  | some f =>
    simp only [hfind] at h ⊢
    have hmem := List.mem_of_find?_eq_some hfind
    have hempty := List.find?_some hfind
    rw [List.mem_range'_1] at hmem
    obtain ⟨-, hf⟩ := asFdT_nonneg (by omega) h
    rw [hf, Int.toNat_natCast]
    simpa using hempty
  | none =>
    simp only [hfind] at h ⊢
    cases hexpand : T.expand (asFdT (max start (T.scanEnd rlimit))) rlimit oom with
    | error err =>
      simp only [hexpand] at h
      exact absurd h (not_le.mpr (expand_error hexpand))
    | ok T' =>
      simp only [hexpand] at h ⊢
      obtain ⟨hlt, hf⟩ := asFdT_nonneg (by omega) h
      rw [hf] at hexpand ⊢
      rw [Int.toNat_natCast]
      obtain ⟨hlimit, ⟨hlen, rfl⟩ | hempty⟩ := expand_ok hlt hexpand
      · -- the search stopped before a slot of the table
        rcases hroom with hroom | ⟨f, hstart, hend, hf⟩ | hroom
        · unfold FdTable.scanEnd at hlen hlimit
          omega
        · rw [List.find?_eq_none] at hfind
          have hno := hfind f (by rw [List.mem_range'_1]; omega)
          simp [hf] at hno
        · rw [List.getElem?_eq_getElem hlen] at hroom ⊢
          simpa using hroom
      · exact hempty

lemma fdSound_setTable_files (h : w.FdSound) (htables : w.tables tb = some T)
    (hfiles : T'.files = T.files) : (w.setTable tb T').FdSound :=
  h.congr (owner_setTable htables fun i => by rw [hfiles]) rfl rfl h.nodup

lemma fdClose_setTable (w : FdWorld) (tb : TableId) (T : FdTable) (fd : FdId) :
    (w.setTable tb T).fdClose fd = (w.fdClose fd).setTable tb T := by
  simp only [fdClose_eq]
  rfl

/-- What `f_install_start` makes of a reference it is given: the reference of a slot that was
empty, or nothing. -/
lemma fInstallStart_cases (htables : w.tables tb = some T) (fd : FdId) {start rlimit : ℕ}
    (hroom : T.HasRoom start rlimit) (hstart : start < 2 ^ 31) (oom : Bool) :
    let r := (w.fInstallStart tb T fd start rlimit oom).1
    (∃ f, w.owner (.slot tb f) = none ∧ r.owner = update w.owner (.slot tb f) (some fd) ∧
      r.refcount = w.refcount ∧ r.closed = w.closed) ∨
    r.owner = w.owner ∧ r.refcount = (w.fdClose fd).refcount ∧
      r.closed = (w.fdClose fd).closed := by
  obtain ⟨hslots, -⟩ := installSlot_slots (T := T) start rlimit oom
  have howner : (w.setTable tb (T.installSlot start rlimit oom).1).owner = w.owner :=
    owner_setTable htables hslots
  have hempty : 0 ≤ (T.installSlot start rlimit oom).2 →
      (T.installSlot start rlimit oom).1.files[(T.installSlot start rlimit oom).2.toNat]? =
        some none := installSlot_room hroom hstart
  unfold fInstallStart
  generalize T.installSlot start rlimit oom = s at hslots howner hempty ⊢
  simp only []
  split_ifs with hs
  · refine Or.inl ⟨s.2.toNat, ?_, ?_, rfl, rfl⟩
    · rw [← howner]
      simp [owner, slot, setTable, hempty hs]
    · have hlt := (List.getElem?_eq_some_iff.mp (hempty hs)).1
      rw [owner_setSlot (T := s.1) (by simp [setTable]) hlt (v := some fd), howner]
      simp [FdTable.store, FdTable.setCloexec, not_lt.mpr hs]
  · refine Or.inr ⟨by rw [owner_fdClose, howner], ?_, ?_⟩
    · rw [fdClose_setTable]
      rfl
    · rw [fdClose_setTable]
      rfl

lemma keeps_fInstallStart (htables : w.tables tb = some T) (fd : FdId) (start rlimit : ℕ)
    (oom : Bool) : w.Keeps (w.fInstallStart tb T fd start rlimit oom).1 := by
  obtain ⟨-, hcount⟩ := installSlot_slots (T := T) start rlimit oom
  unfold fInstallStart
  generalize T.installSlot start rlimit oom = s at hcount ⊢
  have hset := keeps_setTable htables hcount
  simp only []
  split_ifs
  · refine hset.trans (keeps_setTable (T := s.1) (by simp [setTable]) ?_)
    rw [(files_setCloexec _ _ _).2, refcount_store]
  · exact hset.trans (keeps_fdClose _ fd)

lemma fInstall_eq (w : FdWorld) (tb : TableId) (T : FdTable) (fd : FdId) (flags rlimit : ℕ) (oom : Bool) :
    let r := (w.fInstallStart tb T fd 0 rlimit oom).1
    w.fInstall tb T fd flags rlimit oom = r ∨
      ∃ T₁ bit f, r.tables tb = some T₁ ∧
        w.fInstall tb T fd flags rlimit oom = r.setTable tb (T₁.setCloexec f bit) := by
  unfold fInstall
  simp only []
  split
  · rename_i T₁ htables
    split_ifs
    · exact Or.inr ⟨T₁, true, _, htables, rfl⟩
    · exact Or.inl rfl
  · exact Or.inl rfl

lemma fdSound_fInstall {fd : FdId} {flags rlimit : ℕ} {oom : Bool}
    (h : (w.fInstallStart tb T fd 0 rlimit oom).1.FdSound) :
    (w.fInstall tb T fd flags rlimit oom).FdSound := by
  obtain heq | ⟨T₁, bit, f, htables, heq⟩ := fInstall_eq w tb T fd flags rlimit oom
  · rwa [heq]
  · rw [heq]
    exact fdSound_setTable_files h htables (files_setCloexec T₁ f bit).1

lemma keeps_fInstall (htables : w.tables tb = some T) (fd : FdId) (flags rlimit : ℕ) (oom : Bool) :
    w.Keeps (w.fInstall tb T fd flags rlimit oom) := by
  have hstart := keeps_fInstallStart htables fd 0 rlimit oom
  obtain heq | ⟨T₁, bit, f, htables', heq⟩ := fInstall_eq w tb T fd flags rlimit oom
  · rwa [heq]
  · rw [heq]
    exact hstart.trans (keeps_setTable htables' (files_setCloexec T₁ f bit).2)

lemma fdSound_install (h : w.FdSound) (htables : w.tables tb = some T) {i : ℕ} {flags rlimit : ℕ}
    {oom : Bool} (hheld : w.held i = some fd) (hroom : T.HasRoom 0 rlimit) :
    ({ w with held := update w.held i none }.fInstall tb T fd flags rlimit oom).FdSound := by
  apply fdSound_fInstall
  let w' : FdWorld := { w with held := update w.held i none }
  have hw' : w'.owner = update w.owner (.held i) none := owner_setHeld i none
  have hk : w.owner (.held i) = some fd := hheld
  have hnodup : ∀ t, ((w'.fInstallStart tb T fd 0 rlimit oom).1.refs t).Nodup := by
    rw [(keeps_fInstallStart (w := w') htables fd 0 rlimit oom).refs]
    exact h.nodup
  obtain ⟨f, hempty, howner, hcount, hclosed⟩ | ⟨howner, hcount, hclosed⟩ :=
    fInstallStart_cases (w := w') htables fd hroom (by norm_num) oom
  · refine h.move hk (j := .slot tb f) ?_ ?_ hcount hclosed hnodup
    · rw [← hempty, hw', update_of_ne (by simp)]
    · rw [howner, hw', update_comm (by simp)]
  · refine h.close hk (howner.trans hw') (hcount.trans ?_) (hclosed.trans ?_) hnodup
    · simp only [fdClose_eq]
      rfl
    · simp only [fdClose_eq]
      rfl

lemma fdSound_dup (h : w.FdSound) (htables : w.tables tb = some T) {rlimit : ℕ} {oom : Bool}
    (hmem : fd ∈ w.refs t) (hroom : T.HasRoom 0 rlimit) :
    ((w.fdRetain fd).fInstall tb T fd 0 rlimit oom).FdSound := by
  apply fdSound_fInstall
  have hlive : (w.refcount fd).isSome := h.live (k := .syscall t fd) (by simp [owner, hmem])
  have hnodup : ∀ t, (((w.fdRetain fd).fInstallStart tb T fd 0 rlimit oom).1.refs t).Nodup := by
    rw [(keeps_fInstallStart (w := w.fdRetain fd) htables fd 0 rlimit oom).refs]
    exact h.nodup
  obtain ⟨f, hempty, howner, hcount, hclosed⟩ | ⟨howner, hcount, hclosed⟩ :=
    fInstallStart_cases (w := w.fdRetain fd) htables fd hroom (by norm_num) oom
  · exact h.retain (k := .slot tb f) hempty hlive howner hcount hclosed hnodup
  · rw [fdClose_fdRetain hlive (h.fds.pos fd)] at hcount hclosed
    exact h.congr howner hcount hclosed hnodup

/-! ### The stores without the lock -/

lemma fdSound_pending (h : w.FdSound) (hpending : w.pending t = none) (hmem : fd ∈ w.refs t)
    {p : PendingStore} (hp : p.fd = fd) :
    ({ w.fdRetain fd with pending := update w.pending t (some p) } : FdWorld).FdSound := by
  subst hp
  have hlive : (w.refcount p.fd).isSome := h.live (k := .syscall t p.fd) (by simp [owner, hmem])
  exact h.retain (k := .pending t) (by simp [owner, hpending]) hlive (owner_setPending t (some p))
    rfl rfl h.nodup

lemma fdSound_sysDup3 (h : w.FdSound) (htables : w.tables tb = some T)
    (hpending : w.pending t = none) (hmem : fd ∈ w.refs t) (newF : ℤ) (flags rlimit : ℕ)
    (oom : Bool) : (w.sysDup3 t tb T fd newF flags rlimit oom).FdSound := by
  unfold sysDup3
  split
  · exact h
  · rename_i T' hexpand
    apply fdSound_fdtableClose
    have hw : (w.setTable tb T').FdSound :=
      h.congr (owner_setTable htables (expand_slots hexpand).1) rfl rfl h.nodup
    exact fdSound_pending hw hpending hmem rfl

lemma fdSound_sysFcntlDupfd (h : w.FdSound) (htables : w.tables tb = some T)
    (hpending : w.pending t = none) (hmem : fd ∈ w.refs t) (arg rlimit : ℕ) (cloexec oom : Bool) :
    (w.sysFcntlDupfd t tb T fd arg rlimit cloexec oom).FdSound := by
  obtain ⟨hslots, -⟩ := installSlot_slots (T := T) arg rlimit oom
  have hw : (w.setTable tb (T.installSlot arg rlimit oom).1).FdSound :=
    h.congr (owner_setTable htables hslots) rfl rfl h.nodup
  unfold sysFcntlDupfd
  simp only []
  split_ifs
  · exact fdSound_pending hw hpending hmem rfl
  · have hlive : ((w.setTable tb (T.installSlot arg rlimit oom).1).refcount fd).isSome :=
      hw.live (k := .syscall t fd) (by simp [owner, setTable, hmem])
    rwa [fdClose_fdRetain hlive (hw.fds.pos fd)]

lemma fdSound_storePending (h : w.FdSound) (htables : w.tables tb = some T) {p : PendingStore}
    (hpending : w.pending t = some p) (hf : 0 ≤ p.f) (hempty : T.files[p.f.toNat]? = some none) :
    (w.storePending t tb T p).FdSound := by
  have hlt := (List.getElem?_eq_some_iff.mp hempty).1
  have hk : w.owner (.pending t) = some p.fd := by simp [owner, hpending]
  refine h.move hk (j := .slot tb p.f.toNat) (by simp [owner, slot, htables, hempty]) ?_ rfl rfl
    h.nodup
  unfold storePending
  have hfiles : (p.apply T).files = T.files.set p.f.toNat (some p.fd) := by
    unfold PendingStore.apply
    split <;> simp [FdTable.store, FdTable.setCloexec, not_lt.mpr hf]
  rw [← owner_setSlot htables hlt hfiles]
  exact owner_setPending t none

/-! ### Loops over a table -/

lemma fdSound_fdtableDoCloexec (h : w.FdSound) (tb : TableId) (T : FdTable) :
    (w.fdtableDoCloexec tb T).FdSound := by
  refine List.foldlRecOn (List.range T.files.length) _ h fun w hw f _ => ?_
  split_ifs
  · exact fdSound_fdtableClose hw tb f
  · exact hw

lemma fdSound_closeRangeSlot (h : w.FdSound) (tb : TableId) (flags : ℕ) (f : ℤ) :
    (closeRangeSlot tb flags w f).FdSound := by
  unfold closeRangeSlot
  split
  · exact h
  · rename_i T htables
    split_ifs
    · exact h
    · exact fdSound_setTable_files h htables (files_setCloexec T f true).1
    · exact fdSound_fdtableClose h tb f

lemma fdSound_sysCloseRange (h : w.FdSound) (tb : TableId) (T : FdTable) (first last flags : ℕ) :
    (w.sysCloseRange tb T first last flags).FdSound := by
  unfold sysCloseRange
  simp only []
  split_ifs
  · exact h
  · exact List.foldlRecOn _ _ h fun w hw i _ => fdSound_closeRangeSlot hw tb flags _
  · exact List.foldlRecOn _ _ h fun w hw i _ => fdSound_closeRangeSlot hw tb flags _

/-! ### Copying a table -/

@[simp] lemma tables_retainAll (files : List (Option FdId)) :
    (w.retainAll files).tables = w.tables := by
  refine List.foldlRecOn (motive := fun w' : FdWorld => w'.tables = w.tables) files _ rfl ?_
  intro w' hw fd _
  cases fd <;> exact hw

lemma keeps_retainAll (w : FdWorld) (files : List (Option FdId)) :
    w.Keeps (w.retainAll files) := by
  refine keeps_foldl (fun w fd => ?_) w files
  cases fd with
  | none => exact Keeps.rfl
  | some fd => exact keeps_fdRetain w fd

lemma isSome_retainAll (h : (w.refcount fd).isSome) (files : List (Option FdId)) :
    ((w.retainAll files).refcount fd).isSome := by
  refine List.foldlRecOn (motive := fun w' : FdWorld => (w'.refcount fd).isSome) files _ h ?_
  intro w' hw fd' _
  cases fd' with
  | none => exact hw
  | some fd' =>
    by_cases hfd : fd = fd'
    · subst hfd
      simpa [fdRetain] using hw
    · simpa [fdRetain, update_of_ne hfd] using hw

lemma retainAll_setTable (w : FdWorld) (new : TableId) (T : FdTable)
    (files : List (Option FdId)) :
    (w.setTable new T).retainAll files = (w.retainAll files).setTable new T := by
  unfold retainAll
  induction files generalizing w with
  | nil => rfl
  | cons fd files ih =>
    cases fd with
    | none => exact ih w
    | some fd => exact ih (w.fdRetain fd)

lemma retainAll_none (w : FdWorld) (files : List (Option FdId)) :
    w.retainAll (files ++ [none]) = w.retainAll files := by
  simp only [retainAll, List.foldl_append, List.foldl_cons, List.foldl_nil]

lemma retainAll_some (w : FdWorld) (files : List (Option FdId)) (fd : FdId) :
    w.retainAll (files ++ [some fd]) = (w.retainAll files).fdRetain fd := by
  simp only [retainAll, List.foldl_append, List.foldl_cons, List.foldl_nil]

lemma owner_setTable_concat (w : FdWorld) (tb : TableId) (n : ℕ) (l : List (Option FdId))
    (c : ℕ → Bool) (v : Option FdId) : (w.setTable tb ⟨n, l ++ [v], c⟩).owner =
      update (w.setTable tb ⟨n, l, c⟩).owner (.slot tb l.length) v := by
  funext k
  cases k with
  | slot tb' i =>
    by_cases hk : tb' = tb ∧ i = l.length
    · simp [owner, slot, setTable, hk.1, hk.2]
    · rw [update_of_ne (by simpa using hk)]
      have hslot : ∀ T, (w.setTable tb T).owner (.slot tb' i) = (w.setTable tb T).slot tb' i :=
        fun T => rfl
      rw [hslot, hslot, slot_setTable, slot_setTable]
      split_ifs with htb
      · have hi : i ≠ l.length := fun hi => hk ⟨htb, hi⟩
        rcases lt_or_gt_of_ne hi with hi | hi
        · simp [List.getElem?_append_left hi]
        · rw [List.getElem?_append_right hi.le, List.getElem?_eq_none (l := l) hi.le]
          rw [List.getElem?_eq_none (by simp; omega)]
      · rfl
  | syscall t fd => rfl
  | pending t => rfl
  | held h => rfl

lemma fdSound_copySlots (h : w.FdSound) {new : TableId} (hnew : w.tables new = none)
    (cloexec : ℕ → Bool) (files : List (Option FdId))
    (hlive : ∀ fd, some fd ∈ files → (w.refcount fd).isSome) :
    ((w.retainAll files).setTable new ⟨1, files, cloexec⟩).FdSound := by
  induction files using List.reverseRecOn with
  | nil =>
    refine h.congr (owner_congr (fun tb i => ?_) rfl rfl rfl) rfl rfl h.nodup
    rw [slot_setTable]
    split_ifs with htb
    · simp [htb, slot, hnew]
    · rfl
  | append_singleton files v ih =>
    have hfiles := ih fun fd hfd => hlive fd (by simp [hfd])
    have hempty : ((w.retainAll files).setTable new ⟨1, files, cloexec⟩).owner
        (.slot new files.length) = none := by
      simp [owner, slot, setTable]
    have hnodup : ∀ t, ((w.retainAll files).refs t).Nodup := (keeps_retainAll w files).nodup h
    cases v with
    | none =>
      rw [retainAll_none]
      refine hfiles.congr ?_ rfl rfl hnodup
      rw [owner_setTable_concat]
      nth_rewrite 1 [← hempty]
      rw [update_eq_self]
    | some fd =>
      have hfd := isSome_retainAll (hlive fd (by simp)) files
      rw [retainAll_some]
      refine hfiles.retain hempty hfd ?_ rfl rfl hnodup
      rw [owner_setTable_concat]
      rfl

end FdWorld

end ShellBox
