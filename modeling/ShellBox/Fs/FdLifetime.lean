import ShellBox.Fs.FdHolders

/-!
# How long a description lives

Each operation keeps the count of every description equal to the number of its holders, as long
as a reference that is to become that of a slot goes to an empty one. `dup3` to a negative
descriptor, a store without the lock that another thread was faster than, and a limit on open
files of 2^32 and more can miss that.
-/

namespace ShellBox

open Function

namespace FdWorld

variable {w : FdWorld} {t : TaskId} {tb : TableId} {T T' : FdTable} {fd : FdId}

/-! ### The holders of a table -/

lemma tableOwner_setFiles (t : TaskId) (v : Option TableId) :
    ({ w with files := update w.files t v } : FdWorld).tableOwner =
      update w.tableOwner (.task t) v := by
  funext k
  cases k with
  | task t' =>
    by_cases htt : t' = t
    · simp [tableOwner, htt]
    · rw [update_of_ne (by simp [htt])]
      simp [tableOwner, update_of_ne htt]
  | reader r => rfl

lemma tableOwner_setReaders (r : ℕ) (v : Option TableId) :
    ({ w with readers := update w.readers r v } : FdWorld).tableOwner =
      update w.tableOwner (.reader r) v := by
  funext k
  cases k with
  | task t => rfl
  | reader r' =>
    by_cases hrr : r' = r
    · simp [tableOwner, hrr]
    · rw [update_of_ne (by simp [hrr])]
      simp [tableOwner, update_of_ne hrr]

lemma tableStore_fGet (t : TaskId) (f : ℤ) (oom : Bool) :
    (w.fGet t f oom).1.tableStore = w.tableStore := by
  unfold fGet
  split
  · rfl
  · split_ifs <;> rfl

lemma tableStore_syscallRefsRelease (t : TaskId) :
    (w.syscallRefsRelease t).tableStore = w.tableStore :=
  (keeps_foldl keeps_fdClose { w with refs := update w.refs t [] } (w.refs t)).tables

lemma keeps_sysDup3 (htables : w.tables tb = some T) (newF : ℤ) (flags rlimit : ℕ) (oom : Bool) :
    w.Keeps (w.sysDup3 t tb T fd newF flags rlimit oom) := by
  unfold sysDup3
  split
  · exact Keeps.rfl
  · rename_i T' hexpand
    have hset := keeps_setTable htables (expand_slots hexpand).2
    refine Keeps.trans ?_ (keeps_fdtableClose _ tb newF)
    exact ⟨hset.refs, hset.tables⟩

lemma keeps_sysFcntlDupfd (htables : w.tables tb = some T) (arg rlimit : ℕ) (cloexec oom : Bool) :
    w.Keeps (w.sysFcntlDupfd t tb T fd arg rlimit cloexec oom) := by
  have hset := keeps_setTable htables (installSlot_slots (T := T) arg rlimit oom).2
  unfold sysFcntlDupfd
  simp only []
  split_ifs
  · exact ⟨hset.refs, hset.tables⟩
  · exact (hset.trans (keeps_fdRetain _ fd)).trans (keeps_fdClose _ fd)

lemma keeps_storePending (htables : w.tables tb = some T) (p : PendingStore) :
    w.Keeps (w.storePending t tb T p) := by
  unfold storePending
  refine ⟨rfl, (keeps_setTable htables ?_).tables⟩
  unfold PendingStore.apply
  split
  · rw [(files_setCloexec _ _ _).2, refcount_store]
  · exact refcount_store T p.f (some p.fd)

lemma keeps_fdtableDoCloexec (w : FdWorld) (tb : TableId) (T : FdTable) :
    w.Keeps (w.fdtableDoCloexec tb T) := by
  refine keeps_foldl (fun w f => ?_) w _
  split_ifs
  · exact keeps_fdtableClose w tb f
  · exact Keeps.rfl

lemma keeps_closeRangeSlot (w : FdWorld) (tb : TableId) (flags : ℕ) (f : ℤ) :
    w.Keeps (closeRangeSlot tb flags w f) := by
  unfold closeRangeSlot
  split
  · exact Keeps.rfl
  · rename_i T htables
    split_ifs
    · exact Keeps.rfl
    · exact keeps_setTable htables (files_setCloexec T f true).2
    · exact keeps_fdtableClose w tb f

lemma keeps_sysCloseRange (w : FdWorld) (tb : TableId) (T : FdTable) (first last flags : ℕ) :
    w.Keeps (w.sysCloseRange tb T first last flags) := by
  unfold sysCloseRange
  simp only []
  split_ifs
  · exact Keeps.rfl
  · exact keeps_foldl (fun w i => keeps_closeRangeSlot w tb flags _) w _
  · exact keeps_foldl (fun w i => keeps_closeRangeSlot w tb flags _) w _

/-! ### Every operation -/

structure Inv (w : FdWorld) : Prop where
  fd : w.FdSound
  table : w.tableStore.Sound

lemma Inv.of_tableStore {w' : FdWorld} (h : w.Inv) (hfd : w'.FdSound)
    (ht : w'.tableStore = w.tableStore) : w'.Inv :=
  ⟨hfd, ht ▸ h.table⟩

lemma Inv.of_keeps {w' : FdWorld} (h : w.Inv) (hfd : w'.FdSound) (hk : w.Keeps w') : w'.Inv :=
  h.of_tableStore hfd hk.tables

lemma Inv.count_table (h : w.Inv) {k : TableHolder} (hk : w.tableOwner k = some tb) :
    ∃ T, w.tables tb = some T ∧ T.refcount ≠ 0 := by
  have hlive := h.table.live k tb hk
  simp only [tableStore, Option.isSome_map] at hlive
  obtain ⟨T, hT⟩ := Option.isSome_iff_exists.mp hlive
  refine ⟨T, hT, fun hzero => h.table.pos tb ?_⟩
  simp [tableStore, hT, hzero]

lemma Inv.retainTable {w' : FdWorld} (h : w.Inv) (htables : w.tables tb = some T)
    {k : TableHolder} (hk : w.tableOwner k = none)
    (howner : w'.tableOwner = update w.tableOwner k (some tb))
    (htables' : w'.tables = (w.setTable tb { T with refcount := T.refcount + 1 }).tables)
    (hfreed : w'.freedTables = w.freedTables)
    (hfd : w'.FdSound) : w'.Inv := by
  refine ⟨hfd, ?_⟩
  have hcount : w.tableStore.count tb = some T.refcount := by simp [tableStore, htables]
  have hstore := h.table.link hk hcount
  have hset := tableStore_setTable w tb { T with refcount := T.refcount + 1 }
  unfold tableStore at hset hstore ⊢
  simp only [RefStore.mk.injEq] at hset
  rw [howner, htables', hset.2.1, hfreed]
  exact hstore

lemma Inv.releaseTable {w' : FdWorld} (h : w.Inv) {k : TableHolder}
    (hk : w.tableOwner k = some tb) (howner : w'.tableOwner = update w.tableOwner k none)
    (htables : w'.tables = (w.fdtableRelease tb).tables)
    (hfreed : w'.freedTables = (w.fdtableRelease tb).freedTables) (hfd : w'.FdSound) : w'.Inv := by
  refine ⟨hfd, ?_⟩
  obtain ⟨T, hT, hpos⟩ := h.count_table hk
  have hstore := h.table.unlink hk
  have hrelease := tableStore_fdtableRelease hT hpos
  unfold tableStore at hrelease hstore ⊢
  simp only [RefStore.mk.injEq] at hrelease
  rw [howner, htables, hfreed, hrelease.2.1, hrelease.2.2]
  exact hstore

lemma refs_fdtableRelease (tb : TableId) : (w.fdtableRelease tb).refs = w.refs := by
  unfold fdtableRelease
  split
  · rfl
  · simp only []
    split_ifs
    · exact (keeps_closeAll _ tb _).refs
    · rfl

lemma tableOwner_fdtableRelease (h : w.tables tb = some T) (hpos : T.refcount ≠ 0) :
    (w.fdtableRelease tb).tableOwner = w.tableOwner :=
  congrArg RefStore.owner (tableStore_fdtableRelease h hpos)

lemma inv_copyFiles (h : w.Inv) (htables : w.tables tb = some T) {child : TaskId} {new : TableId}
    (hchild : w.files child = none) (hnew : w.tables new = none) (hfreed : new ∉ w.freedTables)
    (share oom : Bool) : (w.copyFiles child tb T new share oom).Inv := by
  unfold copyFiles
  split_ifs
  · refine h.retainTable htables (k := .task child) hchild (tableOwner_setFiles child (some tb)) rfl
      rfl ?_
    have hfd : (w.setTable tb { T with refcount := T.refcount + 1 }).FdSound :=
      fdSound_setTable_files h.fd htables rfl
    exact hfd.congr (owner_congr (fun tb i => rfl) rfl rfl rfl) rfl rfl hfd.nodup
  · exact h
  · have hlive : ∀ fd, some fd ∈ T.files → (w.refcount fd).isSome := by
      intro fd hfd
      obtain ⟨i, hi⟩ := List.mem_iff_getElem?.mp hfd
      exact h.fd.live (k := .slot tb i) (by simp [owner, slot, htables, hi])
    have hfd : (w.fdtableCopy T new).FdSound := by
      unfold fdtableCopy
      rw [retainAll_setTable]
      exact fdSound_copySlots h.fd hnew T.cloexec T.files hlive
    refine ⟨hfd.congr (owner_congr (fun tb i => rfl) rfl rfl rfl) rfl rfl hfd.nodup, ?_⟩
    have hcount : w.tableStore.count new = none := by simp [tableStore, hnew]
    have hstore := h.table.make (k := TableHolder.task child) hchild hcount hfreed
    have hset : (w.fdtableCopy T new).tableStore =
        ⟨w.tableOwner, update w.tableStore.count new (some 1), w.freedTables⟩ := by
      unfold fdtableCopy
      rw [(keeps_retainAll _ T.files).tables, tableStore_setTable]
    unfold tableStore at hset hstore ⊢
    simp only [RefStore.mk.injEq] at hset
    rw [tableOwner_setFiles, hset.1, hset.2.1, hset.2.2]
    exact hstore

lemma inv_doExit (h : w.Inv) (hfiles : w.files t = some tb) : (w.doExit t tb).Inv := by
  unfold doExit
  have hfd := fdSound_syscallRefsRelease h.fd t
  have hdrain : (w.syscallRefsRelease t).Inv :=
    h.of_tableStore hfd (tableStore_syscallRefsRelease t)
  have hk : (w.syscallRefsRelease t).tableOwner (.task t) = some tb := by
    have howner : (w.syscallRefsRelease t).tableOwner = w.tableOwner :=
      congrArg RefStore.owner (tableStore_syscallRefsRelease t)
    rw [howner]
    exact hfiles
  obtain ⟨T, hT, hpos⟩ := hdrain.count_table hk
  have hrelease := fdSound_fdtableRelease hfd tb
  refine hdrain.releaseTable hk ?_ rfl rfl ?_
  · rw [tableOwner_setFiles, tableOwner_fdtableRelease hT hpos]
  · exact hrelease.congr (owner_congr (fun tb i => rfl) rfl rfl rfl) rfl rfl hrelease.nodup

lemma onTable_rule {P : FdWorld → Prop} (h : P w) (t : TaskId) {f : TableId → FdTable → FdWorld}
    (hf : ∀ tb T, w.pending t = none → w.files t = some tb → w.tables tb = some T → P (f tb T)) :
    P (w.onTable t f) := by
  unfold onTable
  split
  · rename_i tb T hpending htable
    obtain ⟨hfiles, htables⟩ := table_eq_some htable
    exact hf tb T hpending hfiles htables
  · exact h

end FdWorld

/-- The condition on a step: a reference that is to become that of a slot goes to an empty one. -/
def FdOp.Lands (w : FdWorld) : FdOp → Prop
  | .install t _ _ rlimit _ => ∀ tb T, w.table t = some (tb, T) → T.HasRoom 0 rlimit
  | .dup t _ rlimit _ => ∀ tb T, w.table t = some (tb, T) → T.HasRoom 0 rlimit
  | .store t => ∀ p tb T, w.pending t = some p → w.table t = some (tb, T) →
      0 ≤ p.f ∧ T.files[p.f.toNat]? = some none
  | _ => True

open FdWorld in
/-- Every operation keeps the counts right. -/
theorem inv_fdStep {w : FdWorld} {op : FdOp} (hop : op.Lands w) (h : w.Inv) : (fdStep w op).Inv := by
  cases op with
  | create i fd =>
    simp only [fdStep]
    split_ifs with hnew
    · obtain ⟨hheld, hcount, hclosed⟩ := hnew
      refine h.of_tableStore ⟨?_, h.fd.nodup⟩ rfl
      have hmake := h.fd.fds.make (k := FdHolder.held i) hheld hcount hclosed
      unfold fdStore at hmake ⊢
      rw [← owner_setHeld i (some fd)] at hmake
      exact hmake
    · exact h
  | retain i fd =>
    simp only [fdStep]
    split_ifs with hfd
    · exact h.of_tableStore (h.fd.retain (k := .held i) hfd.1 hfd.2 (owner_setHeld i (some fd)) rfl
        rfl h.fd.nodup) rfl
    · exact h
  | drop i =>
    simp only [fdStep]
    split
    · rename_i fd hheld
      refine h.of_tableStore (h.fd.close (k := .held i) hheld ?_ rfl rfl ?_)
        (keeps_fdClose w fd).tables
      · rw [owner_setHeld, owner_fdClose]
      · exact (keeps_fdClose w fd).nodup h.fd
    · exact h
  | get t f oom =>
    refine onTable_rule h t fun tb T _ _ _ => ?_
    exact h.of_tableStore (fdSound_fGet h.fd t f oom) (tableStore_fGet t f oom)
  | install t i flags rlimit oom =>
    refine onTable_rule h t fun tb T _ hfiles htables => ?_
    split
    · rename_i fd hheld
      have hroom := hop tb T (table_of_eq hfiles htables)
      exact h.of_tableStore (fdSound_install h.fd htables hheld hroom)
        (keeps_fInstall (w := { w with held := update w.held i none }) htables fd flags rlimit
          oom).tables
    · exact h
  | dup t fd rlimit oom =>
    refine onTable_rule h t fun tb T _ hfiles htables => ?_
    split_ifs with hmem
    · have hroom := hop tb T (table_of_eq hfiles htables)
      exact h.of_tableStore (fdSound_dup h.fd htables hmem hroom)
        (keeps_fInstall (w := w.fdRetain fd) htables fd 0 rlimit oom).tables
    · exact h
  | dup3 t fd newF flags rlimit oom =>
    refine onTable_rule h t fun tb T hpending _ htables => ?_
    split_ifs with hmem
    · exact h.of_keeps (fdSound_sysDup3 h.fd htables hpending hmem newF flags rlimit oom)
        (keeps_sysDup3 htables newF flags rlimit oom)
    · exact h
  | fcntlDupfd t fd arg rlimit cloexec oom =>
    refine onTable_rule h t fun tb T hpending _ htables => ?_
    split_ifs with hmem
    · exact h.of_keeps (fdSound_sysFcntlDupfd h.fd htables hpending hmem arg rlimit cloexec oom)
        (keeps_sysFcntlDupfd htables arg rlimit cloexec oom)
    · exact h
  | store t =>
    simp only [fdStep]
    split
    · rename_i p tb T hpending htable
      obtain ⟨-, htables⟩ := table_eq_some htable
      obtain ⟨hf, hempty⟩ := hop p tb T hpending htable
      exact h.of_keeps (fdSound_storePending h.fd htables hpending hf hempty)
        (keeps_storePending htables p)
    · exact h
  | fcntlSetfd t f bit =>
    refine onTable_rule h t fun tb T _ _ htables => ?_
    split_ifs
    · obtain ⟨hfiles, hcount⟩ := files_setCloexec T f bit
      exact h.of_keeps (fdSound_setTable_files h.fd htables hfiles) (keeps_setTable htables hcount)
    · exact h
  | close t f =>
    refine onTable_rule h t fun tb T _ _ _ => ?_
    exact h.of_keeps (fdSound_fdtableClose h.fd tb f) (keeps_fdtableClose w tb f)
  | closeRange t first last flags =>
    refine onTable_rule h t fun tb T _ _ _ => ?_
    exact h.of_keeps (fdSound_sysCloseRange h.fd tb T first last flags)
      (keeps_sysCloseRange w tb T first last flags)
  | exec t =>
    refine onTable_rule h t fun tb T _ _ _ => ?_
    exact h.of_keeps (fdSound_fdtableDoCloexec h.fd tb T) (keeps_fdtableDoCloexec w tb T)
  | ret t =>
    refine onTable_rule h t fun tb T _ _ _ => ?_
    exact h.of_tableStore (fdSound_syscallRefsRelease h.fd t) (tableStore_syscallRefsRelease t)
  | clone t child new share oom =>
    refine onTable_rule h t fun tb T _ _ htables => ?_
    split_ifs with hnew
    · exact inv_copyFiles h htables hnew.1 hnew.2.1 hnew.2.2 share oom
    · exact h
  | exit t =>
    refine onTable_rule h t fun tb T _ hfiles _ => ?_
    exact inv_doExit h hfiles
  | readTable r t =>
    simp only [fdStep]
    split
    · rename_i tb T hreader htable
      obtain ⟨-, htables⟩ := table_eq_some htable
      refine h.retainTable htables (k := .reader r) hreader (tableOwner_setReaders r (some tb)) rfl
        rfl ?_
      have hfd : (w.setTable tb { T with refcount := T.refcount + 1 }).FdSound :=
        fdSound_setTable_files h.fd htables rfl
      exact hfd.congr (owner_congr (fun tb i => rfl) rfl rfl rfl) rfl rfl hfd.nodup
    · exact h
  | putTable r =>
    simp only [fdStep]
    split
    · rename_i tb hreader
      obtain ⟨T, hT, hpos⟩ := h.count_table (k := .reader r) hreader
      have hrelease := fdSound_fdtableRelease h.fd tb
      refine h.releaseTable (k := .reader r) hreader ?_ rfl rfl ?_
      · rw [tableOwner_setReaders, tableOwner_fdtableRelease hT hpos]
      · exact hrelease.congr (owner_congr (fun tb i => rfl) rfl rfl rfl) rfl rfl hrelease.nodup
    · exact h

lemma FdWorld.inv_init (t : TaskId) (tb : TableId) : (FdWorld.init t tb).Inv where
  fd := by
    have hslot : ∀ tb' i, (FdWorld.init t tb).slot tb' i = none := by
      intro tb' i
      have hfiles : ((List.replicate 3 (none : Option FdId))[i]?).join = none := by
        rw [List.getElem?_replicate]
        split_ifs <;> rfl
      by_cases htb : tb' = tb
      · simp only [slot, init, htb, update_self, Option.bind_some, hfiles]
      · simp [slot, init, update_of_ne htb]
    have howner : (FdWorld.init t tb).owner = fun _ => none :=
      funext (owner_eq_none hslot (fun _ => rfl) (fun _ => rfl) fun _ => rfl)
    refine ⟨?_, fun t => List.nodup_nil⟩
    unfold fdStore
    rw [howner]
    exact RefStore.Sound.empty
  table := by
    have hmake := (RefStore.Sound.empty (κ := TableHolder) (δ := TableId)).make
      (k := .task t) (d := tb) rfl rfl List.not_mem_nil
    have howner : (FdWorld.init t tb).tableOwner = update (fun _ => none) (.task t) (some tb) := by
      funext k
      cases k with
      | task t' => by_cases htt : t' = t <;> simp [tableOwner, init, htt]
      | reader r => rfl
    have hcount : (fun tb' => ((FdWorld.init t tb).tables tb').map FdTable.refcount) =
        update (fun _ => none) tb (some 1) := by
      funext tb'
      by_cases htb : tb' = tb <;> simp [init, htb]
    unfold tableStore
    rw [howner, hcount]
    exact hmake

namespace FdWorld

lemma mem_refs_syscallRefsRelease {w : FdWorld} {t t' : TaskId} {fd : FdId}
    (hmem : fd ∈ w.refs t) (htt : t ≠ t') : fd ∈ (w.syscallRefsRelease t').refs t := by
  unfold syscallRefsRelease
  refine List.foldlRecOn (motive := fun w' : FdWorld => fd ∈ w'.refs t) _ _ ?_ ?_
  · simpa [update_of_ne htt] using hmem
  · intro w' hw fd' _
    rwa [(keeps_fdClose w' fd').refs]

lemma mem_refs_fGet_of_mem {w : FdWorld} {t t' : TaskId} {fd : FdId} (hmem : fd ∈ w.refs t)
    (f : ℤ) (oom : Bool) : fd ∈ (w.fGet t' f oom).1.refs t := by
  unfold fGet
  split
  · exact hmem
  · split_ifs
    · exact hmem
    · exact hmem
    · by_cases htt : t = t'
      · subst htt
        simpa [fdRetain] using Or.inl hmem
      · simpa [fdRetain, update_of_ne htt] using hmem

lemma refs_copyFiles {w : FdWorld} {tb : TableId} {T : FdTable} (child : TaskId) (new : TableId)
    (share oom : Bool) : (w.copyFiles child tb T new share oom).refs = w.refs := by
  unfold copyFiles
  split_ifs
  · rfl
  · rfl
  · exact (keeps_retainAll _ T.files).refs

end FdWorld

open FdWorld in
lemma mem_refs_fdStep {w : FdWorld} {op : FdOp} {t : TaskId} {fd : FdId} (hmem : fd ∈ w.refs t)
    (hret : op ≠ .ret t) (hexit : op ≠ .exit t) : fd ∈ (fdStep w op).refs t := by
  have hsame : ∀ w' : FdWorld, w'.refs = w.refs → fd ∈ w'.refs t := fun w' hw => hw ▸ hmem
  cases op with
  | create i fd =>
    simp only [fdStep]
    split_ifs <;> exact hmem
  | retain i fd =>
    simp only [fdStep]
    split_ifs <;> exact hmem
  | drop i =>
    simp only [fdStep]
    split
    · exact hsame _ (keeps_fdClose w _).refs
    · exact hmem
  | get t' f oom =>
    refine onTable_rule (P := fun w' => fd ∈ w'.refs t) hmem t' fun tb T _ _ _ => ?_
    exact mem_refs_fGet_of_mem hmem f oom
  | install t' i flags rlimit oom =>
    refine onTable_rule (P := fun w' => fd ∈ w'.refs t) hmem t' fun tb T _ _ htables => ?_
    split
    · exact hsame _ (keeps_fInstall (w := { w with held := update w.held i none }) htables _ flags
        rlimit oom).refs
    · exact hmem
  | dup t' fd' rlimit oom =>
    refine onTable_rule (P := fun w' => fd ∈ w'.refs t) hmem t' fun tb T _ _ htables => ?_
    split_ifs
    · exact hsame _ (keeps_fInstall (w := w.fdRetain fd') htables fd' 0 rlimit oom).refs
    · exact hmem
  | dup3 t' fd' newF flags rlimit oom =>
    refine onTable_rule (P := fun w' => fd ∈ w'.refs t) hmem t' fun tb T _ _ htables => ?_
    split_ifs
    · exact hsame _ (keeps_sysDup3 htables newF flags rlimit oom).refs
    · exact hmem
  | fcntlDupfd t' fd' arg rlimit cloexec oom =>
    refine onTable_rule (P := fun w' => fd ∈ w'.refs t) hmem t' fun tb T _ _ htables => ?_
    split_ifs
    · exact hsame _ (keeps_sysFcntlDupfd htables arg rlimit cloexec oom).refs
    · exact hmem
  | store t' =>
    simp only [fdStep]
    split
    · exact hsame _ rfl
    · exact hmem
  | fcntlSetfd t' f bit =>
    refine onTable_rule (P := fun w' => fd ∈ w'.refs t) hmem t' fun tb T _ _ _ => ?_
    split_ifs <;> exact hmem
  | close t' f =>
    refine onTable_rule (P := fun w' => fd ∈ w'.refs t) hmem t' fun tb T _ _ _ => ?_
    exact hsame _ (keeps_fdtableClose w tb f).refs
  | closeRange t' first last flags =>
    refine onTable_rule (P := fun w' => fd ∈ w'.refs t) hmem t' fun tb T _ _ _ => ?_
    exact hsame _ (keeps_sysCloseRange w tb T first last flags).refs
  | exec t' =>
    refine onTable_rule (P := fun w' => fd ∈ w'.refs t) hmem t' fun tb T _ _ _ => ?_
    exact hsame _ (keeps_fdtableDoCloexec w tb T).refs
  | ret t' =>
    refine onTable_rule (P := fun w' => fd ∈ w'.refs t) hmem t' fun tb T _ _ _ => ?_
    exact mem_refs_syscallRefsRelease hmem fun htt => hret (htt ▸ rfl)
  | clone t' child new share oom =>
    refine onTable_rule (P := fun w' => fd ∈ w'.refs t) hmem t' fun tb T _ _ _ => ?_
    split_ifs
    · exact hsame _ (refs_copyFiles child new share oom)
    · exact hmem
  | exit t' =>
    refine onTable_rule (P := fun w' => fd ∈ w'.refs t) hmem t' fun tb T _ _ _ => ?_
    have hdrain : fd ∈ (w.syscallRefsRelease t').refs t :=
      mem_refs_syscallRefsRelease hmem fun htt => hexit (htt ▸ rfl)
    unfold doExit
    simpa [refs_fdtableRelease] using hdrain
  | readTable r t' =>
    simp only [fdStep]
    split <;> exact hmem
  | putTable r =>
    simp only [fdStep]
    split
    · exact hsame _ (refs_fdtableRelease _)
    · exact hmem

/-- What the life of a description is to be: its count is the number of its holders, nothing holds
a closed description, and one that was ever made is closed once, when nothing holds it. -/
structure FdWorld.Lifetime (w : FdWorld) : Prop where
  refcount_eq : ∀ fd n, w.refcount fd = some n → n = slotCount w.owner (· = fd)
  held_live : ∀ k fd, w.owner k = some fd → (w.refcount fd).isSome ∧ fd ∉ w.closed
  closed_once : w.closed.Nodup
  closed_iff : ∀ fd, (w.refcount fd).isSome ∨ fd ∈ w.closed →
    (fd ∈ w.closed ↔ ∀ k, w.owner k ≠ some fd)

lemma FdWorld.Inv.lifetime {w : FdWorld} (h : w.Inv) : w.Lifetime where
  refcount_eq fd n hn := h.fd.fds.count_eq fd n hn
  held_live k fd hk := by
    have hlive := h.fd.live hk
    refine ⟨hlive, fun hclosed => ?_⟩
    have hdead : w.refcount fd = none := h.fd.fds.dead fd hclosed
    simp [hdead] at hlive
  closed_once := h.fd.fds.nodup
  closed_iff fd hfd := h.fd.fds.freed_iff hfd

def dupAndClose : List FdOp :=
  [.create 0 0, .install 0 0 0 1024 false, .get 0 0 false, .dup3 0 0 5 0 1024 false, .store 0,
    .ret 0, .close 0 0, .close 0 5]

/-- The same with `dup3` to -1, and only the first descriptor is left to close. -/
def dupToMinusOne : List FdOp :=
  [.create 0 0, .install 0 0 0 1024 false, .get 0 0 false, .dup3 0 0 (-1) 0 1024 false, .store 0,
    .ret 0, .close 0 0]

end ShellBox
