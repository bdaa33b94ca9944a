import ShellBox.Fs.MetaDb
import ShellBox.Logic.Loop

/-!
# How long the row of an inode lives

The row of an inode goes when its last name and its last inode data in memory are gone. The two
are kept in different places and change at different moments: a name goes in a transaction, and
the check whether the row can go follows later, under the lock of the inode data. Opening has two
phases, too. The steps here are these transactions and critical sections, in any order.

Replacing a row in the table of paths makes no check.
-/

namespace ShellBox

open Function

structure InodeWorld where
  db : MetaDb
  /-- `inode_data.refcount`; zero if there is no inode data. -/
  refs : ℕ → ℕ
  /-- Calls of `inode_check_orphaned` that will be made. -/
  pending : List ℕ
  /-- Opens between the transaction of `fakefs_open` and `inode_get_unlocked`. -/
  opening : List ℕ

inductive InodeStep
  /-- `fakefs_mkdir`, `fakefs_symlink`. -/
  | create (path : CString) (stat : IshStat)
  /-- `fakefs_mknod`. -/
  | mknod (path : CString) (stat : IshStat)
  /-- `fakefs_open`, with what `O_CREAT` would write. -/
  | openPath (path : CString) (creat : Option IshStat)
  /-- `fakefs_fstat` and `inode_get_unlocked`, or a failure between the phases. -/
  | openGet (inode : ℕ) (ok : Bool)
  /-- `inode_release`. -/
  | release (inode : ℕ)
  /-- `fakefs_link`. -/
  | link (src dst : CString)
  /-- `fakefs_unlink`, `fakefs_rmdir`. -/
  | unlink (path : CString)
  /-- `fakefs_rename`. -/
  | rename (src dst : CString)
  /-- `inode_check_orphaned`. -/
  | check (inode : ℕ)

/-- The inode `fakefs_open` finds or makes. -/
def openRow (db : MetaDb) (path : CString) (creat : Option IshStat) : ℕ × MetaDb :=
  let inode := db.pathGetInode path
  match creat with
  | some stat =>
    if inode = 0 then (db.stats.nextKey, db.pathCreate path stat) else (inode, db)
  | none => (inode, db)

def inodeStep (w : InodeWorld) : InodeStep → InodeWorld
  | .create path stat => { w with db := w.db.pathCreate path stat }
  | .mknod path stat =>
    if w.db.pathGetInode path = 0 then { w with db := w.db.pathCreate path stat } else w
  | .openPath path creat =>
    let row := openRow w.db path creat
    if row.1 = 0 then w else { w with db := row.2, opening := row.1 :: w.opening }
  | .openGet inode ok =>
    if inode ∈ w.opening then
      let w := { w with opening := w.opening.erase inode }
      if ok ∧ (w.db.inodeReadStat inode).isSome then
        { w with refs := update w.refs inode (w.refs inode + 1) }
      else w
    else w
  | .release inode =>
    if w.refs inode = 0 then w
    else
      let w := { w with refs := update w.refs inode (w.refs inode - 1) }
      if w.refs inode = 0 then { w with db := w.db.tryCleanupInode inode } else w
  | .link src dst =>
    match w.db.pathLink src dst with
    | some db => { w with db }
    | none => w
  | .unlink path =>
    let unlinked := w.db.pathUnlink path
    { w with db := unlinked.2, pending := unlinked.1 :: w.pending }
  | .rename src dst => { w with db := w.db.pathRename src dst }
  | .check inode =>
    if inode ∈ w.pending then
      let w := { w with pending := w.pending.erase inode }
      if w.refs inode = 0 then { w with db := w.db.tryCleanupInode inode } else w
    else w

def InodeWorld.Referred (w : InodeWorld) (inode : ℕ) : Prop :=
  w.db.paths.HasValue inode ∨ 0 < w.refs inode

/-- The row at `q` is replaced by another one. -/
def InodeStep.Overwrites (w : InodeWorld) : InodeStep → CString → Prop
  | .create path _, q => q = path
  | .link _ dst, q => q = dst
  | .rename src dst, q => tailOf '/' src q = none ∧
    ∃ t, tailOf '/' dst q = some t ∧ w.db.paths (src ++ t) ≠ none
  | _, _ => False

def InodeStep.KeepsOwner (w : InodeWorld) (op : InodeStep) : Prop :=
  ∀ q inode, op.Overwrites w q → w.db.paths q = some inode →
    0 < w.refs inode ∨ inode ∈ w.pending ∨ ∃ q', ¬ op.Overwrites w q' ∧ w.db.paths q' = some inode

structure RowsKept (w : InodeWorld) : Prop where
  foreignKey : w.db.ForeignKey
  nonzero : ∀ p, w.db.paths p ≠ some 0
  refs : ∀ inode, 0 < w.refs inode → (w.db.stats inode).isSome
  needed : ∀ inode, (w.db.stats inode).isSome → w.Referred inode ∨ inode ∈ w.pending

/-! ### The steps -/

section Steps

variable {w : InodeWorld} (h : RowsKept w)

lemma rowsKept_cleanup {w : InodeWorld} {inode : ℕ} (hfk : w.db.ForeignKey)
    (hnonzero : ∀ p, w.db.paths p ≠ some 0)
    (hrefs : ∀ n, 0 < w.refs n → (w.db.stats n).isSome) (hzero : w.refs inode = 0)
    (hneeded : ∀ n, n ≠ inode → (w.db.stats n).isSome → w.Referred n ∨ n ∈ w.pending) :
    RowsKept { w with db := w.db.tryCleanupInode inode } := by
  unfold MetaDb.tryCleanupInode
  split_ifs with hval
  · refine ⟨hfk, hnonzero, hrefs, fun n hn => ?_⟩
    by_cases hni : n = inode
    · exact Or.inl (Or.inl (hni ▸ hval))
    · exact hneeded n hni hn
  · refine ⟨fun p n hp => ?_, hnonzero, fun n hn => ?_, fun n hn => ?_⟩
    · have hni : n ≠ inode := by
        rintro rfl
        exact hval ⟨p, hp⟩
      simpa [hni] using hfk p n hp
    · have hni : n ≠ inode := by
        rintro rfl
        have hpos : 0 < w.refs n := hn
        omega
      simpa [hni] using hrefs n hn
    · have hni : n ≠ inode := by
        rintro rfl
        simp at hn
      exact hneeded n hni (by simpa [hni] using hn)

lemma hasValue_rename {src dst : CString} {q : CString} {n : ℕ}
    (hq : ¬ (InodeStep.rename src dst).Overwrites w q) (hn : w.db.paths q = some n) :
    (w.db.pathRename src dst).paths.HasValue n := by
  by_cases hsrc : ∃ t, tailOf '/' src q = some t
  · obtain ⟨t, ht⟩ := hsrc
    obtain ⟨rfl, htail⟩ := tailOf_eq_some.1 ht
    exact ⟨dst ++ t, moveTree_of_some (tailOf_append htail) hn⟩
  · have hnone : tailOf '/' src q = none := by
      rw [Option.eq_none_iff_forall_ne_some]
      exact fun t ht => hsrc ⟨t, ht⟩
    refine ⟨q, ?_⟩
    rw [MetaDb.pathRename, FinMap.moveTree_get, moveTree_of_none]
    · rw [hnone]
      exact hn
    · intro t ht
      by_contra hne
      exact hq ⟨hnone, t, ht, hne⟩

include h

lemma RowsKept.pathGetInode_of_some {p : CString} {n : ℕ} (hp : w.db.paths p = some n) :
    w.db.pathGetInode p = n ∧ n ≠ 0 := by
  refine ⟨by simp [MetaDb.pathGetInode, hp], ?_⟩
  rintro rfl
  exact h.nonzero p hp

lemma RowsKept.create {path : CString} (stat : IshStat)
    (hkeep : ∀ n, w.db.paths path = some n →
      0 < w.refs n ∨ n ∈ w.pending ∨ ∃ q, q ≠ path ∧ w.db.paths q = some n) :
    RowsKept { w with db := w.db.pathCreate path stat } := by
  refine ⟨fun p n hp => ?_, fun p hp => ?_, fun n hn => ?_, fun n hn => ?_⟩
  · by_cases hn : n = w.db.stats.nextKey
    · simp [MetaDb.pathCreate, hn]
    · have hpp : p ≠ path := by
        rintro rfl
        simp only [MetaDb.pathCreate, FinMap.set_get, update_self, Option.some.injEq] at hp
        exact hn hp.symm
      simp only [MetaDb.pathCreate, FinMap.set_get, update_of_ne hpp] at hp
      simpa [MetaDb.pathCreate, hn] using h.foreignKey p n hp
  · by_cases hpp : p = path
    · subst hpp
      simp [MetaDb.pathCreate, FinMap.nextKey] at hp
    · simp only [MetaDb.pathCreate, FinMap.set_get, update_of_ne hpp] at hp
      exact h.nonzero p hp
  · have hsome := h.refs n hn
    by_cases hnk : n = w.db.stats.nextKey
    · simp [MetaDb.pathCreate, hnk]
    · simpa [MetaDb.pathCreate, hnk] using hsome
  · by_cases hnk : n = w.db.stats.nextKey
    · exact Or.inl (Or.inl ⟨path, by simp [MetaDb.pathCreate, hnk]⟩)
    · have hn' : (w.db.stats n).isSome := by simpa [MetaDb.pathCreate, hnk] using hn
      have hother : ∀ q, q ≠ path → w.db.paths q = some n →
          InodeWorld.Referred { w with db := w.db.pathCreate path stat } n := fun q hq hqn =>
        Or.inl ⟨q, by simpa [MetaDb.pathCreate, hq] using hqn⟩
      rcases h.needed n hn' with (⟨q, hq⟩ | hrefs) | hpend
      · by_cases hqp : q = path
        · subst hqp
          rcases hkeep n hq with hrefs | hpend | ⟨q', hne, hq'⟩
          · exact Or.inl (Or.inr hrefs)
          · exact Or.inr hpend
          · exact Or.inl (hother q' hne hq')
        · exact Or.inl (hother q hqp hq)
      · exact Or.inl (Or.inr hrefs)
      · exact Or.inr hpend

lemma RowsKept.rows {db : MetaDb} (hstats : db.stats = w.db.stats)
    (hsource : ∀ p n, db.paths p = some n → ∃ q, w.db.paths q = some n)
    (hkeep : ∀ q n, w.db.paths q = some n →
      0 < w.refs n ∨ n ∈ w.pending ∨ db.paths.HasValue n) : RowsKept { w with db } := by
  refine ⟨fun p n hp => ?_, fun p hp => ?_, fun n hn => ?_, fun n hn => ?_⟩
  · obtain ⟨q, hq⟩ := hsource p n hp
    rw [hstats]
    exact h.foreignKey q n hq
  · obtain ⟨q, hq⟩ := hsource p 0 hp
    exact h.nonzero q hq
  · rw [hstats]
    exact h.refs n hn
  · rw [hstats] at hn
    rcases h.needed n hn with (⟨q, hq⟩ | hrefs) | hpend
    · rcases hkeep q n hq with hrefs | hpend | hval
      · exact Or.inl (Or.inr hrefs)
      · exact Or.inr hpend
      · exact Or.inl (Or.inl hval)
    · exact Or.inl (Or.inr hrefs)
    · exact Or.inr hpend

lemma RowsKept.link {src dst : CString} {db : MetaDb} (hdb : w.db.pathLink src dst = some db)
    (hkeep : (InodeStep.link src dst).KeepsOwner w) : RowsKept { w with db } := by
  simp only [MetaDb.pathLink] at hdb
  split_ifs at hdb with hzero
  obtain rfl := Option.some.inj hdb
  cases hsrc : w.db.paths src with
  | none => simp [MetaDb.pathGetInode, hsrc] at hzero
  | some m =>
    have hino : w.db.pathGetInode src = m := (h.pathGetInode_of_some hsrc).1
    rw [hino]
    refine h.rows rfl (fun p n hp => ?_) fun q n hq => ?_
    · by_cases hpd : p = dst
      · refine ⟨src, ?_⟩
        subst hpd
        simpa [hsrc] using hp
      · exact ⟨p, by simpa [hpd] using hp⟩
    · by_cases hqd : q = dst
      · rcases hkeep q n hqd hq with hrefs | hpend | ⟨q', hq', hn⟩
        · exact Or.inl hrefs
        · exact Or.inr (Or.inl hpend)
        · have hne : q' ≠ dst := hq'
          exact Or.inr (Or.inr ⟨q', by simpa [hne] using hn⟩)
      · exact Or.inr (Or.inr ⟨q, by simpa [hqd] using hq⟩)

lemma RowsKept.rename {src dst : CString} (hkeep : (InodeStep.rename src dst).KeepsOwner w) :
    RowsKept { w with db := w.db.pathRename src dst } := by
  refine h.rows rfl (fun p n hp => ?_) fun q n hq => ?_
  · rcases moveTree_source '/' src dst w.db.paths.get p with hnone | ⟨q, hq⟩
    · rw [MetaDb.pathRename, FinMap.moveTree_get, hnone] at hp
      cases hp
    · rw [MetaDb.pathRename, FinMap.moveTree_get, hq] at hp
      exact ⟨q, hp⟩
  · by_cases hover : (InodeStep.rename src dst).Overwrites w q
    · rcases hkeep q n hover hq with hrefs | hpend | ⟨q', hq', hn⟩
      · exact Or.inl hrefs
      · exact Or.inr (Or.inl hpend)
      · exact Or.inr (Or.inr (hasValue_rename hq' hn))
    · exact Or.inr (Or.inr (hasValue_rename hover hq))

lemma RowsKept.unlink (path : CString) : RowsKept (inodeStep w (.unlink path)) := by
  have hpend : ∀ n, w.Referred n ∨ n ∈ w.pending → ∀ k, w.Referred n ∨ n ∈ k :: w.pending :=
    fun n hn k => hn.imp_right (List.mem_cons_of_mem k)
  simp only [inodeStep, MetaDb.pathUnlink]
  split_ifs with hzero
  · exact ⟨h.foreignKey, h.nonzero, h.refs, fun n hn => hpend n (h.needed n hn) 0⟩
  · refine ⟨fun p n hp => ?_, fun p hp => ?_, h.refs, fun n hn => ?_⟩
    · by_cases hpp : p = path
      · simp [hpp] at hp
      · exact h.foreignKey p n (by simpa [hpp] using hp)
    · by_cases hpp : p = path
      · simp [hpp] at hp
      · exact h.nonzero p (by simpa [hpp] using hp)
    · rcases h.needed n hn with (⟨q, hq⟩ | hrefs) | hmem
      · by_cases hqp : q = path
        · -- the check that follows is for this inode
          refine Or.inr ?_
          subst hqp
          rw [(h.pathGetInode_of_some hq).1]
          exact List.mem_cons_self
        · exact Or.inl (Or.inl ⟨q, by simpa [hqp] using hq⟩)
      · exact Or.inl (Or.inr hrefs)
      · exact Or.inr (List.mem_cons_of_mem _ hmem)

lemma RowsKept.createFree {path : CString} (stat : IshStat) (hzero : w.db.pathGetInode path = 0) :
    RowsKept { w with db := w.db.pathCreate path stat } := by
  refine h.create stat fun n hn => ?_
  obtain ⟨hino, hne⟩ := h.pathGetInode_of_some hn
  exact absurd (hino.symm.trans hzero) hne

lemma RowsKept.openPath (path : CString) (creat : Option IshStat) :
    RowsKept (inodeStep w (.openPath path creat)) := by
  have hopening : ∀ {w : InodeWorld} (l : List ℕ), RowsKept w → RowsKept { w with opening := l } :=
    fun l h => ⟨h.foreignKey, h.nonzero, h.refs, h.needed⟩
  simp only [inodeStep]
  split_ifs with hzero
  · exact h
  · cases creat with
    | none => exact hopening _ h
    | some stat =>
      by_cases hino : w.db.pathGetInode path = 0
      · simp only [openRow, hino, if_true]
        exact hopening _ (h.createFree stat hino)
      · simp only [openRow, hino, if_false]
        exact hopening _ h

lemma RowsKept.openGet (inode : ℕ) (ok : Bool) : RowsKept (inodeStep w (.openGet inode ok)) := by
  simp only [inodeStep]
  split_ifs with hmem hok
  · refine ⟨h.foreignKey, h.nonzero, fun n hn => ?_, fun n hn => ?_⟩
    · by_cases hni : n = inode
      · exact hni ▸ hok.2
      · exact h.refs n (by simpa [hni] using hn)
    · rcases h.needed n hn with (hval | hrefs) | hpend
      · exact Or.inl (Or.inl hval)
      · refine Or.inl (Or.inr ?_)
        by_cases hni : n = inode
        · simp [hni]
        · simpa [hni] using hrefs
      · exact Or.inr hpend
  · exact ⟨h.foreignKey, h.nonzero, h.refs, h.needed⟩
  · exact h

lemma RowsKept.release (inode : ℕ) : RowsKept (inodeStep w (.release inode)) := by
  simp only [inodeStep]
  split_ifs with hzero hlast
  · exact h
  · -- the last reference, and the check with it
    refine rowsKept_cleanup (w := { w with refs := update w.refs inode (w.refs inode - 1) })
      h.foreignKey h.nonzero (fun n hn => ?_) hlast (fun n hni hn => ?_)
    · by_cases hni : n = inode
      · exact hni ▸ h.refs inode (Nat.pos_of_ne_zero hzero)
      · exact h.refs n (by simpa [hni] using hn)
    · rcases h.needed n hn with (hval | hrefs) | hpend
      · exact Or.inl (Or.inl hval)
      · exact Or.inl (Or.inr (by simpa [hni] using hrefs))
      · exact Or.inr hpend
  · refine ⟨h.foreignKey, h.nonzero, fun n hn => ?_, fun n hn => ?_⟩
    · by_cases hni : n = inode
      · exact hni ▸ h.refs inode (Nat.pos_of_ne_zero hzero)
      · exact h.refs n (by simpa [hni] using hn)
    · rcases h.needed n hn with (hval | hrefs) | hpend
      · exact Or.inl (Or.inl hval)
      · refine Or.inl (Or.inr ?_)
        by_cases hni : n = inode
        · subst hni
          exact Nat.pos_of_ne_zero hlast
        · simpa [hni] using hrefs
      · exact Or.inr hpend

lemma RowsKept.check (inode : ℕ) : RowsKept (inodeStep w (.check inode)) := by
  have herase : ∀ n, n ≠ inode → w.Referred n ∨ n ∈ w.pending →
      w.Referred n ∨ n ∈ w.pending.erase inode := fun n hni hn =>
    hn.imp_right (List.mem_erase_of_ne hni).2
  simp only [inodeStep]
  split_ifs with hmem hzero
  · exact rowsKept_cleanup (w := { w with pending := w.pending.erase inode }) h.foreignKey
      h.nonzero h.refs hzero fun n hni hn => herase n hni (h.needed n hn)
  · -- inode data is there, and its release makes the check again
    refine ⟨h.foreignKey, h.nonzero, h.refs, fun n hn => ?_⟩
    by_cases hni : n = inode
    · subst hni
      exact Or.inl (Or.inr (Nat.pos_of_ne_zero hzero))
    · exact herase n hni (h.needed n hn)
  · exact h

end Steps

/-- Every step that takes no inode its last row keeps the invariant. -/
theorem rowsKept_step {w : InodeWorld} {op : InodeStep} (hkeep : op.KeepsOwner w)
    (h : RowsKept w) : RowsKept (inodeStep w op) := by
  cases op with
  | create path stat =>
    refine h.create stat fun n hn => ?_
    rcases hkeep path n rfl hn with hrefs | hpend | ⟨q, hq, hn⟩
    · exact Or.inl hrefs
    · exact Or.inr (Or.inl hpend)
    · exact Or.inr (Or.inr ⟨q, hq, hn⟩)
  | mknod path stat =>
    simp only [inodeStep]
    split_ifs with hzero
    · exact h.createFree stat hzero
    · exact h
  | openPath path creat => exact h.openPath path creat
  | openGet inode ok => exact h.openGet inode ok
  | release inode => exact h.release inode
  | link src dst =>
    simp only [inodeStep]
    cases hdb : w.db.pathLink src dst with
    | none => exact h
    | some db => exact h.link hdb hkeep
  | unlink path => exact h.unlink path
  | rename src dst => exact h.rename hkeep
  | check inode => exact h.check inode

/-- Once nothing is under way, the rows are those of the inodes with a name or inode data. -/
theorem inodeRows_exact {w : InodeWorld} (hnonzero : ∀ p, w.db.paths p ≠ some 0)
    (hstart : ∀ inode, (w.db.stats inode).isSome ↔ w.Referred inode) {steps : List InodeStep}
    (hsteps : RunAll inodeStep (fun w op => op.KeepsOwner w) w steps) :
    let w' := run inodeStep w steps
    (∀ inode, w'.Referred inode → (w'.db.stats inode).isSome) ∧
      (w'.pending = [] → ∀ inode, (w'.db.stats inode).isSome → w'.Referred inode) := by
  intro w'
  have h : RowsKept w' := run_invariant (fun _ _ hop hw => rowsKept_step hop hw) hsteps
    ⟨fun p n hp => (hstart n).2 (Or.inl ⟨p, hp⟩), hnonzero, fun n hn => (hstart n).2 (Or.inr hn),
      fun n hn => Or.inl ((hstart n).1 hn)⟩
  refine ⟨fun inode hin => ?_, fun hdone inode hin => ?_⟩
  · rcases hin with ⟨p, hp⟩ | hrefs
    · exact h.foreignKey p inode hp
    · exact h.refs inode hrefs
  · rcases h.needed inode hin with href | hpend
    · exact href
    · rw [hdone] at hpend
      cases hpend

section Example

/-- The files `/a` and `/b`. -/
def twoFiles : InodeWorld where
  db :=
    { paths := (FinMap.empty.set ['/', 'a'] 1).set ['/', 'b'] 2
      stats := (FinMap.empty.set 1 ⟨0o100600, 0, 0, 0⟩).set 2 ⟨0o100600, 0, 0, 0⟩ }
  refs _ := 0
  pending := []
  opening := []

lemma paths_twoFiles {p : CString} {n : ℕ} (h : twoFiles.db.paths p = some n) :
    p = ['/', 'a'] ∧ n = 1 ∨ p = ['/', 'b'] ∧ n = 2 := by
  simp only [twoFiles, FinMap.set_get] at h
  by_cases hb : p = ['/', 'b']
  · exact Or.inr ⟨hb, by simpa [hb] using h.symm⟩
  · by_cases ha : p = ['/', 'a']
    · exact Or.inl ⟨ha, by simpa [hb, ha] using h.symm⟩
    · simp [hb, ha] at h

lemma nonzero_twoFiles (p : CString) : twoFiles.db.paths p ≠ some 0 := by
  intro h
  rcases paths_twoFiles h with ⟨-, h⟩ | ⟨-, h⟩ <;> cases h

lemma stats_twoFiles (n : ℕ) : (twoFiles.db.stats n).isSome ↔ twoFiles.Referred n := by
  constructor
  · intro h
    by_cases h2 : n = 2
    · exact Or.inl ⟨['/', 'b'], by rw [h2]; rfl⟩
    · by_cases h1 : n = 1
      · exact Or.inl ⟨['/', 'a'], by rw [h1]; rfl⟩
      · simp [twoFiles, h1, h2] at h
  · rintro (⟨p, hp⟩ | h)
    · rcases paths_twoFiles hp with ⟨-, rfl⟩ | ⟨-, rfl⟩ <;> rfl
    · cases h

/-- A file is opened, unlinked and closed. -/
theorem inodeRows_exact_unlink :
    let w := run inodeStep twoFiles [.openPath ['/', 'a'] none, .openGet 1 true,
      .unlink ['/', 'a'], .check 1, .release 1]
    w.pending = [] → ∀ inode, (w.db.stats inode).isSome → w.Referred inode := by
  have hsteps : RunAll inodeStep (fun w op => op.KeepsOwner w) twoFiles
      [.openPath ['/', 'a'] none, .openGet 1 true, .unlink ['/', 'a'], .check 1, .release 1] :=
    ⟨fun _ _ h => h.elim, fun _ _ h => h.elim, fun _ _ h => h.elim, fun _ _ h => h.elim,
      fun _ _ h => h.elim, trivial⟩
  exact (inodeRows_exact nonzero_twoFiles stats_twoFiles hsteps).2

/-- The file that is replaced leaves its row behind. -/
theorem inodeRows_rename_leak : ¬ ∀ (w : InodeWorld) (steps : List InodeStep),
    (∀ p, w.db.paths p ≠ some 0) →
    (∀ inode, (w.db.stats inode).isSome ↔ w.Referred inode) →
    (run inodeStep w steps).pending = [] →
    ∀ inode, ((run inodeStep w steps).db.stats inode).isSome →
      (run inodeStep w steps).Referred inode := by
  intro h
  have href := h twoFiles [.rename ['/', 'a'] ['/', 'b']] nonzero_twoFiles stats_twoFiles rfl 2 rfl
  rcases href with hval | hrefs
  · exact absurd hval (by decide)
  · cases hrefs

end Example

end ShellBox
