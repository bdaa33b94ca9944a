import ShellBox.Fs.HostTree
import ShellBox.Logic.Loop

/-!
# Rebuilding the metadata after a move

The inode numbers in the database are those of the host. When the files have been copied to
another place they are wrong, and `fakefs_rebuild` writes the tables again, row by row. The names
that had one inode are linked together again on the host. The new number of a row is read before
that.
-/

namespace ShellBox

open Function

def rebuildHashSize : ℕ := 2000

/-- The new tables, the host tree, and the first path of each old inode number. -/
structure Rebuild where
  table : ℕ → List (ℕ × CString)
  db : MetaDb
  host : HostTree

/-- `unlinkat` and `linkat`; nobody looks at what they return. -/
def relink (host : HostTree) (src dst : CString) : HostTree :=
  let host := (host.unlinkAt dst).toOption.getD host
  (host.linkAt src dst).toOption.getD host

/-- The hard links of a row are restored, or the row is entered into the table. -/
def Rebuild.restore (r : Rebuild) (path : CString) (inode : ℕ) : Rebuild :=
  let bucket := inode % rebuildHashSize
  match (r.table bucket).find? fun entry => entry.1 = inode with
  | some entry => { r with host := relink r.host entry.2 path }
  | none => { r with table := update r.table bucket ((inode, path) :: r.table bucket) }

/-- The body of the loop of `fakefs_rebuild`. -/
def rebuildRow (old : MetaDb) (r : Rebuild) (row : CString × ℕ) : Rebuild :=
  match r.host.node row.1 with
  | none => r
  | some real =>
    let r := r.restore row.1 row.2
    match old.stats row.2 with
    | none => r
    | some stat =>
      { r with db :=
          { paths := r.db.paths.set row.1 real, stats := r.db.stats.set real stat } }

def Rebuild.start (host : HostTree) : Rebuild := ⟨fun _ => [], ⟨.empty, .empty⟩, host⟩

/-- `fakefs_rebuild`, over the rows of `paths_old` in some order. A statement or an allocation may
fail at some row, with an error; the tables are rolled back then. -/
def fakefsRebuild (old : MetaDb) (rows : List (CString × ℕ)) (host : HostTree) :
    Option (ℕ × ℤ) → Except ℤ Unit × MetaDb × HostTree
  | some (k, e) => (.error e, old, (run (rebuildRow old) (.start host) (rows.take k)).host)
  | none =>
    let r := run (rebuildRow old) (.start host) rows
    (.ok (), r.db, r.host)

structure RowsOf (db : MetaDb) (rows : List (CString × ℕ)) : Prop where
  nodup : (rows.map Prod.fst).Nodup
  mem : ∀ p n, (p, n) ∈ rows ↔ db.paths p = some n

structure HostTree.WellFormed (h : HostTree) : Prop where
  root : h.dirAt [] = true
  parent : ∀ p, p ≠ [] → h.node p ≠ none → h.dirAt (parentPath p) = true

def CopiedApart (db : MetaDb) (host : HostTree) : Prop :=
  ∀ p q m, db.paths p ≠ none → db.paths q ≠ none → host.node p = some m → host.node q = some m →
    db.paths p = db.paths q

structure Rebuilt (old : MetaDb) (host : HostTree) (db : MetaDb) (host' : HostTree) : Prop where
  stat : ∀ p n stat, old.pathReadStat p = some (n, stat) → host.node p ≠ none →
    ∃ n', db.pathReadStat p = some (n', stat)
  same : ∀ p q, old.paths p ≠ none → old.paths q ≠ none → host.node p ≠ none →
    host.node q ≠ none → (db.paths p = db.paths q ↔ old.paths p = old.paths q)
  file : ∀ p q, old.paths p ≠ none → host.node p ≠ none → host.node q ≠ none →
    old.paths p = old.paths q → host'.node p ≠ none ∧ host'.node p = host'.node q
  missing : ∀ p, host.node p = none → db.paths p = none

/-! ### Restoring a link -/

lemma parentPath_ne {p : CString} (hp : p ≠ []) : parentPath p ≠ p := by
  intro h
  have hlen := congrArg List.length h
  have hle := (List.dropWhile_sublist (fun c => c ≠ '/') (l := p.reverse)).length_le
  have hpos := List.length_pos_iff.2 hp
  simp only [parentPath, List.length_reverse, List.length_tail] at hlen hle
  omega

lemma relink_node (h : HostTree) (src : CString) {dst p : CString} (hp : p ≠ dst) :
    (relink h src dst).node p = h.node p := by
  have hunlink : ((h.unlinkAt dst).toOption.getD h).node p = h.node p := by
    cases hu : h.unlinkAt dst with
    | error e => rfl
    | ok h' =>
      have hnode := (HostTree.unlinkAt_ok hu).2
      simp [Except.toOption, hnode, hp]
  unfold relink
  simp only []
  rw [← hunlink]
  generalize (h.unlinkAt dst).toOption.getD h = h1
  cases hl : h1.linkAt src dst with
  | error e => rfl
  | ok h' =>
    obtain ⟨n, -, hnode⟩ := HostTree.linkAt_ok hl
    simp [Except.toOption, hnode, hp]

lemma relink_same {h : HostTree} (hwf : h.WellFormed) {src dst : CString} (hne : src ≠ dst)
    (hdst : h.node dst ≠ none) (hsame : h.node src = h.node dst) : relink h src dst = h := by
  obtain ⟨m, hm⟩ := Option.ne_none_iff_exists'.1 hdst
  have hsrc : h.node src = some m := hsame.trans hm
  have hdir : h.dirAt dst = h.isDir m := by simp [HostTree.dirAt, hm]
  cases hd : h.isDir m with
  | true =>
    have hunlink : h.unlinkAt dst = .error (-1) := by
      simp [HostTree.unlinkAt, hm, hdir, hd]
    have hlink : h.linkAt src dst = .error (-1) := by
      simp [HostTree.linkAt, hsrc, hd]
    simp [relink, hunlink, hlink, Except.toOption]
  | false =>
    have hroot : dst ≠ [] := by
      rintro rfl
      rw [hwf.root, hd] at hdir
      cases hdir
    have hunlink : h.unlinkAt dst = .ok { h with node := h.node.erase dst } := by
      simp [HostTree.unlinkAt, hm, hdir, hd]
    have hparent := hwf.parent dst hroot hdst
    have hlink : HostTree.linkAt { h with node := h.node.erase dst } src dst =
        .ok { h with node := (h.node.erase dst).set dst m } := by
      have hparent' : HostTree.dirAt { h with node := h.node.erase dst } (parentPath dst) =
          true := by
        simpa [HostTree.dirAt, parentPath_ne hroot] using hparent
      simp [HostTree.linkAt, hne, hsrc, hd, hparent']
    have hback : (h.node.erase dst).set dst m = h.node := by
      refine FinMap.ext fun p => ?_
      by_cases hp : p = dst
      · simp [hp, hm]
      · simp [hp]
    simp [relink, hunlink, hlink, hback, Except.toOption]

/-! ### The new rows -/

section Rows

variable {old : MetaDb} {host : HostTree}

/-- What is there after some rows: the numbers of the host, with what the old rows said. -/
structure RowsWritten (old : MetaDb) (host : HostTree) (done : List (CString × ℕ)) (r : Rebuild) :
    Prop where
  node : ∀ p, p ∉ done.map Prod.fst → r.host.node p = host.node p
  paths : ∀ p, r.db.paths p = if p ∈ done.map Prod.fst then host.node p else none
  stats : ∀ p n m, (p, n) ∈ done → host.node p = some m → r.db.stats m = old.stats n

lemma restore_db (r : Rebuild) (path : CString) (inode : ℕ) :
    (r.restore path inode).db = r.db := by
  unfold Rebuild.restore
  simp only []
  split <;> rfl

lemma restore_node (r : Rebuild) {path p : CString} (inode : ℕ) (hp : p ≠ path) :
    (r.restore path inode).host.node p = r.host.node p := by
  unfold Rebuild.restore
  simp only []
  split
  · exact relink_node _ _ hp
  · rfl

lemma RowsWritten.step {rows done : List (CString × ℕ)} {row : CString × ℕ} {r : Rebuild}
    (hrows : RowsOf old rows) (hfk : old.ForeignKey) (hcopy : CopiedApart old host)
    (hpre : done ++ [row] <+: rows) (h : RowsWritten old host done r) :
    RowsWritten old host (done ++ [row]) (rebuildRow old r row) := by
  obtain ⟨path, inode⟩ := row
  have hnodup : (done.map Prod.fst ++ [path]).Nodup := by
    have hsub := (hpre.sublist.map Prod.fst).nodup hrows.nodup
    simpa using hsub
  have hnew : path ∉ done.map Prod.fst := by
    intro hmem
    exact (List.nodup_append.1 hnodup).2.2 path hmem path (by simp) rfl
  have hold : old.paths path = some inode :=
    (hrows.mem path inode).1 (hpre.subset (by simp))
  have hrow : ∀ p n, (p, n) ∈ done → old.paths p = some n := fun p n hp =>
    (hrows.mem p n).1 (hpre.subset (by simp [hp]))
  have hmem : ∀ p, p ∈ (done ++ [(path, inode)]).map Prod.fst ↔
      p ∈ done.map Prod.fst ∨ p = path := by
    intro p
    simp
  unfold rebuildRow
  cases hreal : r.host.node path with
  | none =>
    have hhost : host.node path = none := by rw [← h.node path hnew, hreal]
    refine ⟨fun p hp => ?_, fun p => ?_, fun p n m hp hm => ?_⟩
    · exact h.node p fun hin => hp ((hmem p).2 (Or.inl hin))
    · rw [h.paths p]
      by_cases hpp : p = path
      · subst hpp
        rw [if_neg hnew, hhost, ite_self]
      · simp only [hmem p, hpp, or_false]
    · rcases List.mem_append.1 hp with hp | hp
      · exact h.stats p n m hp hm
      · obtain ⟨rfl, rfl⟩ : p = path ∧ n = inode := by simpa using hp
        rw [hhost] at hm
        cases hm
  | some real =>
    have hhost : host.node path = some real := by rw [← h.node path hnew, hreal]
    obtain ⟨stat, hstat⟩ := Option.isSome_iff_exists.1 (hfk path inode hold)
    simp only [hstat, restore_db]
    refine ⟨fun p hp => ?_, fun p => ?_, fun p n m hp hm => ?_⟩
    · have hp' := not_or.1 (mt (hmem p).2 hp)
      rw [restore_node r inode hp'.2]
      exact h.node p hp'.1
    · by_cases hpp : p = path
      · subst hpp
        simp [hhost]
      · simp only [FinMap.set_get, update_of_ne hpp, h.paths p, hmem p, hpp, or_false]
    · rcases List.mem_append.1 hp with hp | hp
      · by_cases hmr : m = real
        · -- the same file, so the same old row
          subst hmr
          have hsame := hcopy p path m (by simp [hrow p n hp]) (by simp [hold]) hm hhost
          obtain rfl : n = inode := by simpa [hrow p n hp, hold] using hsame
          simp [hstat]
        · simpa [hmr] using h.stats p n m hp hm
      · obtain ⟨rfl, rfl⟩ : p = path ∧ n = inode := by simpa using hp
        obtain rfl : real = m := Option.some.inj (hhost.symm.trans hm)
        simp [hstat]

theorem rowsWritten_run {rows : List (CString × ℕ)} (hrows : RowsOf old rows)
    (hfk : old.ForeignKey) (hcopy : CopiedApart old host) :
    RowsWritten old host rows (run (rebuildRow old) (.start host) rows) := by
  refine run_prefix_invariant (fun done row r hpre h => h.step hrows hfk hcopy hpre) ?_
  refine ⟨fun _ _ => rfl, fun p => ?_, fun p n m hp => ?_⟩
  · simp [Rebuild.start]
  · cases hp

end Rows

/-! ### The host tree -/

section Host

variable {old : MetaDb} {host : HostTree}

def LinksKept (old : MetaDb) (host : HostTree) : Prop :=
  ∀ p q, old.paths p ≠ none → host.node p ≠ none → host.node q ≠ none →
    old.paths p = old.paths q → host.node p = host.node q

structure HostKept (old : MetaDb) (host : HostTree) (done : List (CString × ℕ)) (r : Rebuild) :
    Prop where
  unchanged : r.host = host
  table : ∀ b entry, entry ∈ r.table b →
    (entry.2, entry.1) ∈ done ∧ host.node entry.2 ≠ none

lemma HostKept.step {rows done : List (CString × ℕ)} {row : CString × ℕ} {r : Rebuild}
    (hrows : RowsOf old rows) (hwf : host.WellFormed) (hkept : LinksKept old host)
    (hpre : done ++ [row] <+: rows) (h : HostKept old host done r) :
    HostKept old host (done ++ [row]) (rebuildRow old r row) := by
  obtain ⟨path, inode⟩ := row
  have hnodup : (done.map Prod.fst ++ [path]).Nodup := by
    have hsub := (hpre.sublist.map Prod.fst).nodup hrows.nodup
    simpa using hsub
  have hrow : ∀ p n, (p, n) ∈ done ++ [(path, inode)] → old.paths p = some n := fun p n hp =>
    (hrows.mem p n).1 (hpre.subset hp)
  have hlater : ∀ b entry, entry ∈ r.table b →
      (entry.2, entry.1) ∈ done ++ [(path, inode)] ∧ host.node entry.2 ≠ none := fun b entry he =>
    ⟨List.mem_append_left _ (h.table b entry he).1, (h.table b entry he).2⟩
  have hrestore : r.host.node path ≠ none →
      HostKept old host (done ++ [(path, inode)]) (r.restore path inode) := by
    intro hreal
    rw [h.unchanged] at hreal
    unfold Rebuild.restore
    simp only []
    split
    · rename_i entry hentry
      have hin := h.table _ _ (List.mem_of_find?_eq_some hentry)
      have hino : entry.1 = inode := by simpa using List.find?_some hentry
      have hne : entry.2 ≠ path := by
        rintro rfl
        exact (List.nodup_append.1 hnodup).2.2 entry.2 (List.mem_map_of_mem hin.1) entry.2
          (by simp) rfl
      have hold := hrow entry.2 entry.1 (List.mem_append_left _ hin.1)
      have hold' := hrow path inode (by simp)
      have hsame := hkept entry.2 path (by simp [hold]) hin.2 hreal (by rw [hold, hold', hino])
      refine ⟨?_, hlater⟩
      simp only [h.unchanged]
      exact relink_same hwf hne hreal hsame
    · refine ⟨h.unchanged, fun b entry he => ?_⟩
      by_cases hb : b = inode % rebuildHashSize
      · simp only [hb, update_self, List.mem_cons] at he
        rcases he with rfl | he
        · exact ⟨by simp, hreal⟩
        · exact hlater _ entry he
      · simp only [update_of_ne hb] at he
        exact hlater b entry he
  unfold rebuildRow
  cases hreal : r.host.node path with
  | none => exact ⟨h.unchanged, hlater⟩
  | some real =>
    have hk := hrestore (by simp [hreal])
    cases hstat : old.stats inode with
    | none => simpa [hstat] using hk
    | some stat =>
      exact ⟨hk.unchanged, hk.table⟩

theorem host_run {rows : List (CString × ℕ)} (hrows : RowsOf old rows) (hwf : host.WellFormed)
    (hkept : LinksKept old host) : (run (rebuildRow old) (.start host) rows).host = host := by
  refine (run_prefix_invariant (P := HostKept old host)
    (fun done row r hpre h => h.step hrows hwf hkept hpre) ⟨rfl, ?_⟩).unchanged
  intro b entry he
  cases he

end Host

/-- A rebuild does what it is for exactly when no hard link has been broken; one that fails leaves
the database as it was. -/
theorem fakefsRebuild_iff {old : MetaDb} {host : HostTree} {rows : List (CString × ℕ)}
    (hrows : RowsOf old rows) (hfk : old.ForeignKey) (hwf : host.WellFormed)
    (hcopy : CopiedApart old host) :
    (∀ k e, (fakefsRebuild old rows host (some (k, e))).1 = .error e ∧
      (fakefsRebuild old rows host (some (k, e))).2.1 = old) ∧
    (Rebuilt old host (fakefsRebuild old rows host none).2.1
      (fakefsRebuild old rows host none).2.2 ↔ LinksKept old host) := by
  have hw := rowsWritten_run hrows hfk hcopy
  have hin : ∀ p, old.paths p ≠ none → p ∈ rows.map Prod.fst := by
    intro p hp
    obtain ⟨n, hn⟩ := Option.ne_none_iff_exists'.1 hp
    exact List.mem_map_of_mem ((hrows.mem p n).2 hn)
  have hpaths : ∀ p, old.paths p ≠ none →
      (fakefsRebuild old rows host none).2.1.paths p = host.node p := by
    intro p hp
    exact (hw.paths p).trans (if_pos (hin p hp))
  refine ⟨fun k e => ⟨rfl, rfl⟩, fun h => ?_, fun hkept => ?_⟩
  · intro p q hp hpn hqn hpq
    have hq : old.paths q ≠ none := hpq ▸ hp
    have hsame := (h.same p q hp hq hpn hqn).2 hpq
    rwa [hpaths p hp, hpaths q hq] at hsame
  · refine ⟨fun p n stat hstat hpn => ?_, fun p q hp hq hpn hqn => ?_, fun p q hp hpn hqn hpq => ?_,
      fun p hpn => ?_⟩
    · obtain ⟨m, hm⟩ := Option.ne_none_iff_exists'.1 hpn
      obtain ⟨n', hn', hstat⟩ := Option.bind_eq_some_iff.1 hstat
      obtain ⟨stat', hstat', heq⟩ := Option.bind_eq_some_iff.1 hstat
      obtain ⟨rfl, rfl⟩ := Prod.mk.inj (Option.some.inj heq)
      have hold : old.paths p ≠ none := by simp [hn']
      have hnew := hw.stats p n' m ((hrows.mem p n').2 hn') hm
      refine ⟨m, ?_⟩
      unfold MetaDb.pathReadStat
      rw [hpaths p hold, hm]
      have hnew' : (fakefsRebuild old rows host none).2.1.stats m = some stat' :=
        hnew.trans hstat'
      simp [hnew']
    · rw [hpaths p hp, hpaths q hq]
      constructor
      · intro hsame
        obtain ⟨m, hm⟩ := Option.ne_none_iff_exists'.1 hpn
        exact hcopy p q m hp hq hm (hsame ▸ hm)
      · exact hkept p q hp hpn hqn
    · have hhost : (fakefsRebuild old rows host none).2.2 = host := host_run hrows hwf hkept
      rw [hhost]
      exact ⟨hpn, hkept p q hp hpn hqn hpq⟩
    · by_cases hp : p ∈ rows.map Prod.fst
      · exact (hw.paths p).trans ((if_pos hp).trans hpn)
      · exact (hw.paths p).trans (if_neg hp)

section Example

def linkedDb : MetaDb where
  paths := (FinMap.empty.set ['/', 'a'] 1).set ['/', 'b'] 1
  stats := FinMap.empty.set 1 ⟨0o100600, 0, 0, 0⟩

/-- The files `6` and `m` under these names. -/
def copiedHost (m : ℕ) : HostTree where
  node := ((FinMap.empty.set [] 5).set ['/', 'a'] 6).set ['/', 'b'] m
  isDir n := n = 5

lemma paths_linkedDb {p : CString} {n : ℕ} (h : linkedDb.paths p = some n) :
    (p = ['/', 'a'] ∨ p = ['/', 'b']) ∧ n = 1 := by
  simp only [linkedDb, FinMap.set_get] at h
  by_cases hb : p = ['/', 'b']
  · exact ⟨Or.inr hb, by simpa [hb] using h.symm⟩
  · by_cases ha : p = ['/', 'a']
    · exact ⟨Or.inl ha, by simpa [hb, ha] using h.symm⟩
    · simp [hb, ha] at h

lemma rowsOf_linkedDb : RowsOf linkedDb [(['/', 'a'], 1), (['/', 'b'], 1)] := by
  refine ⟨by decide, fun p n => ⟨fun h => ?_, fun h => ?_⟩⟩
  · have h : (p, n) = (['/', 'a'], 1) ∨ (p, n) = (['/', 'b'], 1) := by simpa using h
    rcases h with h | h
    · obtain ⟨rfl, rfl⟩ := Prod.mk.inj h
      rfl
    · obtain ⟨rfl, rfl⟩ := Prod.mk.inj h
      rfl
  · obtain ⟨rfl | rfl, rfl⟩ := paths_linkedDb h
    · simp
    · simp

lemma foreignKey_linkedDb : linkedDb.ForeignKey := by
  intro p n h
  obtain ⟨-, rfl⟩ := paths_linkedDb h
  rfl

lemma copiedApart_linkedDb (host : HostTree) : CopiedApart linkedDb host := by
  intro p q m hp hq _ _
  obtain ⟨n, hn⟩ := Option.ne_none_iff_exists'.1 hp
  obtain ⟨k, hk⟩ := Option.ne_none_iff_exists'.1 hq
  rw [hn, hk, (paths_linkedDb hn).2, (paths_linkedDb hk).2]

lemma wellFormed_copiedHost (m : ℕ) : (copiedHost m).WellFormed := by
  refine ⟨rfl, fun p hp hnode => ?_⟩
  by_cases hb : p = ['/', 'b']
  · subst hb
    rfl
  · by_cases ha : p = ['/', 'a']
    · subst ha
      rfl
    · simp [copiedHost, hb, ha, hp] at hnode

/-- The link has survived the move. -/
theorem fakefsRebuild_iff_linked :
    Rebuilt linkedDb (copiedHost 6)
      (fakefsRebuild linkedDb [(['/', 'a'], 1), (['/', 'b'], 1)] (copiedHost 6) none).2.1
      (fakefsRebuild linkedDb [(['/', 'a'], 1), (['/', 'b'], 1)] (copiedHost 6) none).2.2 ↔
      LinksKept linkedDb (copiedHost 6) :=
  (fakefsRebuild_iff rowsOf_linkedDb foreignKey_linkedDb (wellFormed_copiedHost 6)
    (copiedApart_linkedDb _)).2

/-- The link has become two files. -/
theorem fakefsRebuild_broken_link : ¬ ∀ (old : MetaDb) (rows : List (CString × ℕ))
    (host : HostTree), RowsOf old rows → old.ForeignKey → host.WellFormed →
    CopiedApart old host → Rebuilt old host (fakefsRebuild old rows host none).2.1
      (fakefsRebuild old rows host none).2.2 := by
  intro h
  have hb := h linkedDb _ (copiedHost 7) rowsOf_linkedDb foreignKey_linkedDb
    (wellFormed_copiedHost 7) (copiedApart_linkedDb _)
  have hsame := (hb.same ['/', 'a'] ['/', 'b'] (by decide) (by decide) (by decide) (by decide)).2 rfl
  cases hsame

end Example

end ShellBox
