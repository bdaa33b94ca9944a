import ShellBox.Logic.PrefixRange

/-!
# The table of paths

The rows of `paths`, each with its `rowid`, and the statements of `path_rename` and
`path_delete_tree`. `update or replace` goes through the rows that it has selected one at a time: a
row with the new path is deleted, and a row that was deleted on the way is passed over. The order is
left to the database.
-/

namespace ShellBox

abbrev PathBytes := List UInt8

structure PathRow where
  rowid : ℕ
  path : PathBytes
  inode : ℕ
  deriving DecidableEq

def slashByte : UInt8 := 0x2f

/-- `(path >= ? and path < ?) or path = ?`, with the blobs that both functions bind. -/
def InPathRange (src path : PathBytes) : Prop :=
  (¬ path < src ++ [slashByte] ∧ path < src ++ [0x30]) ∨ path = src

instance decidableInPathRange (src path : PathBytes) : Decidable (InPathRange src path) :=
  inferInstanceAs (Decidable (_ ∨ _))

/-- `sqlite_func_change_prefix`. An empty result would be the null value: the destination is then
the root, and every path is below the root. -/
def changePrefix (path : PathBytes) (start : ℕ) (replacement : PathBytes) : PathBytes :=
  replacement ++ path.drop start

/-- `update or replace` at one row. -/
def replaceRow (f : PathBytes → PathBytes) (rows : List PathRow) (id : ℕ) : List PathRow :=
  match rows.find? (·.rowid = id) with
  | none => rows
  | some r =>
    (rows.filter fun r' => r'.rowid = id ∨ r'.path ≠ f r.path).map fun r' =>
      if r'.rowid = id then { r' with path := f r.path } else r'

/-- `path_rename`, with the rows that are selected in the order of `ids`. -/
def pathRenameRows (rows : List PathRow) (src dst : PathBytes) (ids : List ℕ) : List PathRow :=
  ids.foldl (replaceRow fun path => changePrefix path src.length dst) rows

/-- The rows that `path_rename` selects. -/
def renameIds (rows : List PathRow) (src : PathBytes) : List ℕ :=
  (rows.filter fun r => InPathRange src r.path).map PathRow.rowid

def pathDeleteTreeRows (rows : List PathRow) (path : PathBytes) : List PathRow :=
  rows.filter fun r => ¬ InPathRange path r.path

/-- `path` is the primary key, and each row has its own `rowid`. -/
structure PathKeys (rows : List PathRow) : Prop where
  ids : (rows.map PathRow.rowid).Nodup
  paths : (rows.map PathRow.path).Nodup

def Below (src path : PathBytes) : Prop := path = src ∨ ∃ t, path = src ++ slashByte :: t

/-- The row at the same place under `dst`. -/
def PathRow.moved (r : PathRow) (src dst : PathBytes) : PathRow :=
  { r with path := dst ++ r.path.drop src.length }

/-! ### The range -/

lemma nextLetter_slash : NextLetter slashByte 0x30 where
  irrefl := by decide
  lt := by decide
  between c h h' := by
    have hge : ¬ c.toNat < 47 := h
    have hlt : c.toNat < 48 := h'
    exact UInt8.toNat_inj.mp (show c.toNat = 47 by omega)

lemma inPathRange_iff_tail {src path : PathBytes} :
    InPathRange src path ↔ (tailOf slashByte src path).isSome :=
  prefixRange_or_self (fun c => Nat.lt_irrefl c.toNat) nextLetter_slash

lemma inPathRange_iff {src path : PathBytes} : InPathRange src path ↔ Below src path := by
  rw [InPathRange, prefixRange_iff (fun c => Nat.lt_irrefl c.toNat) nextLetter_slash, or_comm]
  rfl

variable {rows : List PathRow} {src dst : PathBytes} {r r' : PathRow}

lemma below_moved (h : Below src r.path) : Below dst (r.moved src dst).path := by
  rw [PathRow.moved]
  rcases h with h | ⟨t, h⟩
  · left
    rw [h, List.drop_length, List.append_nil]
  · right
    exact ⟨t, by rw [h, List.drop_left]⟩

lemma not_below_both (h : ¬ Below src dst) (h' : ¬ Below dst src) {path : PathBytes}
    (hsrc : Below src path) : ¬ Below dst path := by
  intro hdst
  rw [← inPathRange_iff, inPathRange_iff_tail, Option.isSome_iff_exists] at hsrc hdst h h'
  obtain ⟨t, ht⟩ := hsrc
  obtain ⟨u, hu⟩ := hdst
  exact (tailOf_or_tailOf ht hu).elim h h'

lemma eq_of_moved_path (h : Below src r.path) (h' : Below src r'.path)
    (heq : (r.moved src dst).path = (r'.moved src dst).path) : r.path = r'.path := by
  have hsplit : ∀ {r : PathRow}, Below src r.path → r.path = src ++ r.path.drop src.length := by
    rintro r (hr | ⟨t, hr⟩)
    · rw [hr, List.drop_length, List.append_nil]
    · rw [hr, List.drop_left]
  have htail := List.append_cancel_left heq
  rw [hsplit h, hsplit h', htail]

namespace PathKeys

lemma eq_of_rowid (hk : PathKeys rows) (h : r ∈ rows) (h' : r' ∈ rows) (heq : r.rowid = r'.rowid) :
    r = r' := List.inj_on_of_nodup_map hk.ids h h' heq

lemma eq_of_path (hk : PathKeys rows) (h : r ∈ rows) (h' : r' ∈ rows) (heq : r.path = r'.path) :
    r = r' := List.inj_on_of_nodup_map hk.paths h h' heq

end PathKeys

/-! ### One row after the other -/

lemma mem_replaceRow {f : PathBytes → PathBytes} {cur : List PathRow} {id : ℕ}
    (hfind : cur.find? (·.rowid = id) = some r) : r' ∈ replaceRow f cur id ↔
      ∃ q ∈ cur, (q.rowid = id ∨ q.path ≠ f r.path) ∧
        r' = if q.rowid = id then { q with path := f r.path } else q := by
  simp only [replaceRow, hfind, List.mem_map, List.mem_filter, decide_eq_true_eq, and_assoc,
    eq_comm (a := r')]

/-- The rows when those of `ids` have been moved. -/
def Renamed (rows : List PathRow) (src dst : PathBytes) (ids : List ℕ) (r' : PathRow) : Prop :=
  (∃ r ∈ rows, r.rowid ∈ ids ∧ r' = r.moved src dst) ∨
    (r' ∈ rows ∧ r'.rowid ∉ ids ∧ ∀ r ∈ rows, r.rowid ∈ ids → r'.path ≠ (r.moved src dst).path)

lemma find_next (hk : PathKeys rows) (h : ¬ Below src dst) (h' : ¬ Below dst src) {ids : List ℕ}
    {cur : List PathRow} (hcur : ∀ r', r' ∈ cur ↔ Renamed rows src dst ids r')
    (hids : ∀ id ∈ ids, ∃ r ∈ rows, r.rowid = id ∧ Below src r.path) (hr : r ∈ rows)
    (hnew : r.rowid ∉ ids) (hsrc : Below src r.path) :
    r ∈ cur ∧ cur.find? (·.rowid = r.rowid) = some r := by
  have hmem : r ∈ cur := by
    refine (hcur r).mpr (Or.inr ⟨hr, hnew, fun q hq hqid heq => ?_⟩)
    obtain ⟨q', hq', hid, hbelow⟩ := hids q.rowid hqid
    obtain rfl : q' = q := hk.eq_of_rowid hq' hq hid
    exact not_below_both h h' hsrc (heq ▸ below_moved hbelow)
  refine ⟨hmem, ?_⟩
  cases hfind : cur.find? (·.rowid = r.rowid) with
  | none =>
    rw [List.find?_eq_none] at hfind
    exact absurd (decide_eq_true rfl) (hfind r hmem)
  | some q =>
    have hid : q.rowid = r.rowid := by simpa using List.find?_some hfind
    rcases (hcur q).mp (List.mem_of_find?_eq_some hfind) with ⟨q', hq', hqid, rfl⟩ | ⟨hq, -, -⟩
    · exact absurd (hid ▸ hqid) hnew
    · rw [hk.eq_of_rowid hq hr hid]

lemma renamed_concat (hk : PathKeys rows) (h : ¬ Below src dst) (h' : ¬ Below dst src)
    {ids : List ℕ} {cur : List PathRow} (hcur : ∀ r', r' ∈ cur ↔ Renamed rows src dst ids r')
    (hids : ∀ id ∈ ids, ∃ r ∈ rows, r.rowid = id ∧ Below src r.path) (hr : r ∈ rows)
    (hnew : r.rowid ∉ ids) (hsrc : Below src r.path) (r' : PathRow) :
    r' ∈ replaceRow (fun path => changePrefix path src.length dst) cur r.rowid ↔
      Renamed rows src dst (ids ++ [r.rowid]) r' := by
  obtain ⟨hmem, hfind⟩ := find_next hk h h' hcur hids hr hnew hsrc
  have hin : ∀ {i}, i ∈ ids ++ [r.rowid] ↔ i ∈ ids ∨ i = r.rowid := by simp
  rw [mem_replaceRow hfind]
  constructor
  · rintro ⟨q, hq, hkeep, hq'⟩
    by_cases hid : q.rowid = r.rowid
    · rw [if_pos hid] at hq'
      rcases (hcur q).mp hq with ⟨q₀, -, hq₀, rfl⟩ | ⟨hqrows, -, -⟩
      · exact absurd (hid ▸ hq₀) hnew
      · obtain rfl : q = r := hk.eq_of_rowid hqrows hr hid
        exact Or.inl ⟨q, hr, hin.mpr (Or.inr rfl), hq'⟩
    · rw [if_neg hid] at hq'
      subst hq'
      rcases (hcur r').mp hq with ⟨q₀, hq₀, hqid, hmoved⟩ | ⟨hqrows, hqids, hother⟩
      · exact Or.inl ⟨q₀, hq₀, hin.mpr (Or.inl hqid), hmoved⟩
      · refine Or.inr ⟨hqrows, fun hmem' => (hin.mp hmem').elim hqids hid, fun q₀ hq₀ hmem' => ?_⟩
        rcases hin.mp hmem' with hmem' | hmem'
        · exact hother q₀ hq₀ hmem'
        · obtain rfl : q₀ = r := hk.eq_of_rowid hq₀ hr hmem'
          exact hkeep.resolve_left hid
  · rintro (⟨q, hq, hqid, rfl⟩ | ⟨hr', hrids, hother⟩)
    · rcases hin.mp hqid with hqid | hqid
      · have hne : q.rowid ≠ r.rowid := fun heq => hnew (heq ▸ hqid)
        obtain ⟨q', hq', hid, hbelow⟩ := hids q.rowid hqid
        obtain rfl : q' = q := hk.eq_of_rowid hq' hq hid
        refine ⟨q'.moved src dst, (hcur _).mpr (Or.inl ⟨q', hq, hqid, rfl⟩), Or.inr fun heq => ?_,
          (if_neg hne).symm⟩
        exact hne (congrArg PathRow.rowid
          (hk.eq_of_path hq hr (eq_of_moved_path hbelow hsrc heq)))
      · obtain rfl : q = r := hk.eq_of_rowid hq hr hqid
        exact ⟨q, hmem, Or.inl rfl, (if_pos rfl).symm⟩
    · have hne : r'.rowid ≠ r.rowid := fun heq => hrids (hin.mpr (Or.inr heq))
      refine ⟨r', (hcur r').mpr (Or.inr ⟨hr', fun hmem' => hrids (hin.mpr (Or.inl hmem')), ?_⟩),
        Or.inr (hother r hr (hin.mpr (Or.inr rfl))), (if_neg hne).symm⟩
      exact fun q hq hqid => hother q hq (hin.mpr (Or.inl hqid))

lemma mem_pathRenameRows (hk : PathKeys rows) (h : ¬ Below src dst) (h' : ¬ Below dst src)
    {ids : List ℕ} (hnodup : ids.Nodup)
    (hids : ∀ id ∈ ids, ∃ r ∈ rows, r.rowid = id ∧ Below src r.path) (r' : PathRow) :
    r' ∈ pathRenameRows rows src dst ids ↔ Renamed rows src dst ids r' := by
  induction ids using List.reverseRecOn generalizing r' with
  | nil => simp [pathRenameRows, Renamed]
  | append_singleton ids id ih =>
    have hin : ∀ i ∈ ids, ∃ r ∈ rows, r.rowid = i ∧ Below src r.path := fun i hi =>
      hids i (List.mem_append_left _ hi)
    obtain ⟨r, hr, rfl, hsrc⟩ := hids id (List.mem_append_right _ (List.mem_singleton_self _))
    rw [List.nodup_append_comm, List.singleton_append, List.nodup_cons] at hnodup
    rw [pathRenameRows, List.foldl_append]
    exact renamed_concat hk h h' (ih hnodup.2 hin) hin hr hnodup.1 hsrc r'

/-! ### The two functions -/

lemma mem_renameIds {id : ℕ} :
    id ∈ renameIds rows src ↔ ∃ r ∈ rows, r.rowid = id ∧ Below src r.path := by
  simp only [renameIds, List.mem_map, List.mem_filter, decide_eq_true_eq, inPathRange_iff]
  refine exists_congr fun r => ?_
  rw [and_assoc, and_comm (a := Below src r.path)]

/-- Renaming moves the rows of the tree, in whatever order they are taken, deletes the rows that
stand at their new places, and leaves the others. Deleting deletes the rows of the tree. -/
theorem path_tree_exact (hk : PathKeys rows) (src dst : PathBytes) :
    (¬ Below src dst → ¬ Below dst src → ∀ ids, ids.Perm (renameIds rows src) →
      ∀ r', r' ∈ pathRenameRows rows src dst ids ↔
        (∃ r ∈ rows, Below src r.path ∧ r' = r.moved src dst) ∨
        (r' ∈ rows ∧ ¬ Below src r'.path ∧
          ∀ r ∈ rows, Below src r.path → r'.path ≠ (r.moved src dst).path)) ∧
    (∀ r', r' ∈ pathDeleteTreeRows rows src ↔ r' ∈ rows ∧ ¬ Below src r'.path) := by
  constructor
  · intro h h' ids hperm r'
    have hmem : ∀ {r}, r ∈ rows → (r.rowid ∈ ids ↔ Below src r.path) := by
      intro r hr
      rw [hperm.mem_iff, mem_renameIds]
      constructor
      · rintro ⟨q, hq, hid, hb⟩
        exact hk.eq_of_rowid hq hr hid ▸ hb
      · exact fun hb => ⟨r, hr, rfl, hb⟩
    have hnodup : ids.Nodup := hperm.nodup_iff.mpr (hk.ids.sublist (List.filter_sublist.map _))
    rw [mem_pathRenameRows hk h h' hnodup fun id hid => mem_renameIds.mp (hperm.mem_iff.mp hid)]
    refine or_congr ?_ ?_
    · exact exists_congr fun r => and_congr_right fun hr => and_congr_left fun _ => hmem hr
    · refine and_congr_right fun hr' => and_congr (not_congr (hmem hr')) ?_
      exact forall₂_congr fun r hr => imp_congr (hmem hr) Iff.rfl
  · intro r'
    simp only [pathDeleteTreeRows, List.mem_filter, decide_not, Bool.not_eq_true',
      decide_eq_false_iff_not, inPathRange_iff]

/-- `/a` and `/a/x` go to `/b` and `/b/x`, and `/a.` stays. -/
theorem path_tree_exact_siblings :
    (⟨3, [0x2f, 0x61, 0x2e], 3⟩ : PathRow) ∈ pathRenameRows
      [⟨1, [0x2f, 0x61], 1⟩, ⟨2, [0x2f, 0x61, 0x2f, 0x78], 2⟩, ⟨3, [0x2f, 0x61, 0x2e], 3⟩]
      [0x2f, 0x61] [0x2f, 0x62] [2, 1] := by
  have hkeys : PathKeys
      [⟨1, [0x2f, 0x61], 1⟩, ⟨2, [0x2f, 0x61, 0x2f, 0x78], 2⟩, ⟨3, [0x2f, 0x61, 0x2e], 3⟩] :=
    ⟨by decide, by decide⟩
  have hexact := (path_tree_exact hkeys [0x2f, 0x61] [0x2f, 0x62]).1
    (inPathRange_iff.not.mp (by decide)) (inPathRange_iff.not.mp (by decide)) [2, 1] (by decide)
  refine (hexact _).mpr (Or.inr ⟨by decide, inPathRange_iff.not.mp (by decide), ?_⟩)
  intro r hr hsrc
  simp only [List.mem_cons, List.not_mem_nil, or_false] at hr
  rcases hr with rfl | rfl | rfl <;> decide

/-- The row of `/b/x` is not one of the tree of `/a`, and is not the destination, and is gone. -/
theorem path_rename_replaces_below : ¬ ∀ (rows : List PathRow) (src dst : PathBytes),
    PathKeys rows → ¬ Below src dst → ¬ Below dst src →
    ∀ ids, ids.Perm (renameIds rows src) → ∀ r', r' ∈ pathRenameRows rows src dst ids ↔
      (∃ r ∈ rows, Below src r.path ∧ r' = r.moved src dst) ∨
      (r' ∈ rows ∧ ¬ Below src r'.path ∧ r'.path ≠ dst) := by
  intro h
  have hrow := h [⟨1, [0x2f, 0x61], 1⟩, ⟨2, [0x2f, 0x61, 0x2f, 0x78], 2⟩,
    ⟨3, [0x2f, 0x62, 0x2f, 0x78], 3⟩] [0x2f, 0x61] [0x2f, 0x62] ⟨by decide, by decide⟩
    (inPathRange_iff.not.mp (by decide)) (inPathRange_iff.not.mp (by decide)) [1, 2] (by decide)
    ⟨3, [0x2f, 0x62, 0x2f, 0x78], 3⟩
  have hkept := hrow.mpr (Or.inr ⟨by decide, inPathRange_iff.not.mp (by decide), by decide⟩)
  exact absurd hkept (by decide)

end ShellBox
