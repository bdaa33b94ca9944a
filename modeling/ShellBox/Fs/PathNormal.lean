import ShellBox.Fs.Path

/-!
# Normalized paths

A normalized path is empty or begins with a slash, and has no two slashes in a row. It is the
joined path of its names; `path_is_normalized` lets one more slash pass at the end.
-/

namespace ShellBox

def pathIsNormalized (path : CString) : Bool :=
  match path with
  | [] => true
  | c :: rest =>
    if c ≠ '/' then false
    else if rest.head? = some '/' then false
    else pathIsNormalized (rest.dropWhile (· ≠ '/'))
termination_by path.length
decreasing_by
  have hle := List.Sublist.length_le (List.dropWhile_sublist (l := rest) (· ≠ '/'))
  simp only [List.length_cons]
  omega

def IsPart (c : CString) : Prop := c ≠ [] ∧ '/' ∉ c

instance (c : CString) : Decidable (IsPart c) := inferInstanceAs (Decidable (_ ∧ _))

lemma IsName.isPart {c : CString} (h : IsName c) : IsPart c := ⟨h.ne_nil, h.slash⟩

lemma IsPart.head {c : CString} (h : IsPart c) (p : CString) : (c ++ p).head? ≠ some '/' := by
  cases c with
  | nil => exact absurd rfl h.1
  | cons x c =>
    intro hx
    have hxs : x = '/' := by simpa using hx
    exact h.2 (by simp [hxs])

@[simp] lemma pathIsNormalized_nil : pathIsNormalized [] = true := by
  rw [pathIsNormalized]

lemma pathIsNormalized_slash {c tail : CString} (hc : IsPart c) (htail : endsName tail = true) :
    pathIsNormalized ('/' :: (c ++ tail)) = pathIsNormalized tail := by
  have hdrop : (c ++ tail).dropWhile (· ≠ '/') = tail := by
    have hall : ∀ x ∈ c, decide (x ≠ '/') = true := by
      intro x hx
      exact decide_eq_true fun he => hc.2 (he ▸ hx)
    rw [List.dropWhile_append_of_pos hall]
    rcases endsName_iff.1 htail with rfl | ⟨q, rfl⟩ <;> simp
  rw [pathIsNormalized, if_neg (not_not.2 rfl), if_neg (hc.head tail), hdrop]

lemma pathIsNormalized_joinPath {names : List CString} {tail : CString}
    (hn : ∀ c ∈ names, IsPart c) (htail : endsName tail = true) :
    pathIsNormalized (joinPath names ++ tail) = pathIsNormalized tail := by
  induction names with
  | nil => rfl
  | cons c names ih =>
    rw [joinPath_cons, List.cons_append, List.cons_append, List.append_assoc,
      pathIsNormalized_slash (hn c (by simp)) (endsName_joinPath names htail)]
    exact ih fun d hd => hn d (by simp [hd])

/-- A normalized path has names, and perhaps a slash behind them. -/
theorem pathIsNormalized_iff {path : CString} : pathIsNormalized path = true ↔
    ∃ names tail, (∀ c ∈ names, IsPart c) ∧ (tail = [] ∨ tail = ['/']) ∧
      path = joinPath names ++ tail := by
  constructor
  · induction hlen : path.length using Nat.strong_induction_on generalizing path with
    | _ n ih =>
      intro hp
      cases path with
      | nil => exact ⟨[], [], by simp⟩
      | cons x rest =>
        rw [pathIsNormalized] at hp
        split_ifs at hp with hx hhead
        obtain rfl : x = '/' := not_not.1 hx
        have hsplit : rest = rest.takeWhile (· ≠ '/') ++ rest.dropWhile (· ≠ '/') :=
          List.takeWhile_append_dropWhile.symm
        have hdrop := List.Sublist.length_le (List.dropWhile_sublist (l := rest) (· ≠ '/'))
        obtain ⟨names, tail, hn, htail, hrest⟩ := ih (rest.dropWhile (· ≠ '/')).length
          (by simp only [List.length_cons] at hlen; omega) rfl hp
        have hslash : '/' ∉ rest.takeWhile (· ≠ '/') := by
          intro hmem
          simpa using List.mem_takeWhile_imp hmem
        cases hc : rest.takeWhile (· ≠ '/') with
        | nil =>
          -- only the end of the path can follow the slash
          have hnil : rest = [] := by
            cases rest with
            | nil => rfl
            | cons y rest =>
              have hy : y ≠ '/' := fun hy => hhead (by simp [hy])
              simp [hy] at hc
          exact ⟨[], ['/'], by simp [hnil]⟩
        | cons y c =>
          refine ⟨(y :: c) :: names, tail, ?_, htail, ?_⟩
          · intro d hd
            rcases List.mem_cons.1 hd with rfl | hd
            · exact ⟨by simp, hc ▸ hslash⟩
            · exact hn d hd
          · rw [joinPath_cons, List.append_assoc, ← hrest, List.cons_append, ← hc, ← hsplit]
  · rintro ⟨names, tail, hn, rfl | rfl, rfl⟩
    · rw [pathIsNormalized_joinPath hn rfl, pathIsNormalized_nil]
    · rw [pathIsNormalized_joinPath hn (endsName_slash [])]
      rw [pathIsNormalized, if_neg (not_not.2 rfl), if_neg (by simp)]
      exact pathIsNormalized_nil

/-! ### Paths below paths -/

lemma joinPath_prefix_iff {ns names : List CString} {tail : CString} (hns : ∀ c ∈ ns, IsPart c)
    (hn : ∀ c ∈ names, IsPart c) (htail : tail = [] ∨ tail = ['/']) :
    (∃ rest, joinPath names ++ tail = joinPath ns ++ rest ∧ endsName rest = true) ↔
      ns <+: names := by
  have hends : endsName tail = true := by
    rcases htail with rfl | rfl <;> rfl
  constructor
  · rintro ⟨rest, heq, hrest⟩
    induction ns generalizing names with
    | nil => exact List.nil_prefix
    | cons c ns ih =>
      have hc := hns c (by simp)
      cases names with
      | nil =>
        exfalso
        rw [joinPath_nil, List.nil_append, joinPath_cons] at heq
        rcases htail with rfl | rfl
        · simp at heq
        · simp [hc.1] at heq
      | cons d names =>
        simp only [joinPath_cons, List.cons_append, List.append_assoc, List.cons.injEq,
          true_and] at heq
        obtain ⟨rfl, htl⟩ := name_unique (hn d (by simp)).2 hc.2 (endsName_joinPath names hends)
          (endsName_joinPath ns hrest) heq
        rw [List.cons_prefix_cons]
        exact ⟨rfl, ih (fun e he => hns e (by simp [he])) (fun e he => hn e (by simp [he])) htl⟩
  · rintro ⟨more, rfl⟩
    exact ⟨joinPath more ++ tail, by simp, endsName_joinPath more hends⟩

lemma joinPath_injective {ns ms : List CString} (hns : ∀ c ∈ ns, IsPart c)
    (hms : ∀ c ∈ ms, IsPart c) (h : joinPath ns = joinPath ms) : ns = ms := by
  have hle : ns <+: ms := (joinPath_prefix_iff hns hms (Or.inl rfl)).1 ⟨[], by simp [h]⟩
  have hge : ms <+: ns := (joinPath_prefix_iff hms hns (Or.inl rfl)).1 ⟨[], by simp [h]⟩
  exact hle.eq_of_length_le hge.length_le

end ShellBox
