import ShellBox.Logic.PathMap

/-!
# The range of a tree

In the lexicographic order the paths below `r` are an interval: they start with `r` and the
separator, and end before `r` and the next letter.
-/

namespace ShellBox

variable {α : Type*} [LT α] {sep next : α} {r p : List α}

/-- Nothing lies between the separator and the next letter. -/
structure NextLetter (sep next : α) : Prop where
  irrefl : ¬ sep < sep
  lt : sep < next
  between : ∀ c, ¬ c < sep → c < next → c = sep

/-- The interval is what goes on with the separator. -/
lemma prefixRange_iff (irrefl : ∀ c : α, ¬ c < c) (h : NextLetter sep next) :
    ¬ p < r ++ [sep] ∧ p < r ++ [next] ↔ ∃ t, p = r ++ sep :: t := by
  induction r generalizing p with
  | nil =>
    cases p with
    | nil => simp
    | cons c p =>
      simp only [List.nil_append, List.cons_lt_cons_iff, List.not_lt_nil, and_false, or_false,
        List.cons.injEq, exists_and_left, exists_eq', and_true]
      constructor
      · rintro ⟨hc, hc'⟩
        exact h.between c hc hc'
      · rintro rfl
        exact ⟨h.irrefl, h.lt⟩
  | cons a r ih =>
    cases p with
    | nil => simp
    | cons c p =>
      simp only [List.cons_append, List.cons_lt_cons_iff, List.cons.injEq, exists_and_left, ← ih]
      constructor
      · rintro ⟨hp, hp' | ⟨rfl, hp'⟩⟩
        · exact absurd (Or.inl hp') hp
        · exact ⟨rfl, fun hlt => hp (Or.inr ⟨rfl, hlt⟩), hp'⟩
      · rintro ⟨rfl, hp, hp'⟩
        refine ⟨?_, Or.inr ⟨rfl, hp'⟩⟩
        rintro (hlt | ⟨-, hlt⟩)
        · exact irrefl c hlt
        · exact hp hlt

/-- With the path itself it is the whole tree. -/
lemma prefixRange_or_self [DecidableEq α] (irrefl : ∀ c : α, ¬ c < c) (h : NextLetter sep next) :
    (¬ p < r ++ [sep] ∧ p < r ++ [next]) ∨ p = r ↔ (tailOf sep r p).isSome := by
  rw [Option.isSome_iff_exists, prefixRange_iff irrefl h]
  constructor
  · rintro (⟨t, rfl⟩ | rfl)
    · exact ⟨_, tailOf_append ((isTail_cons _ _).mpr rfl)⟩
    · exact ⟨_, tailOf_self⟩
  · rintro ⟨t, ht⟩
    obtain ⟨rfl, hnil | hhead⟩ := tailOf_eq_some.1 ht
    · exact Or.inr (by rw [hnil, List.append_nil])
    · cases t with
      | nil => cases hhead
      | cons c t =>
        obtain rfl : c = sep := by simpa using hhead
        exact Or.inl ⟨t, rfl⟩

end ShellBox
