import Mathlib

/-!
# Ranges of integers

A range is given by its first and its last point. Two non-empty ranges that overlap or are
adjacent have a union that is again a range, their hull; taking a range away from another
leaves at most two pieces.
-/

namespace ShellBox

structure IntRange where
  start : ℤ
  stop : ℤ
  deriving DecidableEq, Repr

namespace IntRange

instance : Membership ℤ IntRange := ⟨fun i x => i.start ≤ x ∧ x ≤ i.stop⟩

variable {a b c : IntRange} {x : ℤ}

lemma mem_iff : x ∈ a ↔ a.start ≤ x ∧ x ≤ a.stop := Iff.rfl

instance (x : ℤ) (a : IntRange) : Decidable (x ∈ a) := inferInstanceAs (Decidable (_ ∧ _))

def Nonempty (a : IntRange) : Prop := a.start ≤ a.stop

/-- Every point of `a` is a point of `b`. -/
def Sub (a b : IntRange) : Prop := b.start ≤ a.start ∧ a.stop ≤ b.stop

def Overlap (a b : IntRange) : Prop := b.start ≤ a.stop ∧ a.start ≤ b.stop

def Adjacent (a b : IntRange) : Prop := a.stop = b.start - 1 ∨ b.stop = a.start - 1

/-- The union of `a` and `b` has no gap. -/
def Touch (a b : IntRange) : Prop := a.Overlap b ∨ a.Adjacent b

instance : Decidable (a.Overlap b) := inferInstanceAs (Decidable (_ ∧ _))
instance : Decidable (a.Adjacent b) := inferInstanceAs (Decidable (_ ∨ _))
instance : Decidable (a.Touch b) := inferInstanceAs (Decidable (_ ∨ _))

/-- `a`, extended until it covers `b`. -/
def hull (a b : IntRange) : IntRange :=
  { start := if b.start < a.start then b.start else a.start
    stop := if a.stop < b.stop then b.stop else a.stop }

/-- What is left of `a` when `b` is taken away, for `a` and `b` that overlap. -/
def minus (a b : IntRange) : List IntRange :=
  if a.start < b.start ∧ b.stop < a.stop then
    [{ a with stop := b.start - 1 }, { a with start := b.stop + 1 }]
  else if b.start ≤ a.start ∧ a.stop ≤ b.stop then []
  else if a.start < b.start then [{ a with stop := b.start - 1 }]
  else if b.stop < a.stop then [{ a with start := b.stop + 1 }]
  else [a]

lemma overlap_comm : a.Overlap b ↔ b.Overlap a := And.comm

lemma adjacent_comm : a.Adjacent b ↔ b.Adjacent a := Or.comm

lemma touch_comm : a.Touch b ↔ b.Touch a := or_congr overlap_comm adjacent_comm

lemma mem_overlap (ha : x ∈ a) (hb : x ∈ b) : a.Overlap b :=
  ⟨hb.1.trans ha.2, ha.1.trans hb.2⟩

/-- Non-empty ranges overlap when they have a point in common. -/
lemma overlap_iff (ha : a.Nonempty) (hb : b.Nonempty) : a.Overlap b ↔ ∃ x, x ∈ a ∧ x ∈ b := by
  constructor
  · rintro ⟨h1, h2⟩
    exact ⟨max a.start b.start, ⟨le_max_left _ _, max_le ha h1⟩, le_max_right _ _, max_le h2 hb⟩
  · rintro ⟨x, hxa, hxb⟩
    exact mem_overlap hxa hxb

lemma sub_hull (a b : IntRange) : a.Sub (a.hull b) := by
  unfold Sub hull
  grind

/-- Non-empty ranges touch when they have points at distance at most one. -/
lemma touch_iff (ha : a.Nonempty) (hb : b.Nonempty) :
    a.Touch b ↔ ∃ x y, x ∈ a ∧ y ∈ b ∧ x ≤ y + 1 ∧ y ≤ x + 1 := by
  constructor
  · rintro (h | h | h)
    · obtain ⟨x, hxa, hxb⟩ := (overlap_iff ha hb).1 h
      exact ⟨x, x, hxa, hxb, by omega, by omega⟩
    · exact ⟨a.stop, b.start, ⟨ha, le_rfl⟩, ⟨le_rfl, hb⟩, by omega, by omega⟩
    · exact ⟨a.start, b.stop, ⟨le_rfl, ha⟩, ⟨hb, le_rfl⟩, by omega, by omega⟩
  · rintro ⟨x, y, ⟨hx1, hx2⟩, ⟨hy1, hy2⟩, h1, h2⟩
    unfold Touch Overlap Adjacent
    omega

lemma Nonempty.hull (ha : a.Nonempty) (b : IntRange) : (a.hull b).Nonempty := by
  unfold Nonempty IntRange.hull at *
  grind

lemma mem_hull (ha : a.Nonempty) (hb : b.Nonempty) (h : a.Touch b) :
    x ∈ a.hull b ↔ x ∈ a ∨ x ∈ b := by
  unfold Touch Overlap Adjacent Nonempty IntRange.hull at *
  simp only [mem_iff]
  grind

lemma mem_minus (h : a.Overlap b) : (∃ c ∈ a.minus b, x ∈ c) ↔ x ∈ a ∧ x ∉ b := by
  unfold Overlap at h
  unfold minus
  split_ifs <;>
    simp only [mem_iff, List.mem_cons, List.not_mem_nil, or_false, exists_eq_or_imp,
      exists_eq_left, false_and, exists_false] <;>
    grind

/-- The pieces are non-empty parts of what they are taken from, and stay away from what was
taken. -/
lemma minus_spec (hb : b.Nonempty) (hab : a.Overlap b) (hc : c ∈ a.minus b) :
    c.Nonempty ∧ c.Sub a ∧ ¬ c.Overlap b := by
  unfold minus at hc
  unfold Nonempty Overlap Sub at *
  split_ifs at hc <;> simp only [List.mem_cons, List.not_mem_nil, or_false] at hc <;> grind

/-- There is a gap between the two pieces. -/
lemma minus_pairwise (hb : b.Nonempty) : (a.minus b).Pairwise fun c d => ¬ c.Touch d := by
  unfold minus
  unfold Nonempty at hb
  split_ifs <;> simp [Touch, Overlap, Adjacent]
  omega

lemma Overlap.mono {d : IntRange} (hac : a.Sub c) (hbd : b.Sub d) (h : a.Overlap b) :
    c.Overlap d :=
  ⟨hbd.1.trans (h.1.trans hac.2), hac.1.trans (h.2.trans hbd.2)⟩

lemma Touch.mono {d : IntRange} (ha : a.Nonempty) (hb : b.Nonempty) (hac : a.Sub c)
    (hbd : b.Sub d) (h : a.Touch b) : c.Touch d := by
  unfold Touch Overlap Adjacent Sub Nonempty at *
  omega

lemma Sub.refl (a : IntRange) : a.Sub a := ⟨le_rfl, le_rfl⟩

lemma Sub.mem (h : a.Sub b) (hx : x ∈ a) : x ∈ b := ⟨h.1.trans hx.1, hx.2.trans h.2⟩

end IntRange

end ShellBox
