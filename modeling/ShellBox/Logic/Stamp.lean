import Mathlib

/-!
# Facts stamped with a generation

A state has a generation, a number that moves when something is changed. Whoever reads a fact
of the state and the generation together may use the fact for as long as the generation is
the same, provided that every step which leaves the generation alone keeps the fact.
-/

namespace ShellBox

variable {σ : Type*} {gen : σ → ℕ} {R : σ → σ → Prop} {P Q : σ → Prop} {g : ℕ} {s s' s'' : σ}

/-- The step moves the generation forward, or it leaves it and is within `R`. -/
structure Keeps (gen : σ → ℕ) (R : σ → σ → Prop) (s s' : σ) : Prop where
  le : gen s ≤ gen s'
  rel : gen s = gen s' → R s s'

namespace Keeps

lemma of_rel (hgen : gen s' = gen s) (h : R s s') : Keeps gen R s s' := ⟨hgen.ge, fun _ => h⟩

lemma of_lt (h : gen s < gen s') : Keeps gen R s s' := ⟨h.le, fun heq => absurd heq h.ne⟩

lemma trans (htrans : ∀ {a b c}, R a b → R b c → R a c) (h : Keeps gen R s s')
    (h' : Keeps gen R s' s'') : Keeps gen R s s'' := by
  constructor
  · exact h.le.trans h'.le
  · intro heq
    have hs : gen s = gen s' := le_antisymm h.le (heq ▸ h'.le)
    exact htrans (h.rel hs) (h'.rel (hs ▸ heq))

end Keeps

/-- The fact was read at generation `g`: it holds now if the generation is still `g`. -/
structure Stamped (gen : σ → ℕ) (g : ℕ) (P : σ → Prop) (s : σ) : Prop where
  le : g ≤ gen s
  fact : gen s = g → P s

namespace Stamped

/-- What holds now may be stamped with any earlier generation. -/
lemma of_fact (hg : g ≤ gen s) (h : P s) : Stamped gen g P s := ⟨hg, fun _ => h⟩

/-- Once the generation has moved, the stamp is void. -/
lemma of_lt (hg : g < gen s) : Stamped gen g P s := ⟨hg.le, fun heq => absurd heq hg.ne'⟩

lemma imp (h : Stamped gen g P s) (himp : P s → Q s) : Stamped gen g Q s :=
  ⟨h.le, fun heq => himp (h.fact heq)⟩

/-- A step keeps a stamped fact that `R` keeps. -/
lemma step (h : Stamped gen g P s) (hk : Keeps gen R s s') (hP : R s s' → P s → P s') :
    Stamped gen g P s' := by
  constructor
  · exact h.le.trans hk.le
  · intro heq
    have hs : gen s = g := le_antisymm (heq ▸ hk.le) h.le
    exact hP (hk.rel (hs.trans heq.symm)) (h.fact hs)

end Stamped

end ShellBox
