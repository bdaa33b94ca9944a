import Mathlib

/-!
# Counted loops and runs

A `for` loop whose counter may skip ahead is a function of a state and a fuel that bounds
the number of rounds. The rules below are the two that loops are reasoned with: a property
of the state kept by the body, and a property of state and counter that is carried to the
exit of the loop.

Runs of a deterministic machine over a list of operations come with the rule that an
invariant kept by every admissible operation holds after every admissible run.
-/

namespace ShellBox

variable {σ α : Type*}

/-- `for (i = start; i < stop; i = next i) body`, for at most `fuel` rounds. -/
def forLoop (next : σ → ℕ → ℕ) (body : ℕ → σ → σ) (stop : ℕ) : ℕ → ℕ → σ → σ
  | 0, _, s => s
  | fuel + 1, i, s =>
    if i < stop then forLoop next body stop fuel (next (body i s) i) (body i s) else s

/-- A property kept by the body is kept by the loop. -/
lemma forLoop_invariant {next : σ → ℕ → ℕ} {body : ℕ → σ → σ} {stop : ℕ} {P : σ → Prop}
    (step : ∀ i s, i < stop → P s → P (body i s)) (fuel i : ℕ) {s : σ} (h : P s) :
    P (forLoop next body stop fuel i s) := by
  induction fuel generalizing i s with
  | zero => exact h
  | succ fuel ih =>
    simp only [forLoop]
    split_ifs with hi
    · exact ih _ (step i s hi h)
    · exact h

/-- A property of the counter and the state holds at the exit, once the fuel is enough. -/
lemma forLoop_exit (next : σ → ℕ → ℕ) (body : ℕ → σ → σ) (stop : ℕ) {P : ℕ → σ → Prop}
    (hnext : ∀ s i, i < next s i)
    (step : ∀ i s, i < stop → P i s → P (next (body i s) i) (body i s))
    (fuel i : ℕ) {s : σ} (hfuel : stop ≤ i + fuel) (h : P i s) :
    ∃ j, stop ≤ j ∧ P j (forLoop next body stop fuel i s) := by
  induction fuel generalizing i s with
  | zero => exact ⟨i, by omega, h⟩
  | succ fuel ih =>
    simp only [forLoop]
    split_ifs with hi
    · have hlt := hnext (body i s) i
      exact ih _ (by omega) (step i s hi h)
    · exact ⟨i, by omega, h⟩

/-- The state after a list of operations. -/
def run (step : σ → α → σ) (s : σ) (ops : List α) : σ := ops.foldl step s

@[simp] lemma run_nil (step : σ → α → σ) (s : σ) : run step s [] = s := rfl

@[simp] lemma run_cons (step : σ → α → σ) (s : σ) (op : α) (ops : List α) :
    run step s (op :: ops) = run step (step s op) ops := rfl

lemma run_append (step : σ → α → σ) (s : σ) (ops ops' : List α) :
    run step s (ops ++ ops') = run step (run step s ops) ops' := by
  simp [run, List.foldl_append]

/-- Every operation of the run meets a condition on the state it is applied to. -/
def RunAll (step : σ → α → σ) (cond : σ → α → Prop) : σ → List α → Prop
  | _, [] => True
  | s, op :: ops => cond s op ∧ RunAll step cond (step s op) ops

lemma runAll_append {step : σ → α → σ} {cond : σ → α → Prop} {s : σ} {ops ops' : List α} :
    RunAll step cond s (ops ++ ops') ↔
      RunAll step cond s ops ∧ RunAll step cond (run step s ops) ops' := by
  induction ops generalizing s with
  | nil => simp [RunAll]
  | cons op ops ih => simp [RunAll, ih, and_assoc]

lemma runAll_of_mem {step : σ → α → σ} {cond : α → Prop} {ops : List α} (h : ∀ op ∈ ops, cond op)
    (s : σ) : RunAll step (fun _ op => cond op) s ops := by
  induction ops generalizing s with
  | nil => trivial
  | cons op ops ih =>
    exact ⟨h op List.mem_cons_self, ih (fun op' ho => h op' (List.mem_cons_of_mem op ho)) _⟩

lemma runAll_of_forall {step : σ → α → σ} {cond : σ → α → Prop} (h : ∀ s op, cond s op) (s : σ)
    (ops : List α) : RunAll step cond s ops := by
  induction ops generalizing s with
  | nil => trivial
  | cons op ops ih => exact ⟨h s op, ih _⟩

/-- An invariant kept by the admissible operations holds after every admissible run. -/
lemma run_invariant {step : σ → α → σ} {cond : σ → α → Prop} {P : σ → Prop}
    (hstep : ∀ s op, cond s op → P s → P (step s op)) {s : σ} {ops : List α}
    (hops : RunAll step cond s ops) (h : P s) : P (run step s ops) := by
  induction ops generalizing s with
  | nil => exact h
  | cons op ops ih => exact ih hops.2 (hstep s op hops.1 h)

/-- An invariant of the operations that have been applied. -/
lemma run_prefix_invariant {step : σ → α → σ} {P : List α → σ → Prop} {s : σ} {ops : List α}
    (hstep : ∀ done op s, done ++ [op] <+: ops → P done s → P (done ++ [op]) (step s op))
    (h : P [] s) : P ops (run step s ops) := by
  suffices hpre : ∀ done rest s, done ++ rest = ops → P done s → P ops (run step s rest) from
    hpre [] ops s rfl h
  intro done rest
  induction rest generalizing done with
  | nil =>
    intro s hops hs
    rw [List.append_nil] at hops
    exact hops ▸ hs
  | cons op rest ih =>
    intro s hops hs
    have hops' : done ++ [op] ++ rest = ops := by simpa using hops
    exact ih (done ++ [op]) (step s op) hops' (hstep done op s ⟨rest, hops'⟩ hs)

/-! ### Operations that may have no result -/

variable {ρ : Type*}

/-- Every operation meets a condition on the state it is applied to, as far as there are results. -/
def AllSteps (step : σ → α → Option (σ × ρ)) (cond : σ → α → Prop) : σ → List α → Prop
  | _, [] => True
  | s, op :: ops => cond s op ∧ ∀ r ∈ step s op, AllSteps step cond r.1 ops

instance decidableAllSteps (step : σ → α → Option (σ × ρ)) (cond : σ → α → Prop)
    [∀ s op, Decidable (cond s op)] : ∀ (ops : List α) (s : σ), Decidable (AllSteps step cond s ops)
  | [], _ => inferInstanceAs (Decidable True)
  | op :: ops, s =>
    have := decidableAllSteps step cond ops
    inferInstanceAs (Decidable (cond s op ∧ ∀ r ∈ step s op, AllSteps step cond r.1 ops))

/-- What follows from a condition and an invariant holds of every operation of a run that meets
the condition. -/
lemma allSteps_of_invariant {step : σ → α → Option (σ × ρ)} {cond cond' : σ → α → Prop}
    {P : σ → Prop} (hstep : ∀ s op, P s → cond s op → cond' s op ∧ ∀ r ∈ step s op, P r.1) {s : σ}
    {ops : List α} (hs : P s) (hops : AllSteps step cond s ops) : AllSteps step cond' s ops := by
  induction ops generalizing s with
  | nil => trivial
  | cons op ops ih =>
    obtain ⟨hop, hnext⟩ := hstep s op hs hops.1
    exact ⟨hop, fun r hr => ih (hnext r hr) (hops.2 r hr)⟩

/-- Two conditions that agree on admissible operations, where an invariant holds, agree on
admissible runs. -/
lemma allSteps_iff {step : σ → α → Option (σ × ρ)} {given cond cond' : σ → α → Prop} {P : σ → Prop}
    (hiff : ∀ s op, P s → given s op → (cond s op ↔ cond' s op))
    (hstep : ∀ s op, P s → given s op → cond s op → ∀ r ∈ step s op, P r.1) {s : σ} {ops : List α}
    (hs : P s) (hgiven : AllSteps step given s ops) :
    AllSteps step cond s ops ↔ AllSteps step cond' s ops := by
  induction ops generalizing s with
  | nil => exact Iff.rfl
  | cons op ops ih =>
    have hop := hiff s op hs hgiven.1
    constructor
    · rintro ⟨h, hrest⟩
      exact ⟨hop.mp h, fun r hr =>
        (ih (hstep s op hs hgiven.1 h r hr) (hgiven.2 r hr)).mp (hrest r hr)⟩
    · rintro ⟨h, hrest⟩
      have h' := hop.mpr h
      exact ⟨h', fun r hr =>
        (ih (hstep s op hs hgiven.1 h' r hr) (hgiven.2 r hr)).mpr (hrest r hr)⟩

end ShellBox
