import ShellBox.Logic.Loop

/-!
# Resource limits

The threads of a process share its limits. A call that sets one checks it and then stores it, with
the lock of the group dropped in between, so that another thread may set the limit meanwhile.
-/

namespace ShellBox

open Function

/-- `struct rlimit_`. -/
structure Rlimit where
  cur : ℕ
  max : ℕ

abbrev Rlimits := ℕ → Rlimit

def rlimNlimits : ℕ := 16

def resourceValid (resource : ℤ) : Bool := 0 ≤ resource ∧ resource < rlimNlimits

def rlimitGet (limits : Rlimits) (resource : ℤ) : Except ℤ Rlimit :=
  if resourceValid resource then .ok (limits resource.toNat) else .error (-22)

def rlimitSet (limits : Rlimits) (resource : ℤ) (limit : Rlimit) : Rlimits × ℤ :=
  if resourceValid resource then (update limits resource.toNat limit, 0) else (limits, -22)

def checkSetrlimit (superuser : Bool) (limits : Rlimits) (resource : ℤ) (new : Rlimit) :
    Except ℤ Unit :=
  if new.cur > new.max then .error (-22)
  else if superuser then .ok ()
  else do
    let old ← rlimitGet limits resource
    if new.max > old.max then .error (-1) else .ok ()

/-- `sys_setrlimit32` and `sys_setrlimit64`, and `sys_prlimit64` with the limit to set and, if the
old one is asked for, whether it can be copied out. -/
inductive RlimitCall where
  | setrlimit (resource : ℤ) (new : Rlimit)
  | prlimit (pid resource : ℤ) (old : Option Bool) (new : Option Rlimit)

/-- The part of `sys_prlimit64` for the old limit. -/
def putOldLimit (limits : Rlimits) (resource : ℤ) : Option Bool → Except ℤ Unit
  | none       => .ok ()
  | some putOk =>
    match rlimitGet limits resource with
    | .error e => .error e
    | .ok _    => if putOk then .ok () else .error (-14)

/-- A call up to where it stores a limit, if it does. -/
def RlimitCall.check (superuser : Bool) (limits : Rlimits) :
    RlimitCall → Except ℤ (Option (ℤ × Rlimit))
  | .setrlimit resource new =>
    (checkSetrlimit superuser limits resource new).map fun _ => some (resource, new)
  | .prlimit pid resource old new =>
    if pid ≠ 0 then .error (-22)
    else
      match putOldLimit limits resource old, new with
      | .error e, _      => .error e
      | .ok _, none     => .ok none
      | .ok _, some new =>
        (checkSetrlimit superuser limits resource new).map fun _ => some (resource, new)

/-- A process, with what its threads have checked and not stored yet. -/
structure RlimitGroup where
  limits : Rlimits
  pending : ℕ → Option (ℤ × Rlimit)

inductive RlimitAct where
  | call (thread : ℕ) (superuser : Bool) (c : RlimitCall)
  | store (thread : ℕ)

def RlimitGroup.step (g : RlimitGroup) : RlimitAct → RlimitGroup
  | .call t superuser c =>
    if (g.pending t).isSome then g
    else
      match c.check superuser g.limits with
      | .error _ => g
      | .ok p    => { g with pending := update g.pending t p }
  | .store t =>
    match g.pending t with
    | none                 => g
    | some (resource, new) =>
      { limits := (rlimitSet g.limits resource new).1, pending := update g.pending t none }

/-- The limits, and those that are going to be stored. -/
def RlimitGroup.All (g : RlimitGroup) (P : ℕ → Rlimit → Prop) : Prop :=
  (∀ r, P r (g.limits r)) ∧ ∀ t resource new, g.pending t = some (resource, new) →
    resourceValid resource → P resource.toNat new

lemma checkSetrlimit_ok {superuser : Bool} {limits : Rlimits} {resource : ℤ} {new : Rlimit}
    (h : checkSetrlimit superuser limits resource new = .ok ()) : new.cur ≤ new.max ∧
      (superuser = false → resourceValid resource → new.max ≤ (limits resource.toNat).max) := by
  unfold checkSetrlimit at h
  split_ifs at h with hcur hsuper
  · exact ⟨not_lt.1 hcur, fun hno => absurd hsuper (by simp [hno])⟩
  · refine ⟨not_lt.1 hcur, fun _ hvalid => ?_⟩
    rw [rlimitGet, if_pos hvalid] at h
    by_contra hmax
    simp [bind, Except.bind, not_le.1 hmax] at h

lemma RlimitCall.check_ok {superuser : Bool} {limits : Rlimits} {c : RlimitCall} {resource : ℤ}
    {new : Rlimit} (h : c.check superuser limits = .ok (some (resource, new))) :
    checkSetrlimit superuser limits resource new = .ok () := by
  have hset : ∀ {r n}, (checkSetrlimit superuser limits r n).map (fun _ => some (r, n)) =
      .ok (some (resource, new)) → checkSetrlimit superuser limits resource new = .ok () := by
    intro r n h
    cases hc : checkSetrlimit superuser limits r n with
    | error e => simp [hc, Except.map] at h
    | ok u =>
      simp only [hc, Except.map, Except.ok.injEq, Option.some.injEq, Prod.mk.injEq] at h
      obtain ⟨rfl, rfl⟩ := h
      exact hc
  cases c with
  | setrlimit r n => exact hset h
  | prlimit pid r old n =>
    simp only [check] at h
    split_ifs at h
    cases hold : putOldLimit limits r old with
    | error e => simp [hold] at h
    | ok u =>
      cases n with
      | none => simp [hold] at h
      | some n =>
        simp only [hold] at h
        exact hset h

/-- What is true of the limits, and of a limit that passes its check, is true in every state. -/
lemma RlimitGroup.All.step {P : ℕ → Rlimit → Prop} {g : RlimitGroup} {a : RlimitAct} (h : g.All P)
    (hcheck : ∀ t superuser c resource new, a = .call t superuser c →
      checkSetrlimit superuser g.limits resource new = .ok () → resourceValid resource →
      P resource.toNat new) : (g.step a).All P := by
  cases a with
  | call t superuser c =>
    simp only [RlimitGroup.step]
    split_ifs
    · exact h
    cases hc : c.check superuser g.limits with
    | error e => exact h
    | ok p =>
      refine ⟨h.1, fun t' resource new hpend hvalid => ?_⟩
      by_cases ht : t' = t
      · simp only [ht, update_self] at hpend
        subst hpend
        exact hcheck t superuser c resource new rfl (RlimitCall.check_ok hc) hvalid
      · simp only [update_of_ne ht] at hpend
        exact h.2 t' resource new hpend hvalid
  | store t =>
    cases hp : g.pending t with
    | none =>
      simp only [RlimitGroup.step, hp]
      exact h
    | some x =>
      obtain ⟨resource, new⟩ := x
      simp only [RlimitGroup.step, hp]
      constructor
      · intro r
        unfold rlimitSet
        split_ifs with hvalid
        · by_cases hr : r = resource.toNat
          · simpa only [hr, update_self] using h.2 t resource new hp hvalid
          · simpa only [update_of_ne hr] using h.1 r
        · exact h.1 r
      · intro t' resource' new' hpend hvalid
        by_cases ht : t' = t
        · simp [ht] at hpend
        · simp only [update_of_ne ht] at hpend
          exact h.2 t' resource' new' hpend hvalid

/-- In every run of calls a soft limit is at most the hard one, and unless a superuser has made a
call no hard limit is above that of the start. -/
theorem rlimits_bounded (limits : Rlimits) (h : ∀ r, (limits r).cur ≤ (limits r).max)
    (acts : List RlimitAct) (r : ℕ) :
    ((run RlimitGroup.step ⟨limits, fun _ => none⟩ acts).limits r).cur ≤
      ((run RlimitGroup.step ⟨limits, fun _ => none⟩ acts).limits r).max ∧
    ((∀ t c, .call t true c ∉ acts) →
      ((run RlimitGroup.step ⟨limits, fun _ => none⟩ acts).limits r).max ≤ (limits r).max) := by
  constructor
  · refine (run_invariant (P := fun g : RlimitGroup => g.All fun _ l => l.cur ≤ l.max)
      (fun g a _ hg => ?_) (runAll_of_forall (fun _ _ => trivial) _ acts)
      ⟨h, fun t _ _ hp => by cases hp⟩).1 r
    exact hg.step fun _ _ _ _ _ _ hc _ => (checkSetrlimit_ok hc).1
  · intro hnone
    have hmem : ∀ a ∈ acts, ∀ t c, a ≠ RlimitAct.call t true c := by
      rintro a ha t c rfl
      exact hnone t c ha
    refine (run_invariant (P := fun g : RlimitGroup => g.All fun r l => l.max ≤ (limits r).max)
      (fun g a ha hg => ?_) (runAll_of_mem hmem _)
      ⟨fun _ => le_rfl, fun t _ _ hp => by cases hp⟩).1 r
    refine hg.step fun t superuser c resource new heq hc hvalid => ?_
    cases superuser with
    | true => exact absurd heq (ha t c)
    | false => exact ((checkSetrlimit_ok hc).2 rfl hvalid).trans (hg.1 resource.toNat)

/-- Two threads check limits at once; the one that lowers its limit stores it first. -/
theorem rlimits_bounded_overtaken :
    ((run RlimitGroup.step ⟨fun _ => ⟨10, 20⟩, fun _ => none⟩
      [.call 1 false (.setrlimit 7 ⟨20, 20⟩), .call 2 false (.prlimit 0 7 none (some ⟨5, 5⟩)),
        .store 2, .store 1]).limits 7).max ≤ 20 :=
  (rlimits_bounded (fun _ => ⟨10, 20⟩) (fun _ => by decide) _ 7).2 (by simp)

end ShellBox
