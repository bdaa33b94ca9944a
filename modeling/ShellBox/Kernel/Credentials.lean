import ShellBox.Logic.Loop

/-!
# User and group ids

A task has a real, an effective and a saved id for the user and for the group, and it is the
superuser while its effective user id is zero. The calls that set user ids and those that set
group ids are the same functions on different triples; a new task starts with the ids of its
parent.
-/

namespace ShellBox

open Function

/-- `uid` or `gid` of a task, with the effective and the saved one. -/
structure Ids where
  real : BitVec 32
  effective : BitVec 32
  saved : BitVec 32
  deriving DecidableEq

structure Credentials where
  user : Ids
  group : Ids
  groups : List (BitVec 32)
  deriving DecidableEq

def Credentials.superuser (c : Credentials) : Bool := c.user.effective = 0

def keepId : BitVec 32 := -1

def maxGroups : ℕ := 32

namespace Ids

def Has (ids : Ids) (id : BitVec 32) : Prop := id = ids.real ∨ id = ids.effective ∨ id = ids.saved

instance (ids : Ids) (id : BitVec 32) : Decidable (ids.Has id) :=
  inferInstanceAs (Decidable (_ ∨ _))

/-- `setuid` and `setgid`; `none` is `EPERM`. -/
def set (ids : Ids) (super : Bool) (id : BitVec 32) : Option Ids :=
  if super then some ⟨id, id, id⟩
  else if id ≠ ids.real ∧ id ≠ ids.saved then none
  else some { ids with effective := id }

def Allowed (ids : Ids) (id : BitVec 32) : Prop := id = keepId ∨ ids.Has id

instance (ids : Ids) (id : BitVec 32) : Decidable (ids.Allowed id) :=
  inferInstanceAs (Decidable (_ ∨ _))

def orKeep (old id : BitVec 32) : BitVec 32 := if id = keepId then old else id

/-- `setresuid` and `setresgid` -/
def setRes (ids : Ids) (super : Bool) (r e s : BitVec 32) : Option Ids :=
  if super = false ∧ ¬ (ids.Allowed r ∧ ids.Allowed e ∧ ids.Allowed s) then none
  else some ⟨orKeep ids.real r, orKeep ids.effective e, orKeep ids.saved s⟩

end Ids

inductive IdCall
  | setuid (uid : BitVec 32)
  | setreuid (ruid euid : BitVec 32)
  | setresuid (ruid euid suid : BitVec 32)
  | setgid (gid : BitVec 32)
  | setregid (rgid egid : BitVec 32)
  | setresgid (rgid egid sgid : BitVec 32)
  /-- What is read at the address of the list. -/
  | setgroups (size : ℕ) (list : Option (List (BitVec 32)))

/-- `EPERM`, and nothing is set. -/
def Credentials.setUser (c : Credentials) : Option Ids → ℤ × Credentials
  | some ids => (0, { c with user := ids })
  | none => (-1, c)

def Credentials.setGroup (c : Credentials) : Option Ids → ℤ × Credentials
  | some ids => (0, { c with group := ids })
  | none => (-1, c)

def sysSetuid (c : Credentials) (uid : BitVec 32) : ℤ × Credentials :=
  c.setUser (c.user.set c.superuser uid)

def sysSetresuid (c : Credentials) (ruid euid suid : BitVec 32) : ℤ × Credentials :=
  c.setUser (c.user.setRes c.superuser ruid euid suid)

def sysSetreuid (c : Credentials) (ruid euid : BitVec 32) : ℤ × Credentials :=
  sysSetresuid c ruid euid keepId

def sysSetgid (c : Credentials) (gid : BitVec 32) : ℤ × Credentials :=
  c.setGroup (c.group.set c.superuser gid)

def sysSetresgid (c : Credentials) (rgid egid sgid : BitVec 32) : ℤ × Credentials :=
  c.setGroup (c.group.setRes c.superuser rgid egid sgid)

def sysSetregid (c : Credentials) (rgid egid : BitVec 32) : ℤ × Credentials :=
  sysSetresgid c rgid egid keepId

def sysSetgroups (c : Credentials) (size : ℕ) (list : Option (List (BitVec 32))) :
    ℤ × Credentials :=
  if maxGroups < size then (-22, c)
  else if c.superuser = false then (-1, c)
  else
    match list with
    | none => (-14, c)
    | some groups => (0, { c with groups := groups })

def idCall (c : Credentials) : IdCall → ℤ × Credentials
  | .setuid uid => sysSetuid c uid
  | .setreuid ruid euid => sysSetreuid c ruid euid
  | .setresuid ruid euid suid => sysSetresuid c ruid euid suid
  | .setgid gid => sysSetgid c gid
  | .setregid rgid egid => sysSetregid c rgid egid
  | .setresgid rgid egid sgid => sysSetresgid c rgid egid sgid
  | .setgroups size list => sysSetgroups c size list

def afterCalls (c : Credentials) (calls : List IdCall) : Credentials :=
  run (fun c call => (idCall c call).2) c calls

/-! ### Tasks -/

/-- A task, with the calls it has made and, before it was made itself, its ancestors. -/
structure CredTask where
  cred : Credentials
  calls : List IdCall

inductive CredEvent
  | call (task : ℕ) (call : IdCall)
  | fork (parent child : ℕ)
  | exit (task : ℕ)

def credStep (s : ℕ → Option CredTask) : CredEvent → ℕ → Option CredTask
  | .call task call =>
    match s task with
    | some t => update s task (some ⟨(idCall t.cred call).2, t.calls ++ [call]⟩)
    | none => s
  | .fork parent child =>
    match s parent, s child with
    | some t, none => update s child (some t)
    | _, _ => s
  | .exit task => update s task none

def credStart (task : ℕ) (c : Credentials) : ℕ → Option CredTask :=
  update (fun _ => none) task (some ⟨c, []⟩)

/-! ### What a call can do -/

lemma afterCalls_append (c : Credentials) (calls more : List IdCall) :
    afterCalls c (calls ++ more) = afterCalls (afterCalls c calls) more :=
  run_append _ c calls more

lemma afterCalls_cons (c : Credentials) (call : IdCall) (calls : List IdCall) :
    afterCalls c (call :: calls) = afterCalls (idCall c call).2 calls := rfl

namespace Ids

variable {ids ids' : Ids} {id r e s : BitVec 32}

lemma has_of_set (h : ids.set false id = some ids') {x : BitVec 32} (hx : ids'.Has x) :
    ids.Has x := by
  unfold set at h
  rw [if_neg Bool.false_ne_true] at h
  split_ifs at h with hid
  obtain rfl := Option.some.inj h
  rcases hx with hx | hx | hx
  · exact Or.inl hx
  · obtain rfl : x = id := hx
    by_cases hreal : x = ids.real
    · exact Or.inl hreal
    · exact Or.inr (Or.inr (by_contra fun hs => hid ⟨hreal, hs⟩))
  · exact Or.inr (Or.inr hx)

lemma has_orKeep {old : BitVec 32} (hold : ids.Has old) (hid : ids.Allowed id) :
    ids.Has (orKeep old id) := by
  unfold orKeep
  split_ifs with hkeep
  · exact hold
  · exact hid.resolve_left hkeep

lemma has_of_setRes (h : ids.setRes false r e s = some ids') {x : BitVec 32} (hx : ids'.Has x) :
    ids.Has x := by
  unfold setRes at h
  split_ifs at h with hallowed
  obtain rfl := Option.some.inj h
  simp only [true_and, not_not] at hallowed
  obtain ⟨hr, he, hs⟩ := hallowed
  rcases hx with rfl | rfl | rfl
  · exact has_orKeep (Or.inl rfl) hr
  · exact has_orKeep (Or.inr (Or.inl rfl)) he
  · exact has_orKeep (Or.inr (Or.inr rfl)) hs

end Ids

namespace Credentials

/-- All ids of `c'` are ids of `c`. -/
structure HeldFrom (c c' : Credentials) : Prop where
  user : ∀ id, c'.user.Has id → c.user.Has id
  group : ∀ id, c'.group.Has id → c.group.Has id
  groups : c'.groups = c.groups

lemma HeldFrom.refl (c : Credentials) : HeldFrom c c := ⟨fun _ h => h, fun _ h => h, rfl⟩

lemma HeldFrom.trans {c c' c'' : Credentials} (h : HeldFrom c c') (h' : HeldFrom c' c'') :
    HeldFrom c c'' where
  user id hid := h.user id (h'.user id hid)
  group id hid := h.group id (h'.group id hid)
  groups := h'.groups.trans h.groups

lemma heldFrom_setUser (c : Credentials) {o : Option Ids}
    (ho : ∀ ids, o = some ids → ∀ id, ids.Has id → c.user.Has id) :
    HeldFrom c (c.setUser o).2 := by
  cases o with
  | none => exact HeldFrom.refl c
  | some ids => exact ⟨ho ids rfl, fun _ h => h, rfl⟩

lemma heldFrom_setGroup (c : Credentials) {o : Option Ids}
    (ho : ∀ ids, o = some ids → ∀ id, ids.Has id → c.group.Has id) :
    HeldFrom c (c.setGroup o).2 := by
  cases o with
  | none => exact HeldFrom.refl c
  | some ids => exact ⟨fun _ h => h, ho ids rfl, rfl⟩

end Credentials

open Credentials

lemma heldFrom_idCall {c : Credentials} (hc : c.superuser = false) (call : IdCall) :
    c.HeldFrom (idCall c call).2 := by
  cases call with
  | setuid uid =>
    apply heldFrom_setUser
    intro ids h id hid
    rw [hc] at h
    exact Ids.has_of_set h hid
  | setreuid ruid euid =>
    apply heldFrom_setUser
    intro ids h id hid
    rw [hc] at h
    exact Ids.has_of_setRes h hid
  | setresuid ruid euid suid =>
    apply heldFrom_setUser
    intro ids h id hid
    rw [hc] at h
    exact Ids.has_of_setRes h hid
  | setgid gid =>
    apply heldFrom_setGroup
    intro ids h id hid
    rw [hc] at h
    exact Ids.has_of_set h hid
  | setregid rgid egid =>
    apply heldFrom_setGroup
    intro ids h id hid
    rw [hc] at h
    exact Ids.has_of_setRes h hid
  | setresgid rgid egid sgid =>
    apply heldFrom_setGroup
    intro ids h id hid
    rw [hc] at h
    exact Ids.has_of_setRes h hid
  | setgroups size list =>
    simp only [idCall, sysSetgroups, hc]
    split_ifs <;> exact HeldFrom.refl c

lemma idCall_fails {c : Credentials} {call : IdCall} (h : (idCall c call).1 ≠ 0) :
    (idCall c call).2 = c := by
  have huser : ∀ o, (c.setUser o).1 ≠ 0 → (c.setUser o).2 = c := by
    intro o ho
    cases o with
    | none => rfl
    | some ids => exact absurd rfl ho
  have hgroup : ∀ o, (c.setGroup o).1 ≠ 0 → (c.setGroup o).2 = c := by
    intro o ho
    cases o with
    | none => rfl
    | some ids => exact absurd rfl ho
  cases call with
  | setuid uid => exact huser _ h
  | setreuid ruid euid => exact huser _ h
  | setresuid ruid euid suid => exact huser _ h
  | setgid gid => exact hgroup _ h
  | setregid rgid egid => exact hgroup _ h
  | setresgid rgid egid sgid => exact hgroup _ h
  | setgroups size list =>
    simp only [idCall, sysSetgroups] at h ⊢
    split_ifs at h ⊢ with hsize hsuper
    · rfl
    · rfl
    · cases list with
      | none => rfl
      | some groups => exact absurd rfl h

lemma heldFrom_afterCalls {c : Credentials} {calls : List IdCall}
    (h : ∀ m, m <+: calls → m ≠ calls → (afterCalls c m).superuser = false) :
    c.HeldFrom (afterCalls c calls) := by
  induction calls using List.reverseRecOn with
  | nil => exact HeldFrom.refl c
  | append_singleton calls call ih =>
    have hlast := h calls (List.prefix_append _ _) (by simp)
    rw [afterCalls_append]
    refine HeldFrom.trans (ih fun m hm hne => ?_) (heldFrom_idCall hlast call)
    refine h m (hm.trans (List.prefix_append _ _)) ?_
    rintro rfl
    have hle := hm.length_le
    simp at hle

/-! ### Dropping the rights -/

def IdCall.DropsUser : IdCall → Prop
  | .setuid uid => uid ≠ 0
  | .setreuid ruid euid => ruid ≠ keepId ∧ euid ≠ keepId ∧ ruid ≠ 0 ∧ euid ≠ 0
  | .setresuid ruid euid suid =>
    (ruid ≠ keepId ∧ euid ≠ keepId ∧ suid ≠ keepId) ∧ ruid ≠ 0 ∧ euid ≠ 0 ∧ suid ≠ 0
  | _ => False

/-- The saved id is not left at zero: `setreuid` does not set it. -/
def IdCall.SavedGone (c : Credentials) : IdCall → Prop
  | .setreuid _ _ => c.user.saved ≠ 0
  | _ => True

lemma not_superuser_afterCalls {c : Credentials} (hc : ¬ c.user.Has 0) (calls : List IdCall) :
    (afterCalls c calls).superuser = false ∧ ¬ (afterCalls c calls).user.Has 0 := by
  have hsuper : ∀ c' : Credentials, ¬ c'.user.Has 0 → c'.superuser = false := by
    intro c' hc'
    simp only [superuser, decide_eq_false_iff_not]
    exact fun h => hc' (Or.inr (Or.inl h.symm))
  induction calls using List.reverseRecOn with
  | nil => exact ⟨hsuper c hc, hc⟩
  | append_singleton calls call ih =>
    rw [afterCalls_append]
    have hheld := heldFrom_idCall ih.1 call
    have hnone : ¬ (idCall (afterCalls c calls) call).2.user.Has 0 :=
      fun h => ih.2 (hheld.user 0 h)
    exact ⟨hsuper _ hnone, hnone⟩

lemma has_zero_iff {ids : Ids} :
    ids.Has 0 ↔ ids.real = 0 ∨ ids.effective = 0 ∨ ids.saved = 0 := by
  unfold Ids.Has
  simp only [eq_comm]

lemma drops_iff {c : Credentials} (hc : c.superuser = true) {call : IdCall} (hd : call.DropsUser) :
    ¬ (idCall c call).2.user.Has 0 ↔ call.SavedGone c := by
  cases call with
  | setuid uid =>
    have huser : (idCall c (.setuid uid)).2.user = ⟨uid, uid, uid⟩ := by
      simp [idCall, sysSetuid, Ids.set, hc, setUser]
    rw [huser, has_zero_iff]
    exact iff_of_true (fun h => hd (by simpa using h)) trivial
  | setreuid ruid euid =>
    obtain ⟨hr, he, hr0, he0⟩ := hd
    have huser : (idCall c (.setreuid ruid euid)).2.user = ⟨ruid, euid, c.user.saved⟩ := by
      simp [idCall, sysSetreuid, sysSetresuid, Ids.setRes, Ids.orKeep, hc, setUser, hr, he]
    rw [huser, has_zero_iff]
    exact not_congr ⟨fun h => (h.resolve_left hr0).resolve_left he0, fun h => Or.inr (Or.inr h)⟩
  | setresuid ruid euid suid =>
    obtain ⟨⟨hr, he, hs⟩, hr0, he0, hs0⟩ := hd
    have huser : (idCall c (.setresuid ruid euid suid)).2.user = ⟨ruid, euid, suid⟩ := by
      simp [idCall, sysSetresuid, Ids.setRes, Ids.orKeep, hc, setUser, hr, he, hs]
    rw [huser, has_zero_iff]
    exact iff_of_true (fun h => hs0 ((h.resolve_left hr0).resolve_left he0)) trivial
  | setgid gid => exact absurd hd id
  | setregid rgid egid => exact absurd hd id
  | setresgid rgid egid sgid => exact absurd hd id
  | setgroups size list => exact absurd hd id

lemma superuser_setuid {c : Credentials} (hsaved : c.user.saved = 0) :
    (idCall c (.setuid 0)).2.superuser = true := by
  simp only [idCall, sysSetuid, Ids.set, hsaved]
  split_ifs with hc hid
  · rfl
  · exact absurd rfl hid.2
  · rfl

lemma dropped_iff {c : Credentials} (hc : c.superuser = true) {call : IdCall}
    (hd : call.DropsUser) :
    (∀ post, (afterCalls c (call :: post)).superuser = false) ↔ call.SavedGone c := by
  constructor
  · intro hpost
    cases call with
    | setreuid ruid euid =>
      intro hsaved
      have hregain := hpost [.setuid 0]
      have huser : (idCall c (.setreuid ruid euid)).2.user.saved = c.user.saved := by
        simp [idCall, sysSetreuid, sysSetresuid, Ids.setRes, Ids.orKeep, hc, setUser]
      have hsuper := superuser_setuid (huser.trans hsaved)
      simp only [afterCalls_cons] at hregain
      exact absurd (hregain.symm.trans hsuper) (by decide)
    | setuid uid => trivial
    | setresuid ruid euid suid => trivial
    | setgid gid => trivial
    | setregid rgid egid => trivial
    | setresgid rgid egid sgid => trivial
    | setgroups size list => trivial
  · intro hsaved post
    rw [afterCalls_cons]
    exact (not_superuser_afterCalls ((drops_iff hc hd).2 hsaved) post).1

/-! ### Runs -/

lemma cred_of_run {first : ℕ} {c : Credentials} {events : List CredEvent} {t : ℕ} {k : CredTask}
    (h : run credStep (credStart first c) events t = some k) : k.cred = afterCalls c k.calls := by
  have hinv : ∀ t k, run credStep (credStart first c) events t = some k →
      k.cred = afterCalls c k.calls := by
    have hall : RunAll credStep (fun _ _ => True) (credStart first c) events :=
      runAll_of_forall (fun _ _ => trivial) _ _
    refine run_invariant
      (P := fun s : ℕ → Option CredTask => ∀ t k, s t = some k → k.cred = afterCalls c k.calls)
      ?_ hall ?_
    · rintro s (⟨task, call⟩ | ⟨parent, child⟩ | task) - hs t k hk
      · simp only [credStep] at hk
        cases htask : s task with
        | none => exact hs t k (by simpa [htask] using hk)
        | some old =>
          simp only [htask] at hk
          by_cases ht : t = task
          · rw [ht, update_self] at hk
            obtain rfl := Option.some.inj hk
            rw [hs task old htask, afterCalls_append]
            rfl
          · rw [update_of_ne ht] at hk
            exact hs t k hk
      · simp only [credStep] at hk
        cases hparent : s parent with
        | none => exact hs t k (by simpa [hparent] using hk)
        | some old =>
          cases hchild : s child with
          | some _ => exact hs t k (by simpa [hparent, hchild] using hk)
          | none =>
            simp only [hparent, hchild] at hk
            by_cases ht : t = child
            · rw [ht, update_self] at hk
              exact hs parent k (hparent.trans hk)
            · rw [update_of_ne ht] at hk
              exact hs t k hk
      · simp only [credStep] at hk
        by_cases ht : t = task
        · simp [ht] at hk
        · rw [update_of_ne ht] at hk
          exact hs t k hk
    · intro t k hk
      unfold credStart at hk
      by_cases ht : t = first
      · rw [ht, update_self] at hk
        obtain rfl := Option.some.inj hk
        rfl
      · simp [update_of_ne ht] at hk
  exact hinv t k h

/-- The line of a task: each call that is made without the rights of the superuser keeps to the
ids from when they were lost, rights that are dropped stay dropped unless `setreuid` has left a
saved id of zero, and a call that fails sets nothing. -/
theorem dropped_privileges {first : ℕ} {c : Credentials} {events : List CredEvent} {t : ℕ}
    {k : CredTask} (h : run credStep (credStart first c) events t = some k) :
    k.cred = afterCalls c k.calls ∧
    (∀ pre mid, k.calls = pre ++ mid →
      (∀ m, m <+: mid → m ≠ mid → (afterCalls c (pre ++ m)).superuser = false) →
      (afterCalls c pre).HeldFrom k.cred) ∧
    (∀ pre call, pre ++ [call] <+: k.calls → (afterCalls c pre).superuser = true →
      call.DropsUser →
      ((∀ post, (afterCalls c (pre ++ call :: post)).superuser = false) ↔
        call.SavedGone (afterCalls c pre))) ∧
    (∀ pre call, pre ++ [call] <+: k.calls → (idCall (afterCalls c pre) call).1 ≠ 0 →
      afterCalls c (pre ++ [call]) = afterCalls c pre) := by
  have hcred := cred_of_run h
  refine ⟨hcred, ?_, ?_, ?_⟩
  · intro pre mid hcalls hmid
    rw [hcred, hcalls, afterCalls_append]
    apply heldFrom_afterCalls
    intro m hm hne
    rw [← afterCalls_append]
    exact hmid m hm hne
  · intro pre call _ hsuper hdrop
    simp only [afterCalls_append]
    exact dropped_iff hsuper hdrop
  · intro pre call _ hfail
    rw [afterCalls_append]
    exact idCall_fails hfail

/-- The superuser becomes a user with `setreuid`, has a child, and the child sets its id back. -/
def regainEvents : List CredEvent :=
  [.call 1 (.setreuid 1000 1000), .fork 1 2, .call 2 (.setuid 0)]

def rootCredentials : Credentials := ⟨⟨0, 0, 0⟩, ⟨0, 0, 0⟩, []⟩

theorem dropped_privileges_regain :
    let calls : List IdCall := [.setreuid 1000 1000, .setuid 0]
    (⟨⟨1000, 0, 0⟩, ⟨0, 0, 0⟩, []⟩ : Credentials) = afterCalls rootCredentials calls ∧
    (∀ pre mid, calls = pre ++ mid →
      (∀ m, m <+: mid → m ≠ mid → (afterCalls rootCredentials (pre ++ m)).superuser = false) →
      (afterCalls rootCredentials pre).HeldFrom ⟨⟨1000, 0, 0⟩, ⟨0, 0, 0⟩, []⟩) ∧
    (∀ pre call, pre ++ [call] <+: calls → (afterCalls rootCredentials pre).superuser = true →
      call.DropsUser →
      ((∀ post, (afterCalls rootCredentials (pre ++ call :: post)).superuser = false) ↔
        call.SavedGone (afterCalls rootCredentials pre))) ∧
    (∀ pre call, pre ++ [call] <+: calls → (idCall (afterCalls rootCredentials pre) call).1 ≠ 0 →
      afterCalls rootCredentials (pre ++ [call]) = afterCalls rootCredentials pre) :=
  dropped_privileges (show run credStep (credStart 1 rootCredentials) regainEvents 2 =
    some ⟨⟨⟨1000, 0, 0⟩, ⟨0, 0, 0⟩, []⟩, [.setreuid 1000 1000, .setuid 0]⟩ from rfl)

/-- The child is the superuser, after its parent has given the rights up. -/
theorem setreuid_regained :
    (IdCall.setreuid 1000 1000).DropsUser ∧ rootCredentials.superuser = true ∧
      ((run credStep (credStart 1 rootCredentials) regainEvents 2).map fun k =>
        k.cred.superuser) = some true := by
  refine ⟨?_, rfl, rfl⟩
  unfold IdCall.DropsUser
  decide

end ShellBox
