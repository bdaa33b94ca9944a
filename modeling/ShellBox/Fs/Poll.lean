import ShellBox.Logic.Loop

/-!
# Poll objects

A poll object has registrations of descriptions, each under the number that it was made with, and
the host has one registration of a real description for all of them. The host's is made anew from
the registrations that are armed whenever one of them changes. There are two kinds of hosts: on one
a call that fails leaves what there was, on the other it can leave nothing.

The readiness of a description is what its `poll` operation answers. A round of `poll_wait` looks at
the registrations in order and gives what is pending to the callback, as long as that has room.
-/

namespace ShellBox

open Function

/-- Event types: `POLL_READ` and the others. -/
abbrev PollTypes := BitVec 32

def pollRead : PollTypes := 1
def pollPri : PollTypes := 2
def pollWrite : PollTypes := 4
def pollErr : PollTypes := 8
def pollHup : PollTypes := 16
def pollOneshot : PollTypes := 0x40000000
def pollEdgetriggered : PollTypes := 0x80000000

/-- A `struct poll_fd`. The last three fields are of the history of the registration: the reports
since it was armed; the events that it has reported as edges and has not been notified of since; and
those that were refused and have not been reported since. -/
structure PollReg where
  fd : ℕ
  fdNo : ℕ
  types : PollTypes
  info : ℕ
  triggered : PollTypes
  fired : Bool
  count : ℕ
  told : PollTypes
  refused : PollTypes
  deriving DecidableEq

/-- What the callback of `poll_wait` is given. -/
structure PollReport where
  fd : ℕ
  fdNo : ℕ
  types : PollTypes
  info : ℕ
  deriving DecidableEq

namespace PollReg

variable (r : PollReg)

def oneshot : Bool := r.types.getLsbD 30
def edge : Bool := r.types.getLsbD 31

def sameKey (fd fdNo : ℕ) : Bool := r.fd = fd ∧ r.fdNo = fdNo

def asReport (types : PollTypes) : PollReport := ⟨r.fd, r.fdNo, types, r.info⟩

def report (types : PollTypes) : PollReg :=
  { r with
    fired := r.fired || r.oneshot
    triggered := if r.edge then r.triggered ||| types else r.triggered
    count := r.count + 1
    told := if r.edge then r.told ||| types else r.told
    refused := if r.oneshot then 0 else r.refused &&& ~~~types }

def refuse (types : PollTypes) : PollReg := { r with refused := r.refused ||| types }

/-- The change of `poll_mod_fd`. -/
def modify (types : PollTypes) (info : ℕ) : PollReg :=
  { r with
    types, info
    triggered := r.triggered &&& types
    fired := false
    count := 0
    told := r.told &&& types
    refused := 0 }

/-- A notification: an edge is taken back, if the registration is in a state to hear of it. -/
def notice (hears : Bool) (events : PollTypes) : PollReg :=
  { r with
    triggered := if hears ∧ r.edge then r.triggered &&& ~~~events else r.triggered
    told := r.told &&& ~~~events }

end PollReg

/-- What the host does with a call: it accepts it, leaves what there was, or leaves nothing. -/
inductive HostReply
  | accepted
  | failed (e : ℕ+)
  | cleared (e : ℕ+)

/-- Poll objects by number. `kqueue` says which kind the host is; `real` which descriptions have a
host descriptor; `host` what it has been told of them; and `ready` what their `poll` operation
answers. -/
structure PollWorld where
  kqueue : Bool
  real : ℕ → Bool
  regs : ℕ → List PollReg
  host : ℕ → ℕ → Option PollTypes
  ready : ℕ → PollTypes

namespace PollWorld

variable (w : PollWorld)

def setRegs (p : ℕ) (rs : List PollReg) : PollWorld := { w with regs := update w.regs p rs }

def setHost (p fd : ℕ) (m : Option PollTypes) : PollWorld :=
  { w with host := update w.host p (update (w.host p) fd m) }

/-- What the host is told for a set of types: nothing, if there is nothing to wait for. -/
def maskOf (types : PollTypes) : Option PollTypes :=
  if w.kqueue then
    if types &&& (pollRead ||| pollHup ||| pollWrite ||| pollErr) = 0 then none
    else some (types &&& (pollRead ||| pollHup ||| pollWrite ||| pollErr ||| pollEdgetriggered))
  else if types &&& ~~~pollOneshot = 0 then none
  else some (types &&& ~~~pollOneshot)

/-- `real_poll_update`, with the error. A call that takes out what is not there fails on one kind of
host; on the other a refused filter has all of them taken out. -/
def realPollUpdate (p fd : ℕ) (types : PollTypes) (reply : HostReply) : PollWorld × Option ℕ+ :=
  if w.kqueue then
    match reply with
    | .accepted => (w.setHost p fd (w.maskOf types), none)
    | .failed e => (w, some e)
    | .cleared e =>
      if types &&& (pollRead ||| pollHup ||| pollWrite) = 0 then
        (w.setHost p fd (w.maskOf types), none)
      else (w.setHost p fd none, some e)
  else if w.maskOf types = none ∧ w.host p fd = none then (w, some 2)
  else
    match reply with
    | .accepted => (w.setHost p fd (w.maskOf types), none)
    | .failed e | .cleared e => (w, some e)

def armedTypes (rs : List PollReg) (fd : ℕ) : PollTypes :=
  rs.foldr (fun r types => if r.fd = fd ∧ ¬ r.fired then r.types ||| types else types) 0

/-- `poll_real_refresh` -/
def refresh (p fd : ℕ) (reply : HostReply) : PollWorld × Option ℕ+ :=
  w.realPollUpdate p fd (armedTypes (w.regs p) fd) reply

/-- `poll_find_fd`. No two registrations of a poll object have the same key. -/
def findFd (p fd fdNo : ℕ) : Option PollReg := (w.regs p).find? fun r => r.sameKey fd fdNo

/-- The end of `poll_add_fd` and of `poll_mod_fd`: the host is told, and where it refuses, the
registrations are put back and it is told of them. -/
def tellHost (p fd : ℕ) (rs : List PollReg) (reply reply' : HostReply) : PollWorld × ℤ :=
  if w.real fd then
    match (w.setRegs p rs).refresh p fd reply with
    | (w₁, none) => (w₁, 0)
    | (w₁, some e) => (((w₁.setRegs p (w.regs p)).refresh p fd reply').1, -e)
  else (w.setRegs p rs, 0)

/-- `poll_add_fd` -/
def addFd (p fd fdNo : ℕ) (types : PollTypes) (info : ℕ) (alloc : Bool) (reply reply' : HostReply) :
    PollWorld × ℤ :=
  if (w.findFd p fd fdNo).isSome then (w, -17)
  else if ¬ alloc then (w, -12)
  else w.tellHost p fd (⟨fd, fdNo, types, info, 0, false, 0, 0, 0⟩ :: w.regs p) reply reply'

/-- `poll_mod_fd` -/
def modFd (p fd fdNo : ℕ) (types : PollTypes) (info : ℕ) (reply reply' : HostReply) :
    PollWorld × ℤ :=
  if (w.findFd p fd fdNo).isNone then (w, -2)
  else
    w.tellHost p fd
      ((w.regs p).map fun r => if r.sameKey fd fdNo then r.modify types info else r) reply reply'

/-- `poll_del_fd`. The answer does not say whether the host has been told. -/
def delFd (p fd fdNo : ℕ) (reply : HostReply) : PollWorld × ℤ :=
  if (w.findFd p fd fdNo).isNone then (w, -2)
  else
    let w₁ := w.setRegs p ((w.regs p).eraseP fun r => r.sameKey fd fdNo)
    (if w.real fd then (w₁.refresh p fd reply).1 else w₁, 0)

/-- `poll_cleanup_fd`, with the host's replies for the poll objects that have the description. -/
def cleanupFd (fd : ℕ) (reply : ℕ → HostReply) : PollWorld :=
  { w with
    regs := fun p => (w.regs p).filter fun r => r.fd ≠ fd
    host := fun p =>
      if w.real fd ∧ (w.regs p).any fun r => r.fd = fd then
        (w.realPollUpdate p fd 0 (reply p)).1.host p
      else w.host p }

def pending (r : PollReg) : PollTypes :=
  if r.fired then 0
  else
    let types := w.ready r.fd &&& (r.types ||| pollHup ||| pollErr)
    if r.edge then types &&& ~~~r.triggered else types

/-- `poll_wait` looks at the registration at a place. -/
def lookAt (p max : ℕ) (reply : ℕ → HostReply) (s : PollWorld × List PollReport) (i : ℕ) :
    PollWorld × List PollReport :=
  match (s.1.regs p)[i]? with
  | none => s
  | some r =>
    let types := s.1.pending r
    if types = 0 then s
    else if max ≤ s.2.length then (s.1.setRegs p ((s.1.regs p).set i (r.refuse types)), s.2)
    else
      let w₁ := s.1.setRegs p ((s.1.regs p).set i (r.report types))
      (if r.oneshot ∧ s.1.real r.fd then (w₁.refresh p r.fd (reply i)).1 else w₁,
        s.2 ++ [r.asReport types])

/-- A round of `poll_wait`, with room for `max` events. The wait ends with it if there are any. -/
def waitRound (p max : ℕ) (reply : ℕ → HostReply) : PollWorld × List PollReport :=
  (List.range (w.regs p).length).foldl (lookAt p max reply) (w, [])

/-- `poll_wakeup` -/
def wakeup (fd : ℕ) (events : PollTypes) : PollWorld :=
  { w with regs := fun p => (w.regs p).map fun r =>
      if r.fd = fd then r.notice (!r.fired) events else r }

/-- An event that `poll_wait` gets from the host. -/
def hostEvent (p fd : ℕ) (events : PollTypes) : PollWorld :=
  w.setRegs p ((w.regs p).map fun r => if r.fd = fd then r.notice true events else r)

end PollWorld

inductive PollWorldEvent
  | add (p fd fdNo : ℕ) (types : PollTypes) (info : ℕ) (alloc : Bool) (reply reply' : HostReply)
  | mod (p fd fdNo : ℕ) (types : PollTypes) (info : ℕ) (reply reply' : HostReply)
  | del (p fd fdNo : ℕ) (reply : HostReply)
  | close (fd : ℕ) (reply : ℕ → HostReply)
  | destroy (p : ℕ)
  | change (fd : ℕ) (ready : PollTypes)
  | wakeup (fd : ℕ) (events : PollTypes)
  | host (p fd : ℕ) (events : PollTypes)
  | wait (p max : ℕ) (reply : ℕ → HostReply)

def pollCall (w : PollWorld) : PollWorldEvent → PollWorld × ℤ
  | .add p fd fdNo types info alloc reply reply' =>
    w.addFd p fd fdNo types info alloc reply reply'
  | .mod p fd fdNo types info reply reply' => w.modFd p fd fdNo types info reply reply'
  | .del p fd fdNo reply => w.delFd p fd fdNo reply
  | .close fd reply => (w.cleanupFd fd reply, 0)
  | .destroy p => ({ w.setRegs p [] with host := update w.host p fun _ => none }, 0)
  | .change fd ready => ({ w with ready := update w.ready fd ready }, 0)
  | .wakeup fd events => (w.wakeup fd events, 0)
  | .host p fd events => (w.hostEvent p fd events, 0)
  | .wait p max reply => ((w.waitRound p max reply).1, (w.waitRound p max reply).2.length)

def pollStep (w : PollWorld) (e : PollWorldEvent) : PollWorld := (pollCall w e).1

def initPoll (kqueue : Bool) (real : ℕ → Bool) (ready : ℕ → PollTypes) : PollWorld where
  kqueue := kqueue
  real := real
  regs := fun _ => []
  host := fun _ _ => none
  ready := ready

/-! ### What the host has been told -/

namespace PollWorld

def Exact (w : PollWorld) : Prop :=
  ∀ p fd, w.real fd = true → w.host p fd = w.maskOf (armedTypes (w.regs p) fd)

variable {w : PollWorld} {p fd : ℕ}

lemma setHost_self : w.setHost p fd (w.host p fd) = w := by
  simp [setHost]

lemma setRegs_self : w.setRegs p (w.regs p) = w := by
  simp [setRegs]

@[simp] lemma setHost_host_of_ne {q g : ℕ} (m : Option PollTypes) (h : ¬ (q = p ∧ g = fd)) :
    (w.setHost p fd m).host q g = w.host q g := by
  simp only [setHost]
  by_cases hq : q = p
  · rw [hq, update_self, update_of_ne fun hg => h ⟨hq, hg⟩]
  · rw [update_of_ne hq]

@[simp] lemma setHost_host_self (m : Option PollTypes) : (w.setHost p fd m).host p fd = m := by
  simp [setHost]

lemma realPollUpdate_accepted (types : PollTypes) :
    (w.realPollUpdate p fd types .accepted).1 = w.setHost p fd (w.maskOf types) := by
  simp only [realPollUpdate]
  split_ifs with hk h
  · rfl
  · rw [h.1, ← h.2]
    exact setHost_self.symm
  · rfl

lemma realPollUpdate_cases (w : PollWorld) (p fd : ℕ) (types : PollTypes) (reply : HostReply)
    (hreply : w.kqueue = true → ∀ e, reply ≠ .cleared e) :
    w.realPollUpdate p fd types reply = (w.setHost p fd (w.maskOf types), none) ∨
      ∃ e, w.realPollUpdate p fd types reply = (w, some e) := by
  by_cases hk : w.kqueue = true
  · simp only [realPollUpdate, if_pos hk]
    cases reply with
    | accepted => exact .inl rfl
    | failed e => exact .inr ⟨e, rfl⟩
    | cleared e => exact absurd rfl (hreply hk e)
  · simp only [realPollUpdate, if_neg hk]
    split_ifs
    · exact .inr ⟨2, rfl⟩
    · cases reply with
      | accepted => exact .inl rfl
      | failed e => exact .inr ⟨e, rfl⟩
      | cleared e => exact .inr ⟨e, rfl⟩

lemma realPollUpdate_succeeded {types : PollTypes} {reply : HostReply}
    (h : (w.realPollUpdate p fd types reply).2 = none) :
    (w.realPollUpdate p fd types reply).1 = w.setHost p fd (w.maskOf types) := by
  by_cases hk : w.kqueue = true
  · cases reply with
    | accepted => exact realPollUpdate_accepted types
    | failed e =>
      simp only [realPollUpdate, if_pos hk] at h
      cases h
    | cleared e =>
      simp only [realPollUpdate, if_pos hk] at h ⊢
      split_ifs at h ⊢
      rfl
  · obtain hok | ⟨e', hfail⟩ := realPollUpdate_cases w p fd types reply
      fun h => absurd h hk
    · rw [hok]
    · rw [hfail] at h
      cases h

lemma realPollUpdate_failed (w : PollWorld) (p fd : ℕ) (types : PollTypes) (reply : HostReply)
    {e : ℕ+}
    (h : (w.realPollUpdate p fd types reply).2 = some e) :
    (w.realPollUpdate p fd types reply).1 = w ∨ w.kqueue = true ∧ (∃ e', reply = .cleared e') ∧
      (w.realPollUpdate p fd types reply).1 = w.setHost p fd none := by
  by_cases hk : w.kqueue = true
  · cases reply with
    | cleared e' =>
      simp only [realPollUpdate, if_pos hk] at h ⊢
      split_ifs at h ⊢
      exact .inr ⟨hk, ⟨e', rfl⟩, rfl⟩
    | accepted =>
      simp only [realPollUpdate, if_pos hk] at h
      cases h
    | failed e' =>
      simp only [realPollUpdate, if_pos hk]
      exact .inl trivial
  · obtain hok | ⟨e', hfail⟩ := realPollUpdate_cases w p fd types reply
      fun h => absurd h hk
    · rw [hok] at h
      cases h
    · rw [hfail]
      exact .inl rfl

/-- The host accepts, or has what it had before, when the registrations are put back. -/
def Restores (w : PollWorld) (reply reply' : HostReply) : Prop :=
  w.kqueue = true → (∀ e, reply' ≠ .cleared e) ∧ ∀ e, reply = .cleared e → reply' = .accepted

lemma tellHost_failed (h : w.Exact) {rs : List PollReg} {reply reply' : HostReply}
    (hreply : w.Restores reply reply') (hneg : (w.tellHost p fd rs reply reply').2 < 0) :
    (w.tellHost p fd rs reply reply').1 = w := by
  by_cases hreal : w.real fd = true
  · simp only [tellHost, if_pos hreal] at hneg ⊢
    cases hupd : (w.setRegs p rs).refresh p fd reply with
    | mk w₁ err =>
      cases err with
      | none =>
        rw [hupd] at hneg
        exact absurd hneg (by simp)
      | some e =>
        simp only
        have hold : w.setHost p fd (w.maskOf (armedTypes (w.regs p) fd)) = w := by
          rw [← h p fd hreal, setHost_self]
        have hback : (w.setRegs p rs).setRegs p (w.regs p) = w := by
          simp [setRegs]
        obtain hsame | ⟨hk, ⟨e', hcl⟩, hnone⟩ := realPollUpdate_failed
          (w.setRegs p rs) p fd (armedTypes ((w.setRegs p rs).regs p) fd) reply
          (congrArg Prod.snd hupd)
        · have hw₁ : w₁ = w.setRegs p rs := (congrArg Prod.fst hupd).symm.trans hsame
          rw [hw₁, hback]
          obtain hok | ⟨e', hfail⟩ := realPollUpdate_cases w p fd
            (armedTypes (w.regs p) fd) reply' fun hk => (hreply hk).1
          · rw [refresh, hok]
            exact hold
          · rw [refresh, hfail]
        · have hw₁ : w₁ = (w.setRegs p rs).setHost p fd none :=
            (congrArg Prod.fst hupd).symm.trans hnone
          have hacc : reply' = .accepted := (hreply hk).2 e' hcl
          have hregs : w₁.setRegs p (w.regs p) = w.setHost p fd none := by
            rw [hw₁]
            simp [setRegs, setHost]
          rw [hregs, refresh, hacc, realPollUpdate_accepted]
          have htwice : ∀ m, (w.setHost p fd none).setHost p fd m = w.setHost p fd m := by
            intro m
            simp [setHost]
          rw [htwice]
          exact hold
  · simp only [tellHost, if_neg hreal] at hneg
    exact absurd hneg (lt_irrefl 0)

lemma armedTypes_map {f : PollReg → PollReg} (rs : List PollReg) {fd : ℕ}
    (h : ∀ r, (f r).fd = r.fd ∧ (r.fd = fd → (f r).types = r.types ∧ (f r).fired = r.fired)) :
    armedTypes (rs.map f) fd = armedTypes rs fd := by
  induction rs with
  | nil => rfl
  | cons r rs ih =>
    simp only [armedTypes, List.map_cons, List.foldr_cons] at ih ⊢
    rw [ih, (h r).1]
    by_cases hr : r.fd = fd
    · rw [((h r).2 hr).1, ((h r).2 hr).2]
    · rw [if_neg fun hc => hr hc.1, if_neg fun hc => hr hc.1]

lemma armedTypes_modify (rs : List PollReg) {g fdNo : ℕ} (hg : g ≠ fd) (types : PollTypes)
    (info : ℕ) : armedTypes
      (rs.map fun r => if r.sameKey fd fdNo then r.modify types info else r) g =
        armedTypes rs g := by
  refine armedTypes_map rs fun r => ?_
  split_ifs with hkey
  · simp only [PollReg.sameKey, decide_eq_true_eq] at hkey
    exact ⟨rfl, fun hr => absurd (hr.symm.trans hkey.1) hg⟩
  · exact ⟨rfl, fun _ => ⟨rfl, rfl⟩⟩

lemma armedTypes_cons_of_ne {r : PollReg} (rs : List PollReg) (h : r.fd ≠ fd) :
    armedTypes (r :: rs) fd = armedTypes rs fd := by
  simp only [armedTypes, List.foldr_cons]
  rw [if_neg fun hc => h hc.1]

lemma armedTypes_eraseP {q : PollReg → Bool} (rs : List PollReg) (h : ∀ r, q r = true → r.fd ≠ fd) :
    armedTypes (rs.eraseP q) fd = armedTypes rs fd := by
  induction rs with
  | nil => rfl
  | cons r rs ih =>
    rw [List.eraseP_cons, Bool.cond_eq_ite]
    split_ifs with hq
    · exact (armedTypes_cons_of_ne rs (h r hq)).symm
    · simp only [armedTypes, List.foldr_cons] at ih ⊢
      rw [ih]

lemma armedTypes_filter {g : ℕ} (rs : List PollReg) :
    armedTypes (rs.filter fun r => r.fd ≠ g) fd = if fd = g then 0 else armedTypes rs fd := by
  induction rs with
  | nil => simp [armedTypes]
  | cons r rs ih =>
    by_cases hr : r.fd = g
    · rw [List.filter_cons_of_neg (by simpa using hr), ih]
      by_cases hfd : fd = g
      · rw [if_pos hfd, if_pos hfd]
      · rw [if_neg hfd, if_neg hfd, armedTypes_cons_of_ne rs (hr ▸ fun hc => hfd hc.symm)]
    · rw [List.filter_cons_of_pos (by simpa using hr)]
      by_cases hfd : fd = g
      · rw [if_pos hfd] at ih ⊢
        rw [armedTypes_cons_of_ne _ (hfd ▸ hr), ih]
      · rw [if_neg hfd] at ih ⊢
        simp only [armedTypes, List.foldr_cons] at ih ⊢
        rw [ih]

lemma Exact.setRegs (h : w.Exact) {rs : List PollReg}
    (hrs : ∀ g, w.real g = true → armedTypes rs g = armedTypes (w.regs p) g) :
    (w.setRegs p rs).Exact := by
  intro q g hreal
  have hq := h q g hreal
  change w.host q g = w.maskOf (armedTypes (update w.regs p rs q) g)
  by_cases hqp : q = p
  · rw [hqp, update_self, hrs g hreal, ← hqp]
    exact hq
  · rw [update_of_ne hqp]
    exact hq

lemma Exact.refreshed (h : w.Exact) {rs : List PollReg}
    (hrs : ∀ g, g ≠ fd → armedTypes rs g = armedTypes (w.regs p) g) :
    ((w.setRegs p rs).setHost p fd (w.maskOf (armedTypes rs fd))).Exact := by
  intro q g hreal
  have hq := h q g hreal
  change _ = w.maskOf (armedTypes (update w.regs p rs q) g)
  by_cases hqg : q = p ∧ g = fd
  · rw [hqg.1, hqg.2, setHost_host_self, update_self]
  · rw [setHost_host_of_ne _ hqg]
    change w.host q g = _
    by_cases hqp : q = p
    · rw [hqp, update_self, hrs g fun hg => hqg ⟨hqp, hg⟩, ← hqp]
      exact hq
    · rw [update_of_ne hqp]
      exact hq

lemma refresh_accepted (rs : List PollReg) : ((w.setRegs p rs).refresh p fd .accepted).1 =
    (w.setRegs p rs).setHost p fd (w.maskOf (armedTypes rs fd)) := by
  rw [refresh, realPollUpdate_accepted]
  simp only [setRegs, update_self]
  rfl

lemma exact_tellHost (h : w.Exact) {rs : List PollReg} {reply reply' : HostReply}
    (hreply : w.Restores reply reply')
    (hrs : ∀ g, g ≠ fd → armedTypes rs g = armedTypes (w.regs p) g) :
    (w.tellHost p fd rs reply reply').1.Exact := by
  by_cases hreal : w.real fd = true
  · cases hupd : (w.setRegs p rs).refresh p fd reply with
    | mk w₁ err =>
      cases err with
      | none =>
        have hres : (w.tellHost p fd rs reply reply').1 = w₁ := by
          simp only [tellHost, if_pos hreal, hupd]
        have hacc : w₁ = (w.setRegs p rs).setHost p fd (w.maskOf (armedTypes rs fd)) := by
          have hw₁ : w₁ = _ := (congrArg Prod.fst hupd).symm.trans
            (realPollUpdate_succeeded (congrArg Prod.snd hupd))
          rw [hw₁]
          simp only [setRegs, update_self]
          rfl
        rw [hres, hacc]
        exact h.refreshed hrs
      | some e =>
        have hneg : (w.tellHost p fd rs reply reply').2 < 0 := by
          simp only [tellHost, if_pos hreal, hupd]
          exact neg_lt_zero.2 (Int.natCast_pos.2 e.pos)
        rw [tellHost_failed h hreply hneg]
        exact h
  · simp only [tellHost, if_neg hreal]
    refine h.setRegs fun g hg => hrs g ?_
    rintro rfl
    exact hreal hg

lemma exact_delFd (h : w.Exact) (fdNo : ℕ) : (w.delFd p fd fdNo .accepted).1.Exact := by
  have hrs (g : ℕ) (hg : g ≠ fd) :
      armedTypes ((w.regs p).eraseP fun r => r.sameKey fd fdNo) g = armedTypes (w.regs p) g := by
    refine armedTypes_eraseP _ fun r hr => ?_
    simp only [PollReg.sameKey, decide_eq_true_eq] at hr
    rw [hr.1]
    exact hg.symm
  simp only [delFd]
  split_ifs with hnone hreal
  · exact h
  · rw [refresh_accepted]
    exact h.refreshed hrs
  · refine h.setRegs fun g hg => hrs g ?_
    rintro rfl
    exact hreal hg

lemma armedTypes_of_any {rs : List PollReg} (h : rs.any (fun r => r.fd = fd) ≠ true) :
    armedTypes rs fd = 0 := by
  induction rs with
  | nil => rfl
  | cons r rs ih =>
    simp only [ne_eq, List.any_cons, Bool.or_eq_true, decide_eq_true_eq, not_or] at h
    rw [armedTypes_cons_of_ne rs h.1, ih h.2]

lemma maskOf_zero : w.maskOf 0 = none := by
  unfold maskOf
  split_ifs <;> simp_all

lemma exact_cleanupFd (h : w.Exact) {reply : ℕ → HostReply} (hreply : ∀ q, reply q = .accepted) :
    (w.cleanupFd fd reply).Exact := by
  intro q g hreal
  have hq := h q g hreal
  simp only [cleanupFd, hreply, realPollUpdate_accepted, maskOf_zero]
  change _ = w.maskOf (armedTypes _ g)
  rw [armedTypes_filter]
  by_cases hg : g = fd
  · rw [if_pos hg, maskOf_zero]
    rw [hg] at hq hreal
    split_ifs with hany
    · rw [hg, setHost_host_self]
    · rw [hg, hq, armedTypes_of_any fun hc => hany ⟨hreal, hc⟩, maskOf_zero]
  · rw [if_neg hg]
    split_ifs
    · rw [setHost_host_of_ne _ fun hc => hg hc.2]
      exact hq
    · exact hq

lemma armedTypes_notice (rs : List PollReg) (hears : PollReg → Bool) {g : ℕ}
    (events : PollTypes) :
    armedTypes (rs.map fun r => if r.fd = fd then r.notice (hears r) events else r) g =
      armedTypes rs g := by
  refine armedTypes_map rs fun r => ?_
  split_ifs
  · exact ⟨rfl, fun _ => ⟨rfl, rfl⟩⟩
  · exact ⟨rfl, fun _ => ⟨rfl, rfl⟩⟩

lemma exact_wakeup (h : w.Exact) (events : PollTypes) : (w.wakeup fd events).Exact := by
  intro q g hreal
  change w.host q g = w.maskOf (armedTypes ((w.regs q).map _) g)
  rw [armedTypes_notice]
  exact h q g hreal

lemma exact_hostEvent (h : w.Exact) (events : PollTypes) : (w.hostEvent p fd events).Exact :=
  h.setRegs fun _ _ => armedTypes_notice _ (fun _ => true) events

lemma armedTypes_set {rs : List PollReg} {i : ℕ} {r : PollReg} (hi : rs[i]? = some r)
    (r' : PollReg) (hfd : r'.fd = r.fd) {g : ℕ}
    (h : g = r.fd → r'.types = r.types ∧ r'.fired = r.fired) :
    armedTypes (rs.set i r') g = armedTypes rs g := by
  induction rs generalizing i with
  | nil => rfl
  | cons x rs ih =>
    cases i with
    | zero =>
      obtain rfl : x = r := Option.some.inj hi
      rw [List.set_cons_zero]
      simp only [armedTypes, List.foldr_cons, hfd]
      by_cases hx : x.fd = g
      · rw [(h hx.symm).1, (h hx.symm).2]
      · rw [if_neg fun hc => hx hc.1, if_neg fun hc => hx hc.1]
    | succ i =>
      rw [List.set_cons_succ]
      have := ih (by simpa using hi)
      simp only [armedTypes, List.foldr_cons] at this ⊢
      rw [this]

lemma exact_lookAt {max : ℕ} {reply : ℕ → HostReply} (hreply : ∀ i, reply i = .accepted)
    {s : PollWorld × List PollReport} (h : s.1.Exact) (i : ℕ) :
    (lookAt p max reply s i).1.Exact := by
  simp only [lookAt]
  split
  · exact h
  · rename_i r hi
    split_ifs with hnone hfull honce
    · exact h
    · exact h.setRegs fun g _ => armedTypes_set hi (r.refuse _) rfl fun _ => ⟨rfl, rfl⟩
    · rw [hreply, refresh_accepted]
      exact h.refreshed fun g hg => armedTypes_set hi (r.report _) rfl fun hc => absurd hc hg
    · refine h.setRegs fun g hg => armedTypes_set hi (r.report _) rfl fun hc => ⟨rfl, ?_⟩
      have hshot : r.oneshot = false := Bool.eq_false_iff.2 fun hs => honce ⟨hs, hc ▸ hg⟩
      simp [PollReg.report, hshot]

lemma exact_waitRound (h : w.Exact) {max : ℕ} {reply : ℕ → HostReply}
    (hreply : ∀ i, reply i = .accepted) : (w.waitRound p max reply).1.Exact := by
  unfold waitRound
  generalize hs : (w, ([] : List PollReport)) = s
  have hexact : s.1.Exact := hs ▸ h
  clear hs
  induction List.range (w.regs p).length generalizing s with
  | nil => exact hexact
  | cons i is ih => exact ih _ (exact_lookAt hreply hexact i)

/-- The condition on a step: the host accepts what it is told when a registration goes away or has
been delivered for the last time; and where it refuses a registration and has taken out all of them,
it accepts the old ones again. -/
def Accepts (w : PollWorld) : PollWorldEvent → Prop
  | .add _ _ _ _ _ _ reply reply' | .mod _ _ _ _ _ reply reply' => w.Restores reply reply'
  | .del _ _ _ reply => reply = .accepted
  | .close _ reply | .wait _ _ reply => ∀ i, reply i = .accepted
  | _ => True

lemma exact_pollStep (h : w.Exact) {e : PollWorldEvent} (hcond : w.Accepts e) :
    (pollStep w e).Exact := by
  cases e with
  | add p fd fdNo types info alloc reply reply' =>
    simp only [pollStep, pollCall, addFd]
    split_ifs
    · exact h
    · exact exact_tellHost h hcond fun g hg => armedTypes_cons_of_ne _ hg.symm
    · exact h
  | mod p fd fdNo types info reply reply' =>
    simp only [pollStep, pollCall, modFd]
    split_ifs
    · exact h
    · exact exact_tellHost h hcond fun g hg => armedTypes_modify _ hg types info
  | del p fd fdNo reply =>
    obtain rfl : reply = .accepted := hcond
    exact exact_delFd h fdNo
  | close fd reply => exact exact_cleanupFd h hcond
  | destroy p =>
    intro q g hreal
    have hq := h q g hreal
    change update w.host p (fun _ => none) q g = w.maskOf (armedTypes (update w.regs p [] q) g)
    by_cases hqp : q = p
    · rw [hqp, update_self, update_self]
      exact maskOf_zero.symm
    · rw [update_of_ne hqp, update_of_ne hqp]
      exact hq
  | change fd ready => exact h
  | wakeup fd events => exact exact_wakeup h events
  | host p fd events => exact exact_hostEvent h events
  | wait p max reply => exact exact_waitRound h hcond

lemma Exact.refused (h : w.Exact) {e : PollWorldEvent} (hcond : w.Accepts e)
    (hneg : (pollCall w e).2 < 0) : pollStep w e = w := by
  cases e with
  | add p fd fdNo types info alloc reply reply' =>
    simp only [pollStep, pollCall, addFd] at hneg ⊢
    split_ifs at hneg ⊢
    · rfl
    · exact tellHost_failed h hcond hneg
    · rfl
  | mod p fd fdNo types info reply reply' =>
    simp only [pollStep, pollCall, modFd] at hneg ⊢
    split_ifs at hneg ⊢
    · rfl
    · exact tellHost_failed h hcond hneg
  | del p fd fdNo reply =>
    simp only [pollStep, pollCall, delFd] at hneg ⊢
    split_ifs at hneg ⊢
    · rfl
    · exact absurd hneg (lt_irrefl 0)
    · exact absurd hneg (lt_irrefl 0)
  | wait p max reply => exact absurd hneg (not_lt.2 (Int.natCast_nonneg _))
  | _ => exact absurd hneg (lt_irrefl 0)

/-! ### On a host where a call that fails changes nothing -/

/-- The host has been told of every event type of the armed registrations, and perhaps of others. -/
structure Covers (w : PollWorld) : Prop where
  epoll : w.kqueue = false
  covers : ∀ p fd, w.real fd = true → ∀ i, i ≠ 30 →
    (armedTypes (w.regs p) fd).getLsbD i = true → ∃ m, w.host p fd = some m ∧ m.getLsbD i = true

lemma maskOf_covers (hk : w.kqueue = false) {types : PollTypes} {i : ℕ} (hi : i ≠ 30)
    (h : types.getLsbD i = true) : ∃ m, w.maskOf types = some m ∧ m.getLsbD i = true := by
  have hbit : (types &&& ~~~pollOneshot).getLsbD i = true := by
    have hshot : pollOneshot = BitVec.twoPow 32 30 := by decide
    have hlt := BitVec.lt_of_getLsbD h
    simp [h, hshot, hlt, hi]
  have hne : types &&& ~~~pollOneshot ≠ 0 := by
    intro hzero
    rw [hzero] at hbit
    simp at hbit
  refine ⟨types &&& ~~~pollOneshot, ?_, hbit⟩
  simp only [maskOf, hk, Bool.false_eq_true, if_false, if_neg hne]

lemma Covers.setHost (h : w.Covers) (p fd : ℕ) :
    (w.setHost p fd (w.maskOf (armedTypes (w.regs p) fd))).Covers := by
  refine ⟨h.epoll, fun q g hreal i hi hbit => ?_⟩
  by_cases hqg : q = p ∧ g = fd
  · rw [hqg.1, hqg.2] at hbit ⊢
    rw [setHost_host_self]
    exact maskOf_covers h.epoll hi hbit
  · rw [setHost_host_of_ne _ hqg]
    exact h.covers q g hreal i hi hbit

lemma Covers.refresh (h : w.Covers) (p fd : ℕ) (reply : HostReply) :
    (w.refresh p fd reply).1.Covers := by
  unfold PollWorld.refresh
  obtain hok | ⟨e, hfail⟩ := realPollUpdate_cases w p fd
    (armedTypes (w.regs p) fd) reply fun hk => by rw [h.epoll] at hk; cases hk
  · rw [hok]
    exact h.setHost p fd
  · rw [hfail]
    exact h

lemma Covers.setRegs (h : w.Covers) {rs : List PollReg}
    (hrs : ∀ g i, (armedTypes rs g).getLsbD i = true →
      (armedTypes (w.regs p) g).getLsbD i = true) : (w.setRegs p rs).Covers := by
  refine ⟨h.epoll, fun q g hreal i hi hbit => ?_⟩
  change (armedTypes (update w.regs p rs q) g).getLsbD i = true at hbit
  refine h.covers q g hreal i hi ?_
  by_cases hq : q = p
  · rw [hq, update_self] at hbit
    rw [hq]
    exact hrs g i hbit
  · rw [update_of_ne hq] at hbit
    exact hbit

lemma Covers.elsewhere (h : w.Covers) {rs : List PollReg}
    (hrs : ∀ g, g ≠ fd → armedTypes rs g = armedTypes (w.regs p) g) {q g : ℕ}
    (hqg : ¬ (q = p ∧ g = fd)) (hreal : w.real g = true) {i : ℕ} (hi : i ≠ 30)
    (hbit : (armedTypes (update w.regs p rs q) g).getLsbD i = true) :
    ∃ m, w.host q g = some m ∧ m.getLsbD i = true := by
  refine h.covers q g hreal i hi ?_
  by_cases hq : q = p
  · rw [hq, update_self, hrs g fun hc => hqg ⟨hq, hc⟩] at hbit
    rw [hq]
    exact hbit
  · rw [update_of_ne hq] at hbit
    exact hbit

lemma covers_tellHost (h : w.Covers) {rs : List PollReg} (reply reply' : HostReply)
    (hrs : ∀ g, g ≠ fd → armedTypes rs g = armedTypes (w.regs p) g) :
    (w.tellHost p fd rs reply reply').1.Covers := by
  by_cases hreal : w.real fd = true
  · simp only [tellHost, if_pos hreal]
    obtain hok | ⟨e, hfail⟩ := realPollUpdate_cases (w.setRegs p rs) p fd
      (armedTypes ((w.setRegs p rs).regs p) fd) reply
      fun hk => absurd (h.epoll.symm.trans hk) Bool.false_ne_true
    · rw [PollWorld.refresh, hok]
      refine ⟨h.epoll, fun q g hg i hi hbit => ?_⟩
      by_cases hqg : q = p ∧ g = fd
      · rw [hqg.1, hqg.2] at hbit ⊢
        simp only [setHost_host_self]
        exact maskOf_covers (w := w.setRegs p rs) h.epoll hi hbit
      · simp only [setHost_host_of_ne _ hqg]
        exact h.elsewhere hrs hqg hg hi hbit
    · have hback : (w.setRegs p rs).setRegs p (w.regs p) = w := by
        simp [PollWorld.setRegs]
      rw [PollWorld.refresh, hfail]
      simp only [hback]
      exact h.refresh p fd reply'
  · simp only [tellHost, if_neg hreal]
    exact ⟨h.epoll, fun q g hg i hi hbit =>
      h.elsewhere hrs (fun hc => hreal (hc.2 ▸ hg)) hg hi hbit⟩

lemma armedTypes_bit {rs : List PollReg} {i : ℕ} : (armedTypes rs fd).getLsbD i = true ↔
    ∃ r ∈ rs, r.fd = fd ∧ r.fired = false ∧ r.types.getLsbD i = true := by
  induction rs with
  | nil => simp [armedTypes]
  | cons r rs ih =>
    simp only [armedTypes, List.foldr_cons, List.exists_mem_cons_iff] at ih ⊢
    split_ifs with hr
    · rw [BitVec.getLsbD_or, Bool.or_eq_true, ih]
      simp [hr.1, Bool.eq_false_iff.2 hr.2]
    · rw [ih]
      refine ⟨.inr, fun h => h.resolve_left ?_⟩
      rintro ⟨hfd, hfired, -⟩
      exact hr ⟨hfd, Bool.eq_false_iff.1 hfired⟩

lemma covers_lookAt {max : ℕ} {reply : ℕ → HostReply} {s : PollWorld × List PollReport}
    (h : s.1.Covers) (i : ℕ) : (lookAt p max reply s i).1.Covers := by
  simp only [lookAt]
  split
  · exact h
  · rename_i r hi
    have hset (r' : PollReg) (hfd : r'.fd = r.fd) (htypes : r'.types = r.types)
        (hfired : r'.fired = false → r.fired = false) :
        (s.1.setRegs p ((s.1.regs p).set i r')).Covers := by
      refine h.setRegs fun g j hbit => ?_
      obtain ⟨x, hx, hxfd, hxfired, hxbit⟩ := armedTypes_bit.1 hbit
      obtain hx | rfl := List.mem_or_eq_of_mem_set hx
      · exact armedTypes_bit.2 ⟨x, hx, hxfd, hxfired, hxbit⟩
      · exact armedTypes_bit.2 ⟨r, List.mem_of_getElem? hi, hfd ▸ hxfd, hfired hxfired,
          htypes ▸ hxbit⟩
    have hreport : (s.1.setRegs p ((s.1.regs p).set i (r.report (s.1.pending r)))).Covers := by
      refine hset _ rfl rfl fun hf => ?_
      simp only [PollReg.report, Bool.or_eq_false_iff] at hf
      exact hf.1
    split_ifs
    · exact h
    · exact hset (r.refuse _) rfl rfl id
    · exact hreport.refresh p r.fd _
    · exact hreport

lemma covers_pollStep (h : w.Covers) (e : PollWorldEvent) : (pollStep w e).Covers := by
  cases e with
  | add p fd fdNo types info alloc reply reply' =>
    simp only [pollStep, pollCall, addFd]
    split_ifs
    · exact h
    · exact covers_tellHost h _ _ fun g hg => armedTypes_cons_of_ne _ hg.symm
    · exact h
  | mod p fd fdNo types info reply reply' =>
    simp only [pollStep, pollCall, modFd]
    split_ifs
    · exact h
    · exact covers_tellHost h _ _ fun g hg => armedTypes_modify _ hg types info
  | del p fd fdNo reply =>
    have hgone : (w.setRegs p ((w.regs p).eraseP fun r => r.sameKey fd fdNo)).Covers := by
      refine h.setRegs fun g i hbit => ?_
      obtain ⟨r, hr, hrest⟩ := armedTypes_bit.1 hbit
      exact armedTypes_bit.2 ⟨r, List.mem_of_mem_eraseP hr, hrest⟩
    simp only [pollStep, pollCall, delFd]
    split_ifs
    · exact h
    · exact hgone.refresh p fd reply
    · exact hgone
  | close fd reply =>
    refine ⟨h.epoll, fun q g hreal i hi hbit => ?_⟩
    change (armedTypes ((w.regs q).filter fun r => r.fd ≠ fd) g).getLsbD i = true at hbit
    rw [armedTypes_filter] at hbit
    split_ifs at hbit with hg
    · simp at hbit
    · obtain ⟨m, hm, hmi⟩ := h.covers q g hreal i hi hbit
      refine ⟨m, ?_, hmi⟩
      simp only [pollStep, pollCall, cleanupFd]
      split_ifs
      · obtain hok | ⟨e, hfail⟩ := realPollUpdate_cases w q fd 0 (reply q)
          fun hk => absurd (h.epoll.symm.trans hk) Bool.false_ne_true
        · rw [hok]
          simp only
          rw [setHost_host_of_ne _ fun hc => hg hc.2]
          exact hm
        · rw [hfail]
          exact hm
      · exact hm
  | destroy p =>
    refine ⟨h.epoll, fun q g hreal i hi hbit => ?_⟩
    change (armedTypes (update w.regs p [] q) g).getLsbD i = true at hbit
    change ∃ m, update w.host p (fun _ => none) q g = some m ∧ _
    by_cases hq : q = p
    · rw [hq, update_self] at hbit
      simp [armedTypes] at hbit
    · rw [update_of_ne hq] at hbit ⊢
      exact h.covers q g hreal i hi hbit
  | change fd ready => exact ⟨h.epoll, h.covers⟩
  | wakeup fd events =>
    refine ⟨h.epoll, fun q g hreal i hi hbit => h.covers q g hreal i hi ?_⟩
    change (armedTypes ((w.regs q).map _) g).getLsbD i = true at hbit
    rw [armedTypes_notice] at hbit
    exact hbit
  | host p fd events =>
    refine h.setRegs fun g i hbit => ?_
    rw [armedTypes_notice _ fun _ => true] at hbit
    exact hbit
  | wait p max reply =>
    simp only [pollStep, pollCall, waitRound]
    generalize hs : (w, ([] : List PollReport)) = s
    have hcovers : s.1.Covers := hs ▸ h
    clear hs
    induction List.range (w.regs p).length generalizing s with
    | nil => exact hcovers
    | cons i is ih => exact ih _ (covers_lookAt hcovers i)

end PollWorld

/-- **Host registration**: where the host accepts what it is told of registrations that go away, and
takes back what it has taken out, it has been told of exactly the armed registrations, and an
operation that fails leaves everything as before; and a host on which a call that fails changes
nothing has in every run been told of all of them. -/
theorem host_registration_exact (kqueue : Bool) (real : ℕ → Bool) (ready : ℕ → PollTypes)
    (es : List PollWorldEvent) :
    (RunAll pollStep PollWorld.Accepts (initPoll kqueue real ready) es →
      (run pollStep (initPoll kqueue real ready) es).Exact ∧
        ∀ e, (run pollStep (initPoll kqueue real ready) es).Accepts e →
          (pollCall (run pollStep (initPoll kqueue real ready) es) e).2 < 0 →
          pollStep (run pollStep (initPoll kqueue real ready) es) e =
            run pollStep (initPoll kqueue real ready) es) ∧
      (kqueue = false → (run pollStep (initPoll kqueue real ready) es).Covers) := by
  refine ⟨fun hes => ?_, fun hk => ?_⟩
  · have hexact : (run pollStep (initPoll kqueue real ready) es).Exact :=
      run_invariant (P := PollWorld.Exact) (fun _ _ hcond h => PollWorld.exact_pollStep h hcond)
        hes fun _ _ _ => PollWorld.maskOf_zero.symm
    exact ⟨hexact, fun e hcond hneg => hexact.refused hcond hneg⟩
  · refine run_invariant (P := PollWorld.Covers) (fun _ e _ h => PollWorld.covers_pollStep h e)
      (runAll_of_forall (fun _ _ => trivial) _ es) ⟨hk, ?_⟩
    intro p fd _ i _ hbit
    simp [initPoll, PollWorld.armedTypes] at hbit

/-- Two registrations of one description; a third is refused, one is delivered for the last time,
and the other goes away. -/
theorem host_registration_exact_shared : (run pollStep (initPoll true (· = 5) fun _ => pollRead)
    [.add 0 5 3 (pollRead ||| pollOneshot) 1 true .accepted .accepted,
      .add 0 5 4 pollWrite 2 true .accepted .accepted,
      .add 0 5 6 pollPri 3 true (.cleared 12) .accepted, .wait 0 8 fun _ => .accepted,
      .del 0 5 4 .accepted]).Exact := by
  refine ((host_registration_exact _ _ _ _).1 ?_).1
  refine ⟨?_, ?_, ?_, fun _ => rfl, rfl, trivial⟩
  all_goals exact fun _ => ⟨nofun, fun _ _ => rfl⟩

def sharedFd (kqueue : Bool) : PollWorld :=
  run pollStep (initPoll kqueue (· = 5) fun _ => 0)
    [.add 0 5 3 pollRead 1 true .accepted .accepted,
      .add 0 5 4 pollWrite 2 true .accepted .accepted]

/-- The host is not told that a registration has gone away; or it has nothing left of the other; and
a registration that is refused twice takes those that were there from the host. -/
theorem host_registration_stale :
    ¬ (pollStep (sharedFd false) (.del 0 5 4 (.failed 12))).Exact ∧
      ¬ (pollStep (sharedFd true) (.del 0 5 4 (.cleared 12))).Exact ∧
      (pollCall (sharedFd true) (.add 0 5 6 pollErr 3 true (.cleared 12) (.cleared 12))).2 < 0 ∧
      pollStep (sharedFd true) (.add 0 5 6 pollErr 3 true (.cleared 12) (.cleared 12)) ≠
        sharedFd true := by
  refine ⟨fun h => ?_, fun h => ?_, by decide, fun h => ?_⟩
  · exact absurd (h 0 5 rfl) (by decide)
  · exact absurd (h 0 5 rfl) (by decide)
  · exact absurd (congrFun (congrFun (congrArg PollWorld.host h) 0) 5) (by decide)

end ShellBox
