import ShellBox.Fs.Poll

/-!
# What a poll object reports

A one-shot registration is disarmed by its report, an edge is taken by the report and given back by
a notification, and an event for which the callback has no room is left. What has been reported,
taken and refused is followed in the registrations, and the rounds of `poll_wait` are compared with
it.
-/

namespace ShellBox

open Function

namespace PollReg

/-- The history of a registration agrees with what `poll_wait` goes by. -/
structure Kept (r : PollReg) : Prop where
  count : r.oneshot = true → r.count ≤ 1 ∧ (r.fired = false → r.count = 0)
  told : ∀ i, r.told.getLsbD i = true → r.triggered.getLsbD i = true
  refused : r.edge = true → ∀ i, r.refused.getLsbD i = true → r.triggered.getLsbD i = false
  fired : r.fired = true → r.refused = 0

variable {r : PollReg}

lemma kept_new (fd fdNo : ℕ) (types : PollTypes) (info : ℕ) :
    (PollReg.mk fd fdNo types info 0 false 0 0 0).Kept :=
  ⟨fun _ => ⟨Nat.zero_le 1, fun _ => rfl⟩, fun i hi => by simp at hi, fun _ i hi => by simp at hi,
    nofun⟩

lemma Kept.report (h : r.Kept) (hfired : r.fired = false) {types : PollTypes} :
    (r.report types).Kept := by
  refine ⟨fun hshot => ?_, fun i hi => ?_, fun hedge i hi => ?_, fun hf => ?_⟩
  · change r.oneshot = true at hshot
    have hzero := (h.count hshot).2 hfired
    refine ⟨?_, fun hf => ?_⟩
    · change r.count + 1 ≤ 1
      rw [hzero]
    · simp [PollReg.report, hshot] at hf
  · simp only [PollReg.report] at hi ⊢
    split_ifs at hi ⊢
    · rw [BitVec.getLsbD_or, Bool.or_eq_true] at hi ⊢
      exact hi.imp_left (h.told i)
    · exact h.told i hi
  · change r.edge = true at hedge
    simp only [PollReg.report, if_pos hedge] at hi ⊢
    split_ifs at hi
    · simp at hi
    · simp only [BitVec.getLsbD_and, BitVec.getLsbD_not, Bool.and_eq_true, Bool.not_eq_true'] at hi
      rw [BitVec.getLsbD_or, h.refused hedge i hi.1, hi.2.2]
      rfl
  · have hshot : r.oneshot = true := by
      simpa [PollReg.report, hfired] using hf
    exact if_pos hshot

lemma Kept.refuse (h : r.Kept) (hfired : r.fired = false) {types : PollTypes}
    (htypes : r.edge = true → ∀ i, types.getLsbD i = true → r.triggered.getLsbD i = false) :
    (r.refuse types).Kept := by
  refine ⟨h.count, h.told, fun hedge i hi => ?_, fun hf => ?_⟩
  · simp only [PollReg.refuse, BitVec.getLsbD_or, Bool.or_eq_true] at hi
    exact hi.elim (h.refused hedge i) (htypes hedge i)
  · exact absurd (hfired.symm.trans hf) Bool.false_ne_true

lemma Kept.modify (h : r.Kept) (types : PollTypes) (info : ℕ) : (r.modify types info).Kept := by
  refine ⟨fun _ => ⟨Nat.zero_le 1, fun _ => rfl⟩, fun i hi => ?_, fun _ i hi => ?_, nofun⟩
  · simp only [PollReg.modify, BitVec.getLsbD_and, Bool.and_eq_true] at hi ⊢
    exact ⟨h.told i hi.1, hi.2⟩
  · simp [PollReg.modify] at hi

lemma Kept.notice (h : r.Kept) (hears : Bool) (events : PollTypes) :
    (r.notice hears events).Kept := by
  refine ⟨h.count, fun i hi => ?_, fun hedge i hi => ?_, h.fired⟩
  · simp only [PollReg.notice, BitVec.getLsbD_and, BitVec.getLsbD_not, Bool.and_eq_true] at hi ⊢
    split_ifs
    · simp only [BitVec.getLsbD_and, BitVec.getLsbD_not, Bool.and_eq_true]
      exact ⟨h.told i hi.1, hi.2⟩
    · exact h.told i hi.1
  · have hfree := h.refused hedge i hi
    simp only [PollReg.notice]
    split_ifs
    · rw [BitVec.getLsbD_and, hfree, Bool.false_and]
    · exact hfree

end PollReg

namespace PollWorld

def Kept (w : PollWorld) : Prop := ∀ p, ∀ r ∈ w.regs p, r.Kept

variable {w : PollWorld} {p fd : ℕ}

/-! ### A round of the wait -/

lemma realPollUpdate_regs (types : PollTypes) (reply : HostReply) :
    (w.realPollUpdate p fd types reply).1.regs = w.regs ∧
      (w.realPollUpdate p fd types reply).1.ready = w.ready := by
  by_cases hk : w.kqueue = true
  · simp only [realPollUpdate, if_pos hk]
    cases reply with
    | accepted | failed => exact ⟨rfl, rfl⟩
    | cleared e => split_ifs <;> exact ⟨rfl, rfl⟩
  · simp only [realPollUpdate, if_neg hk]
    split_ifs
    · exact ⟨rfl, rfl⟩
    · cases reply <;> exact ⟨rfl, rfl⟩

lemma refresh_regs (reply : HostReply) :
    (w.refresh p fd reply).1.regs = w.regs ∧ (w.refresh p fd reply).1.ready = w.ready :=
  realPollUpdate_regs _ _

lemma pending_congr {w' : PollWorld} (h : w'.ready = w.ready) (r : PollReg) :
    w'.pending r = w.pending r := by
  simp only [pending, h]

lemma pending_fired {r : PollReg} (h : w.pending r ≠ 0) : r.fired = false := by
  by_contra hf
  exact h (if_pos (Bool.not_eq_false _ ▸ hf))

lemma pending_free {r : PollReg} (hedge : r.edge = true) {i : ℕ}
    (h : (w.pending r).getLsbD i = true) : r.triggered.getLsbD i = false := by
  simp only [pending, hedge, if_true] at h
  split_ifs at h
  · simp at h
  · simp only [BitVec.getLsbD_and, BitVec.getLsbD_not, Bool.and_eq_true, Bool.not_eq_true'] at h
    exact h.2.2

/-- What became of a registration that `poll_wait` has looked at. -/
inductive Looked (w : PollWorld) (max : ℕ) (reports : List PollReport) (r : PollReg) :
    PollReg → Prop
  | quiet : w.pending r = 0 → Looked w max reports r r
  | reported : w.pending r ≠ 0 → r.asReport (w.pending r) ∈ reports →
      Looked w max reports r (r.report (w.pending r))
  | refused : w.pending r ≠ 0 → max ≤ reports.length →
      Looked w max reports r (r.refuse (w.pending r))

structure LookedAt (w : PollWorld) (p max k : ℕ) (s : PollWorld × List PollReport) : Prop where
  ready : s.1.ready = w.ready
  others : ∀ q, q ≠ p → s.1.regs q = w.regs q
  behind : ∀ i, k ≤ i → (s.1.regs p)[i]? = (w.regs p)[i]?
  looked : ∀ i, i < k → ∀ r, (w.regs p)[i]? = some r →
    ∃ r', (s.1.regs p)[i]? = some r' ∧ w.Looked max s.2 r r'
  length : (s.1.regs p).length = (w.regs p).length
  reports : ∀ rep ∈ s.2, ∃ i r, i < k ∧ (w.regs p)[i]? = some r ∧ w.pending r ≠ 0 ∧
    rep = r.asReport (w.pending r) ∧ (s.1.regs p)[i]? = some (r.report (w.pending r))

lemma Looked.mono {max : ℕ} {reports reports' : List PollReport} {r r' : PollReg}
    (h : w.Looked max reports r r') (hpre : reports <+: reports') : w.Looked max reports' r r' := by
  cases h with
  | quiet hz => exact .quiet hz
  | reported hz hm => exact .reported hz (hpre.subset hm)
  | refused hz hm => exact .refused hz (hm.trans hpre.length_le)

lemma LookedAt.next {max k : ℕ} {s : PollWorld × List PollReport} (h : w.LookedAt p max k s)
    {r : PollReg} (r' : PollReg) (hr : (w.regs p)[k]? = some r) {w' : PollWorld}
    (hregs : w'.regs = (s.1.setRegs p ((s.1.regs p).set k r')).regs)
    (hready : w'.ready = s.1.ready) {reports : List PollReport} (hpre : s.2 <+: reports)
    (hlooked : w.Looked max reports r r')
    (hreports : ∀ rep ∈ reports, rep ∈ s.2 ∨ w.pending r ≠ 0 ∧ rep = r.asReport (w.pending r) ∧
      r' = r.report (w.pending r)) : w.LookedAt p max (k + 1) (w', reports) := by
  have hself : w'.regs p = (s.1.regs p).set k r' := by
    rw [hregs]
    exact update_self _ _ _
  have hlt : k < (s.1.regs p).length := by
    rw [h.length]
    exact (List.getElem?_eq_some_iff.1 hr).1
  refine ⟨hready.trans h.ready, fun q hq => ?_, fun i hi => ?_, fun i hi x hx => ?_, ?_,
    fun rep hrep => ?_⟩
  · rw [hregs]
    exact (update_of_ne hq _ _).trans (h.others q hq)
  · change (w'.regs p)[i]? = _
    rw [hself, List.getElem?_set_ne (by omega)]
    exact h.behind i (by omega)
  · change ∃ y, (w'.regs p)[i]? = some y ∧ _
    rw [hself]
    obtain hik | rfl := Nat.lt_succ_iff_lt_or_eq.1 hi
    · rw [List.getElem?_set_ne (by omega)]
      obtain ⟨y, hy, hlook⟩ := h.looked i hik x hx
      exact ⟨y, hy, hlook.mono hpre⟩
    · obtain rfl := Option.some.inj (hr.symm.trans hx)
      exact ⟨r', List.getElem?_set_self hlt, hlooked⟩
  · change (w'.regs p).length = _
    rw [hself, List.length_set, h.length]
  · change ∃ i r, _ ∧ _ ∧ _ ∧ _ ∧ (w'.regs p)[i]? = _
    rw [hself]
    obtain hold | ⟨hz, hrepeq, hr'⟩ := hreports rep hrep
    · obtain ⟨i, x, hi, hx, hz, hxrep, hxi⟩ := h.reports rep hold
      exact ⟨i, x, by omega, hx, hz, hxrep, by rw [List.getElem?_set_ne (by omega)]; exact hxi⟩
    · exact ⟨k, r, by omega, hr, hz, hrepeq, by rw [List.getElem?_set_self hlt, hr']⟩

lemma LookedAt.lookAt {max k : ℕ} {s : PollWorld × List PollReport} (h : w.LookedAt p max k s)
    (reply : ℕ → HostReply) : w.LookedAt p max (k + 1) (PollWorld.lookAt p max reply s k) := by
  simp only [PollWorld.lookAt]
  rw [h.behind k le_rfl]
  cases hr : (w.regs p)[k]? with
  | none =>
    refine ⟨h.ready, h.others, fun i hi => h.behind i (by omega), fun i hi x hx => ?_, h.length,
      fun rep hrep => ?_⟩
    · have hne : i ≠ k := by
        rintro rfl
        rw [hr] at hx
        cases hx
      exact h.looked i (by omega) x hx
    · obtain ⟨i, x, hi, hrest⟩ := h.reports rep hrep
      exact ⟨i, x, by omega, hrest⟩
  | some r =>
    have hpend : s.1.pending r = w.pending r := pending_congr h.ready r
    simp only [hpend]
    split_ifs with hz hfull honce
    · have hset : (s.1.regs p).set k r = s.1.regs p := by
        obtain ⟨hlt, heq⟩ := List.getElem?_eq_some_iff.1 ((h.behind k le_rfl).trans hr)
        rw [← heq, List.set_getElem_self]
      exact h.next r hr (by rw [hset, setRegs_self]) rfl (List.prefix_refl _) (.quiet hz)
        fun rep hrep => .inl hrep
    · exact h.next (r.refuse (w.pending r)) hr rfl rfl (List.prefix_refl _)
        (.refused hz hfull) fun rep hrep => .inl hrep
    · refine h.next (r.report (w.pending r)) hr (refresh_regs _).1 (refresh_regs _).2
        (List.prefix_append _ _)
        (.reported hz (List.mem_append_right _ (List.mem_singleton_self _))) fun rep hrep => ?_
      exact (List.mem_append.1 hrep).imp_right fun hm => ⟨hz, List.mem_singleton.1 hm, rfl⟩
    · refine h.next (r.report (w.pending r)) hr rfl rfl (List.prefix_append _ _)
        (.reported hz (List.mem_append_right _ (List.mem_singleton_self _))) fun rep hrep => ?_
      exact (List.mem_append.1 hrep).imp_right fun hm => ⟨hz, List.mem_singleton.1 hm, rfl⟩

lemma lookedAt_waitRound (max : ℕ) (reply : ℕ → HostReply) :
    w.LookedAt p max (w.regs p).length (w.waitRound p max reply) := by
  unfold waitRound
  induction (w.regs p).length with
  | zero =>
    exact ⟨rfl, fun _ _ => rfl, fun _ _ => rfl, nofun, rfl, nofun⟩
  | succ n ih =>
    rw [List.range_succ, List.foldl_append]
    exact ih.lookAt reply

/-! ### The history is kept -/

lemma Looked.kept {max : ℕ} {reports : List PollReport} {r r' : PollReg}
    (hlook : w.Looked max reports r r') (h : r.Kept) : r'.Kept := by
  cases hlook with
  | quiet hz => exact h
  | reported hz hm => exact h.report (pending_fired hz)
  | refused hz hm => exact h.refuse (pending_fired hz) fun hedge i hi => pending_free hedge hi

lemma kept_waitRound (h : w.Kept) (max : ℕ) (reply : ℕ → HostReply) :
    (w.waitRound p max reply).1.Kept := by
  have hround := lookedAt_waitRound (w := w) (p := p) max reply
  intro q r' hr'
  by_cases hq : q = p
  · rw [hq] at hr'
    obtain ⟨i, hi, hget⟩ := List.getElem_of_mem hr'
    have hlt : i < (w.regs p).length := hround.length ▸ hi
    obtain ⟨x, hx, hlook⟩ := hround.looked i hlt _ (List.getElem?_eq_getElem hlt)
    rw [List.getElem?_eq_getElem hi, hget] at hx
    obtain rfl := Option.some.inj hx
    exact hlook.kept (h p _ (List.getElem_mem hlt))
  · rw [hround.others q hq] at hr'
    exact h q r' hr'

lemma Kept.setRegs (h : w.Kept) {rs : List PollReg} (hrs : ∀ r ∈ rs, r.Kept) :
    (w.setRegs p rs).Kept := by
  intro q r hr
  change r ∈ update w.regs p rs q at hr
  by_cases hq : q = p
  · rw [hq, update_self] at hr
    exact hrs r hr
  · rw [update_of_ne hq] at hr
    exact h q r hr

lemma Kept.refresh (h : w.Kept) (reply : HostReply) : (w.refresh p fd reply).1.Kept := by
  intro q r hr
  rw [(refresh_regs reply).1] at hr
  exact h q r hr

lemma kept_tellHost (h : w.Kept) {rs : List PollReg} (hrs : ∀ r ∈ rs, r.Kept)
    (reply reply' : HostReply) : (w.tellHost p fd rs reply reply').1.Kept := by
  have htold : ((w.setRegs p rs).refresh p fd reply).1.Kept := (h.setRegs hrs).refresh reply
  simp only [tellHost]
  split_ifs
  · split
    · rename_i w₁ heq
      rw [heq] at htold
      exact htold
    · rename_i w₁ e heq
      rw [heq] at htold
      exact (htold.setRegs (h p)).refresh reply'
  · exact h.setRegs hrs

lemma kept_notice {rs : List PollReg} (hrs : ∀ r ∈ rs, r.Kept) (hears : PollReg → Bool)
    (events : PollTypes) :
    ∀ r ∈ rs.map fun r => if r.fd = fd then r.notice (hears r) events else r, r.Kept := by
  intro r hr
  obtain ⟨x, hx, rfl⟩ := List.mem_map.1 hr
  split_ifs
  · exact (hrs x hx).notice _ events
  · exact hrs x hx

lemma kept_pollStep (h : w.Kept) (e : PollWorldEvent) : (pollStep w e).Kept := by
  cases e with
  | add p fd fdNo types info alloc reply reply' =>
    simp only [pollStep, pollCall, addFd]
    split_ifs
    · exact h
    · refine kept_tellHost h (fun r hr => ?_) reply reply'
      obtain rfl | hr := List.mem_cons.1 hr
      · exact PollReg.kept_new fd fdNo types info
      · exact h p r hr
    · exact h
  | mod p fd fdNo types info reply reply' =>
    simp only [pollStep, pollCall, modFd]
    split_ifs
    · exact h
    · refine kept_tellHost h (fun r hr => ?_) reply reply'
      obtain ⟨x, hx, rfl⟩ := List.mem_map.1 hr
      split_ifs
      · exact (h p x hx).modify types info
      · exact h p x hx
  | del p fd fdNo reply =>
    have hgone : (w.setRegs p ((w.regs p).eraseP fun r => r.sameKey fd fdNo)).Kept :=
      h.setRegs fun r hr => h p r (List.mem_of_mem_eraseP hr)
    simp only [pollStep, pollCall, delFd]
    split_ifs
    · exact h
    · exact hgone.refresh reply
    · exact hgone
  | close fd reply => exact fun q r hr => h q r (List.mem_of_mem_filter hr)
  | destroy p => exact h.setRegs fun r hr => absurd hr List.not_mem_nil
  | change fd ready => exact h
  | wakeup fd events => exact fun q => kept_notice (h q) (fun r => !r.fired) events
  | host p fd events => exact h.setRegs (kept_notice (h p) (fun _ => true) events)
  | wait p max reply => exact kept_waitRound h max reply

/-! ### Reports -/

/-- What a registration was refused, is still asked for and is still ready. -/
def wanted (w : PollWorld) (r : PollReg) : PollTypes :=
  r.refused &&& (w.ready r.fd &&& (r.types ||| pollHup ||| pollErr))

/-- What is promised of the reports of a round: they are of armed registrations, and of no edge that
has been taken; a registration that is not reported is left as it was but for its history; and what
was refused is reported, unless the array is full again. -/
structure Delivers (w : PollWorld) (p max : ℕ) (s : PollWorld × List PollReport) : Prop where
  reported : ∀ rep ∈ s.2, ∃ r ∈ w.regs p, rep = r.asReport (w.pending r) ∧ r.fired = false ∧
    (r.edge = true → rep.types &&& r.told = 0)
  left : ∀ (i : ℕ) (r : PollReg), (w.regs p)[i]? = some r → r.asReport (w.pending r) ∉ s.2 →
    ∃ refused : PollTypes, (s.1.regs p)[i]? = some { r with refused := refused }
  refused : ∀ r ∈ w.regs p, w.wanted r ≠ 0 →
    (∃ types, r.asReport types ∈ s.2 ∧ types &&& w.wanted r = w.wanted r) ∨ max ≤ s.2.length

lemma wanted_pending {r : PollReg} (h : r.Kept) : w.pending r &&& w.wanted r = w.wanted r := by
  apply BitVec.eq_of_getLsbD_eq
  intro i _
  rw [BitVec.getLsbD_and]
  by_cases hi : (w.wanted r).getLsbD i = true
  · rw [hi, Bool.and_true]
    simp only [wanted, BitVec.getLsbD_and, Bool.and_eq_true] at hi
    have hfired : r.fired = false := by
      by_contra hf
      rw [h.fired (by simpa using hf)] at hi
      simp at hi
    simp only [pending, hfired, Bool.false_eq_true, if_false]
    split_ifs with hedge
    · rw [BitVec.getLsbD_and, BitVec.getLsbD_and, hi.2.1, hi.2.2, BitVec.getLsbD_not,
        h.refused hedge i hi.1]
      simp [BitVec.lt_of_getLsbD hi.2.1]
    · rw [BitVec.getLsbD_and, hi.2.1, hi.2.2]
      rfl
  · rw [Bool.eq_false_iff.2 hi, Bool.and_false]

lemma Kept.delivers (h : w.Kept) (p max : ℕ) (reply : ℕ → HostReply) :
    w.Delivers p max (w.waitRound p max reply) := by
  have hround := lookedAt_waitRound (w := w) (p := p) max reply
  refine ⟨fun rep hrep => ?_, fun i r hr hnot => ?_, fun r hr hwanted => ?_⟩
  · obtain ⟨i, r, -, hr, hz, rfl, -⟩ := hround.reports rep hrep
    have hmem := List.mem_of_getElem? hr
    refine ⟨r, hmem, rfl, pending_fired hz, fun hedge => ?_⟩
    apply BitVec.eq_of_getLsbD_eq
    intro j _
    rw [BitVec.getLsbD_and]
    by_cases hj : r.told.getLsbD j = true
    · have htrig := (h p r hmem).told j hj
      have hfree : (w.pending r).getLsbD j = false := by
        by_contra hp
        rw [pending_free hedge (by simpa using hp)] at htrig
        cases htrig
      change ((w.pending r).getLsbD j && _) = _
      rw [hfree]
      simp
    · rw [Bool.eq_false_iff.2 hj]
      simp
  · obtain ⟨r', hr', hlook⟩ := hround.looked i (List.getElem?_eq_some_iff.1 hr).1 r hr
    cases hlook with
    | quiet hz => exact ⟨_, hr'⟩
    | reported hz hm => exact absurd hm hnot
    | refused hz hm => exact ⟨_, hr'⟩
  · have hpend := wanted_pending (w := w) (h p r hr)
    have hz : w.pending r ≠ 0 := by
      intro hz
      rw [hz] at hpend
      exact hwanted (by rw [← hpend]; simp)
    obtain ⟨i, hi, hget⟩ := List.getElem_of_mem hr
    have hsome : (w.regs p)[i]? = some r := by rw [List.getElem?_eq_getElem hi, hget]
    obtain ⟨r', -, hlook⟩ := hround.looked i hi r hsome
    cases hlook with
    | quiet hq => exact absurd hq hz
    | reported _ hm => exact .inl ⟨_, hm, hpend⟩
    | refused _ hm => exact .inr hm

end PollWorld

/-- **Delivery**: in every run, a one-shot registration has been reported once at most since it was
armed; and each round of a wait reports no edge that has been reported and neither notified of nor
dropped since, leaves what it does not report, and reports what was refused before, if it is still
ready and the array has room. -/
theorem poll_delivers (kqueue : Bool) (real : ℕ → Bool) (ready : ℕ → PollTypes)
    (es : List PollWorldEvent) :
    (∀ p, ∀ r ∈ (run pollStep (initPoll kqueue real ready) es).regs p,
      r.oneshot = true → r.count ≤ 1) ∧
    ∀ p max reply, (run pollStep (initPoll kqueue real ready) es).Delivers p max
      ((run pollStep (initPoll kqueue real ready) es).waitRound p max reply) := by
  have hkept : (run pollStep (initPoll kqueue real ready) es).Kept := by
    refine run_invariant (P := PollWorld.Kept) (fun _ e _ h => PollWorld.kept_pollStep h e)
      (runAll_of_forall (fun _ _ => trivial) _ es) ?_
    intro p r hr
    cases hr
  exact ⟨fun p r hr hshot => ((hkept p r hr).count hshot).1, fun p max reply =>
    hkept.delivers p max reply⟩

/-- A description that is ready to be read, with one registration for edges, which has been
reported. -/
def edgeTaken : PollWorld :=
  run pollStep (initPoll false (fun _ => false) fun _ => pollRead)
    [.add 0 5 3 (pollRead ||| pollWrite ||| pollEdgetriggered) 1 true .accepted .accepted,
      .wait 0 8 fun _ => .accepted]

def twoReady : PollWorld :=
  run pollStep (initPoll false (fun _ => false) fun _ => pollRead)
    [.add 0 5 3 pollRead 1 true .accepted .accepted, .add 0 6 4 pollRead 2 true .accepted .accepted]

/-- An edge that has been reported is reported again, without a notification, when it has been
dropped and taken up by modifications; and a registration that has been refused is refused again and
again by waits with room for one event. -/
theorem poll_reports_differ :
    (edgeTaken.waitRound 0 8 fun _ => .accepted).2 = [] ∧
      ((run pollStep edgeTaken
        [.mod 0 5 3 (pollWrite ||| pollEdgetriggered) 1 .accepted .accepted,
          .mod 0 5 3 (pollRead ||| pollWrite ||| pollEdgetriggered) 1 .accepted
            .accepted]).waitRound 0 8 fun _ => .accepted).2 = [⟨5, 3, pollRead, 1⟩] ∧
      ((run pollStep twoReady [.wait 0 1 fun _ => .accepted,
        .wait 0 1 fun _ => .accepted]).regs 0).map PollReg.refused = [0, pollRead] ∧
      ((run pollStep twoReady [.wait 0 1 fun _ => .accepted,
        .wait 0 1 fun _ => .accepted]).waitRound 0 1 fun _ => .accepted).2 =
          [⟨6, 4, pollRead, 2⟩] := by
  decide

end ShellBox
