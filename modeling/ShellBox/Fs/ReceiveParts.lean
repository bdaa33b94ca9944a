import ShellBox.Fs.Receive

/-!
# Receiving in parts

A `recvfrom` that waits is compared with one receive of the host, which sees all that has come so
far and takes it at the end. The parts that `recvfrom` has are put back in front of the socket.
-/

namespace ShellBox

namespace RecvCall

open RecvSocket

variable {c : RecvCall} {got got' : Got} {s s' sH : RecvSocket} {q : List Arrival}
  {es : List (List Arrival)} {t : Taken}

/-! ### The parts of a receive -/

/-- What has been received so far: nothing, or a part of what a stream is to give. -/
structure Holds (c : RecvCall) (got : Got) (s : RecvSocket) : Prop where
  start : got.1 = [] → got = ([], none)
  part : got.1 ≠ [] → c.stream = true ∧ c.waitAll = true ∧ c.peek = false ∧
    got.1.length < c.len ∧ got.2 = s.peer

def Accumulates (c : RecvCall) : Prop := c.peek = false ∨ c.waitAll = false ∨ c.len < 2

lemma holds_start : c.Holds ([], none) s := ⟨fun _ => rfl, fun hno => absurd rfl hno⟩

lemma Holds.arrive (h : c.Holds got s) : c.Holds got (s.arrive q) :=
  ⟨h.start, fun hne => by rw [peer_arrive]; exact h.part hne⟩

lemma tryRecv_part (h : c.Holds got s) (hgot : got.1 ≠ []) (hr : s.readable c.stream = false) :
    ∃ s', (s.prepend got.1).tryRecv c.stream c.peek c.len =
        some ({ bytes := got.1, source := got.2 }, s') ∧
      c.incomplete (s.prepend got.1) { bytes := got.1, source := got.2 } = true := by
  obtain ⟨hstream, hall, hpeek, hlt, hsource⟩ := h.part hgot
  rw [hstream] at hr ⊢
  obtain ⟨hended, hbytes⟩ := not_readable_stream.1 hr
  have hsame : (s.prepend got.1).bytes = got.1 := by simp [prepend, hbytes]
  have hread : (s.prepend got.1).readable true = true :=
    readable_stream.2 (Or.inr (by rwa [hsame]))
  have hpeer : (if got.1.isEmpty then none else (s.prepend got.1).peer) = s.peer :=
    if_neg (by simp [hgot])
  rw [tryRecv_stream hread, hsame, List.take_of_length_le hlt.le, hpeer, hsource]
  exact ⟨_, rfl, by simp [incomplete, hall, hlt, prepend, hended]⟩

lemma hostLoop_waits (h : c.Holds got s) (hH : sH.arrive q = s.prepend got.1)
    (hr : s.readable c.stream = false) :
    c.hostLoop none sH (q :: es) = c.hostLoop (some got) (s.prepend got.1) es := by
  rw [hostLoop, hH]
  by_cases hgot : got.1 = []
  · obtain rfl := h.start hgot
    rw [prepend_nil, tryRecv_eq_none.2 hr]
  · obtain ⟨s', htry, hinc⟩ := tryRecv_part h hgot hr
    simp only [htry, hinc, if_true]

lemma recvfromAttempt_wait : c.recvfromAttempt got s = .wait ↔ s.readable c.stream = false := by
  rw [← @tryRecv_eq_none s c.stream c.peek (c.len - got.1.length)]
  unfold recvfromAttempt
  cases s.tryRecv c.stream c.peek (c.len - got.1.length) with
  | none => simp
  | some r =>
    refine iff_of_false ?_ (by simp)
    simp only
    split_ifs <;> simp

lemma hostLoop_first (hH : sH.arrive q = s) (ha : c.recvfromAttempt ([], none) s = .done t s') :
    c.hostLoop none sH (q :: es) = some (.ok t, s', es) := by
  cases htry : s.tryRecv c.stream c.peek c.len with
  | none => simp [recvfromAttempt, htry] at ha
  | some r =>
    obtain ⟨t₀, s₀⟩ := r
    simp only [recvfromAttempt, List.length_nil, Nat.sub_zero, htry, if_true,
      List.nil_append] at ha
    rw [hostLoop, hH, htry]
    have hinc : c.incomplete s t₀ = false := by
      by_contra hno
      simp only [incomplete, Bool.not_eq_false, Bool.and_eq_true, decide_eq_true_eq,
        Bool.not_eq_true'] at hno
      obtain ⟨⟨hall, hlt⟩, hended⟩ := hno
      have hstream : c.stream = true := by simpa [waitAll] using (Bool.and_eq_true _ _ ▸ hall).2
      rw [hstream] at htry
      have hread : s.readable true = true := readable_of_tryRecv htry
      rw [tryRecv_stream hread] at htry
      obtain ⟨rfl, rfl⟩ := Prod.ext_iff.1 (Option.some.inj htry)
      have hbytes : s.bytes ≠ [] := (readable_stream.1 hread).resolve_left (by simp [hended])
      simp only [List.length_take] at hlt
      have htake : s.bytes.take c.len ≠ [] := by
        simp only [ne_eq, List.take_eq_nil_iff, not_or]
        exact ⟨by omega, hbytes⟩
      rw [if_neg htake, if_neg] at ha
      · cases ha
      · simp [hall]
        omega
    simp only [hinc]
    split_ifs at ha <;> cases ha <;> rfl

lemma recvfromAttempt_stream (hstream : c.stream = true) (hr : s.readable true = true) :
    c.recvfromAttempt got s =
      let rest := if c.peek then s else { s with bytes := s.bytes.drop (c.len - got.1.length) }
      let bytes := got.1 ++ s.bytes.take (c.len - got.1.length)
      let source := if got.1 = [] then if s.bytes.isEmpty then none else s.peer else got.2
      if s.bytes.take (c.len - got.1.length) = [] then .done { bytes, source } rest
      else if !c.waitAll || decide (bytes.length = c.len) then .done { bytes, source } rest
      else .again (bytes, source) rest := by
  rw [recvfromAttempt, hstream, tryRecv_stream hr]

lemma hostLoop_last (h : c.Holds got s) (hgot : got.1 ≠ []) (hH : sH.arrive q = s.prepend got.1)
    (ha : c.recvfromAttempt got s = .done t s') :
    c.hostLoop none sH (q :: es) = some (.ok t, s', es) := by
  obtain ⟨hstream, hall, hpeek, hlt, hsource⟩ := h.part hgot
  have hr : s.readable true = true := by
    by_contra hno
    rw [recvfromAttempt_wait.2 (by rw [hstream]; simpa using hno)] at ha
    cases ha
  have hread : (s.prepend got.1).readable true = true :=
    readable_stream.2 (Or.inr (by simp [prepend, hgot]))
  have hpeer : (if (got.1 ++ s.bytes).isEmpty then none else s.peer) = got.2 := by
    rw [hsource]
    exact if_neg (by simp [hgot])
  have htake : (got.1 ++ s.bytes).take c.len = got.1 ++ s.bytes.take (c.len - got.1.length) := by
    rw [List.take_append, List.take_of_length_le hlt.le]
  have hdrop : (got.1 ++ s.bytes).drop c.len = s.bytes.drop (c.len - got.1.length) := by
    rw [List.drop_append, List.drop_of_length_le hlt.le, List.nil_append]
  rw [recvfromAttempt_stream hstream hr] at ha
  simp only [hpeek, hgot, if_false, Bool.false_eq_true] at ha
  -- it is complete, or the stream has ended
  have htry : (s.prepend got.1).tryRecv true c.peek c.len =
      some ({ bytes := got.1 ++ s.bytes.take (c.len - got.1.length), source := got.2 },
        { s with bytes := s.bytes.drop (c.len - got.1.length) }) := by
    rw [tryRecv_stream hread, hpeek]
    change some (Taken.mk ((got.1 ++ s.bytes).take c.len)
      (if (got.1 ++ s.bytes).isEmpty then none else s.peer),
        { s with bytes := (got.1 ++ s.bytes).drop c.len }) = _
    rw [hpeer, htake, hdrop]
  have hinc : c.incomplete (s.prepend got.1)
      { bytes := got.1 ++ s.bytes.take (c.len - got.1.length), source := got.2 } = false := by
    by_cases hnil : s.bytes.take (c.len - got.1.length) = []
    · have hbytes : s.bytes = [] := (List.take_eq_nil_iff.1 hnil).resolve_left (by omega)
      have hended : s.ended = true := (readable_stream.1 hr).resolve_right (by simp [hbytes])
      simp [incomplete, prepend, hended]
    · rw [if_neg hnil] at ha
      split_ifs at ha with hdone
      simp only [hall, Bool.not_true, Bool.false_or, decide_eq_true_eq] at hdone
      simp only [incomplete, hdone, lt_self_iff_false, decide_false, Bool.and_false,
        Bool.false_and]
  rw [hostLoop, hH, hstream, htry]
  simp only [hinc]
  split_ifs at ha <;> cases ha <;> rfl

lemma waitAll_of_again (ha : c.recvfromAttempt got s = .again got' s') :
    c.waitAll = true ∧ c.stream = true := by
  have hall : c.waitAll = true := by
    by_contra hno
    unfold recvfromAttempt at ha
    cases htry : s.tryRecv c.stream c.peek (c.len - got.1.length) with
    | none => simp [htry] at ha
    | some r =>
      simp only [htry] at ha
      split_ifs at ha <;> simp_all
  unfold waitAll at hall
  exact ⟨hall, ((Bool.and_eq_true _ _).mp hall).2⟩

lemma recvfromAttempt_again (hc : c.Accumulates) (h : c.Holds got s)
    (ha : c.recvfromAttempt got s = .again got' s') :
    c.Holds got' s' ∧ s'.prepend got'.1 = s.prepend got.1 ∧ c.stream = true ∧ s'.bytes = [] := by
  obtain ⟨hall, hstream⟩ := waitAll_of_again ha
  have hr : s.readable c.stream = true := by
    by_contra hno
    rw [recvfromAttempt_wait.2 (by simpa using hno)] at ha
    cases ha
  rw [hstream] at hr
  rw [recvfromAttempt_stream hstream hr] at ha
  simp only [hall, Bool.not_true, Bool.false_or, decide_eq_true_eq] at ha
  have hnil : s.bytes.take (c.len - got.1.length) ≠ [] := by
    intro hno
    rw [if_pos hno] at ha
    cases ha
  have hfull : (got.1 ++ s.bytes.take (c.len - got.1.length)).length ≠ c.len := by
    intro hno
    rw [if_neg hnil, if_pos hno] at ha
    cases ha
  rw [if_neg hnil, if_neg hfull] at ha
  have hbytes : s.bytes ≠ [] := fun hno => hnil (by rw [hno, List.take_nil])
  have hlen : (s.bytes.take (c.len - got.1.length)).length =
      min (c.len - got.1.length) s.bytes.length := List.length_take
  have hpos := List.length_pos_iff.2 hnil
  rw [List.length_append] at hfull
  have hsmall : got.1.length + s.bytes.length < c.len := by
    by_cases hgot : got.1 = []
    · simp only [hgot, List.length_nil] at hlen hfull hpos ⊢
      omega
    · have hlt := (h.part hgot).2.2.2.1
      omega
  have hpeek : c.peek = false := by
    rcases hc with hpeek | hno | hshort
    · exact hpeek
    · exact absurd hno (by simp [hall])
    · have := List.length_pos_iff.2 hbytes
      omega
  have htake : s.bytes.take (c.len - got.1.length) = s.bytes :=
    List.take_of_length_le (by omega)
  have hdrop : s.bytes.drop (c.len - got.1.length) = [] := List.drop_of_length_le (by omega)
  simp only [htake, hdrop, hpeek, Bool.false_eq_true, if_false] at ha
  cases ha
  refine ⟨⟨fun hno => ?_, fun _ => ⟨hstream, hall, hpeek, ?_, ?_⟩⟩, ?_⟩
  · exact absurd (List.append_eq_nil_iff.1 hno).2 hbytes
  · rw [List.length_append]
    exact hsmall
  · by_cases hgot : got.1 = []
    · simp [hgot, hbytes]
    · simp only [hgot, if_false]
      exact (h.part hgot).2.2.2.2
  · exact ⟨by simp [prepend], hstream, rfl⟩

/-! ### What a waiting receive returns -/

def hostAt : Phase → Got → Option Got
  | .receive, _   => none
  | .pending, got => some got
  | .polling, _   => none

lemma takeSeen_prepend (h : c.Holds got s) : c.takeSeen got (s.prepend got.1) = s := by
  by_cases hgot : got.1 = []
  · rw [hgot, prepend_nil, takeSeen, hgot]
    simp
  · have hpeek := (h.part hgot).2.2.1
    simp [takeSeen, hpeek, prepend]

/-- A waiting `recvfrom` against the host. While parts are put together the host sleeps, and `q` is
what has come since it last looked. -/
lemma hostLoop_of_waitLoop (hc : c.Accumulates) (events : List (List Arrival)) :
    ∀ (phase : Phase) (got : Got) (s sH : RecvSocket) (q : List Arrival)
      (r : Except RecvError Taken) (s' : RecvSocket) (rest : List (List Arrival)),
      c.Holds got s → (phase ≠ .receive → q = []) → sH.arrive q = s.prepend got.1 →
      c.waitLoop c.recvfromAttempt phase got s events = some (r, s', rest) →
      ∃ used es, used ++ rest.flatten = events.flatten ∧ List.flatten es = q ++ used ∧
        c.hostLoop (hostAt phase got) sH es = some (r, s', []) := by
  induction events with
  | nil =>
    intro phase got s sH q r s' rest _ _ _ hrun
    cases phase <;> cases hrun
  | cons as events ih =>
    intro phase got s sH q r s' rest h hq hH hrun
    have hH' : sH.arrive (q ++ as) = (s.arrive as).prepend got.1 := by
      rw [arrive_append, hH, arrive_prepend]
    have h' : c.Holds got (s.arrive as) := h.arrive
    cases phase with
    | receive =>
      rw [waitLoop] at hrun
      cases ha : c.recvfromAttempt got (s.arrive as) with
      | done t s₁ =>
        simp only [ha, Option.some.injEq, Prod.mk.injEq] at hrun
        obtain ⟨rfl, rfl, rfl⟩ := hrun
        refine ⟨as, [q ++ as], rfl, by simp, ?_⟩
        by_cases hgot : got.1 = []
        · obtain rfl := h'.start hgot
          exact hostLoop_first hH' ha
        · exact hostLoop_last h' hgot hH' ha
      | again got₁ s₁ =>
        simp only [ha] at hrun
        obtain ⟨h₁, hsame, -⟩ := recvfromAttempt_again hc h' ha
        obtain ⟨used, es, hused, hes, hhost⟩ := ih .receive got₁ s₁ sH (q ++ as) r s' rest h₁
          (fun hno => absurd rfl hno) (hH'.trans hsame.symm) hrun
        exact ⟨as ++ used, es, by simp [hused], by simp [hes], hhost⟩
      | wait =>
        simp only [ha] at hrun
        obtain ⟨used, es, hused, hes, hhost⟩ := ih .pending got (s.arrive as)
          ((s.arrive as).prepend got.1) [] r s' rest h' (fun _ => rfl) rfl hrun
        refine ⟨as ++ used, (q ++ as) :: es, by simp [hused], by simp [hes], ?_⟩
        exact (hostLoop_waits h' hH' (recvfromAttempt_wait.1 ha)).trans hhost
    | pending =>
      obtain rfl := hq (by simp)
      rw [waitLoop] at hrun
      split_ifs at hrun with hsignal
      · simp only [Option.some.injEq, Prod.mk.injEq] at hrun
        obtain ⟨rfl, rfl, rfl⟩ := hrun
        refine ⟨as, [as], rfl, by simp, ?_⟩
        change (if (sH.arrive as).signal = true then _ else _) = _
        rw [show sH.arrive as = _ from hH', takeSeen_prepend h']
        exact if_pos hsignal
      · obtain ⟨used, es, hused, hes, hhost⟩ := ih .polling got (s.arrive as)
          ((s.arrive as).prepend got.1) [] r s' rest h' (fun _ => rfl) rfl hrun
        refine ⟨as ++ used, as :: es, by simp [hused], by simp [hes], ?_⟩
        change (if (sH.arrive as).signal = true then _ else _) = _
        rw [show sH.arrive as = _ from hH']
        exact (if_neg hsignal).trans hhost
    | polling =>
      obtain rfl := hq (by simp)
      rw [waitLoop] at hrun
      split_ifs at hrun with hread
      · obtain ⟨used, es, hused, hes, hhost⟩ := ih .receive got (s.arrive as) sH as r s' rest h'
          (fun hno => absurd rfl hno) hH' hrun
        exact ⟨as ++ used, es, by simp [hused], by simp [hes], hhost⟩
      · obtain ⟨used, es, hused, hes, hhost⟩ := ih .pending got (s.arrive as)
          ((s.arrive as).prepend got.1) [] r s' rest h' (fun _ => rfl) rfl hrun
        refine ⟨as ++ used, as :: es, by simp [hused], by simp [hes], ?_⟩
        exact (hostLoop_waits h' hH' (by simpa using hread)).trans hhost

/-! ### When a receive returns -/

/-- A step of `hostLoop` after the events that come before it: the end, or how it goes on. -/
def hostStep (c : RecvCall) (st : Option Got) (s : RecvSocket) :
    (Except RecvError Taken × RecvSocket) ⊕ Option Got :=
  match st with
  | none =>
    match s.tryRecv c.stream c.peek c.len with
    | none         => .inr (some ([], none))
    | some (t, s') =>
      if c.incomplete s t then .inr (some (t.bytes, t.source)) else .inl (.ok t, s')
  | some seen =>
    if s.signal then .inl (interrupted seen, c.takeSeen seen s) else .inr none

lemma hostLoop_cons {st : Option Got} {as : List Arrival} :
    c.hostLoop st s (as :: es) =
      match c.hostStep st (s.arrive as) with
      | .inl (r, s') => some (r, s', es)
      | .inr st'     => c.hostLoop st' (s.arrive as) es := by
  cases st with
  | none =>
    rw [hostLoop, hostStep]
    cases (s.arrive as).tryRecv c.stream c.peek c.len with
    | none => rfl
    | some taken =>
      simp only
      split_ifs <;> rfl
  | some seen =>
    rw [hostLoop, hostStep]
    split_ifs <;> rfl

def Ready (c : RecvCall) (s : RecvSocket) : Prop :=
  s.signal = true ∨ ∃ t s', s.tryRecv c.stream c.peek c.len = some (t, s') ∧
    c.incomplete s t = false

lemma ready_of_hostStep {st : Option Got} {r : Except RecvError Taken × RecvSocket}
    (hstep : c.hostStep st s = .inl r) : c.Ready s := by
  cases st with
  | none =>
    rw [hostStep] at hstep
    cases htry : s.tryRecv c.stream c.peek c.len with
    | none => simp [htry] at hstep
    | some taken =>
      simp only [htry] at hstep
      split_ifs at hstep with hinc
      exact Or.inr ⟨taken.1, taken.2, htry, by simpa using hinc⟩
  | some seen =>
    rw [hostStep] at hstep
    split_ifs at hstep with hsignal
    exact Or.inl hsignal

lemma ready_of_hostLoop (es : List (List Arrival)) :
    ∀ (st : Option Got) (s : RecvSocket) (r : Except RecvError Taken) (s' : RecvSocket),
      c.hostLoop st s es = some (r, s', []) → c.Ready (s.arrive es.flatten) := by
  induction es with
  | nil =>
    intro st s r s' hrun
    cases st <;> cases hrun
  | cons as es ih =>
    intro st s r s' hrun
    rw [hostLoop_cons] at hrun
    rw [List.flatten_cons, arrive_append]
    cases hstep : c.hostStep st (s.arrive as) with
    | inl r₀ =>
      simp only [hstep, Option.some.injEq, Prod.mk.injEq] at hrun
      obtain ⟨-, -, rfl⟩ := hrun
      exact ready_of_hostStep hstep
    | inr st' =>
      simp only [hstep] at hrun
      exact ih _ _ _ _ hrun

lemma signal_of_ready (h : c.Holds got s) (hready : c.Ready (s.prepend got.1))
    (hr : s.readable c.stream = false) : s.signal = true := by
  rcases hready with hsignal | ⟨t, s', htry, hinc⟩
  · exact hsignal
  · by_cases hgot : got.1 = []
    · rw [hgot, prepend_nil, tryRecv_eq_none.2 hr] at htry
      cases htry
    · obtain ⟨s₁, htry₁, hwaits⟩ := tryRecv_part h hgot hr
      obtain ⟨rfl, -⟩ := Prod.ext_iff.1 (Option.some.inj (htry.symm.trans htry₁))
      rw [hwaits] at hinc
      cases hinc

lemma waitLoop_idle (hc : c.Accumulates) (phase : Phase) (h : c.Holds got s)
    (hready : c.Ready (s.prepend got.1)) :
    ∃ k, (c.waitLoop c.recvfromAttempt phase got s (List.replicate k [])).isSome = true := by
  -- with nothing to read there is a signal
  have hpending : ∀ {got : Got} {s : RecvSocket}, s.signal = true →
      (c.waitLoop c.recvfromAttempt .pending got s [[]]).isSome = true := by
    intro got s hsignal
    rw [waitLoop, arrive_nil, if_pos hsignal]
    rfl
  have hempty : ∀ {got : Got} {s : RecvSocket}, c.Holds got s → c.Ready (s.prepend got.1) →
      c.recvfromAttempt got s = .wait →
      (c.waitLoop c.recvfromAttempt .receive got s [[], []]).isSome = true := by
    intro got s h hready ha
    simp only [waitLoop, arrive_nil, ha]
    exact hpending (signal_of_ready h hready (recvfromAttempt_wait.1 ha))
  have hreceive : ∃ k, (c.waitLoop c.recvfromAttempt .receive got s
      (List.replicate k [])).isSome = true := by
    cases ha : c.recvfromAttempt got s with
    | done t s₁ => exact ⟨1, by simp [waitLoop, ha]⟩
    | wait => exact ⟨2, hempty h hready ha⟩
    | again got₁ s₁ =>
      obtain ⟨h₁, hsame, hstream, hbytes⟩ := recvfromAttempt_again hc h ha
      cases ha₁ : c.recvfromAttempt got₁ s₁ with
      | done t s₂ => exact ⟨2, by simp [List.replicate, waitLoop, ha, ha₁]⟩
      | wait =>
        refine ⟨3, ?_⟩
        have hrest := hempty h₁ (hsame ▸ hready) ha₁
        simpa only [List.replicate, waitLoop, arrive_nil, ha] using hrest
      | again got₂ s₂ =>
        have hr : s₁.readable true = true := by
          by_contra hno
          rw [recvfromAttempt_wait.2 (by rw [hstream]; simpa using hno)] at ha₁
          cases ha₁
        rw [recvfromAttempt_stream hstream hr, hbytes, List.take_nil] at ha₁
        simp at ha₁
  have hpolling : ∃ k, (c.waitLoop c.recvfromAttempt .polling got s
      (List.replicate k [])).isSome = true := by
    by_cases hr : s.readable c.stream = true
    · obtain ⟨k, hk⟩ := hreceive
      refine ⟨k + 1, ?_⟩
      rw [List.replicate_succ, waitLoop, arrive_nil, if_pos hr]
      exact hk
    · refine ⟨2, ?_⟩
      change (c.waitLoop c.recvfromAttempt .polling got s [[], []]).isSome = true
      rw [waitLoop, arrive_nil, if_neg hr]
      exact hpending (signal_of_ready h hready (by simpa using hr))
  cases phase with
  | receive => exact hreceive
  | polling => exact hpolling
  | pending =>
    by_cases hsignal : s.signal = true
    · exact ⟨1, hpending hsignal⟩
    · obtain ⟨k, hk⟩ := hpolling
      refine ⟨k + 1, ?_⟩
      rw [List.replicate_succ, waitLoop, arrive_nil, if_neg hsignal]
      exact hk

lemma waitLoop_returns (hc : c.Accumulates) (events : List (List Arrival)) :
    ∀ (phase : Phase) (got : Got) (s : RecvSocket), c.Holds got s →
      c.Ready ((s.prepend got.1).arrive events.flatten) →
      ∃ k, (c.waitLoop c.recvfromAttempt phase got s
        (events ++ List.replicate k [])).isSome = true := by
  induction events with
  | nil =>
    intro phase got s h hready
    exact waitLoop_idle hc phase h hready
  | cons as events ih =>
    intro phase got s h hready
    rw [List.flatten_cons, arrive_append, arrive_prepend] at hready
    have h' : c.Holds got (s.arrive as) := h.arrive
    cases phase with
    | receive =>
      cases ha : c.recvfromAttempt got (s.arrive as) with
      | done t s₁ => exact ⟨0, by simp [waitLoop, ha]⟩
      | again got₁ s₁ =>
        obtain ⟨h₁, hsame, -⟩ := recvfromAttempt_again hc h' ha
        obtain ⟨k, hk⟩ := ih .receive got₁ s₁ h₁ (hsame ▸ hready)
        exact ⟨k, by simpa only [List.cons_append, waitLoop, ha] using hk⟩
      | wait =>
        obtain ⟨k, hk⟩ := ih .pending got _ h' hready
        exact ⟨k, by simpa only [List.cons_append, waitLoop, ha] using hk⟩
    | pending =>
      by_cases hsignal : (s.arrive as).signal = true
      · exact ⟨0, by simp [waitLoop, hsignal]⟩
      · obtain ⟨k, hk⟩ := ih .polling got _ h' hready
        refine ⟨k, ?_⟩
        rw [List.cons_append, waitLoop, if_neg hsignal]
        exact hk
    | polling =>
      by_cases hr : (s.arrive as).readable c.stream = true
      · obtain ⟨k, hk⟩ := ih .receive got _ h' hready
        refine ⟨k, ?_⟩
        rw [List.cons_append, waitLoop, if_pos hr]
        exact hk
      · obtain ⟨k, hk⟩ := ih .pending got _ h' hready
        refine ⟨k, ?_⟩
        rw [List.cons_append, waitLoop, if_neg hr]
        exact hk

/-! ### A call that is one receive of the host -/

lemma hostLoop_prefix (es : List (List Arrival)) :
    ∀ (st : Option Got) (s : RecvSocket) (r : Except RecvError Taken) (s' : RecvSocket)
      (rest : List (List Arrival)), c.hostLoop st s es = some (r, s', rest) →
      ∃ front, front ++ rest = es ∧ c.hostLoop st s front = some (r, s', []) := by
  induction es with
  | nil =>
    intro st s r s' rest hrun
    cases st <;> cases hrun
  | cons as es ih =>
    intro st s r s' rest hrun
    rw [hostLoop_cons] at hrun
    cases hstep : c.hostStep st (s.arrive as) with
    | inl r₀ =>
      simp only [hstep, Option.some.injEq, Prod.mk.injEq] at hrun
      obtain ⟨rfl, rfl, rfl⟩ := hrun
      exact ⟨[as], rfl, by simp only [hostLoop_cons, hstep]⟩
    | inr st' =>
      simp only [hstep] at hrun
      obtain ⟨front, rfl, hrun'⟩ := ih _ _ _ _ _ hrun
      exact ⟨as :: front, rfl, by simp only [hostLoop_cons, hstep, hrun']⟩

lemma hostRecv_now {as : List Arrival} (hnow : (c.dontwait || c.hostNonblock) = true) :
    c.hostRecv s (as :: es) =
      match (s.arrive as).tryRecv c.stream c.peek c.len with
      | none         => some (.error .eagain, s.arrive as, es)
      | some (t, s') => some (.ok t, s', es) := if_pos hnow

lemma hostRecv_waits (hnow : ¬ (c.dontwait || c.hostNonblock) = true) :
    c.hostRecv s es = c.hostLoop none s es := if_neg hnow

lemma hostRecv_sound {events rest : List (List Arrival)} {r : Except RecvError Taken}
    (hrun : c.hostRecv s events = some (r, s', rest)) :
    ∃ used, used ++ rest.flatten = events.flatten ∧ c.HostReceives s used r s' := by
  by_cases hnow : (c.dontwait || c.hostNonblock) = true
  · cases events with
    | nil => simp [hostRecv, hnow] at hrun
    | cons as events =>
      rw [hostRecv_now hnow] at hrun
      refine ⟨as, ?_, [as], by simp, ?_⟩
      · cases htry : (s.arrive as).tryRecv c.stream c.peek c.len <;> simp_all
      · rw [hostRecv_now hnow]
        cases htry : (s.arrive as).tryRecv c.stream c.peek c.len <;> simp_all
  · rw [hostRecv_waits hnow] at hrun
    obtain ⟨front, rfl, hrun'⟩ := hostLoop_prefix _ _ _ _ _ _ hrun
    exact ⟨front.flatten, by simp, front, rfl, by rw [hostRecv_waits hnow, hrun']⟩

lemma hostLoop_idle {st : Option Got} (hready : c.Ready s) :
    ∃ k, (c.hostLoop st s (List.replicate k [])).isSome = true := by
  have hnone : ∃ k, (c.hostLoop none s (List.replicate k [])).isSome = true := by
    cases hstep : c.hostStep none s with
    | inl r => exact ⟨1, by simp [hostLoop_cons, hstep]⟩
    | inr st' =>
      -- there is a signal, and the next step finds it
      have hsignal : s.signal = true := by
        refine hready.resolve_right ?_
        rintro ⟨t, s', htry, hinc⟩
        simp [hostStep, htry, hinc] at hstep
      obtain ⟨seen, rfl⟩ : ∃ seen, st' = some seen := by
        simp only [hostStep] at hstep
        split at hstep
        · exact ⟨_, (Sum.inr.inj hstep).symm⟩
        · split_ifs at hstep
          exact ⟨_, (Sum.inr.inj hstep).symm⟩
      have hfound : c.hostStep (some seen) s = .inl (interrupted seen, c.takeSeen seen s) :=
        if_pos hsignal
      exact ⟨2, by simp [List.replicate, hostLoop_cons, hstep, hfound]⟩
  cases st with
  | none => exact hnone
  | some seen =>
    by_cases hsignal : s.signal = true
    · exact ⟨1, by simp [hostLoop_cons, hostStep, hsignal]⟩
    · obtain ⟨k, hk⟩ := hnone
      refine ⟨k + 1, ?_⟩
      rw [List.replicate_succ, hostLoop_cons, arrive_nil, hostStep, if_neg hsignal]
      exact hk

lemma hostLoop_returns (events : List (List Arrival)) :
    ∀ (st : Option Got) (s : RecvSocket), c.Ready (s.arrive events.flatten) →
      ∃ k, (c.hostLoop st s (events ++ List.replicate k [])).isSome = true := by
  induction events with
  | nil =>
    intro st s hready
    exact hostLoop_idle hready
  | cons as events ih =>
    intro st s hready
    rw [List.flatten_cons, arrive_append] at hready
    cases hstep : c.hostStep st (s.arrive as) with
    | inl r => exact ⟨0, by simp [hostLoop_cons, hstep]⟩
    | inr st' =>
      obtain ⟨k, hk⟩ := ih st' _ hready
      exact ⟨k, by simpa only [List.cons_append, hostLoop_cons, hstep] using hk⟩

lemma HostReceives.ready {used : List Arrival} {r : Except RecvError Taken}
    (hnow : ¬ (c.dontwait || c.hostNonblock) = true) (h : c.HostReceives s used r s') :
    c.Ready (s.arrive used) := by
  obtain ⟨es, rfl, hrun⟩ := h
  rw [hostRecv_waits hnow] at hrun
  exact ready_of_hostLoop es none s r s' hrun

lemma hostRecv_returns {events : List (List Arrival)} {r : Except RecvError Taken}
    (h : c.HostReceives s events.flatten r s') :
    ∃ k, (c.hostRecv s (events ++ List.replicate k [])).isSome = true := by
  by_cases hnow : (c.dontwait || c.hostNonblock) = true
  · obtain ⟨as, rest, hcons⟩ : ∃ as rest, events ++ List.replicate 1 [] = as :: rest :=
      List.exists_cons_of_ne_nil (by simp)
    refine ⟨1, ?_⟩
    rw [hcons, hostRecv_now hnow]
    cases (s.arrive as).tryRecv c.stream c.peek c.len <;> rfl
  · obtain ⟨k, hk⟩ := hostLoop_returns events none s (h.ready hnow)
    exact ⟨k, by rw [hostRecv_waits hnow]; exact hk⟩

end RecvCall

end ShellBox
