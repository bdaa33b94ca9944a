import ShellBox.Fs.ReceiveParts

/-!
# When a receive agrees with the host

What a call has received is delivered with an address. The two system calls are compared with one
receive of the host, for all events that come to the socket meanwhile.
-/

namespace ShellBox

namespace RecvCall

open RecvSocket

variable {c : RecvCall} {got got' : Got} {s s' sH : RecvSocket} {q : List Arrival}
  {es : List (List Arrival)} {t : Taken}

/-! ### The addresses -/

section Names

variable {guestLen n : ℕ} {a : PeerAddr} {buffer : SockaddrMax} {name : Option ℕ}

lemma forGuest_length_le : (forGuest a).length ≤ 110 := by
  have hshort := a.short
  unfold forGuest
  split_ifs
  · decide
  · simp only [List.length_cons]
    omega

lemma sockaddrWrite_fill : sockaddrWrite (buffer.fill (some a)) n (addrLen (some a)) =
    .ok (guestName n (some a)) := by
  obtain ⟨family, data, hknown, hshort⟩ := a
  have hcut : ∀ x : UInt8, (x :: 0 :: (data ++ buffer.data.drop data.length)).take
      (min n (data.length + 2)) = (x :: 0 :: data).take n := by
    intro x
    have hlen : (x :: 0 :: data).length = data.length + 2 := rfl
    rw [← List.cons_append, ← List.cons_append, ← hlen, List.take_append_of_le_length
      (min_le_right _ _), ← List.take_eq_take_min]
  cases family with
  | afLocal =>
    have hlen : unixDomainNull.length = 16 := rfl
    have hnull : unixDomainNull.take (min n 16) = unixDomainNull.take n := by
      rw [List.take_eq_take_min (i := n), hlen]
    change Except.ok (unixDomainNull.take (min n 16), 16) = Except.ok (unixDomainNull.take n, _)
    rw [hnull]
    rfl
  | afInet => exact congrArg (fun bytes => Except.ok (bytes, data.length + 2)) (hcut 2)
  | afInet6 => exact congrArg (fun bytes => Except.ok (bytes, data.length + 2)) (hcut 10)
  | unspec => cases hknown
  | other => cases hknown

lemma recvfromName_eq (source : Option PeerAddr) :
    recvfromName guestLen source = .ok (guestName guestLen source) := by
  cases source with
  | none => rfl
  | some a =>
    have hfamily : (SockaddrMax.zero.fill (some a)).family ≠ .unspec := by
      intro hno
      have hknown := a.known
      rw [show a.family = _ from hno] at hknown
      cases hknown
    rw [recvfromName, if_pos ⟨Nat.succ_pos _, hfamily⟩, sockaddrWrite_fill]

lemma recvmsgName_some : recvmsgName buffer guestLen (some a) =
    .ok (guestName guestLen (some a)) := by
  rw [recvmsgName, sockaddrWrite_fill]
  simp only [guestName]
  rw [List.take_eq_take_min (i := guestLen), List.take_eq_take_min (i := min guestLen 110)]
  have hle := forGuest_length_le (a := a)
  rw [show min (min guestLen 110) (forGuest a).length = min guestLen (forGuest a).length by omega]

lemma deliver_eq {writeName : ℕ → Option PeerAddr → Except RecvError GuestName}
    {r : Except RecvError Taken}
    (hwrite : ∀ t guestLen, r = .ok t → name = some guestLen →
      writeName guestLen t.source = .ok (guestName guestLen t.source)) :
    deliver writeName name r = guestView name r := by
  cases r with
  | error e => rfl
  | ok t =>
    cases name with
    | none => rfl
    | some guestLen =>
      change (do let n ← writeName guestLen t.source; Except.ok (t.bytes, some n)) = _
      rw [hwrite t guestLen rfl rfl]
      rfl

end Names

/-! ### Where the host always reports an address -/

structure Named (s : RecvSocket) : Prop where
  peer : s.peer ≠ none
  datagrams : ∀ d ∈ s.datagrams, d.source ≠ none
  goesOn : s.ended = false

section Sources

variable {p : Peers}

lemma Named.arrive (hends : p.ends = false) (hnone : none ∉ p.sources) {as : List Arrival}
    (hs : Named s) (has : ∀ e ∈ as, p.AllowsEvent e) : Named (s.arrive as) := by
  induction as generalizing s with
  | nil => exact hs
  | cons a as ih =>
    refine ih ?_ fun e he => has e (List.mem_cons_of_mem _ he)
    have ha := has a List.mem_cons_self
    cases a with
    | data bytes => exact ⟨hs.peer, hs.datagrams, hs.goesOn⟩
    | datagram d =>
      refine ⟨hs.peer, fun d' hd' => ?_, hs.goesOn⟩
      rcases List.mem_append.1 hd' with hold | hnew
      · exact hs.datagrams d' hold
      · rw [List.mem_singleton.1 hnew]
        exact fun hno => hnone (hno ▸ ha)
    | ended => exact absurd (hends.symm.trans ha) Bool.false_ne_true
    | signal => exact ⟨hs.peer, hs.datagrams, hs.goesOn⟩

lemma Named.tryRecv (hs : Named s) {taken : Taken × RecvSocket}
    (htry : s.tryRecv c.stream c.peek c.len = some taken) : taken.1.source ≠ none := by
  have hread : s.readable c.stream = true := readable_of_tryRecv htry
  cases hstream : c.stream with
  | true =>
    rw [hstream] at htry hread
    have hbytes := (readable_stream.1 hread).resolve_left (by simp [hs.goesOn])
    rw [tryRecv_stream hread, if_neg (by simp [hbytes] : ¬ s.bytes.isEmpty = true)] at htry
    obtain rfl := Option.some.inj htry
    exact hs.peer
  | false =>
    rw [hstream] at htry hread
    rw [RecvSocket.tryRecv, if_pos hread, if_neg Bool.false_ne_true] at htry
    cases hd : s.datagrams with
    | nil => simp [readable, hs.goesOn, hd] at hread
    | cons d ds =>
      simp only [hd] at htry
      obtain rfl := Option.some.inj htry
      exact hs.datagrams d (by simp [hd])

lemma Named.hostStep (hs : Named s) {st : Option Got}
    (hst : ∀ seen, st = some seen → seen.1 = [] ∨ seen.2 ≠ none) :
    (∀ t s', c.hostStep st s = .inl (.ok t, s') → t.source ≠ none) ∧
      ∀ seen, c.hostStep st s = .inr (some seen) → seen.1 = [] ∨ seen.2 ≠ none := by
  cases st with
  | none =>
    rw [RecvCall.hostStep]
    cases htry : s.tryRecv c.stream c.peek c.len with
    | none =>
      refine ⟨fun t s' hend => (by cases hend), fun seen hgo => ?_⟩
      cases hgo
      exact Or.inl rfl
    | some taken =>
      have hsource := hs.tryRecv htry
      simp only
      split_ifs
      · refine ⟨fun t s' hend => (by cases hend), fun seen hgo => ?_⟩
        cases hgo
        exact Or.inr hsource
      · refine ⟨fun t s' hend => ?_, fun seen hgo => (by cases hgo)⟩
        cases hend
        exact hsource
  | some seen =>
    rw [RecvCall.hostStep]
    refine ⟨fun t s' hend => ?_, fun seen hgo => ?_⟩
    · split_ifs at hend
      have hresult := (Prod.ext_iff.1 (Sum.inl.inj hend)).1
      simp only [interrupted] at hresult
      split_ifs at hresult with hnil
      cases hresult
      exact (hst seen rfl).resolve_left hnil
    · split_ifs at hgo
      cases hgo

lemma Named.hostLoop (hends : p.ends = false) (hnone : none ∉ p.sources)
    (es : List (List Arrival)) :
    ∀ (st : Option Got) (s : RecvSocket) (t : Taken) (s' : RecvSocket)
      (rest : List (List Arrival)), Named s → (∀ as ∈ es, ∀ e ∈ as, p.AllowsEvent e) →
      (∀ seen, st = some seen → seen.1 = [] ∨ seen.2 ≠ none) →
      c.hostLoop st s es = some (.ok t, s', rest) → t.source ≠ none := by
  induction es with
  | nil =>
    intro st s t s' rest _ _ _ hrun
    cases st <;> cases hrun
  | cons as es ih =>
    intro st s t s' rest hs hes hst hrun
    have hs' : Named (s.arrive as) := hs.arrive hends hnone (hes as List.mem_cons_self)
    obtain ⟨hend, hgo⟩ := hs'.hostStep (c := c) hst
    rw [hostLoop_cons] at hrun
    cases hstep : c.hostStep st (s.arrive as) with
    | inl r₀ =>
      obtain ⟨r, s₀⟩ := r₀
      simp only [hstep, Option.some.injEq, Prod.mk.injEq] at hrun
      obtain ⟨rfl, -, -⟩ := hrun
      exact hend t s₀ hstep
    | inr st' =>
      simp only [hstep] at hrun
      exact ih _ _ _ _ _ hs' (fun as has => hes as (List.mem_cons_of_mem _ has))
        (fun seen hseen => hgo seen (by rw [hstep, hseen])) hrun

lemma HostReceives.source (hends : p.ends = false) (hnone : none ∉ p.sources)
    {used : List Arrival} (hs : p.Allows s) (hused : ∀ e ∈ used, p.AllowsEvent e)
    (h : c.HostReceives s used (.ok t) s') : t.source ≠ none := by
  have hnamed : Named s := by
    refine ⟨fun hno => hnone (hno ▸ hs.peer), fun d hd hno => hnone (hno ▸ hs.datagrams d hd), ?_⟩
    by_contra hno
    exact absurd (hends.symm.trans (hs.ended (by simpa using hno))) Bool.false_ne_true
  obtain ⟨es, rfl, hrun⟩ := h
  have hes : ∀ as ∈ es, ∀ e ∈ as, p.AllowsEvent e := fun as has e he =>
    hused e (List.mem_flatten_of_mem has he)
  by_cases hnow : (c.dontwait || c.hostNonblock) = true
  · cases es with
    | nil => simp [hostRecv, hnow] at hrun
    | cons as es =>
      rw [hostRecv_now hnow] at hrun
      cases htry : (s.arrive as).tryRecv c.stream c.peek c.len with
      | none => simp [htry] at hrun
      | some taken =>
        simp only [htry, Option.some.injEq, Prod.mk.injEq, Except.ok.injEq] at hrun
        exact hrun.1 ▸ (hnamed.arrive hends hnone (hes as List.mem_cons_self)).tryRecv htry
  · rw [hostRecv_waits hnow] at hrun
    exact Named.hostLoop hends hnone es none s t s' [] hnamed hes (fun _ h => by cases h) hrun

end Sources

/-! ### The calls -/

lemma length_of_tryRecv {taken : Taken × RecvSocket} (hstream : c.stream = true)
    (htry : s.tryRecv c.stream c.peek c.len = some taken) : taken.1.bytes.length ≤ c.len := by
  have hread : s.readable c.stream = true := readable_of_tryRecv htry
  rw [hstream] at htry hread
  rw [tryRecv_stream hread] at htry
  obtain rfl := Option.some.inj htry
  exact List.length_take_le _ _

lemma waitLoop_recvmsg (hc : c.waitAll = false ∨ c.len < 2) (events : List (List Arrival)) :
    ∀ (phase : Phase) (s : RecvSocket),
      c.waitLoop c.recvmsgAttempt phase ([], none) s events =
        c.waitLoop c.recvfromAttempt phase ([], none) s events := by
  have hattempt : ∀ s, c.recvmsgAttempt ([], none) s = c.recvfromAttempt ([], none) s := by
    intro s
    simp only [recvmsgAttempt, recvfromAttempt, List.length_nil, Nat.sub_zero, if_true,
      List.nil_append]
    cases htry : s.tryRecv c.stream c.peek c.len with
    | none => rfl
    | some taken =>
      simp only
      by_cases hnil : taken.1.bytes = []
      · rw [if_pos hnil]
      · rw [if_neg hnil, if_pos]
        by_cases hall : c.waitAll = true
        · have hlt : c.len < 2 := hc.resolve_left (by simp [hall])
          have hlen := length_of_tryRecv ((Bool.and_eq_true _ _).mp hall).2 htry
          have hpos := List.length_pos_iff.2 hnil
          simp only [hall, Bool.not_true, Bool.false_or, decide_eq_true_eq]
          omega
        · simp [hall]
  induction events with
  | nil =>
    intro phase s
    cases phase <;> rfl
  | cons as events ih =>
    intro phase s
    cases phase with
    | receive =>
      simp only [waitLoop, hattempt]
      cases ha : c.recvfromAttempt ([], none) (s.arrive as) with
      | done t s' => rfl
      | again got' s' =>
        rw [← hattempt, recvmsgAttempt] at ha
        split at ha <;> cases ha
      | wait => exact ih .pending _
    | pending => simp only [waitLoop, ih]
    | polling => simp only [waitLoop, ih]

section Agrees

variable {p : Peers} {name : Option ℕ}

lemma agrees_of_received
    {received : RecvSocket → List (List Arrival) →
      Option (Except RecvError Taken × RecvSocket × List (List Arrival))}
    {writeName : ℕ → Option PeerAddr → Except RecvError GuestName}
    (hsound : ∀ s events r s' rest, received s events = some (r, s', rest) →
      ∃ used, used ++ rest.flatten = events.flatten ∧ c.HostReceives s used r s')
    (hreturns : ∀ s events r s', c.HostReceives s events.flatten r s' →
      ∃ k, (received s (events ++ List.replicate k [])).isSome = true)
    (hname : ∀ s used t s' guestLen, p.Allows s → (∀ e ∈ used, p.AllowsEvent e) →
      c.HostReceives s used (.ok t) s' → name = some guestLen →
      writeName guestLen t.source = .ok (guestName guestLen t.source)) :
    c.Agrees p name fun s events =>
      (received s events).map fun r => (deliver writeName name r.1, r.2) := by
  constructor
  · intro s events r s' rest hs hevents hcall
    obtain ⟨⟨r₀, s₁, rest₁⟩, hrun, heq⟩ := Option.map_eq_some_iff.1 hcall
    simp only [Prod.mk.injEq] at heq
    obtain ⟨rfl, rfl, rfl⟩ := heq
    obtain ⟨used, hused, hhost⟩ := hsound _ _ _ _ _ hrun
    refine ⟨used, r₀, hused, hhost, deliver_eq fun t guestLen hr => ?_⟩
    subst hr
    refine hname s used t s₁ guestLen hs (fun e he => ?_) hhost
    have hin : e ∈ events.flatten := hused ▸ List.mem_append_left _ he
    obtain ⟨as, has, hea⟩ := List.mem_flatten.1 hin
    exact hevents as has e hea
  · intro s events r₀ s₀ _ hhost
    obtain ⟨k, hk⟩ := hreturns s events r₀ s₀ hhost
    exact ⟨k, by rwa [Option.isSome_map]⟩

lemma not_now (hwait : c.shouldWait = true) : ¬ (c.dontwait || c.hostNonblock) = true := by
  simp only [shouldWait, Bool.and_eq_true, Bool.not_eq_true'] at hwait
  simp [hwait.1.1, hwait.2]

lemma recvfrom_received (hc : c.shouldWait = true → c.Accumulates) :
    (∀ s events r s' rest,
      (if c.shouldWait then c.waitLoop c.recvfromAttempt .receive ([], none) s events
        else c.hostRecv s events) = some (r, s', rest) →
      ∃ used, used ++ rest.flatten = events.flatten ∧ c.HostReceives s used r s') ∧
    (∀ s events r s', c.HostReceives s events.flatten r s' →
      ∃ k, (if c.shouldWait then
          c.waitLoop c.recvfromAttempt .receive ([], none) s (events ++ List.replicate k [])
        else c.hostRecv s (events ++ List.replicate k [])).isSome = true) := by
  by_cases hwait : c.shouldWait = true
  · simp only [if_pos hwait]
    constructor
    · intro s events r s' rest hrun
      obtain ⟨used, es, hused, hes, hhost⟩ := hostLoop_of_waitLoop (hc hwait) events .receive
        ([], none) s s [] r s' rest holds_start (fun _ => rfl) rfl hrun
      exact ⟨used, hused, es, hes, by rw [hostRecv_waits (not_now hwait)]; exact hhost⟩
    · intro s events r s' hhost
      exact waitLoop_returns (hc hwait) events .receive ([], none) s holds_start
        (hhost.ready (not_now hwait))
  · simp only [if_neg hwait]
    exact ⟨fun s events r s' rest => hostRecv_sound, fun s events r s' => hostRecv_returns⟩

lemma sysRecvfrom_agrees (hc : c.shouldWait = true → c.Accumulates) :
    c.Agrees p name (c.sysRecvfrom name) := by
  obtain ⟨hsound, hreturns⟩ := recvfrom_received hc
  exact agrees_of_received hsound hreturns fun _ _ t _ _ _ _ _ _ => recvfromName_eq t.source

lemma sysRecvmsg_agrees (hc : c.shouldWait = true → c.waitAll = false ∨ c.len < 2)
    (hname : name.isSome = true → p.ends = false ∧ none ∉ p.sources) (buffer : SockaddrMax) :
    c.Agrees p name (c.sysRecvmsg buffer name) := by
  have hsame : ∀ s events, (if c.shouldWait then
        c.waitLoop c.recvmsgAttempt .receive ([], none) s events
      else c.hostRecv s events) =
      if c.shouldWait then c.waitLoop c.recvfromAttempt .receive ([], none) s events
      else c.hostRecv s events := by
    intro s events
    by_cases hwait : c.shouldWait = true
    · rw [if_pos hwait, if_pos hwait, waitLoop_recvmsg (hc hwait)]
    · rw [if_neg hwait, if_neg hwait]
  obtain ⟨hsound, hreturns⟩ := recvfrom_received fun hwait => Or.inr (hc hwait)
  refine agrees_of_received (fun s events r s' rest hrun => ?_) (fun s events r s' hhost => ?_)
    fun s used t s' guestLen hs hused hhost hn => ?_
  · exact hsound s events r s' rest (hsame s events ▸ hrun)
  · obtain ⟨k, hk⟩ := hreturns s events r s' hhost
    exact ⟨k, by rw [hsame]; exact hk⟩
  · obtain ⟨hends, hnone⟩ := hname (by rw [hn]; rfl)
    obtain ⟨a, ha⟩ := Option.ne_none_iff_exists'.1 (hhost.source hends hnone hs hused)
    rw [ha]
    exact recvmsgName_some

/-! ### Where the calls do not agree -/

def someBytes (n : ℕ) (peer : Option PeerAddr) : RecvSocket where
  bytes := List.replicate n 7
  peer := peer
  datagrams := []
  ended := false
  signal := false

lemma allows_someBytes {n : ℕ} {peer : Option PeerAddr} (hpeer : peer ∈ p.sources) :
    p.Allows (someBytes n peer) :=
  ⟨hpeer, fun _ hd => absurd hd List.not_mem_nil, fun hno => by cases hno⟩

lemma allows_idle {n : ℕ} : ∀ as ∈ List.replicate n ([] : List Arrival), ∀ e ∈ as,
    p.AllowsEvent e := by
  intro as has e he
  rw [List.eq_of_mem_replicate has] at he
  exact absurd he List.not_mem_nil

lemma not_ready_someBytes {n : ℕ} {peer : Option PeerAddr} (hall : c.waitAll = true)
    (hpos : 0 < n) (hlt : n < c.len) : ¬ c.Ready (someBytes n peer) := by
  rintro (hsignal | ⟨t, s', htry, hinc⟩)
  · cases hsignal
  · have hstream : c.stream = true := ((Bool.and_eq_true _ _).mp hall).2
    have hread : (someBytes n peer).readable true = true :=
      readable_stream.2 (Or.inr (List.length_pos_iff.1 (by simpa [someBytes] using hpos)))
    rw [hstream, tryRecv_stream hread] at htry
    obtain ⟨rfl, -⟩ := Prod.ext_iff.1 (Option.some.inj htry)
    simp [incomplete, hall, someBytes, hlt] at hinc

lemma not_agrees_of_returns
    {call : RecvSocket → List (List Arrival) →
      Option (Except RecvError Received × RecvSocket × List (List Arrival))}
    {n k : ℕ} (hwait : c.shouldWait = true) (hall : c.waitAll = true) (hpos : 0 < n)
    (hlt : n < c.len)
    (hcall : ∀ peer, ∃ r s', call (someBytes n peer) (List.replicate k []) = some (r, s', [])) :
    ¬ c.Agrees p name call := by
  intro hagrees
  obtain ⟨peer, hpeer⟩ := p.nonempty
  obtain ⟨r, s', hrun⟩ := hcall peer
  obtain ⟨used, r₀, hused, hhost, -⟩ := hagrees.sound _ _ _ _ _ (allows_someBytes hpeer)
    allows_idle hrun
  have hnil : used = [] := by simpa using hused
  have hready := hhost.ready (not_now hwait)
  rw [hnil] at hready
  exact not_ready_someBytes hall hpos hlt hready

lemma sysRecvfrom_peeks (hwait : c.shouldWait = true) (hpeek : c.peek = true)
    (hall : c.waitAll = true) (hlen : 2 ≤ c.len) : ¬ c.Agrees p name (c.sysRecvfrom name) := by
  have hstream : c.stream = true := ((Bool.and_eq_true _ _).mp hall).2
  obtain ⟨n, hn⟩ : ∃ n, c.len = n + 2 := ⟨c.len - 2, by omega⟩
  refine not_agrees_of_returns (n := n + 1) (k := 2) hwait hall (by omega) (by omega)
    fun peer => ?_
  have hread : (someBytes (n + 1) peer).readable true = true :=
    readable_stream.2 (Or.inr (List.length_pos_iff.1 (by simp [someBytes])))
  have hall' : (List.replicate (n + 1) (7 : UInt8)).take (n + 2) = List.replicate (n + 1) 7 :=
    List.take_of_length_le (by simp)
  have hone : (List.replicate (n + 1) (7 : UInt8)).take 1 = [7] := rfl
  have hfirst : c.recvfromAttempt ([], none) (someBytes (n + 1) peer) =
      .again (List.replicate (n + 1) 7, peer) (someBytes (n + 1) peer) := by
    rw [recvfromAttempt_stream hstream hread]
    simp [hpeek, hall, hn, someBytes, hall']
  have hsecond : c.recvfromAttempt (List.replicate (n + 1) 7, peer) (someBytes (n + 1) peer) =
      .done { bytes := List.replicate (n + 1) 7 ++ [7], source := peer }
        (someBytes (n + 1) peer) := by
    have hleft : c.len - (n + 1) = 1 := by omega
    have hfull : n + 1 + 1 = c.len := hn.symm
    rw [recvfromAttempt_stream hstream hread]
    simp [hpeek, hall, hleft, hfull, someBytes]
  have hrun : c.sysRecvfrom name (someBytes (n + 1) peer) [[], []] =
      some (deliver recvfromName name
          (.ok { bytes := List.replicate (n + 1) 7 ++ [7], source := peer }),
        someBytes (n + 1) peer, []) := by
    simp only [sysRecvfrom, if_pos hwait, waitLoop, arrive_nil, hfirst, hsecond, Option.map_some]
  exact ⟨_, _, hrun⟩

lemma sysRecvmsg_short (hwait : c.shouldWait = true) (hall : c.waitAll = true) (hlen : 2 ≤ c.len)
    (buffer : SockaddrMax) : ¬ c.Agrees p name (c.sysRecvmsg buffer name) := by
  have hstream : c.stream = true := ((Bool.and_eq_true _ _).mp hall).2
  refine not_agrees_of_returns (n := 1) (k := 1) hwait hall (by omega) (by omega) fun peer => ?_
  have hread : (someBytes 1 peer).readable true = true := rfl
  obtain ⟨t, s', hfirst⟩ : ∃ t s', c.recvmsgAttempt ([], none) (someBytes 1 peer) = .done t s' := by
    rw [recvmsgAttempt, hstream, tryRecv_stream hread]
    exact ⟨_, _, rfl⟩
  have hrun : c.sysRecvmsg buffer name (someBytes 1 peer) [[]] =
      some (deliver (recvmsgName buffer) name (.ok t), s', []) := by
    simp only [sysRecvmsg, if_pos hwait, waitLoop, arrive_nil, hfirst, Option.map_some]
  exact ⟨_, _, hrun⟩

lemma hostStep_error {st : Option Got} {e : RecvError}
    (hstep : c.hostStep st s = .inl (.error e, s')) : e = .eintr := by
  cases st with
  | none =>
    rw [hostStep] at hstep
    split at hstep
    · cases hstep
    · split_ifs at hstep
      cases hstep
  | some seen =>
    rw [hostStep] at hstep
    split_ifs at hstep
    have hresult := (Prod.ext_iff.1 (Sum.inl.inj hstep)).1
    simp only [interrupted] at hresult
    split_ifs at hresult
    cases hresult
    rfl

lemma hostLoop_error (es : List (List Arrival)) :
    ∀ (st : Option Got) (s : RecvSocket) (e : RecvError) (s' : RecvSocket)
      (rest : List (List Arrival)), c.hostLoop st s es = some (.error e, s', rest) →
      e = .eintr := by
  induction es with
  | nil =>
    intro st s e s' rest hrun
    cases st <;> cases hrun
  | cons as es ih =>
    intro st s e s' rest hrun
    rw [hostLoop_cons] at hrun
    cases hstep : c.hostStep st (s.arrive as) with
    | inl r₀ =>
      obtain ⟨r, s₀⟩ := r₀
      simp only [hstep, Option.some.injEq, Prod.mk.injEq] at hrun
      obtain ⟨rfl, -, -⟩ := hrun
      exact hostStep_error hstep
    | inr st' =>
      simp only [hstep] at hrun
      exact ih _ _ _ _ _ hrun

lemma HostReceives.error {used : List Arrival} {e : RecvError}
    (h : c.HostReceives s used (.error e) s') : e ≠ .einval := by
  obtain ⟨es, -, hrun⟩ := h
  by_cases hnow : (c.dontwait || c.hostNonblock) = true
  · cases es with
    | nil => simp [hostRecv, hnow] at hrun
    | cons as es =>
      rw [hostRecv_now hnow] at hrun
      cases htry : (s.arrive as).tryRecv c.stream c.peek c.len with
      | none =>
        simp only [htry, Option.some.injEq, Prod.mk.injEq, Except.error.injEq] at hrun
        rw [← hrun.1]
        decide
      | some taken => simp [htry] at hrun
  · rw [hostRecv_waits hnow] at hrun
    rw [hostLoop_error es _ _ _ _ _ hrun]
    decide

/-- What `recvmsg` makes of a buffer that the host has not written to. -/
def otherFamily : SockaddrMax := { family := .other, data := [] }

lemma sysRecvmsg_nameless {guestLen : ℕ} (hs : p.Allows s) {t : Taken}
    (htry : s.tryRecv c.stream c.peek c.len = some (t, s')) (hsource : t.source = none)
    (hinc : c.incomplete s t = false) :
    ¬ c.Agrees p (some guestLen) (c.sysRecvmsg otherFamily (some guestLen)) := by
  intro hagrees
  have hhost : c.hostRecv s [[]] = some (.ok t, s', []) := by
    by_cases hnow : (c.dontwait || c.hostNonblock) = true
    · rw [hostRecv_now hnow, arrive_nil, htry]
    · rw [hostRecv_waits hnow, hostLoop, arrive_nil, htry]
      simp only [hinc]
      rfl
  have hwaits : c.waitLoop c.recvmsgAttempt .receive ([], none) s [[]] =
      some (.ok t, s', []) := by
    simp only [waitLoop, arrive_nil, recvmsgAttempt, htry]
  have hrun : c.sysRecvmsg otherFamily (some guestLen) s [[]] = some (.error .einval, s', []) := by
    have hname : deliver (recvmsgName otherFamily) (some guestLen) (.ok t) = .error .einval := by
      change (do let n ← recvmsgName otherFamily guestLen t.source; _) = _
      rw [hsource]
      rfl
    simp only [sysRecvmsg, hwaits, hhost, ite_self, Option.map_some, hname]
  obtain ⟨used, r₀, -, hreceives, hview⟩ := hagrees.sound _ _ _ _ _ hs
    (allows_idle (n := 1)) hrun
  cases r₀ with
  | ok t₀ => cases hview
  | error e =>
    cases hview
    exact hreceives.error rfl

/-- The two system calls do what one receive of the host does just if no part is looked at twice,
`recvmsg` has no parts to put together, and it is not asked for an address that the host may not
have. -/
theorem receive_agrees_iff (c : RecvCall) (p : Peers) (name : Option ℕ) :
    (c.Agrees p name (c.sysRecvfrom name) ↔
      (c.shouldWait = true → c.peek = false ∨ c.waitAll = false ∨ c.len < 2)) ∧
    ((∀ buffer, c.Agrees p name (c.sysRecvmsg buffer name)) ↔
      (c.shouldWait = true → c.waitAll = false ∨ c.len < 2) ∧
        (name.isSome = true → p.ends = false ∧ none ∉ p.sources)) := by
  refine ⟨⟨fun hagrees hwait => ?_, sysRecvfrom_agrees⟩, ⟨fun hagrees => ⟨fun hwait => ?_,
    fun hname => ?_⟩, fun h buffer => sysRecvmsg_agrees h.1 h.2 buffer⟩⟩
  · by_contra hno
    push Not at hno
    exact sysRecvfrom_peeks hwait (by simpa using hno.1) (by simpa using hno.2.1) hno.2.2 hagrees
  · by_contra hno
    push Not at hno
    exact sysRecvmsg_short hwait (by simpa using hno.1) hno.2 otherFamily (hagrees otherFamily)
  · obtain ⟨guestLen, rfl⟩ := Option.isSome_iff_exists.1 hname
    obtain ⟨peer, hpeer⟩ := p.nonempty
    constructor
    · by_contra hends
      -- the stream has ended
      have hs : p.Allows { someBytes 0 peer with ended := true } :=
        ⟨hpeer, fun _ hd => absurd hd List.not_mem_nil, fun _ => by simpa using hends⟩
      obtain ⟨t, s', htry, hsource⟩ : ∃ t s',
          RecvSocket.tryRecv c.stream c.peek c.len { someBytes 0 peer with ended := true } =
            some (t, s') ∧ t.source = none := by
        cases hstream : c.stream with
        | true => exact ⟨_, _, tryRecv_stream rfl, rfl⟩
        | false => exact ⟨_, _, rfl, rfl⟩
      refine sysRecvmsg_nameless hs htry hsource ?_ (hagrees otherFamily)
      simp [incomplete]
    · intro hnone
      -- there is enough to receive
      have hs : p.Allows { someBytes (c.len + 1) none with datagrams := [⟨[7], none⟩] } :=
        ⟨hnone, fun d hd => by rw [List.mem_singleton.1 hd]; exact hnone, fun hno => by cases hno⟩
      obtain ⟨t, s', htry, hsource, hlen⟩ : ∃ t s',
          RecvSocket.tryRecv c.stream c.peek c.len
            { someBytes (c.len + 1) none with datagrams := [⟨[7], none⟩] } = some (t, s') ∧
          t.source = none ∧ (c.stream = true → t.bytes.length = c.len) := by
        cases hstream : c.stream with
        | true =>
          refine ⟨_, _, tryRecv_stream ?_, by simp [someBytes], fun _ => by simp [someBytes]⟩
          exact readable_stream.2 (Or.inr (List.length_pos_iff.1 (by simp [someBytes])))
        | false => exact ⟨_, _, rfl, rfl, fun hno => by cases hno⟩
      refine sysRecvmsg_nameless hs htry hsource ?_ (hagrees otherFamily)
      cases hstream : c.stream with
      | true => simp [incomplete, hlen hstream]
      | false => simp [incomplete, waitAll, hstream]

end Agrees

def fourBytes (peek waitall : Bool) : RecvCall where
  stream := true
  len := 4
  len_lt := by decide
  peek := peek
  waitall := waitall
  dontwait := false
  guestNonblock := false
  hostNonblock := false

/-- Two bytes are there. `recvfrom` gives them twice, and `recvmsg` once, where the host would wait
for more. A `recvmsg` that asks for the address takes the bytes and fails. -/
theorem receive_disagrees :
    (fourBytes true true).sysRecvfrom none (someBytes 2 none) [[], []] =
        some (.ok ([7, 7, 7, 7], none), someBytes 2 none, []) ∧
      (∀ r s', ¬ (fourBytes true true).HostReceives (someBytes 2 none) [] r s') ∧
      (fourBytes false true).sysRecvmsg otherFamily none (someBytes 2 none) [[]] =
        some (.ok ([7, 7], none), someBytes 0 none, []) ∧
      (∀ r s', ¬ (fourBytes false true).HostReceives (someBytes 2 none) [] r s') ∧
      (fourBytes false false).sysRecvmsg otherFamily (some 16) (someBytes 2 none) [[]] =
        some (.error .einval, someBytes 0 none, []) ∧
      (fourBytes false false).HostReceives (someBytes 2 none) []
        (.ok { bytes := [7, 7], source := none }) (someBytes 0 none) := by
  refine ⟨rfl, fun r s' h => ?_, rfl, fun r s' h => ?_, rfl, [[]], rfl, rfl⟩
  · exact not_ready_someBytes rfl (by decide) (by decide) (h.ready (by decide))
  · exact not_ready_someBytes rfl (by decide) (by decide) (h.ready (by decide))

end RecvCall

end ShellBox
