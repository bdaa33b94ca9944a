import ShellBox.Util.Fifo

/-!
# The kernel log

Lines are written into a ring of 2^20 bytes, over the oldest ones. `syslog` reads the oldest bytes
and takes them out, or the newest, as far as they are from after the last `clear`; how many these
are is counted apart from the ring.

The reads copy what `fifo_read` has left in a buffer of their own, without asking whether it has
left anything there.
-/

namespace ShellBox

def logBufCapacity : ℕ := 2 ^ 20

/-- The log. All that was ever logged, and how much of it was there at the last `clear`, are kept
for the proofs; nothing reads them. -/
structure KernelLog where
  fifo : Fifo
  /-- `log_max_since_clear` -/
  maxSinceClear : ℕ
  logged : List UInt8
  cleared : ℕ

structure SyslogReply where
  result : ℤ
  bytes : List UInt8

/-- A request: what the buffer from `malloc` holds, and how many bytes the guest has memory for. -/
structure SyslogCall where
  type : ℤ
  len : ℤ
  junk : ℕ → UInt8
  room : ℕ

def logEinval : ℤ := -22
def logEfault : ℤ := -14

/-- `user_write`, and the result that follows from it. -/
def SyslogCall.copyOut (c : SyslogCall) (buf : List UInt8) : SyslogReply :=
  if c.room < buf.length then ⟨logEfault, buf.take c.room⟩ else ⟨buf.length, buf⟩

namespace KernelLog

def init : KernelLog := ⟨fifoInit (fun _ => 0) logBufCapacity, 0, [], 0⟩

/-- `log_buf_append` -/
def append (l : KernelLog) (msg : List UInt8) : Option KernelLog :=
  (l.fifo.write msg fifoOverwrite).map fun r => { l with
    fifo := r.1
    maxSinceClear := min (addSize l.maxSinceClear msg.length) r.1.capacity
    logged := l.logged ++ msg }

def readLen (l : KernelLog) (len : ℕ) (flags : BitVec 32) : ℕ :=
  if hasFifoFlag flags fifoLast then min len l.maxSinceClear else min len l.fifo.capacity

def syslogRead (l : KernelLog) (c : SyslogCall) (flags : BitVec 32) :
    Option (KernelLog × SyslogReply) :=
  if c.len < 0 then some (l, ⟨logEinval, []⟩)
  else
    let len := l.readLen c.len.toNat flags
    (l.fifo.read len flags).map fun r =>
      -- the result of `fifo_read` is not looked at
      ({ l with fifo := r.1 }, c.copyOut (r.2.getD ((List.range len).map c.junk)))

/-- `SYSLOG_ACTION_CLEAR` -/
def clear (l : KernelLog) : KernelLog := { l with maxSinceClear := 0, cleared := l.logged.length }

def doSyslog (l : KernelLog) (c : SyslogCall) : Option (KernelLog × SyslogReply) :=
  match c.type with
  | 2 => l.syslogRead c 0
  | 3 => l.syslogRead c (fifoLast ||| fifoPeek)
  | 4 => (l.syslogRead c (fifoLast ||| fifoPeek)).map fun r =>
      if r.2.result < 0 then r
      -- falls through to the next case
      else (r.1.clear, ⟨0, r.2.bytes⟩)
  | 5 => some (l.clear, ⟨0, []⟩)
  | 9 => some (l, ⟨l.fifo.size, []⟩)
  | 10 => some (l, ⟨l.fifo.capacity, []⟩)
  | 0 | 1 | 6 | 7 | 8 => some (l, ⟨0, []⟩)
  | _ => some (l, ⟨logEinval, []⟩)

end KernelLog

inductive LogOp
  | append (msg : List UInt8)
  | syslog (c : SyslogCall)

def logStep (l : KernelLog) : LogOp → Option (KernelLog × SyslogReply)
  | .append msg => (l.append msg).map (·, ⟨0, []⟩)
  | .syslog c => l.doSyslog c

/-- A read from the end is about what came after the last `clear`, and a read returns how many bytes
it has copied. -/
def SyslogCall.Answers (l : KernelLog) (c : SyslogCall) (reply : SyslogReply) : Prop :=
  (c.type = 3 ∨ c.type = 4 → reply.bytes <:+: l.logged.drop l.cleared) ∧
    (c.type = 2 ∨ c.type = 3 ∨ c.type = 4 → 0 ≤ reply.result →
      reply.result = reply.bytes.length)

/-- What is copied was logged, in this order, and no more bytes count as new than there are. -/
def LogOp.Returns (l : KernelLog) (op : LogOp) : Prop :=
  (logStep l op).isSome ∧ ∀ r ∈ logStep l op,
    r.2.bytes <:+: l.logged ∧ r.1.maxSinceClear ≤ r.1.fifo.size ∧
      match op with
      | .append _ => True
      | .syslog c => c.Answers l r.2

def KernelLog.LastFits (l : KernelLog) (len : ℤ) : Prop :=
  (FifoOp.read (l.readLen len.toNat (fifoLast ||| fifoPeek)) (fifoLast ||| fifoPeek)).Fits l.fifo

/-- A request that the log does right: a line is not longer than the ring; a read takes out none of
the bytes that count as new; a read from the end fits; and one that clears copies nothing, or
fails. -/
def LogOp.Fits (l : KernelLog) : LogOp → Prop
  | .append msg => msg.length ≤ l.fifo.capacity
  | .syslog c =>
    (c.type = 2 → c.len < 0 ∨ l.readLen c.len.toNat 0 + l.maxSinceClear ≤ l.fifo.size) ∧
    (c.type = 3 → c.len < 0 ∨ l.LastFits c.len) ∧
    (c.type = 4 → c.len < 0 ∨ l.LastFits c.len ∧
      (l.readLen c.len.toNat (fifoLast ||| fifoPeek) = 0 ∨
        c.room < l.readLen c.len.toNat (fifoLast ||| fifoPeek)))

instance decidableLogReturns (l : KernelLog) (op : LogOp) : Decidable (op.Returns l) :=
  match op with
  | .append _ => inferInstanceAs (Decidable (_ ∧ ∀ _ ∈ _, _ ∧ _ ∧ True))
  | .syslog _ => inferInstanceAs (Decidable (_ ∧ ∀ _ ∈ _, _ ∧ _ ∧ (_ → _) ∧ (_ → _ → _)))

instance decidableLogFits (l : KernelLog) (op : LogOp) : Decidable (op.Fits l) :=
  match op with
  | .append _ => inferInstanceAs (Decidable (_ ≤ _))
  | .syslog c =>
    have : Decidable (l.LastFits c.len) := inferInstanceAs (Decidable (FifoOp.Fits _ _))
    inferInstanceAs (Decidable ((_ → _ ∨ _) ∧ (_ → _ ∨ l.LastFits c.len) ∧
      (_ → _ ∨ l.LastFits c.len ∧ _)))

namespace KernelLog

variable {l : KernelLog}

/-- The ring holds the end of what was logged, and as much of that is new as is counted. -/
structure Inv (l : KernelLog) : Prop where
  valid : l.fifo.Valid
  capacity : l.fifo.capacity = logBufCapacity
  suffix : l.fifo.contents <:+ l.logged
  max_le : l.maxSinceClear ≤ l.fifo.size
  later : l.cleared + l.maxSinceClear ≤ l.logged.length

lemma inv_init : init.Inv where
  valid := ⟨by decide, Nat.zero_le _, Or.inr rfl⟩
  capacity := rfl
  suffix := List.suffix_rfl
  max_le := le_rfl
  later := le_rfl

lemma Inv.clear (hl : l.Inv) : l.clear.Inv :=
  ⟨hl.valid, hl.capacity, hl.suffix, Nat.zero_le _, le_rfl⟩

lemma append_spec (hl : l.Inv) {msg : List UInt8} (hmsg : msg.length ≤ l.fifo.capacity) :
    ∃ l', l.append msg = some l' ∧ l'.Inv := by
  have hcap : 0 < l.fifo.capacity := hl.capacity ▸ (by decide)
  obtain ⟨f', hstep, hf', hcap', hcontents⟩ :=
    fifoStep_spec hl.valid (.write msg fifoOverwrite) (Or.inr ⟨hcap, hmsg⟩)
  have hq : queueStep l.fifo.capacity l.fifo.contents (.write msg fifoOverwrite) =
      ((l.fifo.contents ++ msg).rtake l.fifo.capacity, some []) := by
    rw [queueStep, if_neg fun h => h.2 (by decide)]
  rw [hq] at hstep hcontents
  obtain ⟨r, hwrite, hr⟩ := Option.map_eq_some_iff.mp hstep
  obtain ⟨rfl, -⟩ := Prod.mk.inj hr
  have hsize := congrArg List.length hcontents
  simp only [Fifo.length_contents, List.rtake, List.length_drop, List.length_append] at hsize
  have hbound : l.fifo.capacity = 2 ^ 20 := hl.capacity
  have hmax := hl.max_le
  have hle := hl.valid.size
  have hlater := hl.later
  have hsum : addSize l.maxSinceClear msg.length = l.maxSinceClear + msg.length :=
    addSize_eq (by omega)
  refine ⟨_, by rw [append, hwrite]; rfl, hf', hcap'.trans hl.capacity, ?_, ?_, ?_⟩
  · simp only [hcontents]
    exact (List.drop_suffix _ _).trans (List.suffix_append_self_iff.mpr hl.suffix)
  · simp only [hsum, hsize]
    omega
  · simp only [hsum, List.length_append]
    omega

lemma readLen_last (l : KernelLog) (len : ℕ) :
    l.readLen len (fifoLast ||| fifoPeek) ≤ l.maxSinceClear := min_le_right _ _

lemma syslogRead_eq {c : SyslogCall} {flags : BitVec 32} {f : Fifo} {bytes : List UInt8}
    (hlen : 0 ≤ c.len)
    (hread : l.fifo.read (l.readLen c.len.toNat flags) flags = some (f, some bytes)) :
    l.syslogRead c flags = some ({ l with fifo := f }, c.copyOut bytes) := by
  unfold syslogRead
  rw [if_neg (by omega)]
  simp only [hread, Option.map_some, Option.getD_some]

lemma rtake_contents (hl : l.Inv) {n : ℕ} (hn : n ≤ l.maxSinceClear) :
    l.fifo.contents.rtake n <:+ l.logged.drop l.cleared := by
  have hsuffix : l.fifo.contents.rtake n <:+ l.logged :=
    (List.drop_suffix _ _).trans hl.suffix
  have hlater := hl.later
  refine List.suffix_of_suffix_length_le hsuffix (List.drop_suffix _ _) ?_
  rw [List.rtake, List.length_drop, List.length_drop]
  omega

lemma syslogRead_last (hl : l.Inv) {c : SyslogCall} (hlen : 0 ≤ c.len)
    (hfits : l.LastFits c.len) :
    ∃ bytes, bytes <:+ l.logged.drop l.cleared ∧
      bytes.length = l.readLen c.len.toNat (fifoLast ||| fifoPeek) ∧
      l.syslogRead c (fifoLast ||| fifoPeek) = some (l, c.copyOut bytes) := by
  have hn := readLen_last l c.len.toNat
  have hsize := hn.trans hl.max_le
  have hread := Fifo.read_eq hl.valid hsize hfits
  rw [Fifo.window_readStart hl.valid hsize] at hread
  have hlength : (l.fifo.contents.rtake
      (l.readLen c.len.toNat (fifoLast ||| fifoPeek))).length =
        l.readLen c.len.toNat (fifoLast ||| fifoPeek) := by
    rw [List.rtake, List.length_drop, Fifo.length_contents, Nat.sub_sub_self hsize]
  exact ⟨_, rtake_contents hl hn, hlength, syslogRead_eq hlen hread⟩

lemma syslogRead_first (hl : l.Inv) {c : SyslogCall} (hlen : 0 ≤ c.len)
    (hfits : l.readLen c.len.toNat 0 + l.maxSinceClear ≤ l.fifo.size) :
    ∃ f bytes, bytes <:+: l.logged ∧ KernelLog.Inv { l with fifo := f } ∧
      l.syslogRead c 0 = some ({ l with fifo := f }, c.copyOut bytes) := by
  have hsize : l.readLen c.len.toNat 0 ≤ l.fifo.size := by omega
  have hcap : 0 < l.fifo.capacity := hl.capacity ▸ (by decide)
  have hread' : (FifoOp.read (l.readLen c.len.toNat 0) 0).Fits l.fifo :=
    Or.inr ⟨fun _ => hcap, fun hflag => absurd hflag (by decide)⟩
  have hread := Fifo.read_eq hl.valid hsize hread'
  have hleft := Fifo.contents_read hl.valid 0 hsize fun hflag => absurd hflag (by decide)
  rw [Fifo.window_readStart hl.valid hsize] at hread
  let f : Fifo := { l.fifo with
    start := (l.fifo.readStart (l.readLen c.len.toNat 0) 0 + l.readLen c.len.toNat 0) %
      l.fifo.capacity
    size := l.fifo.size - l.readLen c.len.toNat 0 }
  refine ⟨f, _, ?_, ⟨?_, hl.capacity, ?_, ?_, hl.later⟩, syslogRead_eq hlen hread⟩
  · exact (List.take_prefix _ _).isInfix.trans hl.suffix.isInfix
  · have hle := hl.valid.size
    exact ⟨hl.valid.capacity, (Nat.sub_le _ _).trans hle, Or.inl (Nat.mod_lt _ hcap)⟩
  · refine (List.IsSuffix.trans ?_ (List.drop_suffix (l.readLen c.len.toNat 0) _)).trans hl.suffix
    exact hleft ▸ List.suffix_rfl
  · change l.maxSinceClear ≤ l.fifo.size - l.readLen c.len.toNat 0
    omega

lemma copyOut_bytes (c : SyslogCall) (buf : List UInt8) : (c.copyOut buf).bytes <+: buf := by
  unfold SyslogCall.copyOut
  split_ifs
  · exact List.take_prefix _ _
  · exact List.prefix_rfl

lemma copyOut_result {c : SyslogCall} {buf : List UInt8} (h : 0 ≤ (c.copyOut buf).result) :
    (c.copyOut buf).result = (c.copyOut buf).bytes.length := by
  unfold SyslogCall.copyOut at h ⊢
  split_ifs at h ⊢
  · simp [logEfault] at h
  · rfl

lemma returns_syslog {l' : KernelLog} {c : SyslogCall} {reply : SyslogReply}
    (hstep : logStep l (.syslog c) = some (l', reply)) (hl' : l'.Inv)
    (hlogged : reply.bytes <:+: l.logged) (hanswers : c.Answers l reply) :
    (LogOp.syslog c).Returns l ∧ ∀ r ∈ logStep l (.syslog c), r.1.Inv := by
  refine ⟨⟨by rw [hstep]; rfl, fun r hr => ?_⟩, fun r hr => ?_⟩
  · obtain rfl := Option.some.inj (hstep.symm.trans hr)
    exact ⟨hlogged, hl'.max_le, hanswers⟩
  · obtain rfl := Option.some.inj (hstep.symm.trans hr)
    exact hl'

lemma returns_nothing {l' : KernelLog} {c : SyslogCall} {result : ℤ}
    (hstep : logStep l (.syslog c) = some (l', ⟨result, []⟩)) (hl' : l'.Inv)
    (hresult : c.type = 2 ∨ c.type = 3 ∨ c.type = 4 → ¬ 0 ≤ result) :
    (LogOp.syslog c).Returns l ∧ ∀ r ∈ logStep l (.syslog c), r.1.Inv :=
  returns_syslog hstep hl' List.nil_infix ⟨fun _ => List.nil_infix,
    fun htype hres => absurd hres (hresult htype)⟩

lemma returns_read (hl : l.Inv) {c : SyslogCall} (htype : c.type = 2)
    (hop : (LogOp.syslog c).Fits l) :
    (LogOp.syslog c).Returns l ∧ ∀ r ∈ logStep l (.syslog c), r.1.Inv := by
  have hstep : logStep l (.syslog c) = l.syslogRead c 0 := by
    simp only [logStep, doSyslog, htype]
  rcases hop.1 htype with hneg | hfits
  · rw [syslogRead, if_pos hneg] at hstep
    exact returns_nothing hstep hl fun _ => by decide
  · by_cases hneg : c.len < 0
    · rw [syslogRead, if_pos hneg] at hstep
      exact returns_nothing hstep hl fun _ => by decide
    · obtain ⟨f, bytes, hbytes, hl', hread⟩ := syslogRead_first hl (by omega) hfits
      refine returns_syslog (hstep.trans hread) hl'
        ((copyOut_bytes c bytes).isInfix.trans hbytes) ⟨fun h => ?_, fun _ => copyOut_result⟩
      omega

lemma returns_readAll (hl : l.Inv) {c : SyslogCall} (htype : c.type = 3)
    (hop : (LogOp.syslog c).Fits l) :
    (LogOp.syslog c).Returns l ∧ ∀ r ∈ logStep l (.syslog c), r.1.Inv := by
  have hstep : logStep l (.syslog c) = l.syslogRead c (fifoLast ||| fifoPeek) := by
    simp only [logStep, doSyslog, htype]
  by_cases hneg : c.len < 0
  · rw [syslogRead, if_pos hneg] at hstep
    exact returns_nothing hstep hl fun _ => by decide
  · obtain ⟨bytes, hbytes, -, hread⟩ :=
      syslogRead_last hl (by omega) ((hop.2.1 htype).resolve_left hneg)
    have hlater := (copyOut_bytes c bytes).isInfix.trans hbytes.isInfix
    exact returns_syslog (hstep.trans hread) hl
      (hlater.trans (List.drop_suffix _ _).isInfix) ⟨fun _ => hlater, fun _ => copyOut_result⟩

lemma returns_readClear (hl : l.Inv) {c : SyslogCall} (htype : c.type = 4)
    (hop : (LogOp.syslog c).Fits l) :
    (LogOp.syslog c).Returns l ∧ ∀ r ∈ logStep l (.syslog c), r.1.Inv := by
  have hstep : logStep l (.syslog c) = (l.syslogRead c (fifoLast ||| fifoPeek)).map fun r =>
      if r.2.result < 0 then r else (r.1.clear, ⟨0, r.2.bytes⟩) := by
    simp only [logStep, doSyslog, htype]
  by_cases hneg : c.len < 0
  · rw [syslogRead, if_pos hneg] at hstep
    exact returns_nothing hstep hl fun _ => by decide
  · obtain ⟨hfits, hnone⟩ := (hop.2.2 htype).resolve_left hneg
    obtain ⟨bytes, hbytes, hlength, hread⟩ := syslogRead_last hl (by omega) hfits
    have hlater := hbytes.isInfix
    rw [hread, Option.map_some] at hstep
    rcases hnone with hzero | hroom
    · obtain rfl := List.length_eq_zero_iff.mp (hlength.trans hzero)
      have hcopy : c.copyOut [] = ⟨0, []⟩ := if_neg (Nat.not_lt_zero _)
      rw [hcopy] at hstep
      exact returns_syslog hstep hl.clear List.nil_infix
        ⟨fun _ => List.nil_infix, fun _ _ => rfl⟩
    · have hcopy : c.copyOut bytes = ⟨logEfault, bytes.take c.room⟩ := if_pos (hlength ▸ hroom)
      have hpart := (List.take_prefix c.room bytes).isInfix.trans hlater
      rw [hcopy] at hstep
      exact returns_syslog hstep hl (hpart.trans (List.drop_suffix _ _).isInfix)
        ⟨fun _ => hpart, fun _ h => absurd h (by simp [logEfault])⟩

lemma logStep_spec (hl : l.Inv) {op : LogOp} (hop : op.Fits l) :
    op.Returns l ∧ ∀ r ∈ logStep l op, r.1.Inv := by
  cases op with
  | append msg =>
    obtain ⟨l', happend, hl'⟩ := append_spec hl hop
    have hstep : logStep l (.append msg) = some (l', ⟨0, []⟩) := by
      simp only [logStep, happend, Option.map_some]
    refine ⟨⟨by rw [hstep]; rfl, fun r hr => ?_⟩, fun r hr => ?_⟩
    · obtain rfl := Option.some.inj (hstep.symm.trans hr)
      exact ⟨List.nil_infix, hl'.max_le, trivial⟩
    · obtain rfl := Option.some.inj (hstep.symm.trans hr)
      exact hl'
  | syslog c =>
    by_cases h₂ : c.type = 2
    · exact returns_read hl h₂ hop
    by_cases h₃ : c.type = 3
    · exact returns_readAll hl h₃ hop
    by_cases h₄ : c.type = 4
    · exact returns_readClear hl h₄ hop
    by_cases h₅ : c.type = 5
    · have hstep : logStep l (.syslog c) = some (l.clear, ⟨0, []⟩) := by
        simp only [logStep, doSyslog, h₅]
      exact returns_nothing hstep hl.clear (by omega)
    · obtain ⟨result, hstep⟩ : ∃ result, logStep l (.syslog c) = some (l, ⟨result, []⟩) := by
        simp only [logStep, doSyslog]
        split <;> first | contradiction | exact ⟨_, rfl⟩
      exact returns_nothing hstep hl (by omega)

end KernelLog

/-- In a run of requests that fit, every one returns what it is to. -/
theorem log_returns {ops : List LogOp}
    (hfits : AllSteps logStep (fun l op => op.Fits l) KernelLog.init ops) :
    AllSteps logStep (fun l op => op.Returns l) KernelLog.init ops :=
  allSteps_of_invariant (P := KernelLog.Inv)
    (fun _ _ hl hop => KernelLog.logStep_spec hl hop) KernelLog.inv_init hfits

/-- A request of the guest for `len` bytes, with memory for all. -/
def logRequest (type len : ℤ) : SyslogCall := ⟨type, len, fun _ => 0xff, 2 ^ 20⟩

/-- Two lines, of which one is looked at, cleared, and read. -/
theorem log_returns_cleared :
    AllSteps logStep (fun l op => op.Returns l) KernelLog.init
      [.append [104, 105], .append [10], .syslog (logRequest 3 2), .syslog (logRequest 5 0),
        .syslog (logRequest 3 2), .syslog (logRequest 2 3), .syslog (logRequest 4 8)] := by
  exact log_returns (by decide +kernel)

/-- A read of more than there is gives out memory that nothing was written to; it leaves more bytes
counted as new than there are; and a read that clears does not return how many bytes it has
copied. -/
theorem log_differs :
    ¬ AllSteps logStep (fun l op => op.Returns l) KernelLog.init
        [.append [104, 105, 10], .syslog (logRequest 2 4)] ∧
      ¬ AllSteps logStep (fun l op => op.Returns l) KernelLog.init
        [.append [104, 105, 10], .syslog (logRequest 2 3)] ∧
      ¬ AllSteps logStep (fun l op => op.Returns l) KernelLog.init
        [.append [104, 105, 10], .syslog (logRequest 4 3)] := by
  decide +kernel

end ShellBox
