import ShellBox.Fs.Poll

/-!
# What poll tells of its entries

`poll` makes a poll object for one call. The entries of one open file become one registration, and
when the wait is over its events are given back to every entry of the file. The call answers with
the number of files that were reported, which is compared with the entries that got something.
-/

namespace ShellBox

/-! ### A wait on a poll object of one call -/

structure CallReg where
  info : ℕ
  types : PollTypes
  deriving DecidableEq

inductive WaitEnd
  | timeout
  | failed (err : ℕ+)

/-- What a call meets: the open files, the memory of the guest, a poll object or an error, which
files it can wait for, and the rounds of the wait with what the files answer in each. -/
structure PollEnv where
  file : ℕ → Option ℕ
  readable : Bool
  writable : Bool
  created : Option ℕ+
  added : ℕ → Bool
  rounds : List (ℕ → PollTypes)
  ending : WaitEnd

def CallReg.pending (r : CallReg) (ready : ℕ → PollTypes) : PollTypes :=
  ready r.info &&& (r.types ||| pollHup ||| pollErr)

section Wait

variable {σ : Type*}

/-- A round of `poll_wait`, with the number of events that the callback took. -/
def callRound (callback : σ → PollTypes → ℕ → σ × Bool) (ready : ℕ → PollTypes) :
    List CallReg → σ → σ × ℕ
  | [], s      => (s, 0)
  | r :: rs, s =>
    if r.pending ready = 0 then callRound callback ready rs s
    else
      let taken := callback s (r.pending ready) r.info
      let rest := callRound callback ready rs taken.1
      (rest.1, if taken.2 then rest.2 + 1 else rest.2)

/-- `poll_wait` -/
def callWait (callback : σ → PollTypes → ℕ → σ × Bool) (regs : List CallReg) (ending : WaitEnd) :
    List (ℕ → PollTypes) → σ → σ × Except ℕ+ ℕ
  | [], s => (s, match ending with
      | .timeout => .ok 0
      | .failed err => .error err)
  | ready :: rounds, s =>
    let round := callRound callback ready regs s
    if 0 < round.2 then (round.1, .ok round.2) else callWait callback regs ending rounds round.1

end Wait

/-! ### The call -/

def pollNval : PollTypes := 32

def pollAlwaysListening : PollTypes := pollErr ||| pollHup ||| pollNval

/-- `struct pollfd_` -/
structure PollFd where
  fd : ℤ
  events : BitVec 16
  revents : BitVec 16
  deriving DecidableEq

/-- An entry with the open file that it names: `polls[i]` and `files[i]`. -/
structure PollSlot where
  entry : PollFd
  file : Option ℕ

def PollSlot.mask (s : PollSlot) : PollTypes :=
  s.entry.events.setWidth 32 ||| pollAlwaysListening

def PollSlot.setRevents (s : PollSlot) (revents : BitVec 16) : PollSlot :=
  { s with entry := { s.entry with revents } }

def pollEventCallback (slots : List PollSlot) (types : PollTypes) (info : ℕ) :
    List PollSlot × Bool :=
  (slots.map fun s =>
      if s.file = some info then s.setRevents ((types &&& s.mask).setWidth 16) else s,
    slots.any fun s => s.file = some info)

def mergedEvents (f : ℕ) : List PollSlot → PollTypes
  | []        => 0
  | s :: rest =>
    if s.file = some f then s.entry.events.setWidth 32 ||| mergedEvents f rest
    else mergedEvents f rest

def otherSlots (f : ℕ) (slots : List PollSlot) : List PollSlot :=
  slots.filter fun s => s.file ≠ some f

/-- The registrations. The code marks the entries of a file that it has merged; here they are taken
out of the list. A negative number names no file. -/
def pollRegs : List PollSlot → List CallReg
  | []        => []
  | s :: rest =>
    match s.file with
    | none => pollRegs rest
    | some f => ⟨f, mergedEvents f (s :: rest) ||| pollAlwaysListening⟩ ::
        pollRegs (otherSlots f rest)
termination_by slots => slots.length
decreasing_by
  · exact Nat.lt_succ_self _
  · exact Nat.lt_succ_of_le (List.length_filter_le _ _)

namespace PollEnv

variable (env : PollEnv)

def fGet : ℤ → Option ℕ
  | .ofNat n   => env.file n
  | .negSucc _ => none

/-- An entry with its file before the wait: `POLL_NVAL`, where there is no such file. -/
def slot (p : PollFd) : PollSlot where
  entry := { p with
    revents := if 0 ≤ p.fd ∧ env.fGet p.fd = none then pollNval.setWidth 16 else 0 }
  file := env.fGet p.fd

def slots (polls : List PollFd) : List PollSlot := polls.map env.slot

def regs (slots : List PollSlot) : List CallReg :=
  ((pollRegs slots).filter fun r => env.added r.info).reverse

end PollEnv

def pollEfault : ℕ+ := 14

inductive PollDone
  | failed (err : ℕ+)
  | stored (res : ℕ) (polls : List PollFd)

def sysPoll (env : PollEnv) (polls : List PollFd) : PollDone :=
  if env.readable = false then .failed pollEfault
  else
    match env.created with
    | some err => .failed err
    | none =>
      match callWait pollEventCallback (env.regs (env.slots polls)) env.ending env.rounds
          (env.slots polls) with
      | (_, .error err) => .failed err
      | (slots, .ok res) =>
        if env.writable then .stored res (slots.map PollSlot.entry) else .failed pollEfault

/-- The call returns the number of entries that got something, and no entry gets what it has not
asked for and is not always told. -/
def PollDone.Consistent (polls : List PollFd) : PollDone → Prop
  | .failed _         => True
  | .stored res after => res = after.countP (fun p => p.revents ≠ 0) ∧
      List.Forall₂ (fun p p' : PollFd => p'.fd = p.fd ∧ p'.events = p.events ∧
        p'.revents &&& (p.events ||| pollAlwaysListening.setWidth 16) = p'.revents) polls after

namespace PollEnv

variable (env : PollEnv)

def told (ready : ℕ → PollTypes) (s : PollSlot) : PollTypes :=
  match s.file with
  | some f => if env.added f then ready f &&& s.mask else 0
  | none   => 0

def lastRound (polls : List PollFd) : Option (ℕ → PollTypes) :=
  env.rounds.find? fun ready => (env.slots polls).any fun s => env.told ready s ≠ 0

/-- The call fails; or every number that is not negative is of an open file, and in the round in
which the wait ends no two entries with something to tell have one file. -/
def PollFits (polls : List PollFd) : Prop :=
  env.readable = false ∨ env.created ≠ none ∨ env.writable = false ∨
    (env.lastRound polls = none ∧ ∃ err, env.ending = .failed err) ∨
    (∀ p ∈ polls, 0 ≤ p.fd → env.fGet p.fd ≠ none) ∧
      ∀ ready, env.lastRound polls = some ready →
        (((env.slots polls).filter fun s => env.told ready s ≠ 0).map PollSlot.file).Nodup

end PollEnv

/-! ### The rounds -/

section Wait

variable {σ : Type*} {callback : σ → PollTypes → ℕ → σ × Bool} {ready : ℕ → PollTypes}
  {regs : List CallReg} {s : σ}

def regsWake (regs : List CallReg) (ready : ℕ → PollTypes) : Bool :=
  regs.any fun r => r.pending ready ≠ 0

lemma callRound_quiet (h : regsWake regs ready = false) :
    callRound callback ready regs s = (s, 0) := by
  induction regs with
  | nil => rfl
  | cons r rs ih =>
    simp only [regsWake, List.any_cons, Bool.or_eq_false_iff, decide_eq_false_iff_not,
      not_not] at h
    rw [callRound, if_pos h.1]
    exact ih h.2

lemma callRound_res {P : σ → Prop} (hs : P s)
    (htake : ∀ r ∈ regs, r.pending ready ≠ 0 → ∀ s, P s →
      P (callback s (r.pending ready) r.info).1 ∧
        (callback s (r.pending ready) r.info).2 = true) :
    (callRound callback ready regs s).2 = regs.countP fun r => r.pending ready ≠ 0 := by
  induction regs generalizing s with
  | nil => rfl
  | cons r rs ih =>
    have hrs := fun s hs => @ih s hs fun r' hr' => htake r' (List.mem_cons_of_mem r hr')
    rw [callRound, List.countP_cons]
    by_cases hzero : r.pending ready = 0
    · rw [if_pos hzero, if_neg (by simp [hzero]), hrs s hs, Nat.add_zero]
    · obtain ⟨hkept, htaken⟩ := htake r List.mem_cons_self hzero s hs
      rw [if_neg hzero, if_pos (decide_eq_true hzero)]
      simp only [htaken, hrs _ hkept, if_true]

lemma callWait_eq {P : σ → Prop} (hs : P s)
    (htake : ∀ ready, ∀ r ∈ regs, r.pending ready ≠ 0 → ∀ s, P s →
      P (callback s (r.pending ready) r.info).1 ∧
        (callback s (r.pending ready) r.info).2 = true)
    (ending : WaitEnd) (rounds : List (ℕ → PollTypes)) :
    callWait callback regs ending rounds s = match rounds.find? (regsWake regs) with
      | some ready => ((callRound callback ready regs s).1,
          .ok (regs.countP fun r => r.pending ready ≠ 0))
      | none => callWait callback regs ending [] s := by
  induction rounds with
  | nil => rfl
  | cons ready rounds ih =>
    rw [callWait, List.find?_cons]
    have hres := callRound_res hs (htake ready)
    cases hwake : regsWake regs ready with
    | false =>
      rw [callRound_quiet hwake]
      simpa using ih
    | true =>
      have hpos : 0 < (callRound callback ready regs s).2 := by
        rw [hres]
        simpa [regsWake, List.countP_pos_iff] using hwake
      simp only [if_pos hpos]
      rw [hres]

end Wait

/-! ### The registrations of `poll` -/

section Types

variable {w : ℕ} {a b m x : BitVec w}

lemma and_sub (h : m &&& x = x) : a &&& m &&& x = a &&& x := by
  rw [BitVec.and_assoc, h]

lemma sub_or_left (h : a &&& x = x) : (a ||| b) &&& x = x := by
  rw [BitVec.and_or_distrib_right, h]
  ext i hi
  simp only [BitVec.getElem_or, BitVec.getElem_and]
  cases x[i] <;> simp

lemma sub_or_right (h : b &&& x = x) : (a ||| b) &&& x = x := by
  rw [BitVec.or_comm]
  exact sub_or_left h

end Types

lemma countP_either {α : Type*} {l : List α} {p q r : α → Bool}
    (h : ∀ a ∈ l, (p a = true ↔ q a = true ∨ r a = true) ∧ ¬ (q a = true ∧ r a = true)) :
    l.countP p = l.countP q + l.countP r := by
  induction l with
  | nil => rfl
  | cons a l ih =>
    obtain ⟨hiff, hnot⟩ := h a List.mem_cons_self
    rw [List.countP_cons, List.countP_cons, List.countP_cons,
      ih fun b hb => h b (List.mem_cons_of_mem a hb)]
    by_cases hq : q a = true <;> by_cases hr : r a = true
    · exact absurd ⟨hq, hr⟩ hnot
    · rw [if_pos (hiff.mpr (.inl hq)), if_pos hq, if_neg hr]
      omega
    · rw [if_pos (hiff.mpr (.inr hr)), if_neg hq, if_pos hr]
      omega
    · rw [if_neg (fun hp => (hiff.mp hp).elim hq hr), if_neg hq, if_neg hr]
      omega

variable {slots : List PollSlot} {s : PollSlot} {f : ℕ}

lemma mergedEvents_sub (hs : s ∈ slots) (hf : s.file = some f) :
    mergedEvents f slots &&& s.entry.events.setWidth 32 = s.entry.events.setWidth 32 := by
  induction slots with
  | nil => cases hs
  | cons t rest ih =>
    rw [mergedEvents]
    obtain rfl | hrest := List.mem_cons.mp hs
    · rw [if_pos hf]
      exact sub_or_left (BitVec.and_self ..)
    · split_ifs
      · exact sub_or_right (ih hrest)
      · exact ih hrest

lemma mergedEvents_mask (hs : s ∈ slots) (hf : s.file = some f) :
    (mergedEvents f slots ||| pollAlwaysListening) &&& s.mask = s.mask := by
  rw [PollSlot.mask, BitVec.and_or_distrib_left, sub_or_left (mergedEvents_sub hs hf),
    sub_or_right (BitVec.and_self ..)]

lemma and_mergedEvents {x : PollTypes}
    (h : ∀ s ∈ slots, s.file = some f → x &&& s.entry.events.setWidth 32 = 0) :
    x &&& mergedEvents f slots = 0 := by
  induction slots with
  | nil => exact BitVec.and_zero
  | cons t rest ih =>
    have hrest := ih fun s hs => h s (List.mem_cons_of_mem t hs)
    rw [mergedEvents]
    split_ifs with hf
    · rw [BitVec.and_or_distrib_left, h t List.mem_cons_self hf, hrest]
      rfl
    · exact hrest

lemma mergedEvents_filter {g : ℕ} (h : g ≠ f) :
    mergedEvents g (otherSlots f slots) = mergedEvents g slots := by
  induction slots with
  | nil => rfl
  | cons t rest ih =>
    by_cases hf : t.file = some f
    · have hg : t.file ≠ some g := fun hg => h (Option.some.inj (hg.symm.trans hf))
      rw [otherSlots, List.filter_cons_of_neg (by simpa using hf), ← otherSlots, ih, mergedEvents,
        if_neg hg]
    · rw [otherSlots, List.filter_cons_of_pos (by simpa using hf), ← otherSlots, mergedEvents,
        mergedEvents, ih]

lemma mem_pollRegs {r : CallReg} (h : r ∈ pollRegs slots) :
    (∃ s ∈ slots, s.file = some r.info) ∧
      r.types = mergedEvents r.info slots ||| pollAlwaysListening := by
  induction slots using pollRegs.induct with
  | case1 => simp [pollRegs] at h
  | case2 t rest hfile ih =>
    rw [pollRegs, hfile] at h
    obtain ⟨⟨s, hs, hsf⟩, htypes⟩ := ih h
    refine ⟨⟨s, List.mem_cons_of_mem t hs, hsf⟩, ?_⟩
    rw [htypes, mergedEvents, if_neg (by simp [hfile])]
  | case3 t rest g hfile ih =>
    rw [pollRegs, hfile] at h
    obtain rfl | hrest := List.mem_cons.mp h
    · exact ⟨⟨t, List.mem_cons_self, hfile⟩, rfl⟩
    · obtain ⟨⟨s, hs, hsf⟩, htypes⟩ := ih hrest
      obtain ⟨hsrest, hsg⟩ := List.mem_filter.mp hs
      have hne : r.info ≠ g := by
        rintro rfl
        simp [hsf] at hsg
      have htf : t.file ≠ some r.info := fun ht => hne (Option.some.inj (ht.symm.trans hfile))
      refine ⟨⟨s, List.mem_cons_of_mem t hsrest, hsf⟩, ?_⟩
      rw [htypes, mergedEvents_filter hne, mergedEvents, if_neg htf]

lemma exists_pollRegs (hs : s ∈ slots) (hf : s.file = some f) :
    ∃ r ∈ pollRegs slots, r.info = f := by
  induction slots using pollRegs.induct with
  | case1 => cases hs
  | case2 t rest hfile ih =>
    have hrest : s ∈ rest := by
      obtain rfl | hrest := List.mem_cons.mp hs
      · simp [hfile] at hf
      · exact hrest
    rw [pollRegs, hfile]
    exact ih hrest
  | case3 t rest g hfile ih =>
    rw [pollRegs, hfile]
    by_cases hg : f = g
    · exact ⟨_, List.mem_cons_self, hg.symm⟩
    · have hrest : s ∈ rest := by
        obtain rfl | hrest := List.mem_cons.mp hs
        · exact absurd (Option.some.inj (hf.symm.trans hfile)) hg
        · exact hrest
      obtain ⟨r, hr, hinfo⟩ := ih (List.mem_filter.mpr ⟨hrest, by simpa [hf] using hg⟩)
      exact ⟨r, List.mem_cons_of_mem _ hr, hinfo⟩

lemma nodup_pollRegs (slots : List PollSlot) : ((pollRegs slots).map CallReg.info).Nodup := by
  induction slots using pollRegs.induct with
  | case1 => simp [pollRegs]
  | case2 t rest hfile ih =>
    rw [pollRegs, hfile]
    exact ih
  | case3 t rest g hfile ih =>
    rw [pollRegs, hfile, List.map_cons, List.nodup_cons]
    refine ⟨fun hmem => ?_, ih⟩
    obtain ⟨r, hr, hinfo⟩ := List.mem_map.mp hmem
    obtain ⟨⟨s, hs, hsf⟩, -⟩ := mem_pollRegs hr
    simp [otherSlots, hsf, hinfo] at hs

/-! ### What the entries are told -/

@[simp] lemma PollSlot.mask_setRevents (s : PollSlot) (v : BitVec 16) :
    (s.setRevents v).mask = s.mask := rfl

@[simp] lemma PollSlot.file_setRevents (s : PollSlot) (v : BitVec 16) :
    (s.setRevents v).file = s.file := rfl

def CallReg.hits (ready : ℕ → PollTypes) (file : Option ℕ) (r : CallReg) : Bool :=
  file = some r.info ∧ r.pending ready ≠ 0

lemma CallReg.hits_iff {ready : ℕ → PollTypes} {file : Option ℕ} {r : CallReg} :
    r.hits ready file = true ↔ file = some r.info ∧ r.pending ready ≠ 0 := by
  rw [hits, decide_eq_true_eq]

def settle (regs : List CallReg) (ready : ℕ → PollTypes) (s : PollSlot) : PollSlot :=
  match regs.find? (CallReg.hits ready s.file) with
  | some r => s.setRevents ((r.pending ready &&& s.mask).setWidth 16)
  | none   => s

lemma callRound_poll {regs : List CallReg} {ready : ℕ → PollTypes}
    (hnodup : (regs.map CallReg.info).Nodup) :
    (callRound pollEventCallback ready regs slots).1 = slots.map (settle regs ready) := by
  induction regs generalizing slots with
  | nil =>
    rw [callRound]
    exact (List.map_id slots).symm
  | cons r rs ih =>
    rw [List.map_cons, List.nodup_cons] at hnodup
    rw [callRound]
    by_cases hzero : r.pending ready = 0
    · rw [if_pos hzero, ih hnodup.2]
      refine List.map_congr_left fun s _ => ?_
      simp only [settle]
      rw [List.find?_cons_of_neg (by simp [CallReg.hits, hzero])]
    · rw [if_neg hzero]
      simp only [pollEventCallback]
      rw [ih hnodup.2, List.map_map]
      refine List.map_congr_left fun s _ => ?_
      simp only [Function.comp_apply]
      by_cases hf : s.file = some r.info
      · -- no other registration has the same file
        have hnone : rs.find? (CallReg.hits ready s.file) = none := by
          rw [List.find?_eq_none]
          rintro r' hr' hsome
          have hinfo : r'.info = r.info := by
            have hboth := (CallReg.hits_iff.mp hsome).1.symm.trans hf
            exact Option.some.inj hboth
          exact hnodup.1 (hinfo ▸ List.mem_map_of_mem hr')
        rw [if_pos hf]
        simp only [settle, PollSlot.file_setRevents, PollSlot.mask_setRevents]
        rw [hnone, List.find?_cons_of_pos (CallReg.hits_iff.mpr ⟨hf, hzero⟩)]
      · rw [if_neg hf]
        simp only [settle]
        rw [List.find?_cons_of_neg (by simp [CallReg.hits, hf])]

namespace PollEnv

variable {env : PollEnv} {polls : List PollFd} {ready : ℕ → PollTypes} {r : CallReg}

lemma mem_regs : r ∈ env.regs slots ↔ r ∈ pollRegs slots ∧ env.added r.info = true := by
  rw [regs, List.mem_reverse, List.mem_filter]

lemma nodup_regs (slots : List PollSlot) : ((env.regs slots).map CallReg.info).Nodup := by
  rw [regs, List.map_reverse, List.nodup_reverse]
  exact (nodup_pollRegs slots).sublist (List.filter_sublist.map _)

lemma told_eq (hr : r ∈ env.regs slots) (hs : s ∈ slots) (hf : s.file = some r.info) :
    r.pending ready &&& s.mask = env.told ready s := by
  obtain ⟨hreg, hadded⟩ := mem_regs.mp hr
  have hsub : (r.types ||| pollHup ||| pollErr) &&& s.mask = s.mask := by
    rw [(mem_pollRegs hreg).2]
    exact sub_or_left (sub_or_left (mergedEvents_mask hs hf))
  simp only [told, hf, if_pos hadded]
  rw [CallReg.pending, and_sub hsub]

lemma exists_told (hr : r ∈ env.regs slots) (hpending : r.pending ready ≠ 0) :
    ∃ s ∈ slots, s.file = some r.info ∧ env.told ready s ≠ 0 := by
  obtain ⟨hreg, hadded⟩ := mem_regs.mp hr
  obtain ⟨⟨t, ht, htf⟩, htypes⟩ := mem_pollRegs hreg
  by_contra hnone
  have hmask (s : PollSlot) (hs : s ∈ slots) (hf : s.file = some r.info) :
      ready r.info &&& s.entry.events.setWidth 32 = 0 ∧
        ready r.info &&& pollAlwaysListening = 0 := by
    have hzero : env.told ready s = 0 := by
      by_contra hne
      exact hnone ⟨s, hs, hf, hne⟩
    simp only [told, hf, if_pos hadded, PollSlot.mask] at hzero
    rw [BitVec.and_or_distrib_left] at hzero
    exact BitVec.or_eq_zero_iff.mp hzero
  have halways := (hmask t ht htf).2
  have hhup : ready r.info &&& pollHup = 0 := by
    rw [← and_sub (a := ready r.info) (m := pollAlwaysListening) (by decide), halways]
    exact BitVec.zero_and
  have herr : ready r.info &&& pollErr = 0 := by
    rw [← and_sub (a := ready r.info) (m := pollAlwaysListening) (by decide), halways]
    exact BitVec.zero_and
  apply hpending
  rw [CallReg.pending, htypes, BitVec.and_or_distrib_left, BitVec.and_or_distrib_left,
    BitVec.and_or_distrib_left, hhup, herr, halways,
    and_mergedEvents fun s hs hf => (hmask s hs hf).1]
  rfl

lemma wake_eq : regsWake (env.regs slots) ready = slots.any fun s => env.told ready s ≠ 0 := by
  rw [Bool.eq_iff_iff, regsWake, List.any_eq_true, List.any_eq_true]
  simp only [decide_eq_true_eq]
  constructor
  · rintro ⟨r, hr, hpending⟩
    obtain ⟨s, hs, -, htold⟩ := exists_told hr hpending
    exact ⟨s, hs, htold⟩
  · rintro ⟨s, hs, htold⟩
    cases hf : s.file with
    | none => simp [told, hf] at htold
    | some f =>
      have hadded : env.added f = true := by
        by_contra hno
        simp [told, hf, hno] at htold
      obtain ⟨r, hr, rfl⟩ := exists_pollRegs hs hf
      refine ⟨r, mem_regs.mpr ⟨hr, hadded⟩, fun hzero => htold ?_⟩
      rw [← told_eq (mem_regs.mpr ⟨hr, hadded⟩) hs hf, hzero]
      exact BitVec.zero_and

def tell (env : PollEnv) (ready : ℕ → PollTypes) (s : PollSlot) : PollSlot :=
  if s.file = none then s else s.setRevents ((env.told ready s).setWidth 16)

lemma settle_eq (hs : s ∈ env.slots polls) :
    settle (env.regs (env.slots polls)) ready s = env.tell ready s := by
  cases hf : s.file with
  | none =>
    rw [tell, if_pos hf, settle, List.find?_eq_none.mpr (by simp [CallReg.hits, hf])]
  | some f =>
    have hempty : s.setRevents 0 = s := by
      obtain ⟨p, -, rfl⟩ := List.mem_map.mp hs
      have hfile : ¬ (0 ≤ p.fd ∧ env.fGet p.fd = none) := by
        rintro ⟨-, hnone⟩
        simp [slot, hnone] at hf
      simp only [slot, PollSlot.setRevents, if_neg hfile]
    rw [tell, if_neg (by simp [hf]), settle]
    split
    · rename_i r hfind
      have hcond := CallReg.hits_iff.mp (List.find?_some hfind)
      rw [told_eq (List.mem_of_find?_eq_some hfind) hs hcond.1]
    · rename_i hfind
      have hzero : env.told ready s = 0 := by
        by_contra htold
        have hadded : env.added f = true := by
          by_contra hno
          simp [told, hf, hno] at htold
        obtain ⟨r, hr, rfl⟩ := exists_pollRegs hs hf
        have hreg : r ∈ env.regs (env.slots polls) := mem_regs.mpr ⟨hr, hadded⟩
        have hpending : r.pending ready ≠ 0 := by
          intro hpending
          rw [← told_eq hreg hs hf, hpending] at htold
          exact htold BitVec.zero_and
        exact List.find?_eq_none.mp hfind r hreg (CallReg.hits_iff.mpr ⟨hf, hpending⟩)
      rw [hzero]
      exact hempty.symm

def toldFiles (env : PollEnv) (ready : ℕ → PollTypes) (slots : List PollSlot) : List (Option ℕ) :=
  (slots.filter fun s => env.told ready s ≠ 0).map PollSlot.file

lemma countP_regs : ((env.regs slots).countP fun r => r.pending ready ≠ 0) =
    (env.toldFiles ready slots).dedup.length := by
  have hinfo : (((env.regs slots).filter fun r => r.pending ready ≠ 0).map
      fun r => some r.info).Nodup := by
    have hnodup : (((env.regs slots).filter fun r => r.pending ready ≠ 0).map
        CallReg.info).Nodup := (nodup_regs slots).sublist (List.filter_sublist.map _)
    have hmap := hnodup.map (Option.some_injective ℕ)
    rwa [List.map_map] at hmap
  have hperm := (List.perm_ext_iff_of_nodup hinfo (env.toldFiles ready slots).nodup_dedup).mpr
    fun file => by
      rw [List.mem_dedup, toldFiles, List.mem_map, List.mem_map]
      simp only [List.mem_filter, decide_eq_true_eq]
      constructor
      · rintro ⟨r, ⟨hr, hpending⟩, rfl⟩
        obtain ⟨s, hs, hf, htold⟩ := exists_told hr hpending
        exact ⟨s, ⟨hs, htold⟩, hf⟩
      · rintro ⟨s, ⟨hs, htold⟩, rfl⟩
        cases hf : s.file with
        | none => simp [told, hf] at htold
        | some f =>
          have hadded : env.added f = true := by
            by_contra hno
            simp [told, hf, hno] at htold
          obtain ⟨r, hr, rfl⟩ := exists_pollRegs hs hf
          have hreg : r ∈ env.regs slots := mem_regs.mpr ⟨hr, hadded⟩
          refine ⟨r, ⟨hreg, fun hzero => htold ?_⟩, rfl⟩
          rw [← told_eq hreg hs hf, hzero]
          exact BitVec.zero_and
  rw [List.countP_eq_length_filter, ← hperm.length_eq, List.length_map]

lemma callWait_poll (env : PollEnv) (polls : List PollFd) :
    callWait pollEventCallback (env.regs (env.slots polls)) env.ending env.rounds
        (env.slots polls) =
      match env.lastRound polls with
      | some ready => ((env.slots polls).map (env.tell ready),
          .ok (env.toldFiles ready (env.slots polls)).dedup.length)
      | none => (env.slots polls, match env.ending with
          | .timeout => .ok 0
          | .failed err => .error err) := by
  have htake (r : CallReg) (hr : r ∈ env.regs (env.slots polls)) (slots : List PollSlot)
      (types : PollTypes)
      (hfiles : slots.map PollSlot.file = (env.slots polls).map PollSlot.file) :
      (pollEventCallback slots types r.info).1.map PollSlot.file =
          (env.slots polls).map PollSlot.file ∧
        (pollEventCallback slots types r.info).2 = true := by
    obtain ⟨⟨s, hs, hf⟩, -⟩ := mem_pollRegs (mem_regs.mp hr).1
    constructor
    · rw [← hfiles, pollEventCallback, List.map_map]
      refine List.map_congr_left fun t _ => ?_
      simp only [Function.comp_apply]
      split_ifs <;> rfl
    · have hmem : some r.info ∈ slots.map PollSlot.file := by
        rw [hfiles, ← hf]
        exact List.mem_map_of_mem hs
      obtain ⟨t, ht, htf⟩ := List.mem_map.mp hmem
      exact List.any_eq_true.mpr ⟨t, ht, decide_eq_true htf⟩
  have hlast : env.rounds.find? (regsWake (env.regs (env.slots polls))) = env.lastRound polls := by
    rw [lastRound]
    congr 1
    exact funext fun ready => wake_eq
  rw [callWait_eq (P := fun slots => slots.map PollSlot.file = (env.slots polls).map PollSlot.file)
    rfl (fun ready r hr _ slots => htake r hr slots (r.pending ready)), hlast]
  cases env.lastRound polls with
  | none => rfl
  | some ready =>
    simp only
    rw [callRound_poll (nodup_regs _), countP_regs]
    congr 1
    exact List.map_congr_left fun s hs => settle_eq hs

/-! ### The events of an entry -/

lemma mask_lt (s : PollSlot) : s.mask.toNat < 2 ^ 16 := by
  rw [PollSlot.mask, BitVec.toNat_or]
  refine Nat.or_lt_two_pow ?_ (by decide)
  rw [BitVec.toNat_setWidth]
  have hlt := s.entry.events.isLt
  omega

lemma narrow_eq_zero {x : PollTypes} (h : x &&& s.mask = x) : x.setWidth 16 = 0 ↔ x = 0 := by
  have hle : x.toNat ≤ s.mask.toNat := by
    rw [← h, BitVec.toNat_and]
    exact Nat.and_le_right
  have hlt := mask_lt s
  rw [← BitVec.toNat_inj, ← BitVec.toNat_inj, BitVec.toNat_setWidth,
    Nat.mod_eq_of_lt (by omega)]
  rfl

lemma narrow_mask {x : PollTypes} (h : x &&& s.mask = x) :
    x.setWidth 16 &&& (s.entry.events ||| pollAlwaysListening.setWidth 16) = x.setWidth 16 := by
  have hmask : s.mask.setWidth 16 = s.entry.events ||| pollAlwaysListening.setWidth 16 := by
    rw [PollSlot.mask, BitVec.setWidth_or, BitVec.setWidth_setWidth_of_le _ (by decide),
      BitVec.setWidth_eq]
  rw [← hmask, ← BitVec.setWidth_and, h]

lemma told_mask (s : PollSlot) : env.told ready s &&& s.mask = env.told ready s := by
  cases hf : s.file with
  | none =>
    simp only [told, hf]
    exact BitVec.zero_and
  | some f =>
    simp only [told, hf]
    split_ifs
    · rw [BitVec.and_assoc, BitVec.and_self]
    · exact BitVec.zero_and

def closed (s : PollSlot) : Bool := 0 ≤ s.entry.fd ∧ s.file = none

lemma closed_iff : closed s = true ↔ 0 ≤ s.entry.fd ∧ s.file = none := by
  rw [closed, decide_eq_true_eq]

lemma slot_revents (p : PollFd) :
    (env.slot p).entry.revents ≠ 0 ↔ closed (env.slot p) = true := by
  rw [closed_iff]
  simp only [slot]
  split_ifs with hfd
  · exact iff_of_true (by decide) hfd
  · exact iff_of_false (fun h => h rfl) hfd

lemma tell_revents (p : PollFd) : (env.tell ready (env.slot p)).entry.revents ≠ 0 ↔
    env.told ready (env.slot p) ≠ 0 ∨ closed (env.slot p) = true := by
  cases hf : (env.slot p).file with
  | none =>
    have htold : env.told ready (env.slot p) = 0 := by simp only [told, hf]
    rw [tell, if_pos hf, slot_revents]
    exact ⟨.inr, fun h => h.resolve_left fun hne => hne htold⟩
  | some f =>
    have hclosed : closed (env.slot p) = false := by simp [closed, hf]
    rw [tell, if_neg (by simp [hf]), hclosed, ne_eq, ne_eq]
    simp only [Bool.false_eq_true, or_false]
    exact not_congr (narrow_eq_zero (told_mask _))

lemma slot_mask (p : PollFd) : (env.slot p).entry.revents &&&
      (p.events ||| pollAlwaysListening.setWidth 16) = (env.slot p).entry.revents := by
  simp only [slot]
  split_ifs
  · rw [BitVec.and_comm]
    exact sub_or_right (by decide)
  · exact BitVec.zero_and

lemma tell_mask (p : PollFd) : (env.tell ready (env.slot p)).entry.revents &&&
      (p.events ||| pollAlwaysListening.setWidth 16) =
    (env.tell ready (env.slot p)).entry.revents := by
  rw [tell]
  split_ifs
  · exact slot_mask p
  · exact narrow_mask (s := env.slot p) (told_mask _)

/-! ### The count -/

lemma dedup_length_iff (l : List (Option ℕ)) (v : ℕ) :
    l.dedup.length = l.length + v ↔ v = 0 ∧ l.Nodup := by
  have hle := l.dedup_sublist.length_le
  rw [← List.dedup_eq_self]
  constructor
  · intro h
    exact ⟨by omega, l.dedup_sublist.eq_of_length (by omega)⟩
  · rintro ⟨rfl, h⟩
    rw [h, Nat.add_zero]

lemma count_iff : (env.toldFiles ready (env.slots polls)).dedup.length =
      (((env.slots polls).map (env.tell ready)).map PollSlot.entry).countP
        (fun p => p.revents ≠ 0) ↔
    (∀ p ∈ polls, 0 ≤ p.fd → env.fGet p.fd ≠ none) ∧
      (env.toldFiles ready (env.slots polls)).Nodup := by
  have hcount : (((env.slots polls).map (env.tell ready)).map PollSlot.entry).countP
      (fun p => p.revents ≠ 0) =
      (env.toldFiles ready (env.slots polls)).length + (env.slots polls).countP closed := by
    rw [List.countP_map, List.countP_map, toldFiles, List.length_map,
      ← List.countP_eq_length_filter]
    refine countP_either fun s hs => ?_
    obtain ⟨p, -, rfl⟩ := List.mem_map.mp hs
    simp only [Function.comp_apply, decide_eq_true_eq]
    refine ⟨tell_revents p, ?_⟩
    rintro ⟨htold, hclosed⟩
    have hfile := (closed_iff.mp hclosed).2
    exact htold (by simp only [told, hfile])
  rw [hcount, dedup_length_iff, List.countP_eq_zero]
  refine and_congr_left fun _ => ?_
  simp only [slots, List.mem_map, forall_exists_index, and_imp, forall_apply_eq_imp_iff₂]
  refine forall₂_congr fun p _ => ?_
  rw [closed_iff, not_and]
  rfl

lemma forall₂_slots {f : PollSlot → PollSlot} (hfd : ∀ s, (f s).entry.fd = s.entry.fd)
    (hevents : ∀ s, (f s).entry.events = s.entry.events)
    (hmask : ∀ p, (f (env.slot p)).entry.revents &&&
      (p.events ||| pollAlwaysListening.setWidth 16) = (f (env.slot p)).entry.revents) :
    List.Forall₂ (fun p p' : PollFd => p'.fd = p.fd ∧ p'.events = p.events ∧
        p'.revents &&& (p.events ||| pollAlwaysListening.setWidth 16) = p'.revents) polls
      (((env.slots polls).map f).map PollSlot.entry) := by
  rw [slots, List.map_map, List.map_map, List.forall₂_map_right_iff, List.forall₂_same]
  exact fun p _ => ⟨hfd _, hevents _, hmask p⟩

end PollEnv

lemma sysPoll_iff (env : PollEnv) (polls : List PollFd) :
    (sysPoll env polls).Consistent polls ↔ env.PollFits polls := by
  by_cases hread : env.readable = false
  · rw [sysPoll, if_pos hread]
    exact iff_of_true trivial (.inl hread)
  rw [sysPoll, if_neg hread]
  cases hcreated : env.created with
  | some err => exact iff_of_true trivial (.inr (.inl (by simp [hcreated])))
  | none =>
    simp only
    rw [PollEnv.callWait_poll]
    by_cases hwrite : env.writable = false
    · have hfits : env.PollFits polls := .inr (.inr (.inl hwrite))
      refine iff_of_true ?_ hfits
      split
      · trivial
      · rw [if_neg (by simp [hwrite])]
        trivial
    rw [Bool.not_eq_false] at hwrite
    cases hlast : env.lastRound polls with
    | some ready =>
      simp only [if_pos hwrite]
      have hfits : env.PollFits polls ↔ (∀ p ∈ polls, 0 ≤ p.fd → env.fGet p.fd ≠ none) ∧
          (env.toldFiles ready (env.slots polls)).Nodup := by
        simp [PollEnv.PollFits, hread, hcreated, hwrite, hlast, PollEnv.toldFiles]
      rw [hfits, ← PollEnv.count_iff]
      refine and_iff_left (PollEnv.forall₂_slots ?_ ?_ PollEnv.tell_mask)
      · intro s
        simp only [PollEnv.tell]
        split_ifs <;> rfl
      · intro s
        simp only [PollEnv.tell]
        split_ifs <;> rfl
    | none =>
      cases hending : env.ending with
      | failed err =>
        have hfits : env.PollFits polls := .inr (.inr (.inr (.inl ⟨hlast, err, hending⟩)))
        exact iff_of_true trivial hfits
      | timeout =>
        simp only [if_pos hwrite]
        have hfits : env.PollFits polls ↔ ∀ p ∈ polls, 0 ≤ p.fd → env.fGet p.fd ≠ none := by
          simp [PollEnv.PollFits, hread, hcreated, hwrite, hlast, hending]
        have hentries : (env.slots polls).map PollSlot.entry =
            ((env.slots polls).map id).map PollSlot.entry := by rw [List.map_id]
        have hsub := @PollEnv.forall₂_slots env polls id (fun _ => rfl) (fun _ => rfl)
          PollEnv.slot_mask
        rw [hfits, hentries]
        refine (and_iff_left hsub).trans ?_
        rw [List.map_id, List.countP_map, eq_comm, List.countP_eq_zero]
        simp only [PollEnv.slots, List.mem_map, forall_exists_index, and_imp,
          forall_apply_eq_imp_iff₂]
        refine forall₂_congr fun p _ => ?_
        rw [Function.comp_apply, decide_eq_true_eq, PollEnv.slot_revents, PollEnv.closed_iff,
          not_and]
        rfl

end ShellBox
