import ShellBox.Fs.PollCall

/-!
# What select stores in its sets

`select` registers each descriptor that is in one of its three sets, and sets the bits of the
answer by the kinds of events that were reported, whichever sets the descriptor was in. It returns
the number of descriptors that were reported, which is compared with the bits in what it stores.
-/

namespace ShellBox

open Function

/-! ### The call -/

def bitsSize (bits : ℕ) : ℕ := (bits - 1) / 8 + 1

def selectRead : PollTypes := pollRead ||| pollHup ||| pollErr

def selectWrite : PollTypes := pollWrite ||| pollErr

def selectEx : PollTypes := pollPri

/-- `struct select_context` -/
structure SelectContext where
  readfds : ℕ → Bool
  writefds : ℕ → Bool
  exceptfds : ℕ → Bool

def SelectContext.empty : SelectContext := ⟨fun _ => false, fun _ => false, fun _ => false⟩

structure SelectSets where
  readfds : Option (ℕ → Bool)
  writefds : Option (ℕ → Bool)
  exceptfds : Option (ℕ → Bool)

/-- `user_read_or_zero` -/
def orZero (set : Option (ℕ → Bool)) : ℕ → Bool := set.getD fun _ => false

namespace SelectSets

variable (sets : SelectSets)

def events (i : ℕ) : PollTypes :=
  (if orZero sets.readfds i then selectRead else 0) |||
    (if orZero sets.writefds i then selectWrite else 0) |||
    (if orZero sets.exceptfds i then selectEx else 0)

def store (c : SelectContext) : SelectSets :=
  ⟨sets.readfds.map fun _ => c.readfds, sets.writefds.map fun _ => c.writefds,
    sets.exceptfds.map fun _ => c.exceptfds⟩

end SelectSets

def selectEventCallback (c : SelectContext) (types : PollTypes) (fd : ℕ) : SelectContext × Bool :=
  (⟨if types &&& selectRead ≠ 0 then update c.readfds fd true else c.readfds,
    if types &&& selectWrite ≠ 0 then update c.writefds fd true else c.writefds,
    if types &&& selectEx ≠ 0 then update c.exceptfds fd true else c.exceptfds⟩,
    types &&& (selectRead ||| selectWrite ||| selectEx) ≠ 0)

/-- The registrations, for the descriptors from the first one on; `EBADF`, where one is closed. -/
def selectRegs (env : PollEnv) (sets : SelectSets) : List ℕ → Except ℕ+ (List CallReg)
  | []      => .ok []
  | i :: is =>
    if sets.events i = 0 then selectRegs env sets is
    else if env.file i = none then .error 9
    else (selectRegs env sets is).map fun regs =>
      if env.added i then ⟨i, sets.events i⟩ :: regs else regs

inductive SelectDone
  | failed (err : ℕ+)
  | stored (res : ℕ) (sets : SelectSets)

def selectCommon (env : PollEnv) (nfds : ℕ) (sets : SelectSets) : SelectDone :=
  if env.readable = false then .failed pollEfault
  else
    match env.created with
    | some err => .failed err
    | none =>
      match selectRegs env sets (List.range nfds) with
      | .error err => .failed err
      | .ok regs =>
        match callWait selectEventCallback regs.reverse env.ending env.rounds
            .empty with
        | (_, .error err) => .failed err
        | (c, .ok res) => if env.writable then .stored res (sets.store c) else .failed pollEfault

def bitCount (nfds : ℕ) : Option (ℕ → Bool) → ℕ
  | some set => (List.range (8 * bitsSize nfds)).countP set
  | none     => 0

def SelectSets.bitTotal (nfds : ℕ) (sets : SelectSets) : ℕ :=
  bitCount nfds sets.readfds + bitCount nfds sets.writefds + bitCount nfds sets.exceptfds

def SelectSets.Sub (after sets : SelectSets) : Prop :=
  (∀ set ∈ after.readfds, ∀ i, set i = true → orZero sets.readfds i = true) ∧
    (∀ set ∈ after.writefds, ∀ i, set i = true → orZero sets.writefds i = true) ∧
    ∀ set ∈ after.exceptfds, ∀ i, set i = true → orZero sets.exceptfds i = true

def SelectDone.Consistent (nfds : ℕ) (sets : SelectSets) : SelectDone → Prop
  | .failed _         => True
  | .stored res after => after.Sub sets ∧ res = after.bitTotal nfds

/-! ### The condition -/

namespace PollEnv

variable (env : PollEnv)

def got (sets : SelectSets) (ready : ℕ → PollTypes) (i : ℕ) : PollTypes :=
  if sets.events i ≠ 0 ∧ env.added i = true then
    ready i &&& (sets.events i ||| pollHup ||| pollErr) else 0

def lastSelect (nfds : ℕ) (sets : SelectSets) : Option (ℕ → PollTypes) :=
  env.rounds.find? fun ready => (List.range nfds).any fun i => env.got sets ready i ≠ 0

def places (sets : SelectSets) (ready : ℕ → PollTypes) (i : ℕ) : ℕ :=
  (if sets.readfds.isSome ∧ env.got sets ready i &&& selectRead ≠ 0 then 1 else 0) +
    (if sets.writefds.isSome ∧ env.got sets ready i &&& selectWrite ≠ 0 then 1 else 0) +
    (if sets.exceptfds.isSome ∧ env.got sets ready i &&& selectEx ≠ 0 then 1 else 0)

/-- A round is told of as it is: a hangup or an error of a descriptor is told where it is in the
set for reading, or there is none, and an error also with the set for writing; and as many
descriptors are in no set as there are further places of those that are in more than one. -/
structure SelectTells (nfds : ℕ) (sets : SelectSets) (ready : ℕ → PollTypes) : Prop where
  reads : ∀ i < nfds, sets.events i ≠ 0 → env.added i = true →
    ready i &&& (pollHup ||| pollErr) ≠ 0 → sets.readfds = none ∨ orZero sets.readfds i = true
  writes : ∀ i < nfds, sets.events i ≠ 0 → env.added i = true →
    ready i &&& pollErr ≠ 0 → sets.writefds = none ∨ orZero sets.writefds i = true
  balance : ((List.range nfds).map fun i => env.places sets ready i - 1).sum =
    (List.range nfds).countP fun i => env.got sets ready i ≠ 0 ∧ env.places sets ready i = 0

/-- The call fails, or nothing is reported, or the round in which the wait ends is told of as it
is. -/
def SelectFits (nfds : ℕ) (sets : SelectSets) : Prop :=
  env.readable = false ∨ env.created ≠ none ∨ env.writable = false ∨
    (∃ i < nfds, sets.events i ≠ 0 ∧ env.file i = none) ∨
    ∀ ready, env.lastSelect nfds sets = some ready → env.SelectTells nfds sets ready

end PollEnv

/-! ### The registrations -/

section Select

variable {env : PollEnv} {sets : SelectSets} {ready : ℕ → PollTypes} {nfds i : ℕ}

def asked (env : PollEnv) (sets : SelectSets) (is : List ℕ) : List CallReg :=
  (is.filter fun i => sets.events i ≠ 0 ∧ env.added i = true).map fun i => ⟨i, sets.events i⟩

lemma selectRegs_ok {is : List ℕ} (h : ∀ i ∈ is, sets.events i ≠ 0 → env.file i ≠ none) :
    selectRegs env sets is = .ok (asked env sets is) := by
  induction is with
  | nil => rfl
  | cons i is ih =>
    rw [selectRegs, ih fun j hj => h j (List.mem_cons_of_mem i hj)]
    by_cases hzero : sets.events i = 0
    · rw [if_pos hzero, asked, asked, List.filter_cons_of_neg (by simp [hzero])]
    · rw [if_neg hzero, if_neg (h i List.mem_cons_self hzero)]
      by_cases hadded : env.added i = true
      · have hasked : sets.events i ≠ 0 ∧ env.added i = true := ⟨hzero, hadded⟩
        rw [asked, asked, List.filter_cons, if_pos (decide_eq_true hasked)]
        simp [Except.map, hadded]
      · rw [asked, asked, List.filter_cons_of_neg (by simp [hadded])]
        simp [Except.map, hadded]

lemma selectRegs_error {is : List ℕ} (h : ∃ i ∈ is, sets.events i ≠ 0 ∧ env.file i = none) :
    ∃ err, selectRegs env sets is = .error err := by
  induction is with
  | nil =>
    obtain ⟨i, hi, -⟩ := h
    cases hi
  | cons i is ih =>
    rw [selectRegs]
    by_cases hhere : sets.events i ≠ 0 ∧ env.file i = none
    · rw [if_neg hhere.1, if_pos hhere.2]
      exact ⟨9, rfl⟩
    · have hrest : ∃ j ∈ is, sets.events j ≠ 0 ∧ env.file j = none := by
        obtain ⟨j, hj, hclosed⟩ := h
        obtain rfl | hj := List.mem_cons.mp hj
        · exact absurd hclosed hhere
        · exact ⟨j, hj, hclosed⟩
      obtain ⟨err, herr⟩ := ih hrest
      rw [herr]
      by_cases hzero : sets.events i = 0
      · rw [if_pos hzero]
        exact ⟨err, rfl⟩
      · rw [if_neg hzero]
        split_ifs
        · exact ⟨9, rfl⟩
        · exact ⟨err, rfl⟩
        · exact ⟨err, rfl⟩

lemma mem_asked {r : CallReg} {is : List ℕ} : r ∈ asked env sets is ↔
    r.info ∈ is ∧ (sets.events r.info ≠ 0 ∧ env.added r.info = true) ∧
      r.types = sets.events r.info := by
  rw [asked, List.mem_map]
  simp only [List.mem_filter, decide_eq_true_eq]
  constructor
  · rintro ⟨i, ⟨hi, hasked⟩, rfl⟩
    exact ⟨hi, hasked, rfl⟩
  · rintro ⟨hi, hasked, htypes⟩
    exact ⟨r.info, ⟨hi, hasked⟩, by rw [← htypes]⟩

lemma pending_asked {r : CallReg} {is : List ℕ} (hr : r ∈ asked env sets is) :
    r.pending ready = env.got sets ready r.info := by
  obtain ⟨-, hasked, htypes⟩ := mem_asked.mp hr
  rw [CallReg.pending, PollEnv.got, if_pos hasked, htypes]

/-! ### Which sets an event is for -/

lemma got_all : env.got sets ready i &&& (selectRead ||| selectWrite ||| selectEx) =
    env.got sets ready i := by
  have hall : (sets.events i ||| pollHup ||| pollErr) &&&
      (selectRead ||| selectWrite ||| selectEx) = sets.events i ||| pollHup ||| pollErr := by
    rw [SelectSets.events]
    cases orZero sets.readfds i <;> cases orZero sets.writefds i <;>
      cases orZero sets.exceptfds i <;> decide
  rw [PollEnv.got]
  split_ifs
  · rw [BitVec.and_assoc, hall]
  · exact BitVec.zero_and

lemma got_read (h : orZero sets.readfds i = false) : env.got sets ready i &&& selectRead =
    if sets.events i ≠ 0 ∧ env.added i = true then ready i &&& (pollHup ||| pollErr) else 0 := by
  have hmask : (sets.events i ||| pollHup ||| pollErr) &&& selectRead = pollHup ||| pollErr := by
    rw [SelectSets.events, h]
    cases orZero sets.writefds i <;> cases orZero sets.exceptfds i <;> decide
  rw [PollEnv.got]
  split_ifs
  · rw [BitVec.and_assoc, hmask]
  · exact BitVec.zero_and

lemma got_write (h : orZero sets.writefds i = false) : env.got sets ready i &&& selectWrite =
    if sets.events i ≠ 0 ∧ env.added i = true then ready i &&& pollErr else 0 := by
  have hmask : (sets.events i ||| pollHup ||| pollErr) &&& selectWrite = pollErr := by
    rw [SelectSets.events, h]
    cases orZero sets.readfds i <;> cases orZero sets.exceptfds i <;> decide
  rw [PollEnv.got]
  split_ifs
  · rw [BitVec.and_assoc, hmask]
  · exact BitVec.zero_and

lemma got_ex (h : orZero sets.exceptfds i = false) : env.got sets ready i &&& selectEx = 0 := by
  have hmask : (sets.events i ||| pollHup ||| pollErr) &&& selectEx = 0 := by
    rw [SelectSets.events, h]
    cases orZero sets.readfds i <;> cases orZero sets.writefds i <;> decide
  rw [PollEnv.got]
  split_ifs
  · rw [BitVec.and_assoc, hmask]
    exact BitVec.and_zero
  · exact BitVec.zero_and

/-! ### The bits of the answer -/

lemma callRound_set {set : SelectContext → ℕ → Bool} {mask : PollTypes}
    (hset : ∀ c types fd, set (selectEventCallback c types fd).1 =
      if types &&& mask ≠ 0 then update (set c) fd true else set c)
    (regs : List CallReg) (c : SelectContext) :
    set (callRound selectEventCallback ready regs c).1 i = true ↔
      set c i = true ∨ ∃ r ∈ regs, r.info = i ∧ r.pending ready &&& mask ≠ 0 := by
  induction regs generalizing c with
  | nil => simp [callRound]
  | cons r rs ih =>
    rw [callRound, List.exists_mem_cons_iff]
    by_cases hzero : r.pending ready = 0
    · have hno : ¬ (r.info = i ∧ r.pending ready &&& mask ≠ 0) := by
        rintro ⟨-, hne⟩
        rw [hzero] at hne
        exact hne BitVec.zero_and
      rw [if_pos hzero, ih]
      simp only [hno, false_or]
    · rw [if_neg hzero]
      simp only
      rw [ih, hset, ← or_assoc]
      refine or_congr_left ?_
      by_cases hmask : r.pending ready &&& mask ≠ 0
      · rw [if_pos hmask]
        by_cases hi : r.info = i
        · rw [hi, update_self]
          exact iff_of_true rfl (.inr ⟨rfl, hmask⟩)
        · rw [update_of_ne (Ne.symm hi)]
          exact (or_iff_left fun h => hi h.1).symm
      · rw [if_neg hmask]
        exact (or_iff_left fun h => hmask h.2).symm

lemma round_bits {set : SelectContext → ℕ → Bool} {mask : PollTypes}
    (hset : ∀ c types fd, set (selectEventCallback c types fd).1 =
      if types &&& mask ≠ 0 then update (set c) fd true else set c)
    {c : SelectContext} (hempty : ∀ i, set c i = false) :
    set (callRound selectEventCallback ready (asked env sets (List.range nfds)).reverse c).1 i =
      true ↔ i < nfds ∧ env.got sets ready i &&& mask ≠ 0 := by
  rw [callRound_set hset, hempty]
  simp only [Bool.false_eq_true, false_or, List.mem_reverse]
  constructor
  · rintro ⟨r, hr, rfl, hne⟩
    rw [pending_asked hr] at hne
    exact ⟨List.mem_range.mp (mem_asked.mp hr).1, hne⟩
  · rintro ⟨hi, hne⟩
    have hasked : sets.events i ≠ 0 ∧ env.added i = true := by
      by_contra hno
      rw [PollEnv.got, if_neg hno] at hne
      exact hne BitVec.zero_and
    have hr : (⟨i, sets.events i⟩ : CallReg) ∈ asked env sets (List.range nfds) :=
      mem_asked.mpr ⟨List.mem_range.mpr hi, hasked, rfl⟩
    exact ⟨_, hr, rfl, by rwa [pending_asked hr]⟩

lemma countP_asked :
    ((asked env sets (List.range nfds)).reverse.countP fun r => r.pending ready ≠ 0) =
      (List.range nfds).countP fun i => env.got sets ready i ≠ 0 := by
  rw [List.countP_reverse, asked, List.countP_map, List.countP_filter]
  refine List.countP_congr fun i _ => ?_
  simp only [Function.comp_apply, Bool.and_eq_true, decide_eq_true_eq]
  constructor
  · rintro ⟨hne, hasked⟩
    rwa [PollEnv.got, if_pos hasked]
  · intro hne
    have hasked : sets.events i ≠ 0 ∧ env.added i = true := by
      by_contra hno
      rw [PollEnv.got, if_neg hno] at hne
      exact hne rfl
    rw [PollEnv.got, if_pos hasked] at hne
    exact ⟨hne, hasked⟩

/-! ### The count -/

lemma bitCount_eq {set : ℕ → Bool} {p : ℕ → Prop} [DecidablePred p]
    (h : ∀ i, set i = true ↔ i < nfds ∧ p i) :
    bitCount nfds (some set) = (List.range nfds).countP fun i => p i := by
  have hle : nfds ≤ 8 * bitsSize nfds := by
    rw [bitsSize]
    omega
  obtain ⟨d, hd⟩ := Nat.exists_eq_add_of_le hle
  rw [bitCount, hd, List.range_add, List.countP_append, List.countP_map]
  have hbeyond : (List.range d).countP (set ∘ (nfds + ·)) = 0 := by
    rw [List.countP_eq_zero]
    intro j _ hj
    exact absurd ((h _).mp hj).1 (Nat.not_lt.mpr (Nat.le_add_right nfds j))
  rw [hbeyond, Nat.add_zero]
  refine List.countP_congr fun i hi => ?_
  rw [h, decide_eq_true_eq]
  exact and_iff_right (List.mem_range.mp hi)

lemma countP_eq_sum (l : List ℕ) (p : ℕ → Prop) [DecidablePred p] :
    (l.countP fun i => p i) = (l.map fun i => if p i then 1 else 0).sum := by
  induction l with
  | nil => rfl
  | cons i l ih =>
    rw [List.countP_cons, List.map_cons, List.sum_cons, ← ih, Nat.add_comm]
    simp only [decide_eq_true_eq]

lemma bitCount_stored {given : Option (ℕ → Bool)} {set : ℕ → Bool} {p : ℕ → Prop}
    [DecidablePred p] (h : ∀ i, set i = true ↔ i < nfds ∧ p i) :
    bitCount nfds (given.map fun _ => set) =
      ((List.range nfds).map fun i => if given.isSome ∧ p i then 1 else 0).sum := by
  cases given with
  | none => simp [bitCount]
  | some old =>
    rw [Option.map_some, bitCount_eq h, countP_eq_sum]
    simp

lemma balance_iff (l : List ℕ) (has : ℕ → Prop) [DecidablePred has] (places : ℕ → ℕ)
    (hplaces : ∀ i, places i ≠ 0 → has i) :
    (l.countP fun i => has i) = (l.map places).sum ↔
      (l.map fun i => places i - 1).sum = l.countP fun i => has i ∧ places i = 0 := by
  have hsum : (l.map places).sum =
      (l.map fun i => places i - 1).sum + l.countP fun i => places i ≠ 0 := by
    induction l with
    | nil => rfl
    | cons i l ih =>
      rw [List.map_cons, List.map_cons, List.sum_cons, List.sum_cons, List.countP_cons, ih]
      simp only [decide_eq_true_eq]
      split_ifs <;> omega
  have hcount : (l.countP fun i => has i) =
      (l.countP fun i => places i ≠ 0) + l.countP fun i => has i ∧ places i = 0 := by
    refine countP_either fun i _ => ?_
    simp only [decide_eq_true_eq]
    refine ⟨⟨fun h => ?_, fun h => h.elim (hplaces i) And.left⟩, fun h => h.1 h.2.2⟩
    by_cases hzero : places i = 0
    · exact .inr ⟨h, hzero⟩
    · exact .inl hzero
  omega

lemma subset_iff {given : Option (ℕ → Bool)} {set : ℕ → Bool} {mask kinds : PollTypes}
    (hset : ∀ i, set i = true ↔ i < nfds ∧ env.got sets ready i &&& mask ≠ 0)
    (hgot : ∀ i, orZero given i = false → env.got sets ready i &&& mask =
      if sets.events i ≠ 0 ∧ env.added i = true then ready i &&& kinds else 0) :
    (∀ after ∈ given.map fun _ => set, ∀ i, after i = true → orZero given i = true) ↔
      ∀ i < nfds, sets.events i ≠ 0 → env.added i = true → ready i &&& kinds ≠ 0 →
        given = none ∨ orZero given i = true := by
  constructor
  · intro h i hi hevents hadded hready
    by_contra hno
    obtain ⟨hgiven, hnot⟩ := not_or.mp hno
    obtain ⟨old, hold⟩ := Option.ne_none_iff_exists'.mp hgiven
    refine hnot (h set (by simp [hold]) i ((hset i).mpr ⟨hi, ?_⟩))
    rwa [hgot i (Bool.not_eq_true _ ▸ hnot), if_pos ⟨hevents, hadded⟩]
  · intro h after hafter i hi
    obtain ⟨old, hold, rfl⟩ := Option.map_eq_some_iff.mp hafter
    obtain ⟨hlt, hne⟩ := (hset i).mp hi
    by_contra hnot
    rw [hgot i (Bool.not_eq_true _ ▸ hnot)] at hne
    split_ifs at hne with hasked
    · exact (h i hlt hasked.1 hasked.2 hne).elim (fun hnone => by simp [hold] at hnone) hnot
    · exact hne rfl

lemma sub_iff {c : SelectContext}
    (hread : ∀ i, c.readfds i = true ↔ i < nfds ∧ env.got sets ready i &&& selectRead ≠ 0)
    (hwrite : ∀ i, c.writefds i = true ↔ i < nfds ∧ env.got sets ready i &&& selectWrite ≠ 0)
    (hex : ∀ i, c.exceptfds i = true ↔ i < nfds ∧ env.got sets ready i &&& selectEx ≠ 0) :
    (sets.store c).Sub sets ↔
      (∀ i < nfds, sets.events i ≠ 0 → env.added i = true → ready i &&& (pollHup ||| pollErr) ≠ 0 →
        sets.readfds = none ∨ orZero sets.readfds i = true) ∧
      ∀ i < nfds, sets.events i ≠ 0 → env.added i = true → ready i &&& pollErr ≠ 0 →
        sets.writefds = none ∨ orZero sets.writefds i = true := by
  have hnever : ∀ after ∈ (sets.store c).exceptfds, ∀ i, after i = true →
      orZero sets.exceptfds i = true := by
    intro after hafter i hi
    obtain ⟨old, -, rfl⟩ := Option.map_eq_some_iff.mp hafter
    by_contra hnot
    exact ((hex i).mp hi).2 (got_ex (Bool.not_eq_true _ ▸ hnot))
  rw [← subset_iff hread fun _ => got_read, ← subset_iff hwrite fun _ => got_write]
  exact ⟨fun h => ⟨h.1, h.2.1⟩, fun h => ⟨h.1, h.2, hnever⟩⟩

lemma total_iff {c : SelectContext}
    (hread : ∀ i, c.readfds i = true ↔ i < nfds ∧ env.got sets ready i &&& selectRead ≠ 0)
    (hwrite : ∀ i, c.writefds i = true ↔ i < nfds ∧ env.got sets ready i &&& selectWrite ≠ 0)
    (hex : ∀ i, c.exceptfds i = true ↔ i < nfds ∧ env.got sets ready i &&& selectEx ≠ 0) :
    ((List.range nfds).countP fun i => env.got sets ready i ≠ 0) =
        (sets.store c).bitTotal nfds ↔
      ((List.range nfds).map fun i => env.places sets ready i - 1).sum =
        (List.range nfds).countP fun i =>
          env.got sets ready i ≠ 0 ∧ env.places sets ready i = 0 := by
  have htotal : (sets.store c).bitTotal nfds =
      ((List.range nfds).map fun i => env.places sets ready i).sum := by
    rw [SelectSets.bitTotal, SelectSets.store, bitCount_stored hread, bitCount_stored hwrite,
      bitCount_stored hex, ← List.sum_map_add, ← List.sum_map_add]
    rfl
  have hplaces (i : ℕ) (h : env.places sets ready i ≠ 0) : env.got sets ready i ≠ 0 := by
    intro hzero
    have hand (mask : PollTypes) : ¬ env.got sets ready i &&& mask ≠ 0 := by
      rw [hzero]
      exact fun hne => hne BitVec.zero_and
    exact h (by simp only [PollEnv.places, hand, and_false, if_false])
  rw [htotal, balance_iff _ _ _ hplaces]

lemma empty_consistent (nfds : ℕ) (sets : SelectSets) :
    (SelectDone.stored 0 (sets.store .empty)).Consistent
      nfds sets := by
  have hnone (given : Option (ℕ → Bool)) :
      ∀ after ∈ given.map fun _ _ => false, ∀ i, after i = true → orZero given i = true := by
    intro after hafter i hi
    obtain ⟨old, -, rfl⟩ := Option.map_eq_some_iff.mp hafter
    cases hi
  have hcount (given : Option (ℕ → Bool)) : bitCount nfds (given.map fun _ _ => false) = 0 := by
    cases given <;> simp [bitCount]
  refine ⟨⟨hnone _, hnone _, hnone _⟩, ?_⟩
  rw [SelectSets.bitTotal]
  exact (congrArg₂ (· + ·) (congrArg₂ (· + ·) (hcount _) (hcount _)) (hcount _)).symm

lemma selectCommon_iff (env : PollEnv) (nfds : ℕ) (sets : SelectSets) :
    (selectCommon env nfds sets).Consistent nfds sets ↔ env.SelectFits nfds sets := by
  by_cases hreadable : env.readable = false
  · rw [selectCommon, if_pos hreadable]
    exact iff_of_true trivial (.inl hreadable)
  rw [selectCommon, if_neg hreadable]
  cases hcreated : env.created with
  | some err => exact iff_of_true trivial (.inr (.inl (by simp [hcreated])))
  | none =>
    simp only
    by_cases hclosed : ∃ i < nfds, sets.events i ≠ 0 ∧ env.file i = none
    · have hrange : ∃ i ∈ List.range nfds, sets.events i ≠ 0 ∧ env.file i = none := by
        simpa using hclosed
      obtain ⟨err, herr⟩ := selectRegs_error hrange
      rw [herr]
      exact iff_of_true trivial (.inr (.inr (.inr (.inl hclosed))))
    have hopen (i : ℕ) (hi : i ∈ List.range nfds) (hevents : sets.events i ≠ 0) :
        env.file i ≠ none := fun hfile => hclosed ⟨i, List.mem_range.mp hi, hevents, hfile⟩
    rw [selectRegs_ok hopen]
    have htake (ready : ℕ → PollTypes) (r : CallReg)
        (hr : r ∈ (asked env sets (List.range nfds)).reverse) (hne : r.pending ready ≠ 0)
        (c : SelectContext) (_ : True) : True ∧
          (selectEventCallback c (r.pending ready) r.info).2 = true := by
      refine ⟨trivial, decide_eq_true ?_⟩
      rw [pending_asked (List.mem_reverse.mp hr)] at hne ⊢
      rwa [got_all]
    have hlast : env.rounds.find? (regsWake (asked env sets (List.range nfds)).reverse) =
        env.lastSelect nfds sets := by
      rw [PollEnv.lastSelect]
      congr 1
      refine funext fun ready => ?_
      have hcount := @countP_asked env sets ready nfds
      rw [Bool.eq_iff_iff, regsWake, List.any_eq_true, List.any_eq_true, ← List.countP_pos_iff,
        ← List.countP_pos_iff, hcount]
    simp only
    rw [callWait_eq (P := fun _ => True) trivial htake, hlast]
    by_cases hwrite : env.writable = false
    · have hfits : env.SelectFits nfds sets := .inr (.inr (.inl hwrite))
      refine iff_of_true ?_ hfits
      split
      · trivial
      · rw [if_neg (by simp [hwrite])]
        trivial
    rw [Bool.not_eq_false] at hwrite
    have hfits : env.SelectFits nfds sets ↔
        ∀ ready, env.lastSelect nfds sets = some ready → env.SelectTells nfds sets ready := by
      simp only [PollEnv.SelectFits, hreadable, hcreated, hwrite, hclosed, ne_eq,
        not_true_eq_false, Bool.true_eq_false, false_or]
    rw [hfits]
    cases hsome : env.lastSelect nfds sets with
    | none =>
      refine iff_of_true ?_ (by rintro ready h; cases h)
      simp only [callWait]
      cases env.ending with
      | failed err => trivial
      | timeout =>
        simp only [if_pos hwrite]
        exact empty_consistent nfds sets
    | some ready =>
      simp only [if_pos hwrite, Option.some.injEq, forall_eq']
      rw [countP_asked]
      have hbits {g : SelectContext → ℕ → Bool} {mask : PollTypes}
          (hset : ∀ c types fd, g (selectEventCallback c types fd).1 =
            if types &&& mask ≠ 0 then update (g c) fd true else g c)
          (hempty : ∀ i, g .empty i = false) (i : ℕ) :=
        @round_bits env sets ready nfds i g mask hset .empty hempty
      have hread := @hbits SelectContext.readfds selectRead (fun _ _ _ => rfl) fun _ => rfl
      have hwrites := @hbits SelectContext.writefds selectWrite (fun _ _ _ => rfl) fun _ => rfl
      have hex := @hbits SelectContext.exceptfds selectEx (fun _ _ _ => rfl) fun _ => rfl
      rw [SelectDone.Consistent, sub_iff hread hwrites hex, total_iff hread hwrites hex]
      exact ⟨fun h => ⟨h.1.1, h.1.2, h.2⟩, fun h => ⟨⟨h.reads, h.writes⟩, h.balance⟩⟩

end Select

/-- `poll` returns the number of entries that got something, and `select` the number of bits in what
it stores, and both tell only what was asked for, if and only if their conditions hold. -/
theorem poll_select_iff (env : PollEnv) (polls : List PollFd) (nfds : ℕ) (sets : SelectSets) :
    ((sysPoll env polls).Consistent polls ↔ env.PollFits polls) ∧
      ((selectCommon env nfds sets).Consistent nfds sets ↔ env.SelectFits nfds sets) :=
  ⟨sysPoll_iff env polls, selectCommon_iff env nfds sets⟩

/-- A closed descriptor is told of and not counted; and a descriptor that is ready for reading and
writing counts once. -/
theorem poll_select_fails : (¬ ∀ env polls, (sysPoll env polls).Consistent polls) ∧
    ¬ ∀ env nfds sets, (selectCommon env nfds sets).Consistent nfds sets := by
  constructor
  · intro h
    have hstored := h ⟨fun _ => none, true, true, none, fun _ => true, [], .timeout⟩ [⟨3, 1, 0⟩]
    exact absurd hstored.1 (by decide)
  · intro h
    have hstored := h
      ⟨some, true, true, none, fun _ => true, [fun _ => pollRead ||| pollWrite], .timeout⟩ 1
      ⟨some fun _ => true, some fun _ => true, none⟩
    exact absurd hstored.2 (by decide)

end ShellBox
