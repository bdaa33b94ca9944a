import ShellBox.Kernel.FastCalls

/-!
# When the fast system calls agree with the table

A fast handler and the handler of the table differ in three ways. `EPERM` is the number of the
fast path's own `-1`, so a call that the host refuses with it is made again. The fast `write`
neither reports a change nor asks the filter on stderr, and the fast `read` does not ask whether
the descriptor is a directory. And the fast `fstat` gives the host's record where the file system
of the descriptor has one of its own.

Everywhere else the two leave the same result, memory, position and changes.
-/

namespace ShellBox

open Function World

variable {E : CallEnv} {c : HotCall} {st st' : SysState} {fd : OpenFd}

/-! ### Results -/

lemma errMap_eq_neg {e : HostErrno} {n : ℕ} (hn : n ∈ errCases) :
    errMap e = -BitVec.ofNat 32 n ↔ e = .named ⟨n, hn⟩ := by
  have hlt : ∀ m ∈ errCases, m < 134 := by decide
  cases e with
  | named m =>
    have h₁ := hlt n hn
    have h₂ := hlt m m.2
    simp only [errMap, HostErrno.named.injEq, Subtype.ext_iff, BitVec.neg_inj]
    constructor
    · intro heq
      have := congrArg BitVec.toNat heq
      simp only [BitVec.toNat_ofNat] at this
      omega
    · intro heq
      rw [heq]
  | unknown m =>
    simp only [errMap, BitVec.neg_inj, reduceCtorEq, iff_false]
    intro heq
    -- the numbers of the table are too small to have this bit
    have hnot : (BitVec.ofNat 32 n).getLsbD 12 = false := by
      rw [BitVec.getLsbD_ofNat, Nat.testBit_eq_false_of_lt (lt_trans (hlt n hn) (by decide)),
        Bool.and_false]
    rw [← heq, BitVec.getLsbD_or, Bool.or_eq_false_iff] at hnot
    exact absurd hnot.2 (by decide)

lemma errMap_eq_notTaken {e : HostErrno} : errMap e = notTaken ↔ e = .eperm :=
  errMap_eq_neg (n := 1) (by decide)

lemma errMap_eq_efault {e : HostErrno} : errMap e = efaultRet ↔ e = .efault :=
  errMap_eq_neg (n := 14) (by decide)

lemma errMap_eq_eisdir {e : HostErrno} : errMap e = eisdirRet ↔ e = .eisdir :=
  errMap_eq_neg (n := 21) (by decide)

lemma errMap_ne_ofNat (e : HostErrno) {n : ℕ} (hn : n ≤ 4096) : errMap e ≠ BitVec.ofNat 32 n := by
  have hneg : ∀ v : BitVec 32, 0 < v.toNat → v.toNat < 2 ^ 31 → -v ≠ BitVec.ofNat 32 n := by
    intro v hpos hlt heq
    have := congrArg BitVec.toNat heq
    rw [BitVec.toNat_neg, BitVec.toNat_ofNat] at this
    omega
  have hbound : ∀ m ∈ errCases, 0 < m ∧ m < 134 := by decide
  cases e with
  | named m =>
    have := hbound m m.2
    apply hneg <;> rw [BitVec.toNat_ofNat] <;> omega
  | unknown m =>
    apply hneg
    · rw [BitVec.toNat_or]
      exact lt_of_lt_of_le (by decide) Nat.right_le_or
    · rw [BitVec.toNat_or]
      refine Nat.or_lt_two_pow ?_ (by decide)
      rw [BitVec.toNat_setWidth]
      omega

lemma slowReturn_setWidth (res : BitVec 32) : slowReturn (res.setWidth 64) = fastReturn res := by
  have hhigh : res.setWidth 64 >>> 32 = 0#64 := by
    apply BitVec.eq_of_toNat_eq
    rw [BitVec.toNat_ushiftRight, BitVec.toNat_setWidth, Nat.shiftRight_eq_div_pow]
    have := res.isLt
    simp
    omega
  have hlow : (res.setWidth 64).setWidth 32 = res := by simp
  simp only [slowReturn, fastReturn, hlow, hhigh, BitVec.ofNat_eq_ofNat, true_and]

lemma setWidth_fastReturn (res : BitVec 32) : (fastReturn res).setWidth 32 = res := by
  unfold fastReturn
  split_ifs
  · apply BitVec.eq_of_getLsbD_eq
    intro i hi
    simp [BitVec.getLsbD_signExtend, hi]
    omega
  · simp

/-! ### Agreement -/

/-- What the guest sees, where its descriptors stand, and what the listener was told. -/
structure SysState.SameFor (a b : SysState) : Prop where
  regs : a.regs = b.regs
  mem : a.mem = b.mem
  files : a.files = b.files
  position : a.position = b.position
  changes : a.changes = b.changes

lemma SysState.SameFor.refl (a : SysState) : a.SameFor a := ⟨rfl, rfl, rfl, rfl, rfl⟩

/-- The call leaves what the handler of the table leaves when it is executed once. -/
def CallsAgree (E : CallEnv) (c : HotCall) (st : SysState) : Prop :=
  Option.Rel SysState.SameFor (handleInterrupt E c st) (slowPath E c st)

def finish (r : SysState × BitVec 32) : SysState := r.1.setX0 (fastReturn r.2)

lemma slowPath_eq : slowPath E c st = (tableHandler E c st).map finish := by
  unfold slowPath finish
  congr 1
  funext ⟨st₁, res⟩
  exact congrArg st₁.setX0 (slowReturn_setWidth res)

lemma sameFor_finish {a b : SysState} (h : a.SameFor b) {v v' : BitVec 32} (hv : v = v') :
    (finish (a, v)).SameFor (finish (b, v')) where
  regs := by
    subst hv
    simp only [finish, SysState.setX0, h.regs]
  mem := h.mem
  files := h.files
  position := h.position
  changes := h.changes

lemma SysState.SameFor.result {a b : SysState × BitVec 32} (h : (finish a).SameFor (finish b)) :
    a.2 = b.2 := by
  have hx0 := congrArg (BitVec.setWidth 32) (congrFun h.regs 0)
  simpa [finish, SysState.setX0, setWidth_fastReturn] using hx0

lemma rel_refl (o : Option SysState) : Option.Rel SysState.SameFor o o := by
  cases o with
  | none => exact .none
  | some a => exact .some (.refl a)

lemma callsAgree_of_notTaken (h : fastHandler E c st = some (st, notTaken)) :
    CallsAgree E c st := by
  simp only [CallsAgree, handleInterrupt, h, ne_eq, not_true_eq_false, if_false]
  exact rel_refl _

/-- Where the fast handler does what the table's does, all that can differ is that `-1` makes the
handler of the table run as well. -/
lemma callsAgree_iff_of_copy (h : fastHandler E c st = tableHandler E c st) :
    CallsAgree E c st ↔ ∀ st₁, tableHandler E c st = some (st₁, notTaken) →
      Option.Rel SysState.SameFor (slowPath E c st₁) (some (finish (st₁, notTaken))) := by
  rw [CallsAgree, handleInterrupt, h, slowPath_eq]
  cases tableHandler E c st with
  | none => simp
  | some r =>
    obtain ⟨st₁, res⟩ := r
    by_cases hres : res = notTaken
    · subst hres
      simp [slowPath_eq]
    · simp only [ne_eq, hres, not_false_eq_true, if_true, Option.map_some, Option.some.injEq,
        Prod.mk.injEq, and_false, false_implies, implies_true, iff_true]
      exact .some (.refl _)

/-! ### Calls that the host refuses twice -/

/-- If the host refuses the call with `EPERM`, it does so when the call is made again. -/
def EpermAgain {α : Type} (answers : List (Except HostErrno α)) : Prop :=
  ∀ rest, retryEintr answers = some (.error .eperm, rest) →
    ∃ rest', retryEintr rest = some (.error .eperm, rest')

def EpermNext {α : Type} (answers : List (Except HostErrno α)) : Prop :=
  ∀ rest, answers = .error .eperm :: rest → ∃ rest', rest = .error .eperm :: rest'

lemma errnoMap_eperm : st.errnoMap .eperm = (st, notTaken) := rfl

lemma errnoMap_notTaken {e : HostErrno} (h : st.errnoMap e = (st', notTaken)) :
    e = .eperm ∧ st' = st := by
  obtain rfl : e = .eperm := errMap_eq_notTaken.mp (congrArg Prod.snd h)
  exact ⟨rfl, (congrArg Prod.fst h).symm⟩

/-! ### `read` -/

def deliver (E : CallEnv) (buf : List UInt8) (st : SysState) : SysState × BitVec 32 :=
  match st.userWrite E.memHost E.space st.addr buf with
  | (st, true) => (st, BitVec.ofNat 32 buf.length)
  | (st, false) => (st, efaultRet)

def plainRead (E : CallEnv) (fd : OpenFd) (st : SysState) : Option (SysState × BitVec 32) :=
  (st.hostRead fd st.size).map fun (st, r) =>
    match r with
    | .error e => st.errnoMap e
    | .ok buf => deliver E buf st

lemma ofNat_ne_of_large {n : ℕ} {v : BitVec 32} (hn : n ≤ 4096) (hv : 4096 < v.toNat) :
    BitVec.ofNat 32 n ≠ v := by
  intro heq
  have := congrArg BitVec.toNat heq
  rw [BitVec.toNat_ofNat] at this
  omega

lemma deliver_ne {buf : List UInt8} (hlen : buf.length ≤ 4096) (st : SysState) {v : BitVec 32}
    (hv : 4096 < v.toNat) (hfault : efaultRet ≠ v) : (deliver E buf st).2 ≠ v := by
  unfold deliver
  split
  · exact ofNat_ne_of_large hlen hv
  · exact hfault

lemma deliver_ne_notTaken {buf : List UInt8} (hlen : buf.length ≤ 4096) (st : SysState) :
    (deliver E buf st).2 ≠ notTaken := deliver_ne hlen st (by decide) (by decide)

lemma hostRead_cases (fd : OpenFd) (n : ℕ) (st : SysState) :
    (retryEintr st.host.reads = none ∧ st.hostRead fd n = none) ∨
    (∃ e rest, retryEintr st.host.reads = some (.error e, rest) ∧
      st.hostRead fd n = some ({ st with host.reads := rest }, .error e)) ∨
    ∃ buf pos rest, retryEintr st.host.reads = some (.ok (buf, pos), rest) ∧
      st.hostRead fd n = some ({ st with
        host.reads := rest
        position := update st.position fd.realFd pos }, .ok (buf.take n)) := by
  unfold SysState.hostRead
  cases retryEintr st.host.reads with
  | none => exact Or.inl ⟨rfl, rfl⟩
  | some r =>
    obtain ⟨e | ⟨buf, pos⟩, rest⟩ := r
    · exact Or.inr (Or.inl ⟨e, rest, rfl, rfl⟩)
    · exact Or.inr (Or.inr ⟨buf, pos, rest, rfl, rfl⟩)

lemma fastRead_eq (hfd : st.files st.fdNo = some fd) (hops : fd.ops = .realfs)
    (hsize : st.size ≤ 4096) : fastHandler E .read st = plainRead E fd st := by
  simp only [fastHandler, fastRead, hfd, hops, Nat.not_lt.mpr hsize, if_false, ne_eq,
    not_true_eq_false, plainRead]
  rcases hostRead_cases fd st.size st with ⟨-, hr⟩ | ⟨e, rest, -, hr⟩ | ⟨buf, pos, rest, -, hr⟩
  · rw [hr]; rfl
  · rw [hr]; rfl
  · rw [hr]
    simp only [Option.map_some, Option.some.injEq]
    split_ifs with hlen
    · rfl
    · -- nothing to deliver
      have hnil : buf.take st.size = [] :=
        List.length_eq_zero_iff.mp (Nat.eq_zero_of_not_pos hlen)
      rw [hnil]
      rfl

lemma sysRead_eq (hfd : st.files st.fdNo = some fd) (hops : fd.ops = .realfs)
    (hsize : st.size ≤ 4096) (hdir : fd.isDir = false) :
    tableHandler E .read st = plainRead E fd st := by
  simp only [tableHandler, sysRead, sysReadBuf, hfd, hdir, Bool.false_eq_true, if_false, readOpOf,
    hops, realfsRead, plainRead]
  rcases hostRead_cases fd st.size st with ⟨-, hr⟩ | ⟨e, rest, -, hr⟩ | ⟨buf, pos, rest, -, hr⟩
  · rw [hr]; rfl
  · rw [hr]; rfl
  · rw [hr]
    have hlen : (buf.take st.size).length ≤ 4096 := (List.length_take_le _ _).trans hsize
    have hmsb : (BitVec.ofNat 32 (buf.take st.size).length).msb = false := by
      rw [BitVec.msb_eq_false_iff_two_mul_lt, BitVec.toNat_ofNat]
      omega
    simp only [Option.map_some, hmsb, Bool.false_eq_true, if_false]
    rfl

lemma sysRead_dir (hfd : st.files st.fdNo = some fd) (hdir : fd.isDir = true) :
    tableHandler E .read st = some (st, eisdirRet) := by
  simp [tableHandler, sysRead, sysReadBuf, hfd, hdir]

/-- When the two reads agree: the host refuses a directory as the table does, and what it refuses
with `EPERM` it refuses again. -/
def ReadAlike (fd : OpenFd) (st : SysState) : Prop :=
  if fd.isDir then ∃ e rest, retryEintr st.host.reads = some (.error e, rest) ∧
    (e = .eisdir ∨ e = .eperm)
  else EpermAgain st.host.reads

lemma plainRead_eq_notTaken (hsize : st.size ≤ 4096) {st₁ : SysState} :
    plainRead E fd st = some (st₁, notTaken) ↔
      ∃ rest, retryEintr st.host.reads = some (.error .eperm, rest) ∧
        st₁ = { st with host.reads := rest } := by
  unfold plainRead
  rcases hostRead_cases fd st.size st with ⟨h₁, hr⟩ | ⟨e, rest, h₁, hr⟩ | ⟨buf, pos, rest, h₁, hr⟩
  · simp [hr, h₁]
  · simp only [hr, h₁, Option.map_some, Option.some.injEq, Prod.mk.injEq, Except.error.injEq]
    constructor
    · intro heq
      obtain ⟨rfl, rfl⟩ := errnoMap_notTaken heq
      exact ⟨rest, ⟨rfl, rfl⟩, rfl⟩
    · rintro ⟨_, ⟨rfl, rfl⟩, rfl⟩
      rfl
  · simp only [hr, h₁, Option.map_some, Option.some.injEq, Prod.mk.injEq, reduceCtorEq, false_and,
      exists_false, iff_false]
    intro heq
    exact deliver_ne_notTaken ((List.length_take_le _ _).trans hsize) _ (congrArg Prod.snd heq)

lemma read_again_iff (st : SysState) (hfd : st.files st.fdNo = some fd) (hops : fd.ops = .realfs)
    (hsize : st.size ≤ 4096) (hdir : fd.isDir = false) :
    Option.Rel SysState.SameFor (slowPath E .read st) (some (finish (st, notTaken))) ↔
      ∃ rest, retryEintr st.host.reads = some (.error .eperm, rest) := by
  rw [slowPath_eq, sysRead_eq hfd hops hsize hdir, plainRead]
  rcases hostRead_cases fd st.size st with ⟨h₁, hr⟩ | ⟨e, rest, h₁, hr⟩ | ⟨buf, pos, rest, h₁, hr⟩
  · simp [hr, h₁]
  · simp only [hr, h₁, Option.map_some, Option.rel_some_some, Option.some.injEq, Prod.mk.injEq,
      Except.error.injEq]
    constructor
    · intro hsame
      exact ⟨rest, errMap_eq_notTaken.mp hsame.result, rfl⟩
    · rintro ⟨_, rfl, -⟩
      exact ⟨rfl, rfl, rfl, rfl, rfl⟩
  · simp only [hr, h₁, Option.map_some, Option.rel_some_some, Option.some.injEq, Prod.mk.injEq,
      reduceCtorEq, false_and, exists_false, iff_false]
    intro hsame
    exact deliver_ne_notTaken ((List.length_take_le _ _).trans hsize) _ hsame.result

lemma read_agrees_iff (hfd : st.files st.fdNo = some fd) (hops : fd.ops = .realfs)
    (hsize : st.size ≤ 4096) : CallsAgree E .read st ↔ ReadAlike fd st := by
  unfold ReadAlike
  cases hdir : fd.isDir with
  | false =>
    simp only [Bool.false_eq_true, if_false]
    rw [callsAgree_iff_of_copy ((fastRead_eq hfd hops hsize).trans
      (sysRead_eq hfd hops hsize hdir).symm), sysRead_eq hfd hops hsize hdir]
    simp only [plainRead_eq_notTaken hsize]
    constructor
    · intro hagree rest hrest
      exact (read_again_iff { st with host.reads := rest } hfd hops hsize hdir).mp
        (hagree _ ⟨rest, hrest, rfl⟩)
    · rintro hagain _ ⟨rest, hrest, rfl⟩
      exact (read_again_iff { st with host.reads := rest } hfd hops hsize hdir).mpr
        (hagain rest hrest)
  | true =>
    simp only [if_true]
    rw [CallsAgree, handleInterrupt, fastRead_eq hfd hops hsize, slowPath_eq, sysRead_dir hfd hdir,
      plainRead, Option.map_some]
    rcases hostRead_cases fd st.size st with ⟨h₁, hr⟩ | ⟨e, rest, h₁, hr⟩ | ⟨buf, pos, rest, h₁, hr⟩
    · simp [hr, h₁]
    · simp only [hr, h₁, Option.map_some, Option.some.injEq, Prod.mk.injEq, Except.error.injEq]
      by_cases he : e = .eperm
      · -- the table comes after the refusal
        subst he
        have hdir' : tableHandler E .read { st with host.reads := rest } =
            some ({ st with host.reads := rest }, eisdirRet) := sysRead_dir hfd hdir
        simp only [errnoMap_eperm, ne_eq, not_true_eq_false, if_false, slowPath_eq, hdir',
          Option.map_some, Option.rel_some_some]
        exact ⟨fun _ => ⟨_, _, ⟨rfl, rfl⟩, Or.inr rfl⟩, fun _ => ⟨rfl, rfl, rfl, rfl, rfl⟩⟩
      · have hne : errMap e ≠ notTaken := fun h => he (errMap_eq_notTaken.mp h)
        simp only [SysState.errnoMap, ne_eq, hne, not_false_eq_true, if_true, Option.rel_some_some]
        constructor
        · intro hsame
          exact ⟨e, rest, ⟨rfl, rfl⟩, Or.inl (errMap_eq_eisdir.mp (SysState.SameFor.result
            (a := (_, errMap e)) (b := (st, eisdirRet)) hsame))⟩
        · rintro ⟨_, _, ⟨rfl, rfl⟩, rfl | rfl⟩
          · exact ⟨rfl, rfl, rfl, rfl, rfl⟩
          · exact absurd rfl he
    · have hlen : (buf.take st.size).length ≤ 4096 := (List.length_take_le _ _).trans hsize
      have hne := fun st₁ => deliver_ne_notTaken (E := E) hlen st₁
      have hne' := fun st₁ => deliver_ne (E := E) (v := eisdirRet) hlen st₁ (by decide) (by decide)
      simp only [hr, h₁, Option.map_some, Option.some.injEq, Prod.mk.injEq, reduceCtorEq,
        false_and, exists_false, iff_false, ne_eq, hne, not_false_eq_true, if_true,
        Option.rel_some_some]
      exact fun hsame => hne' _ (SysState.SameFor.result (b := (st, eisdirRet)) hsame)

/-! ### `write` -/

lemma hostWrite_cases (fd : OpenFd) (n : ℕ) (st : SysState) :
    (retryEintr st.host.writes = none ∧ st.hostWrite fd n = none) ∨
    (∃ e rest, retryEintr st.host.writes = some (.error e, rest) ∧
      st.hostWrite fd n = some ({ st with host.writes := rest }, .error e)) ∨
    ∃ k pos rest, retryEintr st.host.writes = some (.ok (k, pos), rest) ∧
      st.hostWrite fd n = some ({ st with
        host.writes := rest
        position := update st.position fd.realFd pos }, .ok (min k n)) := by
  unfold SysState.hostWrite
  cases retryEintr st.host.writes with
  | none => exact Or.inl ⟨rfl, rfl⟩
  | some r =>
    obtain ⟨e | ⟨k, pos⟩, rest⟩ := r
    · exact Or.inr (Or.inl ⟨e, rest, rfl, rfl⟩)
    · exact Or.inr (Or.inr ⟨k, pos, rest, rfl, rfl⟩)

lemma SysState.userRead_again {h : Host} {s addr count : ℕ} {buf : List UInt8}
    {st₁ st₂ : SysState} (hread : st.userRead h s addr count = (st₁, some buf))
    (hmem : st₂.mem = st₁.mem) : st₂.userRead h s addr count = (st₂, some buf) := by
  obtain ⟨rfl, hbuf⟩ := Prod.mk.inj hread
  have hagain := ShellBox.userRead_again st.mem.2 (Prod.ext rfl hbuf)
  have heq : ShellBox.userRead h s addr count st₂.mem.1 = (st₂.mem.1, some buf) := by
    rw [hmem]
    exact hagain
  unfold SysState.userRead
  simp only [heq, Subtype.coe_eta]

/-- The write of bytes that the filter lets pass, up to the report of the change. -/
def plainWrite (fd : OpenFd) (report : SysState → SysState) (st : SysState) :
    Option (SysState × BitVec 32) :=
  (st.hostWrite fd st.size).map fun (st, r) =>
    match r with
    | .error e => st.errnoMap e
    | .ok n => (report st, BitVec.ofNat 32 n)

section Write

variable {buf : List UInt8} {st₁ : SysState}

lemma userRead_eq (hread : st.userRead E.memHost E.space st.addr st.size = (st₁, some buf)) :
    st₁ = { st with mem := st₁.mem } := by
  obtain ⟨rfl, -⟩ := Prod.mk.inj hread
  rfl

lemma fastWrite_eq (hfd : st.files st.fdNo = some fd) (hops : fd.ops = .realfs)
    (hsize : st.size ≤ 4096)
    (hread : st.userRead E.memHost E.space st.addr st.size = (st₁, some buf)) :
    fastHandler E .write st = plainWrite fd id st₁ := by
  simp only [fastHandler, fastWrite, hfd, hops, Nat.not_lt.mpr hsize, if_false, ne_eq,
    not_true_eq_false, hread]
  rw [userRead_eq hread]
  rfl

lemma sysWrite_eq (st : SysState) (hfd : st.files st.fdNo = some fd) (hops : fd.ops = .realfs)
    (hread : st.userRead E.memHost E.space st.addr st.size = (st₁, some buf)) :
    tableHandler E .write st =
      if v8Drops E st.fdNo buf st then
        some ({ st₁ with v8Aborting := true }, BitVec.ofNat 32 st.size)
      else plainWrite fd (·.recordChange fd.changePath) st₁ := by
  have hst₁ := userRead_eq hread
  have hfd₁ : st₁.files st.fdNo = some fd := by rw [hst₁]; exact hfd
  have hdrops : v8Drops E st.fdNo buf st₁ = v8Drops E st.fdNo buf st := by rw [hst₁]; rfl
  have hsize : st₁.size = st.size := by rw [hst₁]; rfl
  simp only [tableHandler, sysWrite, hread, sysWriteBuf, hdrops]
  split_ifs with hdrop
  · rfl
  · simp only [hfd₁, writeOpOf, hops, realfsWrite, plainWrite, hsize]
    rcases hostWrite_cases fd st.size st₁ with
      ⟨-, hr⟩ | ⟨e, rest, -, hr⟩ | ⟨n, pos, rest, -, hr⟩ <;>
      · rw [hr]; rfl

end Write

/-- When the two writes agree. The bytes that the table drops have to be taken by the host, all of
them and without moving the descriptor; other bytes must not be reported, and what the host
refuses with `EPERM` it must refuse again. A write whose bytes cannot be read always agrees. -/
def WriteAlike (E : CallEnv) (fd : OpenFd) (st : SysState) : Prop :=
  ∀ buf, (st.userRead E.memHost E.space st.addr st.size).2 = some buf →
    if v8Drops E st.fdNo buf st then
      ∃ r rest, retryEintr st.host.writes = some (r, rest) ∧
        (r = .error .eperm ∨ ∃ n, st.size ≤ n ∧ r = .ok (n, st.position fd.realFd))
    else EpermAgain st.host.writes ∧
      ((∃ r rest, retryEintr st.host.writes = some (.ok r, rest)) →
        st.consumer = false ∨ fd.changePath = none)

lemma changes_recordChange (st : SysState) (path : Option String) :
    (st.recordChange path).changes = st.changes ↔ st.consumer = false ∨ path = none := by
  cases path with
  | none => simp [SysState.recordChange]
  | some p => cases hc : st.consumer <;> simp [SysState.recordChange, hc]

lemma recordChange_same {a : SysState} (path : Option String) (v : BitVec 32) :
    (finish (a, v)).SameFor (finish (a.recordChange path, v)) ↔
      a.consumer = false ∨ path = none := by
  rw [← changes_recordChange]
  have hrest : (a.recordChange path).regs = a.regs ∧ (a.recordChange path).mem = a.mem ∧
      (a.recordChange path).files = a.files ∧ (a.recordChange path).position = a.position := by
    unfold SysState.recordChange
    cases path with
    | none => exact ⟨rfl, rfl, rfl, rfl⟩
    | some p => cases a.consumer <;> exact ⟨rfl, rfl, rfl, rfl⟩
  obtain ⟨hregs, hmem, hfiles, hpos⟩ := hrest
  constructor
  · exact fun hsame => hsame.changes.symm
  · intro hchanges
    refine ⟨?_, hmem.symm, hfiles.symm, hpos.symm, hchanges.symm⟩
    simp only [finish, SysState.setX0, hregs]

section Write

variable {buf : List UInt8}

lemma write_again_iff (st : SysState) (hfd : st.files st.fdNo = some fd) (hops : fd.ops = .realfs)
    (hsize : st.size ≤ 4096)
    (hread : st.userRead E.memHost E.space st.addr st.size = (st, some buf))
    (hpass : v8Drops E st.fdNo buf st = false) :
    Option.Rel SysState.SameFor (slowPath E .write st) (some (finish (st, notTaken))) ↔
      ∃ rest, retryEintr st.host.writes = some (.error .eperm, rest) := by
  rw [slowPath_eq, sysWrite_eq st hfd hops hread, hpass, if_neg Bool.false_ne_true, plainWrite]
  rcases hostWrite_cases fd st.size st with ⟨h₁, hr⟩ | ⟨e, rest, h₁, hr⟩ | ⟨n, pos, rest, h₁, hr⟩
  · simp [hr, h₁]
  · simp only [hr, h₁, Option.map_some, Option.rel_some_some, Option.some.injEq, Prod.mk.injEq,
      Except.error.injEq]
    constructor
    · intro hsame
      exact ⟨rest, errMap_eq_notTaken.mp hsame.result, rfl⟩
    · rintro ⟨_, rfl, -⟩
      exact ⟨rfl, rfl, rfl, rfl, rfl⟩
  · simp only [hr, h₁, Option.map_some, Option.rel_some_some, Option.some.injEq, Prod.mk.injEq,
      reduceCtorEq, false_and, exists_false, iff_false]
    intro hsame
    exact ofNat_ne_of_large (v := notTaken) ((min_le_right n st.size).trans hsize) (by decide)
      hsame.result

lemma write_dropped_iff (hfd : st.files st.fdNo = some fd) (hops : fd.ops = .realfs)
    (hsize : st.size ≤ 4096) {st₁ : SysState}
    (hread : st.userRead E.memHost E.space st.addr st.size = (st₁, some buf))
    (hdrop : v8Drops E st.fdNo buf st = true) :
    CallsAgree E .write st ↔ ∃ r rest, retryEintr st.host.writes = some (r, rest) ∧
      (r = .error .eperm ∨ ∃ n, st.size ≤ n ∧ r = .ok (n, st.position fd.realFd)) := by
  have hst₁ := userRead_eq hread
  have hhost : st₁.host = st.host := by rw [hst₁]
  have hpos₁ : st₁.position = st.position := by rw [hst₁]
  have hsize₁ : st₁.size = st.size := by rw [hst₁]; rfl
  rw [CallsAgree, handleInterrupt, fastWrite_eq hfd hops hsize hread, slowPath_eq,
    sysWrite_eq st hfd hops hread, if_pos hdrop, plainWrite, Option.map_some]
  rcases hostWrite_cases fd st₁.size st₁ with
    ⟨h₁, hr⟩ | ⟨e, rest, h₁, hr⟩ | ⟨n, pos, rest, h₁, hr⟩
  · rw [hhost] at h₁
    simp [hr, h₁]
  · rw [hhost] at h₁
    simp only [hr, h₁, Option.map_some, Option.some.injEq, Prod.mk.injEq]
    by_cases he : e = .eperm
    · -- the table comes after the refusal, and drops the bytes
      subst he
      have hread₂ : SysState.userRead E.memHost E.space st.addr st.size
          { st₁ with host.writes := rest } = ({ st₁ with host.writes := rest }, some buf) :=
        SysState.userRead_again hread rfl
      have hslow : tableHandler E .write { st₁ with host.writes := rest } =
          some ({ st₁ with host.writes := rest, v8Aborting := true },
            BitVec.ofNat 32 st.size) := by
        rw [hst₁] at hread₂ ⊢
        rw [sysWrite_eq { st with mem := st₁.mem, host.writes := rest } hfd hops hread₂]
        exact if_pos hdrop
      simp only [errnoMap_eperm, ne_eq, not_true_eq_false, if_false, slowPath_eq, hslow,
        Option.map_some, Option.rel_some_some]
      exact ⟨fun _ => ⟨_, _, ⟨rfl, rfl⟩, Or.inl rfl⟩, fun _ => ⟨rfl, rfl, rfl, rfl, rfl⟩⟩
    · have hne : errMap e ≠ notTaken := fun h => he (errMap_eq_notTaken.mp h)
      simp only [SysState.errnoMap, ne_eq, hne, not_false_eq_true, if_true, Option.rel_some_some]
      constructor
      · intro hsame
        exact absurd (SysState.SameFor.result (a := (_, errMap e))
          (b := ({ st₁ with v8Aborting := true }, BitVec.ofNat 32 st.size)) hsame)
          (errMap_ne_ofNat e hsize)
      · rintro ⟨_, _, ⟨rfl, rfl⟩, h | ⟨_, -, h⟩⟩
        · exact absurd (Except.error.inj h) he
        · simp at h
  · rw [hhost] at h₁
    have hle : min n st₁.size ≤ 4096 := (min_le_right _ _).trans (hsize₁ ▸ hsize)
    have hne : BitVec.ofNat 32 (min n st₁.size) ≠ notTaken := ofNat_ne_of_large hle (by decide)
    simp only [hr, h₁, Option.map_some, Option.some.injEq, Prod.mk.injEq, ne_eq, hne,
      not_false_eq_true, if_true, Option.rel_some_some, id]
    constructor
    · intro hsame
      have hcount := congrArg BitVec.toNat (SysState.SameFor.result
        (a := (_, BitVec.ofNat 32 (min n st₁.size)))
        (b := ({ st₁ with v8Aborting := true }, BitVec.ofNat 32 st.size)) hsame)
      rw [BitVec.toNat_ofNat, BitVec.toNat_ofNat] at hcount
      have hpos : update st₁.position fd.realFd pos = st₁.position := hsame.position
      refine ⟨_, _, ⟨rfl, rfl⟩, Or.inr ⟨n, by omega, ?_⟩⟩
      rw [← hpos₁, ← hpos, update_self]
    · rintro ⟨_, _, ⟨rfl, rfl⟩, h | ⟨_, hn, h⟩⟩
      · simp at h
      · obtain ⟨rfl, rfl⟩ := Prod.mk.inj (Except.ok.inj h)
        have hmin : min n st₁.size = st.size := by rw [hsize₁, min_eq_right hn]
        have hpos : update st₁.position fd.realFd (st.position fd.realFd) = st₁.position := by
          rw [hpos₁, update_eq_self]
        exact sameFor_finish (v := BitVec.ofNat 32 (min n st₁.size))
          (a := { st₁ with
            host.writes := rest
            position := update st₁.position fd.realFd (st.position fd.realFd) })
          (b := { st₁ with v8Aborting := true }) ⟨rfl, rfl, rfl, hpos, rfl⟩ (by rw [hmin])

lemma write_passed_iff (hfd : st.files st.fdNo = some fd) (hops : fd.ops = .realfs)
    (hsize : st.size ≤ 4096) {st₁ : SysState}
    (hread : st.userRead E.memHost E.space st.addr st.size = (st₁, some buf))
    (hpass : v8Drops E st.fdNo buf st = false) :
    CallsAgree E .write st ↔ EpermAgain st.host.writes ∧
      ((∃ r rest, retryEintr st.host.writes = some (.ok r, rest)) →
        st.consumer = false ∨ fd.changePath = none) := by
  have hst₁ := userRead_eq hread
  have hhost : st₁.host = st.host := by rw [hst₁]
  have hconsumer : st₁.consumer = st.consumer := by rw [hst₁]
  have hsize₁ : st₁.size = st.size := by rw [hst₁]; rfl
  unfold EpermAgain
  rw [CallsAgree, handleInterrupt, fastWrite_eq hfd hops hsize hread, slowPath_eq,
    sysWrite_eq st hfd hops hread, hpass, if_neg Bool.false_ne_true, plainWrite, plainWrite]
  rcases hostWrite_cases fd st₁.size st₁ with
    ⟨h₁, hr⟩ | ⟨e, rest, h₁, hr⟩ | ⟨n, pos, rest, h₁, hr⟩
  · rw [hhost] at h₁
    simp [hr, h₁]
  · rw [hhost] at h₁
    simp only [hr, h₁, Option.map_some, Option.some.injEq, Prod.mk.injEq, Except.error.injEq,
      reduceCtorEq, false_and, exists_false, false_implies, and_true]
    by_cases he : e = .eperm
    · subst he
      have hread₂ : SysState.userRead E.memHost E.space st.addr st.size
          { st₁ with host.writes := rest } = ({ st₁ with host.writes := rest }, some buf) :=
        SysState.userRead_again hread rfl
      simp only [errnoMap_eperm, ne_eq, not_true_eq_false, if_false, true_and, forall_eq']
      rw [hst₁] at hread₂ ⊢
      exact write_again_iff { st with mem := st₁.mem, host.writes := rest } hfd hops hsize
        hread₂ hpass
    · have hne : errMap e ≠ notTaken := fun h => he (errMap_eq_notTaken.mp h)
      simp only [SysState.errnoMap, ne_eq, hne, not_false_eq_true, if_true,
        Option.rel_some_some, he, false_and, false_implies, implies_true, iff_true]
      exact .refl _
  · rw [hhost] at h₁
    have hne : BitVec.ofNat 32 (min n st₁.size) ≠ notTaken :=
      ofNat_ne_of_large ((min_le_right _ _).trans (hsize₁ ▸ hsize)) (by decide)
    simp only [hr, h₁, Option.map_some, Option.some.injEq, Prod.mk.injEq, Except.ok.injEq,
      reduceCtorEq, false_and, false_implies, implies_true, true_and, ne_eq, hne,
      not_false_eq_true, if_true, Option.rel_some_some, id, ← hconsumer]
    refine (recordChange_same fd.changePath _).trans ?_
    exact ⟨fun h _ => h, fun h => h ⟨_, _, rfl, rfl⟩⟩

lemma write_agrees_iff (hfd : st.files st.fdNo = some fd) (hops : fd.ops = .realfs)
    (hsize : st.size ≤ 4096) : CallsAgree E .write st ↔ WriteAlike E fd st := by
  unfold WriteAlike
  cases hread : st.userRead E.memHost E.space st.addr st.size with
  | mk st₁ o =>
  cases o with
  | none =>
    simp only [reduceCtorEq, false_implies, implies_true, iff_true]
    have hfast : fastHandler E .write st = some (st₁, efaultRet) := by
      simp [fastHandler, fastWrite, hfd, hops, Nat.not_lt.mpr hsize, hread]
    have hslow : tableHandler E .write st = some (st₁, efaultRet) := by
      simp [tableHandler, sysWrite, hread]
    have hne : efaultRet ≠ notTaken := by decide
    rw [CallsAgree, handleInterrupt, hfast, slowPath_eq, hslow]
    simp only [ne_eq, hne, not_false_eq_true, if_true, Option.map_some, Option.rel_some_some]
    exact .refl _
  | some buf =>
    simp only [Option.some.injEq, forall_eq']
    cases hdrop : v8Drops E st.fdNo buf st with
    | true => simpa only [if_true] using write_dropped_iff hfd hops hsize hread hdrop
    | false =>
      simpa only [Bool.false_eq_true, if_false] using write_passed_iff hfd hops hsize hread hdrop

end Write

/-! ### `fstat` -/

/-- The two records have the same bytes, as far as a copy to the guest gets. -/
def SeenAlike (E : CallEnv) (st : SysState) (a b : StatArm64) : Prop :=
  let reach := userReach E.memHost E.space (chunksOf st.addr a.bytes.length) a.bytes st.mem.1
  a.bytes.take reach = b.bytes.take reach

section Put

variable {a b : StatArm64} {addr : ℕ} {v : BitVec 32}

lemma putStat_eq (E : CallEnv) (addr : ℕ) (a : StatArm64) (st : SysState) :
    putStat E addr a st = ({ st with mem := ⟨(userWrite E.memHost E.space addr a.bytes st.mem.1).1,
        valid_userWrite _ _ st.mem.2⟩ },
      bif (userWrite E.memHost E.space addr a.bytes st.mem.1).2 then 0 else efaultRet) := by
  simp only [putStat, SysState.userWrite]

lemma putStat_ne (hv : v ≠ 0) (hv' : v ≠ efaultRet) : (putStat E addr a st).2 ≠ v := by
  rw [putStat_eq]
  cases (userWrite E.memHost E.space addr a.bytes st.mem.1).2
  · exact hv'.symm
  · exact hv.symm

lemma finish_same_iff {m m' : { w : World // w.Valid }} {v' : BitVec 32} (hst : st.SameFor st') :
    (finish ({ st with mem := m }, v)).SameFor (finish ({ st' with mem := m' }, v')) ↔
      m = m' ∧ v = v' := by
  constructor
  · exact fun hsame => ⟨hsame.mem, hsame.result⟩
  · rintro ⟨rfl, rfl⟩
    exact sameFor_finish (a := { st with mem := m }) (b := { st' with mem := m })
      ⟨hst.regs, rfl, hst.files, hst.position, hst.changes⟩ rfl

lemma refused_same_iff {m : { w : World // w.Valid }} (e : HostErrno) (hst : st.SameFor st') :
    (finish (st.errnoMap e)).SameFor (finish ({ st' with mem := m }, v)) ↔
      st.mem = m ∧ errMap e = v := by
  have hsame : (st.errnoMap e).1.SameFor st := by
    unfold SysState.errnoMap
    split_ifs <;> exact ⟨rfl, rfl, rfl, rfl, rfl⟩
  constructor
  · intro hfin
    exact ⟨hsame.mem.symm.trans hfin.mem, hfin.result⟩
  · rintro ⟨hmem, hres⟩
    exact sameFor_finish (a := (st.errnoMap e).1) (b := { st' with mem := m })
      ⟨hsame.regs.trans hst.regs, hsame.mem.trans hmem, hsame.files.trans hst.files,
        hsame.position.trans hst.position, hsame.changes.trans hst.changes⟩ hres

lemma putStat_same_iff (hst : st.SameFor st') (haddr : st.addr = addr) :
    (finish (putStat E addr a st)).SameFor (finish (putStat E addr b st')) ↔
      SeenAlike E st a b := by
  have haddr' : addr < 2 ^ 64 := haddr ▸ (st.regs 1).isLt
  have hlen : a.bytes.length < 2 ^ 47 := by rw [a.length_bytes]; norm_num
  have hlen' : b.bytes.length = a.bytes.length := by rw [a.length_bytes, b.length_bytes]
  have hcopy := userWrite_eq_iff (h := E.memHost) (s := E.space) st.mem.2 haddr' hlen hlen'
  rw [SeenAlike, haddr, ← hcopy, putStat_eq, putStat_eq, finish_same_iff hst, ← hst.mem,
    Subtype.mk.injEq]
  generalize userWrite E.memHost E.space addr a.bytes st.mem.1 = r
  generalize userWrite E.memHost E.space addr b.bytes st.mem.1 = r'
  obtain ⟨w, ok⟩ := r
  obtain ⟨w', ok'⟩ := r'
  have hne : efaultRet ≠ 0#32 := by decide
  cases ok <;> cases ok' <;> simp [hne, hne.symm]

lemma refused_putStat_iff (e : HostErrno) (hst : st.SameFor st') :
    (finish (st.errnoMap e)).SameFor (finish (putStat E addr a st')) ↔
      e = .efault ∧ userWrite E.memHost E.space addr a.bytes st.mem.1 = (st.mem.1, false) := by
  rw [putStat_eq, refused_same_iff e hst, ← hst.mem, Subtype.ext_iff]
  simp only
  generalize userWrite E.memHost E.space addr a.bytes st.mem.1 = r
  obtain ⟨w, ok⟩ := r
  cases ok with
  | true =>
    have hne := errMap_ne_ofNat e (Nat.zero_le 4096)
    simpa using fun _ => hne
  | false =>
    rw [cond_false, errMap_eq_efault, Prod.mk.injEq, and_iff_left rfl, and_comm]
    exact and_congr_right fun _ => eq_comm

end Put

lemma hostFstat_cases (st : SysState) :
    (st.host.stats = [] ∧ st.hostFstat = none) ∨
    (∃ e rest, st.host.stats = .error e :: rest ∧
      st.hostFstat = some ({ st with host.stats := rest }, .error e)) ∨
    ∃ hs rest, st.host.stats = .ok hs :: rest ∧
      st.hostFstat = some ({ st with host.stats := rest }, .ok hs) := by
  unfold SysState.hostFstat
  rcases hstats : st.host.stats with _ | ⟨e | hs, rest⟩
  · exact Or.inl ⟨rfl, rfl⟩
  · exact Or.inr (Or.inl ⟨e, rest, rfl, rfl⟩)
  · exact Or.inr (Or.inr ⟨hs, rest, rfl, rfl⟩)

lemma fastFstat64_eq (hfd : st.files st.fdNo = some fd) (hops : fd.ops = .realfs) :
    fastHandler E .fstat64 st = st.hostFstat.map fun (st, r) =>
      match r with
      | .error e => st.errnoMap e
      | .ok hs => putStat E st.addr (fastRecord hs) st := by
  simp only [fastHandler, fastFstat64, hfd, hops, ne_eq, not_true_eq_false, if_false]
  rcases hostFstat_cases st with ⟨-, hr⟩ | ⟨e, rest, -, hr⟩ | ⟨hs, rest, -, hr⟩ <;>
    simp only [hr, Option.map_some, Option.map_none, SysState.addr]

def ownRecord (E : CallEnv) (fd : OpenFd) (db : MetaDb) (stat : Statbuf) : Option Statbuf :=
  if fd.fs = .fakefs then fakeRecord E fd db stat else some stat

/-- The end of an `fstat` whose record comes from the host. -/
def putOwn (E : CallEnv) (own : Option Statbuf) (st : SysState) : SysState × BitVec 32 :=
  match own with
  | some own => putStat E st.addr (statConvertArm64 own) st
  | none => (st, enoentRet)

lemma putOwn_ne (own : Option Statbuf) (st : SysState) : (putOwn E own st).2 ≠ notTaken := by
  cases own with
  | none => exact show enoentRet ≠ notTaken by decide
  | some own => exact putStat_ne (by decide) (by decide)

lemma sysFstat64_hosted (hfd : st.files st.fdNo = some fd) (hops : fd.ops = .realfs)
    (hfs : fd.fs ≠ .adhoc) :
    tableHandler E .fstat64 st = st.hostFstat.map fun (st, r) =>
      match r with
      | .error e => st.errnoMap e
      | .ok hs => putOwn E (ownRecord E fd st.db (copyStat hs)) st := by
  have hknown := fd.known hops
  simp only [tableHandler, sysFstat64, hfd, fsFstat]
  cases hkind : fd.fs with
  | adhoc => exact absurd hkind hfs
  | other n => exact absurd hkind (hknown n)
  | realfs =>
    simp only [SysState.realfsFstat, ownRecord, hkind, reduceCtorEq, if_false]
    rcases hostFstat_cases st with ⟨-, hr⟩ | ⟨e, rest, -, hr⟩ | ⟨hs, rest, -, hr⟩ <;>
      · rw [hr]; rfl
  | fakefs =>
    simp only [SysState.fakefsFstat, SysState.realfsFstat, ownRecord, hkind, if_true]
    rcases hostFstat_cases st with ⟨-, hr⟩ | ⟨e, rest, -, hr⟩ | ⟨hs, rest, -, hr⟩
    · rw [hr]; rfl
    · rw [hr]; rfl
    · rw [hr]
      simp only [Option.map_some]
      cases fakeRecord E fd st.db (copyStat hs) <;> rfl

lemma sysFstat64_adhoc (hfd : st.files st.fdNo = some fd) (hfs : fd.fs = .adhoc) :
    tableHandler E .fstat64 st = some (putStat E st.addr (statConvertArm64 fd.stat) st) := by
  simp [tableHandler, sysFstat64, hfd, fsFstat, hfs]

/-- When the two `fstat` agree. A descriptor without a file system has a record of its own, which
has to look like the host's; the table does not ask the host for it. Elsewhere the file system
has to leave the host's record as it is, and what the host refuses with `EPERM` it must refuse
again. -/
def FstatAlike (E : CallEnv) (fd : OpenFd) (st : SysState) : Prop :=
  if fd.fs = .adhoc then
    ∃ r rest, st.host.stats = r :: rest ∧ (r = .error .eperm ∨
      (r = .error .efault ∧ userWrite E.memHost E.space st.addr
        (statConvertArm64 fd.stat).bytes st.mem.1 = (st.mem.1, false)) ∨
      ∃ hs, r = .ok hs ∧ SeenAlike E st (fastRecord hs) (statConvertArm64 fd.stat))
  else EpermNext st.host.stats ∧ ∀ hs rest, st.host.stats = .ok hs :: rest →
    ∃ own, ownRecord E fd st.db (copyStat hs) = some own ∧
      SeenAlike E st (fastRecord hs) (statConvertArm64 own)

lemma fstat_adhoc_iff (hfd : st.files st.fdNo = some fd) (hops : fd.ops = .realfs)
    (hfs : fd.fs = .adhoc) : CallsAgree E .fstat64 st ↔
      ∃ r rest, st.host.stats = r :: rest ∧ (r = .error .eperm ∨
        (r = .error .efault ∧ userWrite E.memHost E.space st.addr
          (statConvertArm64 fd.stat).bytes st.mem.1 = (st.mem.1, false)) ∨
        ∃ hs, r = .ok hs ∧ SeenAlike E st (fastRecord hs) (statConvertArm64 fd.stat)) := by
  rw [CallsAgree, handleInterrupt, fastFstat64_eq hfd hops, slowPath_eq, sysFstat64_adhoc hfd hfs,
    Option.map_some]
  rcases hostFstat_cases st with ⟨h₁, hr⟩ | ⟨e, rest, h₁, hr⟩ | ⟨hs, rest, h₁, hr⟩
  · simp [hr, h₁]
  · simp only [hr, h₁, Option.map_some, List.cons.injEq]
    have hsame : SysState.SameFor { st with host.stats := rest } st := ⟨rfl, rfl, rfl, rfl, rfl⟩
    by_cases he : e = .eperm
    · subst he
      have hslow : tableHandler E .fstat64 { st with host.stats := rest } =
          some (putStat E st.addr (statConvertArm64 fd.stat) { st with host.stats := rest }) :=
        sysFstat64_adhoc hfd hfs
      simp only [errnoMap_eperm, ne_eq, not_true_eq_false, if_false, slowPath_eq, hslow,
        Option.map_some, Option.rel_some_some]
      exact ⟨fun _ => ⟨_, _, ⟨rfl, rfl⟩, Or.inl rfl⟩,
        fun _ => (putStat_same_iff hsame rfl).mpr rfl⟩
    · have hne : (SysState.errnoMap { st with host.stats := rest } e).2 ≠ notTaken :=
        fun h => he (errMap_eq_notTaken.mp h)
      simp only [ne_eq, hne, not_false_eq_true, if_true, Option.rel_some_some]
      refine (refused_putStat_iff e hsame).trans ?_
      constructor
      · exact fun ⟨hfault, hmem⟩ => ⟨_, _, ⟨rfl, rfl⟩, Or.inr (Or.inl ⟨by rw [hfault], hmem⟩)⟩
      · rintro ⟨_, _, ⟨rfl, rfl⟩, h | ⟨h, hfault⟩ | ⟨_, h, -⟩⟩
        · exact absurd (Except.error.inj h) he
        · exact ⟨Except.error.inj h, hfault⟩
        · simp at h
  · simp only [hr, h₁, Option.map_some, List.cons.injEq]
    have hne : ∀ addr st₁, (putStat E addr (fastRecord hs) st₁).2 ≠ notTaken :=
      fun addr st₁ => putStat_ne (by decide) (by decide)
    have hsame : SysState.SameFor { st with host.stats := rest } st := ⟨rfl, rfl, rfl, rfl, rfl⟩
    simp only [ne_eq, hne, not_false_eq_true, if_true, Option.rel_some_some]
    refine (putStat_same_iff hsame rfl).trans ?_
    constructor
    · exact fun hseen => ⟨_, _, ⟨rfl, rfl⟩, Or.inr (Or.inr ⟨hs, rfl, hseen⟩)⟩
    · rintro ⟨_, _, ⟨rfl, rfl⟩, h | ⟨h, -⟩ | ⟨_, h, hseen⟩⟩
      · simp at h
      · simp at h
      · obtain rfl := Except.ok.inj h
        exact hseen

lemma fstat_again_iff (st : SysState) (hfd : st.files st.fdNo = some fd) (hops : fd.ops = .realfs)
    (hfs : fd.fs ≠ .adhoc) :
    Option.Rel SysState.SameFor (slowPath E .fstat64 st) (some (finish (st, notTaken))) ↔
      ∃ rest, st.host.stats = .error .eperm :: rest := by
  rw [slowPath_eq, sysFstat64_hosted hfd hops hfs]
  rcases hostFstat_cases st with ⟨h₁, hr⟩ | ⟨e, rest, h₁, hr⟩ | ⟨hs, rest, h₁, hr⟩
  · simp [hr, h₁]
  · simp only [hr, h₁, Option.map_some, Option.rel_some_some, List.cons.injEq, Except.error.injEq]
    constructor
    · intro hsame
      exact ⟨rest, errMap_eq_notTaken.mp hsame.result, rfl⟩
    · rintro ⟨_, rfl, -⟩
      exact ⟨rfl, rfl, rfl, rfl, rfl⟩
  · simp only [hr, h₁, Option.map_some, Option.rel_some_some, List.cons.injEq, reduceCtorEq,
      false_and, exists_false, iff_false]
    exact fun hsame => putOwn_ne _ _ hsame.result

lemma fstat_hosted_iff (hfd : st.files st.fdNo = some fd) (hops : fd.ops = .realfs)
    (hfs : fd.fs ≠ .adhoc) : CallsAgree E .fstat64 st ↔
      EpermNext st.host.stats ∧ ∀ hs rest, st.host.stats = .ok hs :: rest →
        ∃ own, ownRecord E fd st.db (copyStat hs) = some own ∧
          SeenAlike E st (fastRecord hs) (statConvertArm64 own) := by
  unfold EpermNext
  rw [CallsAgree, handleInterrupt, fastFstat64_eq hfd hops, slowPath_eq,
    sysFstat64_hosted hfd hops hfs]
  rcases hostFstat_cases st with ⟨h₁, hr⟩ | ⟨e, rest, h₁, hr⟩ | ⟨hs, rest, h₁, hr⟩
  · simp [hr, h₁]
  · simp only [hr, h₁, Option.map_some, List.cons.injEq, Except.error.injEq, reduceCtorEq,
      false_and, false_implies, implies_true, and_true]
    by_cases he : e = .eperm
    · subst he
      simp only [errnoMap_eperm, ne_eq, not_true_eq_false, if_false, true_and, forall_eq']
      exact fstat_again_iff { st with host.stats := rest } hfd hops hfs
    · have hne : (SysState.errnoMap { st with host.stats := rest } e).2 ≠ notTaken :=
        fun h => he (errMap_eq_notTaken.mp h)
      simp only [ne_eq, hne, not_false_eq_true, if_true, Option.rel_some_some, he, false_and,
        false_implies, implies_true, iff_true]
      exact .refl _
  · have hne : ∀ addr st₁, (putStat E addr (fastRecord hs) st₁).2 ≠ notTaken :=
      fun addr st₁ => putStat_ne (by decide) (by decide)
    have hsame : SysState.SameFor { st with host.stats := rest } { st with host.stats := rest } :=
      .refl _
    simp only [hr, h₁, Option.map_some, List.cons.injEq, Except.ok.injEq, reduceCtorEq,
      false_and, false_implies, implies_true, true_and, ne_eq, hne, not_false_eq_true, if_true,
      Option.rel_some_some]
    refine Iff.trans ?_ ⟨fun h _ _ heq => heq.1 ▸ h, fun h => h hs rest ⟨rfl, rfl⟩⟩
    cases hown : ownRecord E fd st.db (copyStat hs) with
    | none =>
      simp only [reduceCtorEq, false_and, exists_false, iff_false]
      exact fun h => putStat_ne (v := enoentRet) (by decide) (by decide) h.result
    | some own =>
      simp only [Option.some.injEq, exists_eq_left']
      exact putStat_same_iff hsame rfl

lemma fstat_agrees_iff (hfd : st.files st.fdNo = some fd) (hops : fd.ops = .realfs) :
    CallsAgree E .fstat64 st ↔ FstatAlike E fd st := by
  unfold FstatAlike
  split_ifs with hfs
  · exact fstat_adhoc_iff hfd hops hfs
  · exact fstat_hosted_iff hfd hops hfs

/-! ### All calls -/

/-- The condition for a call: it only asks something of a call that a fast handler takes. -/
def FastAlike (E : CallEnv) (c : HotCall) (st : SysState) : Prop :=
  ∀ fd, st.files st.fdNo = some fd → fd.ops = .realfs →
    match c with
    | .fstat64 => FstatAlike E fd st
    | .read => st.size ≤ 4096 → ReadAlike fd st
    | .write => st.size ≤ 4096 → WriteAlike E fd st

lemma notTaken_of_size (hc : c ≠ .fstat64) (hsize : ¬ st.size ≤ 4096) :
    fastHandler E c st = some (st, notTaken) := by
  have hlt : 4096 < st.size := Nat.lt_of_not_le hsize
  cases c with
  | fstat64 => exact absurd rfl hc
  | read => simp [fastHandler, fastRead, hlt]
  | write => simp [fastHandler, fastWrite, hlt]

lemma notTaken_of_files (hfd : ∀ fd, st.files st.fdNo = some fd → fd.ops ≠ .realfs) :
    fastHandler E c st = some (st, notTaken) := by
  cases hfile : st.files st.fdNo with
  | none => cases c <;> simp [fastHandler, fastFstat64, fastRead, fastWrite, hfile]
  | some fd =>
    have hops := hfd fd hfile
    cases c <;> simp [fastHandler, fastFstat64, fastRead, fastWrite, hfile, hops]

/-- A call agrees with one execution of the table's handler exactly when no fast handler takes it
or none of the differences shows. -/
theorem fast_calls_agree (E : CallEnv) (c : HotCall) (st : SysState) :
    CallsAgree E c st ↔ FastAlike E c st := by
  by_cases htaken : ∃ fd, st.files st.fdNo = some fd ∧ fd.ops = .realfs
  swap
  · have hnone : ∀ fd, st.files st.fdNo = some fd → fd.ops ≠ .realfs :=
      fun fd hfd hops => htaken ⟨fd, hfd, hops⟩
    exact iff_of_true (callsAgree_of_notTaken (notTaken_of_files hnone))
      fun fd hfd hops => absurd hops (hnone fd hfd)
  obtain ⟨fd, hfd, hops⟩ := htaken
  have hone : FastAlike E c st ↔ match c with
      | .fstat64 => FstatAlike E fd st
      | .read => st.size ≤ 4096 → ReadAlike fd st
      | .write => st.size ≤ 4096 → WriteAlike E fd st := by
    constructor
    · exact fun h => h fd hfd hops
    · intro h fd' hfd' _
      obtain rfl : fd = fd' := Option.some.inj (hfd.symm.trans hfd')
      exact h
  rw [hone]
  by_cases hsize : st.size ≤ 4096
  · cases c with
    | fstat64 => exact fstat_agrees_iff hfd hops
    | read => simpa only [hsize, true_implies] using read_agrees_iff hfd hops hsize
    | write => simpa only [hsize, true_implies] using write_agrees_iff hfd hops hsize
  · cases c with
    | fstat64 => exact fstat_agrees_iff hfd hops
    | read =>
      exact iff_of_true (callsAgree_of_notTaken (notTaken_of_size (by decide) hsize))
        fun h => absurd h hsize
    | write =>
      exact iff_of_true (callsAgree_of_notTaken (notTaken_of_size (by decide) hsize))
        fun h => absurd h hsize

/-! ### A write that nobody hears of -/

/-- Descriptor 3 is a file behind the path hook, opened for writing. Its page 5 holds the byte to
write, and somebody listens to changes. -/
def hookedFile : SysState where
  regs := fun i => if i = 0 then 3 else if i = 1 then 0x5000 else 1
  mem := ⟨MemOp.step World.init
      ({}, .mapNothing 0 ⟨5, 1, by decide⟩ ⟨pRead ||| pWrite, fun _ => rfl⟩),
    MemOp.valid_step _ World.valid_init⟩
  files := fun n => if n = 3 then
      some {
        realFd := 7
        ops := .realfs
        isDir := false
        changePath := some "/mnt/notes"
        fs := .fakefs
        stat := { dev := 0, inode := 0, mode := 0, nlink := 0, uid := 0, gid := 0, rdev := 0,
                  size := 0, blksize := 0, blocks := 0, atime := 0, mtime := 0, ctime := 0 }
        fakeInode := 9
        offset := 0
        known := fun _ _ h => FsName.noConfusion h }
    else none
  position := fun _ => 0
  host := { reads := [.error .eperm, .ok ([65], 1)], writes := [.ok (1, 1)], stats := [] }
  consumer := true
  changes := []
  sigpipes := 0
  v8Aborting := false
  db := { paths := FinMap.empty, stats := FinMap.empty }

def plainEnv : CallEnv where
  readOp := fun _ => .missing
  writeOp := fun _ => .missing
  fstat := fun _ _ _ => none
  viaHook := fun _ => true
  muteDisabled := false
  memHost := {}
  space := 0

/-- The byte is written on both paths, but only the table tells the listener. And a read that is
refused with `EPERM` once comes back with a byte. -/
theorem fast_calls_differ :
    ¬ (∀ E c st, CallsAgree E c st) ∧
    (handleInterrupt plainEnv .write hookedFile).map (fun st => (st.regs 0, st.changes)) =
      some (1, []) ∧
    (slowPath plainEnv .write hookedFile).map (fun st => (st.regs 0, st.changes)) =
      some (1, ["/mnt/notes"]) ∧
    (handleInterrupt plainEnv .read hookedFile).map (·.regs 0) = some 1 ∧
    (slowPath plainEnv .read hookedFile).map (·.regs 0) = some (-1) := by
  have hfast : (handleInterrupt plainEnv .write hookedFile).map
      (fun st => (st.regs 0, st.changes)) = some (1, []) := by decide +kernel
  have hslow : (slowPath plainEnv .write hookedFile).map (fun st => (st.regs 0, st.changes)) =
      some (1, ["/mnt/notes"]) := by decide +kernel
  refine ⟨fun hall => ?_, hfast, hslow, by decide +kernel, by decide +kernel⟩
  have hagree := hall plainEnv .write hookedFile
  rw [CallsAgree] at hagree
  generalize handleInterrupt plainEnv .write hookedFile = o at hfast hagree
  generalize slowPath plainEnv .write hookedFile = o' at hslow hagree
  cases hagree with
  | none => simp at hfast
  | some hsame =>
    simp only [Option.map_some, Option.some.injEq, Prod.mk.injEq] at hfast hslow
    exact absurd (hfast.2.symm.trans (hsame.changes.trans hslow.2)) (by simp)

end ShellBox
