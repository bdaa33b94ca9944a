import ShellBox.Asbestos.Exclusive

/-!
# Load- and store-exclusive in pairs

A store-exclusive should replace what the matching load-exclusive of its thread returned, and fail
when there is none. The monitor remembers an address and values but no width, it survives a
`CLREX` and the return of a handler, and the helpers do not check the address of every width. In
a run that keeps clear of these, the monitor of each thread is armed only while its last exclusive
event is the load that armed it.
-/

namespace ShellBox

open Function

/-! ### What a store-exclusive should do -/

structure ExclStore where
  addr : BitVec 64
  width : ExclWidth
  new1 : BitVec 64
  new2 : BitVec 64

def Instr.exclStore (c : Cpu) (i : Instr) : Option ExclStore :=
  match c.inFlight, i with
  | none, .stxr rt _ rn size => some ⟨c.calcAddr rn, .single size, c.reg rt, 0⟩
  | none, .stxp rt rt2 _ rn size =>
    if size = .word ∨ size = .dword then some ⟨c.calcAddr rn, .pair size, c.reg rt, c.reg rt2⟩ else none
  | _, _ => none

def Reservation.Matches (r : Reservation) (x : ExclStore) : Prop :=
  r.addr = x.addr ∧ r.width = x.width

/-- The step from `m` to `m'` replaces at the guest address of the store exactly the value that
was loaded, and touches nothing else. -/
def Replaces (mmu : Mmu) (m m' : HostMem) (r : Reservation) (x : ExclStore) : Prop :=
  ∃ p, (∀ i < x.width.bytes, mmu.writePtr (x.addr.toNat + i) = some (p + i)) ∧
    x.width.Holds m p r.val1.toNat r.val2.toNat ∧
    x.width.Holds m' p (x.new1.toNat % 256 ^ x.width.elem) (x.new2.toNat % 256 ^ x.width.elem) ∧
    ∀ a, a < p ∨ p + x.width.bytes ≤ a → m' a = m a

/-- An instruction of a thread with this history, if it is a store-exclusive, succeeds only for a
matching load-exclusive and replaces what that returned, and without one fails and changes
nothing. -/
structure PairsUp (mmu : Mmu) (m : HostMem) (c : Cpu) (history : List ExclEvent) (i : Instr) :
    Prop where
  success : ∀ x, i.exclStore c = some x → (exec mmu m c i).report = some .success →
    ∃ r, reserved history = some r ∧ r.Matches x ∧ Replaces mmu m (exec mmu m c i).mem r x
  failure : ∀ x, i.exclStore c = some x → (∀ r, reserved history = some r → ¬ r.Matches x) →
    (exec mmu m c i).report = some .failure ∧ (exec mmu m c i).mem = m

variable {mmu : Mmu} {m : HostMem} {c : Cpu} {history : List ExclEvent} {i : Instr}
  {r : Reservation} {x : ExclStore} {addr p rs : ℕ} {size : AccessSize}

/-! ### One store -/

def storeCas (mmu : Mmu) (m : HostMem) (c : Cpu) (x : ExclStore) : HostMem × CasStatus :=
  match x.width with
  | .single size => cStxrCas mmu m x.addr.toNat c.exclVal x.new1 size
  | .pair size   => cStxpCas mmu m x.addr.toNat c.exclVal c.exclVal2 x.new1 x.new2 size

lemma exec_exclStore (mmu : Mmu) (m : HostMem) (hx : i.exclStore c = some x) :
    ∃ rs, exec mmu m c i =
      if c.exclAddr ≠ x.addr then finishStore c rs (m, .failure)
      else finishStore c rs (storeCas mmu m c x) := by
  unfold Instr.exclStore at hx
  split at hx
  · rename_i rt rs rn size hidle
    obtain rfl := Option.some.inj hx
    exact ⟨rs, by simp only [exec, hidle]; rfl⟩
  · rename_i rt rt2 rs rn size hidle
    split_ifs at hx with hsize
    obtain rfl := Option.some.inj hx
    exact ⟨rs, by simp only [exec, hidle, if_pos hsize]; rfl⟩
  · cases hx

lemma exclStore_addr_ne (hx : i.exclStore c = some x) : x.addr ≠ noExcl := by
  unfold Instr.exclStore at hx
  split at hx
  · obtain rfl := Option.some.inj hx
    exact c.calcAddr_ne _
  · split_ifs at hx
    obtain rfl := Option.some.inj hx
    exact c.calcAddr_ne _
  · cases hx

lemma ofBool_eq_success {b : Bool} : CasStatus.ofBool b = .success ↔ b = true := by
  cases b <;> simp [CasStatus.ofBool]

lemma cStxrCas_success {expected new : BitVec 64}
    (h : (cStxrCas mmu m addr expected new size).2 = .success) :
    ∃ p, mmu.writePtr addr = some p ∧
      loadLE m p (2 ^ size.val) = expected.toNat % 256 ^ 2 ^ size.val ∧
      (cStxrCas mmu m addr expected new size).1 = storeLE m p (2 ^ size.val) new.toNat := by
  unfold cStxrCas at h ⊢
  cases hp : mmu.writePtr addr with
  | none => simp [hp] at h
  | some p =>
    simp only [hp, ofBool_eq_success] at h ⊢
    obtain ⟨hload, hstore⟩ := compareExchange_true h
    exact ⟨p, rfl, hload, hstore⟩

lemma compareExchange_pair {n e₁ e₂ d₁ d₂ : ℕ}
    (h : (compareExchange m p (n + n) (pairLE n e₁ e₂) (pairLE n d₁ d₂)).2 = true) :
    (loadLE m p n = e₁ % 256 ^ n ∧ loadLE m (p + n) n = e₂ % 256 ^ n) ∧
      (compareExchange m p (n + n) (pairLE n e₁ e₂) (pairLE n d₁ d₂)).1 =
        storeLE m p (n + n) (pairLE n d₁ d₂) := by
  obtain ⟨hload, hstore⟩ := compareExchange_true h
  rw [Nat.mod_eq_of_lt (pairLE_lt n e₁ e₂)] at hload
  exact ⟨loadLE_eq_pairLE.1 hload, hstore⟩

lemma cStxpCas_success {e₁ e₂ d₁ d₂ : BitVec 64}
    (h : (cStxpCas mmu m addr e₁ e₂ d₁ d₂ size).2 = .success) :
    (size = .dword → 16 ∣ addr) ∧ ∃ p, mmu.writePtr addr = some p ∧
      (loadLE m p (2 ^ size.val) = e₁.toNat % 256 ^ 2 ^ size.val ∧
        loadLE m (p + 2 ^ size.val) (2 ^ size.val) = e₂.toNat % 256 ^ 2 ^ size.val) ∧
      (cStxpCas mmu m addr e₁ e₂ d₁ d₂ size).1 =
        storeLE m p (2 ^ size.val + 2 ^ size.val) (pairLE (2 ^ size.val) d₁.toNat d₂.toNat) := by
  unfold cStxpCas at h ⊢
  by_cases h₂ : size = .word
  · subst h₂
    simp only [if_true] at h ⊢
    cases hp : mmu.writePtr addr with
    | none => simp [hp] at h
    | some p =>
      simp only [hp, ofBool_eq_success] at h ⊢
      obtain ⟨hload, hstore⟩ := compareExchange_pair (n := 4) h
      exact ⟨fun h23 => absurd h23 (by decide), p, rfl, hload, hstore⟩
  · by_cases h₃ : size = .dword
    · subst h₃
      simp only [if_neg h₂, ne_eq, not_true_eq_false, if_false] at h ⊢
      split_ifs at h ⊢ with halign hpage
      cases hp : mmu.writePtr addr with
      | none => simp [hp] at h
      | some p =>
        simp only [hp, ofBool_eq_success] at h ⊢
        obtain ⟨hload, hstore⟩ := compareExchange_pair (n := 8) h
        exact ⟨fun _ => Nat.dvd_of_mod_eq_zero halign, p, rfl, hload, hstore⟩
    · rw [if_neg h₂, if_pos h₃] at h
      cases h

/-! ### The monitor follows the history -/

structure Cpu.Armed (c : Cpu) (r : Reservation) : Prop where
  addr : c.exclAddr = r.addr
  val1 : c.exclVal = r.val1
  fits1 : r.val1.toNat < 256 ^ r.width.elem
  val2 : ∀ size, r.width = .pair size → c.exclVal2 = r.val2 ∧ r.val2.toNat < 256 ^ r.width.elem

/-- The load that armed the monitor has the width of the store, and the store's address is
aligned where its helper does not check that. -/
def ExclStore.Fits (x : ExclStore) (r : Reservation) : Prop :=
  r.width = x.width ∧ (x.width.bytes ∣ x.addr.toNat ∨ x.width = .pair .dword)

lemma bytes_dvd_pageSize (w : ExclWidth) : w.bytes ∣ pageSize := by
  rcases w with size | size <;> fin_cases size <;> decide

lemma cStxrCas_replaces {addr expected new v₂ new₂ : BitVec 64}
    (hfits : expected.toNat < 256 ^ 2 ^ size.val) (hdvd : 2 ^ size.val ∣ addr.toNat)
    (h : (cStxrCas mmu m addr.toNat expected new size).2 = .success) :
    Replaces mmu m (cStxrCas mmu m addr.toNat expected new size).1
      ⟨addr, .single size, expected, v₂⟩ ⟨addr, .single size, new, new₂⟩ := by
  obtain ⟨p, hp, hload, hstore⟩ := cStxrCas_success h
  refine ⟨p, fun i hi => Mmu.writePtr_add (bytes_dvd_pageSize (.single size)) hdvd hp hi, ?_, ?_, ?_⟩
  · rw [Nat.mod_eq_of_lt hfits] at hload
    exact hload
  · rw [hstore]
    exact loadLE_storeLE _ _ _ _
  · intro a ha
    rw [hstore]
    exact storeLE_of_notMem ha

lemma cStxpCas_replaces {addr e₁ e₂ new₁ new₂ : BitVec 64}
    (hfits₁ : e₁.toNat < 256 ^ 2 ^ size.val) (hfits₂ : e₂.toNat < 256 ^ 2 ^ size.val)
    (hdvd : 2 ^ size.val + 2 ^ size.val ∣ addr.toNat ∨ size = .dword)
    (h : (cStxpCas mmu m addr.toNat e₁ e₂ new₁ new₂ size).2 = .success) :
    Replaces mmu m (cStxpCas mmu m addr.toNat e₁ e₂ new₁ new₂ size).1
      ⟨addr, .pair size, e₁, e₂⟩ ⟨addr, .pair size, new₁, new₂⟩ := by
  obtain ⟨h16, p, hp, hload, hstore⟩ := cStxpCas_success h
  have haligned : 2 ^ size.val + 2 ^ size.val ∣ addr.toNat := by
    rcases hdvd with hdvd | rfl
    · exact hdvd
    · exact h16 rfl
  refine ⟨p, fun i hi => Mmu.writePtr_add (bytes_dvd_pageSize (.pair size)) haligned hp hi,
    ?_, ?_, ?_⟩
  · rw [Nat.mod_eq_of_lt hfits₁, Nat.mod_eq_of_lt hfits₂] at hload
    exact hload
  · rw [hstore]
    apply loadLE_eq_pairLE.1
    rw [loadLE_storeLE, Nat.mod_eq_of_lt (pairLE_lt _ _ _)]
  · intro a ha
    rw [hstore]
    exact storeLE_of_notMem ha

lemma storeCas_replaces (hr : c.Armed r) (haddr : r.addr = x.addr) (hfit : x.Fits r)
    (h : (storeCas mmu m c x).2 = .success) : Replaces mmu m (storeCas mmu m c x).1 r x := by
  obtain ⟨-, hval1, hfits1, hval2⟩ := hr
  obtain ⟨addr, w, v₁, v₂⟩ := r
  obtain ⟨_, _, new₁, new₂⟩ := x
  obtain ⟨rfl, halign⟩ := hfit
  obtain rfl : addr = _ := haddr
  simp only at hval1
  cases w with
  | single size =>
    rw [storeCas, hval1] at h ⊢
    refine cStxrCas_replaces hfits1 (halign.resolve_right ?_) h
    intro hpair
    cases hpair
  | pair size =>
    obtain ⟨hv₂, hfits2⟩ := hval2 size rfl
    rw [storeCas, hval1, hv₂] at h ⊢
    refine cStxpCas_replaces hfits1 hfits2 (halign.imp_right ?_) h
    intro hpair
    injection hpair

def InFlight.Fits : InFlight → Prop
  | .ldxp _ _ size _ val1 _ => val1.toNat < 256 ^ 2 ^ size.val
  | .rmw ..                 => True

/-- What holds of a thread between two of its steps: an armed monitor remembers the last exclusive
event of the thread. -/
structure Tracks (c : Cpu) (history : List ExclEvent) : Prop where
  armed : c.exclAddr ≠ noExcl → ∃ r, reserved history = some r ∧ c.Armed r
  inFlight : ∀ f, c.inFlight = some f → f.Fits

def Instr.clears : Instr → Bool
  | .clrex | .sigreturn _ _ => true
  | _                       => false

/-- The instruction does not meet one of the places where the monitor and the history part: a
`CLREX` or the return of a handler with the monitor armed, and a store at the address of a load of
another width, or at an address that its helper should have refused. -/
def Instr.Admissible (c : Cpu) (history : List ExclEvent) (i : Instr) : Prop :=
  (i.clears = true → c.exclAddr = noExcl) ∧
    ∀ x ∈ i.exclStore c, ∀ r ∈ reserved history, r.addr = x.addr → x.Fits r

instance : Decidable (x.Fits r) := inferInstanceAs (Decidable (_ ∧ _))

instance : Decidable (i.Admissible c history) := inferInstanceAs (Decidable (_ ∧ _))

lemma Tracks.pairsUp (h : Tracks c history) (hi : i.Admissible c history) :
    PairsUp mmu m c history i := by
  have hreserved : ∀ x, i.exclStore c = some x → c.exclAddr = x.addr →
      ∃ r, reserved history = some r ∧ c.Armed r ∧ r.addr = x.addr ∧ x.Fits r := by
    intro x hx haddr
    have hne : c.exclAddr ≠ noExcl := haddr ▸ exclStore_addr_ne hx
    obtain ⟨r, hr, harmed⟩ := h.armed hne
    have hra : r.addr = x.addr := harmed.addr.symm.trans haddr
    exact ⟨r, hr, harmed, hra, hi.2 x hx r hr hra⟩
  constructor
  · intro x hx hs
    obtain ⟨rs, hexec⟩ := exec_exclStore mmu m hx
    rw [hexec] at hs ⊢
    split_ifs at hs ⊢ with haddr
    · simp [finishStore] at hs
    · obtain ⟨r, hr, harmed, hra, hfit⟩ := hreserved x hx (not_not.1 haddr)
      exact ⟨r, hr, ⟨hra, hfit.1⟩,
        storeCas_replaces harmed hra hfit (Option.some.inj hs)⟩
  · intro x hx hnone
    obtain ⟨rs, hexec⟩ := exec_exclStore mmu m hx
    have haddr : c.exclAddr ≠ x.addr := by
      intro haddr
      obtain ⟨r, hr, -, hra, hfit⟩ := hreserved x hx haddr
      exact hnone r hr ⟨hra, hfit.1⟩
    rw [hexec, if_pos haddr]
    exact ⟨rfl, rfl⟩

/-! ### One step keeps the monitor and the history together -/

structure Effect.Quiet (c : Cpu) (e : Effect) : Prop where
  monitor : c.SameMonitor e.cpu
  event : e.event = none
  inFlight : ∀ f, e.cpu.inFlight = some f → f.Fits

lemma Tracks.quiet {e : Effect} (h : Tracks c history) (he : e.Quiet c) :
    Tracks e.cpu (e.event.toList ++ history) := by
  rw [he.event, Option.toList_none, List.nil_append]
  obtain ⟨haddr, hval1, hval2⟩ := he.monitor
  refine ⟨fun hne => ?_, he.inFlight⟩
  obtain ⟨r, hr, harmed⟩ := h.armed (haddr ▸ hne)
  refine ⟨r, hr, haddr.trans harmed.addr, hval1.trans harmed.val1, harmed.fits1, ?_⟩
  intro size hw
  obtain ⟨hv, hfits⟩ := harmed.val2 size hw
  exact ⟨hval2.trans hv, hfits⟩

lemma Tracks.disarmed {c' : Cpu} {history' : List ExclEvent} (haddr : c'.exclAddr = noExcl)
    (hinFlight : ∀ f, c'.inFlight = some f → f.Fits) : Tracks c' history' :=
  ⟨fun hne => absurd haddr hne, hinFlight⟩

lemma quiet_idle {m' : HostMem} {c' : Cpu} (hm : c.SameMonitor c') (hidle : c'.inFlight = none) :
    Effect.Quiet c { mem := m', cpu := c' } := by
  refine ⟨hm, rfl, fun f hf => ?_⟩
  rw [hidle] at hf
  cases hf

lemma quiet_self {m' : HostMem} (h : Tracks c history) :
    Effect.Quiet c { mem := m', cpu := c } :=
  ⟨.refl c, rfl, h.inFlight⟩

lemma toNat_loaded (m : HostMem) (p n : ℕ) :
    (BitVec.ofNat 64 (loadLE m p n)).toNat < 256 ^ n := by
  rw [BitVec.toNat_ofNat]
  exact Nat.lt_of_le_of_lt (Nat.mod_le _ _) (loadLE_lt m p n)

lemma tracks_gadgetLdxr {rt : ℕ} {addr : BitVec 64} {value : ℕ → UInt8} (h : Tracks c history)
    (hidle : c.inFlight = none) :
    Tracks (gadgetLdxr mmu m c rt size addr value).cpu
      ((gadgetLdxr mmu m c rt size addr value).event.toList ++ history) := by
  have hdone : ∀ (buf : ℕ → UInt8) (p : ℕ),
      let v := BitVec.ofNat 64 (loadLE buf p (2 ^ size.val))
      Tracks ({ c with exclAddr := addr, exclVal := v }.setReg rt v)
        (.loaded ⟨addr, .single size, v, 0⟩ :: history) := by
    intro buf p
    have hm := Cpu.sameMonitor_setReg
      { c with exclAddr := addr, exclVal := .ofNat 64 (loadLE buf p (2 ^ size.val)) } rt
      (.ofNat 64 (loadLE buf p (2 ^ size.val)))
    refine ⟨fun _ => ⟨_, rfl, hm.exclAddr, hm.exclVal, toNat_loaded _ _ _, ?_⟩, ?_⟩
    · intro size' hw
      cases hw
    · intro f hf
      rw [Cpu.setReg_inFlight, hidle] at hf
      cases hf
  unfold gadgetLdxr
  split_ifs
  · cases mmu.readCrossPage m addr.toNat 4 value with
    | none => exact h
    | some buf => exact hdone buf 0
  · cases mmu.readPtr addr.toNat with
    | none => exact h
    | some ptr => exact hdone m ptr

lemma tracks_finishStore {r : HostMem × CasStatus} (hidle : c.inFlight = none) :
    Tracks (finishStore c rs r).cpu ((finishStore c rs r).event.toList ++ history) := by
  apply Tracks.disarmed
  · unfold finishStore
    cases r.2 with
    | success | failure => exact (Cpu.sameMonitor_setReg _ _ _).exclAddr
    | segfault => rfl
  · intro f hf
    have hnone : (finishStore c rs r).cpu.inFlight = none := by
      unfold finishStore
      cases r.2 <;> simp [hidle]
    rw [hnone] at hf
    cases hf

lemma quiet_gadgetLdxp {rt rt2 : ℕ} {addr : BitVec 64} (hidle : c.inFlight = none) :
    (gadgetLdxp mmu m c rt rt2 size addr).Quiet c := by
  unfold gadgetLdxp
  split
  · refine ⟨⟨rfl, rfl, rfl⟩, rfl, fun f hf => ?_⟩
    obtain rfl := Option.some.inj hf
    exact toNat_loaded _ _ _
  · exact quiet_idle (.refl c) hidle

lemma tracks_finishLdxp {rt rt2 ptr2 : ℕ} {addr val1 : BitVec 64}
    (hfits : val1.toNat < 256 ^ 2 ^ size.val) :
    Tracks (finishLdxp m c rt rt2 size addr val1 ptr2).cpu
      ((finishLdxp m c rt rt2 size addr val1 ptr2).event.toList ++ history) := by
  have hm := (Cpu.sameMonitor_setReg
    { c with exclAddr := addr, exclVal := val1,
             exclVal2 := .ofNat 64 (loadLE m ptr2 (2 ^ size.val)), inFlight := none } rt val1).trans
    (Cpu.sameMonitor_setReg _ rt2 (.ofNat 64 (loadLE m ptr2 (2 ^ size.val))))
  refine ⟨fun _ => ⟨_, rfl, hm.exclAddr, hm.exclVal, hfits, ?_⟩, ?_⟩
  · intro size' hw
    exact ⟨hm.exclVal2, toNat_loaded _ _ _⟩
  · intro f hf
    simp [finishLdxp] at hf

lemma quiet_gadgetAtomicCas {rt : ℕ} {addr : BitVec 64} (hidle : c.inFlight = none) :
    (gadgetAtomicCas mmu m c rs rt size addr).Quiet c := by
  apply quiet_idle
  · split
    · exact .refl c
    · exact Cpu.sameMonitor_setReg _ _ _
  · split <;> simp [hidle]

lemma quiet_gadgetAtomicCasp {rt : ℕ} {addr : BitVec 64} (hidle : c.inFlight = none) :
    (gadgetAtomicCasp mmu m c rs rt addr).Quiet c := by
  apply quiet_idle
  · split
    · exact .refl c
    · exact Cpu.sameMonitor_setPair _ _ _ _
  · split <;> simp [hidle]

lemma quiet_gadgetAtomicCasp32 {rt : ℕ} {addr : BitVec 64} (hidle : c.inFlight = none) :
    (gadgetAtomicCasp32 mmu m c rs rt addr).Quiet c := by
  apply quiet_idle
  · split
    · exact .refl c
    · exact Cpu.sameMonitor_setPair _ _ _ _
  · split <;> simp [hidle]

lemma quiet_gadgetAtomicRmw {rt op : ℕ} {addr : BitVec 64} (hidle : c.inFlight = none) :
    (gadgetAtomicRmw mmu m c rs rt size op addr).Quiet c := by
  unfold gadgetAtomicRmw
  cases mmu.writePtr addr.toNat with
  | none => exact quiet_idle (.refl c) hidle
  | some ptr =>
    simp only
    split_ifs
    · refine ⟨⟨rfl, rfl, rfl⟩, rfl, fun f hf => ?_⟩
      obtain rfl := Option.some.inj hf
      trivial
    · exact quiet_idle (Cpu.sameMonitor_setReg _ _ _) (by simp [hidle])

lemma quiet_retryRmw {rt op ptr old value : ℕ} {spurious : Bool} :
    (retryRmw m c rt size op ptr old value spurious).Quiet c := by
  unfold retryRmw
  simp only
  split_ifs
  · refine quiet_idle ?_ (by simp)
    have hidle : c.SameMonitor { c with inFlight := none } := ⟨rfl, rfl, rfl⟩
    exact hidle.trans (Cpu.sameMonitor_setReg _ _ _)
  · refine ⟨⟨rfl, rfl, rfl⟩, rfl, fun f hf => ?_⟩
    obtain rfl := Option.some.inj hf
    trivial

lemma Tracks.exec (h : Tracks c history) (hi : i.Admissible c history) :
    Tracks (exec mmu m c i).cpu ((exec mmu m c i).event.toList ++ history) := by
  unfold ShellBox.exec
  split
  case h_1 hf => exact tracks_finishLdxp (h.inFlight _ hf)
  case h_2 => exact h.quiet quiet_retryRmw
  case h_3 => exact h.quiet (quiet_self h)
  case h_4 hidle => exact tracks_gadgetLdxr h hidle
  case h_5 hidle =>
    unfold gadgetStxr
    split_ifs <;> exact tracks_finishStore hidle
  case h_6 hidle =>
    split_ifs
    · exact h.quiet (quiet_gadgetLdxp hidle)
    · exact h.quiet (quiet_self h)
  case h_7 hidle =>
    unfold gadgetStxp
    split_ifs <;> first | exact tracks_finishStore hidle | exact h.quiet (quiet_self h)
  case h_8 => exact .disarmed (hi.1 rfl) h.inFlight
  case h_9 hidle => exact h.quiet (quiet_gadgetAtomicCas hidle)
  case h_10 hidle => exact h.quiet (quiet_gadgetAtomicCasp hidle)
  case h_11 hidle => exact h.quiet (quiet_gadgetAtomicCasp32 hidle)
  case h_12 hidle =>
    split_ifs
    · exact h.quiet (quiet_gadgetAtomicRmw hidle)
    · exact h.quiet (quiet_self h)
  case h_13 => exact h.quiet (quiet_self h)
  case h_14 =>
    split
    · exact h.quiet (quiet_self h)
    · exact h.quiet (quiet_self h)
  case h_15 => exact h.quiet ⟨⟨rfl, rfl, rfl⟩, rfl, h.inFlight⟩
  case h_16 => exact .disarmed rfl h.inFlight
  case h_17 => exact .disarmed (hi.1 rfl) h.inFlight

/-! ### Any number of threads -/

variable {T : Type*}

structure ExclSystem (T : Type*) where
  mem : HostMem
  cpu : T → Cpu
  history : T → List ExclEvent

/-- A step of the guest: one of a thread, or `task_create_` with a copy of a thread's state. -/
inductive ExclAct (T : Type*) where
  | exec (t : T) (i : Instr)
  | clone (t child : T)

namespace ExclSystem

def Start (g : ExclSystem T) : Prop :=
  ∀ t, (g.cpu t).exclAddr = noExcl ∧ (g.cpu t).inFlight = none

def Admissible (g : ExclSystem T) : ExclAct T → Prop
  | .exec t i  => i.Admissible (g.cpu t) (g.history t)
  | .clone _ _ => True

instance (g : ExclSystem T) (a : ExclAct T) : Decidable (g.Admissible a) :=
  match a with
  | .exec _ _  => inferInstanceAs (Decidable (Instr.Admissible _ _ _))
  | .clone _ _ => inferInstanceAs (Decidable True)

def PairsUp (mmu : T → Mmu) (g : ExclSystem T) : ExclAct T → Prop
  | .exec t i  => ShellBox.PairsUp (mmu t) g.mem (g.cpu t) (g.history t) i
  | .clone _ _ => True

def Tracked (g : ExclSystem T) : Prop := ∀ t, Tracks (g.cpu t) (g.history t)

variable {mmu : T → Mmu} {g : ExclSystem T} {a : ExclAct T} {acts : List (ExclAct T)}

lemma Start.tracked (h : g.Start) : g.Tracked := by
  intro t
  apply Tracks.disarmed (h t).1
  intro f hf
  rw [(h t).2] at hf
  cases hf

lemma Tracked.pairsUp (h : g.Tracked) (ha : g.Admissible a) : g.PairsUp mmu a := by
  cases a with
  | exec t i => exact (h t).pairsUp ha
  | clone t child => trivial

lemma not_pairsUp_of_success {t : T} {i : Instr} {x : ExclStore}
    (hx : i.exclStore (g.cpu t) = some x)
    (hs : (ShellBox.exec (mmu t) g.mem (g.cpu t) i).report = some .success)
    (hnone : ∀ r, reserved (g.history t) = some r → ¬ r.Matches x) :
    ¬ PairsUp mmu g (.exec t i) := by
  intro h
  obtain ⟨r, hr, hmatch, -⟩ := ShellBox.PairsUp.success h x hx hs
  exact hnone r hr hmatch

variable [DecidableEq T]

def step (mmu : T → Mmu) (g : ExclSystem T) : ExclAct T → ExclSystem T
  | .exec t i =>
    let e := ShellBox.exec (mmu t) g.mem (g.cpu t) i
    { mem := e.mem
      cpu := update g.cpu t e.cpu
      history := update g.history t (e.event.toList ++ g.history t) }
  | .clone t child =>
    { g with
      cpu := update g.cpu child { g.cpu t with exclAddr := noExcl }
      history := update g.history child [] }

lemma Tracked.step (h : g.Tracked) (ha : g.Admissible a) : (g.step mmu a).Tracked := by
  intro t'
  cases a with
  | exec t i =>
    by_cases ht : t' = t
    · subst ht
      simp only [ExclSystem.step, update_self]
      exact (h t').exec ha
    · simp only [ExclSystem.step, update_of_ne ht]
      exact h t'
  | clone t child =>
    by_cases ht : t' = child
    · subst ht
      simp only [ExclSystem.step, update_self]
      exact .disarmed rfl (h t).inFlight
    · simp only [ExclSystem.step, update_of_ne ht]
      exact h t'

/-- In every run of any threads whose steps keep clear of the places where monitor and history
part, each store-exclusive replaces what its matching load-exclusive returned, or fails. -/
theorem storeExclusive_pairsUp (mmu : T → Mmu) (hg : g.Start)
    (hacts : RunAll (step mmu) Admissible g (acts ++ [a])) :
    PairsUp mmu (run (step mmu) g acts) a := by
  rw [runAll_append] at hacts
  obtain ⟨hacts, ha, -⟩ := hacts
  have htracked : (run (step mmu) g acts).Tracked :=
    run_invariant (fun _ _ hb ht => Tracked.step ht hb) hacts hg.tracked
  exact htracked.pairsUp ha

def boot (x : BitVec 64) : ExclSystem T where
  mem := fun _ => 0
  cpu := fun _ => { regs := fun _ => x, sp := 0, exclAddr := noExcl, exclVal := 0, exclVal2 := 0 }
  history := fun _ => []

def apart : Mmu := ⟨fun p _ => some (p * 8192)⟩

/-- Two threads add to one counter. The slower one fails, tries again after a handler, and
succeeds. -/
theorem storeExclusive_pairsUp_counter :
    let g := run (step fun _ : Bool => apart) (boot 0x1000)
      [.exec true (.ldxr 0 1 .dword fun _ => 0), .exec false (.ldxr 0 1 .dword fun _ => 0),
        .exec false (.stxr 2 3 1 .dword), .exec true (.stxr 2 3 1 .dword),
        .exec true (.deliver (fun _ => 0) 0), .exec true (.sigreturn (fun _ => 0x1000) 0),
        .exec true (.ldxr 0 1 .dword fun _ => 0)]
    PairsUp (fun _ => apart) g (.exec true (.stxr 2 3 1 .dword)) ∧
      (ShellBox.exec apart g.mem (g.cpu true) (.stxr 2 3 1 .dword)).report = some .success := by
  refine ⟨storeExclusive_pairsUp _ (fun _ => ⟨rfl, rfl⟩) ?_, by decide +kernel⟩
  refine ⟨?_, ?_, ?_, ?_, ?_, ?_, ?_, ?_, trivial⟩ <;> decide +kernel

/-- A store-exclusive succeeds after a `CLREX`, after the return of a handler that loaded, and as a
doubleword after the load of a word; and one across the end of a page stores to another page of
the host. -/
theorem storeExclusive_not_pairsUp :
    let after (x : BitVec 64) (is : List Instr) : ExclSystem Unit :=
      run (step fun _ => apart) (boot x) (is.map (.exec ()))
    ¬ PairsUp (fun _ => apart) (after 0x1000 [.ldxr 0 1 .dword fun _ => 0, .clrex])
        (.exec () (.stxr 2 3 1 .dword)) ∧
      ¬ PairsUp (fun _ => apart)
        (after 0x1000 [.deliver (fun _ => 0x1000) 0, .ldxr 0 1 .dword fun _ => 0,
          .sigreturn (fun _ => 0x1000) 0])
        (.exec () (.stxr 2 3 1 .dword)) ∧
      ¬ PairsUp (fun _ => apart) (after 0x1000 [.ldxr 0 1 .word fun _ => 0])
        (.exec () (.stxr 2 3 1 .dword)) ∧
      ¬ PairsUp (fun _ => apart) (after 0x1ffc [.ldxr 0 1 .dword fun _ => 0])
        (.exec () (.stxr 2 3 1 .dword)) := by
  refine ⟨?_, ?_, ?_, ?_⟩
  · apply not_pairsUp_of_success rfl (by decide +kernel)
    intro r hr
    cases hr
  · apply not_pairsUp_of_success rfl (by decide +kernel)
    intro r hr
    cases hr
  · apply not_pairsUp_of_success rfl (by decide +kernel)
    intro r hr hmatch
    obtain rfl := Option.some.inj hr
    exact absurd hmatch.2 (by decide)
  · intro h
    obtain ⟨r, -, -, p, hp, -⟩ := ShellBox.PairsUp.success h _ rfl (by decide +kernel)
    have hp₀ : some 0x2ffc = some p := hp 0 (by decide)
    have hp₄ : some 0x4000 = some (p + 4) := hp 4 (by decide)
    obtain rfl := Option.some.inj hp₀
    exact absurd hp₄ (by decide)

end ExclSystem

end ShellBox
