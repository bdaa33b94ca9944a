import ShellBox.Asbestos.Dispatch
import ShellBox.Logic.Packed

/-!
# The register file

The general registers of the guest lie one after the other in `struct cpu_state`, and the stack
pointer comes after them. As an operand, number 31 is the zero register; as a base, it is the stack
pointer.
-/

namespace ShellBox

open Function

def guestAddr (a : BitVec 64) : BitVec 64 := a &&& 0xffffffffffff

namespace JitCpu

def reg (c : JitCpu) (i : ℕ) : BitVec 64 := if i = 31 then 0 else c.regs i

def setReg (c : JitCpu) (i : ℕ) (v : BitVec 64) : JitCpu :=
  if i = 31 then c else { c with regs := update c.regs i v }

/-- A register as a base, and any doubleword counted from `x0`. -/
def slot (c : JitCpu) (i : ℕ) : BitVec 64 := if i = 31 then c.sp else c.regs i

def setSlot (c : JitCpu) (i : ℕ) (v : BitVec 64) : JitCpu :=
  if i = 31 then { c with sp := v } else { c with regs := update c.regs i v }

variable {c : JitCpu} {i j : ℕ} {v v' : BitVec 64}

@[simp] lemma setReg_31 : c.setReg 31 v = c := rfl

lemma setReg_of_ne (hi : i ≠ 31) : c.setReg i v = { c with regs := update c.regs i v } := if_neg hi

lemma reg_of_ne (hi : i ≠ 31) : c.reg i = c.regs i := if_neg hi

lemma slot_of_ne (hi : i ≠ 31) : c.slot i = c.regs i := if_neg hi

lemma setSlot_of_ne (hi : i ≠ 31) : c.setSlot i v = c.setReg i v := by
  rw [setSlot, setReg, if_neg hi, if_neg hi]

@[simp] lemma slot_31 : c.slot 31 = c.sp := rfl

lemma setReg_regs_self (hi : i ≠ 31) : (c.setReg i v).regs i = v := by
  rw [setReg_of_ne hi]
  exact update_self i v c.regs

lemma setReg_regs_of_ne (h : i ≠ j) : (c.setReg j v).regs i = c.regs i := by
  unfold setReg
  split_ifs
  · rfl
  · exact update_of_ne h v c.regs

lemma setSlot_regs_self (hi : i ≠ 31) : (c.setSlot i v).regs i = v := by
  rw [setSlot_of_ne hi, setReg_regs_self hi]

lemma setSlot_regs_of_ne (h : i ≠ j) : (c.setSlot j v).regs i = c.regs i := by
  unfold setSlot
  split_ifs
  · rfl
  · exact update_of_ne h v c.regs

lemma setReg_slot_of_ne (h : i ≠ j) : (c.setReg j v).slot i = c.slot i := by
  unfold setReg slot
  split_ifs
  · rfl
  · rfl
  · rfl
  · exact update_of_ne h v c.regs

lemma setSlot_slot_self : (c.setSlot i v).slot i = v := by
  unfold setSlot slot
  split_ifs
  · rfl
  · exact update_self i v c.regs

@[simp] lemma setReg_sp : (c.setReg i v).sp = c.sp := by
  unfold setReg
  split_ifs <;> rfl

end JitCpu

@[simp] lemma guestAddr_guestAddr (a : BitVec 64) : guestAddr (guestAddr a) = guestAddr a := by
  rw [guestAddr, guestAddr, BitVec.and_assoc, BitVec.and_self]

lemma guestAddr_eq (a : BitVec 64) : guestAddr a = (a.setWidth 48).setWidth 64 := by
  apply BitVec.eq_of_toNat_eq
  have hmask : (0xffffffffffff : BitVec 64).toNat = 2 ^ 48 - 1 := by decide
  rw [guestAddr, BitVec.toNat_and, hmask, Nat.and_two_pow_sub_one_eq_mod, BitVec.toNat_setWidth,
    BitVec.toNat_setWidth]
  have hlt : a.toNat % 2 ^ 48 < 2 ^ 64 := (Nat.mod_lt _ (by decide)).trans (by decide)
  rw [Nat.mod_eq_of_lt hlt]

lemma toNat_guestAddr (a : BitVec 64) : (guestAddr a).toNat = a.toNat % 2 ^ 48 := by
  rw [guestAddr_eq, BitVec.toNat_setWidth, BitVec.toNat_setWidth]
  exact Nat.mod_eq_of_lt ((Nat.mod_lt _ (by decide)).trans (by decide))

lemma guestAddr_eq_self {a : BitVec 64} : guestAddr a = a ↔ a.toNat < 2 ^ 48 := by
  rw [← BitVec.toNat_inj, toNat_guestAddr, Nat.mod_eq_iff_lt (by decide)]

end ShellBox
