import ShellBox.Logic.BitMask

/-!
# Instruction words

The fields of a guest instruction, under the names that the translator gives them.
-/

namespace ShellBox

abbrev Insn := BitVec 32

namespace Insn

variable (insn : Insn)

/-- `(insn >> lo) & ((1 << len) - 1)` -/
def bits (lo len : ℕ) : BitVec len := insn.extractLsb' lo len

def rt : ℕ := (insn.bits 0 5).toNat
def rn : ℕ := (insn.bits 5 5).toNat
def rt2 : ℕ := (insn.bits 10 5).toNat
def rm : ℕ := (insn.bits 16 5).toNat

def size : BitVec 2 := insn.bits 30 2

def opc : BitVec 2 := insn.bits 22 2

/-- `V`, the bit of the vector registers. -/
def isVector : Bool := insn.bits 26 1 = 1

/-- How `imm9` is used. -/
def mode : BitVec 2 := insn.bits 10 2

def imm9 : BitVec 64 := (insn.bits 12 9).signExtend 64

def imm7 : BitVec 64 := (insn.bits 15 7).signExtend 64

variable {insn}

lemma rt_lt : insn.rt < 32 := (insn.bits 0 5).isLt
lemma rn_lt : insn.rn < 32 := (insn.bits 5 5).isLt
lemma rt2_lt : insn.rt2 < 32 := (insn.bits 10 5).isLt

lemma bits_of_mask {lo len : ℕ} {m v : Insn} (h : insn &&& m = v)
    (hm : m.extractLsb' lo len = BitVec.allOnes len) : insn.bits lo len = Insn.bits v lo len :=
  extractLsb'_of_mask h hm

end Insn

end ShellBox
