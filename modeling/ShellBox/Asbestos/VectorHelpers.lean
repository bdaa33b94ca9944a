import ShellBox.Asbestos.VectorCrypto
import ShellBox.Asbestos.VectorPermute
import ShellBox.Asbestos.VectorProduct

/-!
# The vector helpers against the architecture

For every instruction behind the C helpers it is said exactly when the helper leaves the registers
that the architecture asks for. Lookups, permutations and SM4 always do. SM3 needs a first word
whose permutation is itself, products of bytes an operand that is not overwritten before it is read,
and shifts by an immediate an amount that C defines, and for those that accumulate or insert, an
upper half that is already clear.
-/

namespace ShellBox

inductive VectorInsn where
  | sm3partw1 (i : Sm3Insn)
  | sm4e (i : Sm4Insn)
  | pmull (i : PmullInsn)
  | table (i : TableInsn)
  | shift (i : ShiftInsn)
  | scalarShift (i : ScalarShift)
  | permute (i : PermuteInsn)

namespace VectorInsn

def run : VectorInsn → JitCpu → Option JitCpu
  | sm3partw1 i => i.run
  | sm4e i => i.run
  | pmull i => i.run
  | table i => i.run
  | shift i => i.run
  | scalarShift i => i.run
  | permute i => i.run

def dest : VectorInsn → ℕ
  | sm3partw1 i => i.dest
  | sm4e i => i.dest
  | pmull i => i.dest
  | table i => i.dest
  | shift i => i.dest
  | scalarShift i => i.toShift.dest
  | permute i => i.dest

/-- The whole register that the architecture computes, of the operands as they were. -/
def result : VectorInsn → JitCpu → BitVec 128
  | sm3partw1 i => i.result
  | sm4e i => i.result
  | pmull i => i.result
  | table i => i.result
  | shift i => i.result
  | scalarShift i => i.toShift.result
  | permute i => i.result

def Correct (i : VectorInsn) (c : JitCpu) : Prop := i.run c = some (c.setFp i.dest (i.result c))

def Fits : VectorInsn → JitCpu → Prop
  | sm3partw1 i => i.Fits
  | sm4e _ => fun _ => True
  | pmull i => i.Fits
  | table _ => fun _ => True
  | shift i => i.Fits
  | scalarShift i => i.toShift.Fits
  | permute _ => fun _ => True

theorem correct_iff_fits (i : VectorInsn) (c : JitCpu) : i.Correct c ↔ i.Fits c := by
  cases i with
  | sm3partw1 i => exact i.run_eq_iff c
  | sm4e i => exact iff_of_true (i.run_eq_result c) trivial
  | pmull i => exact i.run_eq_iff c
  | table i => exact iff_of_true (i.run_eq_result c) trivial
  | shift i => exact i.run_eq_iff c
  | scalarShift i => exact i.run_eq_iff c
  | permute i => exact iff_of_true (i.run_eq_result c) trivial

/-- Registers for which four instructions go wrong: an accumulation leaves the upper half, a product
reads a byte that is overwritten, the step of SM3 takes in a word too early, and a shift by the full
width is undefined. -/
theorem correct_fails : ∃ c : JitCpu,
    ¬ (shift ⟨.usra, 0, 1, 1, 0, false, by decide⟩).Correct c ∧
      ¬ (pmull ⟨0, 0, 1, false, false⟩).Correct c ∧
      ¬ (sm3partw1 ⟨0, 1, 2⟩).Correct c ∧
      ¬ (shift ⟨.ushr, 0, 1, 64, 3, true, by decide⟩).Correct c := by
  let fp : FpRegs := fun r => if r = 0 then 0x10000000000000201 else if r = 1 then 0x101 else 0
  refine ⟨⟨fun _ => 0, 0, 0, 0, fp, 0, 0, false, .none, 0⟩, ?_, ?_, ?_, ?_⟩
  · rintro h
    obtain ⟨_, hupper⟩ := (ShiftInsn.run_eq_iff _).1 h
    revert hupper
    decide
  · rintro h
    have hfits := ((PmullInsn.run_eq_iff _).1 h).resolve_left (by decide)
    have hone := hfits.resolve_left (by decide) 1 le_rfl (by decide)
    revert hone
    decide
  · rintro h
    exact absurd ((Sm3Insn.run_eq_iff _).1 h) (by decide)
  · rintro h
    have hdefined := ((ShiftInsn.run_eq_iff _).1 h).1 0 (by decide)
    exact absurd (hdefined.1 (by decide)) (by decide)

end VectorInsn

end ShellBox
