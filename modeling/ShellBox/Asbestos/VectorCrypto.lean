import ShellBox.Asbestos.VectorRegs
import ShellBox.Logic.Carryless
import ShellBox.Logic.Rotate

/-!
# One step of SM3 and four rounds of SM4

Both helpers read their operands first and store the result last, so equal registers do no harm.
The last word of SM3's step is to take in the first one after its permutation; the helper takes it
in before. The two agree only where the permutation leaves the first word as it is.
-/

namespace ShellBox

open Function

def rol32 (x : BitVec 32) (n : ℕ) : BitVec 32 := x <<< n ||| x >>> (32 - n)

lemma rol32_eq {x : BitVec 32} {n : ℕ} (h : n < 32) : rol32 x n = x.rotateLeft n := by
  rw [BitVec.rotateLeft_def, Nat.mod_eq_of_lt h]
  rfl

/-- `vd[0] = r0; vd[1] = r1; vd[2] = r2; vd[3] = r3;` -/
def storeWords (rd : ℕ) (r0 r1 r2 r3 : BitVec 32) (V : FpRegs) : FpRegs :=
  (((V.setElem rd 0 r0).setElem rd 1 r1).setElem rd 2 r2).setElem rd 3 r3

def ofWords (r0 r1 r2 r3 : BitVec 32) : BitVec 128 :=
  ofLanes 128 4 fun | 0 => r0 | 1 => r1 | 2 => r2 | _ => r3

lemma lane_ofWords {r0 r1 r2 r3 : BitVec 32} :
    lane 32 (ofWords r0 r1 r2 r3) 0 = r0 ∧ lane 32 (ofWords r0 r1 r2 r3) 1 = r1 ∧
      lane 32 (ofWords r0 r1 r2 r3) 2 = r2 ∧ lane 32 (ofWords r0 r1 r2 r3) 3 = r3 := by
  have hle : 4 * 32 ≤ 128 := le_rfl
  refine ⟨?_, ?_, ?_, ?_⟩ <;> exact lane_ofLanes hle

lemma ofWords_lanes {x : BitVec 128} :
    ofWords (lane 32 x 0) (lane 32 x 1) (lane 32 x 2) (lane 32 x 3) = x := by
  obtain ⟨h0, h1, h2, h3⟩ := @lane_ofWords (lane 32 x 0) (lane 32 x 1)
    (lane 32 x 2) (lane 32 x 3)
  refine eq_of_lanes (k := 4) (w := 32) le_rfl fun i hi => ?_
  interval_cases i
  · exact h0
  · exact h1
  · exact h2
  · exact h3

lemma storeWords_eq {rd : ℕ} {r0 r1 r2 r3 : BitVec 32} {V : FpRegs} :
    storeWords rd r0 r1 r2 r3 V = update V rd (ofWords r0 r1 r2 r3) := by
  have hfull : 128 = 4 * 32 := rfl
  rw [ofWords, ← overLanes_full (v := V rd) hfull, storeWords]
  simp only [FpRegs.setElem, update_self, update_idem]
  rfl

/-! ### SM3PARTW1 -/

def sm3partw1_helper (rd rn rm : ℕ) (V : FpRegs) : FpRegs :=
  let vd := V.elem 32 rd
  let vn := V.elem 32 rn
  let vm := V.elem 32 rm
  let t0 := vd 0 ^^^ vn 0
  let t1 := vd 1 ^^^ vn 1
  let t2 := vd 2 ^^^ vn 2
  let t3 := vd 3 ^^^ vn 3
  let r0 := t0 ^^^ rol32 (vm 1) 15
  let r1 := t1 ^^^ rol32 (vm 2) 15
  let r2 := t2 ^^^ rol32 (vm 3) 15
  let r3 := t3 ^^^ rol32 r0 15
  let r0 := r0 ^^^ rol32 r0 15 ^^^ rol32 r0 23
  let r1 := r1 ^^^ rol32 r1 15 ^^^ rol32 r1 23
  let r2 := r2 ^^^ rol32 r2 15 ^^^ rol32 r2 23
  let r3 := r3 ^^^ rol32 r3 15 ^^^ rol32 r3 23
  storeWords rd r0 r1 r2 r3 V

/-- `[rd | rn<<8 | rm<<16]` -/
def gadget_sm3partw1 (word : BitVec 64) : JitCpu → Option JitCpu :=
  callHelper fun V =>
    some (sm3partw1_helper (opField word 0 5) (opField word 8 5) (opField word 16 5) V)

def sm3P1 (x : BitVec 32) : BitVec 32 := xorRot 15 23 x

def archSm3partw1 (d n m : ℕ → BitVec 32) : BitVec 128 :=
  let r0 := sm3P1 (d 0 ^^^ n 0 ^^^ (m 1).rotateLeft 15)
  let r1 := sm3P1 (d 1 ^^^ n 1 ^^^ (m 2).rotateLeft 15)
  let r2 := sm3P1 (d 2 ^^^ n 2 ^^^ (m 3).rotateLeft 15)
  let r3 := sm3P1 (d 3 ^^^ n 3 ^^^ r0.rotateLeft 15)
  ofWords r0 r1 r2 r3

lemma sm3P1_injective : Injective sm3P1 := by
  have hfour (x : BitVec 32) : sm3P1 (sm3P1 (sm3P1 (sm3P1 x))) = x := by
    unfold sm3P1
    rw [xorRot_xorRot, xorRot_xorRot, xorRot_xorRot, xorRot,
      show 23 + 23 + (23 + 23) = 28 + 32 + 32 from rfl, rotateLeft_self, rotateLeft_self,
      show 15 + 15 + (15 + 15) = 28 + 32 from rfl, rotateLeft_self, BitVec.xor_assoc,
      BitVec.xor_self, BitVec.xor_zero]
  intro x y h
  rw [← hfour x, ← hfour y, h]

lemma sm3P1_eq_self_iff {x : BitVec 32} : sm3P1 x = x ↔ x.rotateLeft 8 = x := by
  have hxor (a b : BitVec 32) : x ^^^ a ^^^ b = x ↔ a = b := by
    rw [BitVec.xor_assoc]
    nth_rewrite 2 [← BitVec.xor_zero (x := x)]
    rw [BitVec.xor_right_inj, BitVec.xor_eq_zero_iff]
  rw [sm3P1, xorRot, hxor, show (23 : ℕ) = 8 + 15 from rfl, ← rotateLeft_rotateLeft,
    rotateLeft_injective.eq_iff, eq_comm]

def sm3First (rd rn rm : ℕ) (V : FpRegs) : BitVec 32 :=
  V.elem 32 rd 0 ^^^ V.elem 32 rn 0 ^^^ (V.elem 32 rm 1).rotateLeft 15

lemma sm3partw1_helper_eq_iff {rd rn rm : ℕ} {V : FpRegs} :
    sm3partw1_helper rd rn rm V =
        update V rd (archSm3partw1 (V.elem 32 rd) (V.elem 32 rn) (V.elem 32 rm)) ↔
      (sm3First rd rn rm V).rotateLeft 8 = sm3First rd rn rm V := by
  have h15 (x : BitVec 32) : rol32 x 15 = x.rotateLeft 15 := rol32_eq (by decide)
  have h23 (x : BitVec 32) : rol32 x 23 = x.rotateLeft 23 := rol32_eq (by decide)
  have hp1 (x : BitVec 32) : x ^^^ x.rotateLeft 15 ^^^ x.rotateLeft 23 = sm3P1 x := rfl
  have hword {r0 r1 r2 a b : BitVec 32} : ofWords r0 r1 r2 a = ofWords r0 r1 r2 b ↔ a = b :=
    ⟨fun h => by simpa only [lane_ofWords.2.2.2] using congrArg (lane 32 · 3) h, fun h => by rw [h]⟩
  simp only [sm3partw1_helper, h15, h23, hp1, storeWords_eq]
  rw [(update_injective V rd).eq_iff, archSm3partw1, hword, sm3P1_injective.eq_iff,
    BitVec.xor_right_inj, rotateLeft_injective.eq_iff, eq_comm, ← sm3P1_eq_self_iff]
  rfl

/-! ### SM4E -/

def sm4_sbox : List (BitVec 8) :=
  [0xd6, 0x90, 0xe9, 0xfe, 0xcc, 0xe1, 0x3d, 0xb7, 0x16, 0xb6, 0x14, 0xc2, 0x28, 0xfb, 0x2c, 0x05,
    0x2b, 0x67, 0x9a, 0x76, 0x2a, 0xbe, 0x04, 0xc3, 0xaa, 0x44, 0x13, 0x26, 0x49, 0x86, 0x06, 0x99,
    0x9c, 0x42, 0x50, 0xf4, 0x91, 0xef, 0x98, 0x7a, 0x33, 0x54, 0x0b, 0x43, 0xed, 0xcf, 0xac, 0x62,
    0xe4, 0xb3, 0x1c, 0xa9, 0xc9, 0x08, 0xe8, 0x95, 0x80, 0xdf, 0x94, 0xfa, 0x75, 0x8f, 0x3f, 0xa6,
    0x47, 0x07, 0xa7, 0xfc, 0xf3, 0x73, 0x17, 0xba, 0x83, 0x59, 0x3c, 0x19, 0xe6, 0x85, 0x4f, 0xa8,
    0x68, 0x6b, 0x81, 0xb2, 0x71, 0x64, 0xda, 0x8b, 0xf8, 0xeb, 0x0f, 0x4b, 0x70, 0x56, 0x9d, 0x35,
    0x1e, 0x24, 0x0e, 0x5e, 0x63, 0x58, 0xd1, 0xa2, 0x25, 0x22, 0x7c, 0x3b, 0x01, 0x21, 0x78, 0x87,
    0xd4, 0x00, 0x46, 0x57, 0x9f, 0xd3, 0x27, 0x52, 0x4c, 0x36, 0x02, 0xe7, 0xa0, 0xc4, 0xc8, 0x9e,
    0xea, 0xbf, 0x8a, 0xd2, 0x40, 0xc7, 0x38, 0xb5, 0xa3, 0xf7, 0xf2, 0xce, 0xf9, 0x61, 0x15, 0xa1,
    0xe0, 0xae, 0x5d, 0xa4, 0x9b, 0x34, 0x1a, 0x55, 0xad, 0x93, 0x32, 0x30, 0xf5, 0x8c, 0xb1, 0xe3,
    0x1d, 0xf6, 0xe2, 0x2e, 0x82, 0x66, 0xca, 0x60, 0xc0, 0x29, 0x23, 0xab, 0x0d, 0x53, 0x4e, 0x6f,
    0xd5, 0xdb, 0x37, 0x45, 0xde, 0xfd, 0x8e, 0x2f, 0x03, 0xff, 0x6a, 0x72, 0x6d, 0x6c, 0x5b, 0x51,
    0x8d, 0x1b, 0xaf, 0x92, 0xbb, 0xdd, 0xbc, 0x7f, 0x11, 0xd9, 0x5c, 0x41, 0x1f, 0x10, 0x5a, 0xd8,
    0x0a, 0xc1, 0x31, 0x88, 0xa5, 0xcd, 0x7b, 0xbd, 0x2d, 0x74, 0xd0, 0x12, 0xb8, 0xe5, 0xb4, 0xb0,
    0x89, 0x69, 0x97, 0x4a, 0x0c, 0x96, 0x77, 0x7e, 0x65, 0xb9, 0xf1, 0x09, 0xc5, 0x6e, 0xc6, 0x84,
    0x18, 0xf0, 0x7d, 0xec, 0x3a, 0xdc, 0x4d, 0x20, 0x79, 0xee, 0x5f, 0x3e, 0xd7, 0xcb, 0x39, 0x48]

/-- `sm4_sbox[x & 0xff]` -/
def sm4Sub (x : BitVec 32) : BitVec 32 := (sm4_sbox.getD (x &&& 0xff).toNat 0).setWidth 32

def sm4_sbox_sub (x : BitVec 32) : BitVec 32 :=
  sm4Sub x ||| sm4Sub (x >>> 8) <<< 8 ||| sm4Sub (x >>> 16) <<< 16 ||| sm4Sub (x >>> 24) <<< 24

structure Sm4State where
  r0 : BitVec 32
  r1 : BitVec 32
  r2 : BitVec 32
  r3 : BitVec 32

def sm4Round (rk : BitVec 32) (s : Sm4State) : Sm4State :=
  let x := s.r1 ^^^ s.r2 ^^^ s.r3 ^^^ rk
  let x := sm4_sbox_sub x
  let x := x ^^^ rol32 x 2 ^^^ rol32 x 10 ^^^ rol32 x 18 ^^^ rol32 x 24
  let x := x ^^^ s.r0
  { r0 := s.r1, r1 := s.r2, r2 := s.r3, r3 := x }

def sm4e_helper (rd rn : ℕ) (V : FpRegs) : FpRegs :=
  let vd := V.elem 32 rd
  let s := (List.range 4).foldl (fun s i => sm4Round (V.elem 32 rn i) s)
    { r0 := vd 0, r1 := vd 1, r2 := vd 2, r3 := vd 3 }
  storeWords rd s.r0 s.r1 s.r2 s.r3 V

/-- `[rd | rn<<8]` -/
def gadget_sm4e (word : BitVec 64) : JitCpu → Option JitCpu :=
  callHelper fun V => some (sm4e_helper (opField word 0 5) (opField word 8 5) V)

/-! ### SM4E in the architecture -/

/-- The product of two bytes as elements of the field of 256, modulo
`x⁸ + x⁷ + x⁶ + x⁵ + x⁴ + x² + 1`, from the highest bit of `b` on. -/
def gfMul (a b : ℕ) : ℕ :=
  [7, 6, 5, 4, 3, 2, 1, 0].foldl (fun r k => 2 * r ^^^ r / 128 * 0x1f5 ^^^ b >>> k % 2 * a) 0

def gfInv (a : ℕ) : ℕ :=
  let square := gfMul a a
  ([2, 3, 4, 5, 6, 7].foldl
    (fun p _ => (gfMul p.1 p.1, gfMul (gfMul p.1 p.1) p.2)) (square, square)).2

def sm4Linear (x : BitVec 8) : BitVec 8 :=
  x ^^^ x.rotateRight 1 ^^^ x.rotateRight 2 ^^^ x.rotateRight 5 ^^^ x.rotateRight 7

/-- The S-box of SM4: the inverse between two affine maps. -/
def archSbox (x : BitVec 8) : BitVec 8 :=
  sm4Linear (BitVec.ofNat 8 (gfInv (sm4Linear x ^^^ 0xd3).toNat)) ^^^ 0xd3

def archSm4Round (rk : BitVec 32) (round : BitVec 128) : BitVec 128 :=
  let intval := lane 32 round 3 ^^^ lane 32 round 2 ^^^ lane 32 round 1 ^^^ rk
  let intval : BitVec 32 := ofLanes 32 4 fun i => archSbox (lane 8 intval i)
  let intval := intval ^^^ intval.rotateLeft 2 ^^^ intval.rotateLeft 10 ^^^ intval.rotateLeft 18 ^^^
    intval.rotateLeft 24
  let intval := intval ^^^ lane 32 round 0
  ofWords (lane 32 round 1) (lane 32 round 2) (lane 32 round 3) intval

def archSm4e (d n : BitVec 128) : BitVec 128 :=
  (List.range 4).foldl (fun round i => archSm4Round (lane 32 n i) round) d

lemma sm4_sbox_eq : ∀ x : BitVec 8, sm4_sbox.getD x.toNat 0 = archSbox x := by
  decide +kernel

lemma sm4Sub_shift {x : BitVec 32} {i : ℕ} :
    sm4Sub (x >>> (i * 8)) = (archSbox (lane 8 x i)).setWidth 32 := by
  have hmask : (x >>> (i * 8) &&& 0xff).toNat = (lane 8 x i).toNat := by
    rw [BitVec.toNat_and, lane, BitVec.extractLsb'_toNat, BitVec.toNat_ushiftRight]
    exact Nat.and_two_pow_sub_one_eq_mod _ 8
  rw [sm4Sub, hmask, sm4_sbox_eq]

lemma lane_or_shift {b0 b1 b2 b3 : BitVec 8} {i : ℕ} (hi : i < 4) :
    lane 8 (b0.setWidth 32 ||| b1.setWidth 32 <<< 8 ||| b2.setWidth 32 <<< 16 |||
      b3.setWidth 32 <<< 24) i = [b0, b1, b2, b3].getD i 0 := by
  apply BitVec.eq_of_getLsbD_eq
  intro j hj
  have hle {k : ℕ} (b : BitVec 8) (h : 8 ≤ k) : b.getLsbD k = false := BitVec.getLsbD_of_ge b k h
  rw [getLsbD_lane]
  simp only [BitVec.getLsbD_or, BitVec.getLsbD_shiftLeft, BitVec.getLsbD_setWidth]
  interval_cases i
  · simp [hj, show j < 32 by omega, show j < 16 by omega, show j < 24 by omega]
  · simp [hj, show j < 32 by omega, show 8 + j < 32 by omega, show 8 + j < 16 by omega,
      show 8 + j < 24 by omega]
  · simp [hj, show j < 32 by omega, show 16 + j < 32 by omega, show 16 + j < 24 by omega,
      hle b0 (show 8 ≤ 16 + j by omega), hle b1 (show 8 ≤ 16 + j - 8 by omega)]
  · simp [hj, show j < 32 by omega, show 24 + j < 32 by omega, hle b0 (show 8 ≤ 24 + j by omega),
      hle b1 (show 8 ≤ 24 + j - 8 by omega), hle b2 (show 8 ≤ 24 + j - 16 by omega)]

lemma sm4_sbox_sub_eq {x : BitVec 32} :
    sm4_sbox_sub x = ofLanes 32 4 fun i => archSbox (lane 8 x i) := by
  have h0 : sm4Sub x = (archSbox (lane 8 x 0)).setWidth 32 := by
    rw [← sm4Sub_shift, Nat.zero_mul, BitVec.ushiftRight_zero]
  have h1 : sm4Sub (x >>> 8) = (archSbox (lane 8 x 1)).setWidth 32 := by rw [← sm4Sub_shift]
  have h2 : sm4Sub (x >>> 16) = (archSbox (lane 8 x 2)).setWidth 32 := by rw [← sm4Sub_shift]
  have h3 : sm4Sub (x >>> 24) = (archSbox (lane 8 x 3)).setWidth 32 := by rw [← sm4Sub_shift]
  rw [sm4_sbox_sub, h0, h1, h2, h3]
  refine eq_of_lanes (k := 4) (w := 8) le_rfl fun i hi => ?_
  have hle : 4 * 8 ≤ 32 := le_rfl
  rw [lane_ofLanes hle, if_pos hi, lane_or_shift hi]
  interval_cases i <;> rfl

lemma archSm4Round_ofWords (rk : BitVec 32) (s : Sm4State) :
    archSm4Round rk (ofWords s.r0 s.r1 s.r2 s.r3) =
      ofWords (sm4Round rk s).r0 (sm4Round rk s).r1 (sm4Round rk s).r2 (sm4Round rk s).r3 := by
  obtain ⟨h0, h1, h2, h3⟩ := @lane_ofWords s.r0 s.r1 s.r2 s.r3
  have hrol {n : ℕ} (h : n < 32) (x : BitVec 32) : x.rotateLeft n = rol32 x n := (rol32_eq h).symm
  have hsum : s.r3 ^^^ s.r2 ^^^ s.r1 = s.r1 ^^^ s.r2 ^^^ s.r3 := by
    rw [BitVec.xor_comm s.r3, BitVec.xor_comm (s.r2 ^^^ s.r3), ← BitVec.xor_assoc]
  simp only [archSm4Round, h0, h1, h2, h3, hsum, ← sm4_sbox_sub_eq]
  rw [hrol (by decide), hrol (by decide), hrol (by decide), hrol (by decide)]
  rfl

theorem sm4e_helper_eq {rd rn : ℕ} {V : FpRegs} :
    sm4e_helper rd rn V = update V rd (archSm4e (V rd) (V rn)) := by
  have hrun (l : List ℕ) (s : Sm4State) :
      l.foldl (fun round i => archSm4Round (lane 32 (V rn) i) round)
          (ofWords s.r0 s.r1 s.r2 s.r3) =
        let s := l.foldl (fun s i => sm4Round (V.elem 32 rn i) s) s
        ofWords s.r0 s.r1 s.r2 s.r3 := by
    induction l generalizing s with
    | nil => rfl
    | cons i l ih =>
      rw [List.foldl_cons, List.foldl_cons, archSm4Round_ofWords]
      exact ih _
  have hstart : V rd = ofWords (V.elem 32 rd 0) (V.elem 32 rd 1) (V.elem 32 rd 2)
      (V.elem 32 rd 3) := ofWords_lanes.symm
  rw [sm4e_helper, storeWords_eq, archSm4e]
  conv_rhs => rw [hstart]
  exact congrArg (update V rd) (hrun (List.range 4) _).symm

/-! ### The instructions -/

/-- `SM3PARTW1` -/
structure Sm3Insn where
  rd : BitVec 5
  rn : BitVec 5
  rm : BitVec 5

namespace Sm3Insn

variable (i : Sm3Insn)

def run : JitCpu → Option JitCpu := gadget_sm3partw1 (pack₃ i.rd i.rn i.rm)

def dest : ℕ := i.rd.toNat

def result (c : JitCpu) : BitVec 128 :=
  archSm3partw1 (FpRegs.elem c.fp 32 i.rd.toNat) (FpRegs.elem c.fp 32 i.rn.toNat)
    (FpRegs.elem c.fp 32 i.rm.toNat)

/-- The four bytes of the first word before its permutation are the same. -/
def Fits (c : JitCpu) : Prop :=
  let first := sm3First i.rd.toNat i.rn.toNat i.rm.toNat c.fp
  first.rotateLeft 8 = first

instance decidableFits (c : JitCpu) : Decidable (i.Fits c) := inferInstanceAs (Decidable (_ = _))

variable {i}

theorem run_eq_iff (c : JitCpu) :
    i.run c = some (c.setFp i.dest (i.result c)) ↔ i.Fits c := by
  obtain ⟨e₁, e₂, e₃⟩ : opField (pack₃ i.rd i.rn i.rm) 0 5 = i.rd.toNat ∧
      opField (pack₃ i.rd i.rn i.rm) 8 5 = i.rn.toNat ∧
      opField (pack₃ i.rd i.rn i.rm) 16 5 = i.rm.toNat :=
    opField_pack₃ (by omega) (by omega) (by omega)
  rw [run, gadget_sm3partw1, e₁, e₂, e₃, callHelper_eq_iff, Option.some_inj]
  exact sm3partw1_helper_eq_iff

end Sm3Insn

/-- `SM4E` -/
structure Sm4Insn where
  rd : BitVec 5
  rn : BitVec 5

namespace Sm4Insn

variable (i : Sm4Insn)

def run : JitCpu → Option JitCpu := gadget_sm4e (packAt 0 i.rd ||| packAt 8 i.rn)

def dest : ℕ := i.rd.toNat

def result (c : JitCpu) : BitVec 128 := archSm4e (c.fp i.rd.toNat) (c.fp i.rn.toNat)

variable {i}

/-- Four rounds of SM4 are exact for all registers. -/
theorem run_eq_result (c : JitCpu) : i.run c = some (c.setFp i.dest (i.result c)) := by
  obtain ⟨e₁, e₂⟩ := extract_pack₂ i.rd i.rn (by omega) (by omega)
  rw [run, gadget_sm4e, opField, opField, e₁, e₂, callHelper_eq_iff]
  exact congrArg some sm4e_helper_eq

end Sm4Insn

end ShellBox
