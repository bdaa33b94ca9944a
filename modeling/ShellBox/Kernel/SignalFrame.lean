import ShellBox.Logic.Record

/-!
# Signal frames in guest memory

The frame of a signal handler is a `struct rt_sigframe_` with the registers of the interrupted
code. Delivery writes it field by field into a structure that was cleared, and copies that to the
stack; `rt_sigreturn` copies it back and reads the fields it needs.
-/

namespace ShellBox

/-- The registers of `struct cpu_state`. -/
structure Arm64Cpu where
  regs : Fin 31 → BitVec 64
  sp : BitVec 64
  pc : BitVec 64
  nzcv : BitVec 32
  fpsr : BitVec 32
  fpcr : BitVec 32
  fp : Fin 32 → BitVec 128

/-- `struct rt_sigframe_`, with its `ucontext_`, `sigcontext_` and `fpsimd_context_`. -/
@[ext] structure RtSigframe where
  restorer : BitVec 64
  sig : BitVec 32
  pinfo : BitVec 64
  puc : BitVec 64
  info : BitVec 1024
  flags : BitVec 64
  link : BitVec 64
  stack : BitVec 64
  stackFlags : BitVec 32
  stackSize : BitVec 64
  sigmask : BitVec 64
  faultAddress : BitVec 64
  regs : Fin 31 → BitVec 64
  sp : BitVec 64
  pc : BitVec 64
  pstate : BitVec 64
  magic : BitVec 32
  size : BitVec 32
  fpsr : BitVec 32
  fpcr : BitVec 32
  vregs : Fin 32 → BitVec 128
  retcode : BitVec 64

def infoOffset : ℕ := 32
def ucOffset : ℕ := 160
def mcontextOffset : ℕ := ucOffset + 168
/-- `__reserved`, where the `fpsimd_context_` is. -/
def reservedOffset : ℕ := mcontextOffset + 280
def retcodeOffset : ℕ := reservedOffset + 4096
/-- `sizeof(struct rt_sigframe_)` -/
def rtSigframeSize : ℕ := retcodeOffset + 8

def fpsimdMagic : BitVec 32 := 0x46508001
def minsigstksz : ℕ := 6144

namespace RtSigframe

def headFields (F : RtSigframe) : List WordField :=
  [⟨0, 8, F.restorer.toNat⟩, ⟨8, 4, F.sig.toNat⟩, ⟨16, 8, F.pinfo.toNat⟩, ⟨24, 8, F.puc.toNat⟩,
    ⟨infoOffset, 128, F.info.toNat⟩,
    ⟨ucOffset, 8, F.flags.toNat⟩, ⟨ucOffset + 8, 8, F.link.toNat⟩,
    ⟨ucOffset + 16, 8, F.stack.toNat⟩, ⟨ucOffset + 24, 4, F.stackFlags.toNat⟩,
    ⟨ucOffset + 32, 8, F.stackSize.toNat⟩, ⟨ucOffset + 40, 8, F.sigmask.toNat⟩,
    ⟨mcontextOffset, 8, F.faultAddress.toNat⟩]

def regFields (F : RtSigframe) : List WordField :=
  List.ofFn fun i => ⟨mcontextOffset + 8 + 8 * i, 8, (F.regs i).toNat⟩

/-- The rest of the `sigcontext_` and the head of the `fpsimd_context_`. -/
def stateFields (F : RtSigframe) : List WordField :=
  [⟨mcontextOffset + 256, 8, F.sp.toNat⟩, ⟨mcontextOffset + 264, 8, F.pc.toNat⟩,
    ⟨mcontextOffset + 272, 8, F.pstate.toNat⟩,
    ⟨reservedOffset, 4, F.magic.toNat⟩, ⟨reservedOffset + 4, 4, F.size.toNat⟩,
    ⟨reservedOffset + 8, 4, F.fpsr.toNat⟩, ⟨reservedOffset + 12, 4, F.fpcr.toNat⟩]

def vregFields (F : RtSigframe) : List WordField :=
  List.ofFn fun i => ⟨reservedOffset + 16 + 16 * i, 16, (F.vregs i).toNat⟩

/-- The layout of the frame. What lies between the fields is padding and stays zero. -/
def fields (F : RtSigframe) : List WordField :=
  F.headFields ++ F.regFields ++ F.stateFields ++ F.vregFields ++
    [⟨retcodeOffset, 8, F.retcode.toNat⟩]

/-- `user_write(sp, &frame, frame_size)` -/
def write (F : RtSigframe) (m : ℕ → UInt8) (p : ℕ) : ℕ → UInt8 :=
  storeFields (storeLE m p rtSigframeSize 0) p F.fields

/-- `user_get(frame_addr, frame)` -/
def read (m : ℕ → UInt8) (p : ℕ) : RtSigframe where
  restorer := BitVec.ofNat 64 (loadLE m p 8)
  sig := BitVec.ofNat 32 (loadLE m (p + 8) 4)
  pinfo := BitVec.ofNat 64 (loadLE m (p + 16) 8)
  puc := BitVec.ofNat 64 (loadLE m (p + 24) 8)
  info := BitVec.ofNat 1024 (loadLE m (p + infoOffset) 128)
  flags := BitVec.ofNat 64 (loadLE m (p + ucOffset) 8)
  link := BitVec.ofNat 64 (loadLE m (p + (ucOffset + 8)) 8)
  stack := BitVec.ofNat 64 (loadLE m (p + (ucOffset + 16)) 8)
  stackFlags := BitVec.ofNat 32 (loadLE m (p + (ucOffset + 24)) 4)
  stackSize := BitVec.ofNat 64 (loadLE m (p + (ucOffset + 32)) 8)
  sigmask := BitVec.ofNat 64 (loadLE m (p + (ucOffset + 40)) 8)
  faultAddress := BitVec.ofNat 64 (loadLE m (p + mcontextOffset) 8)
  regs i := BitVec.ofNat 64 (loadLE m (p + (mcontextOffset + 8 + 8 * i)) 8)
  sp := BitVec.ofNat 64 (loadLE m (p + (mcontextOffset + 256)) 8)
  pc := BitVec.ofNat 64 (loadLE m (p + (mcontextOffset + 264)) 8)
  pstate := BitVec.ofNat 64 (loadLE m (p + (mcontextOffset + 272)) 8)
  magic := BitVec.ofNat 32 (loadLE m (p + reservedOffset) 4)
  size := BitVec.ofNat 32 (loadLE m (p + (reservedOffset + 4)) 4)
  fpsr := BitVec.ofNat 32 (loadLE m (p + (reservedOffset + 8)) 4)
  fpcr := BitVec.ofNat 32 (loadLE m (p + (reservedOffset + 12)) 4)
  vregs i := BitVec.ofNat 128 (loadLE m (p + (reservedOffset + 16 + 16 * i)) 16)
  retcode := BitVec.ofNat 64 (loadLE m (p + retcodeOffset) 8)

def layout : List (ℕ × ℕ) :=
  [(0, 8), (8, 4), (16, 8), (24, 8), (infoOffset, 128), (ucOffset, 8), (ucOffset + 8, 8),
    (ucOffset + 16, 8), (ucOffset + 24, 4), (ucOffset + 32, 8), (ucOffset + 40, 8),
    (mcontextOffset, 8)] ++
  List.ofFn (fun i : Fin 31 => (mcontextOffset + 8 + 8 * (i : ℕ), 8)) ++
  [(mcontextOffset + 256, 8), (mcontextOffset + 264, 8), (mcontextOffset + 272, 8),
    (reservedOffset, 4), (reservedOffset + 4, 4), (reservedOffset + 8, 4),
    (reservedOffset + 12, 4)] ++
  List.ofFn (fun i : Fin 32 => (reservedOffset + 16 + 16 * (i : ℕ), 16)) ++ [(retcodeOffset, 8)]

lemma map_fields (F : RtSigframe) : F.fields.map (fun f => (f.offset, f.width)) = layout := by
  simp only [fields, headFields, regFields, stateFields, vregFields, layout, List.map_append,
    List.map_ofFn, List.map_cons, List.map_nil]
  rfl

lemma fieldsApart (F : RtSigframe) : FieldsApart F.fields := by
  have hlayout : layout.Pairwise fun f g => f.1 + f.2 ≤ g.1 := by decide +kernel
  rw [← map_fields F, List.pairwise_map] at hlayout
  exact hlayout

lemma layout_le : ∀ f ∈ layout, f.1 + f.2 ≤ rtSigframeSize := by decide +kernel

lemma fields_le (F : RtSigframe) : ∀ f ∈ F.fields, f.offset + f.width ≤ rtSigframeSize :=
  fun f hf => layout_le (f.offset, f.width) (map_fields F ▸ List.mem_map_of_mem hf)

lemma load_write (F : RtSigframe) (m : ℕ → UInt8) (p o n : ℕ) {k : ℕ} (v : BitVec k)
    (hf : ⟨o, n, v.toNat⟩ ∈ F.fields) (hk : k = 8 * n) :
    BitVec.ofNat k (loadLE (F.write m p) (p + o) n) = v := by
  have hpow : 256 ^ n = 2 ^ k := by
    rw [hk, pow_mul]
    norm_num
  have hload := loadLE_storeFields (m := storeLE m p rtSigframeSize 0) (p := p) F.fieldsApart hf
  simp only [] at hload
  rw [write, hload, hpow, Nat.mod_eq_of_lt v.isLt, BitVec.ofNat_toNat, BitVec.setWidth_eq]

/-- A frame is read back as it was written, every field of it. -/
theorem read_write (F : RtSigframe) (m : ℕ → UInt8) (p : ℕ) : read (F.write m p) p = F := by
  have hload : ∀ {k : ℕ} (v : BitVec k) (o n : ℕ),
      ⟨o, n, v.toNat⟩ ∈ F.headFields ++ F.stateFields → k = 8 * n →
      BitVec.ofNat k (loadLE (F.write m p) (p + o) n) = v := by
    intro k v o n hf hk
    refine load_write F m p o n v ?_ hk
    simp only [fields, List.mem_append] at hf ⊢
    tauto
  apply RtSigframe.ext
  case regs =>
    funext i
    refine load_write F m p _ 8 (F.regs i) ?_ rfl
    simp only [fields, List.mem_append]
    exact Or.inl (Or.inl (Or.inl (Or.inr (List.mem_ofFn.mpr ⟨i, rfl⟩))))
  case vregs =>
    funext i
    refine load_write F m p _ 16 (F.vregs i) ?_ rfl
    simp only [fields, List.mem_append]
    exact Or.inl (Or.inr (List.mem_ofFn.mpr ⟨i, rfl⟩))
  case retcode => exact load_write F m p retcodeOffset 8 F.retcode (by simp [fields]) rfl
  case info => exact hload F.info infoOffset 128 (by simp [headFields]) rfl
  case restorer => exact hload F.restorer 0 8 (by simp [headFields]) rfl
  all_goals exact hload _ _ _ (by simp [headFields, stateFields]) rfl

lemma read_congr {m m' : ℕ → UInt8} {p : ℕ} (h : SameBytes m m' p rtSigframeSize) :
    read m p = read m' p := by
  have hload : ∀ (k : ℕ) (f : ℕ × ℕ), f ∈ layout →
      BitVec.ofNat k (loadLE m (p + f.1) f.2) = BitVec.ofNat k (loadLE m' (p + f.1) f.2) := by
    intro k f hf
    rw [h.loadLE (layout_le f hf)]
  apply RtSigframe.ext
  case restorer => exact hload 64 (0, 8) (by decide +kernel)
  case regs =>
    funext i
    refine hload 64 (mcontextOffset + 8 + 8 * i, 8) ?_
    simp only [layout, List.mem_append]
    exact Or.inl (Or.inl (Or.inl (Or.inr (List.mem_ofFn.mpr ⟨i, rfl⟩))))
  case vregs =>
    funext i
    refine hload 128 (reservedOffset + 16 + 16 * i, 16) ?_
    simp only [layout, List.mem_append]
    exact Or.inl (Or.inr (List.mem_ofFn.mpr ⟨i, rfl⟩))
  all_goals exact hload _ (_, _) (by decide +kernel)

lemma write_outside (F : RtSigframe) (m : ℕ → UInt8) {p i : ℕ}
    (hi : i < p ∨ p + rtSigframeSize ≤ i) : F.write m p i = m i := by
  rw [write, storeFields_outside F.fields_le hi, storeLE_of_notMem hi]

end RtSigframe

end ShellBox
