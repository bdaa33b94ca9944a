import ShellBox.Kernel.Memory.Lifetime

/-!
# Other address spaces

Every memory operation but the fork changes one address space only.
-/

namespace ShellBox

open Function World

variable {w : World} {h : Host} {s s' start pages page : ℕ}

lemma unmapPage_mem (hs : s' ≠ s) (page : ℕ) (w : World) :
    (unmapPage s page w).mem s' = w.mem s' := by
  cases he : w.slot (s, ptIndex page) with
  | none => rw [unmapPage_none he]
  | some e =>
    rw [unmapPage_some he, unrefData_mem, memPtDel, setMem_of_ne _ _ _ hs]
    split_ifs <;> rfl

lemma memChanged_mem (hs : s' ≠ s) (w : World) : (w.memChanged s).mem s' = w.mem s' :=
  setMem_of_ne _ _ _ hs

lemma ptUnmapAlways_mem (hs : s' ≠ s) (h : Host) (start pages : ℕ) (w : World) :
    (ptUnmapAlways h s start pages w).mem s' = w.mem s' := by
  unfold ptUnmapAlways
  rw [memChanged_mem hs]
  refine forLoop_invariant (P := fun w' : World => w'.mem s' = w.mem s')
    (fun i w' _ ih => (unmapPage_mem hs i w').trans ih) _ _ ?_
  exact setMem_of_ne _ _ _ hs

lemma mapPage_mem (hs : s' ≠ s) {d : DataId} {offset : ℕ} {flags : Flags} (page : ℕ) (w : World) :
    (mapPage h s d start offset flags page w).mem s' = w.mem s' := by
  simp only [mapPage, ptUnmap, memPtNew, setMem_of_ne _ _ _ hs, refData_mem]
  split_ifs
  · exact ptUnmapAlways_mem hs h page 1 w
  · rfl
  · rfl

lemma ptMap_mem (hs : s' ≠ s) {memory : Option (ℕ → UInt8)} {offset : ℕ} {flags : Flags}
    (w : World) : (ptMap h s start pages memory offset flags w).1.mem s' = w.mem s' := by
  unfold ptMap
  cases memory with
  | none => rfl
  | some bytes =>
    simp only
    split_ifs
    · exact forLoop_invariant (P := fun w' : World => w'.mem s' = w.mem s')
        (fun i w' _ ih => (mapPage_mem hs i w').trans ih) _ _ rfl
    · rfl

lemma ptMapNothing_mem (hs : s' ≠ s) {flags : Flags} (w : World) :
    (ptMapNothing h s start pages flags w).1.mem s' = w.mem s' := by
  unfold ptMapNothing
  split_ifs
  · rfl
  · exact ptMap_mem hs w
  · rfl

lemma mapReserved_mem (hs : s' ≠ s) (w : World) :
    (mapReserved h s page w).1.mem s' = w.mem s' := by
  unfold mapReserved
  cases memFindReservation (w.mem s).reservations page with
  | none => rfl
  | some res => exact ptMapNothing_mem hs _

lemma faultIn_mem (page : ℕ) (hs : s' ≠ s) (w : World) : (faultIn h s page w).1.mem s' = w.mem s' := by
  unfold faultIn
  simp only
  cases (w.mem s).pt.memPt page with
  | some e => rfl
  | none =>
    cases (w.mem s).pt.nextMapped memPages ((w.mem s).pt.memNextPage page) with
    | none => exact mapReserved_mem hs w
    | some p =>
      simp only
      split_ifs
      · exact ptMapNothing_mem hs _
      · rfl
      · exact mapReserved_mem hs w

lemma clearCode_mem (hs : s' ≠ s) (f : Flags) (w : World) :
    (clearCode s page f w).mem s' = w.mem s' := by
  unfold clearCode
  split_ifs
  · exact (memChanged_mem hs _).trans (setMem_of_ne _ _ _ hs)
  · exact setMem_of_ne _ _ _ hs

lemma copyForWrite_mem (hs : s' ≠ s) (w : World) :
    (copyForWrite h s page w).mem s' = w.mem s' := by
  unfold copyForWrite
  cases (w.mem s).pt.memPt page with
  | none => rfl
  | some e =>
    simp only
    split_ifs
    · exact (memChanged_mem hs _).trans (ptMap_mem hs _)
    · exact (memChanged_mem hs _).trans (ptMap_mem hs _)
    · rfl

lemma prepareWrite_mem (page : ℕ) (ptrace : Bool) (hs : s' ≠ s) (w : World) :
    (prepareWrite h s page ptrace w).1.mem s' = w.mem s' := by
  unfold prepareWrite
  cases (w.mem s).pt.memPt page with
  | none => rfl
  | some e =>
    simp only
    split_ifs
    · rfl
    · exact (copyForWrite_mem hs _).trans (clearCode_mem hs _ w)
    · exact (copyForWrite_mem hs _).trans (clearCode_mem hs _ w)

lemma memPtr_mem (hs : s' ≠ s) {addr : ℕ} {type : AccessType} (w : World) :
    (memPtr h s addr type w).1.mem s' = w.mem s' := by
  have hfault := faultIn_mem (h := h) (ShellBox.page addr) hs w
  unfold memPtr
  generalize faultIn h s (ShellBox.page addr) w = r at hfault
  obtain ⟨w₁, ok⟩ := r
  cases ok with
  | false => exact hfault
  | true =>
    have hprep := prepareWrite_mem (h := h) (ShellBox.page addr)
      (type = .writePtrace) hs w₁
    simp only
    split_ifs
    · exact hfault
    · generalize prepareWrite h s (ShellBox.page addr) (type = .writePtrace) w₁ = r at hprep
      obtain ⟨w₂, ok⟩ := r
      cases ok <;> exact hprep.trans hfault

lemma writeByte_mem (hs : s' ≠ s) {addr : ℕ} {byte : UInt8} (w : World) :
    (writeByte h s addr byte w).mem s' = w.mem s' := by
  rw [writeByte_eq]
  cases (memPtr h s addr .write w).2 <;> exact memPtr_mem hs w

end ShellBox
