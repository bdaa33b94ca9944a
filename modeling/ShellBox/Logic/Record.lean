import ShellBox.Logic.LittleEndian

/-!
# Records in a byte memory

A record is a list of words at offsets from where it starts. If the offsets ascend and no word
reaches into the next one, each word can be loaded back once all are stored, and nothing outside
the record changes.
-/

namespace ShellBox

/-- A word of a record. -/
structure WordField where
  offset : ℕ
  width : ℕ
  value : ℕ

variable {m m' : ℕ → UInt8} {p : ℕ} {fs : List WordField} {f : WordField}

/-- Store the words of a record that starts at `p`. -/
def storeFields (m : ℕ → UInt8) (p : ℕ) (fs : List WordField) : ℕ → UInt8 :=
  fs.foldl (fun m f => storeLE m (p + f.offset) f.width f.value) m

/-- Each word ends before the next one. -/
def FieldsApart (fs : List WordField) : Prop :=
  fs.Pairwise fun f g => f.offset + f.width ≤ g.offset

/-- Two memories agree on the `size` bytes from `p` on. -/
def SameBytes (m m' : ℕ → UInt8) (p size : ℕ) : Prop := ∀ i, i < size → m (p + i) = m' (p + i)

lemma SameBytes.loadLE {size o n : ℕ} (h : SameBytes m m' p size) (hn : o + n ≤ size) :
    ShellBox.loadLE m (p + o) n = ShellBox.loadLE m' (p + o) n := by
  refine loadLE_congr fun i hi => ?_
  rw [Nat.add_assoc]
  exact h (o + i) (by omega)

lemma storeFields_of_notMem {i : ℕ}
    (h : ∀ f ∈ fs, i < p + f.offset ∨ p + f.offset + f.width ≤ i) : storeFields m p fs i = m i := by
  unfold storeFields
  induction fs generalizing m with
  | nil => rfl
  | cons f fs ih =>
    rw [List.foldl_cons, ih fun g hg => h g (List.mem_cons_of_mem f hg)]
    exact storeLE_of_notMem (h f List.mem_cons_self)

/-- A store of a record changes nothing outside of it. -/
lemma storeFields_outside {size i : ℕ} (hsize : ∀ f ∈ fs, f.offset + f.width ≤ size)
    (hi : i < p ∨ p + size ≤ i) : storeFields m p fs i = m i := by
  refine storeFields_of_notMem fun f hf => ?_
  have hle := hsize f hf
  omega

/-- Every word of a record can be loaded back. -/
theorem loadLE_storeFields (h : FieldsApart fs) (hf : f ∈ fs) :
    loadLE (storeFields m p fs) (p + f.offset) f.width = f.value % 256 ^ f.width := by
  induction fs generalizing m with
  | nil => simp at hf
  | cons g fs ih =>
    obtain ⟨hg, hfs⟩ := List.pairwise_cons.mp h
    rcases List.mem_cons.mp hf with rfl | hf
    · -- the words after `f` are stored behind it
      have hkept : loadLE (storeFields (storeLE m (p + f.offset) f.width f.value) p fs)
          (p + f.offset) f.width =
          loadLE (storeLE m (p + f.offset) f.width f.value) (p + f.offset) f.width := by
        refine loadLE_congr fun i hi => storeFields_of_notMem fun g hg' => Or.inl ?_
        have hle := hg g hg'
        omega
      exact hkept.trans (loadLE_storeLE m (p + f.offset) f.width f.value)
    · exact ih hfs hf

end ShellBox
