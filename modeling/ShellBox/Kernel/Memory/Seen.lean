import ShellBox.Kernel.Memory.Region

/-!
# What a process sees of its pages

The protection of a page and its bytes, whether the page has an entry or is only reserved, in
which case it has not been written to.
-/

namespace ShellBox

open World

variable {s q : ℕ} {w w' : World} {K : Set (ℕ × ℕ)}

def Flags.prot (f : Flags) : Prot := ⟨f.read, f.write, f.exec⟩

def World.protOf (w : World) (s q : ℕ) : Option Prot :=
  match w.slot (s, ptIndex q) with
  | some e => some e.flags.prot
  | none => (w.reservedFlags s q).map Flags.prot

def World.byteAt (w : World) (s addr : ℕ) : Option UInt8 :=
  match w.slot (s, ptIndex (page addr)) with
  | some e => w.load { data := e.data, offset := e.offset + pgoffset addr }
  | none => (w.reservedFlags s (page addr)).map fun _ => 0

/-- The pages with a byte among the `len` bytes from `addr` on. -/
def pagesOf (addr len : ℕ) : Set ℕ := {q | page addr ≤ q ∧ q * pageSize < addr + len}

lemma protOf_mapped {e : PtEntry} (he : w.slot (s, ptIndex q) = some e) :
    w.protOf s q = some e.flags.prot := by
  rw [World.protOf, he]

lemma page_add {addr : ℕ} (haddr : pgoffset addr = 0) (i : ℕ) :
    page (addr + i) = page addr + i / pageSize := by
  unfold page pgoffset pageSize at *
  omega

lemma mem_pagesOf {addr len : ℕ} (haddr : pgoffset addr = 0) :
    q ∈ pagesOf addr len ↔ page addr ≤ q ∧ (q - page addr) * pageSize < len := by
  unfold pagesOf page pgoffset pageSize at *
  simp only [Set.mem_ofPred_eq]
  omega

/-! ### Outside a range -/

lemma World.SameOutside.reservedFlags (hout : w.SameOutside K w') (hq : (s, ptIndex q) ∉ K) :
    w'.reservedFlags s q = w.reservedFlags s q := by
  rcases Nat.lt_or_ge q memPages with hlt | hge
  · rw [ptIndex_of_lt hlt] at hq
    exact hout.reserved s q hq
  · rw [reservedFlags_of_ge _ _ hge, reservedFlags_of_ge _ _ hge]

lemma World.SameOutside.protOf (hout : w.SameOutside K w') (hq : (s, ptIndex q) ∉ K) :
    w'.protOf s q = w.protOf s q := by
  rw [World.protOf, hout.slot _ hq, hout.reservedFlags hq, World.protOf]

lemma World.SameOutside.byteAt (hout : w.SameOutside K w') {addr : ℕ}
    (hq : (s, ptIndex (page addr)) ∉ K) : w'.byteAt s addr = w.byteAt s addr := by
  rw [World.byteAt, hout.slot _ hq, hout.reservedFlags hq, World.byteAt]
  cases he : w.slot (s, ptIndex (page addr)) with
  | none => rfl
  | some e => exact hout.load _ e _ hq he

end ShellBox
