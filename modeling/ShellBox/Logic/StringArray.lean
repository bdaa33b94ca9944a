import ShellBox.Logic.LittleEndian
import ShellBox.Logic.PackedStrings

/-!
# Strings in memory

Strings lie one behind the other from an address on, and an array of words below them has their
addresses. What is written elsewhere leaves both as they are.
-/

namespace ShellBox

variable {m m' : ℕ → UInt8} {a p : ℕ} {bytes s : List UInt8} {ss : List (List UInt8)}

def writeBytes (m : ℕ → UInt8) (a : ℕ) (bytes : List UInt8) : ℕ → UInt8 :=
  fun i => if a ≤ i then bytes.getD (i - a) (m i) else m i

/-- The bytes from an address on. -/
def MemBytes (m : ℕ → UInt8) : ℕ → List UInt8 → Prop
  | _, [] => True
  | a, b :: bytes => m a = b ∧ MemBytes m (a + 1) bytes

/-- The memory is the same on a range. -/
def SameOn (m m' : ℕ → UInt8) (a b : ℕ) : Prop := ∀ i, a ≤ i → i < b → m' i = m i

lemma SameOn.trans {m'' : ℕ → UInt8} {b : ℕ} (h : SameOn m m' a b) (h' : SameOn m' m'' a b) :
    SameOn m m'' a b := fun i hi hi' => (h' i hi hi').trans (h i hi hi')

lemma SameOn.mono {b a' b' : ℕ} (h : SameOn m m' a b) (ha : a ≤ a') (hb : b' ≤ b) :
    SameOn m m' a' b' := fun i hi hi' => h i (ha.trans hi) (hi'.trans_le hb)

lemma sameOn_writeBytes {b c : ℕ} (h : c ≤ a ∨ a + bytes.length ≤ b) :
    SameOn m (writeBytes m a bytes) b c := by
  intro i hi hi'
  unfold writeBytes
  split_ifs with ha
  · have hout : bytes.length ≤ i - a := by omega
    rw [List.getD_eq_getElem?_getD, List.getElem?_eq_none hout, Option.getD_none]
  · rfl

lemma sameOn_storeLE {n v b c : ℕ} (h : c ≤ a ∨ a + n ≤ b) : SameOn m (storeLE m a n v) b c := by
  intro i hi hi'
  exact storeLE_of_notMem (by omega)

lemma MemBytes.congr (h : MemBytes m a bytes) (hsame : SameOn m m' a (a + bytes.length)) :
    MemBytes m' a bytes := by
  induction bytes generalizing a with
  | nil => trivial
  | cons b bytes ih =>
    rw [List.length_cons] at hsame
    exact ⟨(hsame a le_rfl (by omega)).trans h.1, ih h.2 (hsame.mono (by omega) (by omega))⟩

lemma memBytes_append {bytes' : List UInt8} :
    MemBytes m a (bytes ++ bytes') ↔ MemBytes m a bytes ∧ MemBytes m (a + bytes.length) bytes' := by
  induction bytes generalizing a with
  | nil => simp [MemBytes]
  | cons b bytes ih =>
    rw [List.cons_append, MemBytes, MemBytes, ih, List.length_cons, and_assoc,
      Nat.add_assoc, Nat.add_comm 1]

lemma memBytes_of_getElem (h : ∀ i (hi : i < bytes.length), m (a + i) = bytes[i]) :
    MemBytes m a bytes := by
  induction bytes generalizing a with
  | nil => trivial
  | cons b bytes ih =>
    refine ⟨h 0 (Nat.succ_pos _), ih fun i hi => ?_⟩
    have hnext := h (i + 1) (Nat.succ_lt_succ hi)
    rwa [List.getElem_cons_succ, ← Nat.add_assoc, Nat.add_right_comm] at hnext

lemma memBytes_writeBytes (m : ℕ → UInt8) (a : ℕ) (bytes : List UInt8) :
    MemBytes (writeBytes m a bytes) a bytes := by
  refine memBytes_of_getElem fun i hi => ?_
  rw [writeBytes, if_pos (Nat.le_add_right a i), Nat.add_sub_cancel_left,
    List.getD_eq_getElem?_getD, List.getElem?_eq_getElem hi, Option.getD_some]

/-- A string with its terminator. -/
def MemString (m : ℕ → UInt8) (a : ℕ) (s : List UInt8) : Prop := MemBytes m a (s ++ [0])

/-- The length of a string that ends within so many bytes. -/
def memStrlen (m : ℕ → UInt8) : ℕ → ℕ → Option ℕ
  | 0, _ => none
  | fuel + 1, a => if m a = 0 then some 0 else (memStrlen m fuel (a + 1)).map (· + 1)

lemma memStrlen_eq {fuel : ℕ} (h : MemString m a s) (hs : (0 : UInt8) ∉ s)
    (hfuel : s.length < fuel) : memStrlen m fuel a = some s.length := by
  induction s generalizing a fuel with
  | nil =>
    obtain ⟨fuel, rfl⟩ := Nat.exists_eq_succ_of_ne_zero (Nat.ne_of_gt hfuel)
    rw [memStrlen, if_pos h.1]
    rfl
  | cons c s ih =>
    obtain ⟨fuel, rfl⟩ := Nat.exists_eq_succ_of_ne_zero (Nat.ne_of_gt (Nat.zero_lt_of_lt hfuel))
    rw [List.mem_cons, not_or] at hs
    obtain ⟨hc, hrest⟩ := h
    rw [memStrlen, hc, if_neg (Ne.symm hs.1), ih hrest hs.2 (Nat.lt_of_succ_lt_succ hfuel)]
    rfl

/-- An array of words with the addresses of strings that lie one behind the other. -/
def Pointers (m : ℕ → UInt8) : ℕ → ℕ → List (List UInt8) → Prop
  | _, _, [] => True
  | p, a, s :: ss => loadLE m p 8 = a ∧ MemString m a s ∧ Pointers m (p + 8) (a + s.length + 1) ss

/-- Where the strings are. -/
def stringAreas : ℕ → List (List UInt8) → List (ℕ × ℕ)
  | _, [] => []
  | a, s :: ss => (a, a + s.length + 1) :: stringAreas (a + s.length + 1) ss

lemma loadLE_sameOn {n : ℕ} (h : SameOn m m' p (p + n)) : loadLE m' p n = loadLE m p n :=
  loadLE_congr fun i hi => h (p + i) (by omega) (by omega)

/-- A change elsewhere. -/
lemma Pointers.congr (h : Pointers m p a ss) (hwords : SameOn m m' p (p + 8 * ss.length))
    (hbytes : SameOn m m' a (a + (pack 0 ss).length)) : Pointers m' p a ss := by
  induction ss generalizing p a with
  | nil => trivial
  | cons s ss ih =>
    obtain ⟨hload, hstring, hrest⟩ := h
    rw [List.length_cons] at hwords
    rw [length_pack_cons] at hbytes
    refine ⟨?_, ?_, ih hrest ?_ ?_⟩
    · rw [loadLE_sameOn (hwords.mono le_rfl (by omega)), hload]
    · exact hstring.congr (hbytes.mono le_rfl (by
        rw [List.length_append, List.length_singleton]
        omega))
    · exact hwords.mono (by omega) (by omega)
    · exact hbytes.mono (by omega) (by omega)

/-- The pointers are at least the first. -/
lemma Pointers.le {i : ℕ} (h : Pointers m p a ss) (hi : i < ss.length) :
    a ≤ loadLE m (p + 8 * i) 8 := by
  induction ss generalizing p a i with
  | nil => exact absurd hi (Nat.not_lt_zero i)
  | cons s ss ih =>
    obtain ⟨hload, -, hrest⟩ := h
    cases i with
    | zero => exact hload.ge
    | succ i =>
      have hle := ih hrest (Nat.lt_of_succ_lt_succ hi)
      rw [show p + 8 * (i + 1) = p + 8 + 8 * i by omega]
      omega

/-- Strings are apart, and within their bytes. -/
lemma stringAreas_bounds : ∀ r ∈ stringAreas a ss, a ≤ r.1 ∧ r.2 ≤ a + (pack 0 ss).length := by
  induction ss generalizing a with
  | nil => exact fun r hr => absurd hr List.not_mem_nil
  | cons s ss ih =>
    intro r hr
    rw [length_pack_cons]
    rcases List.mem_cons.mp hr with rfl | hr
    · constructor <;> dsimp only <;> omega
    · have hbounds := ih r hr
      omega

lemma stringAreas_pairwise : (stringAreas a ss).Pairwise fun r r' => r.2 ≤ r'.1 := by
  induction ss generalizing a with
  | nil => exact List.Pairwise.nil
  | cons s ss ih => exact List.Pairwise.cons (fun r hr => (stringAreas_bounds r hr).1) ih

/-- Write the addresses of strings, one behind the other, by going from string to string; the
strings end within so many bytes. -/
def putPointers (fuel : ℕ) : ℕ → ℕ → ℕ → (ℕ → UInt8) → Option (ℕ → UInt8)
  | 0, _, _, m => some m
  | n + 1, p, a, m =>
    (memStrlen (storeLE m p 8 a) fuel a).bind fun k =>
      putPointers fuel n (p + 8) (a + k + 1) (storeLE m p 8 a)

/-- The array is written below the strings. -/
lemma putPointers_spec (fuel p : ℕ) (hss : ∀ s ∈ ss, (0 : UInt8) ∉ s)
    (hbytes : MemBytes m a (pack 0 ss)) (hbelow : p + 8 * ss.length ≤ a)
    (hfuel : (pack 0 ss).length ≤ fuel) (haddr : a + (pack 0 ss).length ≤ 256 ^ 8) :
    ∃ m', putPointers fuel ss.length p a m = some m' ∧ Pointers m' p a ss ∧
      ∀ b c, c ≤ p ∨ p + 8 * ss.length ≤ b → SameOn m m' b c := by
  induction ss generalizing p a m with
  | nil => exact ⟨m, rfl, trivial, fun b c _ i _ _ => rfl⟩
  | cons s ss ih =>
    rw [List.length_cons] at hbelow
    rw [length_pack_cons] at hfuel haddr
    have hafter : ∀ b, a ≤ b → ∀ c, SameOn m (storeLE m p 8 a) b c := fun b hb c =>
      sameOn_storeLE (Or.inr (by omega))
    have hsplit : pack 0 (s :: ss) = (s ++ [0]) ++ pack 0 ss := by simp
    rw [hsplit, memBytes_append, List.length_append, List.length_singleton] at hbytes
    have hstring : MemString (storeLE m p 8 a) a s := hbytes.1.congr (hafter a le_rfl _)
    have hrest := hbytes.2.congr (hafter (a + (s.length + 1)) (by omega) _)
    obtain ⟨m', hput, hpointers, hsame⟩ := ih (p + 8) (a := a + s.length + 1)
      (m := storeLE m p 8 a) (fun s' hs' => hss s' (List.mem_cons_of_mem s hs')) hrest (by omega)
      (by omega) (by omega)
    refine ⟨m', ?_, ⟨?_, ?_, hpointers⟩, fun b c hout => ?_⟩
    · rw [List.length_cons, putPointers,
        memStrlen_eq hstring (hss s List.mem_cons_self) (by omega), Option.bind_some, hput]
    · rw [loadLE_sameOn (hsame p (p + 8) (Or.inl le_rfl)), loadLE_storeLE,
        Nat.mod_eq_of_lt (by omega)]
    · exact hstring.congr (hsame a _ (Or.inr (by omega)))
    · rw [List.length_cons] at hout
      exact (sameOn_storeLE (by omega)).trans (hsame b c (by omega))

end ShellBox
