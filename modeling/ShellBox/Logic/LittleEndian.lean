import Mathlib

/-!
# Little-endian words in a byte memory

A memory is a function from addresses to bytes. A word of `n` bytes is loaded from and stored
to it with its least significant byte at the lowest address. A compare-and-swap of a word is one
step that stores only when the memory holds the expected word.
-/

namespace ShellBox

variable {m : ℕ → UInt8} {p n a b v : ℕ}

/-- The word of `n` bytes at `p`. -/
def loadLE (m : ℕ → UInt8) (p : ℕ) : ℕ → ℕ
  | 0 => 0
  | n + 1 => loadLE m p n + 256 ^ n * (m (p + n)).toNat

/-- Store the low `n` bytes of `v` at `p`. -/
def storeLE (m : ℕ → UInt8) (p n v : ℕ) : ℕ → UInt8 :=
  fun i => if p ≤ i ∧ i < p + n then UInt8.ofNat (v / 256 ^ (i - p)) else m i

lemma loadLE_lt (m : ℕ → UInt8) (p n : ℕ) : loadLE m p n < 256 ^ n := by
  induction n with
  | zero => simp [loadLE]
  | succ n ih =>
    have hbyte : (m (p + n)).toNat ≤ 255 := Nat.le_of_lt_succ (m (p + n)).toNat_lt
    calc loadLE m p n + 256 ^ n * (m (p + n)).toNat
        < 256 ^ n + 256 ^ n * 255 := Nat.add_lt_add_of_lt_of_le ih (Nat.mul_le_mul_left _ hbyte)
      _ = 256 ^ (n + 1) := by ring

lemma loadLE_congr {m' : ℕ → UInt8} (h : ∀ i, i < n → m (p + i) = m' (p + i)) :
    loadLE m p n = loadLE m' p n := by
  induction n with
  | zero => rfl
  | succ n ih =>
    rw [loadLE, loadLE, h n n.lt_succ_self, ih fun i hi => h i (Nat.lt_succ_of_lt hi)]

/-- A word is its low part and, above it, its high part. -/
lemma loadLE_add (m : ℕ → UInt8) (p a b : ℕ) :
    loadLE m p (a + b) = loadLE m p a + 256 ^ a * loadLE m (p + a) b := by
  induction b with
  | zero => simp [loadLE]
  | succ b ih =>
    rw [← Nat.add_assoc, loadLE, loadLE, ih, Nat.pow_add, Nat.add_assoc p]
    ring

/-- A store leaves the bytes outside its word alone. -/
lemma storeLE_of_notMem {i : ℕ} (h : i < p ∨ p + n ≤ i) : storeLE m p n v i = m i := by
  refine if_neg fun hi => ?_
  rcases h with h | h
  · exact Nat.not_le_of_lt h hi.1
  · exact Nat.not_lt_of_le h hi.2

lemma loadLE_storeLE_of_le {k : ℕ} (hk : k ≤ n) :
    loadLE (storeLE m p n v) p k = v % 256 ^ k := by
  induction k with
  | zero => simp [loadLE, Nat.mod_one]
  | succ k ih =>
    have hbyte : storeLE m p n v (p + k) = UInt8.ofNat (v / 256 ^ k) := by
      rw [storeLE, if_pos ⟨Nat.le_add_right p k, Nat.add_lt_add_left hk p⟩, Nat.add_sub_cancel_left]
    rw [loadLE, ih (Nat.le_of_succ_le hk), hbyte, UInt8.toNat_ofNat']
    exact Nat.mod_mul.symm

/-- A load reads back what was stored, cut to its width. -/
@[simp] lemma loadLE_storeLE (m : ℕ → UInt8) (p n v : ℕ) :
    loadLE (storeLE m p n v) p n = v % 256 ^ n :=
  loadLE_storeLE_of_le le_rfl

/-- The bytes of a word. -/
lemma ofNat_loadLE_div (m : ℕ → UInt8) (p : ℕ) {k n : ℕ} (hk : k < n) :
    UInt8.ofNat (loadLE m p n / 256 ^ k) = m (p + k) := by
  obtain ⟨d, rfl⟩ := Nat.exists_eq_add_of_lt hk
  have hpos : 0 < 256 ^ k := by positivity
  have hdiv : loadLE m p (k + (1 + d)) / 256 ^ k = loadLE m (p + k) (1 + d) := by
    rw [loadLE_add, Nat.add_mul_div_left _ _ hpos, Nat.div_eq_of_lt (loadLE_lt m p k),
      Nat.zero_add]
  have hmod : loadLE m (p + k) (1 + d) % 2 ^ 8 = (m (p + k)).toNat := by
    have hone : loadLE m (p + k) 1 = (m (p + k)).toNat := by simp [loadLE]
    have hpow : 256 ^ 1 = 2 ^ 8 := by norm_num
    rw [loadLE_add, hone, hpow, Nat.add_mul_mod_self_left,
      Nat.mod_eq_of_lt (m (p + k)).toNat_lt]
  apply UInt8.toNat_inj.mp
  rw [Nat.add_assoc, Nat.add_comm d 1, hdiv, UInt8.toNat_ofNat', hmod]

/-- Storing what is there changes nothing. -/
lemma storeLE_loadLE (m : ℕ → UInt8) (p n : ℕ) : storeLE m p n (loadLE m p n) = m := by
  funext i
  by_cases hi : p ≤ i ∧ i < p + n
  · obtain ⟨k, rfl⟩ := Nat.exists_eq_add_of_le hi.1
    rw [storeLE, if_pos hi, Nat.add_sub_cancel_left,
      ofNat_loadLE_div m p (Nat.lt_of_add_lt_add_left hi.2)]
  · exact if_neg hi

/-- Two words side by side as one of twice the width. -/
def pairLE (n lo hi : ℕ) : ℕ := lo % 256 ^ n + 256 ^ n * (hi % 256 ^ n)

lemma pairLE_lt (n lo hi : ℕ) : pairLE n lo hi < 256 ^ (n + n) := by
  have hpos : 0 < 256 ^ n := by positivity
  have hlo : lo % 256 ^ n < 256 ^ n := Nat.mod_lt _ hpos
  have hhi : hi % 256 ^ n + 1 ≤ 256 ^ n := Nat.mod_lt _ hpos
  calc pairLE n lo hi < 256 ^ n + 256 ^ n * (hi % 256 ^ n) := Nat.add_lt_add_right hlo _
    _ = 256 ^ n * (hi % 256 ^ n + 1) := by ring
    _ ≤ 256 ^ n * 256 ^ n := Nat.mul_le_mul_left _ hhi
    _ = 256 ^ (n + n) := (Nat.pow_add _ _ _).symm

lemma pairLE_div (n lo hi : ℕ) : pairLE n lo hi / 256 ^ n = hi % 256 ^ n := by
  have hpos : 0 < 256 ^ n := by positivity
  rw [pairLE, Nat.add_mul_div_left _ _ hpos, Nat.div_eq_of_lt (Nat.mod_lt _ hpos), Nat.zero_add]

/-- The memory holds a pair as one wide word exactly when it holds both words. -/
lemma loadLE_eq_pairLE {lo hi : ℕ} :
    loadLE m p (n + n) = pairLE n lo hi ↔
      loadLE m p n = lo % 256 ^ n ∧ loadLE m (p + n) n = hi % 256 ^ n := by
  have hpos : 0 < 256 ^ n := by positivity
  have hlo : lo % 256 ^ n < 256 ^ n := Nat.mod_lt _ hpos
  have hlt := loadLE_lt m p n
  rw [loadLE_add, pairLE]
  constructor
  · intro h
    have hmod := congrArg (· % 256 ^ n) h
    have hdiv := congrArg (· / 256 ^ n) h
    simp only [Nat.add_mul_mod_self_left, Nat.mod_eq_of_lt hlt, Nat.mod_eq_of_lt hlo] at hmod
    simp only [Nat.add_mul_div_left _ _ hpos, Nat.div_eq_of_lt hlt, Nat.div_eq_of_lt hlo,
      Nat.zero_add] at hdiv
    exact ⟨hmod, hdiv⟩
  · rintro ⟨h₁, h₂⟩
    rw [h₁, h₂]

/-- Compare the word of `n` bytes at `p` with the low bytes of `exp` and store `des` there when
they agree, in one step. The flag says whether it stored. -/
def compareExchange (m : ℕ → UInt8) (p n exp des : ℕ) : (ℕ → UInt8) × Bool :=
  if loadLE m p n = exp % 256 ^ n then (storeLE m p n des, true) else (m, false)

lemma compareExchange_true {exp des : ℕ} (h : (compareExchange m p n exp des).2 = true) :
    loadLE m p n = exp % 256 ^ n ∧ (compareExchange m p n exp des).1 = storeLE m p n des := by
  rw [compareExchange] at h ⊢
  split_ifs at h ⊢ with heq
  exact ⟨heq, rfl⟩

/-- A compare-and-swap stores either way, once the word as it was. -/
lemma compareExchange_fst (m : ℕ → UInt8) (p n exp des : ℕ) :
    (compareExchange m p n exp des).1 =
      storeLE m p n (if loadLE m p n = exp % 256 ^ n then des else loadLE m p n) := by
  rw [compareExchange]
  split_ifs
  · rfl
  · exact (storeLE_loadLE m p n).symm

/-! ### Words as lists of bytes -/

/-- A word of `n` bytes in memory. -/
def bytesLE (n v : ℕ) : List UInt8 := (List.range n).map fun i => UInt8.ofNat (v / 256 ^ i)

/-- The word that the bytes are. -/
def wordLE : List UInt8 → ℕ
  | []         => 0
  | b :: bytes => b.toNat + 256 * wordLE bytes

@[simp] lemma length_bytesLE (n v : ℕ) : (bytesLE n v).length = n := by simp [bytesLE]

lemma bytesLE_succ (n v : ℕ) : bytesLE (n + 1) v = UInt8.ofNat v :: bytesLE n (v / 256) := by
  simp [bytesLE, List.range_succ_eq_map, Function.comp_def, Nat.div_div_eq_div_mul, pow_succ']

@[simp] lemma wordLE_bytesLE (n v : ℕ) : wordLE (bytesLE n v) = v % 256 ^ n := by
  induction n generalizing v with
  | zero => simp [bytesLE, wordLE, Nat.mod_one]
  | succ n ih =>
    have hbyte : (UInt8.ofNat v).toNat = v % 256 := UInt8.toNat_ofNat'
    rw [bytesLE_succ, wordLE, ih, hbyte, pow_succ', Nat.mod_mul]

end ShellBox
