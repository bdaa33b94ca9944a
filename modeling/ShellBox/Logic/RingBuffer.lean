import Mathlib

/-!
# Rings of cells

A ring of `cap` cells holds a sequence that begins anywhere and goes on at cell 0 after the last
cell. A copy into or out of it is two copies of straight runs of cells.
-/

namespace ShellBox.RingBuffer

variable {α : Type*}

/-- `n` cells in a row. -/
def slice (buf : ℕ → α) (off n : ℕ) : List α := (List.range n).map fun i => buf (off + i)

/-- Values are put into cells in a row. -/
def putAt (buf : ℕ → α) (off : ℕ) (data : List α) : ℕ → α := fun i =>
  if off ≤ i then data.getD (i - off) (buf i) else buf i

/-- The `n` values from `start` on, around the ring. -/
def window (buf : ℕ → α) (cap start n : ℕ) : List α :=
  (List.range n).map fun i => buf ((start + i) % cap)

variable {buf : ℕ → α} {cap start n : ℕ} {data : List α}

@[simp] lemma length_slice (buf : ℕ → α) (off n : ℕ) : (slice buf off n).length = n := by
  simp [slice]

@[simp] lemma length_window (buf : ℕ → α) (cap start n : ℕ) :
    (window buf cap start n).length = n := by
  simp [window]

@[simp] lemma window_zero (buf : ℕ → α) (cap start : ℕ) : window buf cap start 0 = [] := rfl

lemma putAt_of_lt {off i : ℕ} (hi : i < data.length) : putAt buf off data (off + i) = data[i] := by
  simp [putAt, hi]

lemma putAt_of_notMem {off i : ℕ} (hi : i < off ∨ off + data.length ≤ i) :
    putAt buf off data i = buf i := by
  unfold putAt
  split_ifs with hle
  · exact List.getD_eq_default _ _ (by omega)
  · rfl

lemma window_mod (buf : ℕ → α) (cap start n : ℕ) :
    window buf cap (start % cap) n = window buf cap start n := by
  simp [window]

/-- A window in two parts. -/
lemma window_add (buf : ℕ → α) (cap start m n : ℕ) :
    window buf cap start (m + n) = window buf cap start m ++ window buf cap (start + m) n := by
  simp [window, List.range_add, add_assoc]

lemma take_window (buf : ℕ → α) (cap start : ℕ) {m n : ℕ} (hm : m ≤ n) :
    (window buf cap start n).take m = window buf cap start m := by
  obtain ⟨k, rfl⟩ := Nat.exists_eq_add_of_le hm
  rw [window_add, List.take_left' (length_window _ _ _ _)]

lemma drop_window (buf : ℕ → α) (cap start : ℕ) {m n : ℕ} (hm : m ≤ n) :
    (window buf cap start n).drop m = window buf cap (start + m) (n - m) := by
  obtain ⟨k, rfl⟩ := Nat.exists_eq_add_of_le hm
  rw [window_add, List.drop_left' (length_window _ _ _ _), Nat.add_sub_cancel_left]

/-- What is read out in two runs is a window. -/
lemma slice_append_slice (hstart : start < cap) (hn : n ≤ cap) :
    slice buf start (min (cap - start) n) ++ slice buf 0 (n - min (cap - start) n) =
      window buf cap start n := by
  have hsplit : n = min (cap - start) n + (n - min (cap - start) n) := by omega
  conv_rhs => rw [hsplit, window_add]
  congr 1
  · refine List.map_congr_left fun i hi => ?_
    rw [List.mem_range] at hi
    rw [Nat.mod_eq_of_lt (by omega)]
  · refine List.map_congr_left fun i hi => ?_
    rw [List.mem_range] at hi
    have hturn : start + min (cap - start) n + i = cap + (0 + i) := by omega
    rw [hturn, Nat.add_mod_left, Nat.mod_eq_of_lt (by omega)]

/-- Values are put in around the ring. -/
def putAround (buf : ℕ → α) (cap off : ℕ) (data : List α) : ℕ → α :=
  let first := min (cap - off) data.length
  putAt (putAt buf off (data.take first)) 0 (data.drop first)

lemma putAround_of_lt (buf : ℕ → α) {off i : ℕ} (hoff : off < cap) (hdata : data.length ≤ cap)
    (hi : i < data.length) : putAround buf cap off data ((off + i) % cap) = data[i] := by
  unfold putAround
  by_cases hfirst : off + i < cap
  · rw [Nat.mod_eq_of_lt hfirst, putAt_of_notMem, putAt_of_lt, List.getElem_take]
    · rw [List.length_take]
      omega
    · rw [List.length_drop]
      omega
  · have hturn : (off + i) % cap = 0 + (off + i - cap) := by
      rw [Nat.mod_eq_sub_mod (by omega), Nat.mod_eq_of_lt (by omega), zero_add]
    have hmin : min (cap - off) data.length = cap - off := by omega
    rw [hturn, hmin, putAt_of_lt, List.getElem_drop]
    · congr 1
      omega
    · rw [List.length_drop]
      omega

lemma putAround_of_le {off i : ℕ} (hoff : off < cap) (hi : data.length ≤ i) (hcap : i < cap) :
    putAround buf cap off data ((off + i) % cap) = buf ((off + i) % cap) := by
  unfold putAround
  by_cases hfirst : off + i < cap
  · rw [Nat.mod_eq_of_lt hfirst, putAt_of_notMem, putAt_of_notMem]
    · rw [List.length_take]
      omega
    · rw [List.length_drop]
      omega
  · have hturn : (off + i) % cap = off + i - cap := by
      rw [Nat.mod_eq_sub_mod (by omega), Nat.mod_eq_of_lt (by omega)]
    rw [hturn, putAt_of_notMem, putAt_of_notMem]
    · omega
    · rw [List.length_drop]
      omega

/-- What is put in behind a window makes it longer. -/
lemma window_putAround (hcap : 0 < cap) (hfit : n + data.length ≤ cap) :
    window (putAround buf cap ((start + n) % cap) data) cap start (n + data.length) =
      window buf cap start n ++ data := by
  have htail : (start + n) % cap < cap := Nat.mod_lt _ hcap
  rw [window_add]
  congr 1
  · refine List.map_congr_left fun i hi => ?_
    rw [List.mem_range] at hi
    -- around the ring the cell comes after all that were written
    have hturn : (start + i) % cap = ((start + n) % cap + (cap - n + i)) % cap := by
      rw [Nat.mod_add_mod]
      have hsum : start + n + (cap - n + i) = start + i + cap := by omega
      rw [hsum, Nat.add_mod_right]
    rw [hturn]
    exact putAround_of_le htail (by omega) (by omega)
  · refine List.ext_getElem (by simp) fun i hi hi' => ?_
    have hput := putAround_of_lt buf htail (by omega) hi'
    rw [Nat.mod_add_mod] at hput
    simp only [window, List.getElem_map, List.getElem_range]
    exact hput

end ShellBox.RingBuffer
