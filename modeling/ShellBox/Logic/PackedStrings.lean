import Mathlib.Data.List.TakeWhile
import Mathlib.Tactic.Common

/-!
# Strings packed into a buffer

Strings that end with a terminator lie one behind the other in a buffer. They are found either by
counting them, or by going on to the first that is empty; the second way does not see the strings
behind an empty one.
-/

namespace ShellBox

variable {α : Type*}

/-- The strings one behind the other, each with its terminator. -/
def pack (z : α) (ss : List (List α)) : List α := ss.flatMap fun s => s ++ [z]

/-- Write into a buffer. -/
def overwrite (buf : List α) (off : ℕ) (bytes : List α) : List α :=
  buf.take off ++ bytes ++ buf.drop (off + bytes.length)

/-- Where the last string with a property begins. -/
def findLast (p : List α → Bool) : ℕ → List (List α) → Option ℕ
  | _, [] => none
  | off, s :: ss => (findLast p (off + s.length + 1) ss).or (if p s then some off else none)

section

variable {z : α} {s : List α} {ss tt : List (List α)}

@[simp] lemma pack_nil : pack z [] = [] := rfl

@[simp] lemma pack_cons : pack z (s :: ss) = s ++ z :: pack z ss := by
  simp [pack, List.flatMap_cons]

@[simp] lemma pack_append : pack z (ss ++ tt) = pack z ss ++ pack z tt := by
  simp [pack, List.flatMap_append]

lemma length_pack_cons : (pack z (s :: ss)).length = s.length + 1 + (pack z ss).length := by
  rw [pack_cons, List.length_append, List.length_cons]
  omega

/-- Strings are not longer than what holds them. -/
lemma length_le_length_pack (z : α) (ss : List (List α)) : ss.length ≤ (pack z ss).length := by
  induction ss with
  | nil => exact Nat.le_refl 0
  | cons s ss ih =>
    rw [length_pack_cons, List.length_cons]
    omega

lemma overwrite_append (a b bytes : List α) :
    overwrite (a ++ b) a.length bytes = a ++ (bytes ++ b.drop bytes.length) := by
  rw [overwrite, List.take_left, List.drop_append, List.drop_eq_nil_of_le (by omega),
    List.nil_append, Nat.add_sub_cancel_left, List.append_assoc]

lemma length_overwrite {buf bytes : List α} {off : ℕ} (h : off + bytes.length ≤ buf.length) :
    (overwrite buf off bytes).length = buf.length := by
  rw [overwrite, List.length_append, List.length_append, List.length_take, List.length_drop]
  omega

lemma findLast_eq_none {p : List α → Bool} {off : ℕ} (h : ∀ s ∈ ss, ¬ p s) :
    findLast p off ss = none := by
  induction ss generalizing off with
  | nil => rfl
  | cons s ss ih =>
    rw [findLast, ih fun s' hs' => h s' (List.mem_cons_of_mem s hs'),
      if_neg (h s List.mem_cons_self)]
    rfl

lemma findLast_ne_none {p : List α → Bool} {off : ℕ} (hs : s ∈ ss) (hp : p s) :
    findLast p off ss ≠ none := by
  induction ss generalizing off with
  | nil => cases hs
  | cons t ss ih =>
    rw [findLast]
    rcases List.mem_cons.mp hs with rfl | hs
    · simp [hp]
    · simp [ih hs]

/-- The last one with the property. -/
lemma findLast_append {p : List α → Bool} {off : ℕ} (hs : p s) (h : ∀ t ∈ tt, ¬ p t) :
    findLast p off (ss ++ s :: tt) = some (off + (pack z ss).length) := by
  induction ss generalizing off with
  | nil =>
    rw [List.nil_append, findLast, findLast_eq_none h, if_pos hs]
    rfl
  | cons t ss ih =>
    rw [List.cons_append, findLast, ih, length_pack_cons, Option.some_or]
    congr 1
    omega

end

variable [DecidableEq α]

/-- The length of the string at the beginning of a buffer. -/
def strlen (z : α) : List α → Option ℕ
  | [] => none
  | c :: l => if c = z then some 0 else (strlen z l).map (· + 1)

/-- The strings before the first empty one, behind what has been read of the first of them. -/
def scanFrom (z : α) : List α → List α → Option (List (List α))
  | _, [] => none
  | s, c :: l =>
    if c = z then if s = [] then some [] else (scanFrom z [] l).map (s :: ·)
    else scanFrom z (s ++ [c]) l

/-- The strings that are seen on the way to the first empty one. -/
def scan (z : α) (buf : List α) : Option (List (List α)) := scanFrom z [] buf

/-- The number of bytes that so many strings take up, with a terminator behind them. -/
def countedSize (z : α) : ℕ → List α → Option ℕ
  | 0, l => if l.head? = some z then some 1 else none
  | n + 1, l => (strlen z l).bind fun k =>
    (countedSize z n (l.drop (k + 1))).map (· + (k + 1))

variable {z : α} {s : List α} {ss tt : List (List α)} {rest : List α}

lemma strlen_append (hs : z ∉ s) : strlen z (s ++ z :: rest) = some s.length := by
  induction s with
  | nil => simp [strlen]
  | cons c s ih =>
    rw [List.mem_cons, not_or] at hs
    rw [List.cons_append, strlen, if_neg (Ne.symm hs.1), ih hs.2]
    rfl

lemma scanFrom_append {t : List α} (hs : z ∉ s) :
    scanFrom z t (s ++ z :: rest) =
      if t ++ s = [] then some [] else (scanFrom z [] rest).map ((t ++ s) :: ·) := by
  induction s generalizing t with
  | nil => simp [scanFrom]
  | cons c s ih =>
    rw [List.mem_cons, not_or] at hs
    rw [List.cons_append, scanFrom, if_neg (Ne.symm hs.1), ih hs.2, List.append_assoc,
      List.singleton_append]

/-- Of any strings, those before the first empty one are seen. -/
lemma scan_pack (hss : ∀ s ∈ ss, z ∉ s) :
    scan z (pack z ss ++ z :: rest) = some (ss.takeWhile (· ≠ [])) := by
  induction ss with
  | nil => simp [scan, scanFrom]
  | cons s ss ih =>
    have hs := hss s List.mem_cons_self
    have hrest := ih fun s' hs' => hss s' (List.mem_cons_of_mem s hs')
    rw [scan] at hrest ⊢
    rw [pack_cons, List.append_assoc, List.cons_append, scanFrom_append hs, List.nil_append, hrest]
    by_cases hempty : s = []
    · simp [hempty]
    · simp [hempty]

lemma scan_pack_of_ne_nil (hss : ∀ s ∈ ss, z ∉ s) (hne : ∀ s ∈ ss, s ≠ []) :
    scan z (pack z ss ++ z :: rest) = some ss := by
  rw [scan_pack hss, List.takeWhile_eq_self_iff.mpr]
  intro s hs
  simpa using hne s hs

/-- Counted strings are all found. -/
lemma countedSize_pack (hss : ∀ s ∈ ss, z ∉ s) :
    countedSize z ss.length (pack z ss ++ z :: rest) = some ((pack z ss).length + 1) := by
  induction ss with
  | nil => simp [countedSize]
  | cons s ss ih =>
    have hs := hss s List.mem_cons_self
    have hrest := ih fun s' hs' => hss s' (List.mem_cons_of_mem s hs')
    have hdrop : (s ++ z :: (pack z ss ++ z :: rest)).drop (s.length + 1) =
        pack z ss ++ z :: rest := by
      rw [List.drop_append, List.drop_eq_nil_of_le (by omega), List.nil_append,
        Nat.add_sub_cancel_left, List.drop_one, List.tail_cons]
    rw [List.length_cons, pack_cons, List.append_assoc, List.cons_append, countedSize,
      strlen_append hs, Option.bind_some, hdrop, hrest, Option.map_some, List.length_append,
      List.length_cons]
    congr 1
    omega

end ShellBox
