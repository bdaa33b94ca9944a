import Mathlib

/-!
# Items on linked lists

A family of lists whose items know the list they are on. An item is put on a list at its head or
behind another item, which names no list, and is taken off without naming one either.
-/

namespace ShellBox

open Function

variable {κ ι : Type*} [DecidableEq κ] [DecidableEq ι]

/-- Put `new` behind the first `old`. -/
def insertBehind (old new : ι) : List ι → List ι
  | [] => []
  | x :: l => if x = old then x :: new :: l else x :: insertBehind old new l

lemma insertBehind_of_notMem {old new : ι} {l : List ι} (h : old ∉ l) :
    insertBehind old new l = l := by
  induction l with
  | nil => rfl
  | cons x l ih =>
    rw [List.mem_cons, not_or] at h
    rw [insertBehind, if_neg (Ne.symm h.1), ih h.2]

lemma perm_insertBehind {old new : ι} {l : List ι} (h : old ∈ l) :
    (insertBehind old new l).Perm (new :: l) := by
  induction l with
  | nil => simp at h
  | cons x l ih =>
    unfold insertBehind
    split_ifs with hx
    · exact List.Perm.swap new x l
    · have hmem : old ∈ l := (List.mem_cons.1 h).resolve_left (Ne.symm hx)
      exact ((ih hmem).cons x).trans (List.Perm.swap new x l)

/-- Each item is once on the list it belongs to, and on no other. -/
def Buckets (lists : κ → List ι) (key : ι → Option κ) : Prop :=
  ∀ i k, (lists k).count i = if key i = some k then 1 else 0

namespace Buckets

variable {lists : κ → List ι} {key : ι → Option κ}

lemma mem_iff (h : Buckets lists key) {i : ι} {k : κ} : i ∈ lists k ↔ key i = some k := by
  rw [← List.count_pos_iff, h i k]
  split_ifs with hk <;> simp [hk]

lemma nodup (h : Buckets lists key) (k : κ) : (lists k).Nodup := by
  rw [List.nodup_iff_count_le_one]
  intro i
  rw [h i k]
  split_ifs <;> simp

lemma empty : Buckets (fun _ : κ => ([] : List ι)) fun _ => none := fun _ _ => rfl

/-- The lists may be written in any order. -/
lemma perm (h : Buckets lists key) {lists' : κ → List ι} (hp : ∀ k, (lists' k).Perm (lists k)) :
    Buckets lists' key := by
  intro i k
  rw [(hp k).count_eq]
  exact h i k

/-- An item that is on no list is put at the head of one. -/
lemma push (h : Buckets lists key) {i : ι} (hi : key i = none) (k : κ) :
    Buckets (update lists k (i :: lists k)) (update key i (some k)) := by
  intro j q
  by_cases hq : q = k
  · rw [hq, update_self, List.count_cons, h j k]
    by_cases hj : j = i
    · simp [hj, hi]
    · simp [update_of_ne hj, Ne.symm hj]
  · rw [update_of_ne hq, h j q]
    by_cases hj : j = i
    · simp [hj, hi, Ne.symm hq]
    · rw [update_of_ne hj]

/-- An item that is on no list is put behind one that is. -/
lemma insertBehind (h : Buckets lists key) {old new : ι} {k : κ} (hold : key old = some k)
    (hnew : key new = none) :
    Buckets (fun q => ShellBox.insertBehind old new (lists q)) (update key new (some k)) := by
  refine (h.push hnew k).perm fun q => ?_
  by_cases hq : q = k
  · rw [hq, update_self]
    exact perm_insertBehind (h.mem_iff.2 hold)
  · rw [update_of_ne hq, insertBehind_of_notMem]
    rw [h.mem_iff, hold]
    exact fun heq => hq (Option.some.inj heq).symm

/-- Take an item off its list. -/
lemma remove (h : Buckets lists key) (i : ι) :
    Buckets (fun q => (lists q).erase i) (update key i none) := by
  intro j q
  by_cases hj : j = i
  · rw [hj, List.count_erase_self, h i q, update_self]
    split_ifs <;> simp_all
  · rw [List.count_erase_of_ne hj, h j q, update_of_ne hj]

/-- An item goes to another list. -/
lemma relink (h : Buckets lists key) (i : ι) (k : κ) :
    Buckets (update (fun q => (lists q).erase i) k (i :: (lists k).erase i))
      (update key i (some k)) := by
  have hpush := (h.remove i).push (update_self i none key) k
  rwa [update_idem] at hpush

/-- Every item that is on a list leaves it. -/
lemma clear (h : Buckets lists key) (k : κ) :
    Buckets (update lists k []) (fun i => if key i = some k then none else key i) := by
  intro i q
  by_cases hq : q = k
  · rw [hq, update_self]
    by_cases hi : key i = some k <;> simp [hi]
  · rw [update_of_ne hq, h i q]
    by_cases hi : key i = some k <;> simp [hi, Ne.symm hq]

lemma nodup_flatMap {lists : ℕ → List ι} {key : ι → Option ℕ} (h : Buckets lists key) (n : ℕ) :
    ((List.range n).flatMap lists).Nodup := by
  rw [List.nodup_flatMap]
  refine ⟨fun k _ => h.nodup k, (List.nodup_range).imp fun {a b} hab => ?_⟩
  intro i ha hb
  rw [h.mem_iff] at ha hb
  exact hab (Option.some.inj (ha.symm.trans hb))

end Buckets

/-- Put an item at the head of the list of its key. -/
def addTo (key : ι → κ) (lists : κ → List ι) (i : ι) : κ → List ι :=
  update lists (key i) (i :: lists (key i))

/-- New lists for the items of `l`, which are put on them one after another. -/
def regroup (key : ι → κ) (l : List ι) : κ → List ι := l.foldl (addTo key) fun _ => []

lemma count_foldl_addTo (key : ι → κ) (l : List ι) (lists : κ → List ι) (i : ι) (k : κ) :
    (l.foldl (addTo key) lists k).count i =
      (lists k).count i + if key i = k then l.count i else 0 := by
  induction l generalizing lists with
  | nil => simp
  | cons x l ih =>
    rw [List.foldl_cons, ih, addTo]
    by_cases hx : x = i
    · subst hx
      by_cases hk : key x = k
      · subst hk
        simp only [update_self, List.count_cons_self, if_true]
        omega
      · simp [hk, update_of_ne (Ne.symm hk)]
    · by_cases hk : key x = k
      · subst hk
        simp [hx]
      · simp [hx, update_of_ne (Ne.symm hk)]

lemma buckets_regroup {key : ι → Option κ} {l : List ι} (hl : l.Nodup)
    (hmem : ∀ i, i ∈ l ↔ (key i).isSome) {f : ι → κ}
    (hf : ∀ i, (key i).isSome → key i = some (f i)) : Buckets (regroup f l) key := by
  intro i k
  rw [regroup, count_foldl_addTo, hl.count]
  by_cases hi : (key i).isSome
  · simp [hmem, hf i hi]
  · have hnone : key i = none := by simpa using hi
    simp [hmem, hnone]

end ShellBox
