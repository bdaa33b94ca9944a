import ShellBox.Logic.Slots

/-!
# Reference counting

Objects are owned by slots. Each live object carries a count, and an object whose last owner
goes is freed. The four transitions below are all that a client does; a store is *balanced*
if each count is the number of owners and no slot owns an object that is not live.

An object is *touched* once it has had an owner. For touched objects, being freed is the
same as having no owner left.
-/

namespace ShellBox

open Function

variable {κ δ : Type*}

structure RefStore (κ δ : Type*) where
  owner : κ → Option δ
  count : δ → Option ℕ
  freed : List δ

namespace RefStore

structure Balanced (s : RefStore κ δ) : Prop where
  finite : FiniteSlots s.owner
  count_eq : ∀ d n, s.count d = some n → n = slotCount s.owner (· = d)
  live : ∀ k d, s.owner k = some d → (s.count d).isSome
  nodup : s.freed.Nodup
  dead : ∀ d ∈ s.freed, s.count d = none

def Touched (s : RefStore κ δ) (d : δ) : Prop := (∃ k, s.owner k = some d) ∨ d ∈ s.freed

namespace Balanced

variable {s s' : RefStore κ δ} {k : κ} {d : δ}

/-- An owned object has a positive count. -/
lemma count_pos (h : Balanced s) (hk : s.owner k = some d) {n : ℕ} (hd : s.count d = some n) :
    0 < n := by
  rw [h.count_eq d n hd, Nat.pos_iff_ne_zero, Ne, slotCount_eq_zero h.finite]
  intro hall
  exact hall k d hk rfl

/-- An object that is not live has no owner. -/
lemma not_owner (h : Balanced s) (hd : s.count d = none) (k : κ) : s.owner k ≠ some d := by
  intro hk
  have hlive := h.live k d hk
  simp [hd] at hlive

/-- A touched object has been freed exactly if no slot owns it. -/
theorem freed_iff (h : Balanced s) {d : δ} (ht : Touched s d) :
    d ∈ s.freed ↔ ∀ k, s.owner k ≠ some d := by
  constructor
  · intro hd k hk
    have hlive := h.live k d hk
    simp [h.dead d hd] at hlive
  · intro hno
    rcases ht with ⟨k, hk⟩ | hfreed
    · exact absurd hk (hno k)
    · exact hfreed

end Balanced

variable [DecidableEq κ] [DecidableEq δ]

inductive Step (s : RefStore κ δ) : RefStore κ δ → Prop
  | alloc (d : δ) (hd : s.count d = none) (hf : d ∉ s.freed) :
      Step s { s with count := update s.count d (some 0) }
  | link (k : κ) (d : δ) (n : ℕ) (hk : s.owner k = none) (hd : s.count d = some n) :
      Step s { s with
        owner := update s.owner k (some d), count := update s.count d (some (n + 1)) }
  | unlink (k : κ) (d : δ) (n : ℕ) (hk : s.owner k = some d) (hd : s.count d = some n)
      (hn : n ≠ 1) :
      Step s { s with owner := update s.owner k none, count := update s.count d (some (n - 1)) }
  | release (k : κ) (d : δ) (hk : s.owner k = some d) (hd : s.count d = some 1) :
      Step s ⟨update s.owner k none, update s.count d none, d :: s.freed⟩

namespace Balanced

variable {s s' : RefStore κ δ} {k : κ} {d : δ}

/-- The owner that goes with the last count was the only one. -/
lemma owner_unique (h : Balanced s) (hk : s.owner k = some d) (hd : s.count d = some 1)
    {k' : κ} (hk' : s.owner k' = some d) : k' = k := by
  have hcount := slotCount_clear h.finite (P := (· = d)) hk
  rw [← h.count_eq d 1 hd, if_pos rfl] at hcount
  have hzero := (slotCount_eq_zero (h.finite.update k none) (P := (· = d))).mp (by omega)
  by_contra hne
  exact hzero k' d (by rw [update_of_ne hne, hk']) rfl

lemma step_link (h : Balanced s) {n : ℕ} (hk : s.owner k = none) (hd : s.count d = some n) :
    Balanced { s with
      owner := update s.owner k (some d), count := update s.count d (some (n + 1)) } where
  finite := h.finite.update k _
  count_eq d' n' h' := by
    simp only at h' ⊢
    rw [slotCount_fill h.finite hk d]
    by_cases hdd : d' = d
    · subst hdd
      rw [update_self, Option.some.injEq] at h'
      rw [if_pos rfl, ← h.count_eq d' n hd, h']
    · rw [update_of_ne hdd] at h'
      rw [if_neg (Ne.symm hdd), ← h.count_eq d' n' h', Nat.add_zero]
  live k' d' h' := by
    by_cases hdd : d' = d
    · simp [hdd]
    · simp only [update_of_ne hdd]
      refine h.live k' d' ?_
      dsimp only at h'
      by_cases hkk : k' = k
      · subst hkk
        rw [update_self, Option.some.injEq] at h'
        exact absurd h'.symm hdd
      · rwa [update_of_ne hkk] at h'
  nodup := h.nodup
  dead d' hd' := by
    have hdd : d' ≠ d := by
      rintro rfl
      simp [h.dead d' hd'] at hd
    simp only [update_of_ne hdd]
    exact h.dead d' hd'

/-- What the counts of the other objects are once the owner `k` of `d` is gone. -/
lemma count_clear (h : Balanced s) (hk : s.owner k = some d) {d' : δ} (hdd : d' ≠ d) {n : ℕ}
    (hd' : s.count d' = some n) : n = slotCount (update s.owner k none) (· = d') := by
  have hcount := slotCount_clear h.finite (P := (· = d')) hk
  rw [if_neg (Ne.symm hdd), Nat.add_zero] at hcount
  rw [hcount]
  exact h.count_eq d' n hd'

lemma step_unlink (h : Balanced s) {n : ℕ} (hk : s.owner k = some d) (hd : s.count d = some n) :
    Balanced { s with
      owner := update s.owner k none, count := update s.count d (some (n - 1)) } where
  finite := h.finite.update k _
  count_eq d' n' h' := by
    simp only at h' ⊢
    by_cases hdd : d' = d
    · subst hdd
      have hcount := slotCount_clear h.finite (P := (· = d')) hk
      rw [← h.count_eq d' n hd, if_pos rfl] at hcount
      rw [update_self, Option.some.injEq] at h'
      omega
    · rw [update_of_ne hdd] at h'
      exact h.count_clear hk hdd h'
  live k' d' h' := by
    by_cases hdd : d' = d
    · simp [hdd]
    · simp only [update_of_ne hdd]
      refine h.live k' d' ?_
      dsimp only at h'
      by_cases hkk : k' = k
      · simp [hkk] at h'
      · rwa [update_of_ne hkk] at h'
  nodup := h.nodup
  dead d' hd' := by
    have hdd : d' ≠ d := by
      rintro rfl
      simp [h.dead d' hd'] at hd
    simp only [update_of_ne hdd]
    exact h.dead d' hd'

lemma step_release (h : Balanced s) (hk : s.owner k = some d) (hd : s.count d = some 1) :
    Balanced ⟨update s.owner k none, update s.count d none, d :: s.freed⟩ where
  finite := h.finite.update k _
  count_eq d' n' h' := by
    by_cases hdd : d' = d
    · simp [hdd] at h'
    · simp only [update_of_ne hdd] at h'
      exact h.count_clear hk hdd h'
  live k' d' h' := by
    have hkk : k' ≠ k := by
      rintro rfl
      simp at h'
    simp only [update_of_ne hkk] at h'
    have hdd : d' ≠ d := by
      rintro rfl
      exact hkk (h.owner_unique hk hd h')
    simp only [update_of_ne hdd]
    exact h.live k' d' h'
  nodup := by
    refine List.nodup_cons.mpr ⟨fun hmem => ?_, h.nodup⟩
    simp [h.dead d hmem] at hd
  dead d' hd' := by
    by_cases hdd : d' = d
    · simp [hdd]
    · simp only [update_of_ne hdd]
      exact h.dead d' ((List.mem_cons.mp hd').resolve_left hdd)

/-- Every transition keeps the store balanced. -/
theorem step (h : Balanced s) (hs : Step s s') : Balanced s' := by
  cases hs with
  | alloc d hd hf =>
    refine ⟨h.finite, fun d' n h' => ?_, fun k d' hk => ?_, h.nodup, fun d' hd' => ?_⟩
    · dsimp only at h' ⊢
      by_cases hdd : d' = d
      · subst hdd
        rw [update_self, Option.some.injEq] at h'
        rw [← h', eq_comm, slotCount_eq_zero h.finite]
        exact fun k a hk ha => h.not_owner hd k (ha ▸ hk)
      · rw [update_of_ne hdd] at h'
        exact h.count_eq d' n h'
    · by_cases hdd : d' = d
      · simp [hdd]
      · simp only [update_of_ne hdd]
        exact h.live k d' hk
    · have hdd : d' ≠ d := fun heq => hf (heq ▸ hd')
      simp only [update_of_ne hdd]
      exact h.dead d' hd'
  | link k d n hk hd => exact h.step_link hk hd
  | unlink k d n hk hd hn => exact h.step_unlink hk hd
  | release k d hk hd => exact h.step_release hk hd

/-- An object that has had an owner still has one, or has been freed. -/
theorem touched_step (h : Balanced s) (hs : Step s s') {d : δ} (ht : Touched s d) :
    Touched s' d := by
  cases hs with
  | alloc d' hd hf => exact ht
  | link k d' n hk hd =>
    refine ht.imp_left fun ⟨k', hk'⟩ => ⟨k', ?_⟩
    have hkk : k' ≠ k := by
      rintro rfl
      simp [hk] at hk'
    simpa only [update_of_ne hkk] using hk'
  | unlink k d' n hk hd hn =>
    rcases ht with ⟨k', hk'⟩ | hfreed
    · by_cases hall : ∀ k'', k'' ≠ k → s.owner k'' ≠ some d'
      · -- the only owner of `d'` goes: its count was one after all
        have hcount : slotCount (update s.owner k none) (· = d') = 0 := by
          rw [slotCount_eq_zero (h.finite.update k none)]
          rintro k'' a ha rfl
          by_cases hkk : k'' = k
          · simp [hkk] at ha
          · exact hall k'' hkk (by rwa [update_of_ne hkk] at ha)
        have hclear := slotCount_clear h.finite (P := (· = d')) hk
        rw [hcount, if_pos rfl, ← h.count_eq d' n hd] at hclear
        exact absurd hclear.symm hn
      · push Not at hall
        obtain ⟨k'', hne, hk''⟩ := hall
        by_cases hkk : k' = k
        · subst hkk
          obtain rfl : d = d' := Option.some.inj (hk'.symm.trans hk)
          exact Or.inl ⟨k'', by simpa only [update_of_ne hne] using hk''⟩
        · exact Or.inl ⟨k', by simpa only [update_of_ne hkk] using hk'⟩
    · exact Or.inr hfreed
  | release k d' hk hd =>
    rcases ht with ⟨k', hk'⟩ | hfreed
    · by_cases hkk : k' = k
      · subst hkk
        obtain rfl : d = d' := Option.some.inj (hk'.symm.trans hk)
        exact Or.inr List.mem_cons_self
      · exact Or.inl ⟨k', by simpa only [update_of_ne hkk] using hk'⟩
    · exact Or.inr (List.mem_cons_of_mem _ hfreed)

end Balanced

/-- The count of an object without the reference of one owner, and what is freed with the last. -/
def drop (s : RefStore κ δ) (d : δ) : (δ → Option ℕ) × List δ :=
  match s.count d with
  | some 1 => (update s.count d none, d :: s.freed)
  | some n => (update s.count d (some (n - 1)), s.freed)
  | none => (s.count, s.freed)

omit [DecidableEq κ] in
lemma drop_of_ne_one {s : RefStore κ δ} {d : δ} {n : ℕ} (hd : s.count d = some n) (hn : n ≠ 1) :
    s.drop d = (update s.count d (some (n - 1)), s.freed) := by
  unfold drop
  rw [hd]
  split
  · rename_i heq
    exact absurd (Option.some.inj heq) hn
  · rename_i heq
    rw [Option.some.inj heq]
  · contradiction

/-- A balanced store in which every live object has an owner. -/
structure Sound (s : RefStore κ δ) : Prop extends Balanced s where
  pos : ∀ d, s.count d ≠ some 0

namespace Sound

variable {s : RefStore κ δ} {k k' : κ} {d : δ}

omit [DecidableEq κ] [DecidableEq δ] in
lemma empty : Sound (⟨fun _ => none, fun _ => none, []⟩ : RefStore κ δ) where
  finite := finiteSlots_empty
  count_eq d n h := by simp at h
  live k d h := by simp at h
  nodup := List.nodup_nil
  dead d h := by simp at h
  pos d := by simp

omit [DecidableEq κ] [DecidableEq δ] in
/-- An object that is or was there is freed exactly if nothing owns it. -/
theorem freed_iff (h : Sound s) (hd : (s.count d).isSome ∨ d ∈ s.freed) :
    d ∈ s.freed ↔ ∀ k, s.owner k ≠ some d := by
  refine h.toBalanced.freed_iff ?_
  rcases hd with hd | hd
  · obtain ⟨n, hn⟩ := Option.isSome_iff_exists.mp hd
    by_contra hno
    have hzero : slotCount s.owner (· = d) = 0 := by
      rw [slotCount_eq_zero h.finite]
      rintro k a hk rfl
      exact hno (Or.inl ⟨k, hk⟩)
    rw [← h.count_eq d n hn] at hzero
    exact h.pos d (hzero ▸ hn)
  · exact Or.inr hd

/-- One more owner of a live object. -/
theorem link (h : Sound s) (hk : s.owner k = none) {n : ℕ} (hd : s.count d = some n) :
    Sound ⟨update s.owner k (some d), update s.count d (some (n + 1)), s.freed⟩ where
  toBalanced := h.step_link hk hd
  pos d' := by
    by_cases hdd : d' = d
    · simp [hdd]
    · simpa only [update_of_ne hdd] using h.pos d'

/-- A new object comes with its first owner. -/
theorem make (h : Sound s) (hk : s.owner k = none) (hd : s.count d = none) (hf : d ∉ s.freed) :
    Sound ⟨update s.owner k (some d), update s.count d (some 1), s.freed⟩ where
  toBalanced := by
    have halloc := h.toBalanced.step (Step.alloc d hd hf)
    simpa using halloc.step_link (k := k) (d := d) (n := 0) hk (by simp)
  pos d' := by
    by_cases hdd : d' = d
    · simp [hdd]
    · simpa only [update_of_ne hdd] using h.pos d'

/-- One owner less: with the last one the object is freed. -/
theorem unlink (h : Sound s) (hk : s.owner k = some d) :
    Sound ⟨update s.owner k none, (s.drop d).1, (s.drop d).2⟩ := by
  obtain ⟨n, hn⟩ := Option.isSome_iff_exists.mp (h.live k d hk)
  by_cases hone : n = 1
  · subst hone
    simp only [drop, hn]
    refine ⟨h.step_release hk hn, fun d' => ?_⟩
    by_cases hdd : d' = d
    · simp [hdd]
    · simpa only [update_of_ne hdd] using h.pos d'
  · rw [drop_of_ne_one hn hone]
    refine ⟨h.step_unlink hk hn, fun d' => ?_⟩
    by_cases hdd : d' = d
    · have hpos := h.count_pos hk hn
      simp only [hdd, update_self, ne_eq, Option.some.injEq]
      omega
    · simpa only [update_of_ne hdd] using h.pos d'

/-- A reference is handed from one owner to another. -/
theorem move (h : Sound s) (hk : s.owner k = some d) (hk' : s.owner k' = none) :
    Sound ⟨update (update s.owner k' (some d)) k none, s.count, s.freed⟩ := by
  obtain ⟨n, hn⟩ := Option.isSome_iff_exists.mp (h.live k d hk)
  have hne : k ≠ k' := by
    rintro rfl
    simp [hk] at hk'
  have hunlink := (h.link hk' hn).unlink (k := k) (d := d) (by simp [update_of_ne hne, hk])
  have hpos := h.count_pos hk hn
  have hdrop : (RefStore.mk (update s.owner k' (some d)) (update s.count d (some (n + 1)))
      s.freed).drop d = (s.count, s.freed) := by
    rw [drop_of_ne_one (update_self d (some (n + 1)) s.count) (by omega)]
    simp [← hn]
  rwa [hdrop] at hunlink

end Sound

end RefStore

end ShellBox
