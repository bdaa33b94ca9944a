import ShellBox.Fs.Lock
import ShellBox.Logic.Loop

/-!
# Record locks have byte-wise meaning

A lock table is well formed when the locks of each owner are in one piece of the list, stay
apart and are merged, and no owner has a write lock on a byte that another owner has locked.
Every operation keeps this, and acquiring a lock changes the lock type of exactly the requested
bytes.
-/

namespace ShellBox

open IntRange

def LockTable.Grouped : LockTable → Prop
  | []           => True
  | lock :: rest =>
    (lock.owner ∈ rest.map FileLock.owner → rest.head?.map FileLock.owner = some lock.owner) ∧
      LockTable.Grouped rest

structure LockTable.Wf (table : LockTable) : Prop where
  valid : ∀ l ∈ table, l.Valid ∧ l.type ≠ .unlck
  apart : table.Pairwise fun a b => a.owner = b.owner → a.Apart b
  compatible : ∀ a ∈ table, ∀ b ∈ table, ¬ a.Conflict b
  grouped : table.Grouped

lemma FileLock.Valid.nonempty {l : FileLock} (h : l.Valid) : l.toIntRange.Nonempty := h.2.1

lemma FileLock.Apart.symm {a b : FileLock} (h : a.Apart b) : b.Apart a :=
  ⟨fun h' => h.1 (overlap_comm.1 h'), fun ht h' => h.2 ht.symm (touch_comm.1 h')⟩

lemma FileLock.Conflict.symm {a b : FileLock} (h : a.Conflict b) : b.Conflict a :=
  ⟨h.1.symm, overlap_comm.1 h.2.1, h.2.2.symm⟩

/-! ### Grouping -/

lemma LockTable.Grouped.split_own {l : FileLock} {table : LockTable} (h : Grouped (l :: table)) :
    ∃ ys zs, l :: table = ys ++ zs ∧ ys ≠ [] ∧ (∀ m ∈ ys, m.owner = l.owner) ∧
      ∀ m ∈ zs, m.owner ≠ l.owner := by
  induction table generalizing l with
  | nil => exact ⟨[l], [], by simp⟩
  | cons m rest ih =>
    obtain ⟨hl, hg⟩ := h
    by_cases hm : l.owner ∈ (m :: rest).map FileLock.owner
    · have hml : m.owner = l.owner := by simpa using hl hm
      obtain ⟨ys, zs, heq, -, hys, hzs⟩ := ih hg
      refine ⟨l :: ys, zs, by rw [heq]; rfl, by simp, ?_, ?_⟩
      · intro k hk
        rcases List.mem_cons.1 hk with rfl | hk
        · rfl
        · exact (hys k hk).trans hml
      · rw [← hml]
        exact hzs
    · refine ⟨[l], m :: rest, rfl, by simp, by simp, ?_⟩
      intro k hk hkl
      exact hm (List.mem_map.2 ⟨k, hk, hkl⟩)

lemma LockTable.Grouped.split {table : LockTable} (h : Grouped table) (o : LockOwner) :
    ∃ xs ys zs, table = xs ++ (ys ++ zs) ∧ (∀ m ∈ xs, m.owner ≠ o) ∧ (∀ m ∈ ys, m.owner = o) ∧
      (∀ m ∈ zs, m.owner ≠ o) ∧ (ys = [] → zs = []) := by
  induction table with
  | nil => exact ⟨[], [], [], by simp⟩
  | cons l rest ih =>
    by_cases hl : l.owner = o
    · obtain ⟨ys, zs, heq, hne, hys, hzs⟩ := h.split_own
      rw [hl] at hys hzs
      exact ⟨[], ys, zs, heq, by simp, hys, hzs, fun h => absurd h hne⟩
    · obtain ⟨xs, ys, zs, heq, hxs, hys, hzs, hne⟩ := ih h.2
      refine ⟨l :: xs, ys, zs, by rw [heq]; rfl, ?_, hys, hzs, hne⟩
      intro m hm
      rcases List.mem_cons.1 hm with rfl | hm
      · exact hl
      · exact hxs m hm

lemma LockTable.Grouped.append_own {ys zs : LockTable} {o : LockOwner}
    (hys : ∀ m ∈ ys, m.owner = o) (hzs : ∀ m ∈ zs, m.owner ≠ o) (h : Grouped zs) :
    Grouped (ys ++ zs) := by
  induction ys with
  | nil => exact h
  | cons y ys ih =>
    refine ⟨?_, ih fun m hm => hys m (List.mem_cons_of_mem _ hm)⟩
    intro hmem
    have hy := hys y (by simp)
    cases ys with
    | nil =>
      obtain ⟨m, hm, hmy⟩ := List.mem_map.1 hmem
      exact absurd (hmy.trans hy) (hzs m hm)
    | cons y' ys => simp [hy, hys y' (by simp)]

lemma LockTable.Grouped.of_append {xs zs : LockTable} (h : Grouped (xs ++ zs)) : Grouped zs := by
  induction xs with
  | nil => exact h
  | cons x xs ih => exact ih h.2

lemma LockTable.Grouped.replace {xs ys ys' zs : LockTable} {o : LockOwner}
    (h : Grouped (xs ++ (ys ++ zs))) (hxs : ∀ m ∈ xs, m.owner ≠ o) (hys : ∀ m ∈ ys, m.owner = o)
    (hys' : ∀ m ∈ ys', m.owner = o) (hzs : ∀ m ∈ zs, m.owner ≠ o) (hne : ys = [] → zs = []) :
    Grouped (xs ++ (ys' ++ zs)) := by
  induction xs with
  | nil =>
    change Grouped (ys' ++ zs)
    exact append_own hys' hzs (show Grouped (ys ++ zs) from h).of_append
  | cons x xs ih =>
    refine ⟨?_, ih h.2 fun m hm => hxs m (List.mem_cons_of_mem _ hm)⟩
    intro hmem
    have hxo := hxs x (by simp)
    have hold : x.owner ∈ (xs ++ (ys ++ zs)).map FileLock.owner := by
      change x.owner ∈ (xs ++ (ys' ++ zs)).map FileLock.owner at hmem
      simp only [List.map_append, List.mem_append] at hmem ⊢
      rcases hmem with hx | hy | hz
      · exact Or.inl hx
      · obtain ⟨m, hm, hmx⟩ := List.mem_map.1 hy
        exact absurd (hmx.symm.trans (hys' m hm)) hxo
      · exact Or.inr (Or.inr hz)
    have hhead := h.1 hold
    cases xs with
    | cons x' xs => simpa using hhead
    | nil =>
      cases ys with
      | nil => simp [hne rfl] at hold
      | cons y ys =>
        have hxy : y.owner = x.owner := by simpa using hhead
        exact absurd (hxy.symm.trans (hys y (by simp))) hxo

/-! ### The walk -/

lemma lockWalk_skip {xs : LockTable} {r : FileLock} (hxs : ∀ m ∈ xs, m.owner ≠ r.owner)
    (ys : LockTable) : lockWalk false r (xs ++ ys) = (lockWalk false r ys).push xs := by
  induction xs with
  | nil => rfl
  | cons x xs ih =>
    have hx := hxs x (by simp)
    have hxs' := ih fun m hm => hxs m (List.mem_cons_of_mem _ hm)
    simp [lockWalk, hx, hxs', LockWalk.push]

lemma lockWalk_own {ys : LockTable} {r : FileLock} (hys : ∀ m ∈ ys, m.owner = r.owner)
    (hne : ys ≠ []) (zs : LockTable) : lockWalk false r (ys ++ zs) = lockWalk true r (ys ++ zs) := by
  cases ys with
  | nil => exact absurd rfl hne
  | cons y ys => simp [lockWalk, hys y (by simp)]

lemma lockWalk_append {ys zs : LockTable} {r : FileLock} (hys : ∀ m ∈ ys, m.owner = r.owner)
    (hzs : ∀ m ∈ zs, m.owner ≠ r.owner) :
    lockWalk true r (ys ++ zs) = { lockWalk true r ys with after := zs } := by
  induction ys generalizing r with
  | nil =>
    cases zs with
    | nil => rfl
    | cons z zs => simp [lockWalk, hzs z (by simp)]
  | cons y ys ih =>
    have hy := hys y (by simp)
    have hys' : ∀ m ∈ ys, m.owner = r.owner := fun m hm => hys m (List.mem_cons_of_mem _ hm)
    have key := ih hys' hzs
    have key' := ih (r := r.extend y) hys' hzs
    simp only [List.cons_append, lockWalk, hy, ne_eq, not_true_eq_false, if_false]
    split_ifs
    · exact key'
    · rw [key]; rfl
    · rw [key]; rfl
    · rw [key]; rfl

structure LockWalk.Spec (r : FileLock) (ys : LockTable) (w : LockWalk) : Prop where
  after : w.after = []
  type : w.request.type = r.type
  owner : w.request.owner = r.owner
  valid : w.request.Valid
  mem_request : ∀ x, x ∈ w.request.toIntRange ↔
    x ∈ r.toIntRange ∨ ∃ l ∈ ys, l.type = r.type ∧ l.Touch r.toIntRange ∧ x ∈ l.toIntRange
  piece : ∀ l ∈ w.before, ∃ m ∈ ys, l.Sub m.toIntRange ∧ l.type = m.type ∧ l.owner = m.owner ∧
    l.Valid ∧ (l.type = r.type → ¬ m.Touch r.toIntRange) ∧ ¬ l.Overlap r.toIntRange
  mem_before : ∀ x t, (∃ l ∈ w.before, l.type = t ∧ x ∈ l.toIntRange) ↔
    ∃ l ∈ ys, l.type = t ∧ x ∈ l.toIntRange ∧
      if t = r.type then ¬ l.Touch r.toIntRange else x ∉ r.toIntRange
  apart : w.before.Pairwise FileLock.Apart

section Step

variable {r l : FileLock} {rest : LockTable}

lemma FileLock.Valid.extend (hr : r.Valid) (hl : l.Valid) : (r.extend l).Valid := by
  obtain ⟨hr0, hr1, hr2⟩ := hr
  obtain ⟨hl0, hl1, hl2⟩ := hl
  refine ⟨?_, (show r.toIntRange.Nonempty from hr1).hull _, ?_⟩ <;> simp only [FileLock.extend, hull] <;> split_ifs <;> assumption

lemma FileLock.mem_extend (hr : r.Valid) (hl : l.Valid) (h : l.Touch r.toIntRange) {x : ℤ} :
    x ∈ (r.extend l).toIntRange ↔ x ∈ r.toIntRange ∨ x ∈ l.toIntRange :=
  mem_hull hr.nonempty hl.nonempty (touch_comm.1 h)

/-- A lock that stays away from `l` touches the extended request only if it touches the
request. -/
lemma FileLock.touch_extend {m : FileLock} (hr : r.Valid) (hl : l.Valid) (hm : m.Valid)
    (h : l.Touch r.toIntRange) (hlm : ¬ l.Touch m.toIntRange) :
    m.Touch (r.extend l).toIntRange ↔ m.Touch r.toIntRange := by
  rw [touch_iff hm.nonempty (hr.extend hl).nonempty, touch_iff hm.nonempty hr.nonempty]
  constructor
  · rintro ⟨x, y, hx, hy, h1, h2⟩
    rcases (mem_extend hr hl h).1 hy with hy | hy
    · exact ⟨x, y, hx, hy, h1, h2⟩
    · exact absurd ((touch_iff hl.nonempty hm.nonempty).2 ⟨y, x, hy, hx, h2, h1⟩) hlm
  · rintro ⟨x, y, hx, hy, h1, h2⟩
    exact ⟨x, y, hx, (mem_extend hr hl h).2 (Or.inl hy), h1, h2⟩

lemma LockWalk.Spec.merge {w : LockWalk} (hr : r.Valid) (hl : l.Valid) (hrest : ∀ m ∈ rest, m.Valid)
    (hap : ∀ m ∈ rest, l.Apart m) (hty : r.type = l.type) (ht : l.Touch r.toIntRange)
    (hw : Spec (r.extend l) rest w) : Spec r (l :: rest) w := by
  have htouch : ∀ m ∈ rest, m.type = r.type →
      (m.Touch (r.extend l).toIntRange ↔ m.Touch r.toIntRange) := fun m hm hmt =>
    FileLock.touch_extend hr hl (hrest m hm) ht ((hap m hm).2 (hty.symm.trans hmt.symm))
  constructor
  · exact hw.after
  · exact hw.type
  · exact hw.owner
  · exact hw.valid
  · intro x
    rw [hw.mem_request, FileLock.mem_extend hr hl ht, or_assoc]
    refine or_congr_right ?_
    constructor
    · rintro (hx | ⟨m, hm, hmt, hmr, hx⟩)
      · exact ⟨l, by simp, hty.symm, ht, hx⟩
      · exact ⟨m, by simp [hm], hmt, (htouch m hm hmt).1 hmr, hx⟩
    · rintro ⟨m, hm, hmt, hmr, hx⟩
      rcases List.mem_cons.1 hm with rfl | hm
      · exact Or.inl hx
      · exact Or.inr ⟨m, hm, hmt, (htouch m hm hmt).2 hmr, hx⟩
  · intro k hk
    obtain ⟨m, hm, hsub, hkt, hko, hkv, hkm, hkr⟩ := hw.piece k hk
    refine ⟨m, by simp [hm], hsub, hkt, hko, hkv, ?_, ?_⟩
    · intro h
      rw [← htouch m hm (hkt.symm.trans h)]
      exact hkm h
    · rw [overlap_iff hkv.nonempty hr.nonempty]
      rintro ⟨x, hxk, hxr⟩
      exact hkr (mem_overlap hxk ((FileLock.mem_extend hr hl ht).2 (Or.inl hxr)))
  · intro x t
    rw [hw.mem_before]
    constructor
    · rintro ⟨m, hm, hmt, hx, hif⟩
      refine ⟨m, by simp [hm], hmt, hx, ?_⟩
      by_cases htr : t = r.type
      · rw [if_pos htr, ← htouch m hm (hmt.trans htr)]
        simpa [htr, FileLock.extend] using hif
      · rw [if_neg htr]
        rw [if_neg (show t ≠ (r.extend l).type from htr), FileLock.mem_extend hr hl ht] at hif
        exact fun h => hif (Or.inl h)
    · rintro ⟨m, hm, hmt, hx, hif⟩
      rcases List.mem_cons.1 hm with rfl | hm
      · rw [if_pos (hmt.symm.trans hty.symm)] at hif
        exact absurd ht hif
      · refine ⟨m, hm, hmt, hx, ?_⟩
        by_cases htr : t = r.type
        · rw [if_pos (show t = (r.extend l).type from htr), htouch m hm (hmt.trans htr)]
          simpa [htr] using hif
        · rw [if_neg (show t ≠ (r.extend l).type from htr), FileLock.mem_extend hr hl ht]
          rw [if_neg htr] at hif
          rintro (h | h)
          · exact hif h
          · exact (hap m hm).1 (mem_overlap h hx)
  · exact hw.apart

lemma FileLock.Apart.mono {a b c d : FileLock} (h : a.Apart b) (hc : c.Valid) (hd : d.Valid)
    (hca : c.Sub a.toIntRange) (hdb : d.Sub b.toIntRange) (hct : c.type = a.type)
    (hdt : d.type = b.type) : c.Apart d := by
  refine ⟨fun h' => h.1 (h'.mono hca hdb), fun ht h' => ?_⟩
  exact h.2 (hct.symm.trans (ht.trans hdt)) (h'.mono hc.nonempty hd.nonempty hca hdb)

lemma LockWalk.Spec.push {w : LockWalk} {ps : LockTable} (hap : ∀ m ∈ rest, l.Apart m)
    (hnt : l.type = r.type → ¬ l.Touch r.toIntRange)
    (hps : ∀ p ∈ ps, p.Sub l.toIntRange ∧ p.type = l.type ∧ p.owner = l.owner ∧ p.Valid ∧
      ¬ p.Overlap r.toIntRange)
    (hmem : ∀ x, (∃ p ∈ ps, x ∈ p.toIntRange) ↔ x ∈ l.toIntRange ∧
      if l.type = r.type then ¬ l.Touch r.toIntRange else x ∉ r.toIntRange)
    (hpw : ps.Pairwise FileLock.Apart) (hw : Spec r rest w) : Spec r (l :: rest) (w.push ps) := by
  constructor
  · exact hw.after
  · exact hw.type
  · exact hw.owner
  · exact hw.valid
  · intro x
    show x ∈ w.request.toIntRange ↔ _
    rw [hw.mem_request]
    refine or_congr_right ⟨?_, ?_⟩
    · rintro ⟨m, hm, h⟩
      exact ⟨m, by simp [hm], h⟩
    · rintro ⟨m, hm, hmt, hmr, hx⟩
      rcases List.mem_cons.1 hm with rfl | hm
      · exact absurd hmr (hnt hmt)
      · exact ⟨m, hm, hmt, hmr, hx⟩
  · intro k hk
    rcases List.mem_append.1 hk with hk | hk
    · obtain ⟨hsub, hkt, hko, hkv, hkr⟩ := hps k hk
      exact ⟨l, by simp, hsub, hkt, hko, hkv, fun h => hnt (hkt.symm.trans h), hkr⟩
    · obtain ⟨m, hm, h⟩ := hw.piece k hk
      exact ⟨m, by simp [hm], h⟩
  · intro x t
    have hl : (∃ p ∈ ps, p.type = t ∧ x ∈ p.toIntRange) ↔ l.type = t ∧ x ∈ l.toIntRange ∧
        if t = r.type then ¬ l.Touch r.toIntRange else x ∉ r.toIntRange := by
      constructor
      · rintro ⟨p, hp, rfl, hx⟩
        rw [(hps p hp).2.1]
        exact ⟨rfl, (hmem x).1 ⟨p, hp, hx⟩⟩
      · rintro ⟨rfl, hx⟩
        obtain ⟨p, hp, hxp⟩ := (hmem x).2 hx
        exact ⟨p, hp, (hps p hp).2.1, hxp⟩
    simp only [LockWalk.push, List.mem_append, List.mem_cons, or_and_right, exists_or,
      exists_eq_left, hl, hw.mem_before]
  · refine List.pairwise_append.2 ⟨hpw, hw.apart, ?_⟩
    intro p hp k hk
    obtain ⟨hsub, hpt, -, hpv, -⟩ := hps p hp
    obtain ⟨m, hm, hksub, hkt, -, hkv, -⟩ := hw.piece k hk
    exact (hap m hm).mono hpv hkv hsub hksub hpt hkt

lemma LockWalk.Spec.notify {w : LockWalk} {ys : LockTable} (hw : Spec r ys w) :
    Spec r ys w.notify :=
  ⟨hw.after, hw.type, hw.owner, hw.valid, hw.mem_request, hw.piece, hw.mem_before, hw.apart⟩

lemma FileLock.Valid.of_sub {p : FileLock} (hl : l.Valid) (hsub : p.Sub l.toIntRange)
    (hne : p.toIntRange.Nonempty) : p.Valid :=
  ⟨hl.1.trans hsub.1, hne, hsub.2.trans hl.2.2⟩

end Step

theorem lockWalk_spec {ys : LockTable} {r : FileLock} (hr : r.Valid)
    (hys : ∀ l ∈ ys, l.owner = r.owner ∧ l.Valid) (hap : ys.Pairwise FileLock.Apart) :
    (lockWalk true r ys).Spec r ys := by
  induction ys generalizing r with
  | nil => exact ⟨rfl, rfl, rfl, hr, by simp [lockWalk], by simp [lockWalk], by simp [lockWalk],
      List.Pairwise.nil⟩
  | cons l rest ih =>
    obtain ⟨hlo, hlv⟩ := hys l (by simp)
    have hrest : ∀ m ∈ rest, m.owner = r.owner ∧ m.Valid := fun m hm => hys m (by simp [hm])
    obtain ⟨hlap, hap⟩ := List.pairwise_cons.1 hap
    have hkeep : ¬ l.Overlap r.toIntRange → (l.type = r.type → ¬ l.Touch r.toIntRange) →
        ((lockWalk true r rest).push [l]).Spec r (l :: rest) := by
      intro hno hnt
      refine LockWalk.Spec.push hlap hnt ?_ ?_ (List.pairwise_singleton _ _) (ih hr hrest hap)
      · simp [hlv, hno, IntRange.Sub.refl]
      · intro x
        simp only [List.mem_singleton, exists_eq_left]
        refine ⟨fun hx => ⟨hx, ?_⟩, And.left⟩
        split_ifs with hty
        · exact hnt hty
        · exact fun hxr => hno (mem_overlap hx hxr)
    simp only [lockWalk, hlo, ne_eq, not_true_eq_false, if_false]
    split_ifs with hty ht hov
    · exact LockWalk.Spec.merge hr hlv (fun m hm => (hrest m hm).2) hlap hty ht
        (ih (hr.extend hlv) hrest hap)
    · exact hkeep (fun h => ht (Or.inl h)) fun _ => ht
    · refine LockWalk.Spec.notify (LockWalk.Spec.push hlap (fun h => absurd h.symm hty) ?_ ?_ ?_
        (ih hr hrest hap))
      · intro p hp
        obtain ⟨i, hi, rfl⟩ := List.mem_map.1 hp
        obtain ⟨hne, hsub, hno⟩ := minus_spec hr.nonempty hov hi
        exact ⟨hsub, rfl, rfl, hlv.of_sub hsub hne, hno⟩
      · intro x
        rw [if_neg fun h => hty h.symm, ← mem_minus hov]
        simp [FileLock.subtract]
      · rw [FileLock.subtract, List.pairwise_map]
        refine (minus_pairwise hr.nonempty).imp ?_
        intro i j hij
        exact ⟨fun h => hij (Or.inl h), fun _ => hij⟩
    · exact hkeep hov fun h => absurd h.symm hty

/-! ### Acquiring a lock -/

instance FileLock.symm_apart : Std.Symm FileLock.Apart := ⟨fun _ _ h => h.symm⟩

/-- `Apart` for locks of one owner. -/
def FileLock.OwnApart (a b : FileLock) : Prop := a.owner = b.owner → a.Apart b

instance FileLock.symm_ownApart : Std.Symm FileLock.OwnApart := ⟨fun _ _ h ho => (h ho.symm).symm⟩

lemma LockTable.Wf.typeAt_eq_some {table : LockTable} (h : table.Wf) {o : LockOwner} {x : ℤ}
    {t : LockType} :
    table.typeAt o x = some t ↔ ∃ l ∈ table, l.owner = o ∧ l.type = t ∧ x ∈ l.toIntRange := by
  constructor
  · intro hx
    obtain ⟨l, hl, rfl⟩ := Option.map_eq_some_iff.1 hx
    obtain ⟨ho, hxl⟩ : l.owner = o ∧ x ∈ l.toIntRange := by simpa using List.find?_some hl
    exact ⟨l, List.mem_of_find?_eq_some hl, ho, rfl, hxl⟩
  · rintro ⟨l, hl, ho, rfl, hxl⟩
    cases hf : table.find? fun lock => lock.owner = o ∧ x ∈ lock.toIntRange with
    | none =>
      have := List.find?_eq_none.1 hf l hl
      simp [ho, hxl] at this
    | some m =>
      obtain ⟨hmo, hxm⟩ : m.owner = o ∧ x ∈ m.toIntRange := by simpa using List.find?_some hf
      have hml : m = l := by
        by_contra hne
        have hap : table.Pairwise FileLock.OwnApart := h.apart
        exact (hap.forall (List.mem_of_find?_eq_some hf) hl hne (hmo.trans ho.symm)).1
          (mem_overlap hxm hxl)
      rw [LockTable.typeAt, hf, hml]
      rfl

lemma LockTable.Wf.exclusive {table : LockTable} (h : table.Wf) {o o' : LockOwner} (hne : o ≠ o')
    {x : ℤ} (hw : table.typeAt o x = some .wrlck) : table.typeAt o' x = none := by
  rw [Option.eq_none_iff_forall_ne_some]
  intro t ht
  obtain ⟨l, hl, rfl, hlt, hxl⟩ := h.typeAt_eq_some.1 hw
  obtain ⟨m, hm, rfl, -, hxm⟩ := h.typeAt_eq_some.1 ht
  exact h.compatible l hl m hm ⟨hne, mem_overlap hxl hxm, Or.inl hlt⟩

section Acquire

variable {xs ys zs : LockTable} {r : FileLock}

lemma lockWalk_split (hxs : ∀ m ∈ xs, m.owner ≠ r.owner) (hys : ∀ m ∈ ys, m.owner = r.owner)
    (hzs : ∀ m ∈ zs, m.owner ≠ r.owner) (hne : ys = [] → zs = []) :
    lockWalk false r (xs ++ (ys ++ zs)) =
      { lockWalk true r ys with before := xs ++ (lockWalk true r ys).before, after := zs } := by
  rw [lockWalk_skip hxs]
  by_cases h : ys = []
  · rw [h, hne h]
    simp [lockWalk, LockWalk.push]
  · rw [lockWalk_own hys h, lockWalk_append hys hzs]
    rfl

def LockWalk.own (w : LockWalk) (r : FileLock) : LockTable :=
  w.before ++ if r.type = .unlck then [] else [w.request]

lemma LockWalk.mem_own {w : LockWalk} {l : FileLock} (hl : l ∈ w.own r) :
    l ∈ w.before ∨ l = w.request ∧ r.type ≠ .unlck := by
  rcases List.mem_append.1 hl with h | h
  · exact Or.inl h
  · split_ifs at h with ht
    · cases h
    · exact Or.inr ⟨List.mem_singleton.1 h, ht⟩

lemma LockWalk.Spec.apart_request {w : LockWalk} (hr : r.Valid) (hys : ∀ l ∈ ys, l.Valid)
    (hap : ys.Pairwise FileLock.Apart) (hw : w.Spec r ys) {l : FileLock} (hl : l ∈ w.before) :
    l.Apart w.request := by
  obtain ⟨m, hm, hsub, hlt, -, hlv, hmr, hlr⟩ := hw.piece l hl
  -- the merged locks are other ones than the one `l` is a piece of
  have hother : ∀ k ∈ ys, k.type = r.type → k.Touch r.toIntRange → m.Apart k := by
    intro k hk hkt hkr
    refine hap.forall hm hk ?_
    rintro rfl
    exact hmr (hlt.trans hkt) hkr
  constructor
  · rw [overlap_iff hlv.nonempty hw.valid.nonempty]
    rintro ⟨x, hxl, hxw⟩
    rcases (hw.mem_request x).1 hxw with hx | ⟨k, hk, hkt, hkr, hx⟩
    · exact hlr (mem_overlap hxl hx)
    · exact (hother k hk hkt hkr).1 (mem_overlap (hsub.mem hxl) hx)
  · intro ht
    rw [hw.type] at ht
    rw [touch_iff hlv.nonempty hw.valid.nonempty]
    rintro ⟨x, y, hxl, hyw, h1, h2⟩
    have hmt : ∀ {c : FileLock}, c.Valid → y ∈ c.toIntRange → m.Touch c.toIntRange := by
      intro c hc hy
      exact (touch_iff (hys m hm).nonempty hc.nonempty).2 ⟨x, y, hsub.mem hxl, hy, h1, h2⟩
    rcases (hw.mem_request y).1 hyw with hy | ⟨k, hk, hkt, hkr, hy⟩
    · exact hmr ht (hmt hr hy)
    · exact (hother k hk hkt hkr).2 ((hlt.symm.trans ht).trans hkt.symm) (hmt (hys k hk) hy)

lemma LockWalk.Spec.own_pairwise {w : LockWalk} (hr : r.Valid) (hys : ∀ l ∈ ys, l.Valid)
    (hap : ys.Pairwise FileLock.Apart) (hw : w.Spec r ys) :
    (w.own r).Pairwise FileLock.Apart := by
  refine List.pairwise_append.2 ⟨hw.apart, ?_, ?_⟩
  · split_ifs <;> simp
  · intro l hl m hm
    split_ifs at hm with ht
    · cases hm
    · rw [List.mem_singleton.1 hm]
      exact hw.apart_request hr hys hap hl

lemma LockWalk.Spec.mem_own_iff {w : LockWalk} (hys : ∀ l ∈ ys, l.type ≠ .unlck)
    (hw : w.Spec r ys) (x : ℤ) (t : LockType) :
    (∃ l ∈ w.own r, l.type = t ∧ x ∈ l.toIntRange) ↔
      if x ∈ r.toIntRange then t = r.type ∧ r.type ≠ .unlck
      else ∃ l ∈ ys, l.type = t ∧ x ∈ l.toIntRange := by
  have hown : (∃ l ∈ w.own r, l.type = t ∧ x ∈ l.toIntRange) ↔
      (∃ l ∈ w.before, l.type = t ∧ x ∈ l.toIntRange) ∨
        r.type ≠ .unlck ∧ r.type = t ∧ x ∈ w.request.toIntRange := by
    rw [LockWalk.own]
    split_ifs with ht
    · simp [ht]
    · simp [ht, hw.type, or_and_right, exists_or]
  rw [hown, hw.mem_before, hw.mem_request]
  constructor
  · rintro (⟨l, hl, hlt, hx, hif⟩ | ⟨hu, rfl, hx⟩)
    · split_ifs with hxr
      · split_ifs at hif with htr
        · exact absurd (Or.inl (mem_overlap hx hxr)) hif
        · exact absurd hxr hif
      · exact ⟨l, hl, hlt, hx⟩
    · split_ifs with hxr
      · exact ⟨rfl, hu⟩
      · rcases hx with hx | ⟨l, hl, hlt, -, hx⟩
        · exact absurd hx hxr
        · exact ⟨l, hl, hlt, hx⟩
  · intro h
    split_ifs at h with hxr
    · exact Or.inr ⟨h.2, h.1.symm, Or.inl hxr⟩
    · obtain ⟨l, hl, rfl, hx⟩ := h
      by_cases hlr : l.type = r.type
      · by_cases htouch : l.Touch r.toIntRange
        · exact Or.inr ⟨hlr ▸ hys l hl, hlr.symm, Or.inr ⟨l, hl, hlr, htouch, hx⟩⟩
        · exact Or.inl ⟨l, hl, rfl, hx, by rw [if_pos hlr]; exact htouch⟩
      · exact Or.inl ⟨l, hl, rfl, hx, by rw [if_neg hlr]; exact hxr⟩

end Acquire

lemma fileLockAcquire_eagain {table : LockTable} {r : FileLock} :
    (fileLockAcquire table r).eagain = true ↔ r.type ≠ .unlck ∧ ∃ l ∈ table, l.Conflict r := by
  rw [fileLockAcquire]
  split_ifs with h <;> simp [h]

lemma fileLockAcquire_table_eq {table : LockTable} {r : FileLock}
    (h : (fileLockAcquire table r).eagain = true) : (fileLockAcquire table r).table = table := by
  rw [fileLockAcquire, if_pos (fileLockAcquire_eagain.1 h)]

lemma LockTable.Wf.exists_acquire {table : LockTable} (h : table.Wf) {r : FileLock}
    (hr : r.Valid) (hok : (fileLockAcquire table r).eagain = false) :
    ∃ xs ys zs, ∃ w : LockWalk, table = xs ++ (ys ++ zs) ∧ (∀ m ∈ xs, m.owner ≠ r.owner) ∧
      (∀ m ∈ ys, m.owner = r.owner) ∧ (∀ m ∈ zs, m.owner ≠ r.owner) ∧ (ys = [] → zs = []) ∧
      w.Spec r ys ∧ ys.Pairwise FileLock.Apart ∧
      (fileLockAcquire table r).table = xs ++ (w.own r ++ zs) := by
  obtain ⟨xs, ys, zs, rfl, hxs, hys, hzs, hne⟩ := h.grouped.split r.owner
  have hap : ys.Pairwise FileLock.Apart := by
    have hyz := (List.pairwise_append.1 (List.pairwise_append.1 h.apart).2.1).1
    refine hyz.imp_of_mem ?_
    intro a b ha hb hab
    exact hab ((hys a ha).trans (hys b hb).symm)
  have hw := lockWalk_spec hr (fun l hl => ⟨hys l hl, (h.valid l (by simp [hl])).1⟩) hap
  refine ⟨xs, ys, zs, lockWalk true r ys, rfl, hxs, hys, hzs, hne, hw, hap, ?_⟩
  have hc : ¬ (r.type ≠ .unlck ∧ ∃ l ∈ xs ++ (ys ++ zs), l.Conflict r) := by
    rw [← fileLockAcquire_eagain, hok]
    exact Bool.false_ne_true
  rw [fileLockAcquire, if_neg hc, lockWalk_split hxs hys hzs hne]
  simp [LockWalk.own]

lemma fileLockAcquire_granted {table : LockTable} {r : FileLock}
    (hok : (fileLockAcquire table r).eagain = false) (hu : r.type ≠ .unlck) :
    ∀ l ∈ table, ¬ l.Conflict r := by
  intro l hl hc
  rw [fileLockAcquire, if_pos ⟨hu, l, hl, hc⟩] at hok
  cases hok

lemma LockTable.Wf.not_conflict_own {xs ys zs : LockTable} (h : Wf (xs ++ (ys ++ zs)))
    {r : FileLock} {w : LockWalk} (hw : w.Spec r ys) (hys : ∀ m ∈ ys, m.owner = r.owner)
    (hok : r.type ≠ .unlck → ∀ l ∈ xs ++ (ys ++ zs), ¬ l.Conflict r) {l m : FileLock}
    (hl : l ∈ w.own r) (hm : m ∈ xs ++ (ys ++ zs)) (hmo : m.owner ≠ r.owner) :
    ¬ m.Conflict l := by
  rintro ⟨-, hov, hty⟩
  rcases LockWalk.mem_own hl with hl | ⟨rfl, hu⟩
  · obtain ⟨k, hk, hsub, hlt, -, -⟩ := hw.piece l hl
    refine h.compatible m hm k (by simp [hk]) ⟨?_, ?_, by rwa [hlt] at hty⟩
    · rw [hys k hk]
      exact hmo
    · exact hov.mono (IntRange.Sub.refl _) hsub
  · rw [hw.type] at hty
    obtain ⟨x, hxm, hxw⟩ := (overlap_iff (h.valid m hm).1.nonempty hw.valid.nonempty).1 hov
    rcases (hw.mem_request x).1 hxw with hx | ⟨k, hk, hkt, -, hx⟩
    · exact hok hu m hm ⟨hmo, mem_overlap hxm hx, hty⟩
    · refine h.compatible m hm k (by simp [hk]) ⟨?_, mem_overlap hxm hx, by rwa [hkt]⟩
      rw [hys k hk]
      exact hmo

/-- The step lemma: acquiring keeps a table well formed. -/
theorem LockTable.Wf.acquire {table : LockTable} (h : table.Wf) {r : FileLock} (hr : r.Valid) :
    (fileLockAcquire table r).table.Wf := by
  by_cases hok : (fileLockAcquire table r).eagain = true
  · rw [fileLockAcquire_table_eq hok]
    exact h
  have hok := Bool.eq_false_iff.2 hok
  obtain ⟨xs, ys, zs, w, rfl, hxs, hys, hzs, hne, hw, hap, htable⟩ := h.exists_acquire hr hok
  have hysv : ∀ l ∈ ys, l.Valid := fun l hl => (h.valid l (by simp [hl])).1
  have hown : ∀ l ∈ w.own r, l.owner = r.owner := by
    intro l hl
    rcases LockWalk.mem_own hl with hl | ⟨rfl, -⟩
    · obtain ⟨m, hm, -, -, hlo, -⟩ := hw.piece l hl
      exact hlo.trans (hys m hm)
    · exact hw.owner
  have hxz : ∀ l ∈ xs ++ (w.own r ++ zs), l ∈ w.own r ∨ l ∈ xs ++ (ys ++ zs) ∧ l.owner ≠ r.owner := by
    intro l hl
    rcases List.mem_append.1 hl with hl | hl
    · exact Or.inr ⟨by simp [hl], hxs l hl⟩
    · rcases List.mem_append.1 hl with hl | hl
      · exact Or.inl hl
      · exact Or.inr ⟨by simp [hl], hzs l hl⟩
  rw [htable]
  constructor
  · intro l hl
    rcases hxz l hl with hl | ⟨hl, -⟩
    · rcases LockWalk.mem_own hl with hl | ⟨rfl, hu⟩
      · obtain ⟨m, hm, -, hlt, -, hlv, -⟩ := hw.piece l hl
        rw [hlt]
        exact ⟨hlv, (h.valid m (by simp [hm])).2⟩
      · rw [hw.type]
        exact ⟨hw.valid, hu⟩
    · exact h.valid l hl
  · obtain ⟨hxx, hyz, hxyz⟩ := List.pairwise_append.1 h.apart
    obtain ⟨-, hzz, -⟩ := List.pairwise_append.1 hyz
    refine List.pairwise_append.2 ⟨hxx, List.pairwise_append.2 ⟨?_, hzz, ?_⟩, ?_⟩
    · refine (hw.own_pairwise hr hysv hap).imp ?_
      intro a b hab _
      exact hab
    · intro a ha b hb hab
      exact absurd (hab.symm.trans (hown a ha)) (hzs b hb)
    · intro a ha b hb hab
      rcases List.mem_append.1 hb with hb | hb
      · exact absurd (hab.trans (hown b hb)) (hxs a ha)
      · exact hxyz a ha b (by simp [hb]) hab
  · have hnc : ∀ a ∈ w.own r, ∀ b ∈ xs ++ (ys ++ zs), b.owner ≠ r.owner → ¬ b.Conflict a :=
      fun a ha b hb hbo => h.not_conflict_own hw hys (fileLockAcquire_granted hok) ha hb hbo
    intro a ha b hb hc
    rcases hxz a ha with ha | ⟨ha, hao⟩ <;> rcases hxz b hb with hb | ⟨hb, hbo⟩
    · exact hc.1 ((hown a ha).trans (hown b hb).symm)
    · exact hnc a ha b hb hbo hc.symm
    · exact hnc b hb a ha hao hc
    · exact h.compatible a ha b hb hc
  · exact h.grouped.replace hxs hys hown hzs hne

/-- A granted request sets the lock type of exactly the requested bytes. -/
theorem LockTable.Wf.typeAt_acquire {table : LockTable} (h : table.Wf) {r : FileLock}
    (hr : r.Valid) (hok : (fileLockAcquire table r).eagain = false) (o : LockOwner) (x : ℤ) :
    (fileLockAcquire table r).table.typeAt o x =
      if o = r.owner ∧ x ∈ r.toIntRange then (if r.type = .unlck then none else some r.type)
      else table.typeAt o x := by
  have h' := h.acquire hr
  obtain ⟨xs, ys, zs, w, rfl, hxs, hys, hzs, hne, hw, hap, htable⟩ := h.exists_acquire hr hok
  have hown : ∀ l ∈ w.own r, l.owner = r.owner := by
    intro l hl
    rcases LockWalk.mem_own hl with hl | ⟨rfl, -⟩
    · obtain ⟨m, hm, -, -, hlo, -⟩ := hw.piece l hl
      exact hlo.trans (hys m hm)
    · exact hw.owner
  rw [htable] at h' ⊢
  refine Option.ext fun t => ?_
  rw [h'.typeAt_eq_some]
  by_cases ho : o = r.owner
  · subst ho
    have hpart : ∀ ps : LockTable, (∀ l ∈ ps, l.owner = r.owner) →
        ((∃ l ∈ xs ++ (ps ++ zs), l.owner = r.owner ∧ l.type = t ∧ x ∈ l.toIntRange) ↔
          ∃ l ∈ ps, l.type = t ∧ x ∈ l.toIntRange) := by
      intro ps hps
      constructor
      · rintro ⟨l, hl, hlo, hx⟩
        rcases List.mem_append.1 hl with hl | hl
        · exact absurd hlo (hxs l hl)
        · rcases List.mem_append.1 hl with hl | hl
          · exact ⟨l, hl, hx⟩
          · exact absurd hlo (hzs l hl)
      · rintro ⟨l, hl, hx⟩
        exact ⟨l, by simp [hl], hps l hl, hx⟩
    rw [hpart _ hown, hw.mem_own_iff (fun l hl => (h.valid l (by simp [hl])).2)]
    by_cases hx : x ∈ r.toIntRange
    · rw [if_pos hx, if_pos ⟨rfl, hx⟩]
      split_ifs with hu
      · simp [hu]
      · simp [hu, eq_comm]
    · rw [if_neg hx, if_neg fun h => hx h.2, h.typeAt_eq_some, hpart _ hys]
  · rw [if_neg fun h => ho h.1, h.typeAt_eq_some]
    have hother : ∀ ps : LockTable, (∀ l ∈ ps, l.owner = r.owner) → ∀ l : FileLock,
        l.owner = o → (l ∈ xs ++ (ps ++ zs) ↔ l ∈ xs ++ zs) := by
      intro ps hps l hlo
      have hlp : l ∉ ps := fun hl => ho (hlo.symm.trans (hps l hl))
      simp [hlp]
    constructor
    · rintro ⟨l, hl, hlo, hx⟩
      exact ⟨l, (hother _ hys l hlo).2 ((hother _ hown l hlo).1 hl), hlo, hx⟩
    · rintro ⟨l, hl, hlo, hx⟩
      exact ⟨l, (hother _ hown l hlo).2 ((hother _ hys l hlo).1 hl), hlo, hx⟩

lemma LockTable.Grouped.filter {table : LockTable} (h : Grouped table) (o : LockOwner) :
    Grouped (fileLockRemoveOwnedBy table o) := by
  obtain ⟨xs, ys, zs, rfl, hxs, hys, hzs, hne⟩ := h.split o
  have hrem : fileLockRemoveOwnedBy (xs ++ (ys ++ zs)) o = xs ++ ([] ++ zs) := by
    simp only [fileLockRemoveOwnedBy, List.filter_append]
    rw [List.filter_eq_self.2 (by simpa using hxs), List.filter_eq_nil_iff.2 (by simpa using hys),
      List.filter_eq_self.2 (by simpa using hzs)]
  rw [hrem]
  exact h.replace hxs hys (by simp) hzs hne

theorem LockTable.Wf.removeOwnedBy {table : LockTable} (h : table.Wf) (o : LockOwner) :
    (fileLockRemoveOwnedBy table o).Wf :=
  ⟨fun l hl => h.valid l (List.mem_of_mem_filter hl), h.apart.filter _,
    fun a ha b hb => h.compatible a (List.mem_of_mem_filter ha) b (List.mem_of_mem_filter hb),
    h.grouped.filter o⟩

lemma LockTable.Wf.nil : Wf [] := ⟨by simp, List.Pairwise.nil, by simp, trivial⟩

/-- The run lemma. -/
theorem lockTable_wf {ops : List LockOp} (hops : ∀ op ∈ ops, op.Valid) :
    (run LockOp.apply [] ops).Wf := by
  have hall : ∀ (ops : List LockOp) (table : LockTable), (∀ op ∈ ops, op.Valid) →
      RunAll LockOp.apply (fun _ op => op.Valid) table ops := by
    intro ops
    induction ops with
    | nil => exact fun _ _ => trivial
    | cons op ops ih => exact fun table h => ⟨h op (by simp), ih _ fun o ho => h o (by simp [ho])⟩
  refine run_invariant ?_ (hall ops [] hops) LockTable.Wf.nil
  intro table op hop h
  cases op with
  | acquire request => exact h.acquire hop
  | removeOwnedBy owner => exact h.removeOwnedBy owner

/-- Closing gives up the locks of the owner, and no others. -/
theorem LockTable.Wf.typeAt_removeOwnedBy {table : LockTable} (h : table.Wf) (o o' : LockOwner)
    (x : ℤ) : (fileLockRemoveOwnedBy table o).typeAt o' x =
      if o' = o then none else table.typeAt o' x := by
  have h' := h.removeOwnedBy o
  refine Option.ext fun t => ?_
  rw [h'.typeAt_eq_some]
  split_ifs with ho
  · constructor
    · rintro ⟨l, hl, hlo, -⟩
      have hne := (List.mem_filter.1 hl).2
      simp [hlo, ho] at hne
    · simp
  · rw [h.typeAt_eq_some]
    constructor
    · rintro ⟨l, hl, hx⟩
      exact ⟨l, List.mem_of_mem_filter hl, hx⟩
    · rintro ⟨l, hl, hlo, hx⟩
      exact ⟨l, List.mem_filter.2 ⟨hl, by simp [hlo, ho]⟩, hlo, hx⟩

/-- Record locks have byte-wise meaning, in every table that operations on valid ranges reach. -/
theorem file_locks_bytewise {ops : List LockOp} (hops : ∀ op ∈ ops, op.Valid) {r : FileLock}
    (hr : r.Valid) {table : LockTable} (htable : table = run LockOp.apply [] ops) :
    table.Wf ∧
      (∀ o o' x, o ≠ o' → table.typeAt o x = some .wrlck → table.typeAt o' x = none) ∧
      ((r.type ≠ .unlck ∧ ∃ l ∈ table, l.Conflict r) →
        (fileLockAcquire table r).eagain = true ∧ (fileLockAcquire table r).table = table) ∧
      ((fileLockAcquire table r).eagain = false → ∀ o x,
        (fileLockAcquire table r).table.typeAt o x =
          if o = r.owner ∧ x ∈ r.toIntRange then (if r.type = .unlck then none else some r.type)
          else table.typeAt o x) := by
  have h : table.Wf := htable ▸ lockTable_wf hops
  refine ⟨h, fun o o' x hne => h.exclusive hne, ?_, fun hok => h.typeAt_acquire hr hok⟩
  intro hc
  have he := fileLockAcquire_eagain.2 hc
  exact ⟨he, fileLockAcquire_table_eq he⟩

/-- A read lock in the middle of a write lock splits it. -/
theorem file_locks_bytewise_split :
    let table := run LockOp.apply [] [.acquire ⟨⟨0, 99⟩, .wrlck, 1, 7⟩]
    (fileLockAcquire table ⟨⟨10, 19⟩, .rdlck, 1, 7⟩).eagain = false ∧
      (fileLockAcquire table ⟨⟨10, 19⟩, .rdlck, 1, 7⟩).table.typeAt 7 15 = some .rdlck ∧
      (fileLockAcquire table ⟨⟨10, 19⟩, .rdlck, 1, 7⟩).table.typeAt 7 20 = some .wrlck := by
  have hops : ∀ op ∈ [LockOp.acquire ⟨⟨0, 99⟩, .wrlck, 1, 7⟩], op.Valid := by
    simp [LockOp.Valid, FileLock.Valid, offTMax]
  have hr : FileLock.Valid ⟨⟨10, 19⟩, .rdlck, 1, 7⟩ := by simp [FileLock.Valid, offTMax]
  have key := file_locks_bytewise hops hr rfl
  refine ⟨by decide, ?_, ?_⟩
  · rw [key.2.2.2 (by decide)]
    decide
  · rw [key.2.2.2 (by decide)]
    decide

end ShellBox
