import ShellBox.Fs.BindRouting
import ShellBox.Logic.PathStash

/-!
# Bind mounts give back what they hide

A bind mount puts the rows of its mount point aside under a reserved name, and unmounting puts
them back. The mounts that are active are kept in a log, the latest first. The invariant is that
putting back one stash after the other, in the order of the log, leads to the rows from before
the first mount.
-/

namespace ShellBox

open Function

/-! ### The reserved name -/

lemma slash_notMem_bindSavedSuffix (k : ℕ) : '/' ∉ bindSavedSuffix.take k :=
  fun h => absurd (List.mem_of_mem_take h) (by decide)

lemma bindSaved_eq {p : CString} (hp : p.length < maxPath) :
    bindSaved p = p ++ bindSavedSuffix.take (maxPath - 1 - p.length) := by
  rw [bindSaved, List.take_append, List.take_of_length_le (by omega)]

lemma stashName_bindSaved {p : CString} (hp : p.length < maxPath) :
    StashName '/' p (bindSaved p) := by
  rw [bindSaved_eq hp]
  have hw := slash_notMem_bindSavedSuffix (maxPath - 1 - p.length)
  generalize bindSavedSuffix.take (maxPath - 1 - p.length) = w at hw
  refine ⟨?_, ?_, ?_⟩
  · by_cases hnil : w = []
    · exact Or.inl (by simp [hnil])
    · refine Or.inr ⟨fun h => ?_, fun h => ?_⟩
      · obtain ⟨t, ht⟩ := inTree_iff.1 h
        obtain ⟨heq, htail⟩ := tailOf_eq_some.1 ht
        obtain rfl := List.append_cancel_left heq
        rcases htail with htail | htail
        · exact hnil htail
        · exact hw (List.mem_of_head? htail)
      · obtain ⟨t, ht⟩ := inTree_iff.1 h
        have hlen := congrArg List.length (tailOf_eq_some.1 ht).1
        have hpos := List.length_pos_iff.2 hnil
        simp only [List.length_append] at hlen
        omega
  · intro q hq
    obtain ⟨t, ht⟩ := inTree_iff.1 hq
    obtain ⟨heq, htail⟩ := tailOf_eq_some.1 ht
    cases t with
    | nil => exact Or.inl (by simpa using heq.symm)
    | cons c t =>
      obtain rfl : c = '/' := by simpa using htail
      rcases List.append_eq_append_iff.1 heq with ⟨v, hqv, hwv⟩ | ⟨v, hpv, htv⟩
      · exact absurd (by simp [hwv]) hw
      · refine Or.inr (inTree_iff.2 ⟨v, tailOf_eq_some.2 ⟨hpv, ?_⟩⟩)
        cases v with
        | nil => simp
        | cons d v => exact Or.inr (by simpa using (List.cons.inj htv).1.symm)
  · intro q hq
    obtain ⟨t, ht⟩ := inTree_iff.1 hq
    obtain ⟨rfl, htail⟩ := tailOf_eq_some.1 ht
    cases t with
    | nil => exact Or.inl (by simp)
    | cons c t =>
      refine Or.inr ?_
      rw [List.append_assoc]
      exact inTree_append (by simpa using htail)

lemma bindSaved_ne {p : CString} (hp : p.length + 1 < maxPath) : bindSaved p ≠ p := by
  intro h
  have hlen := congrArg List.length h
  rw [bindSaved_eq (by omega), List.length_append, List.length_take] at hlen
  have hsuffix : bindSavedSuffix.length = 15 := rfl
  omega

/-! ### The log -/

/-- The stash of `p` is put back. -/
abbrev putBackPath (p : CString) (f : CString → Option ℕ) : CString → Option ℕ :=
  putBack '/' p (bindSaved p) f

/-- The rows in the tree of `p` are not of `orig`. -/
def NewIn (orig : CString → Option ℕ) (p : CString) (f : CString → Option ℕ) : Prop :=
  ∀ x n, InTree '/' p x → f x = some n → ∀ y, orig y ≠ some n

/-- Unmounting in the order of the log leads to `orig`, and the rows that are lost on the way are
not of `orig`. -/
def Settles (orig : CString → Option ℕ) : List CString → (CString → Option ℕ) → Prop
  | [], f => f = orig
  | p :: log, f => NewIn orig p f ∧ Settles orig log (putBackPath p f)

/-- The part of the log in front of `p`. -/
def later (log : List CString) (p : CString) : List CString := log.takeWhile (· ≠ p)

lemma later_append {log' log : List CString} {p : CString} (hp : p ∉ log') :
    later (log' ++ p :: log) p = log' := by
  induction log' with
  | nil => simp [later]
  | cons q log' ih =>
    have hq : q ≠ p := fun h => hp (by simp [h])
    have ih := ih fun h => hp (List.mem_cons_of_mem q h)
    unfold later at ih ⊢
    rw [List.cons_append, List.takeWhile_cons_of_pos (by simpa using hq), ih]

lemma eq_later_append {log : List CString} {p : CString} (hp : p ∈ log) :
    ∃ log', log = later log p ++ p :: log' := by
  obtain ⟨xs, ys, rfl, hxs⟩ := List.eq_append_cons_of_mem hp
  exact ⟨ys, by rw [later_append hxs]⟩

section Settles

variable {orig f g : CString → Option ℕ} {log log' : List CString} {p q : CString}

lemma Settles.mount (hp : p.length < maxPath) (hempty : ∀ x, InTree '/' (bindSaved p) x → f x = none)
    (h : Settles orig log f) {n : ℕ} (hn : ∀ y, orig y ≠ some n) :
    Settles orig (p :: log) (update (moveTree '/' p (bindSaved p) f) p (some n)) := by
  have hs := stashName_bindSaved hp
  constructor
  · intro x m hx hf
    by_cases hxp : x = p
    · obtain rfl : n = m := by simpa [hxp] using hf
      exact hn
    · rw [update_of_ne hxp] at hf
      rcases moveTree_inside hs hx with hnone | ⟨heq, hval⟩
      · rw [hnone] at hf
        cases hf
      · rw [hval, hempty x (by rwa [heq])] at hf
        cases hf
  · have hoff : EqOff '/' p (update (moveTree '/' p (bindSaved p) f) p (some n))
        (moveTree '/' p (bindSaved p) f) := by
      intro x hx
      have hxp : x ≠ p := by
        rintro rfl
        exact hx inTree_self
      exact update_of_ne hxp _ _
    rw [putBackPath, putBack_of_moved hs hempty hoff]
    exact h

lemma Settles.congr (hlen : ∀ r ∈ log' ++ q :: log, r.length < maxPath)
    (hlater : ∀ r ∈ log', ¬ InTree '/' (bindSaved r) q) (hoff : EqOff '/' q f g)
    (hnew : ∀ x n, g x = some n → f x = some n ∨ ∀ y, orig y ≠ some n)
    (h : Settles orig (log' ++ q :: log) f) : Settles orig (log' ++ q :: log) g := by
  induction log' generalizing f g with
  | nil =>
    obtain ⟨hq, h⟩ := h
    refine ⟨fun x n hx hg => (hnew x n hg).elim (hq x n hx) id, ?_⟩
    have heq : putBackPath q f = putBackPath q g := putBack_congr hoff
    rwa [heq] at h
  | cons r log' ih =>
    obtain ⟨hr, h⟩ := h
    have hs := stashName_bindSaved (hlen r (by simp))
    refine ⟨fun x n hx hg => (hnew x n hg).elim (hr x n hx) id, ?_⟩
    refine ih (fun r hr => hlen r (by simp [hr])) (fun r hr => hlater r (by simp [hr]))
      (hoff.putBack hs (hlater r (by simp))) ?_ h
    intro x n hg
    rw [putBackPath, putBack_apply] at hg
    rw [putBack_apply]
    obtain ⟨y, hy, hg⟩ := Option.bind_eq_some_iff.1 hg
    rw [hy, Option.bind_some]
    exact hnew y n hg

lemma Settles.newIn (hlen : ∀ r ∈ log' ++ q :: log, r.length < maxPath)
    (hlater : ∀ r ∈ log', ¬ InTree '/' (bindSaved r) q) (h : Settles orig (log' ++ q :: log) f) :
    NewIn orig q f := by
  induction log' generalizing f with
  | nil => exact h.1
  | cons r log' ih =>
    obtain ⟨hr, h⟩ := h
    have hs := stashName_bindSaved (hlen r (by simp))
    have ih := ih (fun r hr => hlen r (by simp [hr])) (fun r hr => hlater r (by simp [hr])) h
    intro x n hx hf
    by_cases hxr : InTree '/' r x
    · exact hr x n hxr hf
    · by_cases hxs : InTree '/' (bindSaved r) x
      · -- the stash of `r` is of a tree inside the tree of `q`
        have hqs : InTree '/' q (bindSaved r) :=
          (hx.or hxs).resolve_right (hlater r (by simp))
        have hqr : InTree '/' q r := by
          rcases hs.above q hqs with rfl | hqr
          · exact absurd inTree_self (hlater r (by simp))
          · exact hqr
        obtain ⟨t, ht⟩ := inTree_iff.1 hxs
        obtain ⟨rfl, htail⟩ := tailOf_eq_some.1 ht
        refine ih (r ++ t) n (hqr.trans (inTree_append htail)) ?_
        rw [putBackPath, putBack_apply, putBackSource_stash htail hxr, Option.bind_some, hf]
      · exact ih x n hx (by rw [putBackPath, putBack_outside hxr hxs, hf])

variable (f) in
/-- The mount `q` is out of the way when `p` is unmounted: it is apart from `p`, or it is inside
and hides no row of the stash. -/
def OutOfWay (p q : CString) : Prop :=
  StashesApart '/' p (bindSaved p) q (bindSaved q) ∨
    InTree '/' p q ∧ ∀ t, IsTail '/' t →
      InTree '/' q (p ++ t) ∨ InTree '/' (bindSaved q) (p ++ t) → f (bindSaved p ++ t) = none

lemma putBackPath_inside {r : CString} (hpr : InTree '/' p r) (hr : r = q ∨ r = bindSaved q)
    (hnone : ∀ t, IsTail '/' t →
      InTree '/' q (p ++ t) ∨ InTree '/' (bindSaved q) (p ++ t) → f (bindSaved p ++ t) = none)
    {x : CString} (hx : InTree '/' r x) : putBackPath p f x = none := by
  obtain ⟨t, ht⟩ := inTree_iff.1 (hpr.trans hx)
  obtain ⟨rfl, htail⟩ := tailOf_eq_some.1 ht
  refine putBack_stash_none htail (hnone t htail ?_)
  rcases hr with rfl | rfl
  · exact Or.inl hx
  · exact Or.inr hx

lemma OutOfWay.comm (hq : q.length < maxPath) (hne : p ≠ q) (h : OutOfWay f p q) :
    putBackPath p (putBackPath q f) = putBackPath q (putBackPath p f) := by
  rcases h with h | ⟨hpq, hnone⟩
  · exact putBack_comm h f
  · have hs := stashName_bindSaved hq
    have hsaved : InTree '/' p (bindSaved q) := (hs.below p hpq).resolve_left hne
    calc putBackPath p (putBackPath q f) = putBackPath p f :=
          putBack_congr (eqOff_putBack_of_inTree hs hpq hne)
      _ = putBackPath q (putBackPath p f) :=
          (putBack_of_empty (fun _ hx => putBackPath_inside hpq (Or.inl rfl) hnone hx)
            (fun _ hx => putBackPath_inside hsaved (Or.inr rfl) hnone hx)).symm

lemma OutOfWay.newIn (h : OutOfWay f p q) (hnew : NewIn orig q f) :
    NewIn orig q (putBackPath p f) := by
  intro x n hx hn
  rcases h with h | ⟨hpq, hnone⟩
  · rw [putBackPath, putBack_outside (h.root.symm.not_inTree hx) (h.stash_root.symm.not_inTree hx)]
      at hn
    exact hnew x n hx hn
  · rw [putBackPath_inside hpq (Or.inl rfl) hnone hx] at hn
    cases hn

lemma OutOfWay.stash (hq : q.length < maxPath) (hne : p ≠ q) (h : OutOfWay f p q) {t : CString}
    (ht : IsTail '/' t) : putBackPath q f (bindSaved p ++ t) = f (bindSaved p ++ t) := by
  have hin : InTree '/' (bindSaved p) (bindSaved p ++ t) := inTree_append ht
  rcases h with h | ⟨hpq, -⟩
  · exact putBack_outside (h.stash_root.not_inTree hin) (h.stash.not_inTree hin)
  · have hlt := hpq.length_lt hne
    have hsaved : InTree '/' p (bindSaved q) :=
      ((stashName_bindSaved hq).below p hpq).resolve_left hne
    have hapart : TreesApart '/' (bindSaved p) p := by
      have hstash := stashName_bindSaved (p := p) (by omega)
      exact (hstash.apart.resolve_left (bindSaved_ne (by omega))).symm
    exact putBack_outside (fun hx => hapart.not_inTree hin (hpq.trans hx))
      fun hx => hapart.not_inTree hin (hsaved.trans hx)

lemma Settles.unmount (hlen : ∀ r ∈ log' ++ p :: log, r.length < maxPath) (hp : p ∉ log')
    (hsafe : ∀ q ∈ log', OutOfWay f p q) (h : Settles orig (log' ++ p :: log) f) :
    Settles orig (log' ++ log) (putBackPath p f) := by
  induction log' generalizing f with
  | nil => exact h.2
  | cons q log' ih =>
    obtain ⟨hnew, h⟩ := h
    have hq : q.length < maxPath := hlen q (by simp)
    have hne : p ≠ q := fun heq => hp (by simp [heq])
    have hout := hsafe q (by simp)
    have hrest := ih (fun r hr => hlen r (by simp [hr])) (fun hmem => hp (by simp [hmem])) ?_ h
    · rw [hout.comm hq hne] at hrest
      exact ⟨hout.newIn hnew, hrest⟩
    · intro r hr
      rcases hsafe r (by simp [hr]) with hr | ⟨hpr, hnone⟩
      · exact Or.inl hr
      · exact Or.inr ⟨hpr, fun t ht hin => (hout.stash hq hne ht).trans (hnone t ht hin)⟩

end Settles

/-! ### The rows of a mount point -/

section Rows

variable (db : MetaDb) (p : CString) (mode : ℕ)

lemma bindMetaTop_paths : (bindMetaTop db p mode).paths = db.paths ∨
    (bindMetaTop db p mode).paths = db.paths.set p db.stats.nextKey := by
  unfold bindMetaTop
  by_cases h : db.pathGetInode p = 0
  · exact Or.inr (by simp [h, MetaDb.pathCreate])
  · refine Or.inl ?_
    rw [if_neg h]
    cases hstat : db.inodeReadStat (db.pathGetInode p) with
    | none => rfl
    | some prev =>
      simp only [MetaDb.inodeWriteStat]
      split_ifs <;> rfl

lemma bindMetaTop_eqOff :
    EqOff '/' p db.paths.get (bindMetaTop db p mode).paths.get := by
  intro x hx
  have hxp : x ≠ p := by
    rintro rfl
    exact hx inTree_self
  rcases bindMetaTop_paths db p mode with h | h
  · rw [h]
  · rw [h, FinMap.set_get, update_of_ne hxp]

lemma bindMetaTop_source {x : CString} {n : ℕ} (h : (bindMetaTop db p mode).paths x = some n) :
    db.paths x = some n ∨ n = db.stats.nextKey := by
  rcases bindMetaTop_paths db p mode with heq | heq
  · rw [heq] at h
    exact Or.inl h
  · rw [heq, FinMap.set_get] at h
    by_cases hx : x = p
    · obtain rfl : db.stats.nextKey = n := by simpa [hx] using h
      exact Or.inr rfl
    · exact Or.inl (by simpa [hx] using h)

lemma bindMetaTop_stats {n : ℕ} (hp : db.paths p ≠ some n) (hn : n ≠ db.stats.nextKey) :
    (bindMetaTop db p mode).stats n = db.stats n := by
  unfold bindMetaTop
  by_cases h : db.pathGetInode p = 0
  · simp [h, MetaDb.pathCreate, hn]
  · rw [if_neg h]
    have hino : n ≠ db.pathGetInode p := by
      rintro rfl
      apply hp
      cases hrow : db.paths p with
      | none => simp [MetaDb.pathGetInode, hrow] at h
      | some ino => simp [MetaDb.pathGetInode, hrow]
    cases hstat : db.inodeReadStat (db.pathGetInode p) with
    | none => rfl
    | some prev =>
      simp only [MetaDb.inodeWriteStat]
      split_ifs
      · simp [hino]
      · rfl

lemma bindMetaTop_set (h : db.paths p = none) :
    (bindMetaTop db p mode).paths = db.paths.set p db.stats.nextKey := by
  simp [bindMetaTop, MetaDb.pathGetInode, h, MetaDb.pathCreate]

lemma bindMetaStash_stats : (bindMetaStash db p).stats = db.stats := by
  unfold bindMetaStash
  split_ifs <;> rfl

end Rows

/-! ### Registering again -/

section Remount

variable {orig : CString → Option ℕ} {db : MetaDb} {log : List CString} {p : CString}

lemma moveTree_new {f : CString → Option ℕ} (hnew : NewIn orig p f)
    {x : CString} {n : ℕ} (h : moveTree '/' p (bindSaved p) f x = some n) :
    f x = some n ∨ ∀ y, orig y ≠ some n := by
  by_cases hx : ∃ t, tailOf '/' (bindSaved p) x = some t ∧ f (p ++ t) ≠ none
  · obtain ⟨t, ht, hne⟩ := hx
    obtain ⟨m, hm⟩ := Option.ne_none_iff_exists'.1 hne
    rw [moveTree_of_some ht hm] at h
    obtain rfl := Option.some.inj h
    exact Or.inr (hnew _ m (inTree_append (tailOf_eq_some.1 ht).2) hm)
  · push Not at hx
    rw [moveTree_of_none hx] at h
    split_ifs at h
    exact Or.inl h

/-- What a registration with another host path may not do: move the rows of the bind itself to a
place they come back from. -/
def StashReady (db : MetaDb) (log : List CString) (p : CString) : Prop :=
  db.pathGetInode (bindSaved p) ≠ 0 ∨ (∀ x, InTree '/' p x → db.paths x = none) ∨
    ∃ q ∈ later log p, InTree '/' q p

lemma Settles.remount (hlen : ∀ r ∈ log, r.length < maxPath) (hp : p ∈ log)
    (hlater : ∀ q ∈ later log p, ¬ InTree '/' (bindSaved q) p) (hready : StashReady db log p)
    (h : Settles orig log db.paths.get) :
    Settles orig log (bindMetaStash db p).paths.get ∧
      NewIn orig p (bindMetaStash db p).paths.get := by
  obtain ⟨log', hlog⟩ := eq_later_append hp
  have hplen := hlen p hp
  have hs := stashName_bindSaved hplen
  have hnew : NewIn orig p db.paths.get := by
    rw [hlog] at h hlen
    exact h.newIn hlen hlater
  by_cases hino : db.pathGetInode (bindSaved p) ≠ 0
  · have heq : (bindMetaStash db p).paths.get = deleteTree '/' p db.paths.get := by
      simp [bindMetaStash, hino, MetaDb.pathDeleteTree]
    rw [heq]
    constructor
    · rw [hlog] at h hlen ⊢
      refine h.congr hlen hlater (fun x hx => (deleteTree_of_none (tailOf_of_not hx)).symm) ?_
      intro x n hn
      unfold deleteTree at hn
      split_ifs at hn
      exact Or.inl hn
    · intro x n hx hn
      obtain ⟨t, ht⟩ := inTree_iff.1 hx
      rw [deleteTree_of_some ht] at hn
      cases hn
  · have heq : (bindMetaStash db p).paths.get = moveTree '/' p (bindSaved p) db.paths.get := by
      simp only [bindMetaStash, if_neg hino, MetaDb.pathRename, FinMap.moveTree_get]
    rw [heq]
    constructor
    · rcases hready with hready | hempty | ⟨q, hq, hqp⟩
      · exact absurd hready hino
      · rwa [moveTree_of_empty hempty]
      · -- the stash, too, is inside the tree of the later mount
        obtain ⟨log₁, log₂, hsplit, hq'⟩ := List.eq_append_cons_of_mem hq
        have hne : q ≠ p := by
          have := List.mem_takeWhile_imp hq
          simpa using this
        have hsq : InTree '/' q (bindSaved p) := (hs.below q hqp).resolve_left hne
        have hlog' : log = log₁ ++ q :: (log₂ ++ p :: log') := by
          rw [hlog, hsplit]
          simp
        rw [hlog'] at h hlen ⊢
        refine h.congr hlen ?_ ?_ fun x n hn => moveTree_new hnew hn
        · intro r hr hrq
          exact hlater r (by simp [hsplit, hr]) (hrq.trans hqp)
        · intro x hx
          refine (moveTree_outside (tailOf_of_not fun hx' => hx (hsq.trans hx'))
            (tailOf_of_not fun hx' => hx (hqp.trans hx'))).symm
    · intro x n hx hn
      rcases moveTree_inside hs hx with hnone | ⟨-, hval⟩
      · rw [hnone] at hn
        cases hn
      · rw [hval] at hn
        exact hnew x n hx hn

lemma Settles.top (hlen : ∀ r ∈ log, r.length < maxPath) (hp : p ∈ log)
    (hlater : ∀ q ∈ later log p, ¬ InTree '/' (bindSaved q) p) {mode : ℕ}
    (hkey : ∀ y, orig y ≠ some db.stats.nextKey) (h : Settles orig log db.paths.get) :
    Settles orig log (bindMetaTop db p mode).paths.get := by
  obtain ⟨log', hlog⟩ := eq_later_append hp
  rw [hlog] at h hlen ⊢
  refine h.congr hlen hlater (bindMetaTop_eqOff db p mode) ?_
  intro x n hn
  rcases bindMetaTop_source db p mode hn with hn | rfl
  · exact Or.inl hn
  · exact Or.inr hkey

end Remount

/-! ### Runs -/

def BindTable.HasPath (t : BindTable) (path : CString) : Prop :=
  ∃ i, (t i).active = true ∧ (t i).path = path

lemma hasPath_of_slot {t : BindTable} {path : CString} {i : Fin fakefsMaxBindMounts}
    (h : bindSlotOf t path = some i) : t.HasPath path :=
  ⟨i, bindSlotOf_some h⟩

lemma not_hasPath {t : BindTable} {path : CString} (h : bindSlotOf t path = none) :
    ¬ t.HasPath path := by
  rintro ⟨i, hi, hp⟩
  exact bindSlotOf_none h i hi hp

lemma hasPath_mount {t : BindTable} {path host : CString} {slot : Fin fakefsMaxBindMounts}
    {changed : Bool} (hslot : BindSlot t path host slot changed) {m : BindMount}
    (hm : m.active = true) (hpath : m.path = path) (q : CString) :
    BindTable.HasPath (update t slot m) q ↔ q = path ∨ t.HasPath q := by
  constructor
  · rintro ⟨i, hi, hq⟩
    by_cases h : i = slot
    · subst h
      simp only [update_self] at hq
      exact Or.inl (by rw [← hq, hpath])
    · simp only [update_of_ne h] at hi hq
      exact Or.inr ⟨i, hi, hq⟩
  · rintro (rfl | ⟨i, hi, hq⟩)
    · exact ⟨slot, by simp [hm], by simp [hpath]⟩
    · by_cases h : i = slot
      · refine ⟨slot, by simp [hm], ?_⟩
        subst h
        cases hslot with
        | again hs => rw [update_self, hpath, ← hq, (bindSlotOf_some hs).2]
        | fresh hs hfree =>
          rw [bindFreeSlot_some hfree] at hi
          cases hi
      · exact ⟨i, by simp [h, hi], by simp [h, hq]⟩

lemma hasPath_unmount {t : BindTable} {path : CString} {slot : Fin fakefsMaxBindMounts}
    (ht : t.Routed) (hslot : bindSlotOf t path = some slot) (q : CString) :
    BindTable.HasPath (update t slot { t slot with active := false }) q ↔
      q ≠ path ∧ t.HasPath q := by
  obtain ⟨hact, hpath⟩ := bindSlotOf_some hslot
  constructor
  · rintro ⟨i, hi, hq⟩
    by_cases h : i = slot
    · subst h
      simp at hi
    · simp only [update_of_ne h] at hi hq
      refine ⟨?_, i, hi, hq⟩
      rintro rfl
      exact h (ht.inj i slot hi hact (hq.trans hpath.symm))
  · rintro ⟨hne, i, hi, hq⟩
    have h : i ≠ slot := by
      rintro rfl
      exact hne (hq.symm.trans hpath)
    exact ⟨i, by simp [h, hi], by simp [h, hq]⟩

structure LoggedBinds where
  binds : Binds
  log : List CString

def bindLog (s : LoggedBinds) : BindCall → List CString
  | .mount _ linuxPath _ _ =>
    match bindMountNormalize linuxPath maxPath with
    | some path => if (bindSlotOf s.binds.mounts path).isSome then s.log else path :: s.log
    | none => s.log
  | .unmount linuxPath =>
    match bindMountNormalize linuxPath maxPath with
    | some path => s.log.erase path
    | none => s.log

def loggedStep (s : LoggedBinds) (c : BindCall) : LoggedBinds :=
  ⟨bindStep s.binds c, bindLog s c⟩

/-- The calls that can be taken back: a reserved name is free when it is needed, and a mount is
changed or taken off only while the later ones are out of its way. -/
def BindCall.InOrder (s : LoggedBinds) : BindCall → Prop
  | .mount h linuxPath hostPath _ => ∀ path, bindMountNormalize linuxPath maxPath = some path →
    match bindSlotOf s.binds.mounts path with
    | none => ∀ x, InTree '/' (bindSaved path) x → s.binds.db.paths x = none
    | some slot => (∀ q ∈ later s.log path, ¬ InTree '/' (bindSaved q) path) ∧
      ((s.binds.mounts slot).hostPath ≠ (h.realpath hostPath).getD hostPath →
        StashReady s.binds.db s.log path)
  | .unmount linuxPath => ∀ path, bindMountNormalize linuxPath maxPath = some path →
    ∀ q ∈ later s.log path, OutOfWay s.binds.db.paths.get path q

structure LogInv (db : MetaDb) (s : LoggedBinds) : Prop where
  routed : s.binds.mounts.Routed
  mem : ∀ p, p ∈ s.log ↔ s.binds.mounts.HasPath p
  nodup : s.log.Nodup
  length : ∀ p ∈ s.log, p.length < maxPath
  settles : Settles db.paths.get s.log s.binds.db.paths.get
  stats : ∀ n, (∃ y, db.paths y = some n) → s.binds.db.stats n = db.stats n

lemma LogInv.nextKey {db : MetaDb} (hfk : db.ForeignKey) {s : LoggedBinds} (h : LogInv db s)
    (y : CString) : db.paths y ≠ some s.binds.db.stats.nextKey := by
  intro hy
  have hstat := h.stats _ ⟨y, hy⟩
  rw [FinMap.nextKey_free] at hstat
  have hsome := hfk y _ hy
  rw [← hstat] at hsome
  cases hsome

lemma LogInv.remount {db : MetaDb} {s : LoggedBinds} (hinv : LogInv db s) {path host : CString}
    {slot : Fin fakefsMaxBindMounts} (hslot : bindSlotOf s.binds.mounts path = some slot)
    (hlater : ∀ q ∈ later s.log path, ¬ InTree '/' (bindSaved q) path)
    (hready : (s.binds.mounts slot).hostPath ≠ host → StashReady s.binds.db s.log path) :
    let db' := if decide ((s.binds.mounts slot).hostPath ≠ host) = true
      then bindMetaStash s.binds.db path else s.binds.db
    Settles db.paths.get s.log db'.paths.get ∧ NewIn db.paths.get path db'.paths.get ∧
      db'.stats = s.binds.db.stats := by
  have hmem : path ∈ s.log := (hinv.mem path).2 (hasPath_of_slot hslot)
  by_cases hne : (s.binds.mounts slot).hostPath ≠ host
  · have hrem := hinv.settles.remount hinv.length hmem hlater (hready hne)
    rw [if_pos (by simpa using hne)]
    exact ⟨hrem.1, hrem.2, bindMetaStash_stats _ _⟩
  · rw [if_neg (by simpa using hne)]
    refine ⟨hinv.settles, ?_, rfl⟩
    obtain ⟨log', hlog⟩ := eq_later_append hmem
    have hlen := hinv.length
    have hset := hinv.settles
    rw [hlog] at hlen hset
    exact hset.newIn hlen hlater

lemma LogInv.mount_again {db : MetaDb} (hfk : db.ForeignKey) {s : LoggedBinds}
    (hinv : LogInv db s) {path host : CString} {slot : Fin fakefsMaxBindMounts}
    (hslot : bindSlotOf s.binds.mounts path = some slot)
    (hlater : ∀ q ∈ later s.log path, ¬ InTree '/' (bindSaved q) path)
    (hready : (s.binds.mounts slot).hostPath ≠ host → StashReady s.binds.db s.log path)
    (mode : ℕ) {t : BindTable} (ht : t.Routed)
    (hmem : ∀ q, t.HasPath q ↔ q = path ∨ s.binds.mounts.HasPath q) :
    LogInv db ⟨⟨t, bindMetaTop (if decide ((s.binds.mounts slot).hostPath ≠ host) = true
      then bindMetaStash s.binds.db path else s.binds.db) path mode⟩, s.log⟩ := by
  have hpath : path ∈ s.log := (hinv.mem path).2 (hasPath_of_slot hslot)
  obtain ⟨hset, hnew, hstats⟩ := hinv.remount hslot hlater hready
  refine ⟨ht, ?_, hinv.nodup, hinv.length, ?_, ?_⟩
  · intro q
    rw [hmem q, ← hinv.mem q]
    constructor
    · exact Or.inr
    · rintro (rfl | hq)
      · exact hpath
      · exact hq
  · refine hset.top hinv.length hpath hlater ?_
    rw [hstats]
    exact hinv.nextKey hfk
  · rintro n ⟨y, hy⟩
    have hrow := hnew path n inTree_self
    refine (bindMetaTop_stats _ _ _ (fun h => hrow h y hy) ?_).trans ?_
    · rw [hstats]
      rintro rfl
      exact hinv.nextKey hfk y hy
    · rw [hstats]
      exact hinv.stats n ⟨y, hy⟩

lemma LogInv.mount_fresh {db : MetaDb} (hfk : db.ForeignKey) {s : LoggedBinds}
    (hinv : LogInv db s) {path : CString} (hlen : path.length < maxPath)
    (hslot : bindSlotOf s.binds.mounts path = none)
    (hempty : ∀ x, InTree '/' (bindSaved path) x → s.binds.db.paths x = none)
    (mode : ℕ) {t : BindTable} (ht : t.Routed)
    (hmem : ∀ q, t.HasPath q ↔ q = path ∨ s.binds.mounts.HasPath q) :
    LogInv db ⟨⟨t, bindMetaTop (bindMetaStash s.binds.db path) path mode⟩, path :: s.log⟩ := by
  have hs := stashName_bindSaved hlen
  have hino : s.binds.db.pathGetInode (bindSaved path) = 0 := by
    simp [MetaDb.pathGetInode, hempty _ inTree_self]
  have hpaths : (bindMetaStash s.binds.db path).paths.get =
      moveTree '/' path (bindSaved path) s.binds.db.paths.get := by
    simp [bindMetaStash, hino, MetaDb.pathRename]
  have hrow : (bindMetaStash s.binds.db path).paths path = none := by
    rw [hpaths]
    rcases moveTree_inside hs inTree_self with hnone | ⟨heq, hval⟩
    · exact hnone
    · rw [hval]
      exact hempty path (by rw [heq]; exact inTree_self)
  have hstats := bindMetaStash_stats s.binds.db path
  refine ⟨ht, ?_, ?_, ?_, ?_, ?_⟩
  · intro q
    rw [List.mem_cons, hmem q, hinv.mem q]
  · refine List.nodup_cons.2 ⟨fun h => ?_, hinv.nodup⟩
    exact not_hasPath hslot ((hinv.mem path).1 h)
  · intro q hq
    rcases List.mem_cons.1 hq with rfl | hq
    · exact hlen
    · exact hinv.length q hq
  · rw [bindMetaTop_set _ _ _ hrow, FinMap.set_get, hpaths, hstats]
    exact hinv.settles.mount hlen hempty (hinv.nextKey hfk)
  · rintro n ⟨y, hy⟩
    refine (bindMetaTop_stats _ _ _ (by simp [hrow]) ?_).trans ?_
    · rw [hstats]
      rintro rfl
      exact hinv.nextKey hfk y hy
    · rw [hstats]
      exact hinv.stats n ⟨y, hy⟩

/-- Every call that is in order keeps the invariant. -/
theorem LogInv.step {db : MetaDb} (hfk : db.ForeignKey) {s : LoggedBinds} {c : BindCall}
    (hinv : LogInv db s) (hok : c.Succeeds s.binds) (hord : c.InOrder s) :
    LogInv db (loggedStep s c) := by
  have hrouted := routed_bindStep hinv.routed hok
  cases c with
  | mount h linuxPath hostPath readOnly =>
    obtain ⟨path, isFile, slot, changed, hpath, hslot, -, heq⟩ := fakefsBindMount_ok hok
    have hord := hord path hpath
    obtain ⟨-, -, hlen⟩ := bindMountNormalize_spec (by decide) hpath
    have hmake : ∀ host, (BindMount.make path host readOnly).path = path := fun host =>
      List.take_of_length_le (by
        have hmax : maxPath = pathMax := rfl
        omega)
    have hmem := hasPath_mount hslot (m := BindMount.make path
      ((h.realpath hostPath).getD hostPath) readOnly) rfl (hmake _)
    simp only [loggedStep, bindStep, bindCall, heq, bindLog, hpath] at hrouted ⊢
    cases hslot with
    | again hs =>
      simp only [hs] at hord
      rw [hs, Option.isSome_some, if_pos rfl]
      exact hinv.mount_again hfk hs hord.1 hord.2 _ hrouted hmem
    | fresh hs hfree =>
      simp only [hs] at hord
      simp only [hs, Option.isSome_none, Bool.false_eq_true, if_false, if_true]
      exact hinv.mount_fresh hfk hlen hs hord _ hrouted hmem
  | unmount linuxPath =>
    obtain ⟨path, slot, hpath, hslot, heq⟩ := fakefsBindUnmount_ok hok
    have hord := hord path hpath
    have hmem : path ∈ s.log := (hinv.mem path).2 (hasPath_of_slot hslot)
    obtain ⟨log', hlog⟩ := eq_later_append hmem
    have hnotin : path ∉ later s.log path := fun h => by
      have := List.mem_takeWhile_imp h
      simp at this
    have herase : s.log.erase path = later s.log path ++ log' := by
      conv_lhs => rw [hlog]
      rw [List.erase_append_right _ hnotin, List.erase_cons_head]
    simp only [loggedStep, bindStep, bindCall, heq, bindLog, hpath] at hrouted ⊢
    refine ⟨hrouted, ?_, hinv.nodup.erase path, ?_, ?_, hinv.stats⟩
    · intro q
      rw [hinv.nodup.mem_erase_iff, hinv.mem q]
      exact (hasPath_unmount hinv.routed hslot q).symm
    · exact fun q hq => hinv.length q (List.mem_of_mem_erase hq)
    · have hset := hinv.settles
      have hlen := hinv.length
      rw [hlog] at hset hlen
      rw [herase]
      exact hset.unmount hlen hnotin hord

lemma logInv_start (db : MetaDb) : LogInv db ⟨Binds.start db, []⟩ where
  routed := routed_unused
  mem p := by
    constructor
    · intro h
      cases h
    · rintro ⟨i, hi, -⟩
      cases hi
  nodup := List.nodup_nil
  length _ h := by cases h
  settles := rfl
  stats _ _ := rfl

lemma run_loggedStep (s : LoggedBinds) (calls : List BindCall) :
    (run loggedStep s calls).binds = run bindStep s.binds calls := by
  induction calls generalizing s with
  | nil => rfl
  | cons c calls ih => exact ih (loggedStep s c)

/-- Once no bind mount is active, the rows are those from before the first one. -/
theorem bindMounts_reversible {db : MetaDb} (hfk : db.ForeignKey) {calls : List BindCall}
    (hcalls : RunAll loggedStep (fun s c => c.Succeeds s.binds ∧ c.InOrder s)
      ⟨Binds.start db, []⟩ calls)
    (hend : ∀ i, ((run bindStep (Binds.start db) calls).mounts i).active = false) :
    (run bindStep (Binds.start db) calls).db.paths = db.paths ∧
      ∀ path, (run bindStep (Binds.start db) calls).db.pathReadStat path =
        db.pathReadStat path := by
  have hinv : LogInv db (run loggedStep ⟨Binds.start db, []⟩ calls) :=
    run_invariant (fun _ _ hc hs => hs.step hfk hc.1 hc.2) hcalls (logInv_start db)
  have hrun := run_loggedStep ⟨Binds.start db, []⟩ calls
  have hlog : (run loggedStep ⟨Binds.start db, []⟩ calls).log = [] := by
    rw [List.eq_nil_iff_forall_not_mem]
    intro p hp
    obtain ⟨i, hi, -⟩ := (hinv.mem p).1 hp
    rw [hrun] at hi
    exact absurd hi (by simp [hend i])
  have hset := hinv.settles
  have hstats := hinv.stats
  rw [hlog, hrun] at hset
  rw [hrun] at hstats
  have hpaths : (run bindStep (Binds.start db) calls).db.paths = db.paths :=
    FinMap.ext fun k => congrFun hset k
  refine ⟨hpaths, fun path => ?_⟩
  unfold MetaDb.pathReadStat
  rw [hpaths]
  cases hrow : db.paths path with
  | none => rfl
  | some n =>
    simp only [Option.bind_eq_bind, Option.bind_some]
    rw [hstats n ⟨path, hrow⟩]

section Example

/-- A directory `/a` with a file `/a/b` in it. -/
def twoRows : MetaDb where
  paths := (FinMap.empty.set ['/', 'a'] 1).set ['/', 'a', '/', 'b'] 2
  stats := (FinMap.empty.set 1 ⟨0o40755, 0, 0, 0⟩).set 2 ⟨0o100600, 0, 0, 0⟩

lemma twoRows_paths {path : CString} {n : ℕ} (h : twoRows.paths path = some n) :
    path = ['/', 'a', '/', 'b'] ∧ n = 2 ∨ path = ['/', 'a'] ∧ n = 1 := by
  simp only [twoRows, FinMap.set_get] at h
  by_cases hb : path = ['/', 'a', '/', 'b']
  · exact Or.inl ⟨hb, by simpa [hb] using h.symm⟩
  · by_cases ha : path = ['/', 'a']
    · refine Or.inr ⟨ha, ?_⟩
      subst ha
      simpa using h.symm
    · simp [hb, ha] at h

lemma foreignKey_twoRows : twoRows.ForeignKey := by
  intro path n h
  rcases twoRows_paths h with ⟨-, rfl⟩ | ⟨-, rfl⟩
  · rfl
  · rfl

/-- The directory is bound and unbound. -/
theorem bindMounts_reversible_once :
    let calls : List BindCall := [.mount .willing ['/', 'a'] ['/', 'h'] true, .unmount ['/', 'a']]
    (run bindStep (Binds.start twoRows) calls).db.pathReadStat ['/', 'a', '/', 'b'] =
      twoRows.pathReadStat ['/', 'a', '/', 'b'] := by
  intro calls
  have hcalls : RunAll loggedStep (fun s c => c.Succeeds s.binds ∧ c.InOrder s)
      ⟨Binds.start twoRows, []⟩ calls := by
    refine ⟨⟨rfl, ?_⟩, ⟨rfl, ?_⟩, trivial⟩
    · intro path hpath
      obtain rfl : ['/', 'a'] = path := Option.some.inj hpath
      intro x hx
      cases hrow : twoRows.paths x with
      | none => exact hrow
      | some n =>
        rcases twoRows_paths hrow with ⟨rfl, -⟩ | ⟨rfl, -⟩ <;> exact absurd hx (by decide)
    · intro path hpath q hq
      obtain rfl : ['/', 'a'] = path := Option.some.inj hpath
      cases hq
  exact (bindMounts_reversible foreignKey_twoRows hcalls (by decide)).2 _

/-- The mount that was made first is taken off first, and the row of `/a/b` is lost. -/
theorem bindMounts_outOfOrder : ¬ ∀ (db : MetaDb) (calls : List BindCall), db.ForeignKey →
    RunAll bindStep (fun b c => c.Succeeds b) (Binds.start db) calls →
    (∀ i, ((run bindStep (Binds.start db) calls).mounts i).active = false) →
    ∀ path, (run bindStep (Binds.start db) calls).db.pathReadStat path = db.pathReadStat path := by
  intro h
  have hlost := h twoRows [.mount .willing ['/', 'a'] ['/', 'h'] false,
    .mount .willing ['/', 'a', '/', 'b'] ['/', 'k'] false, .unmount ['/', 'a'],
    .unmount ['/', 'a', '/', 'b']] foreignKey_twoRows ⟨rfl, rfl, rfl, rfl, trivial⟩ (by decide)
    ['/', 'a', '/', 'b']
  cases hlost

end Example

end ShellBox
