import ShellBox.Kernel.Memory.Fault
import ShellBox.Logic.RefCount

/-!
# The elementary steps of the memory operations

Every operation on page tables is a sequence of elementary steps: an object is allocated,
an entry is removed together with its reference, an entry is added together with a new
reference, the flags of an entry change, the anonymous count changes, or something that is
neither an entry nor an object changes. What holds across whole operations is proved once
for each kind of step.

A sequence is indexed by what it may do (`Scope`), and by an integer: the change of the
anonymous count less the change of the number of anonymous entries.
-/

namespace ShellBox

open Function World

/-! ### Entries that name the same host memory -/

def PtEntry.Overlaps (e e' : PtEntry) : Prop :=
  e.data = e'.data ∧ e.offset < e'.offset + pageSize ∧ e'.offset < e.offset + pageSize

lemma PtEntry.Overlaps.symm {e e' : PtEntry} (h : e.Overlaps e') : e'.Overlaps e :=
  ⟨h.1.symm, h.2.2, h.2.1⟩

/-- Two entries share their host page lawfully: both await a copy, or both are shared. -/
def PtEntry.SharesWith (e e' : PtEntry) : Prop :=
  e.offset = e'.offset ∧
    ((e.flags.cow ∧ e'.flags.cow) ∨ (e.flags.shared ∧ e'.flags.shared))

lemma PtEntry.SharesWith.symm {e e' : PtEntry} (h : e.SharesWith e') : e'.SharesWith e :=
  ⟨h.1.symm, h.2.imp And.symm And.symm⟩

def PtEntry.Pinned (e : PtEntry) : Prop := e.flags.shared = true ∧ e.flags.cow = false

def Flags.anonCount (f : Flags) : ℤ := if f.anonymous then 1 else 0

/-! ### Elementary steps -/

/-- What an operation may do: the slots whose mapping it may replace although they are pinned,
the address spaces that may receive a second reference to a host page, and whether shared
pages may be marked for a copy, as they are for the debugger only. -/
structure Scope where
  replace : Set (ℕ × ℕ)
  into : Set ℕ
  debug : Prop

inductive Micro (S : Scope) : ℤ → World → World → Prop
  | frame {w w' : World} (hslot : w'.slot = w.slot) (hdata : w'.data = w.data)
      (hnext : w'.nextData = w.nextData) (hfreed : w'.freed = w.freed)
      (hanon : w'.anonPageCount = w.anonPageCount) : Micro S 0 w w'
  | count (w : World) (n : ℤ) : Micro S n w (w.addAnon n)
  | alloc (w : World) (bytes : ℕ → UInt8) : Micro S 0 w (w.allocData bytes)
  | unlink (w : World) (s page : ℕ) (e : PtEntry) (he : w.slot (s, ptIndex page) = some e)
      (hT : (s, ptIndex page) ∈ S.replace ∨ ¬ e.Pinned) :
      Micro S e.flags.anonCount w ((w.memPtDel s page).unrefData e.data)
  | link (w : World) (s page : ℕ) (e : PtEntry) (hempty : w.slot (s, ptIndex page) = none)
      (hlive : (w.data e.data).isSome)
      (hsep : ∀ k e', w.slot k = some e' → e.Overlaps e' →
        s ∈ S.into ∧ k.2 = ptIndex page ∧ e.SharesWith e')
      (hmark : e.flags.IsMapFlags ∨ S.debug) :
      Micro S (-e.flags.anonCount) w ((w.refData e.data).memPtNew s page e)
  | flags (w : World) (s page : ℕ) (e : PtEntry) (f : Flags)
      (he : w.slot (s, ptIndex page) = some e) (hshared : f.shared = e.flags.shared)
      (hanon : f.anonymous = e.flags.anonymous) (hcow : e.flags.cow → f.cow)
      (hT : e.Pinned → f.cow → (s, ptIndex page) ∈ S.replace ∧ S.debug) :
      Micro S 0 w (w.setFlags s page f)

inductive Steps (S : Scope) : ℤ → World → World → Prop
  | refl (w : World) : Steps S 0 w w
  | tail {n m : ℤ} {w w' w'' : World} (hs : Steps S n w w') (hm : Micro S m w' w'') :
      Steps S (n + m) w w''

namespace Steps

variable {S : Scope} {n m : ℤ} {w w' w'' : World}

lemma single (h : Micro S n w w') : Steps S n w w' := by
  simpa using (refl w).tail h

lemma trans (h : Steps S n w w') (h' : Steps S m w' w'') : Steps S (n + m) w w'' := by
  induction h' with
  | refl => simpa using h
  | tail hs hm ih => simpa [add_assoc] using (ih h).tail hm

lemma cast {n' : ℤ} (h : Steps S n w w') (hn : n = n') : Steps S n' w w' := hn ▸ h

lemma trans₀ (h : Steps S 0 w w') (h' : Steps S n w' w'') : Steps S n w w'' :=
  (h.trans h').cast (zero_add n)

end Steps

/-! ### Reference counts -/

def World.refStore (w : World) : RefStore (ℕ × ℕ) DataId where
  owner := fun k => (w.slot k).map (·.data)
  count := fun d => (w.data d).map (·.refcount)
  freed := w.freed

/-- Every reference count is the number of entries that refer to the object. -/
def World.Balanced (w : World) : Prop := w.refStore.Balanced

lemma World.Balanced.live {w : World} (h : w.Balanced) {k : ℕ × ℕ} {e : PtEntry}
    (he : w.slot k = some e) : (w.data e.data).isSome := by
  have := RefStore.Balanced.live h k e.data (by simp [refStore, he])
  simpa [refStore] using this

lemma World.Balanced.lt_nextData {w : World} (h : w.Balanced) {k : ℕ × ℕ} {e : PtEntry}
    (he : w.slot k = some e) : e.data < w.nextData := by
  by_contra hge
  have hlive := h.live he
  rw [(w.fresh e.data (Nat.le_of_not_lt hge)).1] at hlive
  simp at hlive

lemma World.Balanced.finite {w : World} (h : w.Balanced) : FiniteSlots w.slot :=
  (RefStore.Balanced.finite h).subset fun k hk => by simpa [refStore] using hk

lemma World.balanced_init : World.init.Balanced where
  finite := finiteSlots_empty
  count_eq d n h := by simp [refStore, init] at h
  live k d h := by simp [refStore, init, slot, Mem.init] at h
  nodup := List.nodup_nil
  dead d h := by simp [refStore, init] at h

private lemma refStore_update {w w' : World} {k : ℕ × ℕ} {v : Option PtEntry} {d : DataId}
    {x : Option Data} (hslot : w'.slot = update w.slot k v) (hdata : w'.data = update w.data d x) :
    w'.refStore = ⟨update w.refStore.owner k (v.map (·.data)),
      update w.refStore.count d (x.map (·.refcount)), w'.freed⟩ := by
  simp only [refStore, hslot, hdata, map_update]

private lemma refStep_unlink {w : World} {s page : ℕ} {e : PtEntry}
    (he : w.slot (s, ptIndex page) = some e) {x : Data} (hx : w.data e.data = some x) :
    RefStore.Step w.refStore ((w.memPtDel s page).unrefData e.data).refStore := by
  have howner : w.refStore.owner (s, ptIndex page) = some e.data := by simp [refStore, he]
  have hcount : w.refStore.count e.data = some x.refcount := by simp [refStore, hx]
  have hlive : ((w.memPtDel s page).data e.data).isSome := by simp [hx]
  have hslot : ((w.memPtDel s page).unrefData e.data).slot =
      update w.slot (s, ptIndex page) none := by simp
  by_cases hone : x.refcount = 1
  · have heq : (w.memPtDel s page).unrefData e.data = (w.memPtDel s page).freeData e.data hlive := by
      simp [unrefData, hx, hone]
    rw [refStore_update (x := none) hslot (by rw [heq]; rfl), heq]
    exact RefStore.Step.release _ _ howner (hone ▸ hcount)
  · have heq : (w.memPtDel s page).unrefData e.data = (w.memPtDel s page).modifyData e.data
        fun x => { x with refcount := x.refcount - 1 } := by
      simp [unrefData, hx, hone]
    rw [refStore_update hslot (by rw [heq, modifyData_data, memPtDel_data, hx]), heq]
    exact RefStore.Step.unlink _ _ _ howner hcount hone

private lemma refStep_link {w : World} {s page : ℕ} {e : PtEntry}
    (hempty : w.slot (s, ptIndex page) = none) {x : Data} (hx : w.data e.data = some x) :
    RefStore.Step w.refStore ((w.refData e.data).memPtNew s page e).refStore := by
  have howner : w.refStore.owner (s, ptIndex page) = none := by simp [refStore, hempty]
  have hcount : w.refStore.count e.data = some x.refcount := by simp [refStore, hx]
  have hslot : ((w.refData e.data).memPtNew s page e).slot =
      update w.slot (s, ptIndex page) (some e) := by simp
  have hdata : ((w.refData e.data).memPtNew s page e).data =
      update w.data e.data (some { x with refcount := x.refcount + 1 }) := by
    rw [memPtNew_data, refData, modifyData_data, hx, Option.map_some]
  rw [refStore_update hslot hdata]
  exact RefStore.Step.link _ _ _ howner hcount

lemma Micro.refStep {S : Scope} {n : ℤ} {w w' : World} (h : Micro S n w w')
    (hb : w.Balanced) :
    w'.refStore = w.refStore ∨ RefStore.Step w.refStore w'.refStore := by
  cases h with
  | frame hslot hdata _ hfreed _ => exact Or.inl (by simp only [refStore, hslot, hdata, hfreed])
  | count => exact Or.inl rfl
  | alloc _ bytes =>
    right
    obtain ⟨hnone, hfreed⟩ := w.fresh w.nextData le_rfl
    have heq : (w.allocData bytes).refStore =
        { w.refStore with count := update w.refStore.count w.nextData (some 0) } := by
      have hdata : (w.allocData bytes).data =
          update w.data w.nextData (some { bytes, refcount := 0 }) := rfl
      simp only [refStore, allocData_slot, hdata, map_update, Option.map_some]
      rfl
    rw [heq]
    exact RefStore.Step.alloc _ (by simp [refStore, hnone]) hfreed
  | unlink _ s page e he hT =>
    obtain ⟨x, hx⟩ := Option.isSome_iff_exists.mp (hb.live he)
    exact Or.inr (refStep_unlink he hx)
  | link _ s page e hempty hlive hsep hmark =>
    obtain ⟨x, hx⟩ := Option.isSome_iff_exists.mp hlive
    exact Or.inr (refStep_link hempty hx)
  | flags _ s page e f he =>
    left
    have howner : (fun k => ((w.setFlags s page f).slot k).map (·.data)) = w.refStore.owner := by
      rw [setFlags_slot, map_update, he]
      exact update_eq_self_iff.mpr (by simp [he])
    simp only [refStore, howner]
    rfl

section RefCount

variable {S : Scope} {n : ℤ} {w w' : World}

lemma Micro.balanced (h : Micro S n w w') (hb : w.Balanced) : w'.Balanced := by
  rcases h.refStep hb with heq | hstep
  · rwa [World.Balanced, heq]
  · exact RefStore.Balanced.step hb hstep

theorem Steps.balanced (h : Steps S n w w') (hb : w.Balanced) : w'.Balanced := by
  induction h with
  | refl => exact hb
  | tail hs hm ih => exact hm.balanced (ih hb)

theorem Steps.touched (h : Steps S n w w') (hb : w.Balanced) {d : DataId}
    (ht : w.refStore.Touched d) : w'.refStore.Touched d := by
  induction h with
  | refl => exact ht
  | tail hs hm ih =>
    rcases hm.refStep (hs.balanced hb) with heq | hstep
    · exact heq ▸ ih hb ht
    · exact RefStore.Balanced.touched_step (hs.balanced hb) hstep (ih hb ht)

end RefCount

/-! ### The anonymous count -/

noncomputable def World.anonEntries (w : World) : ℕ := slotCount w.slot (·.flags.anonymous = true)

noncomputable def World.anonDrift (w : World) : ℤ := w.anonPageCount - w.anonEntries

lemma Micro.anonDrift {S : Scope} {n : ℤ} {w w' : World}
    (h : Micro S n w w') (hb : w.Balanced) : w'.anonDrift = w.anonDrift + n := by
  cases h with
  | frame hslot _ _ _ hanon => simp [World.anonDrift, anonEntries, hslot, hanon]
  | count => simp only [World.anonDrift, anonEntries, addAnon_anon, addAnon_slot]; ring
  | alloc _ bytes => simp [World.anonDrift, anonEntries]
  | unlink _ s page e he hT =>
    have hcount := slotCount_clear hb.finite (P := (·.flags.anonymous = true)) he
    simp only [World.anonDrift, anonEntries, unrefData_slot, unrefData_anon, memPtDel_slot,
      memPtDel_anon, Flags.anonCount, ← hcount]
    split_ifs <;> push_cast <;> ring
  | link _ s page e hempty hlive hsep hmark =>
    have hcount := slotCount_fill hb.finite (P := (·.flags.anonymous = true)) hempty e
    simp only [World.anonDrift, anonEntries, memPtNew_slot, memPtNew_anon, refData_slot,
      refData_anon, Flags.anonCount, hcount]
    split_ifs <;> push_cast <;> ring
  | flags _ s page e f he _ hanon =>
    have hcount := slotCount_congr (P := (·.flags.anonymous = true)) he
      (b := { e with flags := f }) (by simp [hanon])
    simp only [World.anonDrift, anonEntries, setFlags_slot, setFlags_anon, he, Option.map_some,
      hcount, add_zero]

theorem Steps.anonDrift {S : Scope} {n : ℤ} {w w' : World}
    (h : Steps S n w w') (hb : w.Balanced) : w'.anonDrift = w.anonDrift + n := by
  induction h with
  | refl => simp
  | tail hs hm ih => rw [hm.anonDrift (hs.balanced hb), ih hb, add_assoc]

/-! ### Sharing of host pages -/

/-- Entries with host memory in common are entries of the same page, and share it lawfully. -/
def World.Lawful (w : World) : Prop :=
  ∀ k k' e e', k ≠ k' → w.slot k = some e → w.slot k' = some e' → e.Overlaps e' →
    k.2 = k'.2 ∧ e.SharesWith e'

def World.SharedLink (w : World) (k k' : ℕ × ℕ) : Prop :=
  ∃ e e', w.slot k = some e ∧ w.slot k' = some e' ∧ e.Overlaps e' ∧ e.flags.shared = true ∧
    e'.flags.shared = true

lemma World.lawful_init : World.init.Lawful := by
  intro k k' e e' hne he
  simp [init, slot, Mem.init] at he

lemma Micro.slot_cases {S : Scope} {n : ℤ} {w w' : World}
    (h : Micro S n w w') {k : ℕ × ℕ} {e : PtEntry} (he : w'.slot k = some e) :
    (∃ e₀, w.slot k = some e₀ ∧ e.data = e₀.data ∧ e.offset = e₀.offset ∧
      e.flags.shared = e₀.flags.shared ∧ (e₀.flags.cow = true → e.flags.cow = true)) ∨
    (w.slot k = none ∧ (∀ k', k' ≠ k → w'.slot k' = w.slot k') ∧
      ∀ k' e', w.slot k' = some e' → e.Overlaps e' → k.1 ∈ S.into ∧ k'.2 = k.2 ∧ e.SharesWith e') := by
  cases h with
  | frame hslot => exact Or.inl ⟨e, hslot ▸ he, rfl, rfl, rfl, id⟩
  | count => exact Or.inl ⟨e, he, rfl, rfl, rfl, id⟩
  | alloc _ bytes => exact Or.inl ⟨e, he, rfl, rfl, rfl, id⟩
  | unlink _ s page e₁ he₁ hT =>
    rw [unrefData_slot, memPtDel_slot] at he
    by_cases hk : k = (s, ptIndex page)
    · simp [hk] at he
    · rw [update_of_ne hk] at he
      exact Or.inl ⟨e, he, rfl, rfl, rfl, id⟩
  | link _ s page e₁ hempty hlive hsep hmark =>
    rw [memPtNew_slot, refData_slot] at he
    by_cases hk : k = (s, ptIndex page)
    · subst hk
      rw [update_self, Option.some.injEq] at he
      subst he
      exact Or.inr ⟨hempty, fun k' hk' => by simp [hk'], hsep⟩
    · rw [update_of_ne hk] at he
      exact Or.inl ⟨e, he, rfl, rfl, rfl, id⟩
  | flags _ s page e₁ f he₁ hshared hanon hcow hT =>
    rw [setFlags_slot] at he
    by_cases hk : k = (s, ptIndex page)
    · subst hk
      rw [update_self, he₁, Option.map_some, Option.some.injEq] at he
      subst he
      exact Or.inl ⟨e₁, he₁, rfl, rfl, hshared, hcow⟩
    · rw [update_of_ne hk] at he
      exact Or.inl ⟨e, he, rfl, rfl, rfl, id⟩

section Sharing

variable {S : Scope} {n : ℤ} {w w' : World}

lemma PtEntry.Overlaps.congr {e e' e₀ e₀' : PtEntry} (h : e.Overlaps e') (hd : e.data = e₀.data)
    (ho : e.offset = e₀.offset) (hd' : e'.data = e₀'.data) (ho' : e'.offset = e₀'.offset) :
    e₀.Overlaps e₀' := by
  simpa only [Overlaps, hd, ho, hd', ho'] using h

lemma PtEntry.SharesWith.congr {e e' e₀ e₀' : PtEntry} (h : e₀.SharesWith e₀')
    (ho : e.offset = e₀.offset) (ho' : e'.offset = e₀'.offset)
    (hs : e.flags.shared = e₀.flags.shared) (hs' : e'.flags.shared = e₀'.flags.shared)
    (hc : e₀.flags.cow = true → e.flags.cow = true)
    (hc' : e₀'.flags.cow = true → e'.flags.cow = true) : e.SharesWith e' := by
  refine ⟨ho.trans (h.1.trans ho'.symm), h.2.imp (fun ⟨a, b⟩ => ⟨hc a, hc' b⟩) ?_⟩
  rintro ⟨a, b⟩
  exact ⟨hs.trans a, hs'.trans b⟩

lemma Micro.lawful (h : Micro S n w w') (hl : w.Lawful) : w'.Lawful := by
  intro k k' e e' hne he he' hover
  rcases h.slot_cases he with ⟨e₀, he₀, hd, ho, hs, hc⟩ | ⟨-, hframe, hsep⟩
  · rcases h.slot_cases he' with ⟨e₀', he₀', hd', ho', hs', hc'⟩ | ⟨-, hframe', hsep'⟩
    · obtain ⟨hidx, hshare⟩ := hl k k' e₀ e₀' hne he₀ he₀' (hover.congr hd ho hd' ho')
      exact ⟨hidx, hshare.congr ho ho' hs hs' hc hc'⟩
    · obtain ⟨-, hidx, hshare⟩ := hsep' k e (by rw [← hframe' k hne, he]) hover.symm
      exact ⟨hidx, hshare.symm⟩
  · obtain ⟨-, hidx, hshare⟩ := hsep k' e' (by rw [← hframe k' (Ne.symm hne), he']) hover
    exact ⟨hidx.symm, hshare⟩

theorem Steps.lawful (h : Steps S n w w') (hl : w.Lawful) : w'.Lawful := by
  induction h with
  | refl => exact hl
  | tail hs hm ih => exact hm.lawful (ih hl)

/-- Slots of address spaces that receive no second references do not begin to share. -/
theorem Steps.sharedLink (h : Steps S n w w') {k k' : ℕ × ℕ} (hne : k ≠ k') (hk : k.1 ∉ S.into)
    (hk' : k'.1 ∉ S.into) (hlink : w'.SharedLink k k') : w.SharedLink k k' := by
  induction h with
  | refl => exact hlink
  | tail hs hm ih =>
    obtain ⟨e, e', he, he', hover, hsh, hsh'⟩ := hlink
    refine ih ?_
    rcases hm.slot_cases he with ⟨e₀, he₀, hd, ho, hs, -⟩ | ⟨-, hframe, hsep⟩
    · rcases hm.slot_cases he' with ⟨e₀', he₀', hd', ho', hs', -⟩ | ⟨-, hframe', hsep'⟩
      · exact ⟨e₀, e₀', he₀, he₀', hover.congr hd ho hd' ho', hs ▸ hsh, hs' ▸ hsh'⟩
      · exact absurd (hsep' k e (by rw [← hframe' k hne, he]) hover.symm).1 hk'
    · exact absurd (hsep k' e' (by rw [← hframe k' (Ne.symm hne), he']) hover).1 hk

/-- A pinned slot keeps its host page unless it may be replaced. -/
theorem Steps.pinned (h : Steps S n w w') {k : ℕ × ℕ} (hk : k ∉ S.replace) {e : PtEntry}
    (he : w.slot k = some e) (hp : e.Pinned) :
    ∃ e', w'.slot k = some e' ∧ e'.data = e.data ∧ e'.offset = e.offset ∧ e'.Pinned := by
  induction h with
  | refl => exact ⟨e, he, rfl, rfl, hp⟩
  | tail hs hm ih =>
    obtain ⟨e₁, he₁, hd, ho, hp₁⟩ := ih he
    cases hm with
    | frame hslot => exact ⟨e₁, hslot ▸ he₁, hd, ho, hp₁⟩
    | count => exact ⟨e₁, he₁, hd, ho, hp₁⟩
    | alloc _ bytes => exact ⟨e₁, he₁, hd, ho, hp₁⟩
    | unlink _ s page e₂ he₂ hT =>
      have hks : k ≠ (s, ptIndex page) := by
        rintro rfl
        obtain rfl : e₁ = e₂ := Option.some.inj (he₁.symm.trans he₂)
        exact hT.elim hk fun hnp => hnp hp₁
      exact ⟨e₁, by simp [hks, he₁], hd, ho, hp₁⟩
    | link _ s page e₂ hempty hlive hsep hmark =>
      have hks : k ≠ (s, ptIndex page) := by
        rintro rfl
        simp [he₁] at hempty
      exact ⟨e₁, by simp [hks, he₁], hd, ho, hp₁⟩
    | flags _ s page e₂ f he₂ hshared hanon hcow hT =>
      by_cases hks : k = (s, ptIndex page)
      · subst hks
        obtain rfl : e₁ = e₂ := Option.some.inj (he₁.symm.trans he₂)
        refine ⟨{ e₁ with flags := f }, by simp [he₁], hd, ho, hshared.trans hp₁.1, ?_⟩
        exact Bool.eq_false_iff.mpr fun hf => hk (hT hp₁ hf).1
      · exact ⟨e₁, by simp [hks, he₁], hd, ho, hp₁⟩

end Sharing

def World.SharedPinned (w : World) : Prop := ∀ k e, w.slot k = some e → e.flags.IsMapFlags

lemma World.sharedPinned_init : World.init.SharedPinned := by
  intro k e he
  simp [init, slot, Mem.init] at he

/-- Only the debugger marks shared pages. -/
theorem Steps.sharedPinned {S : Scope} {n : ℤ} {w w' : World} (h : Steps S n w w')
    (hS : ¬ S.debug) (hw : w.SharedPinned) : w'.SharedPinned := by
  induction h with
  | refl => exact hw
  | tail hs hm ih =>
    intro k e he
    replace ih := ih hw
    cases hm with
    | frame hslot => exact ih k e (hslot ▸ he)
    | count => exact ih k e he
    | alloc _ bytes => exact ih k e he
    | unlink _ s page e₂ he₂ hT =>
      rw [unrefData_slot, memPtDel_slot] at he
      by_cases hk : k = (s, ptIndex page)
      · simp [hk] at he
      · exact ih k e (by rwa [update_of_ne hk] at he)
    | link _ s page e₂ hempty hlive hsep hmark =>
      rw [memPtNew_slot, refData_slot] at he
      by_cases hk : k = (s, ptIndex page)
      · subst hk
        rw [update_self, Option.some.injEq] at he
        exact he ▸ hmark.resolve_right hS
      · exact ih k e (by rwa [update_of_ne hk] at he)
    | flags _ s page e₂ f he₂ hshared hanon hcow hT =>
      rw [setFlags_slot] at he
      by_cases hk : k = (s, ptIndex page)
      · subst hk
        rw [update_self, he₂, Option.map_some, Option.some.injEq] at he
        subst he
        intro hsh
        have hp : e₂.Pinned := ⟨hshared ▸ hsh, ih _ e₂ he₂ (hshared ▸ hsh)⟩
        exact Bool.eq_false_iff.mpr fun hf => hS (hT hp hf).2
      · exact ih k e (by rwa [update_of_ne hk] at he)

/-! ### Contents -/

lemma unrefData_data_some {w : World} {d d' : DataId} {x : Data}
    (h : (w.unrefData d).data d' = some x) :
    ∃ x₀, w.data d' = some x₀ ∧ x.bytes = x₀.bytes := by
  unfold unrefData at h
  split_ifs at h with hsome hone
  · by_cases hd : d' = d
    · simp [hd, freeData] at h
    · exact ⟨x, by simpa [freeData, hd] using h, rfl⟩
  · by_cases hd : d' = d
    · subst hd
      rw [modifyData_data, update_self, Option.map_eq_some_iff] at h
      obtain ⟨x₀, hx₀, rfl⟩ := h
      exact ⟨x₀, hx₀, rfl⟩
    · exact ⟨x, by simpa [hd] using h, rfl⟩
  · exact ⟨x, h, rfl⟩

lemma Micro.bytes {S : Scope} {n : ℤ} {w w' : World} (h : Micro S n w w') :
    w.nextData ≤ w'.nextData ∧ ∀ d x, d < w.nextData → w'.data d = some x →
      ∃ x₀, w.data d = some x₀ ∧ x.bytes = x₀.bytes := by
  cases h with
  | frame _ hdata hnext => exact ⟨hnext.ge, fun d x _ hx => ⟨x, hdata ▸ hx, rfl⟩⟩
  | count => exact ⟨le_rfl, fun d x _ hx => ⟨x, hx, rfl⟩⟩
  | alloc _ bytes =>
    refine ⟨Nat.le_succ _, fun d x hd hx => ⟨x, ?_, rfl⟩⟩
    simpa [allocData, Nat.ne_of_lt hd] using hx
  | unlink _ s page e he hT =>
    refine ⟨?_, fun d x hd hx => ?_⟩
    · unfold unrefData; split_ifs <;> exact le_rfl
    · simpa using unrefData_data_some hx
  | link _ s page e hempty hlive hsep hmark =>
    refine ⟨le_rfl, fun d x hd hx => ?_⟩
    rw [memPtNew_data, refData, modifyData_data] at hx
    by_cases hde : d = e.data
    · subst hde
      rw [update_self, Option.map_eq_some_iff] at hx
      obtain ⟨x₀, hx₀, rfl⟩ := hx
      exact ⟨x₀, hx₀, rfl⟩
    · exact ⟨x, by simpa [hde] using hx, rfl⟩
  | flags _ s page e f => exact ⟨le_rfl, fun d x _ hx => ⟨x, hx, rfl⟩⟩

theorem Steps.bytes {S : Scope} {n : ℤ} {w w' : World} (h : Steps S n w w') :
    w.nextData ≤ w'.nextData ∧ ∀ d x, d < w.nextData → w'.data d = some x →
      ∃ x₀, w.data d = some x₀ ∧ x.bytes = x₀.bytes := by
  induction h with
  | refl => exact ⟨le_rfl, fun d x _ hx => ⟨x, hx, rfl⟩⟩
  | tail hs hm ih =>
    refine ⟨ih.1.trans hm.bytes.1, fun d x hd hx => ?_⟩
    obtain ⟨x₁, hx₁, heq₁⟩ := hm.bytes.2 d x (Nat.lt_of_lt_of_le hd ih.1) hx
    obtain ⟨x₀, hx₀, heq₀⟩ := ih.2 d x₁ hd hx₁
    exact ⟨x₀, hx₀, heq₁.trans heq₀⟩

end ShellBox
