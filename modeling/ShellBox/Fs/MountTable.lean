import ShellBox.Fs.PathNormal
import ShellBox.Logic.Loop

/-!
# The mount a path belongs to

The mounts are in one list, and `mount_find` takes the first one whose point the path goes on
behind. A new mount is put before the first one whose point is not longer than its own, so among
the mounts above a path the deepest comes first, and of two on one point the newer one.

What the list is for is said by stacks: each point has the mounts that are on it, the newest on
top, and a path belongs to the top of the deepest stack above it.
-/

namespace ShellBox

open Function

/-- `struct mount`; `id` tells the allocated structures apart. -/
structure Mount where
  id : ℕ
  point : CString
  refcount : BitVec 32
  deriving DecidableEq

/-- The list `mounts`, and how many mounts have been made. -/
structure MountTable where
  mounts : List Mount
  made : ℕ

/-- The test of `mount_find`. -/
def Mount.covers (m : Mount) (path : CString) : Bool :=
  path.take m.point.length = m.point ∧ endsName (path.drop m.point.length)

/-- The place that `do_mount` looks for. -/
def insertMount (new : Mount) : List Mount → List Mount
  | [] => [new]
  | m :: rest =>
    if m.point.length ≤ new.point.length then new :: m :: rest else m :: insertMount new rest

namespace MountTable

def init : MountTable := { mounts := [], made := 0 }

def count (id : ℕ) (f : BitVec 32 → BitVec 32) (t : MountTable) : MountTable :=
  { t with mounts := t.mounts.map fun m =>
      if m.id = id then { m with refcount := f m.refcount } else m }

end MountTable

/-- `mount_find`, with what it answers. When no mount covers the path the walk ends at the head of
the list, which is no mount. -/
def mountFind (path : CString) (t : MountTable) : MountTable × Option Mount :=
  match t.mounts.find? (·.covers path) with
  | none   => (t, none)
  | some m => (t.count m.id (· + 1), some m)

def findMountAndTrimPath (path : CString) (t : MountTable) :
    MountTable × Option (Mount × CString) :=
  match mountFind path t with
  | (t, none)   => (t, none)
  | (t, some m) => (t, some (m, path.drop m.point.length))

/-- `do_mount`; `err` is what the allocation and the filesystem's `mount` come to. -/
def doMount (err : ℤ) (point : CString) (t : MountTable) : MountTable × ℤ :=
  if err < 0 then (t, err)
  else
    ({ mounts := insertMount { id := t.made, point := point, refcount := 0 } t.mounts
       made := t.made + 1 }, 0)

def doUmount (point : CString) (t : MountTable) : MountTable × ℤ :=
  match t.mounts.find? (fun m => m.point = point) with
  | none   => (t, -22)
  | some m =>
    if m.refcount ≠ 0 then (t, -16)
    else ({ t with mounts := t.mounts.eraseP fun m => m.point = point }, 0)

inductive MountOp
  | mount (err : ℤ) (point : CString)
  | umount (point : CString)
  | find (path : CString)
  | retain (id : ℕ)
  | release (id : ℕ)

def MountOp.call (t : MountTable) : MountOp → MountTable × ℤ
  | mount err point => doMount err point t
  | umount point    => doUmount point t
  | find path       => ((mountFind path t).1, 0)
  | retain id       => (t.count id (· + 1), 0)
  | release id      => (t.count id (· - 1), 0)

def MountOp.OnPart : MountOp → Prop
  | mount _ point => ∃ names, (∀ c ∈ names, IsPart c) ∧ point = joinPath names
  | _ => True

/-! ### Stacks of mounts -/

structure MountStacks where
  stack : CString → List ℕ
  made : ℕ

namespace MountStacks

def init : MountStacks := { stack := fun _ => [], made := 0 }

def call (a : MountStacks) : MountOp → MountStacks
  | .mount _ point =>
    { stack := update a.stack point (a.made :: a.stack point), made := a.made + 1 }
  | .umount point  => { a with stack := update a.stack point (a.stack point).tail }
  | _ => a

/-- The mount on top of the deepest stack above a path, which is given by its names. -/
structure Owner (a : MountStacks) (names ns : List CString) (id : ℕ) : Prop where
  isPart : ∀ c ∈ ns, IsPart c
  top : (a.stack (joinPath ns)).head? = some id
  above : ns <+: names
  deepest : ∀ ms, (∀ c ∈ ms, IsPart c) → a.stack (joinPath ms) ≠ [] → ms <+: names →
    ms.length ≤ ns.length

lemma Owner.unique {a : MountStacks} {names ns ms : List CString} {id id' : ℕ}
    (h : a.Owner names ns id) (h' : a.Owner names ms id') : ns = ms ∧ id = id' := by
  have hns : a.stack (joinPath ns) ≠ [] := fun hnil => by simpa [hnil] using h.top
  have hms : a.stack (joinPath ms) ≠ [] := fun hnil => by simpa [hnil] using h'.top
  have hlen : ns.length = ms.length :=
    le_antisymm (h'.deepest ns h.isPart hns h.above) (h.deepest ms h'.isPart hms h'.above)
  obtain rfl : ns = ms :=
    (List.prefix_of_prefix_length_le h.above h'.above hlen.le).eq_of_length hlen
  exact ⟨rfl, Option.some.inj (h.top.symm.trans h'.top)⟩

end MountStacks

structure MountRun where
  table : MountTable
  spec : MountStacks

namespace MountRun

def init : MountRun := { table := .init, spec := .init }

def step (r : MountRun) (op : MountOp) : MountRun :=
  { table := (op.call r.table).1
    spec := if (op.call r.table).2 = 0 then r.spec.call op else r.spec }

structure Inv (r : MountRun) : Prop where
  made : r.table.made = r.spec.made
  stack : ∀ point, (r.table.mounts.filter fun m => m.point = point).map Mount.id =
    r.spec.stack point
  sorted : r.table.mounts.Pairwise fun m m' => m'.point.length ≤ m.point.length
  points : ∀ m ∈ r.table.mounts, ∃ names, (∀ c ∈ names, IsPart c) ∧ m.point = joinPath names

end MountRun

/-! ### What the calls do to the list -/

variable {new m : Mount} {l : List Mount} {point path : CString}

lemma mem_insertMount : m ∈ insertMount new l ↔ m = new ∨ m ∈ l := by
  induction l with
  | nil => simp [insertMount]
  | cons b l ih =>
    rw [insertMount]
    split_ifs
    · simp
    · simp only [List.mem_cons, ih]
      tauto

lemma sorted_insertMount (h : l.Pairwise fun m m' => m'.point.length ≤ m.point.length) :
    (insertMount new l).Pairwise fun m m' => m'.point.length ≤ m.point.length := by
  induction l with
  | nil => simp [insertMount]
  | cons b l ih =>
    obtain ⟨hb, hl⟩ := List.pairwise_cons.1 h
    rw [insertMount]
    split_ifs with hle
    · refine List.pairwise_cons.2 ⟨?_, h⟩
      intro m hm
      rcases List.mem_cons.1 hm with rfl | hm
      · exact hle
      · exact (hb m hm).trans hle
    · refine List.pairwise_cons.2 ⟨?_, ih hl⟩
      intro m hm
      rcases mem_insertMount.1 hm with rfl | hm
      · exact (not_le.1 hle).le
      · exact hb m hm

lemma filter_insertMount : (insertMount new l).filter (fun m => m.point = point) =
    if new.point = point then new :: l.filter (fun m => m.point = point)
    else l.filter fun m => m.point = point := by
  induction l with
  | nil => by_cases hp : new.point = point <;> simp [insertMount, hp]
  | cons b l ih =>
    rw [insertMount]
    split_ifs with hle hp hp
    · rw [List.filter_cons_of_pos (by simpa using hp)]
    · rw [List.filter_cons_of_neg (by simpa using hp)]
    · have hb : b.point ≠ point := by
        rintro rfl
        rw [hp] at hle
        exact hle (le_refl _)
      rw [List.filter_cons_of_neg (by simpa using hb), List.filter_cons_of_neg (by simpa using hb),
        ih, if_pos hp]
    · rw [List.filter_cons, List.filter_cons, ih, if_neg hp]

lemma filter_eraseP_point {point' : CString} :
    (l.eraseP fun m => m.point = point).filter (fun m => m.point = point') =
      if point' = point then (l.filter fun m => m.point = point').tail
      else l.filter fun m => m.point = point' := by
  induction l with
  | nil => simp
  | cons b l ih =>
    by_cases hb : b.point = point
    · rw [List.eraseP_cons_of_pos (by simpa using hb)]
      split_ifs with hp
      · rw [List.filter_cons_of_pos (by simp [hb, hp]), List.tail_cons]
      · rw [List.filter_cons_of_neg (by simp [hb, Ne.symm hp])]
    · rw [List.eraseP_cons_of_neg (by simpa using hb), List.filter_cons, ih, List.filter_cons]
      split_ifs with hp hp'
      · subst hp'
        exact absurd (of_decide_eq_true hp) hb
      · rfl
      · rfl
      · rfl

lemma MountTable.filter_count (t : MountTable) (id : ℕ) (f : BitVec 32 → BitVec 32) :
    ((t.count id f).mounts.filter fun m => m.point = point).map Mount.id =
      (t.mounts.filter fun m => m.point = point).map Mount.id := by
  rw [count, List.filter_map, List.map_map]
  have hpoint : ((fun m : Mount => decide (m.point = point)) ∘ fun m : Mount =>
      if m.id = id then { m with refcount := f m.refcount } else m) =
        fun m => decide (m.point = point) := by
    funext m
    simp only [Function.comp_apply]
    split_ifs <;> rfl
  rw [hpoint]
  refine List.map_congr_left fun m _ => ?_
  simp only [Function.comp_apply]
  split_ifs <;> rfl

lemma MountTable.mem_count {t : MountTable} {id : ℕ} {f : BitVec 32 → BitVec 32}
    (hm : m ∈ (t.count id f).mounts) : ∃ m' ∈ t.mounts, m.point = m'.point := by
  obtain ⟨m', hm', rfl⟩ := List.mem_map.1 hm
  refine ⟨m', hm', ?_⟩
  split_ifs <;> rfl

lemma MountTable.sorted_count {t : MountTable} (id : ℕ) (f : BitVec 32 → BitVec 32)
    (h : t.mounts.Pairwise fun m m' => m'.point.length ≤ m.point.length) :
    (t.count id f).mounts.Pairwise fun m m' => m'.point.length ≤ m.point.length := by
  refine List.pairwise_map.2 (h.imp fun {m m'} hle => ?_)
  split_ifs <;> exact hle

lemma doUmount_cases (point : CString) (t : MountTable) :
    (∃ err, err ≠ 0 ∧ doUmount point t = (t, err)) ∨
      doUmount point t = ({ t with mounts := t.mounts.eraseP fun m => m.point = point }, 0) := by
  unfold doUmount
  cases t.mounts.find? (fun m => m.point = point) with
  | none => exact Or.inl ⟨-22, by decide, rfl⟩
  | some m =>
    by_cases hbusy : m.refcount ≠ 0
    · exact Or.inl ⟨-16, by decide, if_pos hbusy⟩
    · exact Or.inr (if_neg hbusy)

namespace MountRun

variable {r : MountRun}

lemma Inv.init : init.Inv := by
  constructor <;> simp [MountRun.init, MountTable.init, MountStacks.init]

lemma Inv.count (h : r.Inv) (id : ℕ) (f : BitVec 32 → BitVec 32) :
    Inv { r with table := r.table.count id f } where
  made := h.made
  stack := by
    intro point
    rw [MountTable.filter_count]
    exact h.stack point
  sorted := MountTable.sorted_count id f h.sorted
  points := by
    intro m hm
    obtain ⟨m', hm', hpoint⟩ := MountTable.mem_count hm
    rw [hpoint]
    exact h.points m' hm'

lemma Inv.mount (h : r.Inv) {names : List CString} (hn : ∀ c ∈ names, IsPart c) (err : ℤ) :
    (r.step (.mount err (joinPath names))).Inv := by
  by_cases herr : err < 0
  · have hne : err ≠ 0 := herr.ne
    simpa [step, MountOp.call, doMount, herr, hne] using h
  · simp only [step, MountOp.call, doMount, if_neg herr, if_true]
    constructor
    · simp [MountStacks.call, h.made]
    · intro point
      rw [filter_insertMount]
      by_cases hp : joinPath names = point
      · subst hp
        simp [MountStacks.call, h.stack, h.made]
      · simp [MountStacks.call, hp, Ne.symm hp, h.stack]
    · exact sorted_insertMount h.sorted
    · intro m hm
      rcases mem_insertMount.1 hm with rfl | hm
      · exact ⟨names, hn, rfl⟩
      · exact h.points m hm

lemma Inv.umount (h : r.Inv) (point : CString) : (r.step (.umount point)).Inv := by
  rw [step, MountOp.call]
  rcases doUmount_cases point r.table with ⟨err, herr, hcall⟩ | hcall
  · simpa only [hcall, if_neg herr] using h
  · simp only [hcall, if_true]
    constructor
    · exact h.made
    · intro point'
      rw [filter_eraseP_point]
      by_cases hp : point' = point
      · subst hp
        simp [MountStacks.call, ← h.stack]
      · simp [MountStacks.call, hp, h.stack]
    · exact h.sorted.sublist List.eraseP_sublist
    · exact fun m hm => h.points m (List.eraseP_subset hm)

/-- The step lemma. -/
theorem Inv.step (h : r.Inv) {op : MountOp} (hop : op.OnPart) : (r.step op).Inv := by
  cases op with
  | mount err point =>
    obtain ⟨names, hn, rfl⟩ := hop
    exact h.mount hn err
  | umount point => exact h.umount point
  | find path =>
    have hfind : (mountFind path r.table).1 = r.table ∨
        ∃ m : Mount, (mountFind path r.table).1 = r.table.count m.id (· + 1) := by
      unfold mountFind
      cases r.table.mounts.find? (·.covers path) with
      | none => exact Or.inl rfl
      | some m => exact Or.inr ⟨m, rfl⟩
    simp only [MountRun.step, MountOp.call, MountStacks.call, ite_self]
    rcases hfind with heq | ⟨m, heq⟩
    · rw [heq]
      exact h
    · rw [heq]
      exact h.count m.id (· + 1)
  | retain id => exact h.count id (· + 1)
  | release id => exact h.count id (· - 1)

/-- The run lemma. -/
theorem inv_run {ops : List MountOp} (hops : ∀ op ∈ ops, op.OnPart) :
    (run step init ops).Inv := by
  suffices h : ∀ ops : List MountOp, (∀ op ∈ ops, op.OnPart) → ∀ r : MountRun, r.Inv →
      (run step r ops).Inv from h ops hops init Inv.init
  intro ops hops
  induction ops with
  | nil => exact fun r h => h
  | cons op ops ih =>
    intro r h
    exact ih (fun op' hop' => hops op' (by simp [hop'])) _ (h.step (hops op (by simp)))

end MountRun

/-! ### Lookups -/

lemma Mount.covers_iff {ns names : List CString} {tail : CString} (hm : m.point = joinPath ns)
    (hns : ∀ c ∈ ns, IsPart c) (hn : ∀ c ∈ names, IsPart c) (htail : tail = [] ∨ tail = ['/']) :
    m.covers (joinPath names ++ tail) = true ↔ ns <+: names := by
  rw [← joinPath_prefix_iff hns hn htail, covers, decide_eq_true_eq, hm]
  constructor
  · rintro ⟨htake, hends⟩
    exact ⟨_, (List.take_append_drop _ _).symm.trans (by rw [htake]), hends⟩
  · rintro ⟨rest, heq, hends⟩
    rw [heq]
    simpa using hends

namespace MountRun

variable {r : MountRun} {names : List CString} {tail : CString}

lemma Inv.owner_of_find (h : r.Inv) (hn : ∀ c ∈ names, IsPart c)
    (htail : tail = [] ∨ tail = ['/'])
    (hfind : r.table.mounts.find? (·.covers (joinPath names ++ tail)) = some m) :
    ∃ ns, m.point = joinPath ns ∧ r.spec.Owner names ns m.id := by
  obtain ⟨hcovers, xs, ys, hsplit, hxs⟩ := List.find?_eq_some_iff_append.1 hfind
  obtain ⟨ns, hns, hpoint⟩ := h.points m (by simp [hsplit])
  have hpre : ns <+: names := (Mount.covers_iff hpoint hns hn htail).1 hcovers
  refine ⟨ns, hpoint, hns, ?_, hpre, ?_⟩
  · -- a mount before it on the same point would have been found
    have hnone : xs.filter (fun m' => m'.point = joinPath ns) = [] := by
      refine List.filter_eq_nil_iff.2 fun m' hm' hp => ?_
      have hcov := (Mount.covers_iff (of_decide_eq_true hp) hns hn htail).2 hpre
      simpa [hcov] using hxs m' hm'
    rw [← h.stack, hsplit, List.filter_append, hnone, List.nil_append,
      List.filter_cons_of_pos (by simp [hpoint])]
    rfl
  · intro ms hms hstack hle
    obtain ⟨m', hm'⟩ : ∃ m' ∈ r.table.mounts, m'.point = joinPath ms := by
      rw [← h.stack] at hstack
      obtain ⟨id, hid⟩ := List.exists_mem_of_ne_nil _ hstack
      obtain ⟨m', hm', -⟩ := List.mem_map.1 hid
      exact ⟨m', (List.mem_filter.1 hm').1, of_decide_eq_true (List.mem_filter.1 hm').2⟩
    obtain ⟨hmem, hpoint'⟩ := hm'
    have hcov := (Mount.covers_iff hpoint' hms hn htail).2 hle
    have hafter : m'.point.length ≤ m.point.length := by
      have hsorted := h.sorted
      rw [hsplit] at hmem hsorted
      rcases List.mem_append.1 hmem with hx | hy
      · exact absurd hcov (by simpa using hxs m' hx)
      · rcases List.mem_cons.1 hy with rfl | hy
        · exact le_refl _
        · exact (List.pairwise_cons.1 (List.pairwise_append.1 hsorted).2.1).1 m' hy
    by_contra hlt
    obtain ⟨more, rfl⟩ := List.prefix_of_prefix_length_le hpre hle (not_le.1 hlt).le
    rw [hpoint, hpoint', joinPath_append, List.length_append] at hafter
    have hmore : joinPath more = [] := List.length_eq_zero_iff.1 (by omega)
    rw [joinPath_eq_nil.1 hmore, List.append_nil] at hlt
    exact hlt (le_refl _)

lemma Inv.find_of_owner (h : r.Inv) (hn : ∀ c ∈ names, IsPart c)
    (htail : tail = [] ∨ tail = ['/']) {ns : List CString} {id : ℕ}
    (howner : r.spec.Owner names ns id) :
    ∃ m, r.table.mounts.find? (·.covers (joinPath names ++ tail)) = some m ∧
      m.point = joinPath ns ∧ m.id = id := by
  have hsome : (r.table.mounts.find? (·.covers (joinPath names ++ tail))).isSome := by
    rw [List.find?_isSome]
    have htop := howner.top
    rw [← h.stack, List.head?_map] at htop
    obtain ⟨m, hm, -⟩ := Option.map_eq_some_iff.1 htop
    obtain ⟨hmem, hp⟩ := List.mem_filter.1 (List.mem_of_mem_head? hm)
    exact ⟨m, hmem, (Mount.covers_iff (of_decide_eq_true hp) howner.isPart hn htail).2
      howner.above⟩
  obtain ⟨m, hm⟩ := Option.isSome_iff_exists.1 hsome
  obtain ⟨ms, hpoint, howner'⟩ := h.owner_of_find hn htail hm
  obtain ⟨rfl, rfl⟩ := howner.unique howner'
  exact ⟨m, hm, hpoint, rfl⟩

end MountRun

/-- What `mount_find` and `find_mount_and_trim_path` answer about the path of some names. -/
structure LooksUp (t : MountTable) (a : MountStacks) (names : List CString) (tail : CString) :
    Prop where
  found : ∀ m, (mountFind (joinPath names ++ tail) t).2 = some m →
    ∃ ns, m.point = joinPath ns ∧ a.Owner names ns m.id
  finds : ∀ ns id, a.Owner names ns id →
    ∃ m, (mountFind (joinPath names ++ tail) t).2 = some m ∧ m.point = joinPath ns ∧ m.id = id
  root : a.stack [] ≠ [] → (mountFind (joinPath names ++ tail) t).2 ≠ none
  trims : ∀ m, (mountFind (joinPath names ++ tail) t).2 = some m →
    ∃ ns more, m.point = joinPath ns ∧ names = ns ++ more ∧
      (findMountAndTrimPath (joinPath names ++ tail) t).2 = some (m, joinPath more ++ tail)

namespace MountRun

lemma mountFind_snd (path : CString) (t : MountTable) :
    (mountFind path t).2 = t.mounts.find? (·.covers path) := by
  unfold mountFind
  cases t.mounts.find? (·.covers path) <;> rfl

lemma findMountAndTrimPath_snd (path : CString) (t : MountTable) :
    (findMountAndTrimPath path t).2 =
      (mountFind path t).2.map fun m => (m, path.drop m.point.length) := by
  unfold findMountAndTrimPath
  obtain ⟨t', _ | m⟩ := mountFind path t <;> rfl

variable {r : MountRun} {names : List CString} {tail : CString}

lemma Inv.find_of_root (h : r.Inv) (hn : ∀ c ∈ names, IsPart c)
    (htail : tail = [] ∨ tail = ['/']) (hroot : r.spec.stack [] ≠ []) :
    r.table.mounts.find? (·.covers (joinPath names ++ tail)) ≠ none := by
  rw [← h.stack] at hroot
  obtain ⟨id, hid⟩ := List.exists_mem_of_ne_nil _ hroot
  obtain ⟨m, hm, -⟩ := List.mem_map.1 hid
  obtain ⟨hmem, hp⟩ := List.mem_filter.1 hm
  intro hnone
  have hcov := (@Mount.covers_iff m [] names tail (of_decide_eq_true hp) (by simp) hn htail).2
    List.nil_prefix
  simpa [hcov] using List.find?_eq_none.1 hnone m hmem

/-- After all calls a path belongs to the mount on top of the deepest stack above it. -/
theorem mountFind_looksUp {ops : List MountOp} (hops : ∀ op ∈ ops, op.OnPart) {path : CString}
    (hpath : pathIsNormalized path = true) :
    ∃ names tail, path = joinPath names ++ tail ∧ (∀ c ∈ names, IsPart c) ∧
      (tail = [] ∨ tail = ['/']) ∧
      LooksUp (run step init ops).table (run step init ops).spec names tail := by
  obtain ⟨names, tail, hn, htail, rfl⟩ := pathIsNormalized_iff.1 hpath
  have h := inv_run hops
  refine ⟨names, tail, rfl, hn, htail, ?_⟩
  constructor
  · intro m hm
    rw [mountFind_snd] at hm
    exact h.owner_of_find hn htail hm
  · intro ns id howner
    rw [mountFind_snd]
    exact h.find_of_owner hn htail howner
  · intro hroot
    rw [mountFind_snd]
    exact h.find_of_root hn htail hroot
  · intro m hm
    rw [mountFind_snd] at hm
    obtain ⟨ns, hpoint, howner⟩ := h.owner_of_find hn htail hm
    obtain ⟨more, rfl⟩ := howner.above
    refine ⟨ns, more, hpoint, rfl, ?_⟩
    rw [findMountAndTrimPath_snd, mountFind_snd, hm]
    simp [hpoint]

/-- `/dev/pts` after the root, `/dev` and `/dev/pts` have been mounted, in another order. -/
theorem mountFind_looksUp_devpts :
    let ops : List MountOp := [.mount 0 [], .mount 0 "/dev/pts".toList, .mount 0 "/dev".toList]
    (∀ op ∈ ops, op.OnPart) ∧ pathIsNormalized "/dev/pts/0".toList = true ∧
    ∃ names tail, "/dev/pts/0".toList = joinPath names ++ tail ∧ (∀ c ∈ names, IsPart c) ∧
      (tail = [] ∨ tail = ['/']) ∧
      LooksUp (run step init ops).table (run step init ops).spec names tail := by
  have hops : ∀ op ∈ [MountOp.mount 0 [], .mount 0 "/dev/pts".toList, .mount 0 "/dev".toList],
      op.OnPart := by
    simp only [List.forall_mem_cons]
    exact ⟨⟨[], by simp, rfl⟩, ⟨["dev".toList, "pts".toList], by decide, rfl⟩,
      ⟨["dev".toList], by decide, rfl⟩, by simp⟩
  have hpath : pathIsNormalized "/dev/pts/0".toList = true :=
    pathIsNormalized_iff.2 ⟨["dev".toList, "pts".toList, "0".toList], [], by decide, Or.inl rfl, rfl⟩
  exact ⟨hops, hpath, mountFind_looksUp hops hpath⟩

end MountRun

end ShellBox
