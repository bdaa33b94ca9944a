import ShellBox.Fs.TmpfsHolders

/-!
# The shape of a tmpfs

The tree of a mounted tmpfs, whatever references its calls have lost: a lost reference keeps an
entry alive, so no entry goes while the file system is mounted. The children of a directory are
numbered in the order in which they have been made.

A lookup changes nothing but counts, and a new entry keeps the shape.
-/

namespace ShellBox

open Function

namespace TmpTree

def bare (s : TmpTree) (d : ℕ) : Option TmpDirent :=
  (s.dirent d).map fun r => { r with count := 0 }

structure SameTree (s t : TmpTree) : Prop where
  root : t.root = s.root
  bare : t.bare = s.bare
  dir : ∀ i, (t.inode i).map TmpInode.dir = (s.inode i).map TmpInode.dir
  fds : t.fds = s.fds
  nextDirent : t.nextDirent = s.nextDirent
  nextInode : t.nextInode = s.nextInode
  nextFd : t.nextFd = s.nextFd

structure Shape (s : TmpTree) : Prop where
  root : ∃ root, s.root = some root ∧ (s.bare root).isSome
  noParent : ∀ d r, s.bare d = some r → r.parent = none → s.root = some d
  parent : ∀ d r p, s.bare d = some r → r.parent = some p → p < d ∧ (s.bare p).isSome
  next : ∀ d r, s.bare d = some r → d < s.nextDirent
  inode : ∀ d r, s.bare d = some r → r.inode < s.nextInode ∧ (s.inode r.inode).isSome
  child : ∀ d r i c, s.bare d = some r → r.children[i]? = some c →
    ∃ rc, s.bare c = some rc ∧ rc.index = i
  nextIndex : ∀ d r, s.bare d = some r → r.nextIndex = r.children.length
  order : ∀ d r, s.bare d = some r → r.children.Pairwise (· < ·)
  fd : ∀ f ∈ s.fds, f.num < s.nextFd ∧ ∃ r, s.bare f.dirent = some r ∧
    ∀ d, f.pos = some d → d ∈ r.children
  nums : (s.fds.map TmpFd.num).Nodup

/-- Each entry has the references of the tree, of its children and of the descriptors, and `extra`
ones. -/
def Holds (s : TmpTree) (extra : ℕ → ℕ) : Prop :=
  ∀ d r, s.dirent d = some r → 1 + r.children.length + held s.fds d + extra d ≤ r.count

variable {s t : TmpTree} {extra : ℕ → ℕ} {d c p : ℕ} {r : TmpDirent} {name : TmpName}

lemma bare_eq (hd : s.dirent d = some r) : s.bare d = some { r with count := 0 } := by
  rw [bare, hd]
  rfl

lemma exists_of_bare {r' : TmpDirent} (hd : s.bare d = some r') :
    ∃ r, s.dirent d = some r ∧ r' = { r with count := 0 } := by
  obtain ⟨r, hr, rfl⟩ := Option.map_eq_some_iff.1 hd
  exact ⟨r, hr, rfl⟩

namespace SameTree

lemma refl (s : TmpTree) : s.SameTree s := ⟨rfl, rfl, fun _ => rfl, rfl, rfl, rfl, rfl⟩

lemma trans {u : TmpTree} (h : s.SameTree t) (h' : t.SameTree u) : s.SameTree u where
  root := h'.root.trans h.root
  bare := h'.bare.trans h.bare
  dir := fun i => (h'.dir i).trans (h.dir i)
  fds := h'.fds.trans h.fds
  nextDirent := h'.nextDirent.trans h.nextDirent
  nextInode := h'.nextInode.trans h.nextInode
  nextFd := h'.nextFd.trans h.nextFd

lemma setCount (hd : s.dirent d = some r) (n : ℕ) :
    s.SameTree (s.setDirent d (some { r with count := n })) := by
  refine ⟨rfl, ?_, fun _ => rfl, rfl, rfl, rfl, rfl⟩
  funext x
  by_cases hx : x = d
  · subst hx
    simp [TmpTree.bare, setDirent, hd]
  · simp [TmpTree.bare, setDirent, hx]

lemma bump (hd : s.dirent d = some r) : s.SameTree (s.bump d) := by
  rw [TmpTree.bump, hd]
  exact setCount hd _

lemma live (h : s.SameTree t) (hd : s.dirent d = some r) :
    ∃ r', t.dirent d = some r' ∧ r' = { r with count := r'.count } := by
  have hb := bare_eq hd
  rw [← h.bare] at hb
  obtain ⟨r', hr', heq⟩ := exists_of_bare hb
  refine ⟨r', hr', ?_⟩
  cases r
  cases r'
  simp only [TmpDirent.mk.injEq] at heq ⊢
  simp [heq]

end SameTree

lemma Shape.of_same (h : s.Shape) (hs : s.SameTree t) : t.Shape := by
  have hinode : ∀ i, (t.inode i).isSome = (s.inode i).isSome := by
    intro i
    have hi := congrArg Option.isSome (hs.dir i)
    simpa using hi
  constructor
  · simpa only [hs.root, hs.bare] using h.root
  · simpa only [hs.root, hs.bare] using h.noParent
  · simpa only [hs.bare] using h.parent
  · simpa only [hs.bare, hs.nextDirent] using h.next
  · simpa only [hs.bare, hs.nextInode, hinode] using h.inode
  · simpa only [hs.bare] using h.child
  · simpa only [hs.bare] using h.nextIndex
  · simpa only [hs.bare] using h.order
  · simpa only [hs.bare, hs.fds, hs.nextFd] using h.fd
  · simpa only [hs.fds] using h.nums

/-! ### References -/

namespace Holds

lemma mono {extra' : ℕ → ℕ} (h : s.Holds extra) (hle : ∀ d, extra' d ≤ extra d) :
    s.Holds extra' := by
  intro d r hd
  have hc := h d r hd
  have hl := hle d
  omega

lemma bump (h : s.Holds extra) (hd : s.dirent d = some r) :
    (s.bump d).Holds (extra + Pi.single d 1) := by
  intro x rx hx
  rw [dirent_bump] at hx
  obtain ⟨rx', hrx', rfl⟩ := Option.map_eq_some_iff.1 hx
  have hc := h x rx' hrx'
  show 1 + rx'.children.length + held s.fds x + (extra x + (Pi.single d 1 : ℕ → ℕ) x) ≤ _
  by_cases hxd : x = d
  · subst hxd
    simp only [Pi.single_eq_same, if_true]
    omega
  · simp only [Pi.single_eq_of_ne hxd, if_neg hxd]
    omega

lemma release (h : s.Holds (extra + Pi.single d 1)) (hd : s.dirent d = some r) :
    ∃ t, s.release d = some t ∧ s.SameTree t ∧ t.Holds extra := by
  have hc := h d r hd
  simp only [Pi.add_apply, Pi.single_eq_same] at hc
  refine ⟨_, release_of_ne hd (by omega), SameTree.setCount hd _, ?_⟩
  intro x rx hx
  by_cases hxd : x = d
  · subst hxd
    obtain rfl : { r with count := r.count - 1 } = rx := by simpa [setDirent] using hx
    show 1 + r.children.length + held s.fds x + extra x ≤ r.count - 1
    omega
  · have hcx := h x rx (by simpa [setDirent, hxd] using hx)
    simp only [Pi.add_apply, Pi.single_eq_of_ne hxd] at hcx
    exact hcx

end Holds

/-! ### Lookups -/

lemma findChild_some {l : List ℕ} {c : ℕ} (h : s.findChild name l = some (some c)) :
    c ∈ l ∧ ∃ r, s.dirent c = some r := by
  induction l with
  | nil => simp [findChild] at h
  | cons x l ih =>
    rw [findChild] at h
    cases hx : s.dirent x with
    | none => simp [hx] at h
    | some rx =>
      simp only [hx] at h
      split_ifs at h with hname
      · obtain rfl : x = c := by simpa using h
        exact ⟨by simp, rx, hx⟩
      · obtain ⟨hmem, hr⟩ := ih h
        exact ⟨by simp [hmem], hr⟩

lemma dirLookup_cases {res : Except ℤ ℕ} (h : s.dirLookup d name = some (t, res)) :
    (t = s ∧ ∃ e, res = .error e ∧ (e = tmpEnoent → s.isDir d = some true)) ∨
      ∃ c r, s.dirent c = some r ∧ t = s.bump c ∧ res = .ok c := by
  rw [dirLookup] at h
  cases hd : s.dirent d with
  | none => simp [hd] at h
  | some r =>
    cases hdir : s.isDir d with
    | none => simp [hd, hdir] at h
    | some dir =>
      simp only [hd, hdir, Option.bind_some] at h
      cases dir with
      | false =>
        obtain ⟨rfl, rfl⟩ : s = t ∧ Except.error tmpEnotdir = res := by simpa using h
        exact Or.inl ⟨rfl, _, rfl, fun he => absurd he (by decide)⟩
      | true =>
        rw [if_neg (by simp)] at h
        cases hfind : s.findChild name r.children with
        | none => simp [hfind] at h
        | some found =>
          cases found with
          | none =>
            obtain ⟨rfl, rfl⟩ : s = t ∧ Except.error tmpEnoent = res := by simpa [hfind] using h
            exact Or.inl ⟨rfl, _, rfl, fun _ => rfl⟩
          | some c =>
            obtain ⟨-, rc, hrc⟩ := findChild_some hfind
            simp only [hfind, Option.bind_some, retain_eq hrc, Option.map_some,
              Option.some.injEq, Prod.mk.injEq] at h
            exact Or.inr ⟨c, rc, hrc, h.1.symm, h.2.symm⟩

/-- What a call has after a lookup: the entry that was found, with a reference on it. -/
structure Looked (s t : TmpTree) (extra : ℕ → ℕ) (res : Except ℤ (ℕ × TmpName)) : Prop where
  same : s.SameTree t
  holds : t.Holds extra
  found : ∀ d name, res = .ok (d, name) → (∃ r, t.dirent d = some r) ∧
    t.Holds (extra + Pi.single d 1)

lemma walk_looked {parent : Bool} {path : List TmpName} {res : Except ℤ (ℕ × TmpName)}
    (h : s.Holds (extra + Pi.single d 1)) (hd : s.dirent d = some r)
    (hwalk : walk parent path d s = some (t, res)) : s.Looked t extra res := by
  induction path generalizing s d r with
  | nil =>
    obtain ⟨rfl, rfl⟩ : s = t ∧ Except.ok (d, []) = res := by simpa [walk] using hwalk
    refine ⟨SameTree.refl s, h.mono fun x => Nat.le_add_right _ _, ?_⟩
    rintro d' name' heq
    obtain ⟨rfl, -⟩ := Prod.mk.inj (Except.ok.inj heq)
    exact ⟨⟨r, hd⟩, h⟩
  | cons c path ih =>
    rw [walk] at hwalk
    split_ifs at hwalk with hlong hlast
    · obtain ⟨rfl, rfl⟩ : s = t ∧ Except.error tmpEnametoolong = res := by simpa using hwalk
      exact ⟨SameTree.refl s, h.mono fun x => Nat.le_add_right _ _, fun _ _ heq => by cases heq⟩
    · obtain ⟨rfl, rfl⟩ : s = t ∧ Except.ok (d, c) = res := by simpa using hwalk
      refine ⟨SameTree.refl s, h.mono fun x => Nat.le_add_right _ _, ?_⟩
      rintro d' name' heq
      obtain ⟨rfl, -⟩ := Prod.mk.inj (Except.ok.inj heq)
      exact ⟨⟨r, hd⟩, h⟩
    · cases hlook : s.dirLookup d c with
      | none => simp [hlook] at hwalk
      | some l =>
        obtain ⟨s₁, found⟩ := l
        simp only [hlook, Option.bind_some] at hwalk
        rcases dirLookup_cases hlook with ⟨rfl, e, rfl, -⟩ | ⟨child, rc, hrc, rfl, rfl⟩
        · obtain ⟨u, hu, hsame, hholds⟩ := h.release hd
          simp only [hu, Option.bind_some, Option.some.injEq, Prod.mk.injEq] at hwalk
          obtain ⟨rfl, rfl⟩ := hwalk
          exact ⟨hsame, hholds, fun _ _ heq => by cases heq⟩
        · -- the child is held before the directory is given up
          have hb : (s.bump child).Holds (extra + Pi.single child 1 + Pi.single d 1) := by
            rw [add_right_comm]
            exact h.bump hrc
          obtain ⟨rd, hrd, -⟩ := (SameTree.bump hrc).live hd
          obtain ⟨u, hu, hsame, hholds⟩ := hb.release hrd
          simp only [hu, Option.bind_some] at hwalk
          obtain ⟨rc', hrc', -⟩ := ((SameTree.bump hrc).trans hsame).live hrc
          have hrest := ih hholds hrc' hwalk
          exact ⟨((SameTree.bump hrc).trans hsame).trans hrest.same, hrest.holds, hrest.found⟩

lemma lookup_looked {parent : Bool} {path : List TmpName} {res : Except ℤ (ℕ × TmpName)}
    (h : s.Holds extra) (hlook : s.lookup parent path = some (t, res)) : s.Looked t extra res := by
  rw [lookup] at hlook
  cases hroot : s.root with
  | none => simp [hroot] at hlook
  | some root =>
    cases hr : s.dirent root with
    | none => simp [hroot, retain, hr] at hlook
    | some r =>
      simp only [hroot, Option.bind_some, retain_eq hr] at hlook
      obtain ⟨r', hr', -⟩ := (SameTree.bump hr).live hr
      have hrest := walk_looked (h.bump hr) hr' hlook
      exact ⟨(SameTree.bump hr).trans hrest.same, hrest.holds, hrest.found⟩

/-! ### A new entry -/

/-- A new entry under `p`, of which the record is `r`, with `n` references. -/
def link (s : TmpTree) (p : ℕ) (r : TmpDirent) (name : TmpName) (i n : ℕ) : TmpTree :=
  { (s.setDirent p (some { r with
        nextIndex := r.nextIndex + 1
        count := r.count + 1
        children := r.children ++ [s.nextDirent] })).setDirent s.nextDirent
      (some ⟨name, i, r.nextIndex, some p, [], 0, n⟩) with nextDirent := s.nextDirent + 1 }

lemma bare_link (i n x : ℕ) : (s.link p r name i n).bare x =
    if x = s.nextDirent then some ⟨name, i, r.nextIndex, some p, [], 0, 0⟩
    else if x = p then some { r with
        nextIndex := r.nextIndex + 1
        count := 0
        children := r.children ++ [s.nextDirent] }
    else s.bare x := by
  by_cases hx : x = s.nextDirent
  · subst hx
    simp [bare, link, setDirent]
  · by_cases hxp : x = p
    · subst hxp
      simp [bare, link, setDirent, hx]
    · simp [bare, link, setDirent, hx, hxp]

lemma Shape.freshInode (h : s.Shape) (x : Option TmpInode) :
    Shape { s.setInode s.nextInode x with nextInode := s.nextInode + 1 } where
  root := h.root
  noParent := h.noParent
  parent := h.parent
  next := h.next
  inode := by
    intro d r hd
    obtain ⟨hlt, hsome⟩ := h.inode d r hd
    refine ⟨Nat.lt_succ_of_lt hlt, ?_⟩
    simpa [setInode, hlt.ne] using hsome
  child := h.child
  nextIndex := h.nextIndex
  order := h.order
  fd := h.fd
  nums := h.nums

lemma Shape.mem_lt (h : s.Shape) {r : TmpDirent} (hd : s.bare d = some r) (hc : c ∈ r.children) :
    c < s.nextDirent := by
  obtain ⟨i, hi⟩ := List.mem_iff_getElem?.1 hc
  obtain ⟨rc, hrc, -⟩ := h.child d r i c hd hi
  exact h.next c rc hrc

lemma Shape.link (h : s.Shape) (hp : s.dirent p = some r) {i : ℕ} (hi : i < s.nextInode)
    (hsome : (s.inode i).isSome) (name : TmpName) (n : ℕ) : (s.link p r name i n).Shape := by
  have hpb := bare_eq hp
  have hpne : p ≠ s.nextDirent := (h.next p _ hpb).ne
  -- what is there after the entry has been made
  have hback : ∀ x rx, (s.link p r name i n).bare x = some rx →
      (x = s.nextDirent ∧ rx = ⟨name, i, r.nextIndex, some p, [], 0, 0⟩) ∨
      (x = p ∧ rx = { r with
        nextIndex := r.nextIndex + 1, count := 0, children := r.children ++ [s.nextDirent] }) ∨
      (x ≠ s.nextDirent ∧ x ≠ p ∧ s.bare x = some rx) := by
    intro x rx hx
    rw [bare_link] at hx
    split_ifs at hx with hnew hxp
    · exact Or.inl ⟨hnew, (Option.some.inj hx).symm⟩
    · exact Or.inr (Or.inl ⟨hxp, (Option.some.inj hx).symm⟩)
    · exact Or.inr (Or.inr ⟨hnew, hxp, hx⟩)
  have hthere : ∀ x rx, s.bare x = some rx →
      ∃ rx', (s.link p r name i n).bare x = some rx' ∧ rx'.index = rx.index ∧
        ∀ c ∈ rx.children, c ∈ rx'.children := by
    intro x rx hx
    have hxne : x ≠ s.nextDirent := (h.next x rx hx).ne
    rw [bare_link, if_neg hxne]
    by_cases hxp : x = p
    · subst hxp
      rw [if_pos rfl]
      obtain rfl : { r with count := 0 } = rx := Option.some.inj (hpb.symm.trans hx)
      exact ⟨_, rfl, rfl, fun c hc => List.mem_append_left _ hc⟩
    · rw [if_neg hxp]
      exact ⟨rx, hx, rfl, fun c hc => hc⟩
  have hlive : ∀ x, (s.bare x).isSome → ((s.link p r name i n).bare x).isSome := by
    intro x hx
    obtain ⟨rx, hrx⟩ := Option.isSome_iff_exists.1 hx
    obtain ⟨rx', hrx', -⟩ := hthere x rx hrx
    rw [hrx']
    rfl
  constructor
  case root =>
    obtain ⟨root, hroot, hsome⟩ := h.root
    exact ⟨root, hroot, hlive root hsome⟩
  case noParent =>
    intro x rx hx hnone
    rcases hback x rx hx with ⟨-, rfl⟩ | ⟨rfl, rfl⟩ | ⟨-, -, hold⟩
    · cases hnone
    · exact h.noParent x _ hpb hnone
    · exact h.noParent x rx hold hnone
  case parent =>
    intro x rx q hx hq
    rcases hback x rx hx with ⟨rfl, rfl⟩ | ⟨rfl, rfl⟩ | ⟨-, -, hold⟩
    · obtain rfl : p = q := Option.some.inj hq
      exact ⟨h.next p _ hpb, hlive p (by rw [hpb]; rfl)⟩
    · obtain ⟨hlt, hsome⟩ := h.parent x _ q hpb hq
      exact ⟨hlt, hlive q hsome⟩
    · obtain ⟨hlt, hsome⟩ := h.parent x rx q hold hq
      exact ⟨hlt, hlive q hsome⟩
  case next =>
    intro x rx hx
    show x < s.nextDirent + 1
    rcases hback x rx hx with ⟨rfl, -⟩ | ⟨rfl, -⟩ | ⟨-, -, hold⟩
    · omega
    · exact Nat.lt_succ_of_lt (h.next x _ hpb)
    · exact Nat.lt_succ_of_lt (h.next x rx hold)
  case inode =>
    intro x rx hx
    rcases hback x rx hx with ⟨-, rfl⟩ | ⟨rfl, rfl⟩ | ⟨-, -, hold⟩
    · exact ⟨hi, hsome⟩
    · have hold := h.inode x _ hpb
      exact hold
    · exact h.inode x rx hold
  case child =>
    intro x rx j c hx hc
    rcases hback x rx hx with ⟨-, rfl⟩ | ⟨rfl, rfl⟩ | ⟨-, -, hold⟩
    · simp at hc
    · simp only [List.getElem?_append] at hc
      split_ifs at hc with hj
      · obtain ⟨rc, hrc, hidx⟩ := h.child x _ j c hpb hc
        obtain ⟨rc', hrc', hidx', -⟩ := hthere c rc hrc
        exact ⟨rc', hrc', hidx'.trans hidx⟩
      · have hzero : j - r.children.length = 0 := by
          by_contra hne
          obtain ⟨m, hm⟩ := Nat.exists_eq_succ_of_ne_zero hne
          simp [hm] at hc
        rw [hzero] at hc
        obtain rfl : s.nextDirent = c := by simpa using hc
        have hlen := h.nextIndex x _ hpb
        refine ⟨_, by rw [bare_link, if_pos rfl], ?_⟩
        show r.nextIndex = j
        simp only at hlen
        omega
    · obtain ⟨rc, hrc, hidx⟩ := h.child x rx j c hold hc
      obtain ⟨rc', hrc', hidx', -⟩ := hthere c rc hrc
      exact ⟨rc', hrc', hidx'.trans hidx⟩
  case nextIndex =>
    intro x rx hx
    rcases hback x rx hx with ⟨-, rfl⟩ | ⟨rfl, rfl⟩ | ⟨-, -, hold⟩
    · rfl
    · have hlen := h.nextIndex x _ hpb
      simpa using hlen
    · exact h.nextIndex x rx hold
  case order =>
    intro x rx hx
    rcases hback x rx hx with ⟨-, rfl⟩ | ⟨rfl, rfl⟩ | ⟨-, -, hold⟩
    · exact List.Pairwise.nil
    · have hold := h.order x _ hpb
      refine List.pairwise_append.2 ⟨hold, List.pairwise_singleton _ _, ?_⟩
      intro a ha b hb
      obtain rfl : b = s.nextDirent := by simpa using hb
      exact h.mem_lt hpb ha
    · exact h.order x rx hold
  case fd =>
    intro f hf
    obtain ⟨hnum, rf, hrf, hpos⟩ := h.fd f hf
    obtain ⟨rf', hrf', -, hsub⟩ := hthere f.dirent rf hrf
    exact ⟨hnum, rf', hrf', fun c hc => hsub c (hpos c hc)⟩
  case nums => exact h.nums

lemma Shape.held_next (h : s.Shape) : held s.fds s.nextDirent = 0 := by
  have hfree : ∀ f ∈ s.fds, f.dirent ≠ s.nextDirent ∧ f.pos ≠ some s.nextDirent := by
    intro f hf
    obtain ⟨-, rf, hrf, hpos⟩ := h.fd f hf
    refine ⟨(h.next f.dirent rf hrf).ne, fun hp => ?_⟩
    exact lt_irrefl _ (h.mem_lt hrf (hpos _ hp))
  rw [held, Nat.add_eq_zero_iff, List.countP_eq_zero, List.countP_eq_zero]
  exact ⟨fun f hf => by simpa using (hfree f hf).1, fun f hf => by simpa using (hfree f hf).2⟩

lemma Holds.link (h : s.Holds extra) (hs : s.Shape) (hp : s.dirent p = some r)
    (hextra : extra s.nextDirent = 0) (name : TmpName) (i n : ℕ) :
    (s.link p r name i (n + 1)).Holds (extra + Pi.single s.nextDirent n) := by
  have hpne : p ≠ s.nextDirent := (hs.next p _ (bare_eq hp)).ne
  intro x rx hx
  show 1 + rx.children.length + held s.fds x + (extra x + (Pi.single s.nextDirent n : ℕ → ℕ) x) ≤ _
  by_cases hnew : x = s.nextDirent
  · subst hnew
    obtain rfl : ⟨name, i, r.nextIndex, some p, [], 0, n + 1⟩ = rx := by
      simpa [TmpTree.link, setDirent] using hx
    simp only [List.length_nil, hs.held_next, hextra, Pi.single_eq_same]
    omega
  · rw [Pi.single_eq_of_ne hnew]
    by_cases hxp : x = p
    · subst hxp
      have hc := h x r hp
      obtain rfl : { r with
          nextIndex := r.nextIndex + 1
          count := r.count + 1
          children := r.children ++ [s.nextDirent] } = rx := by
        simpa [TmpTree.link, setDirent, hnew] using hx
      simp only [List.length_append, List.length_singleton]
      omega
    · have hc := h x rx (by simpa [TmpTree.link, setDirent, hnew, hxp] using hx)
      omega

end TmpTree

end ShellBox
