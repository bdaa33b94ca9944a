import ShellBox.Fs.TmpfsShape

/-!
# The trees of a tmpfs

Each call keeps the shape of the tree and leaves every entry with at least the references of those
that hold it, so that it is there as long as the file system is mounted.
-/

namespace ShellBox

open Function

namespace TmpTree

variable {s t : TmpTree} {extra : ℕ → ℕ} {d c p : ℕ} {r : TmpDirent} {name : TmpName}

/-! ### The calls -/

structure Sound (s : TmpTree) : Prop where
  shape : s.Shape
  holds : s.Holds 0

lemma dirLink_cases {i : ℕ} {x : TmpInode} {alloc out : Bool} {res : Except ℤ ℕ}
    (hp : s.dirent p = some r) (hx : s.inode i = some x)
    (h : s.dirLink p name i alloc out = some (t, res)) :
    (∃ e, res = .error e ∧ s.releaseInode i = some t) ∨
      (res = .ok s.nextDirent ∧ t = (s.setInode i (some { x with count := x.count + 1 })).link p r
        name i (if out then 2 else 1)) := by
  rw [dirLink, hp, Option.bind_some] at h
  cases hdir : s.isDir p with
  | none => simp [hdir] at h
  | some dir =>
    have hgone : ∀ e, (s.releaseInode i).map (·, Except.error e) = some (t, res) →
        ∃ e, res = .error e ∧ s.releaseInode i = some t := by
      intro e he
      obtain ⟨u, hu, heq⟩ := Option.map_eq_some_iff.1 he
      obtain ⟨rfl, rfl⟩ := Prod.mk.inj heq
      exact ⟨e, rfl, hu⟩
    simp only [hdir, Option.bind_some] at h
    by_cases hnot : ¬ dir
    · rw [if_pos hnot] at h
      exact Or.inl (hgone _ h)
    · rw [if_neg hnot] at h
      by_cases hfull : ¬ alloc
      · rw [if_pos hfull] at h
        exact Or.inl (hgone _ h)
      · rw [if_neg hfull] at h
        simp only [retainInode, hx, Option.map_some, Option.some.injEq, Prod.mk.injEq] at h
        exact Or.inr ⟨h.2.symm, h.1.symm⟩

lemma SameTree.setInode {i : ℕ} {x y : TmpInode} (hx : s.inode i = some x) (hy : y.dir = x.dir) :
    s.SameTree (s.setInode i (some y)) := by
  refine ⟨rfl, rfl, fun j => ?_, rfl, rfl, rfl, rfl⟩
  by_cases hj : j = i
  · subst hj
    simp [TmpTree.setInode, hx, hy]
  · simp [TmpTree.setInode, hj]

lemma link_newInode (h : s.Shape) (hh : s.Holds extra) (hp : s.dirent p = some r)
    (hextra : extra s.nextDirent = 0) (name : TmpName) (dir : Bool) (n m : ℕ) :
    (((s.newInode dir).setInode s.nextInode (some ⟨dir, m⟩)).link p r name s.nextInode
      (n + 1)).Shape ∧
    (((s.newInode dir).setInode s.nextInode (some ⟨dir, m⟩)).link p r name s.nextInode
      (n + 1)).Holds (extra + Pi.single s.nextDirent n) := by
  have hnew : (s.newInode dir).Shape := h.freshInode (some ⟨dir, 1⟩)
  have hino : (s.newInode dir).inode s.nextInode = some ⟨dir, 1⟩ := update_self _ _ _
  have hset : ((s.newInode dir).setInode s.nextInode (some ⟨dir, m⟩)).Shape :=
    hnew.of_same (SameTree.setInode hino rfl)
  have hholds : ((s.newInode dir).setInode s.nextInode (some ⟨dir, m⟩)).Holds extra := hh
  refine ⟨hset.link hp (Nat.lt_succ_self _) ?_ name _, hholds.link hset hp hextra name _ n⟩
  simp [setInode]

/-- What a call has after it has opened or made an entry in `p`. -/
structure Opened (t : TmpTree) (p : ℕ) (res : Except ℤ ℕ) : Prop where
  shape : t.Shape
  holds : t.Holds (Pi.single p 1)
  parent : ∃ r, t.dirent p = some r
  found : ∀ d, res = .ok d → (∃ r, t.dirent d = some r) ∧
    t.Holds (Pi.single p 1 + Pi.single d 1)

lemma openIn_opened {excl allocInode allocDirent : Bool} {res : Except ℤ ℕ} (h : s.Shape)
    (hh : s.Holds (Pi.single p 1)) (hp : s.dirent p = some r)
    (hin : s.openIn p name excl allocInode allocDirent = some (t, res)) : t.Opened p res := by
  rw [openIn] at hin
  cases hlook : s.dirLookup p name with
  | none => simp [hlook] at hin
  | some l =>
    obtain ⟨s₁, found⟩ := l
    simp only [hlook, Option.bind_some] at hin
    rcases dirLookup_cases hlook with ⟨rfl, e, rfl, hdir⟩ | ⟨c, rc, hrc, rfl, rfl⟩
    · simp only at hin
      split_ifs at hin with hne halloc
      · obtain ⟨rfl, rfl⟩ : s₁ = t ∧ Except.error e = res := by simpa using hin
        exact ⟨h, hh, ⟨r, hp⟩, fun _ heq => by cases heq⟩
      · have hino : (s₁.newInode false).inode s₁.nextInode = some ⟨false, 1⟩ := update_self _ _ _
        cases hlink : (s₁.newInode false).dirLink p name s₁.nextInode allocDirent true with
        | none => simp [hlink] at hin
        | some l =>
          obtain ⟨s₂, made⟩ := l
          simp only [hlink, Option.bind_some] at hin
          have hp' : (s₁.newInode false).dirent p = some r := hp
          rcases dirLink_cases hp' hino hlink with ⟨e', rfl, hrel⟩ | ⟨rfl, rfl⟩
          · -- the inode is given up twice
            cases hrel₂ : s₂.releaseInode s₁.nextInode with
            | none => simp [hrel₂] at hin
            | some u => simp [hrel₂] at hin
          · obtain ⟨hshape, hholds⟩ := link_newInode h hh hp
              (Pi.single_eq_of_ne (h.next p _ (bare_eq hp)).ne' _) name false 1 1
            have hrel : (((s₁.newInode false).setInode s₁.nextInode (some ⟨false, 1 + 1⟩)).link p r
                name s₁.nextInode (if true = true then 2 else 1)).releaseInode s₁.nextInode =
                  some (((s₁.newInode false).setInode s₁.nextInode (some ⟨false, 1⟩)).link p r
                    name s₁.nextInode (1 + 1)) := by
              simp [releaseInode, link, newInode, setInode, setDirent]
            rw [hrel, Option.bind_some] at hin
            obtain ⟨rfl, rfl⟩ := Prod.mk.inj (Option.some.inj hin)
            refine ⟨hshape, hholds.mono fun x => Nat.le_add_right _ _, ?_, ?_⟩
            · have hpne : p ≠ s₁.nextDirent := (h.next p _ (bare_eq hp)).ne
              exact ⟨_, by simp [link, setDirent, newInode, setInode, hpne]; rfl⟩
            · intro d heq
              obtain rfl : s₁.nextDirent = d := Except.ok.inj heq
              exact ⟨⟨_, update_self _ _ _⟩, hholds⟩
    · have hb := hh.bump hrc
      obtain ⟨rc', hrc', -⟩ := (SameTree.bump hrc).live hrc
      obtain ⟨rp', hrp', -⟩ := (SameTree.bump hrc).live hp
      have hshape := h.of_same (SameTree.bump hrc)
      simp only at hin
      split_ifs at hin
      · obtain ⟨u, hu, hsame, hholds⟩ := hb.release hrc'
        simp only [hu, Option.map_some, Option.some.injEq, Prod.mk.injEq] at hin
        obtain ⟨rfl, rfl⟩ := hin
        obtain ⟨rp'', hrp'', -⟩ := hsame.live hrp'
        exact ⟨hshape.of_same hsame, hholds, ⟨rp'', hrp''⟩, fun _ heq => by cases heq⟩
      · obtain ⟨rfl, rfl⟩ : s.bump c = t ∧ Except.ok c = res := by simpa using hin
        refine ⟨hshape, hb.mono fun x => Nat.le_add_right _ _, ⟨rp', hrp'⟩, ?_⟩
        intro d heq
        obtain rfl : c = d := Except.ok.inj heq
        exact ⟨⟨rc', hrc'⟩, hb⟩

lemma mkdirIn_opened {allocInode allocDirent : Bool} {code : ℤ} (h : s.Shape)
    (hh : s.Holds (Pi.single p 1)) (hp : s.dirent p = some r)
    (hin : s.mkdirIn p name allocInode allocDirent = some (t, code)) :
    t.Shape ∧ t.Holds (Pi.single p 1) ∧ ∃ r, t.dirent p = some r := by
  rw [mkdirIn] at hin
  cases hlook : s.dirLookup p name with
  | none => simp [hlook] at hin
  | some l =>
    obtain ⟨s₁, found⟩ := l
    simp only [hlook, Option.bind_some] at hin
    rcases dirLookup_cases hlook with ⟨rfl, e, rfl, hdir⟩ | ⟨c, rc, hrc, rfl, rfl⟩
    · simp only at hin
      split_ifs at hin with hne halloc
      · obtain ⟨rfl, -⟩ : s₁ = t ∧ e = code := by simpa using hin
        exact ⟨h, hh, r, hp⟩
      · have hino : (s₁.newInode true).inode s₁.nextInode = some ⟨true, 1⟩ := update_self _ _ _
        have hp' : (s₁.newInode true).dirent p = some r := hp
        obtain ⟨⟨s₂, made⟩, hlink, hmade⟩ := Option.map_eq_some_iff.1 hin
        rcases dirLink_cases hp' hino hlink with ⟨e', rfl, hrel⟩ | ⟨rfl, rfl⟩
        · obtain rfl : s₂ = t := (Prod.mk.inj hmade).1
          obtain rfl : (s₁.newInode true).setInode s₁.nextInode none = s₂ := by
            simpa [releaseInode, hino] using hrel
          have hshape : ((s₁.newInode true).setInode s₁.nextInode none).Shape := by
            have hfresh := h.freshInode none
            simpa [newInode, setInode] using hfresh
          exact ⟨hshape, hh, r, hp⟩
        · obtain rfl := (Prod.mk.inj hmade).1
          have hpne : p ≠ s₁.nextDirent := (h.next p _ (bare_eq hp)).ne
          obtain ⟨hshape, hholds⟩ := link_newInode h hh hp
            (Pi.single_eq_of_ne (h.next p _ (bare_eq hp)).ne' _) name true 0 (1 + 1)
          refine ⟨hshape, hholds.mono fun x => Nat.le_add_right _ _, ?_⟩
          exact ⟨_, by simp [link, setDirent, newInode, setInode, hpne]; rfl⟩
      · obtain ⟨rfl, -⟩ : s₁ = t ∧ tmpEnomem = code := by simpa using hin
        exact ⟨h, hh, r, hp⟩
    · have hb := hh.bump hrc
      obtain ⟨rc', hrc', -⟩ := (SameTree.bump hrc).live hrc
      obtain ⟨rp', hrp', -⟩ := (SameTree.bump hrc).live hp
      obtain ⟨u, hu, hsame, hholds⟩ := hb.release hrc'
      simp only [hu, Option.map_some, Option.some.injEq, Prod.mk.injEq] at hin
      obtain ⟨rfl, -⟩ := hin
      obtain ⟨rp'', hrp'', -⟩ := hsame.live hrp'
      exact ⟨(h.of_same (SameTree.bump hrc)).of_same hsame, hholds, rp'', hrp''⟩

/-! ### Descriptors -/

lemma Shape.withFds (h : s.Shape) {fds : List TmpFd} {n : ℕ}
    (hfd : ∀ f ∈ fds, f.num < n ∧ ∃ r, s.bare f.dirent = some r ∧
      ∀ d, f.pos = some d → d ∈ r.children) (hnums : (fds.map TmpFd.num).Nodup) :
    Shape { s with fds := fds, nextFd := n } :=
  ⟨h.root, h.noParent, h.parent, h.next, h.inode, h.child, h.nextIndex, h.order, hfd, hnums⟩

lemma Shape.live_child (h : s.Shape) (hd : s.bare d = some r) (hc : c ∈ r.children) :
    ∃ rc, s.dirent c = some rc := by
  obtain ⟨i, hi⟩ := List.mem_iff_getElem?.1 hc
  obtain ⟨rc, hrc, -⟩ := h.child d r i c hd hi
  obtain ⟨rc', hrc', -⟩ := exists_of_bare hrc
  exact ⟨rc', hrc'⟩

lemma SameTree.bumpPos {pos : Option ℕ} (hpos : ∀ d, pos = some d → ∃ r, s.dirent d = some r) :
    s.SameTree (s.bumpPos pos) := by
  cases pos with
  | none => exact SameTree.refl s
  | some d =>
    obtain ⟨r, hr⟩ := hpos d rfl
    exact SameTree.bump hr

lemma openFd_sound {allocFd : Bool} {code : ℤ} (h : s.Shape) (hh : s.Holds (Pi.single d 1))
    (hd : s.dirent d = some r) (hopen : s.openFd d allocFd = some (t, code)) : t.Sound := by
  rw [openFd] at hopen
  cases allocFd with
  | false =>
    have hh' : s.Holds (0 + Pi.single d 1) := by rwa [zero_add]
    obtain ⟨u, hu, hsame, hholds⟩ := hh'.release hd
    simp only [Bool.false_eq_true, not_false_eq_true, if_true, hu, Option.map_some,
      Option.some.injEq, Prod.mk.injEq] at hopen
    obtain ⟨rfl, -⟩ := hopen
    exact ⟨h.of_same hsame, hholds⟩
  | true =>
    have hpos : ∀ c, r.children.head? = some c → ∃ rc, s.dirent c = some rc := fun c hc =>
      h.live_child (r := { r with count := 0 }) (bare_eq hd) (List.mem_of_mem_head? hc)
    simp only [not_true, if_false, hd, Option.bind_some, retainPos_eq hpos, Option.map_some, Option.some.injEq,
      Prod.mk.injEq] at hopen
    obtain ⟨rfl, -⟩ := hopen
    have hsame := SameTree.bumpPos hpos
    have hshape := h.of_same hsame
    refine ⟨hshape.withFds ?_ ?_, ?_⟩
    · intro f hf
      rcases List.mem_cons.1 hf with rfl | hf
      · refine ⟨Nat.lt_succ_self _, _, by rw [hsame.bare, bare_eq hd], ?_⟩
        exact fun c hc => List.mem_of_mem_head? hc
      · obtain ⟨hnum, hrest⟩ := hshape.fd f hf
        exact ⟨Nat.lt_succ_of_lt hnum, hrest⟩
    · refine List.nodup_cons.2 ⟨fun hmem => ?_, hshape.nums⟩
      obtain ⟨f, hf, hnum⟩ := List.mem_map.1 hmem
      exact absurd hnum (hshape.fd f hf).1.ne
    · intro x rx hx
      have hx' : (s.bumpPos r.children.head?).dirent x = some rx := hx
      rw [dirent_bumpPos] at hx'
      obtain ⟨rx', hrx', rfl⟩ := Option.map_eq_some_iff.1 hx'
      have hc := hh x rx' hrx'
      show 1 + rx'.children.length + held (_ :: (s.bumpPos r.children.head?).fds) x + 0 ≤ _
      rw [hsame.fds, held_cons]
      by_cases hxd : x = d
      · subst hxd
        simp only [Pi.single_eq_same] at hc
        simp only [if_true]
        omega
      · simp only [Pi.single_eq_of_ne hxd] at hc
        simp only [if_neg hxd]
        omega

lemma Sound.fd_split (h : s.Sound) {n : ℕ} {f : TmpFd} (hf : s.fd n = some f) :
    f.num = n ∧ (∃ r, s.dirent f.dirent = some r ∧ ∀ d, f.pos = some d → d ∈ r.children) ∧
      ∃ l₁ l₂, s.fds = l₁ ++ f :: l₂ ∧ ∀ g ∈ l₁ ++ l₂, g.num ≠ n := by
  obtain ⟨l₁, l₂, hfds, hnum, hne⟩ := exists_keyed_split h.shape.nums hf
  obtain ⟨-, r, hr, hpos⟩ := h.shape.fd f (List.mem_of_find?_eq_some hf)
  obtain ⟨r', hr', rfl⟩ := exists_of_bare hr
  exact ⟨hnum, ⟨r', hr', hpos⟩, l₁, l₂, hfds, hne⟩

lemma Sound.close (h : s.Sound) {n : ℕ} {code : ℤ} (hclose : s.close n = some (t, code)) :
    t.Sound := by
  rw [TmpTree.close] at hclose
  cases hf : s.fd n with
  | none => simp [hf] at hclose
  | some f =>
    obtain ⟨hnum, ⟨r, hd, -⟩, l₁, l₂, hfds, hne⟩ := h.fd_split hf
    have hrest : s.fds.filter (·.num ≠ n) = l₁ ++ l₂ := hfds ▸ filter_keyed_split hnum hne
    have hcount := h.holds f.dirent r hd
    rw [hfds, held_split, if_pos rfl] at hcount
    simp only [hf, Option.bind_some, release_of_ne hd (show r.count ≠ 1 by omega), Option.map_some,
      Option.some.injEq, Prod.mk.injEq] at hclose
    obtain ⟨rfl, -⟩ := hclose
    have hsame : s.SameTree _ := SameTree.setCount hd (r.count - 1)
    refine ⟨(h.shape.of_same hsame).withFds ?_ ?_, ?_⟩
    · intro g hg
      exact (h.shape.of_same hsame).fd g (List.mem_of_mem_filter hg)
    · exact h.shape.nums.sublist (List.filter_sublist.map _)
    · intro x rx hx
      show 1 + rx.children.length + held (s.fds.filter (·.num ≠ n)) x + 0 ≤ rx.count
      rw [hrest]
      by_cases hxd : x = f.dirent
      · subst hxd
        obtain rfl : { r with count := r.count - 1 } = rx := by simpa [setDirent] using hx
        simp only [Pi.zero_apply] at hcount ⊢
        omega
      · have hcx := h.holds x rx (by simpa [setDirent, hxd] using hx)
        rw [hfds, held_split, if_neg hxd] at hcx
        simp only [Pi.zero_apply] at hcx
        omega

structure Seeks (s t : TmpTree) (n : ℕ) (pos : Option ℕ) : Prop where
  sound : t.Sound
  bare : t.bare = s.bare
  root : t.root = s.root
  dir : t.isDir = s.isDir
  nextDirent : t.nextDirent = s.nextDirent
  fd : t.fd n = (s.fd n).map fun f => { f with pos := pos }

lemma Sound.seekTo (h : s.Sound) {n : ℕ} {f : TmpFd} (hf : s.fd n = some f)
    (hd : s.dirent f.dirent = some r) {pos : Option ℕ} (hpos : ∀ d, pos = some d → d ∈ r.children) :
    ∃ t, s.seekTo f pos = some t ∧ s.Seeks t n pos := by
  obtain ⟨hnum, ⟨r', hd', hold⟩, l₁, l₂, hfds, hne⟩ := h.fd_split hf
  obtain rfl : r' = r := Option.some.inj (hd'.symm.trans hd)
  have hmap : (s.setPos f.num pos).fds = l₁ ++ { f with pos } :: l₂ := by
    show s.fds.map (fun g => if g.num = f.num then { g with pos } else g) = _
    rw [hfds]
    exact map_keyed_split (fun g => { g with pos }) rfl fun g hg => hnum ▸ hne g hg
  have hlive : ∀ d, pos = some d → ∃ rd, s.dirent d = some rd := fun d hpd =>
    h.shape.live_child (r := { r' with count := 0 }) (bare_eq hd) (hpos d hpd)
  -- the position that is given up is a child of the directory, which holds it as well
  have hcount : ∀ d, f.pos = some d →
      ∃ rd, (s.bumpPos pos).dirent d = some rd ∧ rd.count ≠ 1 := by
    intro d hfd
    obtain ⟨rd, hrd⟩ := h.shape.live_child (r := { r' with count := 0 }) (bare_eq hd) (hold d hfd)
    refine ⟨_, by rw [dirent_bumpPos, hrd]; rfl, ?_⟩
    have hcd := h.holds d rd hrd
    rw [hfds, held_split, if_pos hfd] at hcd
    show rd.count + _ ≠ 1
    omega
  have hsame : s.SameTree
      { s with dirent := ((s.bumpPos pos).dropPos f.pos).dirent, fds := s.fds } := by
    refine ⟨rfl, ?_, fun _ => rfl, rfl, rfl, rfl, rfl⟩
    funext x
    show (((s.bumpPos pos).dropPos f.pos).dirent x).map _ = (s.dirent x).map _
    rw [dirent_dropPos, dirent_bumpPos]
    cases s.dirent x <;> rfl
  refine ⟨{ s.setPos f.num pos with dirent := ((s.bumpPos pos).dropPos f.pos).dirent }, ?_, ?_⟩
  · rw [TmpTree.seekTo, retainPos_eq hlive, Option.bind_some, releasePos_eq hcount, dropPos_eq,
      bumpPos_eq]
    rfl
  refine ⟨⟨(h.shape.of_same hsame).withFds ?_ ?_, ?_⟩, hsame.bare, rfl, ?_, rfl, ?_⟩
  · rw [hmap]
    intro g hg
    have hfds' := (h.shape.of_same hsame).fd
    rw [List.mem_append, List.mem_cons] at hg
    rcases hg with hg | rfl | hg
    · exact hfds' g (hfds ▸ List.mem_append_left _ hg)
    · obtain ⟨hlt, -⟩ := hfds' f (List.mem_of_find?_eq_some hf)
      exact ⟨hlt, { r' with count := 0 }, by rw [hsame.bare, bare_eq hd], hpos⟩
    · exact hfds' g (hfds ▸ List.mem_append_right _ (List.mem_cons_of_mem _ hg))
  · have hnums := h.shape.nums
    rw [hfds] at hnums
    rw [hmap]
    simpa using hnums
  · intro x rx hx
    have hx' : ((s.bumpPos pos).dropPos f.pos).dirent x = some rx := hx
    rw [dirent_dropPos, dirent_bumpPos, Option.map_map] at hx'
    obtain ⟨rx', hrx', rfl⟩ := Option.map_eq_some_iff.1 hx'
    have hcx := h.holds x rx' hrx'
    rw [hfds, held_split] at hcx
    show 1 + rx'.children.length + held (s.setPos f.num pos).fds x + 0 ≤ _
    rw [hmap, held_split]
    simp only [comp_apply, Pi.zero_apply] at hcx ⊢
    omega
  · funext x
    show ((((s.bumpPos pos).dropPos f.pos).dirent x).bind fun r =>
      (s.inode r.inode).map TmpInode.dir) = _
    rw [isDir, dirent_dropPos, dirent_bumpPos]
    cases s.dirent x <;> rfl
  · show (s.setPos f.num pos).fds.find? _ = _
    rw [hmap, hf]
    have hfirst : ∀ g ∈ l₁, ¬ decide (g.num = n) = true := fun g hg => by
      simpa using hne g (List.mem_append_left _ hg)
    rw [List.find?_append, List.find?_eq_none.2 hfirst, List.find?_cons_of_pos (by simpa using hnum)]
    rfl

lemma Sound.isDir_some (h : s.Sound) (hd : s.dirent d = some r) : ∃ dir, s.isDir d = some dir := by
  obtain ⟨-, hsome⟩ := h.shape.inode d _ (bare_eq hd)
  obtain ⟨x, hx⟩ := Option.isSome_iff_exists.1 hsome
  exact ⟨x.dir, by rw [isDir, hd, Option.bind_some, show s.inode r.inode = some x from hx]; rfl⟩

lemma Sound.readdir_next (h : s.Sound) {n : ℕ} {f : TmpFd} (hf : s.fd n = some f)
    (hd : s.dirent f.dirent = some r) (hdir : s.isDir f.dirent = some true)
    (hpos : f.pos = some c) : ∃ t, s.readdir n = some (t, 1) ∧
      s.Seeks t n (r.children.dropWhile (· ≠ c)).tail.head? := by
  obtain ⟨-, ⟨r', hd', hold⟩, -⟩ := h.fd_split hf
  obtain rfl : r' = r := Option.some.inj (hd'.symm.trans hd)
  have hnext : ∀ x, (r'.children.dropWhile (· ≠ c)).tail.head? = some x → x ∈ r'.children :=
    fun x hx => (List.dropWhile_sublist _).subset (List.mem_of_mem_tail (List.mem_of_head? hx))
  obtain ⟨t, ht, hseeks⟩ := h.seekTo hf hd hnext
  obtain ⟨rc, hrc⟩ := h.shape.live_child (r := { r' with count := 0 }) (bare_eq hd) (hold c hpos)
  obtain ⟨dir, hcdir⟩ := h.isDir_some hrc
  refine ⟨t, ?_, hseeks⟩
  rw [readdir, hf, Option.bind_some, hd, Option.bind_some, hdir, Option.bind_some,
    if_neg (by simp)]
  simp only [hpos, ht, Option.bind_some, hseeks.dir, hcdir, Option.map_some]

lemma readdir_end {n : ℕ} {f : TmpFd} (hf : s.fd n = some f) (hd : s.dirent f.dirent = some r)
    (hdir : s.isDir f.dirent = some true) (hpos : f.pos = none) : s.readdir n = some (s, 0) := by
  rw [readdir, hf, Option.bind_some, hd, Option.bind_some, hdir, Option.bind_some,
    if_neg (by simp)]
  simp only [hpos]

lemma Sound.readdir (h : s.Sound) {n : ℕ} {code : ℤ} (hread : s.readdir n = some (t, code)) :
    t.Sound := by
  cases hf : s.fd n with
  | none => simp [TmpTree.readdir, hf] at hread
  | some f =>
    obtain ⟨-, ⟨r, hd, -⟩, -⟩ := h.fd_split hf
    obtain ⟨dir, hdir⟩ := h.isDir_some hd
    cases dir with
    | false =>
      simp only [TmpTree.readdir, hf, hd, hdir, Option.bind_some, Bool.false_eq_true,
        not_false_eq_true, if_true, Option.some.injEq, Prod.mk.injEq] at hread
      exact hread.1 ▸ h
    | true =>
      cases hpos : f.pos with
      | none =>
        rw [readdir_end hf hd hdir hpos, Option.some.injEq, Prod.mk.injEq] at hread
        exact hread.1 ▸ h
      | some c =>
        obtain ⟨u, hu, hseeks⟩ := h.readdir_next hf hd hdir hpos
        rw [hu, Option.some.injEq, Prod.mk.injEq] at hread
        exact hread.1 ▸ hseeks.sound

lemma indexFrom_eq_find {l : List ℕ} (ptr : ℕ) (hl : ∀ c ∈ l, ∃ r, s.dirent c = some r) :
    s.indexFrom ptr l =
      some (l.find? fun c => ptr ≤ ((s.dirent c).elim 0 TmpDirent.index)) := by
  induction l with
  | nil => rfl
  | cons c l ih =>
    obtain ⟨r, hr⟩ := hl c List.mem_cons_self
    rw [indexFrom, hr, Option.bind_some, List.find?_cons, hr, Option.elim_some]
    by_cases hptr : ptr ≤ r.index
    · simp [hptr]
    · simp [hptr, ih fun c' hc' => hl c' (List.mem_cons_of_mem _ hc')]

lemma Sound.seekdir_eq (h : s.Sound) {n : ℕ} {f : TmpFd} (hf : s.fd n = some f)
    (hd : s.dirent f.dirent = some r) (hdir : s.isDir f.dirent = some true) (ptr : ℕ) :
    ∃ t, s.seekdir n ptr = some (t, 0) ∧ s.Seeks t n
      (r.children.find? fun c => ptr ≤ ((s.dirent c).elim 0 TmpDirent.index)) := by
  have hlive : ∀ c ∈ r.children, ∃ rc, s.dirent c = some rc := fun c hc =>
    h.shape.live_child (r := { r with count := 0 }) (bare_eq hd) hc
  obtain ⟨t, ht, hseeks⟩ := h.seekTo hf hd fun c hc => List.mem_of_find?_eq_some hc
  refine ⟨t, ?_, hseeks⟩
  rw [seekdir, hf, Option.bind_some, hd, Option.bind_some, hdir, Option.bind_some,
    if_neg (by simp), indexFrom_eq_find ptr hlive, Option.bind_some, ht]
  rfl

lemma Sound.seekdir (h : s.Sound) {n ptr : ℕ} {code : ℤ}
    (hseek : s.seekdir n ptr = some (t, code)) : t.Sound := by
  cases hf : s.fd n with
  | none => simp [TmpTree.seekdir, hf] at hseek
  | some f =>
    obtain ⟨-, ⟨r, hd, -⟩, -⟩ := h.fd_split hf
    obtain ⟨dir, hdir⟩ := h.isDir_some hd
    cases dir with
    | false => simp [TmpTree.seekdir, hf, hd, hdir] at hseek
    | true =>
      obtain ⟨u, hu, hseeks⟩ := h.seekdir_eq hf hd hdir ptr
      rw [hu, Option.some.injEq, Prod.mk.injEq] at hseek
      exact hseek.1 ▸ hseeks.sound

lemma telldir_same {n : ℕ} {code : ℤ} (htell : s.telldir n = some (t, code)) : t = s := by
  cases hf : s.fd n with
  | none => simp [telldir, hf] at htell
  | some f =>
    cases hpos : f.pos with
    | none =>
      simp only [telldir, hf, hpos, Option.bind_some, Option.some.injEq, Prod.mk.injEq] at htell
      exact htell.1.symm
    | some d =>
      simp only [telldir, hf, hpos, Option.bind_some, Option.map_eq_some_iff, Prod.mk.injEq] at htell
      obtain ⟨-, -, hs, -⟩ := htell
      exact hs.symm

/-! ### Calls with a path -/

lemma Sound.openPath (h : s.Sound) {path : List TmpName}
    {creat excl allocInode allocDirent allocFd : Bool} {code : ℤ}
    (hopen : s.openPath path creat excl allocInode allocDirent allocFd = some (t, code)) :
    t.Sound := by
  rw [TmpTree.openPath] at hopen
  cases hlook : s.lookup creat path with
  | none => simp [hlook] at hopen
  | some l =>
    obtain ⟨s₁, res⟩ := l
    have hlooked := lookup_looked h.holds hlook
    have hshape := h.shape.of_same hlooked.same
    simp only [hlook, Option.bind_some] at hopen
    cases res with
    | error e =>
      obtain ⟨rfl, -⟩ := Prod.mk.inj (Option.some.inj hopen)
      exact ⟨hshape, hlooked.holds⟩
    | ok found =>
      obtain ⟨d, name⟩ := found
      obtain ⟨⟨r, hd⟩, hholds⟩ := hlooked.found d name rfl
      rw [zero_add] at hholds
      simp only at hopen
      split_ifs at hopen
      · rw [openCreat] at hopen
        cases hin : s₁.openIn d name excl allocInode allocDirent with
        | none => simp [hin] at hopen
        | some l =>
          obtain ⟨s₂, made⟩ := l
          have hopened := openIn_opened hshape hholds hd hin
          obtain ⟨rd, hrd⟩ := hopened.parent
          simp only [hin, Option.bind_some] at hopen
          cases made with
          | error e =>
            have hholds₂ : s₂.Holds (0 + Pi.single d 1) := by
              rw [zero_add]
              exact hopened.holds
            obtain ⟨u, hu, hsame, hrest⟩ := hholds₂.release hrd
            simp only [hu, Option.bind_some, Option.some.injEq, Prod.mk.injEq] at hopen
            obtain ⟨rfl, -⟩ := hopen
            exact ⟨hopened.shape.of_same hsame, hrest⟩
          | ok c =>
            obtain ⟨⟨rc, hrc⟩, hboth⟩ := hopened.found c rfl
            rw [add_comm] at hboth
            obtain ⟨u, hu, hsame, hrest⟩ := hboth.release hrd
            obtain ⟨rc', hrc', -⟩ := hsame.live hrc
            simp only [hu, Option.bind_some] at hopen
            exact openFd_sound (hopened.shape.of_same hsame) hrest hrc' hopen
      · exact openFd_sound hshape hholds hd hopen

lemma Sound.mkdir (h : s.Sound) {path : List TmpName} {allocInode allocDirent : Bool} {code : ℤ}
    (hmk : s.mkdir path allocInode allocDirent = some (t, code)) : t.Sound := by
  rw [TmpTree.mkdir] at hmk
  cases hlook : s.lookup true path with
  | none => simp [hlook] at hmk
  | some l =>
    obtain ⟨s₁, res⟩ := l
    have hlooked := lookup_looked h.holds hlook
    have hshape := h.shape.of_same hlooked.same
    simp only [hlook, Option.bind_some] at hmk
    cases res with
    | error e =>
      obtain ⟨rfl, -⟩ := Prod.mk.inj (Option.some.inj hmk)
      exact ⟨hshape, hlooked.holds⟩
    | ok found =>
      obtain ⟨d, name⟩ := found
      obtain ⟨⟨r, hd⟩, hholds⟩ := hlooked.found d name rfl
      rw [zero_add] at hholds
      cases hin : s₁.mkdirIn d name allocInode allocDirent with
      | none => simp [hin] at hmk
      | some l =>
        obtain ⟨s₂, made⟩ := l
        obtain ⟨hshape₂, hholds₂, rd, hrd⟩ := mkdirIn_opened hshape hholds hd hin
        rw [← zero_add (Pi.single d 1)] at hholds₂
        obtain ⟨u, hu, hsame, hrest⟩ := hholds₂.release hrd
        simp only [hin, Option.bind_some, hu, Option.map_some, Option.some.injEq,
          Prod.mk.injEq] at hmk
        obtain ⟨rfl, -⟩ := hmk
        exact ⟨hshape₂.of_same hsame, hrest⟩

lemma Sound.stat (h : s.Sound) {path : List TmpName} {code : ℤ}
    (hstat : s.stat path = some (t, code)) : t.Sound := by
  rw [TmpTree.stat] at hstat
  cases hlook : s.lookup false path with
  | none => simp [hlook] at hstat
  | some l =>
    obtain ⟨s₁, res⟩ := l
    have hlooked := lookup_looked h.holds hlook
    have hshape := h.shape.of_same hlooked.same
    simp only [hlook, Option.bind_some] at hstat
    cases res with
    | error e =>
      obtain ⟨rfl, -⟩ := Prod.mk.inj (Option.some.inj hstat)
      exact ⟨hshape, hlooked.holds⟩
    | ok found =>
      obtain ⟨d, name⟩ := found
      obtain ⟨⟨r, hd⟩, hholds⟩ := hlooked.found d name rfl
      obtain ⟨u, hu, hsame, hrest⟩ := hholds.release hd
      cases hdir : s₁.isDir d with
      | none => simp [hdir] at hstat
      | some dir =>
        simp only [hdir, Option.bind_some, hu, Option.map_some, Option.some.injEq,
          Prod.mk.injEq] at hstat
        obtain ⟨rfl, -⟩ := hstat
        exact ⟨hshape.of_same hsame, hrest⟩

/-! ### Runs -/

/-- The trees of a mounted tmpfs. Each entry that has been made is there, at an address of its own,
so that there are no more than addresses. -/
inductive Reached : TmpTree → Prop
  | mounted : Reached TmpTree.mounted
  | step {s t : TmpTree} {op : TmpTreeOp} {code : ℤ} : Reached s →
      tmpTreeStep s op = some (t, code) → t.root ≠ none → t.nextDirent < 2 ^ 64 → Reached t

lemma sound_mounted : mounted.Sound := by
  have hd : ∀ {d r}, mounted.bare d = some r → d = 0 ∧ r = ⟨[], 0, 0, none, [], 0, 0⟩ := by
    intro d r h
    by_cases hd : d = 0
    · subst hd
      exact ⟨rfl, (Option.some.inj h).symm⟩
    · simp [bare, mounted, hd] at h
  constructor
  · constructor
    case root => exact ⟨0, rfl, rfl⟩
    case fd => exact fun f hf => by cases hf
    case nums => exact List.nodup_nil
    all_goals
      intro d r
      intros
      obtain ⟨rfl, rfl⟩ := hd ‹_›
    case noParent => rfl
    case parent q hq _ => cases hq
    case next => exact Nat.one_pos
    case inode => exact ⟨Nat.one_pos, rfl⟩
    case child i c hc _ => simp at hc
    case nextIndex => rfl
    case order => exact List.Pairwise.nil
  · intro d r hdr
    obtain ⟨rfl, hr⟩ := hd (bare_eq hdr)
    obtain rfl : ⟨[], 0, 0, none, [], 0, 1⟩ = r := Option.some.inj hdr
    decide

/-- The step lemma. -/
theorem Sound.step (h : s.Sound) {op : TmpTreeOp} {code : ℤ}
    (hstep : tmpTreeStep s op = some (t, code)) (hroot : t.root ≠ none) : t.Sound := by
  cases op with
  | openPath => exact h.openPath hstep
  | mkdir => exact h.mkdir hstep
  | stat => exact h.stat hstep
  | close => exact h.close hstep
  | readdir => exact h.readdir hstep
  | telldir => exact telldir_same hstep ▸ h
  | seekdir => exact h.seekdir hstep
  | umount =>
    obtain ⟨root, hr, hrest⟩ := Option.bind_eq_some_iff.1 hstep
    split_ifs at hrest
    · rw [← (Prod.mk.inj (Option.some.inj hrest)).1]
      exact h
    · obtain ⟨u, -, heq⟩ := Option.map_eq_some_iff.1 hrest
      rw [← (Prod.mk.inj heq).1] at hroot
      exact absurd rfl hroot

theorem Reached.sound (h : s.Reached) : s.Sound ∧ s.nextDirent < 2 ^ 64 := by
  induction h with
  | mounted => exact ⟨sound_mounted, by decide⟩
  | step _ hstep hroot hroom ih => exact ⟨ih.1.step hstep hroot, hroom⟩

end TmpTree

end ShellBox
