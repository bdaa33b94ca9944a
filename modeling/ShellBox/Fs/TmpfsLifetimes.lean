import ShellBox.Fs.TmpfsCreate

/-!
# Lifetimes in a tmpfs

Unmounting takes a tree apart from its leaves, with one reference more on each directory on the way.
Each call then keeps the balance and accesses only what is live, unless it takes one of the ways on
which the code forgets a reference or gives one up that it does not have.
-/

namespace ShellBox

open Function

namespace TmpTree

variable {s : TmpTree} {extra : ℕ → ℕ} {d c p : ℕ} {r : TmpDirent} {name : TmpName}

/-! ### Freeing an entry -/

def dropChild (d : ℕ) (r : TmpDirent) : TmpDirent :=
  { r with children := r.children.erase d, count := r.count - 1 }

/-- What is left without an entry, of which the record is `r`. -/
def without (s : TmpTree) (d : ℕ) (r : TmpDirent) : TmpTree :=
  { s with
    dirent := fun x =>
      if x = d then none
      else if r.parent = some x then (s.dirent x).map (dropChild d) else s.dirent x
    inode := update s.inode r.inode none }

namespace Counted

lemma release_last (h : s.Counted extra) (hd : s.dirent d = some r) (hcount : r.count = 1) :
    s.release d = some (s.without d r) := by
  obtain ⟨dir, hi, -⟩ := h.inode d r hd
  rw [release, releaseUp, hd, Option.bind_some, if_pos hcount]
  cases hparent : r.parent with
  | none =>
    rw [unlink, releaseInode, hi]
    refine congrArg some ?_
    have hdirent : update s.dirent d none = (s.without d r).dirent := by
      funext x
      by_cases hx : x = d
      · simp [hx, without]
      · simp [hx, without, hparent]
    show ({ s with dirent := update s.dirent d none, inode := _ } : TmpTree) = _
    rw [hdirent]
    rfl
  | some p =>
    obtain ⟨hlt, rp, hrp, hmem⟩ := h.parent d r p hd hparent
    have hrpcount : rp.count ≠ 1 := by
      have hlen := List.length_pos_of_mem hmem
      rw [h.count p rp hrp]
      omega
    obtain ⟨n, hn⟩ := Nat.exists_eq_succ_of_ne_zero (Nat.ne_zero_of_lt (h.next d r hd))
    have hunlink : s.unlink d (some p) =
        s.setDirent p (some { rp with children := rp.children.erase d }) := by
      rw [unlink, hrp]
    rw [hunlink, hn, releaseInode,
      show (s.setDirent p (some { rp with children := rp.children.erase d })).inode r.inode =
        some ⟨dir, 1⟩ from hi]
    have hp' : ((s.setDirent p (some { rp with children := rp.children.erase d })).setInode r.inode
        none).dirent p = some { rp with children := rp.children.erase d } := update_self _ _ _
    show (releaseUp (n + 1) p ((s.setDirent p _).setInode r.inode none)).map _ = _
    rw [releaseUp, hp', Option.bind_some, if_neg hrpcount]
    refine congrArg some ?_
    have hdirent : update (update (update s.dirent p (some { rp with
        children := rp.children.erase d })) p (some (dropChild d rp))) d none =
        (s.without d r).dirent := by
      funext x
      by_cases hx : x = d
      · simp [hx, without]
      · by_cases hxp : x = p
        · subst hxp
          simp [hx, without, hparent, hrp]
        · simp [hx, without, hparent, hxp, Ne.symm hxp]
    show ({ s with dirent := update (update (update s.dirent p _) p (some (dropChild d rp))) d none,
                   inode := _ } : TmpTree) = _
    rw [hdirent]
    rfl

lemma without_there (hne : c ≠ d) {rc : TmpDirent} (hc : s.dirent c = some rc) :
    (s.without d r).dirent c = some (if r.parent = some c then dropChild d rc else rc) := by
  show (if c = d then none else _) = _
  rw [if_neg hne, hc]
  split_ifs <;> rfl

lemma without_back {rc' : TmpDirent} (hc : (s.without d r).dirent c = some rc') :
    c ≠ d ∧ ∃ rc, s.dirent c = some rc ∧
      rc' = if r.parent = some c then dropChild d rc else rc := by
  have hne : c ≠ d := by
    rintro rfl
    simp [without] at hc
  refine ⟨hne, ?_⟩
  cases hrc : s.dirent c with
  | none =>
    simp [without, hrc] at hc
  | some rc =>
    rw [without_there hne hrc, Option.some.injEq] at hc
    exact ⟨rc, rfl, hc.symm⟩

lemma without_inode {i : ℕ} {y : TmpInode} (hi : (s.without d r).inode i = some y) :
    i ≠ r.inode ∧ s.inode i = some y := by
  have hne : i ≠ r.inode := by
    rintro rfl
    simp [TmpTree.without] at hi
  exact ⟨hne, (update_of_ne hne _ _).symm.trans hi⟩

lemma without (h : s.Counted extra) (hfds : s.fds = []) (hd : s.dirent d = some r)
    (hempty : r.children = []) : (s.without d r).Counted extra := by
  constructor
  case count =>
    intro x rx' hx
    obtain ⟨hne, rx, hrx, rfl⟩ := without_back hx
    have hcount := h.count x rx hrx
    show _ = 1 + _ + held s.fds x + extra x
    split_ifs with hp
    · obtain ⟨-, rx₂, hrx₂, hmem⟩ := h.parent d r x hd hp
      obtain rfl : rx₂ = rx := Option.some.inj (hrx₂.symm.trans hrx)
      have hlen := List.length_pos_of_mem hmem
      simp only [dropChild, List.length_erase_of_mem hmem]
      omega
    · exact hcount
  case next =>
    intro x rx' hx
    obtain ⟨-, rx, hrx, -⟩ := without_back hx
    exact h.next x rx hrx
  case nextInode =>
    intro i y hi
    exact h.nextInode i y (without_inode hi).2
  case inode =>
    intro x rx' hx
    obtain ⟨hne, rx, hrx, rfl⟩ := without_back hx
    obtain ⟨dir, hdir, hfile⟩ := h.inode x rx hrx
    have hother : rx.inode ≠ r.inode := fun heq => hne (h.sole x d rx r hrx hd heq)
    refine ⟨dir, ?_, fun hf => ?_⟩
    · split_ifs <;> exact (update_of_ne hother _ _).trans hdir
    · split_ifs
      · show rx.children.erase d = []
        rw [hfile hf]
        rfl
      · exact hfile hf
  case holder =>
    intro i y hi
    obtain ⟨hir, hi⟩ := without_inode hi
    obtain ⟨x, rx, hrx, rfl⟩ := h.holder i y hi
    have hne : x ≠ d := by
      rintro rfl
      rw [hd, Option.some.injEq] at hrx
      exact hir (hrx ▸ rfl)
    refine ⟨x, _, without_there hne hrx, ?_⟩
    split_ifs <;> rfl
  case sole =>
    intro x y rx' ry' hx hy hi
    obtain ⟨-, rx, hrx, rfl⟩ := without_back hx
    obtain ⟨-, ry, hry, rfl⟩ := without_back hy
    refine h.sole x y rx ry hrx hry ?_
    split_ifs at hi <;> exact hi
  case root =>
    intro x rx' hx hp
    obtain ⟨-, rx, hrx, rfl⟩ := without_back hx
    refine h.root x rx hrx ?_
    split_ifs at hp <;> exact hp
  case parent =>
    intro x rx' q hx hq
    obtain ⟨hne, rx, hrx, rfl⟩ := without_back hx
    have hq' : rx.parent = some q := by split_ifs at hq <;> exact hq
    obtain ⟨hlt, rq, hrq, hmem⟩ := h.parent x rx q hrx hq'
    have hqd : q ≠ d := by
      rintro rfl
      rw [Option.some.inj (hrq.symm.trans hd), hempty] at hmem
      cases hmem
    refine ⟨hlt, _, without_there hqd hrq, ?_⟩
    split_ifs
    · exact (List.mem_erase_of_ne hne).mpr hmem
    · exact hmem
  case child =>
    intro x rx' c hx hc
    obtain ⟨-, rx, hrx, rfl⟩ := without_back hx
    have hmem : c ∈ rx.children := by
      split_ifs at hc
      · exact List.mem_of_mem_erase hc
      · exact hc
    obtain ⟨rc, hrc, hpc⟩ := h.child x rx c hrx hmem
    have hcd : c ≠ d := by
      rintro rfl
      rw [Option.some.inj (hrc.symm.trans hd)] at hpc
      rw [if_pos hpc] at hc
      exact (h.nodup x rx hrx).not_mem_erase hc
    refine ⟨_, without_there hcd hrc, ?_⟩
    split_ifs <;> exact hpc
  case nodup =>
    intro x rx' hx
    obtain ⟨-, rx, hrx, rfl⟩ := without_back hx
    split_ifs
    · exact (h.nodup x rx hrx).erase d
    · exact h.nodup x rx hrx
  case fd =>
    intro f hf
    rw [show (s.without d r).fds = [] from hfds] at hf
    cases hf
  case nums =>
    rw [show (s.without d r).fds = [] from hfds]
    exact List.nodup_nil

lemma release_extra (h : s.Counted fun x => extra x + if x = d then 1 else 0)
    (hd : s.dirent d = some r) :
    ∃ t, s.release d = some t ∧ t.Counted extra ∧ t.fds = s.fds ∧ t.root = s.root ∧
      t.nextDirent = s.nextDirent ∧ t.dirent d = some { r with count := r.count - 1 } ∧
      ∀ x, x ≠ d → t.dirent x = s.dirent x := by
  have hcount := h.count d r hd
  rw [if_pos rfl] at hcount
  refine ⟨_, release_of_ne hd (by omega), h.of_same (fun x => ?_) rfl rfl rfl rfl h.fd h.nums, rfl,
    rfl, rfl, update_self _ _ _, fun x hx => update_of_ne hx _ _⟩
  by_cases hx : x = d
  · subst hx
    simp only [setDirent, update_self, hd, Option.map_some, hcount]
    congr 2
  · simp only [setDirent, update_of_ne hx]
    cases hrx : s.dirent x with
    | none => rfl
    | some rx =>
      have hcx := h.count x rx hrx
      rw [if_neg hx, Nat.add_zero] at hcx
      rw [Option.map_some, ← hcx]

end Counted

/-! ### Taking a tree apart -/

/-- What is left when the tree at `d` is gone: its parent has lost a child, and what is older is as
it was. -/
structure Cut (s t : TmpTree) (extra : ℕ → ℕ) (d : ℕ) (r : TmpDirent) : Prop where
  counted : t.Counted extra
  fds : t.fds = []
  root : t.root = s.root
  next : t.nextDirent = s.nextDirent
  gone : t.dirent d = none
  older : ∀ x, x < d → t.dirent x =
    if r.parent = some x then (s.dirent x).map (dropChild d) else s.dirent x

/-- The directory `d` in the middle of the walk over its children, `l` of which are left. -/
structure Cutting (s u : TmpTree) (extra : ℕ → ℕ) (d : ℕ) (r : TmpDirent) (l : List ℕ) : Prop where
  counted : u.Counted fun x => extra x + if x = d then 1 else 0
  fds : u.fds = []
  root : u.root = s.root
  next : u.nextDirent = s.nextDirent
  self : ∃ n, u.dirent d = some { r with children := l, count := n }
  older : ∀ x, x < d → u.dirent x = s.dirent x

namespace Counted

lemma cut_children {fuel : ℕ} (hextra : ∀ x, d ≤ x → extra x = 0)
    (hfuel : s.nextDirent ≤ d + (fuel + 1))
    (ih : ∀ {u : TmpTree} {e : ℕ → ℕ} {c : ℕ} {rc : TmpDirent}, u.Counted e → u.fds = [] →
      u.dirent c = some rc → (∀ x, c ≤ x → e x = 0) → u.nextDirent ≤ c + fuel →
      ∃ t, releaseTree fuel c u = some t ∧ Cut u t e c rc) {l : List ℕ} {u : TmpTree}
    (hu : Cutting s u extra d r l) :
    ∃ t, l.foldlM (fun u c => releaseTree fuel c u) u = some t ∧ Cutting s t extra d r [] := by
  induction l generalizing u with
  | nil => exact ⟨u, rfl, hu⟩
  | cons c cs ihl =>
    obtain ⟨n, hself⟩ := hu.self
    obtain ⟨rc, hrc, hparent⟩ := hu.counted.child d _ c hself List.mem_cons_self
    have hlt : d < c := (hu.counted.parent c rc d hrc hparent).1
    have hnone : ∀ x, c ≤ x → extra x + (if x = d then 1 else 0) = 0 := fun x hx => by
      rw [hextra x (by omega), if_neg (by omega)]
    have henough : u.nextDirent ≤ c + fuel := by
      rw [hu.next]
      omega
    obtain ⟨t, ht, hcut⟩ := ih hu.counted hu.fds hrc hnone henough
    have hself' : t.dirent d = some { r with children := cs, count := n - 1 } := by
      rw [hcut.older d hlt, if_pos hparent, hself, Option.map_some, dropChild,
        List.erase_cons_head]
    have hsame : ∀ x, x < d → t.dirent x = s.dirent x := by
      intro x hx
      have hne : rc.parent ≠ some x := fun hp => hx.ne' (Option.some.inj (hparent.symm.trans hp))
      rw [hcut.older x (hx.trans hlt), if_neg hne, hu.older x hx]
    obtain ⟨t', ht', hdone⟩ := ihl ⟨hcut.counted, hcut.fds, hcut.root.trans hu.root,
      hcut.next.trans hu.next, ⟨_, hself'⟩, hsame⟩
    exact ⟨t', by rw [List.foldlM_cons, ht]; exact ht', hdone⟩

lemma releaseTree_spec (fuel : ℕ) (h : s.Counted extra) (hfds : s.fds = [])
    (hd : s.dirent d = some r) (hextra : ∀ x, d ≤ x → extra x = 0)
    (hfuel : s.nextDirent ≤ d + fuel) : ∃ t, releaseTree fuel d s = some t ∧ Cut s t extra d r := by
  induction fuel generalizing s extra d r with
  | zero => exact absurd (h.next d r hd) hfuel.not_gt
  | succ fuel ih =>
    have hstart : Cutting s (s.bump d) extra d r r.children :=
      ⟨h.bump d, hfds, rfl, rfl, ⟨_, dirent_bump_self hd⟩, fun x hx => dirent_bump_of_ne hx.ne⟩
    obtain ⟨u, hu, hcut⟩ := cut_children hextra hfuel ih hstart
    obtain ⟨n, hself⟩ := hcut.self
    have hn : n = 2 := by
      have hcount := hcut.counted.count d _ hself
      rw [hcut.fds, hextra d le_rfl, if_pos rfl] at hcount
      exact hcount
    subst hn
    -- The reference of the walk goes, and then that of the tree.
    obtain ⟨v, hv, hcv, hvfds, hvroot, hvnext, hvself, hvsame⟩ :=
      hcut.counted.release_extra hself
    have hlast := hcv.release_last hvself rfl
    refine ⟨_, ?_, hcv.without (hvfds.trans hcut.fds) hvself rfl, hvfds.trans hcut.fds,
      hvroot.trans hcut.root, hvnext.trans hcut.next, if_pos rfl, fun x hx => ?_⟩
    · rw [releaseTree, retain_eq hd, Option.bind_some, dirent_bump_self hd, Option.bind_some]
      show Option.bind (r.children.foldlM (fun u c => releaseTree fuel c u) (s.bump d)) _ = _
      rw [hu, Option.bind_some, hv, Option.bind_some, hlast]
    · show (if x = d then none
        else if r.parent = some x then (v.dirent x).map _ else v.dirent x) = _
      rw [if_neg hx.ne, hvsame x hx.ne, hcut.older x hx]

end Counted

lemma balanced_of_freed (h : s.Freed) (hfds : s.fds = []) (hroot : s.root = none) :
    s.Balanced := by
  have hdirent : ∀ {d r}, s.dirent d ≠ some r := fun {d r} hd => by
    rw [h.1 d] at hd
    cases hd
  have hinode : ∀ {i x}, s.inode i ≠ some x := fun {i x} hi => by
    rw [h.2 i] at hi
    cases hi
  refine ⟨?_, fun d hd => absurd (hroot.symm.trans hd) (by simp)⟩
  constructor
  case nextInode => exact fun i x hi => absurd hi hinode
  case holder => exact fun i x hi => absurd hi hinode
  case fd => simp [hfds]
  case nums => simp [hfds]
  case sole => exact fun d d' r r' hd => absurd hd hdirent
  case parent => exact fun d r p hd => absurd hd hdirent
  case child => exact fun d r c hd => absurd hd hdirent
  all_goals exact fun d r hd => absurd hd hdirent

lemma Balanced.umount_spec (h : s.Balanced) {root : ℕ} (hroot : s.root = some root) :
    ∃ t, s.umount = some t ∧ t.1.Balanced ∧ (s.fds = [] → t.1.Freed) := by
  rw [umount, hroot, Option.bind_some]
  by_cases hfds : s.fds = []
  · obtain ⟨r, hr⟩ := h.rootLive root hroot
    obtain ⟨t, ht, hcut⟩ := h.toCounted.releaseTree_spec (s.nextDirent + 1) hfds hr (fun _ _ => rfl)
      (by omega)
    have hfreed : t.Freed := by
      refine hcut.counted.freed fun d rd hd hp => ?_
      have hrd := hcut.root.symm.trans (hcut.counted.root d rd hd hp)
      obtain rfl : root = d := Option.some.inj (hroot.symm.trans hrd)
      rw [hcut.gone] at hd
      cases hd
    refine ⟨({ t with root := none }, 0), ?_, balanced_of_freed hfreed hcut.fds rfl,
      fun _ => hfreed⟩
    rw [if_neg (not_not_intro hfds), ht]
    rfl
  · exact ⟨_, if_pos hfds, h, fun hno => absurd hno hfds⟩

/-! ### Runs -/

/-- What a call is given: a mounted file system, an open descriptor, and a directory to seek in. -/
def Given (s : TmpTree) : TmpTreeOp → Prop
  | .openPath .. => s.root.isSome
  | .mkdir .. => s.root.isSome
  | .stat _ => s.root.isSome
  | .close n => (s.fd n).isSome
  | .readdir n => (s.fd n).isSome
  | .telldir n => (s.fd n).isSome
  | .seekdir n _ => ((s.fd n).map fun f => s.isDir f.dirent) = some (some true)
  | .umount => s.root.isSome

/-- The call takes none of the ways on which a reference is lost or given up twice. -/
def Fits (s : TmpTree) : TmpTreeOp → Prop
  | .openPath path creat _ allocInode allocDirent _ => ∀ root ∈ s.root, ¬ s.TooLong path root ∧
      (creat = true → s.Missing path root → allocInode = true ∧ allocDirent = true)
  | .mkdir path allocInode allocDirent => ∀ root ∈ s.root, ¬ s.TooLong path root ∧
      ¬ (s.Missing path root ∧ allocInode = true ∧ allocDirent = true)
  | .stat path => ∀ root ∈ s.root, ¬ s.TooLong path root
  | .close n => ∀ f ∈ s.fd n, f.pos = none
  | .readdir _ => True
  | .telldir _ => True
  | .seekdir _ _ => True
  | .umount => True

/-- The call has accessed only what is live, and has left a balance. Unmounting has freed everything
when all descriptors are closed. -/
def Right (s : TmpTree) (op : TmpTreeOp) : Prop :=
  ∃ t, tmpTreeStep s op = some t ∧ t.1.Balanced ∧ (op = .umount → s.fds = [] → t.1.Freed)

instance decidableTooLong (s : TmpTree) : ∀ (path : List TmpName) (d : ℕ),
    Decidable (s.TooLong path d)
  | [], _ => inferInstanceAs (Decidable False)
  | c :: cs, d =>
    have : Decidable (match s.look d c with
        | .ok child => s.TooLong cs child
        | .error _ => False) :=
      match s.look d c with
      | .ok child => decidableTooLong s cs child
      | .error _ => inferInstanceAs (Decidable False)
    inferInstanceAs (Decidable (_ ∨ _))

instance decidableMissing (s : TmpTree) : ∀ (path : List TmpName) (d : ℕ),
    Decidable (s.Missing path d)
  | [], d => inferInstanceAs (Decidable (s.look d [] = .error tmpEnoent))
  | [c], d => inferInstanceAs (Decidable (s.look d c = .error tmpEnoent))
  | c :: c' :: cs, d =>
    show Decidable (match s.look d c with
        | .ok child => s.Missing (c' :: cs) child
        | .error _ => False) from
      match s.look d c with
      | .ok child => decidableMissing s (c' :: cs) child
      | .error _ => inferInstanceAs (Decidable False)

instance decidableGiven (s : TmpTree) : ∀ op, Decidable (s.Given op)
  | .openPath .. => inferInstanceAs (Decidable (s.root.isSome = true))
  | .mkdir .. => inferInstanceAs (Decidable (s.root.isSome = true))
  | .stat _ => inferInstanceAs (Decidable (s.root.isSome = true))
  | .close n => inferInstanceAs (Decidable ((s.fd n).isSome = true))
  | .readdir n => inferInstanceAs (Decidable ((s.fd n).isSome = true))
  | .telldir n => inferInstanceAs (Decidable ((s.fd n).isSome = true))
  | .seekdir n _ =>
    inferInstanceAs (Decidable (((s.fd n).map fun f => s.isDir f.dirent) = some (some true)))
  | .umount => inferInstanceAs (Decidable (s.root.isSome = true))

instance decidableFits (s : TmpTree) : ∀ op, Decidable (s.Fits op)
  | .openPath path creat _ allocInode allocDirent _ => inferInstanceAs (Decidable (∀ root ∈ s.root,
      ¬ s.TooLong path root ∧
        (creat = true → s.Missing path root → allocInode = true ∧ allocDirent = true)))
  | .mkdir path allocInode allocDirent => inferInstanceAs (Decidable (∀ root ∈ s.root,
      ¬ s.TooLong path root ∧
        ¬ (s.Missing path root ∧ allocInode = true ∧ allocDirent = true)))
  | .stat path => inferInstanceAs (Decidable (∀ root ∈ s.root, ¬ s.TooLong path root))
  | .close n => inferInstanceAs (Decidable (∀ f ∈ s.fd n, f.pos = none))
  | .readdir _ => inferInstanceAs (Decidable True)
  | .telldir _ => inferInstanceAs (Decidable True)
  | .seekdir _ _ => inferInstanceAs (Decidable True)
  | .umount => inferInstanceAs (Decidable True)

lemma Balanced.right_iff_fits (h : s.Balanced) {op : TmpTreeOp} (hgiven : s.Given op) :
    s.Right op ↔ s.Fits op := by
  have hright : op ≠ .umount →
      (s.Right op ↔ ∃ t, tmpTreeStep s op = some t ∧ t.1.Balanced) := fun hop =>
    exists_congr fun t => and_congr_right fun _ =>
      and_iff_left fun hum => absurd hum hop
  cases op with
  | openPath path creat excl allocInode allocDirent allocFd =>
    obtain ⟨root, hroot⟩ := Option.isSome_iff_exists.mp hgiven
    rw [hright (by simp)]
    refine (h.openPath_iff hroot path creat excl allocInode allocDirent allocFd).trans ?_
    simp only [Fits, hroot, Option.mem_def, Option.some.injEq, forall_eq']
  | mkdir path allocInode allocDirent =>
    obtain ⟨root, hroot⟩ := Option.isSome_iff_exists.mp hgiven
    rw [hright (by simp)]
    refine (h.mkdir_iff hroot path allocInode allocDirent).trans ?_
    simp only [Fits, hroot, Option.mem_def, Option.some.injEq, forall_eq']
  | stat path =>
    obtain ⟨root, hroot⟩ := Option.isSome_iff_exists.mp hgiven
    rw [hright (by simp)]
    refine (h.stat_iff hroot path).trans ?_
    simp only [Fits, hroot, Option.mem_def, Option.some.injEq, forall_eq']
  | close n =>
    obtain ⟨f, hf⟩ := Option.isSome_iff_exists.mp hgiven
    rw [hright (by simp)]
    simp only [Fits, hf, Option.mem_def, Option.some.injEq, forall_eq']
    cases hpos : f.pos with
    | none => exact iff_of_true (h.close_balanced hf hpos) rfl
    | some c =>
      refine iff_of_false ?_ (by simp)
      rintro ⟨t, ht, hbal⟩
      obtain ⟨t', ht', hnot⟩ := h.not_close_balanced hf hpos
      exact hnot (Option.some.inj (ht.symm.trans ht') ▸ hbal)
  | readdir n =>
    obtain ⟨f, hf⟩ := Option.isSome_iff_exists.mp hgiven
    rw [hright (by simp)]
    exact iff_of_true (h.readdir_spec hf) trivial
  | telldir n =>
    obtain ⟨f, hf⟩ := Option.isSome_iff_exists.mp hgiven
    obtain ⟨t, ht, hsame⟩ := h.telldir_spec hf
    rw [hright (by simp)]
    exact iff_of_true ⟨t, ht, hsame ▸ h⟩ trivial
  | seekdir n ptr =>
    obtain ⟨f, hf, hdir⟩ := Option.map_eq_some_iff.mp hgiven
    rw [hright (by simp)]
    exact iff_of_true (h.seekdir_spec hf hdir ptr) trivial
  | umount =>
    obtain ⟨root, hroot⟩ := Option.isSome_iff_exists.mp hgiven
    obtain ⟨t, ht, hbal, hfreed⟩ := h.umount_spec hroot
    exact iff_of_true ⟨t, ht, hbal, fun _ => hfreed⟩ trivial

lemma balanced_mounted : mounted.Balanced := by
  have hd : ∀ {d r}, mounted.dirent d = some r → d = 0 ∧ r = ⟨[], 0, 0, none, [], 0, 1⟩ := by
    intro d r h
    by_cases hd : d = 0
    · subst hd
      exact ⟨rfl, (Option.some.inj h).symm⟩
    · cases (update_of_ne hd _ (fun _ => none)).symm.trans h
  have hi : ∀ {i x}, mounted.inode i = some x → i = 0 := by
    intro i x h
    by_contra hi
    cases (update_of_ne hi _ (fun _ => none)).symm.trans h
  refine ⟨?_, fun d hroot => ⟨⟨[], 0, 0, none, [], 0, 1⟩, ?_⟩⟩
  · constructor
    case nextInode => exact fun i x h => hi h ▸ Nat.one_pos
    case holder => exact fun i x h => ⟨0, _, rfl, (hi h).symm⟩
    case fd => exact fun f hf => by cases hf
    case nums => exact List.nodup_nil
    case sole => exact fun d d' r r' h h' _ => (hd h).1.trans (hd h').1.symm
    case parent =>
      intro d r p h hp
      obtain ⟨rfl, rfl⟩ := hd h
      cases hp
    case child =>
      intro d r c h hc
      obtain ⟨rfl, rfl⟩ := hd h
      cases hc
    case inode =>
      intro d r h
      obtain ⟨rfl, rfl⟩ := hd h
      exact ⟨true, rfl, fun _ => rfl⟩
    all_goals
      intro d r h
      obtain ⟨rfl, rfl⟩ := hd h
    case count => rfl
    case next => exact Nat.one_pos
    case root => exact fun _ => rfl
    case nodup => exact List.nodup_nil
  · cases hroot
    rfl

/-- The calls of a run access only what is live and keep each count at the number of holders exactly
when each of them fits. -/
theorem lifetimes_balance {s : TmpTree} (hs : s.Balanced) {ops : List TmpTreeOp}
    (hgiven : AllSteps tmpTreeStep Given s ops) :
    AllSteps tmpTreeStep Right s ops ↔ AllSteps tmpTreeStep Fits s ops := by
  refine allSteps_iff (P := Balanced) (fun s op h hg => h.right_iff_fits hg) ?_ hs hgiven
  rintro s op - - ⟨t, ht, hbal, -⟩ r hr
  exact Option.some.inj (ht.symm.trans hr) ▸ hbal

/-- Two files, a failed creation, a directory that is read to its end, and the unmounting. -/
theorem lifetimes_balance_files :
    AllSteps tmpTreeStep Right mounted
      [.openPath [[97]] true false true true true, .openPath [[98]] true true true true true,
        .openPath [[97]] true true true true true, .mkdir [[97], [99]] true true,
        .openPath [] false false true true true, .readdir 2, .seekdir 2 0, .readdir 2, .readdir 2,
        .telldir 2, .close 2, .umount, .stat [[98]], .close 1, .close 0, .umount] :=
  (lifetimes_balance balanced_mounted (by decide +kernel)).mpr (by decide +kernel)

/-- A directory is made, and its inode has two references. -/
theorem lifetimes_not_balance :
    AllSteps tmpTreeStep Given mounted [.mkdir [[100]] true true, .umount] ∧
      ¬ AllSteps tmpTreeStep Right mounted [.mkdir [[100]] true true, .umount] := by
  refine ⟨by decide +kernel, ?_⟩
  rintro ⟨⟨t, ht, hbal, -⟩, -⟩
  have hfits := (balanced_mounted.mkdir_iff rfl [[100]] true true).mp ⟨t, ht, hbal⟩
  exact hfits.2 ⟨by decide +kernel, rfl, rfl⟩

end TmpTree

end ShellBox
