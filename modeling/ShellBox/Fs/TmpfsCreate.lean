import ShellBox.Fs.TmpfsHolders

/-!
# New entries of a tmpfs

A new entry is held by the tree, and holds its inode and its directory. Creating a file keeps the
balance when both allocations succeed. Making a directory keeps it only when it fails.
-/

namespace ShellBox

open Function

namespace TmpTree

variable {s : TmpTree} {d p : ℕ} {r : TmpDirent} {name : TmpName}

/-! ### A new entry -/

/-- A new entry under `p`, of which the record is `r`, with `n` references on its inode. -/
def withEntry (s : TmpTree) (p : ℕ) (r : TmpDirent) (name : TmpName) (dir : Bool) (n : ℕ) :
    TmpTree where
  root := s.root
  dirent := update (update s.dirent p (some { r with
    nextIndex := r.nextIndex + 1
    count := r.count + 1
    children := r.children ++ [s.nextDirent] })) s.nextDirent
      (some ⟨name, s.nextInode, r.nextIndex, some p, [], 0, 1⟩)
  inode := update s.inode s.nextInode (some ⟨dir, n⟩)
  fds := s.fds
  nextDirent := s.nextDirent + 1
  nextInode := s.nextInode + 1
  nextFd := s.nextFd

lemma held_eq_zero {fds : List TmpFd} (h : ∀ f ∈ fds, f.dirent ≠ d ∧ f.pos ≠ some d) :
    held fds d = 0 := by
  rw [held, Nat.add_eq_zero_iff, List.countP_eq_zero, List.countP_eq_zero]
  exact ⟨fun f hf => by simpa using (h f hf).1, fun f hf => by simpa using (h f hf).2⟩

/-- An entry as it is after one has been added to `p`. -/
structure Grown (s : TmpTree) (p x : ℕ) (r r' : TmpDirent) : Prop where
  inode : r'.inode = r.inode
  parent : r'.parent = r.parent
  children : r'.children = r.children ++ if x = p then [s.nextDirent] else []
  count : r'.count = r.count + if x = p then 1 else 0

namespace Balanced

lemma inode_next (h : s.Balanced) : s.inode s.nextInode = none := by
  by_contra hi
  obtain ⟨x, hx⟩ := Option.ne_none_iff_exists'.mp hi
  exact absurd (h.nextInode _ x hx) (Nat.lt_irrefl _)

lemma withEntry_there (h : s.Balanced) (hp : s.dirent p = some r) (name : TmpName) (dir : Bool)
    (n : ℕ) {x : ℕ} {rx : TmpDirent} (hx : s.dirent x = some rx) :
    ∃ rx', (s.withEntry p r name dir n).dirent x = some rx' ∧ s.Grown p x rx rx' := by
  have hxn : x ≠ s.nextDirent := (h.next x rx hx).ne
  simp only [withEntry, update_of_ne hxn]
  by_cases hxp : x = p
  · subst hxp
    obtain rfl : r = rx := Option.some.inj (hp.symm.trans hx)
    rw [update_self]
    exact ⟨_, rfl, rfl, rfl, by rw [if_pos rfl], by rw [if_pos rfl]⟩
  · rw [update_of_ne hxp]
    exact ⟨rx, hx, rfl, rfl, by rw [if_neg hxp, List.append_nil], by rw [if_neg hxp, Nat.add_zero]⟩

lemma withEntry_back (h : s.Balanced) (hp : s.dirent p = some r) (name : TmpName) (dir : Bool)
    (n : ℕ) {x : ℕ} {rx' : TmpDirent} (hx : (s.withEntry p r name dir n).dirent x = some rx') :
    (x = s.nextDirent ∧ rx' = ⟨name, s.nextInode, r.nextIndex, some p, [], 0, 1⟩) ∨
      ∃ rx, s.dirent x = some rx ∧ s.Grown p x rx rx' := by
  by_cases hxn : x = s.nextDirent
  · subst hxn
    simp only [withEntry, update_self, Option.some.injEq] at hx
    exact Or.inl ⟨rfl, hx.symm⟩
  · right
    have hlive : ∃ rx, s.dirent x = some rx := by
      by_cases hxp : x = p
      · exact ⟨r, hxp ▸ hp⟩
      · simp only [withEntry, update_of_ne hxn, update_of_ne hxp] at hx
        exact ⟨rx', hx⟩
    obtain ⟨rx, hrx⟩ := hlive
    obtain ⟨ry, hry, hg⟩ := h.withEntry_there hp name dir n hrx
    obtain rfl : ry = rx' := Option.some.inj (hry.symm.trans hx)
    exact ⟨rx, hrx, hg⟩

lemma withEntry (h : s.Balanced) (hp : s.dirent p = some r) (hpdir : s.isDir p = some true)
    (name : TmpName) (dir : Bool) : (s.withEntry p r name dir 1).Balanced := by
  have hnew : (s.withEntry p r name dir 1).dirent s.nextDirent =
      some ⟨name, s.nextInode, r.nextIndex, some p, [], 0, 1⟩ := update_self _ _ _
  have hthere : ∀ {x rx}, s.dirent x = some rx → ∃ rx',
      (s.withEntry p r name dir 1).dirent x = some rx' ∧ s.Grown p x rx rx' :=
    fun hx => h.withEntry_there hp name dir 1 hx
  have hback : ∀ {x rx'}, (s.withEntry p r name dir 1).dirent x = some rx' →
      (x = s.nextDirent ∧ rx' = ⟨name, s.nextInode, r.nextIndex, some p, [], 0, 1⟩) ∨
        ∃ rx, s.dirent x = some rx ∧ s.Grown p x rx rx' :=
    fun hx => h.withEntry_back hp name dir 1 hx
  have hinode : ∀ {i y}, s.inode i = some y → (s.withEntry p r name dir 1).inode i = some y :=
    fun {i y} hi => (update_of_ne (h.nextInode i y hi).ne _ _).trans hi
  have hlive : ∀ {x rx}, s.dirent x = some rx → x ≠ s.nextDirent := fun hx => (h.next _ _ hx).ne
  have hold : ∀ {x rx}, s.dirent x = some rx → rx.inode ≠ s.nextInode := by
    intro x rx hx
    obtain ⟨b, hb, -⟩ := h.inode x rx hx
    exact (h.nextInode _ _ hb).ne
  refine ⟨?_, fun x hx => ?_⟩
  · constructor
    case count =>
      intro x rx' hx
      rcases hback hx with ⟨rfl, rfl⟩ | ⟨rx, hrx, hg⟩
      · have hzero : held s.fds s.nextDirent = 0 := by
          refine held_eq_zero fun f hf => ?_
          obtain ⟨-, rf, hrf, hpos⟩ := h.fd f hf
          refine ⟨hlive hrf, fun hfp => ?_⟩
          obtain ⟨rc, hrc, -⟩ := h.child f.dirent rf _ hrf (hpos _ hfp)
          exact hlive hrc rfl
        show 1 = 1 + 0 + held s.fds s.nextDirent + 0
        rw [hzero]
      · rw [hg.count, h.count x rx hrx, hg.children, List.length_append]
        show _ = 1 + _ + held s.fds x + 0
        split_ifs
        · rw [List.length_singleton]
          omega
        · rw [List.length_nil]
          omega
    case next =>
      intro x rx' hx
      rcases hback hx with ⟨rfl, -⟩ | ⟨rx, hrx, -⟩
      · exact Nat.lt_succ_self _
      · exact Nat.lt_succ_of_lt (h.next x rx hrx)
    case nextInode =>
      intro i y hi
      by_cases hin : i = s.nextInode
      · rw [hin]
        exact Nat.lt_succ_self _
      · exact Nat.lt_succ_of_lt (h.nextInode i y ((update_of_ne hin _ _).symm.trans hi))
    case inode =>
      intro x rx' hx
      rcases hback hx with ⟨rfl, rfl⟩ | ⟨rx, hrx, hg⟩
      · exact ⟨dir, update_self _ _ _, fun _ => rfl⟩
      · obtain ⟨b, hb, hempty⟩ := h.inode x rx hrx
        refine ⟨b, hg.inode ▸ hinode hb, fun hbf => ?_⟩
        have hxp : x ≠ p := by
          rintro rfl
          rw [isDir, hrx, Option.bind_some, hb, Option.map_some, Option.some.injEq] at hpdir
          exact absurd (hbf.symm.trans hpdir) Bool.false_ne_true
        rw [hg.children, if_neg hxp, hempty hbf]
        rfl
    case holder =>
      intro i y hi
      by_cases hin : i = s.nextInode
      · exact ⟨_, _, hnew, hin.symm⟩
      · obtain ⟨x, rx, hrx, hri⟩ := h.holder i y ((update_of_ne hin _ _).symm.trans hi)
        obtain ⟨rx', hx', hg⟩ := hthere hrx
        exact ⟨x, rx', hx', hg.inode.trans hri⟩
    case sole =>
      intro x y rx' ry' hx hy hi
      rcases hback hx with ⟨rfl, rfl⟩ | ⟨rx, hrx, hgx⟩ <;>
        rcases hback hy with ⟨rfl, rfl⟩ | ⟨ry, hry, hgy⟩
      · rfl
      · exact absurd (hgy.inode.symm.trans hi.symm) (hold hry)
      · exact absurd (hgx.inode.symm.trans hi) (hold hrx)
      · exact h.sole x y rx ry hrx hry (hgx.inode.symm.trans (hi.trans hgy.inode))
    case root =>
      intro x rx' hx hparent
      rcases hback hx with ⟨rfl, rfl⟩ | ⟨rx, hrx, hg⟩
      · cases hparent
      · exact h.root x rx hrx (hg.parent.symm.trans hparent)
    case parent =>
      intro x rx' q hx hparent
      rcases hback hx with ⟨rfl, rfl⟩ | ⟨rx, hrx, hg⟩
      · obtain rfl : p = q := Option.some.inj hparent
        obtain ⟨rp', hrp', hgp⟩ := hthere hp
        refine ⟨h.next p r hp, rp', hrp', ?_⟩
        rw [hgp.children, if_pos rfl]
        exact List.mem_append_right _ (List.mem_singleton_self _)
      · obtain ⟨hlt, rq, hrq, hmem⟩ := h.parent x rx q hrx (hg.parent.symm.trans hparent)
        obtain ⟨rq', hrq', hgq⟩ := hthere hrq
        exact ⟨hlt, rq', hrq', hgq.children ▸ List.mem_append_left _ hmem⟩
    case child =>
      intro x rx' c hx hc
      rcases hback hx with ⟨rfl, rfl⟩ | ⟨rx, hrx, hg⟩
      · cases hc
      · rw [hg.children, List.mem_append] at hc
        rcases hc with hc | hc
        · obtain ⟨rc, hrc, hpc⟩ := h.child x rx c hrx hc
          obtain ⟨rc', hrc', hgc⟩ := hthere hrc
          exact ⟨rc', hrc', hgc.parent.trans hpc⟩
        · split_ifs at hc with hxp
          · rw [List.mem_singleton] at hc
            exact ⟨_, hc ▸ hnew, hxp ▸ rfl⟩
          · cases hc
    case nodup =>
      intro x rx' hx
      rcases hback hx with ⟨rfl, rfl⟩ | ⟨rx, hrx, hg⟩
      · exact List.nodup_nil
      · rw [hg.children]
        split_ifs
        · refine (h.nodup x rx hrx).append (List.nodup_singleton _) ?_
          rw [List.disjoint_singleton]
          intro hmem
          obtain ⟨rc, hrc, -⟩ := h.child x rx _ hrx hmem
          exact hlive hrc rfl
        · rw [List.append_nil]
          exact h.nodup x rx hrx
    case fd =>
      intro f hf
      obtain ⟨hnum, rf, hrf, hpos⟩ := h.fd f hf
      obtain ⟨rf', hrf', hg⟩ := hthere hrf
      exact ⟨hnum, rf', hrf', fun d hd => hg.children ▸ List.mem_append_left _ (hpos d hd)⟩
    case nums => exact h.nums
  · obtain ⟨rx, hrx⟩ := h.rootLive x hx
    obtain ⟨rx', hrx', -⟩ := hthere hrx
    exact ⟨rx', hrx'⟩

end Balanced

lemma isDir_of_look (hl : s.look d name = .error tmpEnoent) : s.isDir d = some true := by
  by_contra hdir
  rw [look, if_neg hdir, Except.error.injEq] at hl
  exact absurd hl (by decide)

lemma withEntry_bump (hp : s.dirent p = some r) (hne : p ≠ s.nextDirent) (name : TmpName)
    (dir : Bool) (n : ℕ) : (s.bump p).withEntry p { r with count := r.count + 1 } name dir n =
      (s.withEntry p r name dir n).bump p := by
  have hwp : (s.withEntry p r name dir n).dirent p = some { r with
      nextIndex := r.nextIndex + 1
      count := r.count + 1
      children := r.children ++ [s.nextDirent] } :=
    (update_of_ne hne _ _).trans (update_self _ _ _)
  rw [bump, bump, hwp, hp]
  simp only [withEntry, setDirent, Option.map_some, update_idem]
  rw [update_comm hne.symm, update_idem]

namespace Counted

variable {extra : ℕ → ℕ}

lemma isDir_newInode (h : s.Counted extra) (hd : s.dirent d = some r) (dir : Bool) :
    (s.newInode dir).isDir d = s.isDir d := by
  obtain ⟨b, hb, -⟩ := h.inode d r hd
  have hne : r.inode ≠ s.nextInode := (h.nextInode _ _ hb).ne
  have hd' : (s.newInode dir).dirent d = some r := hd
  have hi : (s.newInode dir).inode r.inode = s.inode r.inode := update_of_ne hne _ _
  rw [isDir, isDir, hd, hd', Option.bind_some, Option.bind_some, hi]

lemma dirLink_eq (h : s.Counted extra) (hp : s.dirent p = some r) (hdir : s.isDir p = some true)
    (name : TmpName) (dir out : Bool) :
    (s.newInode dir).dirLink p name s.nextInode true out =
      some ((s.withEntry p r name dir 2).bumpPos (if out then some s.nextDirent else none),
        .ok s.nextDirent) := by
  have hpdir : (s.newInode dir).isDir p = some true := (h.isDir_newInode hp dir).trans hdir
  have hp' : (s.newInode dir).dirent p = some r := hp
  have hi : (s.newInode dir).inode s.nextInode = some ⟨dir, 1⟩ := update_self _ _ _
  rw [dirLink, hp', Option.bind_some, hpdir, Option.bind_some, if_neg (by simp), if_neg (by simp),
    retainInode, hi]
  cases out with
  | false => simp [newInode, setInode, setDirent, withEntry, bumpPos]
  | true => simp [newInode, setInode, setDirent, withEntry, bumpPos, TmpTree.bump]

lemma dirLink_fails (h : s.Counted extra) (hfree : s.inode s.nextInode = none)
    (hp : s.dirent p = some r) (hdir : s.isDir p = some true) (name : TmpName) (dir out : Bool) :
    (s.newInode dir).dirLink p name s.nextInode false out =
      some ({ s with nextInode := s.nextInode + 1 }, .error tmpEnomem) := by
  have hpdir : (s.newInode dir).isDir p = some true := (h.isDir_newInode hp dir).trans hdir
  have hp' : (s.newInode dir).dirent p = some r := hp
  have hi : (s.newInode dir).inode s.nextInode = some ⟨dir, 1⟩ := update_self _ _ _
  have hback : update s.inode s.nextInode none = s.inode := by
    rw [← hfree, update_eq_self]
  rw [dirLink, hp', Option.bind_some, hpdir, Option.bind_some, if_neg (by simp), if_pos (by simp),
    releaseInode, hi]
  simp [newInode, setInode, hback]

end Counted

/-! ### Creating a file -/

namespace Balanced

lemma skipInode (h : s.Balanced) : { s with nextInode := s.nextInode + 1 : TmpTree }.Balanced where
  count := h.count
  next := h.next
  nextInode i x hi := Nat.lt_succ_of_lt (h.nextInode i x hi)
  inode := h.inode
  holder := h.holder
  sole := h.sole
  root := h.root
  parent := h.parent
  child := h.child
  nodup := h.nodup
  fd := h.fd
  nums := h.nums
  rootLive := h.rootLive

lemma openIn_new (h : s.Balanced) (hp : s.dirent p = some r)
    (hl : s.look p name = .error tmpEnoent) (excl : Bool) :
    (s.bump p).openIn p name excl true true =
      some (((s.withEntry p r name false 1).bump p).bump s.nextDirent, .ok s.nextDirent) := by
  have hb := h.toCounted.bump p
  have hp' := dirent_bump_self hp
  have hdir : (s.bump p).isDir p = some true := by
    rw [isDir_bump]
    exact isDir_of_look hl
  have hne : p ≠ s.nextDirent := (h.next p r hp).ne
  have hlink := hb.dirLink_eq hp' hdir name false true
  rw [withEntry_bump hp hne, if_pos rfl] at hlink
  have hi : (((s.withEntry p r name false 2).bump p).bump s.nextDirent).inode s.nextInode =
      some ⟨false, 2⟩ := update_self _ _ _
  have hone : (((s.withEntry p r name false 2).bump p).bump s.nextDirent).setInode s.nextInode
      (some ⟨false, 1⟩) = ((s.withEntry p r name false 1).bump p).bump s.nextDirent := by
    simp only [TmpTree.bump, TmpTree.withEntry, setInode, setDirent, update_idem]
  rw [openIn, hb.dirLookup_eq hp', look_bump, hl]
  show (((s.bump p).newInode false).dirLink p name (s.bump p).nextInode true true).bind _ = _
  rw [hlink]
  show ((((s.withEntry p r name false 2).bump p).bump s.nextDirent).releaseInode
    s.nextInode).bind _ = _
  rw [releaseInode, hi]
  exact congrArg (fun t : TmpTree => some (t, Except.ok s.nextDirent)) hone

lemma openIn_fails (h : s.Balanced) (hp : s.dirent p = some r)
    (hl : s.look p name = .error tmpEnoent) (excl : Bool) {allocInode allocDirent : Bool}
    (hno : ¬ (allocInode = true ∧ allocDirent = true)) :
    (s.bump p).openIn p name excl allocInode allocDirent = none := by
  have hb := h.toCounted.bump p
  have hp' := dirent_bump_self hp
  have hdir : (s.bump p).isDir p = some true := by
    rw [isDir_bump]
    exact isDir_of_look hl
  rw [openIn, hb.dirLookup_eq hp', look_bump, hl]
  cases allocInode with
  | false => rfl
  | true =>
    obtain rfl : allocDirent = false := by simpa using hno
    show (((s.bump p).newInode false).dirLink p name (s.bump p).nextInode false true).bind _ = _
    rw [hb.dirLink_fails h.inode_next hp' hdir]
    show (({ s.bump p with nextInode := s.nextInode + 1 } : TmpTree).releaseInode
      s.nextInode).bind _ = _
    rw [releaseInode, show ({ s.bump p with nextInode := s.nextInode + 1 } : TmpTree).inode
      s.nextInode = none from h.inode_next]
    rfl

lemma openCreat_fails (h : s.Balanced) (hp : s.dirent p = some r)
    (hl : s.look p name = .error tmpEnoent) (excl allocFd : Bool) {allocInode allocDirent : Bool}
    (hno : ¬ (allocInode = true ∧ allocDirent = true)) :
    (s.bump p).openCreat p name excl allocInode allocDirent allocFd = none := by
  rw [openCreat, h.openIn_fails hp hl excl hno]
  rfl

lemma openCreat_spec (h : s.Balanced) (hp : s.dirent p = some r) (name : TmpName)
    (excl allocFd : Bool) {allocInode allocDirent : Bool}
    (hok : s.look p name = .error tmpEnoent → allocInode = true ∧ allocDirent = true) :
    ∃ t, (s.bump p).openCreat p name excl allocInode allocDirent allocFd = some t ∧
      t.1.Balanced := by
  have hb := h.toCounted.bump p
  have hp' := dirent_bump_self hp
  cases hl : s.look p name with
  | ok c =>
    obtain ⟨-, -, rc, -, hrc, -⟩ := h.look_ok hl
    have hopen : (s.bump p).openIn p name excl allocInode allocDirent =
        if excl then some (s.bump p, .error tmpEexist) else some ((s.bump p).bump c, .ok c) := by
      rw [openIn, hb.dirLookup_eq hp', look_bump, hl]
      cases excl with
      | false => rfl
      | true =>
        show (((s.bump p).bump c).release c).map _ = _
        obtain ⟨rc', hrc'⟩ : ∃ rc', (s.bump p).dirent c = some rc' :=
          ⟨_, by rw [dirent_bump, hrc]; rfl⟩
        rw [hb.release_bump hrc']
        rfl
    rw [openCreat, hopen]
    cases excl with
    | true =>
      refine ⟨(s, tmpEexist), ?_, h⟩
      show ((s.bump p).release p).bind _ = _
      rw [h.release_bump hp]
      rfl
    | false =>
      obtain ⟨t, ht, hrest⟩ := h.openFd_spec hrc allocFd
      refine ⟨t, ?_, hrest⟩
      show (((s.bump p).bump c).release p).bind _ = _
      rw [h.release_after_lookup hp hl]
      exact ht
  | error e =>
    by_cases he : e = tmpEnoent
    · subst he
      obtain ⟨rfl, rfl⟩ := hok hl
      have hw := h.withEntry hp (isDir_of_look hl) name false
      have hnew : (s.withEntry p r name false 1).dirent s.nextDirent =
          some ⟨name, s.nextInode, r.nextIndex, some p, [], 0, 1⟩ := update_self _ _ _
      obtain ⟨rp, hrp, -⟩ := h.withEntry_there hp name false 1 hp
      have hrp' := (dirent_bump_of_ne (d := s.nextDirent) (h.next p r hp).ne).trans hrp
      obtain ⟨t, ht, hbal⟩ := hw.openFd_spec hnew allocFd
      refine ⟨t, ?_, hbal⟩
      rw [openCreat, h.openIn_new hp hl]
      show ((((s.withEntry p r name false 1).bump p).bump s.nextDirent).release p).bind _ = _
      rw [bump_comm, (hw.toCounted.bump s.nextDirent).release_bump hrp']
      exact ht
    · refine ⟨(s, e), ?_, h⟩
      rw [openCreat, openIn, hb.dirLookup_eq hp', look_bump, hl]
      show (if e ≠ tmpEnoent then _ else _ : Option _).bind _ = _
      rw [if_pos he, Option.bind_some, h.release_bump hp]
      rfl

end Balanced

/-! ### Making a directory -/

namespace Balanced

lemma mkdirIn_spec (h : s.Balanced) (hp : s.dirent p = some r) (name : TmpName)
    {allocInode allocDirent : Bool}
    (hno : s.look p name = .error tmpEnoent → ¬ (allocInode = true ∧ allocDirent = true)) :
    ∃ t, ((s.bump p).mkdirIn p name allocInode allocDirent).bind
      (fun r => (r.1.release p).map (·, r.2)) = some t ∧ t.1.Balanced := by
  have hb := h.toCounted.bump p
  have hp' := dirent_bump_self hp
  have hback : ∀ e : ℤ, (some (s.bump p, e)).bind
      (fun r : TmpTree × ℤ => (r.1.release p).map (·, r.2)) = some (s, e) := by
    intro e
    rw [Option.bind_some, h.release_bump hp]
    rfl
  rw [mkdirIn, hb.dirLookup_eq hp', look_bump, Option.bind_some]
  cases hl : s.look p name with
  | ok c =>
    obtain ⟨-, -, rc, -, hrc, -⟩ := h.look_ok hl
    obtain ⟨rc', hrc'⟩ : ∃ rc', (s.bump p).dirent c = some rc' :=
      ⟨_, by rw [dirent_bump, hrc]; rfl⟩
    refine ⟨(s, tmpEexist), ?_, h⟩
    show ((((s.bump p).bump c).release c).map _).bind _ = _
    rw [hb.release_bump hrc']
    exact hback tmpEexist
  | error e =>
    by_cases he : e = tmpEnoent
    · subst he
      show ∃ t, (if ¬ allocInode = true then _ else _ : Option _).bind _ = some t ∧ _
      cases allocInode with
      | false => exact ⟨(s, tmpEnomem), hback tmpEnomem, h⟩
      | true =>
        obtain rfl : allocDirent = false := by simpa using hno hl
        have hdir : (s.bump p).isDir p = some true := by
          rw [isDir_bump]
          exact isDir_of_look hl
        have hs := h.skipInode
        refine ⟨({ s with nextInode := s.nextInode + 1 }, tmpEnomem), ?_, hs⟩
        rw [if_neg (by simp), hb.dirLink_fails h.inode_next hp' hdir]
        show ((({ s with nextInode := s.nextInode + 1 } : TmpTree).bump p).release p).map _ = _
        rw [hs.release_bump hp]
        rfl
    · refine ⟨(s, e), ?_, h⟩
      show (if e ≠ tmpEnoent then _ else _ : Option _).bind _ = _
      rw [if_pos he]
      exact hback e

lemma not_mkdirIn_balanced (h : s.Balanced) (hp : s.dirent p = some r)
    (hl : s.look p name = .error tmpEnoent) :
    ∃ t, ((s.bump p).mkdirIn p name true true).bind
      (fun r => (r.1.release p).map (·, r.2)) = some t ∧ ¬ t.1.Balanced := by
  have hb := h.toCounted.bump p
  have hp' := dirent_bump_self hp
  have hne : p ≠ s.nextDirent := (h.next p r hp).ne
  have hdir : (s.bump p).isDir p = some true := by
    rw [isDir_bump]
    exact isDir_of_look hl
  have hlink := hb.dirLink_eq hp' hdir name true false
  rw [withEntry_bump hp hne, if_neg (by simp)] at hlink
  have hpw : ∃ rp, (s.withEntry p r name true 2).dirent p = some rp ∧ rp.count ≠ 0 := by
    refine ⟨_, (update_of_ne hne _ _).trans (update_self _ _ _), ?_⟩
    exact Nat.succ_ne_zero _
  obtain ⟨rp, hrp, hcount⟩ := hpw
  refine ⟨(s.withEntry p r name true 2, 0), ?_, fun h' => ?_⟩
  · rw [mkdirIn, hb.dirLookup_eq hp', look_bump, hl]
    show ((((s.bump p).newInode true).dirLink p name (s.bump p).nextInode true false).map _).bind
      _ = _
    rw [hlink]
    show (((s.withEntry p r name true 2).bump p).release p).map _ = _
    rw [TmpTree.release_bump hrp hcount]
    rfl
  · have hnew : (s.withEntry p r name true 2).dirent s.nextDirent =
        some ⟨name, s.nextInode, r.nextIndex, some p, [], 0, 1⟩ := update_self _ _ _
    have htwo : (s.withEntry p r name true 2).inode s.nextInode = some ⟨true, 2⟩ :=
      update_self _ _ _
    obtain ⟨dir, hdir, -⟩ := h'.inode _ _ hnew
    rw [htwo] at hdir
    cases hdir

/-! ### Calls with a path -/

variable {root : ℕ}

lemma openPath_iff (h : s.Balanced) (hroot : s.root = some root) (path : List TmpName)
    (creat excl allocInode allocDirent allocFd : Bool) :
    (∃ t, s.openPath path creat excl allocInode allocDirent allocFd = some t ∧ t.1.Balanced) ↔
    ¬ s.TooLong path root ∧ (creat = true → s.Missing path root →
      allocInode = true ∧ allocDirent = true) := by
  rw [openPath]
  have hcases := h.lookup_cases hroot creat path
  generalize s.lookup creat path = res at hcases
  cases hcases with
  | tooLong d r hlong hd =>
    refine iff_of_false ?_ fun hfits => hfits.1 hlong
    rintro ⟨t, ht, hbal⟩
    cases ht
    exact not_balanced_bump h hd hbal
  | failed e hlong hmiss =>
    refine iff_of_true ⟨_, rfl, h⟩ ⟨hlong, fun hc hm => absurd hm (hmiss hc)⟩
  | found d name r hlong hmiss hd =>
    cases creat with
    | false => exact iff_of_true (h.openFd_spec hd allocFd) ⟨hlong, by simp⟩
    | true =>
      have hiff := hmiss rfl
      show (∃ t, (s.bump d).openCreat d name excl allocInode allocDirent allocFd = some t ∧ _) ↔ _
      constructor
      · rintro ⟨t, ht, -⟩
        refine ⟨hlong, fun _ hm => ?_⟩
        by_contra hno
        rw [h.openCreat_fails hd (hiff.mp hm) excl allocFd hno] at ht
        cases ht
      · rintro ⟨-, hok⟩
        exact h.openCreat_spec hd name excl allocFd fun hl => hok rfl (hiff.mpr hl)

lemma mkdir_iff (h : s.Balanced) (hroot : s.root = some root) (path : List TmpName)
    (allocInode allocDirent : Bool) :
    (∃ t, s.mkdir path allocInode allocDirent = some t ∧ t.1.Balanced) ↔
    ¬ s.TooLong path root ∧
      ¬ (s.Missing path root ∧ allocInode = true ∧ allocDirent = true) := by
  rw [mkdir]
  have hcases := h.lookup_cases hroot true path
  generalize s.lookup true path = res at hcases
  cases hcases with
  | tooLong d r hlong hd =>
    refine iff_of_false ?_ fun hfits => hfits.1 hlong
    rintro ⟨t, ht, hbal⟩
    cases ht
    exact not_balanced_bump h hd hbal
  | failed e hlong hmiss =>
    refine iff_of_true ⟨_, rfl, h⟩ ⟨hlong, fun hm => absurd hm.1 (hmiss rfl)⟩
  | found d name r hlong hmiss hd =>
    have hiff := hmiss rfl
    show (∃ t, ((s.bump d).mkdirIn d name allocInode allocDirent).bind _ = some t ∧ _) ↔ _
    constructor
    · rintro ⟨t, ht, hbal⟩
      refine ⟨hlong, ?_⟩
      rintro ⟨hm, rfl, rfl⟩
      obtain ⟨t', ht', hnot⟩ := h.not_mkdirIn_balanced hd (hiff.mp hm)
      obtain rfl : t = t' := Option.some.inj (ht.symm.trans ht')
      exact hnot hbal
    · rintro ⟨-, hno⟩
      exact h.mkdirIn_spec hd name fun hl hboth => hno ⟨hiff.mpr hl, hboth⟩

lemma stat_iff (h : s.Balanced) (hroot : s.root = some root) (path : List TmpName) :
    (∃ t, s.stat path = some t ∧ t.1.Balanced) ↔ ¬ s.TooLong path root := by
  rw [stat]
  have hcases := h.lookup_cases hroot false path
  generalize s.lookup false path = res at hcases
  cases hcases with
  | tooLong d r hlong hd =>
    refine iff_of_false ?_ fun hfits => hfits hlong
    rintro ⟨t, ht, hbal⟩
    cases ht
    exact not_balanced_bump h hd hbal
  | failed e hlong hmiss => exact iff_of_true ⟨_, rfl, h⟩ hlong
  | found d name r hlong hmiss hd =>
    refine iff_of_true ⟨(s, 0), ?_, h⟩ hlong
    obtain ⟨dir, hdir, -⟩ := h.isDir_eq hd
    show (((s.bump d).isDir d).bind fun _ => ((s.bump d).release d).map _) = _
    rw [isDir_bump, hdir, Option.bind_some, h.release_bump hd]
    rfl

end Balanced

end TmpTree

end ShellBox
