import ShellBox.Fs.TmpfsTree

/-!
# Counts and lookups of a tmpfs

In a tree that is well counted, up to the references that a call has at the moment, each count can be
given up that has been taken. A lookup has the entry it finds with one reference more, and leaves
everything else as it was, except when a component is too long.
-/

namespace ShellBox

open Function

namespace TmpTree

/-- The descriptors that hold an entry, as their own or as their position. -/
def held (fds : List TmpFd) (d : ℕ) : ℕ :=
  fds.countP (·.dirent = d) + fds.countP (·.pos = some d)

/-- The counts are those of the holders, with `extra` references on each entry, in a tree in which
each entry but the root is a child of the one that is its parent. -/
structure Counted (s : TmpTree) (extra : ℕ → ℕ) : Prop where
  count : ∀ d r, s.dirent d = some r →
    r.count = 1 + r.children.length + held s.fds d + extra d
  next : ∀ d r, s.dirent d = some r → d < s.nextDirent
  nextInode : ∀ i x, s.inode i = some x → i < s.nextInode
  inode : ∀ d r, s.dirent d = some r → ∃ dir, s.inode r.inode = some ⟨dir, 1⟩ ∧
    (dir = false → r.children = [])
  holder : ∀ i x, s.inode i = some x → ∃ d r, s.dirent d = some r ∧ r.inode = i
  sole : ∀ d d' r r', s.dirent d = some r → s.dirent d' = some r' → r.inode = r'.inode → d = d'
  root : ∀ d r, s.dirent d = some r → r.parent = none → s.root = some d
  parent : ∀ d r p, s.dirent d = some r → r.parent = some p →
    p < d ∧ ∃ r', s.dirent p = some r' ∧ d ∈ r'.children
  child : ∀ d r c, s.dirent d = some r → c ∈ r.children →
    ∃ r', s.dirent c = some r' ∧ r'.parent = some d
  nodup : ∀ d r, s.dirent d = some r → r.children.Nodup
  fd : ∀ f ∈ s.fds, f.num < s.nextFd ∧ ∃ r, s.dirent f.dirent = some r ∧
    ∀ d, f.pos = some d → d ∈ r.children
  nums : (s.fds.map TmpFd.num).Nodup

def bump (s : TmpTree) (d : ℕ) : TmpTree :=
  s.setDirent d ((s.dirent d).map fun r => { r with count := r.count + 1 })

variable {s : TmpTree} {extra : ℕ → ℕ} {d d' c : ℕ} {r : TmpDirent} {name : TmpName}

lemma dirent_bump_self (hd : s.dirent d = some r) :
    (s.bump d).dirent d = some { r with count := r.count + 1 } := by
  simp [bump, setDirent, hd]

lemma dirent_bump_of_ne (h : d' ≠ d) : (s.bump d).dirent d' = s.dirent d' :=
  update_of_ne h _ _

lemma dirent_bump (s : TmpTree) (d d' : ℕ) : (s.bump d).dirent d' =
    (s.dirent d').map fun r => { r with count := r.count + if d' = d then 1 else 0 } := by
  by_cases h : d' = d
  · subst h
    simp [bump, setDirent]
  · rw [dirent_bump_of_ne h]
    simp [h]

lemma bump_comm (s : TmpTree) (c d : ℕ) : (s.bump c).bump d = (s.bump d).bump c := by
  by_cases h : c = d
  · rw [h]
  · have hd : (s.bump c).dirent d = s.dirent d := dirent_bump_of_ne (Ne.symm h)
    have hc : (s.bump d).dirent c = s.dirent c := dirent_bump_of_ne h
    unfold bump at hd hc ⊢
    rw [hd, hc]
    simp only [setDirent]
    rw [update_comm (Ne.symm h)]

/-! ### Taking and giving up references -/

lemma retain_eq (hd : s.dirent d = some r) : s.retain d = some (s.bump d) := by
  rw [retain, bump, hd]
  rfl

lemma release_of_ne (hd : s.dirent d = some r) (hr : r.count ≠ 1) :
    s.release d = some (s.setDirent d (some { r with count := r.count - 1 })) := by
  rw [release, releaseUp, hd]
  exact if_neg hr

lemma release_bump (hd : s.dirent d = some r) (hr : r.count ≠ 0) :
    (s.bump d).release d = some s := by
  rw [release_of_ne (dirent_bump_self hd) (by simpa using hr)]
  simp only [bump, setDirent, update_idem, Nat.add_sub_cancel]
  rw [show some { r with count := r.count } = s.dirent d from hd.symm, update_eq_self]

namespace Counted

lemma count_ne (h : s.Counted extra) (hd : s.dirent d = some r) : r.count ≠ 0 := by
  rw [h.count d r hd]
  omega

lemma release_bump (h : s.Counted extra) (hd : s.dirent d = some r) :
    (s.bump d).release d = some s := TmpTree.release_bump hd (h.count_ne hd)

lemma of_same {t : TmpTree} {extra' : ℕ → ℕ} (h : s.Counted extra)
    (hdirent : ∀ d, t.dirent d = (s.dirent d).map fun r =>
      { r with count := 1 + r.children.length + held t.fds d + extra' d })
    (hinode : t.inode = s.inode) (hroot : t.root = s.root) (hnext : t.nextDirent = s.nextDirent)
    (hnextInode : t.nextInode = s.nextInode)
    (hfd : ∀ f ∈ t.fds, f.num < t.nextFd ∧ ∃ r, s.dirent f.dirent = some r ∧
      ∀ d, f.pos = some d → d ∈ r.children)
    (hnums : (t.fds.map TmpFd.num).Nodup) : t.Counted extra' := by
  have hback : ∀ d r', t.dirent d = some r' → ∃ r, s.dirent d = some r ∧
      r' = { r with count := 1 + r.children.length + held t.fds d + extra' d } := by
    intro d r' hd
    rw [hdirent, Option.map_eq_some_iff] at hd
    obtain ⟨r, hr, rfl⟩ := hd
    exact ⟨r, hr, rfl⟩
  have hthere : ∀ {d r}, s.dirent d = some r → t.dirent d =
      some { r with count := 1 + r.children.length + held t.fds d + extra' d } := by
    intro d r hr
    rw [hdirent, hr]
    rfl
  constructor
  case count =>
    intro d r' hd
    obtain ⟨r, hr, rfl⟩ := hback d r' hd
    rfl
  case next =>
    intro d r' hd
    obtain ⟨r, hr, -⟩ := hback d r' hd
    exact hnext ▸ h.next d r hr
  case nextInode =>
    rw [hinode, hnextInode]
    exact h.nextInode
  case inode =>
    intro d r' hd
    obtain ⟨r, hr, rfl⟩ := hback d r' hd
    exact hinode ▸ h.inode d r hr
  case holder =>
    intro i x hi
    obtain ⟨d, r, hr, hri⟩ := h.holder i x (hinode ▸ hi)
    exact ⟨d, _, hthere hr, hri⟩
  case sole =>
    intro d₁ d₂ r₁' r₂' h₁ h₂ hi
    obtain ⟨r₁, hr₁, rfl⟩ := hback d₁ r₁' h₁
    obtain ⟨r₂, hr₂, rfl⟩ := hback d₂ r₂' h₂
    exact h.sole d₁ d₂ r₁ r₂ hr₁ hr₂ hi
  case root =>
    intro d r' hd hp
    obtain ⟨r, hr, rfl⟩ := hback d r' hd
    exact hroot ▸ h.root d r hr hp
  case parent =>
    intro d r' p hd hp
    obtain ⟨r, hr, rfl⟩ := hback d r' hd
    obtain ⟨hlt, rp, hrp, hmem⟩ := h.parent d r p hr hp
    exact ⟨hlt, _, hthere hrp, hmem⟩
  case child =>
    intro d r' c hd hc
    obtain ⟨r, hr, rfl⟩ := hback d r' hd
    obtain ⟨rc, hrc, hpc⟩ := h.child d r c hr hc
    exact ⟨_, hthere hrc, hpc⟩
  case nodup =>
    intro d r' hd
    obtain ⟨r, hr, rfl⟩ := hback d r' hd
    exact h.nodup d r hr
  case fd =>
    intro f hf
    obtain ⟨hnum, r, hr, hpos⟩ := hfd f hf
    exact ⟨hnum, _, hthere hr, hpos⟩
  case nums => exact hnums

lemma bump (h : s.Counted extra) (d : ℕ) :
    (s.bump d).Counted fun x => extra x + if x = d then 1 else 0 := by
  refine h.of_same (fun x => ?_) rfl rfl rfl rfl h.fd h.nums
  rw [dirent_bump]
  refine Option.map_congr fun r hr => ?_
  rw [h.count x r hr, Nat.add_assoc]
  rfl

/-! ### Looking an entry up -/

lemma isDir_eq (h : s.Counted extra) (hd : s.dirent d = some r) :
    ∃ dir, s.isDir d = some dir ∧ (dir = false → r.children = []) := by
  obtain ⟨dir, hi, hdir⟩ := h.inode d r hd
  exact ⟨dir, by rw [isDir, hd, Option.bind_some, hi]; rfl, hdir⟩

end Counted

def nameOf (s : TmpTree) (d : ℕ) : Option TmpName := (s.dirent d).map TmpDirent.name

def look (s : TmpTree) (d : ℕ) (name : TmpName) : Except ℤ ℕ :=
  if s.isDir d = some true then
    match ((s.dirent d).elim [] TmpDirent.children).find? fun c => s.nameOf c = some name with
    | none => .error tmpEnoent
    | some c => .ok c
  else .error tmpEnotdir

lemma findChild_eq {l : List ℕ} (hl : ∀ c ∈ l, ∃ r, s.dirent c = some r) :
    s.findChild name l = some (l.find? fun c => s.nameOf c = some name) := by
  induction l with
  | nil => rfl
  | cons c cs ih =>
    obtain ⟨r, hr⟩ := hl c List.mem_cons_self
    rw [findChild, hr, List.find?_cons, nameOf, hr]
    by_cases hname : r.name = name
    · simp [hname]
    · simp [hname, ih fun c' hc' => hl c' (List.mem_cons_of_mem _ hc')]

namespace Counted

lemma look_ok (h : s.Counted extra) (hl : s.look d name = .ok c) :
    d < c ∧ ∃ r rc, s.dirent d = some r ∧ s.dirent c = some rc ∧ c ∈ r.children := by
  rw [look] at hl
  split_ifs at hl with hdir
  cases hd : s.dirent d with
  | none => simp [hd] at hl
  | some r =>
    rw [hd] at hl
    split at hl
    · cases hl
    · next c' hfind =>
      cases hl
      have hmem : c ∈ r.children := List.mem_of_find?_eq_some hfind
      obtain ⟨rc, hrc, hp⟩ := h.child d r c hd hmem
      exact ⟨(h.parent c rc d hrc hp).1, r, rc, rfl, hrc, hmem⟩

lemma dirLookup_eq (h : s.Counted extra) (hd : s.dirent d = some r) :
    s.dirLookup d name = some (match s.look d name with
      | .ok c => (s.bump c, .ok c)
      | .error e => (s, .error e)) := by
  obtain ⟨dir, hdir, -⟩ := h.isDir_eq hd
  have hlive : ∀ c ∈ r.children, ∃ rc, s.dirent c = some rc := fun c hc =>
    (h.child d r c hd hc).imp fun _ hrc => hrc.1
  rw [dirLookup, hd, Option.bind_some, hdir, Option.bind_some, look, hdir, hd]
  cases dir with
  | false => rfl
  | true =>
    rw [if_neg (by simp), findChild_eq hlive, if_pos rfl, Option.bind_some, Option.elim_some]
    cases hfind : r.children.find? fun c => s.nameOf c = some name with
    | none => rfl
    | some c =>
      obtain ⟨rc, hrc⟩ := hlive c (List.mem_of_find?_eq_some hfind)
      show (s.retain c).map _ = _
      rw [retain_eq hrc]
      rfl

end Counted

lemma nameOf_bump (s : TmpTree) (d : ℕ) : (s.bump d).nameOf = s.nameOf := by
  funext c
  rw [nameOf, dirent_bump, Option.map_map]
  rfl

lemma isDir_bump (s : TmpTree) (d : ℕ) : (s.bump d).isDir = s.isDir := by
  funext c
  rw [isDir, dirent_bump, isDir, Option.bind_map]
  rfl

lemma look_bump (s : TmpTree) (d : ℕ) : (s.bump d).look = s.look := by
  funext c name
  rw [look, look, nameOf_bump, isDir_bump, dirent_bump]
  cases s.dirent c <;> rfl

/-! ### Walking along a path -/

def TooLong (s : TmpTree) : List TmpName → ℕ → Prop
  | [], _ => False
  | c :: cs, d => tmpMaxName ≤ c.length ∨
      match s.look d c with
      | .ok child => TooLong s cs child
      | .error _ => False

def Missing (s : TmpTree) : List TmpName → ℕ → Prop
  | [], d => s.look d [] = .error tmpEnoent
  | [c], d => s.look d c = .error tmpEnoent
  | c :: c' :: cs, d =>
    match s.look d c with
    | .ok child => Missing s (c' :: cs) child
    | .error _ => False

inductive WalkCase (s : TmpTree) (parent : Bool) (path : List TmpName) (d : ℕ) :
    Option (TmpTree × Except ℤ (ℕ × TmpName)) → Prop
  | tooLong (d' : ℕ) (r : TmpDirent) (hlong : s.TooLong path d) (hd : s.dirent d' = some r) :
      WalkCase s parent path d (some (s.bump d', .error tmpEnametoolong))
  | failed (e : ℤ) (hlong : ¬ s.TooLong path d) (hmiss : parent = true → ¬ s.Missing path d) :
      WalkCase s parent path d (some (s, .error e))
  | found (d' : ℕ) (name : TmpName) (r : TmpDirent) (hlong : ¬ s.TooLong path d)
      (hmiss : parent = true → (s.Missing path d ↔ s.look d' name = .error tmpEnoent))
      (hd : s.dirent d' = some r) :
      WalkCase s parent path d (some (s.bump d', .ok (d', name)))

lemma WalkCase.cons {parent : Bool} {cs : List TmpName} {child : ℕ}
    {res : Option (TmpTree × Except ℤ (ℕ × TmpName))} (hlen : ¬ tmpMaxName ≤ name.length)
    (hl : s.look d name = .ok child) (hlast : ¬ (parent = true ∧ cs = []))
    (h : WalkCase s parent cs child res) : WalkCase s parent (name :: cs) d res := by
  have hlong : s.TooLong (name :: cs) d ↔ s.TooLong cs child := by
    simp only [TooLong, hl]
    exact or_iff_right hlen
  have hmiss : parent = true → (s.Missing (name :: cs) d ↔ s.Missing cs child) := by
    intro hp
    cases cs with
    | nil => exact absurd ⟨hp, rfl⟩ hlast
    | cons c' cs => simp only [Missing, hl]
  cases h with
  | tooLong d' r h hd => exact .tooLong d' r (hlong.mpr h) hd
  | failed e h hm => exact .failed e (mt hlong.mp h) fun hp => mt (hmiss hp).mp (hm hp)
  | found d' name' r h hm hd =>
    exact .found d' name' r (mt hlong.mp h) (fun hp => (hmiss hp).trans (hm hp)) hd

namespace Counted

lemma release_after_lookup (h : s.Counted extra) (hd : s.dirent d = some r)
    (hl : s.look d name = .ok c) : ((s.bump d).bump c).release d = some (s.bump c) := by
  have hne : d ≠ c := ((h.look_ok hl).1).ne
  rw [bump_comm]
  exact (h.bump c).release_bump ((dirent_bump_of_ne hne).trans hd)

lemma walk_cases (h : s.Counted extra) (parent : Bool) (path : List TmpName)
    (hd : s.dirent d = some r) : WalkCase s parent path d (walk parent path d (s.bump d)) := by
  induction path generalizing d r with
  | nil => exact .found d [] r id (fun _ => Iff.rfl) hd
  | cons c cs ih =>
    rw [walk]
    by_cases hlen : tmpMaxName ≤ c.length
    · rw [if_pos hlen]
      exact .tooLong d r (Or.inl hlen) hd
    · rw [if_neg hlen]
      by_cases hlast : parent = true ∧ cs = []
      · rw [if_pos hlast]
        obtain ⟨-, rfl⟩ := hlast
        have hlong : ¬ s.TooLong [c] d := by
          rintro (hlen' | hrest)
          · exact hlen hlen'
          · split at hrest <;> exact hrest
        exact .found d c r hlong (fun _ => Iff.rfl) hd
      · rw [if_neg hlast, (h.bump d).dirLookup_eq (dirent_bump_self hd), look_bump,
          Option.bind_some]
        cases hl : s.look d c with
        | error e =>
          show WalkCase s parent (c :: cs) d (((s.bump d).release d).bind _)
          rw [h.release_bump hd, Option.bind_some]
          refine .failed e ?_ fun hp hmiss => ?_
          · simp only [TooLong, hl, or_false]
            exact hlen
          · cases cs with
            | nil => exact hlast ⟨hp, rfl⟩
            | cons c' cs => simp only [Missing, hl] at hmiss
        | ok child =>
          show WalkCase s parent (c :: cs) d ((((s.bump d).bump child).release d).bind _)
          rw [h.release_after_lookup hd hl, Option.bind_some]
          obtain ⟨-, -, rc, -, hrc, -⟩ := h.look_ok hl
          exact (ih hrc).cons hlen hl hlast

end Counted

end TmpTree

end ShellBox
