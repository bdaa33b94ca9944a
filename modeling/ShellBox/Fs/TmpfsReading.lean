import ShellBox.Fs.Path
import ShellBox.Fs.TmpfsReached

/-!
# Paths and listings of a tmpfs

`tmpfs_getpath` writes the name of the entry in front of what it has, and should go on with the
parent. It does not, so it writes the same name until the buffer is full, and only the root has a
path.

A directory is listed in the order in which its entries have been made. A position is saved as the
number of an entry and found again by this number: reads, positions and returns to them are those
of a cursor over the list of the children.
-/

namespace ShellBox

open Function

namespace TmpTree

variable (s : TmpTree)

/-! ### Paths -/

/-- The loop of `tmpfs_getpath`, with `room` bytes in front of `p`. The entry stays the same. -/
def getpathLoop (root d : ℕ) : ℕ → ℕ → List UInt8 → Option (Except ℤ (List UInt8))
  | 0, _, _ => none
  | fuel + 1, room, out =>
    if d = root then some (.ok out)
    else (s.dirent d).bind fun r =>
      if room < r.name.length + 1 then some (.error tmpEnametoolong)
      else getpathLoop root d fuel (room - (r.name.length + 1)) (47 :: r.name ++ out)

/-- `tmpfs_getpath` -/
def getpath (n : ℕ) : Option (Except ℤ (List UInt8)) :=
  (s.fd n).bind fun f => s.root.bind fun root =>
    s.getpathLoop root f.dirent maxPath (maxPath - 1) []

inductive PathOf : ℕ → List TmpName → Prop
  | root {d : ℕ} : s.root = some d → PathOf d []
  | child {d p : ℕ} {r : TmpDirent} {names : List TmpName} : s.root ≠ some d →
      s.dirent d = some r → r.parent = some p → PathOf p names → PathOf d (names ++ [r.name])

def pathBytes (names : List TmpName) : List UInt8 := names.flatMap fun c => 47 :: c

/-- The path of an entry has no room in a buffer of `MAX_PATH` bytes. -/
def TooDeep (d : ℕ) : Prop := ∃ names, s.PathOf d names ∧ maxPath ≤ (pathBytes names).length

/-- `tmpfs_getpath` ends, with a path that leads to the entry or because the path of the entry does
not fit. -/
def GetpathLeads (n d : ℕ) : Prop := ∃ res, s.getpath n = some res ∧
  match res with
  | .ok path => ∃ names, path = pathBytes names ∧
      ∃ t name, s.lookup false names = some (t, .ok (d, name))
  | .error e => e = tmpEnametoolong ∧ s.TooDeep d

/-! ### Listings -/

/-- `struct dir_entry` -/
structure TmpEntry where
  inode : ℕ
  name : TmpName
  deriving DecidableEq

def entry (d : ℕ) : Option TmpEntry := (s.dirent d).map fun r => ⟨r.inode, r.name⟩

/-- `tmpfs_readdir`, with the entry that it fills in. -/
def readdirEntry (n : ℕ) : Option (TmpTree × Option TmpEntry) :=
  (s.fd n).bind fun f => (s.readdir n).bind fun r =>
    if r.2 = 1 then f.pos.bind fun d => (r.1.entry d).map fun e => (r.1, some e)
    else some (r.1, none)

end TmpTree

/-- What is done with a directory: an entry is read, the position is saved, or a saved position is
gone back to. -/
inductive ListingOp
  | read
  | tell
  | seek (i : ℕ)

structure DirSession where
  tree : TmpTree
  saved : List ℤ
  out : List (Option TmpTree.TmpEntry)

def DirSession.step (n : ℕ) (x : DirSession) : ListingOp → Option DirSession
  | .read => (x.tree.readdirEntry n).map fun r => { x with tree := r.1, out := x.out ++ [r.2] }
  | .tell => (x.tree.telldir n).map fun r => { x with tree := r.1, saved := x.saved ++ [r.2] }
  | .seek i =>
    match x.saved[i]? with
    | none => some x
    | some ptr => (x.tree.seekdir n (ptr % 2 ^ 64).toNat).map fun r => { x with tree := r.1 }

def TmpTree.listing (s : TmpTree) (n : ℕ) (ops : List ListingOp) :
    Option (List (Option TmpTree.TmpEntry)) :=
  (ops.foldlM (DirSession.step n) { tree := s, saved := [], out := [] }).map DirSession.out

structure DirCursor (α : Type) where
  place : ℕ
  saved : List ℕ
  out : List (Option α)

def DirCursor.step {α : Type} (l : List α) (x : DirCursor α) : ListingOp → DirCursor α
  | .read => { x with place := min (x.place + 1) l.length, out := x.out ++ [l[x.place]?] }
  | .tell => { x with saved := x.saved ++ [x.place] }
  | .seek i =>
    match x.saved[i]? with
    | none => x
    | some k => { x with place := k }

def cursorListing {α : Type} (l : List α) (ops : List ListingOp) : List (Option α) :=
  (ops.foldl (DirCursor.step l) { place := 0, saved := [], out := [] }).out

namespace TmpTree

def entries (s : TmpTree) (d : ℕ) : List TmpEntry :=
  ((s.dirent d).elim [] TmpDirent.children).filterMap s.entry

def AtStart (s t : TmpTree) (n : ℕ) : Prop :=
  (t = s ∧ ∀ f r, s.fd n = some f → s.dirent f.dirent = some r → f.pos = r.children.head?) ∨
    s.seekdir n 0 = some (t, 0)

structure Corresponds (s : TmpTree) (n d : ℕ) : Prop where
  getpath : s.GetpathLeads n d
  made : ∀ r, s.dirent d = some r → r.children.Pairwise (· < ·)
  lists : s.isDir d = some true → ∀ t, s.AtStart t n → ∀ ops,
    t.listing n ops = some (cursorListing (s.entries d) ops)

/-! ### Paths lead to their entries for the root only -/

variable {s t : TmpTree} {n d c : ℕ} {r : TmpDirent} {f : TmpFd}

lemma getpathLoop_stays {root : ℕ} (hne : d ≠ root) (hd : s.dirent d = some r) {fuel room : ℕ}
    (hfuel : room < fuel) (out : List UInt8) :
    s.getpathLoop root d fuel room out = some (.error tmpEnametoolong) := by
  induction fuel generalizing room out with
  | zero => omega
  | succ fuel ih =>
    rw [getpathLoop, if_neg hne, hd, Option.bind_some]
    split_ifs
    · rfl
    · exact ih (by omega) _

lemma Sound.getpath_eq (h : s.Sound) (hf : s.fd n = some f) : s.getpath n =
    if s.root = some f.dirent then some (.ok []) else some (.error tmpEnametoolong) := by
  obtain ⟨-, ⟨r, hd, -⟩, -⟩ := h.fd_split hf
  obtain ⟨root, hroot, -⟩ := h.shape.root
  rw [getpath, hf, Option.bind_some, hroot, Option.bind_some]
  by_cases hdr : f.dirent = root
  · rw [if_pos (by rw [hdr]), maxPath, getpathLoop, if_pos hdr]
  · rw [if_neg (by simpa using Ne.symm hdr)]
    exact getpathLoop_stays hdr hd (by decide) []

lemma Sound.lookup_root (h : s.Sound) (hroot : s.root = some d) :
    ∃ t name, s.lookup false [] = some (t, .ok (d, name)) := by
  obtain ⟨root, hr, hsome⟩ := h.shape.root
  obtain rfl : root = d := Option.some.inj (hr.symm.trans hroot)
  obtain ⟨r, hr'⟩ := Option.isSome_iff_exists.1 hsome
  obtain ⟨r', hd, -⟩ := exists_of_bare hr'
  exact ⟨s.bump root, [], by rw [lookup, hr, Option.bind_some, retain_eq hd]; rfl⟩

lemma Sound.getpathLeads_iff (h : s.Sound) (hf : s.fd n = some f) :
    s.GetpathLeads n f.dirent ↔ s.root = some f.dirent ∨ s.TooDeep f.dirent := by
  rw [GetpathLeads, h.getpath_eq hf]
  by_cases hroot : s.root = some f.dirent
  · rw [if_pos hroot]
    exact iff_of_true ⟨_, rfl, [], rfl, h.lookup_root hroot⟩ (Or.inl hroot)
  · rw [if_neg hroot, or_iff_right hroot]
    constructor
    · rintro ⟨res, hres, hmatch⟩
      obtain rfl := Option.some.inj hres
      exact hmatch.2
    · exact fun hdeep => ⟨_, rfl, rfl, hdeep⟩

end TmpTree

/-! ### Positions in a list -/

section Positions

variable {α : Type} {l : List α} {a : α} {k : ℕ}

lemma tail_dropWhile_ne [DecidableEq α] (hl : l.Nodup) (hk : l[k]? = some a) :
    (l.dropWhile (· ≠ a)).tail.head? = l[k + 1]? := by
  induction l generalizing k with
  | nil => simp at hk
  | cons b l ih =>
    obtain ⟨hb, hl⟩ := List.nodup_cons.1 hl
    cases k with
    | zero =>
      obtain rfl : b = a := by simpa using hk
      simp [List.head?_eq_getElem?]
    | succ k =>
      have hk' : l[k]? = some a := by simpa using hk
      have hne : b ≠ a := fun hba => hb (hba ▸ List.mem_of_getElem? hk')
      rw [List.dropWhile_cons_of_pos (by simpa using hne), ih hl hk']
      simp

lemma find?_place {p : α → Bool} (m : ℕ)
    (hp : ∀ i b, l[i]? = some b → (p b = true ↔ k ≤ i + m)) : l.find? p = l[k - m]? := by
  induction l generalizing m with
  | nil => simp
  | cons b l ih =>
    have hb := hp 0 b rfl
    by_cases hpb : p b = true
    · have hle := hb.1 hpb
      rw [List.find?_cons_of_pos hpb, show k - m = 0 by omega]
      rfl
    · have hlt : ¬ k ≤ 0 + m := fun hle => hpb (hb.2 hle)
      rw [List.find?_cons_of_neg hpb, ih (m + 1), show k - m = k - (m + 1) + 1 by omega]
      · rfl
      · intro i b' hi
        rw [hp (i + 1) b' (by simpa using hi)]
        omega

lemma getElem?_filterMap {β : Type} {g : α → Option β} (hg : ∀ b ∈ l, (g b).isSome) (k : ℕ) :
    (l.filterMap g)[k]? = l[k]?.bind g := by
  induction l generalizing k with
  | nil => simp
  | cons b l ih =>
    obtain ⟨x, hx⟩ := Option.isSome_iff_exists.1 (hg b (by simp))
    rw [List.filterMap_cons_some hx]
    cases k with
    | zero => simp [hx]
    | succ k => simpa using ih (fun b' hb' => hg b' (by simp [hb'])) k

end Positions

/-! ### A session follows a cursor -/

namespace TmpTree

variable {s t : TmpTree} {n d c : ℕ} {r : TmpDirent} {f : TmpFd}

lemma entry_eq_bare (s : TmpTree) (c : ℕ) :
    s.entry c = (s.bare c).map fun r => ⟨r.inode, r.name⟩ := by
  rw [entry, bare, Option.map_map]
  rfl

/-- What `tmpfs_telldir` gives for a place in a directory. -/
def token (len k : ℕ) : ℤ := if k < len then k else -1

lemma Shape.length_children_le (h : s.Shape) (hd : s.bare d = some r) :
    r.children.length ≤ s.nextDirent := by
  have hnodup : r.children.Nodup := (h.order d r hd).imp fun hlt => hlt.ne
  have hsub : r.children ⊆ List.range s.nextDirent := fun c hc =>
    List.mem_range.2 (h.mem_lt hd hc)
  simpa using (List.subperm_of_subset hnodup hsub).length_le

structure Follows (s : TmpTree) (n : ℕ) (f : TmpFd) (r : TmpDirent) (x : DirSession)
    (y : DirCursor TmpEntry) : Prop where
  sound : x.tree.Sound
  bare : x.tree.bare = s.bare
  dir : x.tree.isDir = s.isDir
  fd : x.tree.fd n = some { f with pos := r.children[y.place]? }
  place : y.place ≤ r.children.length
  saved : x.saved = y.saved.map (token r.children.length)
  savedPlace : ∀ k ∈ y.saved, k ≤ r.children.length
  out : x.out = y.out

variable {x : DirSession} {y : DirCursor TmpEntry}

lemma Follows.dirent (h : Follows s n f r x y) (hb : s.bare f.dirent = some r) :
    ∃ r', x.tree.dirent f.dirent = some r' ∧ r'.children = r.children := by
  rw [← h.bare] at hb
  obtain ⟨r', hr', rfl⟩ := exists_of_bare hb
  exact ⟨r', hr', rfl⟩

lemma Follows.seek (h : Follows s n f r x y) {pos : Option ℕ} {k : ℕ}
    (hs : x.tree.Seeks t n pos) (hpos : pos = r.children[k]?) (hk : k ≤ r.children.length)
    (out : Option TmpEntry) :
    Follows s n f r { x with tree := t } { y with place := k } ∧
      Follows s n f r { x with tree := t, out := x.out ++ [out] }
        { y with place := k, out := y.out ++ [out] } := by
  have hfd : t.fd n = some { f with pos := r.children[k]? } := by
    rw [hs.fd, h.fd, hpos]
    rfl
  exact ⟨⟨hs.sound, hs.bare.trans h.bare, hs.dir.trans h.dir, hfd, hk, h.saved, h.savedPlace,
      h.out⟩,
    ⟨hs.sound, hs.bare.trans h.bare, hs.dir.trans h.dir, hfd, hk, h.saved, h.savedPlace,
      congrArg (· ++ [out]) h.out⟩⟩

lemma entries_eq (hb : s.bare d = some r) : s.entries d = r.children.filterMap s.entry := by
  obtain ⟨r', hr', rfl⟩ := exists_of_bare hb
  rw [entries, hr']
  rfl

lemma Shape.entries_get (h : s.Shape) (hb : s.bare d = some r) (k : ℕ) :
    (s.entries d)[k]? = r.children[k]?.bind s.entry := by
  rw [entries_eq hb]
  refine getElem?_filterMap (fun c hc => ?_) k
  obtain ⟨rc, hrc⟩ := h.live_child hb hc
  rw [entry, hrc]
  rfl

lemma Shape.length_entries (h : s.Shape) (hb : s.bare d = some r) :
    (s.entries d).length = r.children.length := by
  rw [entries_eq hb]
  refine List.filterMap_length_eq_length.2 fun c hc => ?_
  obtain ⟨rc, hrc⟩ := h.live_child hb hc
  rw [entry, hrc]
  rfl

lemma Follows.index (h : Follows s n f r x y) (hs : s.Sound) (hb : s.bare f.dirent = some r)
    {i : ℕ} (hi : r.children[i]? = some c) : ∃ rc, x.tree.dirent c = some rc ∧ rc.index = i := by
  obtain ⟨rc, hrc, hidx⟩ := hs.shape.child f.dirent r i c hb hi
  rw [← h.bare] at hrc
  obtain ⟨rc', hrc', rfl⟩ := exists_of_bare hrc
  exact ⟨rc', hrc', hidx⟩

lemma Follows.read (h : Follows s n f r x y) (hs : s.Sound) (hb : s.bare f.dirent = some r)
    (hdir : s.isDir f.dirent = some true) : ∃ x', x.step n .read = some x' ∧
      Follows s n f r x' (y.step (s.entries f.dirent) .read) := by
  obtain ⟨r', hd', hchildren⟩ := h.dirent hb
  have hdir' : x.tree.isDir f.dirent = some true := by rw [h.dir, hdir]
  rw [DirCursor.step, hs.shape.length_entries hb, hs.shape.entries_get hb, DirSession.step,
    readdirEntry, h.fd, Option.bind_some]
  cases hpos : r.children[y.place]? with
  | none =>
    have hend : y.place = r.children.length :=
      le_antisymm h.place (List.getElem?_eq_none_iff.1 hpos)
    have hfd := h.fd
    rw [hpos] at hfd
    rw [readdir_end hfd hd' hdir' rfl]
    refine ⟨{ x with out := x.out ++ [none] }, rfl, ?_⟩
    rw [show min (y.place + 1) r.children.length = y.place by omega]
    exact ⟨h.sound, h.bare, h.dir, h.fd, h.place, h.saved, h.savedPlace,
      congrArg (· ++ [none]) h.out⟩
  | some c =>
    have hfd := h.fd
    rw [hpos] at hfd
    have hlt : y.place < r.children.length := (List.getElem?_eq_some_iff.1 hpos).1
    have hnodup : r.children.Nodup := (hs.shape.order f.dirent r hb).imp fun hlt => hlt.ne
    obtain ⟨t, ht, hseeks⟩ := h.sound.readdir_next hfd hd' hdir' rfl
    rw [hchildren, tail_dropWhile_ne hnodup hpos] at hseeks
    obtain ⟨-, hfollows⟩ := h.seek hseeks rfl hlt (s.entry c)
    have hentry : t.entry c = s.entry c := by
      rw [entry_eq_bare, entry_eq_bare, hseeks.bare, h.bare]
    obtain ⟨rc, hrc⟩ := hs.shape.live_child hb (List.mem_of_getElem? hpos)
    have hsome : s.entry c = some ⟨rc.inode, rc.name⟩ := by
      rw [entry, hrc]
      rfl
    refine ⟨{ x with tree := t, out := x.out ++ [s.entry c] }, ?_, ?_⟩
    · simp only [ht, Option.bind_some, if_true, hentry, hsome, Option.map_some]
    · rw [show min (y.place + 1) r.children.length = y.place + 1 by omega]
      exact hfollows

lemma Follows.tell (h : Follows s n f r x y) (hs : s.Sound) (hb : s.bare f.dirent = some r)
    (l : List TmpEntry) : ∃ x', x.step n .tell = some x' ∧
      Follows s n f r x' (y.step l .tell) := by
  have htell : x.tree.telldir n = some (x.tree, token r.children.length y.place) := by
    rw [telldir, h.fd, Option.bind_some, token]
    cases hpos : r.children[y.place]? with
    | none =>
      have hend := List.getElem?_eq_none_iff.1 hpos
      rw [if_neg (by omega)]
    | some c =>
      obtain ⟨rc, hrc, hidx⟩ := h.index hs hb hpos
      rw [if_pos (List.getElem?_eq_some_iff.1 hpos).1]
      simp only [hrc, Option.map_some, hidx]
  refine ⟨{ x with saved := x.saved ++ [token r.children.length y.place] }, ?_, ?_⟩
  · rw [DirSession.step, htell]
    rfl
  · refine ⟨h.sound, h.bare, h.dir, h.fd, h.place, ?_, ?_, h.out⟩
    · simp [DirCursor.step, h.saved]
    · intro k hk
      rcases List.mem_append.1 hk with hk | hk
      · exact h.savedPlace k hk
      · obtain rfl : k = y.place := by simpa using hk
        exact h.place

lemma Follows.seekdir (h : Follows s n f r x y) (hs : s.Sound) (hb : s.bare f.dirent = some r)
    (hdir : s.isDir f.dirent = some true) (ptr : ℕ) :
    ∃ t, x.tree.seekdir n ptr = some (t, 0) ∧ x.tree.Seeks t n r.children[ptr]? := by
  obtain ⟨r', hd', hchildren⟩ := h.dirent hb
  have hdir' : x.tree.isDir f.dirent = some true := by rw [h.dir, hdir]
  obtain ⟨t, ht, hseeks⟩ := h.sound.seekdir_eq h.fd hd' hdir' ptr
  rw [hchildren, find?_place 0] at hseeks
  · exact ⟨t, ht, hseeks⟩
  · intro i c hi
    obtain ⟨rc, hrc, hidx⟩ := h.index hs hb hi
    simp [hrc, hidx]

/-- The step lemma. -/
theorem Follows.step (h : Follows s n f r x y) (hs : s.Sound) (hlen : s.nextDirent < 2 ^ 64)
    (hb : s.bare f.dirent = some r) (hdir : s.isDir f.dirent = some true) (op : ListingOp) :
    ∃ x', x.step n op = some x' ∧ Follows s n f r x' (y.step (s.entries f.dirent) op) := by
  cases op with
  | read => exact h.read hs hb hdir
  | tell => exact h.tell hs hb _
  | seek i =>
    rw [DirSession.step, DirCursor.step, h.saved, List.getElem?_map]
    cases hi : y.saved[i]? with
    | none => exact ⟨x, rfl, h⟩
    | some k =>
      have hk : k ≤ r.children.length := h.savedPlace k (List.mem_of_getElem? hi)
      have hmax := hs.shape.length_children_le hb
      obtain ⟨t, ht, hseeks⟩ :=
        h.seekdir hs hb hdir ((token r.children.length k) % 2 ^ 64).toNat
      have hplace : r.children[((token r.children.length k) % 2 ^ 64).toNat]? =
          r.children[k]? := by
        rw [token]
        split_ifs with hlt
        · have hsame : ((k : ℤ) % 2 ^ 64).toNat = k := by omega
          rw [hsame]
        · rw [List.getElem?_eq_none (by omega), List.getElem?_eq_none (by omega)]
      refine ⟨{ x with tree := t }, ?_, (h.seek hseeks hplace hk none).1⟩
      simp only [Option.map_some, ht, h.saved]

/-- The run lemma. -/
theorem Follows.run (h : Follows s n f r x y) (hs : s.Sound) (hlen : s.nextDirent < 2 ^ 64)
    (hb : s.bare f.dirent = some r) (hdir : s.isDir f.dirent = some true) (ops : List ListingOp) :
    ∃ x', ops.foldlM (DirSession.step n) x = some x' ∧
      Follows s n f r x' (ops.foldl (DirCursor.step (s.entries f.dirent)) y) := by
  induction ops generalizing x y with
  | nil => exact ⟨x, rfl, h⟩
  | cons op ops ih =>
    obtain ⟨x', hx', hfollows⟩ := h.step hs hlen hb hdir op
    obtain ⟨x'', hx'', hrest⟩ := ih hfollows
    exact ⟨x'', by rw [List.foldlM_cons, hx']; exact hx'', hrest⟩

/-! ### What a descriptor tells -/

lemma Sound.lists (h : s.Sound) (hlen : s.nextDirent < 2 ^ 64) (hf : s.fd n = some f)
    (hdir : s.isDir f.dirent = some true) (hstart : s.AtStart t n) (ops : List ListingOp) :
    t.listing n ops = some (cursorListing (s.entries f.dirent) ops) := by
  obtain ⟨-, ⟨r, hd, -⟩, -⟩ := h.fd_split hf
  have hb := bare_eq hd
  have hfollows : Follows s n f { r with count := 0 } { tree := t, saved := [], out := [] }
      { place := 0, saved := [], out := [] } := by
    rcases hstart with ⟨rfl, hpos⟩ | hseek
    · refine ⟨h, rfl, rfl, ?_, Nat.zero_le _, rfl, fun k hk => (by cases hk), rfl⟩
      rw [hf, ← List.head?_eq_getElem?, ← hpos f r hf hd]
    · obtain ⟨t', ht', hseeks⟩ := h.seekdir_eq hf hd hdir 0
      obtain rfl : t' = t := (Prod.mk.inj (Option.some.inj (ht'.symm.trans hseek))).1
      rw [@find?_place _ _ 0 _ 0 fun i c _ => by simp] at hseeks
      refine ⟨hseeks.sound, hseeks.bare, hseeks.dir, ?_, Nat.zero_le _, rfl,
        fun k hk => (by cases hk), rfl⟩
      rw [hseeks.fd, hf]
      rfl
  obtain ⟨x', hx', hrest⟩ := hfollows.run h hlen hb hdir ops
  rw [listing, hx', Option.map_some, hrest.out]
  rfl

lemma PathOf.unique {names names' : List TmpName} (h : s.PathOf d names) (h' : s.PathOf d names') :
    names = names' := by
  induction h generalizing names' with
  | root hroot =>
    cases h' with
    | root => rfl
    | child hne => exact absurd hroot hne
  | child hne hd hp _ ih =>
    cases h' with
    | root hroot => exact absurd hroot hne
    | child _ hd' hp' hpath =>
      obtain rfl := Option.some.inj (hd.symm.trans hd')
      obtain rfl := Option.some.inj (hp.symm.trans hp')
      rw [ih hpath]

/-- What a descriptor of an entry tells is right if and only if the entry is the root, or has a
path that is too long for any answer. -/
theorem tmpfs_corresponds_iff (h : s.Reached) (hf : s.fd n = some f) :
    s.Corresponds n f.dirent ↔ s.root = some f.dirent ∨ s.TooDeep f.dirent := by
  obtain ⟨hs, hlen⟩ := h.sound
  rw [← hs.getpathLeads_iff hf]
  constructor
  · exact fun hc => hc.getpath
  · intro hpath
    refine ⟨hpath, fun r hd => ?_, fun hdir t hstart ops => hs.lists hlen hf hdir hstart ops⟩
    have horder := hs.shape.order f.dirent _ (bare_eq hd)
    exact horder

/-- A descriptor of the root. -/
theorem tmpfs_corresponds_root : ∃ s f, Reached s ∧ s.fd 0 = some f ∧ s.Corresponds 0 f.dirent := by
  have hstep := @Reached.step mounted _ (.openPath [] false false true true true) _ .mounted rfl
    (by decide) (by decide)
  exact ⟨_, ⟨0, 0, none⟩, hstep, rfl, (tmpfs_corresponds_iff hstep rfl).2 (Or.inl rfl)⟩

/-- The file `/a` has no path. -/
theorem tmpfs_getpath_lost : ∃ s f, Reached s ∧ s.fd 0 = some f ∧
    s.getpath 0 = some (.error tmpEnametoolong) ∧ s.PathOf f.dirent [[97]] ∧
    ¬ s.Corresponds 0 f.dirent := by
  obtain ⟨op, hop⟩ : ∃ op, op = TmpTreeOp.openPath [[97]] true false true true true := ⟨_, rfl⟩
  obtain ⟨s, hs⟩ : ∃ s, s = ((tmpTreeStep mounted op).getD (mounted, 0)).1 := ⟨_, rfl⟩
  have hstep : s.Reached := by
    rw [hs, hop]
    exact @Reached.step mounted _ (.openPath [[97]] true false true true true) _ .mounted rfl
      (by decide) (by decide)
  have hfd : s.fd 0 = some ⟨0, 1, none⟩ := by rw [hs, hop]; rfl
  have hroot : s.root = some 0 := by rw [hs, hop]; rfl
  have hpath : s.PathOf 1 [[97]] := by
    refine @PathOf.child s 1 0 ⟨[97], 1, 0, some 0, [], 0, 2⟩ [] ?_ ?_ rfl (.root hroot)
    · rw [hroot]
      decide
    · rw [hs, hop]
      rfl
  refine ⟨s, ⟨0, 1, none⟩, hstep, hfd, ?_, hpath, ?_⟩
  · exact (hstep.sound.1.getpath_eq hfd).trans (if_neg (by rw [hroot]; decide))
  · rintro ⟨hleads, -, -⟩
    rcases (hstep.sound.1.getpathLeads_iff hfd).1 hleads with hr | ⟨names, hnames, hlong⟩
    · exact absurd (hroot.symm.trans hr) (by decide)
    · rw [hnames.unique hpath] at hlong
      exact absurd hlong (by decide)

end TmpTree

end ShellBox
