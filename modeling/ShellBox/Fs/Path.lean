import Mathlib

/-!
# Resolving a path

`__path_normalize` copies a path name by name behind the path of a directory, drops `.`, takes
the last name back for `..`, and looks at each name for a symbolic link. A link is resolved by
starting again with its target spliced in front of what is left: at the root of the process if
the target is absolute, else at the root of the machine with the whole text so far.

A step of the loop is a definition of its own, and what it can do is said once.
-/

namespace ShellBox

abbrev CString := List Char

def maxPath : ℕ := 4096

/-- The part of `struct statbuf` that access checks read. -/
structure PathStat where
  uid : ℕ
  gid : ℕ
  mode : ℕ
  deriving DecidableEq

/-- `S_ISDIR`. -/
def PathStat.isDir (st : PathStat) : Bool := st.mode &&& 0xf000 = 0x4000

inductive PathNode
  | symlink (target : CString)
  | object (stat : PathStat)
  deriving DecidableEq

def PathNode.isDir : PathNode → Bool
  | symlink _ => false
  | object st => st.isDir

/-- What is where on the machine, over all mounts. The root of the machine is at `[]`. -/
structure FileTree where
  node : CString → Option PathNode
  leaf : ∀ path nd rest, node path = some nd → nd.isDir = false →
    node (path ++ '/' :: rest) = none

def FileTree.readlink (tree : FileTree) (path : CString) : Option CString :=
  match tree.node path with
  | some (.symlink target) => some target
  | _ => none

def FileTree.stat (tree : FileTree) (path : CString) : Option PathStat :=
  match tree.node path with
  | some (.object st) => some st
  | _ => none

structure PathCred where
  euid : ℕ
  egid : ℕ
  deriving DecidableEq

def PathCred.superuser (cred : PathCred) : Bool := cred.euid = 0

def acX : ℕ := 1

def accessCheck (cred : PathCred) (st : PathStat) (check : ℕ) : Bool :=
  cred.superuser ∨ check = 0 ∨
    st.mode &&& (if cred.euid = st.uid then check <<< 6
      else if cred.egid = st.gid then check <<< 3 else check) ≠ 0

inductive PathErr
  | enoent | enametoolong | eloop | enotdir | eacces
  deriving DecidableEq, Repr

/-- What `__path_normalize` comes to. `overflow` is a string written past its buffer. -/
inductive PathResult
  | ok (out : CString)
  | err (e : PathErr)
  | overflow
  | outOfFuel
  deriving DecidableEq, Repr

structure PathEnv where
  tree : FileTree
  rootPath : CString
  follow : Bool
  cred : PathCred

def endsName (p : CString) : Bool := p.head?.all (· = '/')

def eatSlashes (p : CString) : CString := p.dropWhile (· = '/')

def isDot (p : CString) : Bool := p.take 1 = ['.'] ∧ endsName (p.drop 1)

def isDotDot (p : CString) : Bool := p.take 2 = ['.', '.'] ∧ endsName (p.drop 2)

def popName (out : CString) : CString := ((out.reverse.dropWhile (· ≠ '/')).drop 1).reverse

/-- Copy up to a slash or the end: the name, the room left and the rest of the path. -/
def copyName : ℤ → CString → CString × ℤ × CString
  | n, [] => ([], n, [])
  | n, c :: p =>
    if c = '/' then ([], n, c :: p)
    else if 0 < n - 1 then
      let r := copyName (n - 1) p
      (c :: r.1, r.2)
    else ([], n - 1, c :: p)

def rootFloor (rootPath : CString) : ℕ := if rootPath = ['/'] then 0 else rootPath.length

def basePath (atPath : Option CString) : CString :=
  match atPath with
  | some a => if a = ['/'] then [] else a
  | none   => []

inductive NameCheck
  | go
  | link (target : CString)
  | err (e : PathErr)

inductive WalkStep
  | ret (r : PathResult)
  | link (dir target rest : CString)
  | next (out : CString) (n : ℤ) (p : CString)

namespace PathEnv

def checkName (e : PathEnv) (out : CString) (slash : Bool) : NameCheck :=
  match e.tree.readlink out with
  | some target => .link target
  | none =>
    if slash then
      match e.tree.stat out with
      | some st =>
        if ¬ st.isDir then .err .enotdir
        else if ¬ accessCheck e.cred st acX then .err .eacces
        else .go
      | none => .go
    else .go

/-- What the loop does behind a name: `out` ends before it and `out'` behind it. -/
def pastName (e : PathEnv) (out out' : CString) (n : ℤ) (q : CString) : WalkStep :=
  let p := eatSlashes q
  if e.follow ∨ p ≠ [] then
    match e.checkName out' (q.head? = some '/') with
    | .link target => .link out target p
    | .err err     => .ret (.err err)
    | .go          => .next out' n p
  else .next out' n p

/-- One round of the loop: the output, the room left in it and the rest of the path. -/
def walkStep (e : PathEnv) (out : CString) (n : ℤ) (p : CString) : WalkStep :=
  if p = [] then .ret (.ok out)
  else if isDot p then .next out n (eatSlashes (p.drop 1))
  else if isDotDot p then
    if out ≠ [] ∧ rootFloor e.rootPath < out.length then
      .next (popName out) (n + (out.length - (popName out).length)) (eatSlashes (p.drop 2))
    else .next out n (eatSlashes (p.drop 2))
  else if n < 2 then .ret (.err .enametoolong)
  else
    let r := copyName (n - 1) p
    if r.2.1 ≤ 0 then .ret (.err .enametoolong)
    else e.pastName out (out ++ '/' :: r.1) r.2.1 r.2.2

/-- The loop; `restart` goes on at a link. -/
def walk (e : PathEnv) (restart : CString → CString → CString → PathResult) :
    ℕ → CString → ℤ → CString → PathResult
  | 0, _, _, _ => .outOfFuel
  | fuel + 1, out, n, p =>
    match e.walkStep out n p with
    | .ret r => r
    | .link dir target rest => restart dir target rest
    | .next out n p => walk e restart fuel out n p

def spliced (rest : CString) : CString := if rest = [] then [] else '/' :: rest

/-- The directory and the path to start again with at a link. The target is read into what is left
of the output buffer behind `dir/`, and the expanded path is built in a buffer of the same
size. -/
def expandLink (e : PathEnv) (dir target rest : CString) : Option (Option CString × CString) :=
  let absolute := target.head? = some '/'
  let expanded := (if absolute then target else dir ++ '/' :: target) ++ spliced rest
  if maxPath ≤ dir.length + 1 + target.length ∨ maxPath ≤ expanded.length then none
  else some (if absolute then some e.rootPath else none, expanded)

/-- `__path_normalize`, with the number of links that may still be followed. -/
def pathNormalizeFrom (e : PathEnv) : ℕ → Option CString → CString → PathResult
  | left, atPath, path =>
    let base := basePath atPath
    let restart : CString → CString → CString → PathResult := fun dir target rest =>
      match left with
      | 0 => .err .eloop
      | left + 1 =>
        match e.expandLink dir target rest with
        | some (restartAt, expanded) => pathNormalizeFrom e left restartAt expanded
        | none => .overflow
    if path = [] then .err .enoent
    else if base ≠ [] ∧ maxPath - 1 < base.length + 2 then .err .enametoolong
    else e.walk restart (path.length + 1) base (maxPath - 1 - base.length) (eatSlashes path)

/-- `__path_normalize` at level 0. -/
def pathNormalize (e : PathEnv) (atPath : Option CString) (path : CString) : PathResult :=
  e.pathNormalizeFrom 5 atPath path

end PathEnv

/-! ### Names -/

structure IsName (c : CString) : Prop where
  ne_nil : c ≠ []
  slash : '/' ∉ c
  dot : c ≠ ['.']
  dotDot : c ≠ ['.', '.']

def joinPath (names : List CString) : CString := names.flatMap fun c => '/' :: c

@[simp] lemma joinPath_nil : joinPath [] = [] := rfl

@[simp] lemma joinPath_cons (c : CString) (names : List CString) :
    joinPath (c :: names) = '/' :: c ++ joinPath names := by
  simp [joinPath]

@[simp] lemma joinPath_append (names more : List CString) :
    joinPath (names ++ more) = joinPath names ++ joinPath more := by
  simp [joinPath]

lemma joinPath_concat (names : List CString) (c : CString) :
    joinPath (names ++ [c]) = joinPath names ++ '/' :: c := by
  simp

@[simp] lemma endsName_nil : endsName [] = true := rfl

@[simp] lemma endsName_slash (p : CString) : endsName ('/' :: p) = true := by
  simp [endsName]

lemma endsName_iff {p : CString} : endsName p = true ↔ p = [] ∨ ∃ q, p = '/' :: q := by
  cases p <;> simp [endsName]

lemma endsName_joinPath (names : List CString) {tail : CString} (h : endsName tail = true) :
    endsName (joinPath names ++ tail) = true := by
  cases names with
  | nil => exact h
  | cons c names => simp

lemma joinPath_eq_nil {names : List CString} : joinPath names = [] ↔ names = [] := by
  cases names <;> simp

lemma eatSlashes_of_ne {p : CString} (h : p.head? ≠ some '/') : eatSlashes p = p := by
  cases p with
  | nil => rfl
  | cons c p => simpa [eatSlashes] using h

lemma eatSlashes_slash (p : CString) : eatSlashes ('/' :: p) = eatSlashes p := by
  simp [eatSlashes]

lemma head_eatSlashes (p : CString) : (eatSlashes p).head? ≠ some '/' := by
  induction p with
  | nil => simp [eatSlashes]
  | cons c p ih =>
    by_cases hc : c = '/'
    · rw [hc, eatSlashes_slash]
      exact ih
    · simp [eatSlashes, hc]

lemma length_eatSlashes (p : CString) : (eatSlashes p).length ≤ p.length :=
  List.Sublist.length_le (List.dropWhile_sublist _)

lemma IsName.head {c : CString} (h : IsName c) (p : CString) : (c ++ p).head? ≠ some '/' := by
  cases c with
  | nil => exact absurd rfl h.ne_nil
  | cons x c =>
    intro hx
    have hxs : x = '/' := by simpa using hx
    exact h.slash (by simp [hxs])

lemma popName_append {dir c : CString} (hc : '/' ∉ c) : popName (dir ++ '/' :: c) = dir := by
  have hdrop : (c.reverse ++ '/' :: dir.reverse).dropWhile (· ≠ '/') = '/' :: dir.reverse := by
    rw [List.dropWhile_append_of_pos]
    · simp
    · intro x hx
      simp only [List.mem_reverse] at hx
      simp only [ne_eq, decide_not, Bool.not_eq_true', decide_eq_false_iff_not]
      rintro rfl
      exact hc hx
  simp only [popName, List.reverse_append, List.reverse_cons, List.append_assoc,
    List.singleton_append]
  rw [hdrop]
  simp

lemma copyName_spec (n : ℤ) (p : CString) :
    p = (copyName n p).1 ++ (copyName n p).2.2 ∧ '/' ∉ (copyName n p).1 ∧
      (0 < (copyName n p).2.1 → (copyName n p).2.1 = n - (copyName n p).1.length ∧
        endsName (copyName n p).2.2 = true) := by
  induction p generalizing n with
  | nil => simp [copyName]
  | cons c p ih =>
    rw [copyName]
    split_ifs with hc hn
    · simp [hc]
    · obtain ⟨hp, hs, hroom⟩ := ih (n - 1)
      refine ⟨congrArg (c :: ·) hp, ?_, fun hpos => ?_⟩
      · simp only [List.mem_cons, not_or]
        exact ⟨Ne.symm hc, hs⟩
      · obtain ⟨hlen, hend⟩ := hroom hpos
        refine ⟨?_, hend⟩
        simp only [hlen, List.length_cons, Nat.cast_add, Nat.cast_one]
        omega
    · refine ⟨rfl, List.not_mem_nil, fun hpos => ?_⟩
      exact absurd hpos hn

lemma copyName_append {n : ℤ} {c tail : CString} (hc : '/' ∉ c) (hend : endsName tail = true)
    (hn : (c.length : ℤ) < n) : copyName n (c ++ tail) = (c, n - c.length, tail) := by
  induction c generalizing n with
  | nil =>
    rcases endsName_iff.1 hend with rfl | ⟨q, rfl⟩ <;> simp [copyName]
  | cons x c ih =>
    have hx : x ≠ '/' := fun h => hc (by simp [h])
    have hcs : '/' ∉ c := fun h => hc (by simp [h])
    have hlen : (c.length : ℤ) < n - 1 := by
      simp only [List.length_cons, Nat.cast_add, Nat.cast_one] at hn
      omega
    have hpos : 0 < n - 1 := by omega
    rw [List.cons_append, copyName, if_neg hx, if_pos hpos, ih hcs hlen]
    simp only [List.length_cons, Nat.cast_add, Nat.cast_one, Prod.mk.injEq, true_and, and_true]
    omega

lemma isDot_iff {p : CString} : isDot p = true ↔ ∃ q, p = '.' :: q ∧ endsName q = true := by
  cases p <;> simp [isDot]

lemma isDotDot_iff {p : CString} :
    isDotDot p = true ↔ ∃ q, p = '.' :: '.' :: q ∧ endsName q = true := by
  match p with
  | [] => simp [isDotDot]
  | [c] => simp [isDotDot]
  | c :: d :: p => simp [isDotDot, and_assoc]

lemma name_unique {c d tail tail' : CString} (hc : '/' ∉ c) (hd : '/' ∉ d)
    (htail : endsName tail = true) (htail' : endsName tail' = true)
    (h : c ++ tail = d ++ tail') : c = d ∧ tail = tail' := by
  have key : ∀ {c tail : CString}, '/' ∉ c → endsName tail = true →
      (c ++ tail).takeWhile (· ≠ '/') = c := by
    intro c tail hc hend
    have hall : ∀ x ∈ c, decide (x ≠ '/') = true := by
      intro x hx
      exact decide_eq_true fun he => hc (he ▸ hx)
    rw [List.takeWhile_append_of_pos hall]
    rcases endsName_iff.1 hend with rfl | ⟨q, rfl⟩ <;> simp
  have hcd : c = d := by rw [← key hc htail, h, key hd htail']
  subst hcd
  exact ⟨rfl, List.append_cancel_left h⟩

lemma IsName.not_isDot {c tail : CString} (h : IsName c) (hend : endsName tail = true) :
    isDot (c ++ tail) = false := by
  by_contra hd
  obtain ⟨q, hq, hqe⟩ := isDot_iff.1 (Bool.not_eq_false _ ▸ hd)
  exact h.dot (name_unique h.slash (d := ['.']) (by decide) hend hqe hq).1

lemma IsName.not_isDotDot {c tail : CString} (h : IsName c) (hend : endsName tail = true) :
    isDotDot (c ++ tail) = false := by
  by_contra hd
  obtain ⟨q, hq, hqe⟩ := isDotDot_iff.1 (Bool.not_eq_false _ ▸ hd)
  exact h.dotDot (name_unique h.slash (d := ['.', '.']) (by decide) hend hqe hq).1

lemma isName_of_not_dot {c tail : CString} (hne : c ≠ []) (hs : '/' ∉ c)
    (hend : endsName tail = true) (hd : isDot (c ++ tail) = false)
    (hdd : isDotDot (c ++ tail) = false) : IsName c := by
  refine ⟨hne, hs, ?_, ?_⟩
  · rintro rfl
    have hdot : isDot (['.'] ++ tail) = true := isDot_iff.2 ⟨tail, rfl, hend⟩
    rw [hd] at hdot
    cases hdot
  · rintro rfl
    have hdots : isDotDot (['.', '.'] ++ tail) = true := isDotDot_iff.2 ⟨tail, rfl, hend⟩
    rw [hdd] at hdots
    cases hdots

/-! ### Directories -/

/-- A directory, by the path that `generic_getpath` gives for it. -/
structure Directory (tree : FileTree) where
  names : List CString
  isName : ∀ c ∈ names, IsName c
  isDir : ∃ nd, tree.node (joinPath names) = some nd ∧ nd.isDir = true
  fits : (joinPath names).length < maxPath

namespace Directory

variable {tree : FileTree}

/-- `generic_getpath`. -/
def path (d : Directory tree) : CString := if d.names = [] then ['/'] else joinPath d.names

lemma joinPath_ne_slash (d : Directory tree) : joinPath d.names ≠ ['/'] := by
  cases hn : d.names with
  | nil => simp
  | cons c names =>
    have hc := (d.isName c (by simp [hn])).ne_nil
    simp [hc]

lemma basePath_path (d : Directory tree) : basePath (some d.path) = joinPath d.names := by
  by_cases h : d.names = []
  · simp [basePath, path, h]
  · simp [basePath, path, h, d.joinPath_ne_slash]

lemma rootFloor_path (d : Directory tree) : rootFloor d.path = (joinPath d.names).length := by
  by_cases h : d.names = []
  · simp [rootFloor, path, h]
  · simp [rootFloor, path, h, d.joinPath_ne_slash]

lemma isDir_prefix (d : Directory tree) {names more : List CString} (h : d.names = names ++ more)
    {nd : PathNode} (hnd : tree.node (joinPath names) = some nd) : nd.isDir = true := by
  obtain ⟨nd', hnd', hdir⟩ := d.isDir
  rw [h, joinPath_append] at hnd'
  cases more with
  | nil =>
    rw [joinPath_nil, List.append_nil, hnd] at hnd'
    rw [Option.some.inj hnd']
    exact hdir
  | cons c more =>
    by_contra hno
    rw [joinPath_cons, List.cons_append, tree.leaf _ nd _ hnd (Bool.not_eq_true _ ▸ hno)] at hnd'
    cases hnd'

lemma readlink_prefix (d : Directory tree) {names more : List CString}
    (h : d.names = names ++ more) : tree.readlink (joinPath names) = none := by
  unfold FileTree.readlink
  split
  case h_1 target ht =>
    have hdir := d.isDir_prefix h ht
    cases hdir
  case h_2 => rfl

end Directory

/-! ### Steps of the loop -/

namespace PathEnv

lemma walkStep_name (e : PathEnv) {out c tail : CString} {n : ℤ} (hc : IsName c)
    (hend : endsName tail = true) (hn : (c.length : ℤ) + 1 < n) :
    e.walkStep out n (c ++ tail) =
      e.pastName out (out ++ '/' :: c) (n - 1 - c.length) tail := by
  have hne : c ++ tail ≠ [] := by simp [hc.ne_nil]
  have hroom : ¬ n - 1 - (c.length : ℤ) ≤ 0 := by omega
  have hsmall : ¬ n < 2 := by omega
  rw [walkStep, if_neg hne, if_neg (by simp [hc.not_isDot hend]),
    if_neg (by simp [hc.not_isDotDot hend]), if_neg hsmall,
    copyName_append hc.slash hend (by omega)]
  simp only
  rw [if_neg hroom]

lemma walkStep_full (e : PathEnv) {out c tail : CString} {n : ℤ} (hc : IsName c)
    (hend : endsName tail = true) (hn : n ≤ c.length + 1) :
    e.walkStep out n (c ++ tail) = .ret (.err .enametoolong) := by
  have hne : c ++ tail ≠ [] := by simp [hc.ne_nil]
  rw [walkStep, if_neg hne, if_neg (by simp [hc.not_isDot hend]),
    if_neg (by simp [hc.not_isDotDot hend])]
  obtain ⟨hsplit, hs, hroom⟩ := copyName_spec (n - 1) (c ++ tail)
  have hfull : (copyName (n - 1) (c ++ tail)).2.1 ≤ 0 := by
    by_contra hpos
    obtain ⟨hleft, hend'⟩ := hroom (not_le.1 hpos)
    rw [← (name_unique hc.slash hs hend hend' hsplit).1] at hleft
    omega
  simp only [hfull, if_true, ite_self]

inductive WalkCases (e : PathEnv) (out : CString) (n : ℤ) (p : CString) : WalkStep → Prop
  | done : p = [] → WalkCases e out n p (.ret (.ok out))
  | err (er : PathErr) : WalkCases e out n p (.ret (.err er))
  | dot (p' : CString) : p'.length < p.length → p'.head? ≠ some '/' →
      WalkCases e out n p (.next out n p')
  | dotDot (p' : CString) : p'.length < p.length → p'.head? ≠ some '/' → out ≠ [] →
      rootFloor e.rootPath < out.length →
      WalkCases e out n p (.next (popName out) (n + (out.length - (popName out).length)) p')
  | name (c tail : CString) : IsName c → endsName tail = true → p = c ++ tail →
      (c.length : ℤ) + 1 < n →
      WalkCases e out n p (.next (out ++ '/' :: c) (n - 1 - c.length) (eatSlashes tail))
  | link (c tail target : CString) : IsName c → endsName tail = true → p = c ++ tail →
      (c.length : ℤ) + 1 < n → e.tree.readlink (out ++ '/' :: c) = some target →
      WalkCases e out n p (.link out target (eatSlashes tail))

lemma readlink_of_checkName {e : PathEnv} {out target : CString} {slash : Bool}
    (h : e.checkName out slash = .link target) : e.tree.readlink out = some target := by
  unfold checkName at h
  split at h
  case h_1 t ht =>
    rw [ht, NameCheck.link.inj h]
  case h_2 =>
    split_ifs at h
    · split at h
      · split_ifs at h
      · cases h

lemma pastName_of_readlink {e : PathEnv} {out' : CString} (h : e.tree.readlink out' = none)
    (out tail : CString) (n : ℤ) :
    (∃ er, e.pastName out out' n tail = .ret (.err er)) ∨
      e.pastName out out' n tail = .next out' n (eatSlashes tail) := by
  unfold pastName
  simp only
  split_ifs
  · cases hcheck : e.checkName out' (tail.head? = some '/') with
    | go => exact Or.inr rfl
    | link target =>
      rw [readlink_of_checkName hcheck] at h
      cases h
    | err er => exact Or.inl ⟨er, rfl⟩
  · exact Or.inr rfl

lemma walkCases_pastName {e : PathEnv} {out c tail p : CString} {n : ℤ} (hc : IsName c)
    (hend : endsName tail = true) (hp : p = c ++ tail) (hn : (c.length : ℤ) + 1 < n) :
    WalkCases e out n p (e.pastName out (out ++ '/' :: c) (n - 1 - c.length) tail) := by
  unfold pastName
  simp only
  split_ifs
  · cases hcheck : e.checkName (out ++ '/' :: c) (tail.head? = some '/') with
    | go => exact .name c tail hc hend hp hn
    | link target => exact .link c tail target hc hend hp hn (readlink_of_checkName hcheck)
    | err er => exact .err er
  · exact .name c tail hc hend hp hn

lemma walkStep_split (e : PathEnv) (out : CString) {n : ℤ} {p : CString}
    (hp : p.head? ≠ some '/') (hnil : p ≠ []) (hdot : isDot p = false) (hdd : isDotDot p = false) :
    e.walkStep out n p = .ret (.err .enametoolong) ∨
      ∃ c tail, IsName c ∧ endsName tail = true ∧ p = c ++ tail ∧ (c.length : ℤ) + 1 < n ∧
        e.walkStep out n p = e.pastName out (out ++ '/' :: c) (n - 1 - c.length) tail := by
  unfold walkStep
  rw [if_neg hnil, hdot, hdd, if_neg (by simp), if_neg (by simp)]
  obtain ⟨hsplit, hs, hroom⟩ := copyName_spec (n - 1) p
  by_cases hsmall : n < 2
  · exact Or.inl (if_pos hsmall)
  rw [if_neg hsmall]
  simp only
  by_cases hfull : (copyName (n - 1) p).2.1 ≤ 0
  · exact Or.inl (if_pos hfull)
  rw [if_neg hfull]
  obtain ⟨hleft, hend⟩ := hroom (not_le.1 hfull)
  -- the path does not begin with a slash, so something was copied
  have hne : (copyName (n - 1) p).1 ≠ [] := by
    intro hc
    rw [hc, List.nil_append] at hsplit
    rw [← hsplit] at hend
    rcases endsName_iff.1 hend with h | ⟨q, h⟩
    · exact hnil h
    · exact hp (by rw [h]; rfl)
  rw [hsplit] at hdot hdd
  refine Or.inr ⟨_, _, isName_of_not_dot hne hs hend hdot hdd, hend, hsplit, by omega, ?_⟩
  rw [hleft]

theorem walkStep_cases (e : PathEnv) (out : CString) (n : ℤ) {p : CString}
    (hp : p.head? ≠ some '/') : WalkCases e out n p (e.walkStep out n p) := by
  have hlen : ∀ k, 0 < k → p ≠ [] → (eatSlashes (p.drop k)).length < p.length := by
    intro k hk hne
    have hpos := List.length_pos_iff.2 hne
    have hle := length_eatSlashes (p.drop k)
    rw [List.length_drop] at hle
    omega
  by_cases hnil : p = []
  · rw [walkStep, if_pos hnil]
    exact .done hnil
  by_cases hdot : isDot p = true
  · rw [walkStep, if_neg hnil, if_pos hdot]
    exact .dot _ (hlen 1 (by omega) hnil) (head_eatSlashes _)
  by_cases hdd : isDotDot p = true
  · rw [walkStep, if_neg hnil, if_neg hdot, if_pos hdd]
    split_ifs with hpop
    · exact .dotDot _ (hlen 2 (by omega) hnil) (head_eatSlashes _) hpop.1 hpop.2
    · exact .dot _ (hlen 2 (by omega) hnil) (head_eatSlashes _)
  rcases e.walkStep_split out hp hnil (Bool.not_eq_true _ ▸ hdot) (Bool.not_eq_true _ ▸ hdd) with
    hlong | ⟨c, tail, hc, hend, hsplit, hn, hpast⟩
  · rw [hlong]
    exact .err _
  · rw [hpast]
    exact walkCases_pastName hc hend hsplit hn

/-! ### Resolutions -/

/-- What happens at a link when so many more may be followed. -/
def restart (e : PathEnv) : ℕ → CString → CString → CString → PathResult
  | 0, _, _, _ => .err .eloop
  | left + 1, dir, target, rest =>
    match e.expandLink dir target rest with
    | some (restartAt, expanded) => e.pathNormalizeFrom left restartAt expanded
    | none => .overflow

lemma pathNormalizeFrom_eq (e : PathEnv) (left : ℕ) (atPath : Option CString) (path : CString) :
    e.pathNormalizeFrom left atPath path =
      if path = [] then .err .enoent
      else if basePath atPath ≠ [] ∧ maxPath - 1 < (basePath atPath).length + 2 then
        .err .enametoolong
      else e.walk (e.restart left) (path.length + 1) (basePath atPath)
        (maxPath - 1 - (basePath atPath).length) (eatSlashes path) := by
  rw [pathNormalizeFrom.eq_def]
  cases left <;> rfl

lemma restart_ok {e : PathEnv} {left : ℕ} {dir target rest r : CString}
    (h : e.restart left dir target rest = .ok r) : ∃ left' restartAt expanded,
      left = left' + 1 ∧ e.expandLink dir target rest = some (restartAt, expanded) ∧
        e.pathNormalizeFrom left' restartAt expanded = .ok r := by
  cases left with
  | zero => cases h
  | succ left =>
    rw [restart] at h
    split at h
    case h_1 restartAt expanded hexp => exact ⟨left, restartAt, expanded, rfl, hexp, h⟩
    case h_2 => cases h

def Room (out : CString) (n : ℤ) : Prop := n = maxPath - 1 - out.length ∧ 0 < n

lemma pathNormalizeFrom_ok {e : PathEnv} {left : ℕ} {atPath : Option CString} {path r : CString}
    (h : e.pathNormalizeFrom left atPath path = .ok r) : path ≠ [] ∧
      Room (basePath atPath) (maxPath - 1 - (basePath atPath).length) ∧
      e.walk (e.restart left) (path.length + 1) (basePath atPath)
        (maxPath - 1 - (basePath atPath).length) (eatSlashes path) = .ok r := by
  rw [pathNormalizeFrom_eq] at h
  split_ifs at h with hpath hbase
  refine ⟨hpath, ⟨rfl, ?_⟩, h⟩
  by_cases hb : basePath atPath = []
  · rw [hb]
    decide
  · have hlt : ¬ maxPath - 1 < (basePath atPath).length + 2 := fun hlt => hbase ⟨hb, hlt⟩
    have hmax : maxPath = 4096 := rfl
    omega

end PathEnv

end ShellBox
