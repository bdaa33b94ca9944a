import ShellBox.Fs.BindRouting
import ShellBox.Fs.PathAccess
import ShellBox.Fs.PathNormal

/-!
# What a resolution writes

`__path_normalize` builds its result in a buffer of `MAX_PATH` bytes and leaves room for each
name. At a link it measures nothing: the terminator of the target is written behind the bytes that
have been read, and the target and the rest of the path are put together in a second buffer of the
same size.

A resolution is seen as its rounds, those of all its calls. What is written is told for each round.
-/

namespace ShellBox

/-! ### The rounds -/

/-- A round of the loop: the links that may still be followed, the output, the room left in it and
the rest of the path. -/
structure PathRound where
  left : ℕ
  out : CString
  n : ℤ
  p : CString

namespace PathEnv

/-- Where the loop of a call begins, if the call does not fail before. -/
def enter (left : ℕ) (atPath : Option CString) (path : CString) : Option PathRound :=
  let base := basePath atPath
  if path = [] then none
  else if base ≠ [] ∧ maxPath - 1 < base.length + 2 then none
  else some ⟨left, base, maxPath - 1 - base.length, eatSlashes path⟩

/-- The rounds of a resolution. Those before the first link have five links left. -/
inductive Round (e : PathEnv) (atPath : Option CString) (path : CString) : PathRound → Prop
  | enter {s : PathRound} : enter 5 atPath path = some s → Round e atPath path s
  | next {s : PathRound} {out p : CString} {n : ℤ} : Round e atPath path s →
      e.walkStep s.out s.n s.p = .next out n p → Round e atPath path ⟨s.left, out, n, p⟩
  | link {s t : PathRound} {left : ℕ} {dir target rest expanded : CString}
      {restartAt : Option CString} : Round e atPath path s →
      e.walkStep s.out s.n s.p = .link dir target rest → s.left = left + 1 →
      e.expandLink dir target rest = some (restartAt, expanded) →
      PathEnv.enter left restartAt expanded = some t → Round e atPath path t

/-- A round that comes to a link and follows it: the name, behind the directory of the round, has a
link, and something behind it unless the last name is to be followed, too. -/
def MeetsLink (e : PathEnv) (s : PathRound) (target rest : CString) : Prop :=
  ∃ c tail, IsName c ∧ endsName tail = true ∧ s.p = c ++ tail ∧ rest = eatSlashes tail ∧
    (c.length : ℤ) + 1 < s.n ∧ (e.follow = true ∨ rest ≠ []) ∧
    e.tree.readlink (s.out ++ '/' :: c) = some target

/-! ### What is written -/

def nameStores (out : CString) (n : ℤ) (p : CString) : List CString :=
  if p = [] ∨ isDot p ∨ isDotDot p ∨ n < 2 then [] else [out ++ '/' :: (copyName (n - 1) p).1]

/-- What is written at a link. As many bytes are read behind `dir/` as the buffer has, and a
terminator is put behind them. -/
def linkStores (left : ℕ) (dir target rest : CString) : List CString :=
  if left = 0 then []
  else
    let read := target.take (maxPath - (dir.length + 1))
    [dir ++ '/' :: read,
      (if read.head? = some '/' then read else dir ++ '/' :: read) ++ spliced rest]

def stored (e : PathEnv) (s : PathRound) : List CString :=
  s.out :: nameStores s.out s.n s.p ++
    match e.walkStep s.out s.n s.p with
    | .link dir target rest => linkStores s.left dir target rest
    | _ => []

def LinkFits (dir target rest : CString) : Prop :=
  dir.length + 1 + target.length < maxPath ∧
    ((if target.head? = some '/' then target else dir ++ '/' :: target) ++ spliced rest).length <
      maxPath

end PathEnv

/-! ### The lexical resolution -/

/-- The names with a component more: `..` takes the last name back, but not at the root. -/
def resolveName (root names : List CString) (c : CString) : List CString :=
  if c = ['.', '.'] ∧ names = root then names else pushName names c

def resolve (root start comps : List CString) : List CString := comps.foldl (resolveName root) start

namespace PathEnv

variable {e : PathEnv} {root start : List CString} {atPath : Option CString} {path out p : CString}
  {n : ℤ} {s t : PathRound}

/-- What is said of a resolution that begins at some names in a process with some root. As the
lexical resolution tells the result, it tells what comes before the result: without links, two
wrong steps could make up for each other. -/
structure Canonical (e : PathEnv) (root start : List CString) (atPath : Option CString)
    (path : CString) : Prop where
  result : ∀ r, e.pathNormalize atPath path = .ok r → r.length < maxPath ∧
    pathIsNormalized r = true ∧ ∀ c ∈ components r, c ≠ ['.'] ∧ c ≠ ['.', '.']
  lexical : ∀ r, e.pathNormalize atPath path = .ok r →
    (∀ s target rest, e.Round atPath path s → ¬ e.MeetsLink s target rest) →
    r = joinPath (resolve root start (components path))
  along : ∀ s, e.Round atPath path s → s.left = 5 → ∃ past,
    components path = past ++ components s.p ∧ s.out = joinPath (resolve root start past)
  fits : ∀ s, e.Round atPath path s → ∀ text ∈ e.stored s, text.length < maxPath

/-- No link that may be followed is too long, and no `..` is read off the root at a text that is
not longer than that of the root. -/
structure WithinBounds (e : PathEnv) (root : List CString) (atPath : Option CString)
    (path : CString) : Prop where
  link : ∀ s target rest, e.Round atPath path s → s.left ≠ 0 → e.MeetsLink s target rest →
    LinkFits s.out target rest
  dotDot : ∀ s, e.Round atPath path s → s.left = 5 → isDotDot s.p = true → s.out ≠ [] →
    s.out ≠ joinPath root → rootFloor e.rootPath < s.out.length

/-! ### Components -/

lemma components_slash (p : CString) : components ('/' :: p) = components p := by
  rw [components, ← List.nil_append ('/' :: p),
    List.splitOn_append_cons_self_of_not_mem (List.not_mem_nil), List.filter_cons_of_neg (by simp)]
  rfl

lemma components_eatSlashes (p : CString) : components (eatSlashes p) = components p := by
  induction p with
  | nil => rfl
  | cons c p ih =>
    by_cases hc : c = '/'
    · rw [hc, eatSlashes_slash, components_slash]
      exact ih
    · rw [eatSlashes_of_ne (by simpa using hc)]

lemma components_append {c tail : CString} (hne : c ≠ []) (hs : '/' ∉ c)
    (hend : endsName tail = true) :
    components (c ++ tail) = c :: components (eatSlashes tail) := by
  rcases endsName_iff.1 hend with rfl | ⟨q, rfl⟩
  · rw [List.append_nil, components, List.splitOn_eq_singleton hs,
      List.filter_cons_of_pos (by simpa using hne)]
    rfl
  · rw [components, List.splitOn_append_cons_self_of_not_mem hs,
      List.filter_cons_of_pos (by simpa using hne), eatSlashes_slash, components_eatSlashes]
    rfl

lemma components_dotDot (h : isDotDot p = true) : ∃ q, p = '.' :: '.' :: q ∧
    components p = ['.', '.'] :: components (eatSlashes q) := by
  obtain ⟨q, rfl, hend⟩ := isDotDot_iff.1 h
  exact ⟨q, rfl, @components_append ['.', '.'] q (by simp) (by decide) hend⟩

/-! ### A round -/

lemma pastName_link {out' q dir target rest : CString}
    (h : e.pastName out out' n q = .link dir target rest) : dir = out ∧ rest = eatSlashes q ∧
      (e.follow = true ∨ rest ≠ []) ∧ e.tree.readlink out' = some target := by
  unfold pastName at h
  simp only at h
  split_ifs at h with hlook
  cases hcheck : e.checkName out' (q.head? = some '/') with
  | go => rw [hcheck] at h; cases h
  | err er => rw [hcheck] at h; cases h
  | link t =>
    rw [hcheck] at h
    obtain ⟨rfl, rfl, rfl⟩ := WalkStep.link.inj h
    exact ⟨rfl, rfl, hlook, readlink_of_checkName hcheck⟩

lemma pastName_next {out' q o p' : CString} {n' : ℤ}
    (h : e.pastName out out' n q = .next o n' p') : o = out' ∧ n' = n ∧ p' = eatSlashes q := by
  unfold pastName at h
  simp only at h
  split_ifs at h
  · cases hcheck : e.checkName out' (q.head? = some '/') with
    | go =>
      rw [hcheck] at h
      obtain ⟨rfl, rfl, rfl⟩ := WalkStep.next.inj h
      exact ⟨rfl, rfl, rfl⟩
    | err er => rw [hcheck] at h; cases h
    | link t => rw [hcheck] at h; cases h
  · obtain ⟨rfl, rfl, rfl⟩ := WalkStep.next.inj h
    exact ⟨rfl, rfl, rfl⟩

lemma pastName_of_link {out' q target : CString} (hlook : e.follow = true ∨ eatSlashes q ≠ [])
    (hlink : e.tree.readlink out' = some target) :
    e.pastName out out' n q = .link out target (eatSlashes q) := by
  unfold pastName checkName
  simp only [hlook, if_true, hlink]

lemma walkStep_ret_ne {r : CString} (hp : p.head? ≠ some '/') (hnil : p ≠ []) :
    e.walkStep out n p ≠ .ret (.ok r) := by
  intro h
  have hcases := e.walkStep_cases out n hp
  rw [h] at hcases
  cases hcases with
  | done hp' => exact hnil hp'

lemma walkStep_link_iff {dir target rest : CString} (hp : s.p.head? ≠ some '/') :
    e.walkStep s.out s.n s.p = .link dir target rest ↔
      dir = s.out ∧ e.MeetsLink s target rest := by
  constructor
  · intro h
    by_cases hnil : s.p = []
    · rw [walkStep, if_pos hnil] at h
      cases h
    by_cases hdot : isDot s.p = true
    · rw [walkStep, if_neg hnil, if_pos hdot] at h
      cases h
    by_cases hdd : isDotDot s.p = true
    · rw [walkStep, if_neg hnil, if_neg hdot, if_pos hdd] at h
      split_ifs at h
    rcases e.walkStep_split s.out hp hnil (Bool.not_eq_true _ ▸ hdot) (Bool.not_eq_true _ ▸ hdd)
      with hlong | ⟨c, tail, hc, hend, hsplit, hn, hpast⟩
    · rw [hlong] at h
      cases h
    · rw [hpast] at h
      obtain ⟨hdir, hrest, hlook, hlink⟩ := pastName_link h
      exact ⟨hdir, c, tail, hc, hend, hsplit, hrest, hn, hlook, hlink⟩
  · rintro ⟨rfl, c, tail, hc, hend, hsplit, rfl, hn, hlook, hlink⟩
    rw [hsplit, e.walkStep_name hc hend hn, pastName_of_link hlook hlink]

inductive NextCases (e : PathEnv) (out : CString) (n : ℤ) (p : CString) :
    CString → ℤ → CString → Prop
  | dot {p' : CString} : components p = ['.'] :: components p' → NextCases e out n p out n p'
  | dotDot {p' : CString} : components p = ['.', '.'] :: components p' → isDotDot p = true →
      out ≠ [] → rootFloor e.rootPath < out.length →
      NextCases e out n p (popName out) (n + (out.length - (popName out).length)) p'
  | stay {p' : CString} : components p = ['.', '.'] :: components p' → isDotDot p = true →
      (out ≠ [] → out.length ≤ rootFloor e.rootPath) → NextCases e out n p out n p'
  | name {c p' : CString} : components p = c :: components p' → IsName c →
      (c.length : ℤ) + 1 < n → NextCases e out n p (out ++ '/' :: c) (n - 1 - c.length) p'

theorem walkStep_next {o p' : CString} {n' : ℤ} (hp : p.head? ≠ some '/')
    (h : e.walkStep out n p = .next o n' p') :
    p'.head? ≠ some '/' ∧ NextCases e out n p o n' p' := by
  by_cases hnil : p = []
  · rw [walkStep, if_pos hnil] at h
    cases h
  by_cases hdot : isDot p = true
  · rw [walkStep, if_neg hnil, if_pos hdot] at h
    obtain ⟨rfl, rfl, rfl⟩ := WalkStep.next.inj h
    obtain ⟨q, rfl, hend⟩ := isDot_iff.1 hdot
    exact ⟨head_eatSlashes _, .dot (@components_append ['.'] q (by simp) (by decide) hend)⟩
  by_cases hdd : isDotDot p = true
  · rw [walkStep, if_neg hnil, if_neg hdot, if_pos hdd] at h
    obtain ⟨q, rfl, hcomps⟩ := components_dotDot hdd
    split_ifs at h with hpop
    · obtain ⟨rfl, rfl, rfl⟩ := WalkStep.next.inj h
      exact ⟨head_eatSlashes _, .dotDot hcomps hdd hpop.1 hpop.2⟩
    · obtain ⟨rfl, rfl, rfl⟩ := WalkStep.next.inj h
      exact ⟨head_eatSlashes _, .stay hcomps hdd fun hne => not_lt.1 fun hlt => hpop ⟨hne, hlt⟩⟩
  rcases e.walkStep_split out (n := n) hp hnil (Bool.not_eq_true _ ▸ hdot)
    (Bool.not_eq_true _ ▸ hdd) with hlong | ⟨c, tail, hc, hend, rfl, hn, hpast⟩
  · rw [hlong] at h
    cases h
  · rw [hpast] at h
    obtain ⟨rfl, rfl, rfl⟩ := pastName_next h
    exact ⟨head_eatSlashes _, .name (components_append hc.ne_nil hc.slash hend) hc hn⟩

/-! ### All rounds -/

lemma enter_some {left : ℕ} (h : enter left atPath path = some s) :
    path ≠ [] ∧ s = ⟨left, basePath atPath, maxPath - 1 - (basePath atPath).length,
      eatSlashes path⟩ ∧ Room s.out s.n := by
  unfold enter at h
  simp only at h
  split_ifs at h with hpath hbase
  obtain rfl := Option.some.inj h
  refine ⟨hpath, rfl, rfl, ?_⟩
  have hmax : maxPath = 4096 := rfl
  by_cases hb : basePath atPath = []
  · simp only [hb, List.length_nil]
    omega
  · have hlt : ¬ maxPath - 1 < (basePath atPath).length + 2 := fun hlt => hbase ⟨hb, hlt⟩
    simp only
    omega

lemma pathNormalizeFrom_enter {left : ℕ} {r : CString}
    (h : e.pathNormalizeFrom left atPath path = .ok r) :
    ∃ s, enter left atPath path = some s ∧ s.left = left ∧
      e.walk (e.restart left) (path.length + 1) s.out s.n s.p = .ok r := by
  rw [pathNormalizeFrom_eq] at h
  unfold enter
  simp only
  split_ifs at h ⊢
  exact ⟨_, rfl, rfl, h⟩

structure RoundOk (s : PathRound) : Prop where
  left : s.left ≤ 5
  head : s.p.head? ≠ some '/'
  room : Room s.out s.n
  names : ∃ names, (∀ c ∈ names, IsName c) ∧ s.out = joinPath names

lemma basePath_absPath {names : List CString} (hn : ∀ c ∈ names, IsName c) :
    basePath (some (absPath names)) = joinPath names := by
  cases names with
  | nil => rfl
  | cons c names =>
    have hne : c ++ joinPath names ≠ [] := by simp [(hn c (by simp)).ne_nil]
    rw [absPath_of_ne (by simp), basePath, joinPath_cons]
    exact if_neg (by simpa using hne)

lemma rootFloor_absPath {names : List CString} (hn : ∀ c ∈ names, IsName c) :
    rootFloor (absPath names) = (joinPath names).length := by
  have hbase := basePath_absPath hn
  unfold basePath at hbase
  unfold rootFloor
  simp only at hbase
  split_ifs at hbase ⊢ with h
  · rw [← hbase]
    rfl
  · rw [hbase]

lemma enter_ok {left : ℕ} (hleft : left ≤ 5) {names : List CString}
    (hn : ∀ c ∈ names, IsName c) (hbase : basePath atPath = joinPath names)
    (h : enter left atPath path = some s) : RoundOk s := by
  obtain ⟨-, rfl, hroom⟩ := enter_some h
  exact ⟨hleft, head_eatSlashes path, hroom, names, hn, hbase⟩

lemma RoundOk.next (h : RoundOk s) {out' p' : CString} {n' : ℤ}
    (hstep : e.walkStep s.out s.n s.p = .next out' n' p') : RoundOk ⟨s.left, out', n', p'⟩ := by
  obtain ⟨hp', hcases⟩ := walkStep_next h.head hstep
  obtain ⟨hlen, hpos⟩ := h.room
  obtain ⟨names, hn, hout⟩ := h.names
  cases hcases with
  | dot => exact ⟨h.left, hp', ⟨hlen, hpos⟩, names, hn, hout⟩
  | stay => exact ⟨h.left, hp', ⟨hlen, hpos⟩, names, hn, hout⟩
  | dotDot hc hdd hne hfloor =>
    have hle := length_popName s.out
    refine ⟨h.left, hp', ⟨?_, ?_⟩, names.dropLast, fun c hc => hn c (List.mem_of_mem_dropLast hc),
      ?_⟩
    · simp only
      omega
    · simp only
      omega
    · rcases List.eq_nil_or_concat names with rfl | ⟨init, c, rfl⟩
      · exact absurd hout hne
      · rw [List.concat_eq_append] at hn hout ⊢
        rw [hout, List.dropLast_concat, joinPath_concat, popName_append (hn c (by simp)).slash]
  | name hc hname hroom =>
    rename_i c
    refine ⟨h.left, hp', ⟨?_, by simp only; omega⟩, names ++ [c], ?_, by rw [joinPath_concat, hout]⟩
    · simp only [List.length_append, List.length_cons, Nat.cast_add, Nat.cast_one]
      omega
    · intro d hd
      rcases List.mem_append.1 hd with hd | hd
      · exact hn d hd
      · rw [List.mem_singleton.1 hd]
        exact hname

lemma basePath_expandLink (hroot : ∀ c ∈ root, IsName c) (hr : e.rootPath = absPath root)
    {dir target rest expanded : CString} {restartAt : Option CString}
    (h : e.expandLink dir target rest = some (restartAt, expanded)) :
    ∃ names, (∀ c ∈ names, IsName c) ∧ basePath restartAt = joinPath names := by
  unfold expandLink at h
  simp only at h
  split_ifs at h
  · obtain ⟨rfl, -⟩ := Prod.mk.inj (Option.some.inj h)
    exact ⟨root, hroot, by rw [hr, basePath_absPath hroot]⟩
  · obtain ⟨rfl, -⟩ := Prod.mk.inj (Option.some.inj h)
    exact ⟨[], by simp, rfl⟩

lemma Round.ok (hstart : ∀ c ∈ start, IsName c) (hbase : basePath atPath = joinPath start)
    (hroot : ∀ c ∈ root, IsName c) (hr : e.rootPath = absPath root)
    (h : e.Round atPath path s) : RoundOk s := by
  induction h with
  | enter henter => exact enter_ok le_rfl hstart hbase henter
  | next _ hstep ih => exact ih.next hstep
  | link _ _ hleft hexp henter ih =>
    obtain ⟨names, hn, hbase'⟩ := basePath_expandLink hroot hr hexp
    have hle := ih.left
    exact enter_ok (by omega) hn hbase' henter

/-! ### The lexical resolution -/

/-- The next component is resolved as it should be, unless a `..` is refused off the root. -/
lemma resolve_next (hroot : ∀ c ∈ root, IsName c) (hr : e.rootPath = absPath root)
    {names : List CString} (hn : ∀ c ∈ names, IsName c) (hout : out = joinPath names)
    (hdots : isDotDot p = true → out ≠ [] → out ≠ joinPath root → rootFloor e.rootPath < out.length)
    {out' p' : CString} {n' : ℤ} (h : NextCases e out n p out' n' p') :
    ∃ c, components p = c :: components p' ∧ out' = joinPath (resolveName root names c) := by
  have hfloor := rootFloor_absPath hroot
  rw [← hr] at hfloor
  cases h with
  | dot hc => exact ⟨_, hc, by rw [hout]; rfl⟩
  | dotDot hc hdd hne hlt =>
    refine ⟨_, hc, ?_⟩
    have hoff : names ≠ root := by
      rintro rfl
      rw [hfloor, hout] at hlt
      exact lt_irrefl _ hlt
    rw [resolveName, if_neg fun h => hoff h.2]
    rcases List.eq_nil_or_concat names with rfl | ⟨init, d, rfl⟩
    · exact absurd hout hne
    · rw [List.concat_eq_append] at hn hout ⊢
      rw [hout, joinPath_concat, popName_append (hn d (by simp)).slash]
      simp [pushName]
  | stay hc hdd hshort =>
    refine ⟨_, hc, ?_⟩
    by_cases hoff : names = root
    · rw [resolveName, if_pos ⟨rfl, hoff⟩, hout]
    · -- it is refused at the root of the machine only
      have hnil : out = [] := by
        by_contra hne
        have hne' : out ≠ joinPath root := by
          intro heq
          exact hoff (joinPath_injective (fun c hc => (hn c hc).isPart)
            (fun c hc => (hroot c hc).isPart) (hout.symm.trans heq))
        exact absurd (hshort hne) (not_le.2 (hdots hdd hne hne'))
      have hnames : names = [] := joinPath_eq_nil.1 (hout.symm.trans hnil)
      rw [resolveName, if_neg fun h => hoff h.2, hnil, hnames]
      rfl
  | name hc hname hroom =>
    refine ⟨_, hc, ?_⟩
    rw [resolveName, if_neg fun h => hname.dotDot h.1, pushName,
      if_neg (by simp [hname.ne_nil, hname.dot]), if_neg hname.dotDot, joinPath_concat, hout]

lemma isName_resolveName {names : List CString} (hn : ∀ c ∈ names, IsName c) {c : CString}
    (hc : '/' ∉ c) : ∀ d ∈ resolveName root names c, IsName d := by
  unfold resolveName
  split_ifs
  · exact hn
  · exact isName_pushName hn hc

lemma isName_resolve {names comps : List CString} (hn : ∀ c ∈ names, IsName c)
    (hc : ∀ c ∈ comps, '/' ∉ c) : ∀ d ∈ resolve root names comps, IsName d := by
  induction comps generalizing names with
  | nil => exact hn
  | cons c comps ih =>
    exact ih (isName_resolveName hn (hc c (by simp))) fun d hd => hc d (by simp [hd])

lemma slash_notMem_components {path c : CString} (h : c ∈ components path) : '/' ∉ c :=
  slash_notMem_splitOn (List.mem_of_mem_filter h)

lemma isName_resolve_past (hstart : ∀ c ∈ start, IsName c) {past rest : List CString}
    (hpath : components path = past ++ rest) : ∀ d ∈ resolve root start past, IsName d :=
  isName_resolve hstart fun _ hc =>
    @slash_notMem_components path _ (hpath ▸ List.mem_append_left _ hc)

lemma Round.along (hstart : ∀ c ∈ start, IsName c) (hbase : basePath atPath = joinPath start)
    (hroot : ∀ c ∈ root, IsName c) (hr : e.rootPath = absPath root)
    (hdots : ∀ s, e.Round atPath path s → s.left = 5 → isDotDot s.p = true → s.out ≠ [] →
      s.out ≠ joinPath root → rootFloor e.rootPath < s.out.length)
    (h : e.Round atPath path s) (hleft : s.left = 5) : ∃ past,
      components path = past ++ components s.p ∧ s.out = joinPath (resolve root start past) := by
  induction h with
  | enter henter =>
    obtain ⟨-, rfl, -⟩ := enter_some henter
    exact ⟨[], (components_eatSlashes path).symm, hbase⟩
  | next hs hstep ih =>
    obtain ⟨past, hpath, hout⟩ := ih hleft
    have hok := hs.ok hstart hbase hroot hr
    have hn : ∀ d ∈ resolve root start past, IsName d := isName_resolve_past hstart hpath
    obtain ⟨c, hc, hout'⟩ := resolve_next hroot hr hn hout (hdots _ hs hleft)
      (walkStep_next hok.head hstep).2
    refine ⟨past ++ [c], ?_, ?_⟩
    · rw [hpath, hc, List.append_assoc]
      rfl
    · rw [resolve, List.foldl_append]
      exact hout'
  | link hs _ hsucc _ henter =>
    have hle := (hs.ok hstart hbase hroot hr).left
    obtain ⟨-, rfl, -⟩ := enter_some henter
    simp only at hleft
    omega

/-! ### Results -/

lemma Round.of_walk {r : CString} (hok : ∀ {s}, e.Round atPath path s → RoundOk s)
    (hs : e.Round atPath path s) (fuel : ℕ)
    (h : e.walk (e.restart s.left) fuel s.out s.n s.p = .ok r) :
    ∃ t, e.Round atPath path t ∧ t.p = [] ∧ t.out = r := by
  induction hleft : s.left using Nat.strong_induction_on generalizing s fuel with
  | _ left ih =>
    induction fuel generalizing s with
    | zero => cases h
    | succ fuel ihf =>
      rw [walk] at h
      cases hstep : e.walkStep s.out s.n s.p with
      | ret res =>
        rw [hstep] at h
        obtain rfl : res = .ok r := h
        by_cases hnil : s.p = []
        · rw [walkStep, if_pos hnil] at hstep
          exact ⟨s, hs, hnil, PathResult.ok.inj (WalkStep.ret.inj hstep)⟩
        · exact absurd hstep (walkStep_ret_ne (hok hs).head hnil)
      | next out n p =>
        rw [hstep] at h
        exact ihf (hs.next hstep) h hleft
      | link dir target rest =>
        rw [hstep] at h
        obtain ⟨left', restartAt, expanded, hsucc, hexp, hrec⟩ := restart_ok h
        obtain ⟨t, henter, hleft', hwalk⟩ := pathNormalizeFrom_enter hrec
        rw [← hleft'] at hwalk
        exact ih left' (by omega) (hs.link hstep hsucc hexp henter) _ hwalk hleft'

lemma Round.left_eq (hok : ∀ {s}, e.Round atPath path s → RoundOk s)
    (hno : ∀ s target rest, e.Round atPath path s → ¬ e.MeetsLink s target rest)
    (h : e.Round atPath path s) : s.left = 5 := by
  induction h with
  | enter henter =>
    obtain ⟨-, rfl, -⟩ := enter_some henter
    rfl
  | next _ _ ih => exact ih
  | link hs hstep => exact absurd ((walkStep_link_iff (hok hs).head).1 hstep).2 (hno _ _ _ hs)

lemma length_nameStores (hroom : Room out n) {text : CString} (h : text ∈ nameStores out n p) :
    text.length < maxPath := by
  have hcopy : ∀ (m : ℤ) (q : CString), 1 ≤ m → ((copyName m q).1.length : ℤ) + 1 ≤ m := by
    intro m q hm
    induction q generalizing m with
    | nil => simpa [copyName] using hm
    | cons c q ih =>
      rw [copyName]
      split_ifs with hc hpos
      · simpa using hm
      · have := ih (m - 1) (by omega)
        simp only [List.length_cons, Nat.cast_add, Nat.cast_one]
        omega
      · simpa using hm
  unfold nameStores at h
  split_ifs at h with hskip
  · cases h
  · obtain rfl := List.mem_singleton.1 h
    obtain ⟨hlen, hpos⟩ := hroom
    have hsmall : ¬ n < 2 := fun hlt => hskip (Or.inr (Or.inr (Or.inr hlt)))
    have hle := hcopy (n - 1) p (by omega)
    have hmax : maxPath = 4096 := rfl
    rw [List.length_append, List.length_cons]
    omega

lemma linkStores_fit_iff {left : ℕ} (hleft : left ≠ 0) {dir target rest : CString}
    (hdir : dir.length + 1 < maxPath) :
    (∀ text ∈ linkStores left dir target rest, text.length < maxPath) ↔
      LinkFits dir target rest := by
  have htake (h : dir.length + 1 + target.length < maxPath) :
      target.take (maxPath - (dir.length + 1)) = target := List.take_of_length_le (by omega)
  unfold linkStores LinkFits
  rw [if_neg hleft]
  simp only [List.mem_cons, List.not_mem_nil, or_false, forall_eq_or_imp, forall_eq]
  constructor
  · rintro ⟨hread, hall⟩
    have hfit : dir.length + 1 + target.length < maxPath := by
      simp only [List.length_append, List.length_cons, List.length_take] at hread
      omega
    rw [htake hfit] at hall
    exact ⟨hfit, hall⟩
  · rintro ⟨hfit, hall⟩
    rw [htake hfit]
    refine ⟨?_, hall⟩
    simp only [List.length_append, List.length_cons]
    omega

lemma Round.of_ok {r : CString} (hok : ∀ {s}, e.Round atPath path s → RoundOk s)
    (h : e.pathNormalize atPath path = .ok r) :
    ∃ t, e.Round atPath path t ∧ t.p = [] ∧ t.out = r := by
  obtain ⟨s, henter, hleft, hwalk⟩ := pathNormalizeFrom_enter h
  rw [← hleft] at hwalk
  exact (Round.enter henter).of_walk hok _ hwalk

lemma stored_fit (hs : RoundOk s)
    (hlink : ∀ target rest, s.left ≠ 0 → e.MeetsLink s target rest → LinkFits s.out target rest) :
    ∀ text ∈ e.stored s, text.length < maxPath := by
  have hmax : maxPath = 4096 := rfl
  obtain ⟨hlen, hpos⟩ := hs.room
  intro text htext
  unfold stored at htext
  rcases List.mem_append.1 htext with htext | htext
  · rcases List.mem_cons.1 htext with rfl | htext
    · omega
    · exact length_nameStores hs.room htext
  · cases hstep : e.walkStep s.out s.n s.p with
    | ret r => rw [hstep] at htext; cases htext
    | next out n p => rw [hstep] at htext; cases htext
    | link dir target rest =>
      rw [hstep] at htext
      obtain ⟨rfl, hmeets⟩ := (walkStep_link_iff hs.head).1 hstep
      have hleft : s.left ≠ 0 := by
        intro hzero
        simp [linkStores, hzero] at htext
      exact (linkStores_fit_iff hleft (by omega)).2 (hlink _ _ hleft hmeets) _ htext

lemma linkFits_of_stored (hs : RoundOk s) (hfit : ∀ text ∈ e.stored s, text.length < maxPath)
    {target rest : CString} (hleft : s.left ≠ 0) (hmeets : e.MeetsLink s target rest) :
    LinkFits s.out target rest := by
  obtain ⟨hlen, hpos⟩ := hs.room
  refine (linkStores_fit_iff hleft (by omega)).1 fun text htext => hfit text ?_
  unfold stored
  rw [(walkStep_link_iff hs.head).2 ⟨rfl, hmeets⟩]
  exact List.mem_append_right _ htext

lemma floor_of_along (hstart : ∀ c ∈ start, IsName c) (hs : e.Round atPath path s)
    (hdd : isDotDot s.p = true) (hne : s.out ≠ [])
    (hoff : s.out ≠ joinPath root)
    (halong : ∀ t, e.Round atPath path t → t.left = s.left → ∃ past,
      components path = past ++ components t.p ∧ t.out = joinPath (resolve root start past)) :
    rootFloor e.rootPath < s.out.length := by
  by_contra hshort
  obtain ⟨q, hq, hcomps⟩ := components_dotDot hdd
  have hstep : e.walkStep s.out s.n s.p = .next s.out s.n (eatSlashes q) := by
    have hnil : s.p ≠ [] := by simp [hq]
    have hdot : ¬ isDot s.p = true := by
      rw [hq, isDot_iff]
      rintro ⟨q', hq', hend'⟩
      obtain ⟨-, rfl⟩ := List.cons.inj hq'
      simp [endsName] at hend'
    rw [walkStep, if_neg hnil, if_neg hdot, if_pos hdd, if_neg fun h => hshort h.2, hq]
    rfl
  obtain ⟨past, hpath, hout⟩ := halong s hs rfl
  obtain ⟨past', hpath', hout'⟩ := halong _ (hs.next hstep) rfl
  have hpast : past' = past ++ [['.', '.']] := by
    rw [hpath, hcomps] at hpath'
    simp only at hpath'
    have happ : past' ++ components (eatSlashes q) =
        (past ++ [['.', '.']]) ++ components (eatSlashes q) := by
      rw [← hpath', List.append_assoc]
      rfl
    exact List.append_cancel_right happ
  have hn : ∀ d ∈ resolve root start past, IsName d := isName_resolve_past hstart hpath
  have hpop : resolve root start past' = (resolve root start past).dropLast := by
    rw [hpast, resolve, List.foldl_append, List.foldl_cons, List.foldl_nil, resolveName, if_neg]
    · simp [pushName, resolve]
    · rintro ⟨-, heq⟩
      exact hoff (hout.trans (congrArg joinPath heq))
  simp only [hpop] at hout'
  have heq : resolve root start past = (resolve root start past).dropLast :=
    joinPath_injective (fun c hc => (hn c hc).isPart)
      (fun c hc => (hn c (List.mem_of_mem_dropLast hc)).isPart) (hout.symm.trans hout')
  have hlen := congrArg List.length heq
  rw [List.length_dropLast] at hlen
  have hnil : resolve root start past = [] := List.length_eq_zero_iff.1 (by omega)
  rw [hnil] at hout
  exact hne hout

/-- A resolution is canonical and bounded if and only if no link that it follows is too long, and no
`..` that it reads is refused off the root. -/
theorem pathNormalize_canonical_iff (hstart : ∀ c ∈ start, IsName c)
    (hat : atPath = none ∧ start = [] ∨ atPath = some (absPath start))
    (hroot : ∀ c ∈ root, IsName c) (hr : e.rootPath = absPath root) :
    e.Canonical root start atPath path ↔ e.WithinBounds root atPath path := by
  have hbase : basePath atPath = joinPath start := by
    rcases hat with ⟨rfl, rfl⟩ | rfl
    · rfl
    · exact basePath_absPath hstart
  have hok : ∀ {s}, e.Round atPath path s → RoundOk s := fun h => h.ok hstart hbase hroot hr
  constructor
  · intro h
    constructor
    · intro s target rest hs hleft hmeets
      exact linkFits_of_stored (hok hs) (h.fits s hs) hleft hmeets
    · intro s hs hleft hdd hne hoff
      exact floor_of_along hstart hs hdd hne hoff fun t ht htl =>
        h.along t ht (htl.trans hleft)
  · intro h
    have halong : ∀ s, e.Round atPath path s → s.left = 5 → ∃ past,
        components path = past ++ components s.p ∧ s.out = joinPath (resolve root start past) :=
      fun s hs hleft => hs.along hstart hbase hroot hr h.dotDot hleft
    constructor
    · intro r hres
      obtain ⟨t, ht, -, rfl⟩ := Round.of_ok hok hres
      obtain ⟨⟨hlen, hpos⟩, names, hn, hout⟩ := (⟨(hok ht).room, (hok ht).names⟩ : _ ∧ _)
      refine ⟨by omega, ?_, ?_⟩
      · have hnorm := @pathIsNormalized_joinPath names [] (fun c hc => (hn c hc).isPart) rfl
        rw [List.append_nil] at hnorm
        rw [hout, hnorm, pathIsNormalized_nil]
      · rw [hout, components_joinPath hn]
        exact fun c hc => ⟨(hn c hc).dot, (hn c hc).dotDot⟩
    · intro r hres hno
      obtain ⟨t, ht, hnil, rfl⟩ := Round.of_ok hok hres
      obtain ⟨past, hpath, hout⟩ := halong t ht (ht.left_eq hok hno)
      rw [hnil] at hpath
      rw [hout, hpath]
      simp [components]
    · exact halong
    · exact fun s hs => stored_fit (hok hs) fun target rest => h.link s target rest hs

def treeWithLink (target : CString) : FileTree where
  node path :=
    if path = [] then some (.object { uid := 0, gid := 0, mode := 0x41ed })
    else if path = ['/', 'l'] then some (.symlink target)
    else none
  leaf := by
    intro path nd rest hnd hdir
    split_ifs at hnd with h₁ h₂
    · obtain rfl := Option.some.inj hnd
      exact absurd hdir (by decide)
    · simp [h₂]

lemma NextCases.components {out' p' : CString} {n' : ℤ} (h : NextCases e out n p out' n' p') :
    ∃ c, components p = c :: components p' := by
  cases h with
  | dot hc => exact ⟨_, hc⟩
  | dotDot hc => exact ⟨_, hc⟩
  | stay hc => exact ⟨_, hc⟩
  | name hc => exact ⟨_, hc⟩

lemma MeetsLink.components {target rest : CString} (h : e.MeetsLink s target rest) :
    ∃ c, IsName c ∧ components s.p = c :: components rest ∧
      e.tree.readlink (s.out ++ '/' :: c) = some target := by
  obtain ⟨c, tail, hc, hend, hsplit, rfl, -, -, hlink⟩ := h
  exact ⟨c, hc, by rw [hsplit, components_append hc.ne_nil hc.slash hend], hlink⟩

/-- The name `x` behind the root. -/
theorem pathNormalize_canonical_name :
    Canonical ⟨treeWithLink ['x'], ['/'], true, ⟨0, 0⟩⟩ [] [] none ['/', 'x'] := by
  have hnil : ∀ c ∈ ([] : List CString), IsName c := by simp
  refine (pathNormalize_canonical_iff hnil (Or.inl ⟨rfl, rfl⟩) hnil rfl).2 ?_
  have hno : ∀ s target rest, s.out = [] ∧ components s.p = [['x']] ∨ components s.p = [] →
      ¬ MeetsLink ⟨treeWithLink ['x'], ['/'], true, ⟨0, 0⟩⟩ s target rest := by
    intro s target rest hs hmeets
    obtain ⟨c, -, hc, hlink⟩ := hmeets.components
    rcases hs with ⟨hout, hs⟩ | hs
    · obtain ⟨rfl, -⟩ := List.cons.inj (hs.symm.trans hc)
      rw [hout] at hlink
      simp [FileTree.readlink, treeWithLink] at hlink
    · rw [hs] at hc
      cases hc
  have hx : ∀ s, Round ⟨treeWithLink ['x'], ['/'], true, ⟨0, 0⟩⟩ none ['/', 'x'] s →
      s.out = [] ∧ components s.p = [['x']] ∨ components s.p = [] := by
    intro s hs
    induction hs with
    | enter henter =>
      obtain ⟨-, rfl, -⟩ := enter_some henter
      exact Or.inl ⟨rfl, by decide⟩
    | next hs hstep ih =>
      have hok := @Round.ok _ [] [] _ _ _ hnil rfl hnil rfl hs
      obtain ⟨c, hc⟩ := (walkStep_next hok.head hstep).2.components
      rcases ih with ⟨-, hp⟩ | hp
      · exact Or.inr (List.cons.inj (hp.symm.trans hc)).2.symm
      · rw [hp] at hc
        cases hc
    | link hs hstep hleft hexp henter ih =>
      have hok := @Round.ok _ [] [] _ _ _ hnil rfl hnil rfl hs
      exact absurd ((walkStep_link_iff hok.head).1 hstep).2 (hno _ _ _ ih)
  constructor
  · exact fun s target rest hs hleft hmeets => absurd hmeets (hno _ _ _ (hx s hs))
  · intro s hs hleft hdd hne
    obtain ⟨q, -, hc⟩ := components_dotDot hdd
    rcases hx s hs with ⟨hout, -⟩ | hp
    · exact absurd hout hne
    · rw [hp] at hc
      cases hc

/-- There is no room for the terminator of a target of 4095 bytes behind the slash, and a process
in `/a` with the root `/jail` cannot leave `/a` by `..`. -/
theorem pathNormalize_overflows :
    ¬ Canonical ⟨treeWithLink (List.replicate 4095 'a'), ['/'], true, ⟨0, 0⟩⟩ [] [] none
        ['l'] ∧
      ¬ Canonical ⟨treeWithLink ['x'], ['/', 'j', 'a', 'i', 'l'], true, ⟨0, 0⟩⟩
        [['j', 'a', 'i', 'l']] [['a']] (some ['/', 'a']) ['.', '.'] := by
  have hl : IsName ['l'] := ⟨by decide, by decide, by decide, by decide⟩
  have ha : ∀ c ∈ [['a']], IsName c := by
    simpa using (⟨by decide, by decide, by decide, by decide⟩ : IsName ['a'])
  have hj : ∀ c ∈ [['j', 'a', 'i', 'l']], IsName c := by
    simpa using (⟨by decide, by decide, by decide, by decide⟩ : IsName ['j', 'a', 'i', 'l'])
  constructor
  · intro h
    have hs : Round ⟨treeWithLink (List.replicate 4095 'a'), ['/'], true, ⟨0, 0⟩⟩ none ['l']
        ⟨5, [], 4095, ['l']⟩ := .enter rfl
    have hok := @Round.ok _ [] [] _ _ _ (by simp) rfl (by simp) rfl hs
    have hfits := linkFits_of_stored hok (h.fits _ hs) (by decide)
      ⟨['l'], [], hl, rfl, rfl, rfl, by decide, Or.inl rfl, rfl⟩
    have hlen := hfits.1
    rw [List.length_replicate] at hlen
    exact absurd hlen (by decide)
  · intro h
    have hno : ∀ s target rest, (∀ c ∈ components s.p, c = ['.', '.']) →
        ¬ MeetsLink ⟨treeWithLink ['x'], ['/', 'j', 'a', 'i', 'l'], true, ⟨0, 0⟩⟩ s target
          rest := by
      intro s target rest hs hmeets
      obtain ⟨c, hc, hp, -⟩ := hmeets.components
      exact hc.dotDot (hs c (by simp [hp]))
    have hdots : ∀ s, Round ⟨treeWithLink ['x'], ['/', 'j', 'a', 'i', 'l'], true, ⟨0, 0⟩⟩
        (some ['/', 'a']) ['.', '.'] s → ∀ c ∈ components s.p, c = ['.', '.'] := by
      intro s hs
      induction hs with
      | enter henter =>
        obtain ⟨-, rfl, -⟩ := enter_some henter
        decide
      | next hs hstep ih =>
        have hok := hs.ok ha rfl hj rfl
        obtain ⟨c, hc⟩ := (walkStep_next hok.head hstep).2.components
        exact fun d hd => ih d (by simp [hc, hd])
      | link hs hstep hleft hexp henter ih =>
        have hok := hs.ok ha rfl hj rfl
        exact absurd ((walkStep_link_iff hok.head).1 hstep).2 (hno _ _ _ ih)
    have hout := h.lexical ['/', 'a'] (by decide) fun s target rest hs => hno _ _ _ (hdots s hs)
    exact absurd hout (by decide)

end PathEnv

end ShellBox
