import ShellBox.Fs.Path

/-!
# No path leads out of the root

Up to the end of the root's own path, the loop only reads what is left of it; behind that, the
output always starts with it. The first happens after a relative link, when the text so far is
read again from the root of the machine: nothing in it can be taken back, because `..` is only
obeyed when the output is longer than the root, and nothing in it is a link.
-/

namespace ShellBox

def Under {tree : FileTree} (root : Directory tree) (out : CString) : Prop :=
  ∃ names, (∀ c ∈ names, IsName c) ∧ out = joinPath (root.names ++ names)

variable {tree : FileTree}

namespace Under

variable {root : Directory tree} {out c : CString}

lemma self : Under root (joinPath root.names) :=
  ⟨[], by simp, by simp⟩

lemma name (h : Under root out) (hc : IsName c) : Under root (out ++ '/' :: c) := by
  obtain ⟨names, hnames, rfl⟩ := h
  refine ⟨names ++ [c], ?_, ?_⟩
  · intro x hx
    rcases List.mem_append.1 hx with hx | hx
    · exact hnames x hx
    · rw [List.mem_singleton.1 hx]
      exact hc
  · rw [← List.append_assoc, joinPath_concat]

lemma pop (h : Under root out) (hlen : (joinPath root.names).length < out.length) :
    Under root (popName out) := by
  obtain ⟨names, hnames, rfl⟩ := h
  rcases List.eq_nil_or_concat names with rfl | ⟨init, last, rfl⟩
  · simp at hlen
  · refine ⟨init, fun c hc => hnames c (by simp [hc]), ?_⟩
    rw [List.concat_eq_append, ← List.append_assoc, joinPath_concat,
      popName_append (hnames last (by simp)).slash]

end Under

namespace PathEnv

variable {e : PathEnv} {root : Directory e.tree} {restart : CString → CString → CString → PathResult}

lemma walk_under (hroot : e.rootPath = root.path)
    (hrestart : ∀ {dir target rest r}, Under root dir →
      restart dir target rest = .ok r → Under root r)
    {fuel : ℕ} {out p r : CString} {n : ℤ} (hout : Under root out) (hp : p.head? ≠ some '/')
    (h : e.walk restart fuel out n p = .ok r) : Under root r := by
  induction fuel generalizing out n p with
  | zero => cases h
  | succ fuel ih =>
    rw [walk] at h
    have hcases := e.walkStep_cases out n hp
    generalize e.walkStep out n p = step at h hcases
    cases hcases with
    | done hnil =>
      rw [← PathResult.ok.inj h]
      exact hout
    | err er => cases h
    | dot p' hlen hp' => exact ih hout hp' h
    | dotDot p' hlen hp' hne hfloor =>
      rw [hroot, root.rootFloor_path] at hfloor
      exact ih (hout.pop hfloor) hp' h
    | name c tail hc hend hsplit hn => exact ih (hout.name hc) (head_eatSlashes tail) h
    | link c tail target hc hend hsplit hn hlink => exact hrestart hout h

lemma walk_names {fuel : ℕ} {done more : List CString} {tail r : CString} {n : ℤ}
    (hnames : ∀ c ∈ more, IsName c)
    (hlinks : ∀ l l', more = l ++ l' → e.tree.readlink (joinPath (done ++ l)) = none)
    (hend : endsName tail = true)
    (h : e.walk restart fuel (joinPath done) n (eatSlashes (joinPath more ++ tail)) = .ok r) :
    ∃ fuel' n', e.walk restart fuel' (joinPath (done ++ more)) n' (eatSlashes tail) = .ok r := by
  induction more generalizing fuel done n with
  | nil => exact ⟨fuel, n, by simpa using h⟩
  | cons c more ih =>
    have hc : IsName c := hnames c (by simp)
    have hrest : endsName (joinPath more ++ tail) = true := endsName_joinPath more hend
    have heat : eatSlashes (joinPath (c :: more) ++ tail) = c ++ (joinPath more ++ tail) := by
      rw [joinPath_cons, List.cons_append, List.cons_append, eatSlashes_slash, List.append_assoc]
      exact eatSlashes_of_ne (hc.head _)
    rw [heat] at h
    have hlink : e.tree.readlink (joinPath done ++ '/' :: c) = none := by
      have hl := hlinks [c] more rfl
      rwa [joinPath_concat] at hl
    have hgo : ∀ {fuel n}, e.walk restart fuel (joinPath done ++ '/' :: c) n
        (eatSlashes (joinPath more ++ tail)) = .ok r →
        ∃ fuel' n', e.walk restart fuel' (joinPath (done ++ c :: more)) n' (eatSlashes tail) =
          .ok r := by
      intro fuel n hw
      rw [← joinPath_concat] at hw
      have hih := ih (fun x hx => hnames x (by simp [hx]))
        (fun l l' hl => by simpa using hlinks (c :: l) l' (by simp [hl])) hw
      simpa using hih
    cases fuel with
    | zero => cases h
    | succ fuel =>
      rw [walk] at h
      by_cases hn : (c.length : ℤ) + 1 < n
      · rw [e.walkStep_name hc hrest hn] at h
        rcases pastName_of_readlink hlink (joinPath done) (joinPath more ++ tail)
          (n - 1 - c.length) with ⟨er, her⟩ | hnext
        · rw [her] at h
          cases h
        · rw [hnext] at h
          exact hgo h
      · rw [e.walkStep_full hc hrest (not_lt.1 hn)] at h
        cases h

/-- Where a resolution may start: in a directory under the root, or at the root of the machine with
a text that begins with the path of the root. -/
def StartsUnder (root : Directory e.tree) (atPath : Option CString) (path : CString) : Prop :=
  Under root (basePath atPath) ∨
    atPath = none ∧ ∃ tail, endsName tail = true ∧ path = joinPath root.names ++ tail

lemma startsUnder_expandLink (hroot : e.rootPath = root.path) {dir target rest expanded : CString}
    {restartAt : Option CString} (hdir : Under root dir)
    (h : e.expandLink dir target rest = some (restartAt, expanded)) :
    StartsUnder root restartAt expanded := by
  unfold expandLink at h
  by_cases habs : target.head? = some '/'
  · simp only [habs, if_true] at h
    split_ifs at h
    obtain ⟨hat, -⟩ := Prod.mk.inj (Option.some.inj h)
    left
    rw [← hat, hroot, root.basePath_path]
    exact Under.self
  · simp only [habs, if_false] at h
    split_ifs at h
    obtain ⟨hat, hexp⟩ := Prod.mk.inj (Option.some.inj h)
    obtain ⟨names, -, rfl⟩ := hdir
    right
    refine ⟨hat.symm, joinPath names ++ '/' :: (target ++ spliced rest),
      endsName_joinPath names (endsName_slash _), ?_⟩
    rw [← hexp, joinPath_append, List.append_assoc, List.append_assoc]
    rfl

/-- The last link first: what is left after a link starts under the root again. -/
theorem pathNormalizeFrom_under (hroot : e.rootPath = root.path) {left : ℕ}
    {atPath : Option CString} {path r : CString} (hstart : StartsUnder root atPath path)
    (h : e.pathNormalizeFrom left atPath path = .ok r) : Under root r := by
  induction left using Nat.strong_induction_on generalizing atPath path r with
  | _ left ih =>
    obtain ⟨-, -, hwalk⟩ := pathNormalizeFrom_ok h
    have hgo : ∀ {dir target rest r}, Under root dir →
        e.restart left dir target rest = .ok r → Under root r := by
      intro dir target rest r hdir hr
      obtain ⟨left', restartAt, expanded, rfl, hexp, hrec⟩ := restart_ok hr
      exact ih left' (Nat.lt_succ_self _) (startsUnder_expandLink hroot hdir hexp) hrec
    rcases hstart with hbase | ⟨rfl, tail, hend, rfl⟩
    · exact walk_under hroot hgo hbase (head_eatSlashes path) hwalk
    · -- the path of the root is read first
      obtain ⟨fuel', n', hrest⟩ := walk_names root.isName
        (fun l l' hl => by simpa using root.readlink_prefix hl) hend
        (show e.walk _ _ (joinPath []) _ _ = .ok r from hwalk)
      exact walk_under hroot hgo Under.self (head_eatSlashes tail) hrest

end PathEnv

/-- A path that is resolved from a directory at or under the root of the process is the root's
path or lies under it. -/
theorem pathNormalize_under {tree : FileTree} (root start : Directory tree)
    (hstart : root.names <+: start.names) (follow : Bool) (cred : PathCred) (path out : CString)
    (h : ({ tree := tree, rootPath := root.path, follow := follow, cred := cred } :
      PathEnv).pathNormalize (some start.path) path = .ok out) : Under root out := by
  unfold PathEnv.pathNormalize at h
  refine PathEnv.pathNormalizeFrom_under rfl (Or.inl ?_) h
  obtain ⟨names, hnames⟩ := hstart
  rw [start.basePath_path, ← hnames]
  refine ⟨names, fun c hc => start.isName c ?_, rfl⟩
  rw [← hnames]
  exact List.mem_append_right _ hc

/-- A directory `/j` with a link `l` to `../../x`, and a file `x` in it. -/
def jailTree : FileTree where
  node path :=
    if path = [] ∨ path = ['/', 'j'] then some (.object { uid := 0, gid := 0, mode := 0x41ed })
    else if path = ['/', 'j', '/', 'l'] then some (.symlink ['.', '.', '/', '.', '.', '/', 'x'])
    else if path = ['/', 'j', '/', 'x'] then some (.object { uid := 0, gid := 0, mode := 0x81a4 })
    else none
  leaf := by
    intro path nd rest hnd hdir
    split_ifs at hnd with h₁ h₂ h₃
    · obtain rfl := Option.some.inj hnd
      exact absurd hdir (by decide)
    · simp [h₂]
    · simp [h₃]

/-- The root of a process that has called `chroot("/j")`. -/
def jail : Directory jailTree where
  names := [['j']]
  isName := by
    intro c hc
    rw [List.mem_singleton.1 hc]
    constructor <;> decide
  isDir := ⟨.object { uid := 0, gid := 0, mode := 0x41ed }, by decide⟩
  fits := by decide

theorem pathNormalize_under_jail : Under jail ['/', 'j', '/', 'x'] := by
  apply pathNormalize_under jail jail (List.prefix_refl _) true ⟨1000, 1000⟩ ['l']
  decide

end ShellBox
