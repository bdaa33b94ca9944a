import ShellBox.Fs.PathAccess
import ShellBox.Logic.Loop

/-!
# The cache of resolved paths

Each thread keeps the last successful resolutions, found by the text of the starting directory and
the path, the path of the root, and the flags. The text does not tell the directory from the path,
it is cut to the size of its buffer, and the identity of the caller is not in it.
-/

namespace ShellBox

open Function

/-- `N_SYMLINK_FOLLOW` (or `N_SYMLINK_NOFOLLOW`) and `N_PARENT_DIR_WRITE`. -/
structure PathFlags where
  follow : Bool
  parentDirWrite : Bool
  deriving DecidableEq

/-- A call of `path_normalize`: the root of the process, the directory of `at` or the working
directory, the arguments, the caller, and the clock at the lookup and at the end. -/
structure PathCall (tree : FileTree) where
  root : Directory tree
  dir : Directory tree
  path : CString
  flags : PathFlags
  cred : PathCred
  now : ℕ
  later : ℕ

namespace PathCall

variable {tree : FileTree}

def start (call : PathCall tree) : Directory tree :=
  if call.path.head? = some '/' then call.root else call.dir

def env (call : PathCall tree) : PathEnv :=
  { tree := tree, rootPath := call.root.path, follow := call.flags.follow, cred := call.cred }

/-- `__path_normalize`, as `path_normalize` calls it. -/
def resolve (call : PathCall tree) : PathResult :=
  call.env.pathNormalize (some call.start.path) call.path

def fullText (call : PathCall tree) : CString := call.start.fullText call.path

def fullInput (call : PathCall tree) : CString := call.fullText.take (maxPath - 1)

end PathCall

/-- `struct path_cache_entry`, if it is valid. `storedBy` is not in the source: it is the call that
stored the entry. -/
structure PathCacheEntry (tree : FileTree) where
  inputPath : CString
  rootPath : CString
  normalized : CString
  timestamp : ℕ
  flags : PathFlags
  storedBy : PathCall tree

/-- The `path_cache` of a thread. -/
abbrev PathCache (tree : FileTree) : Type := ℕ → Option (PathCacheEntry tree)

def pathCacheSize : ℕ := 64

def pathCacheTtlNs : ℕ := 100000000

def pathHash (str : CString) : ℕ := str.foldl (fun h c => ((h <<< 5) + h + c.toNat) % 2 ^ 32) 5381

def pathIndex (str : CString) : ℕ := pathHash str % pathCacheSize

namespace PathCache

variable {tree : FileTree} {cache : PathCache tree} {call : PathCall tree}

def find (cache : PathCache tree) (call : PathCall tree) : Option (PathCacheEntry tree) :=
  match cache (pathIndex call.fullInput) with
  | some entry =>
    if entry.rootPath = call.root.path ∧ entry.inputPath = call.fullInput ∧
        entry.flags = call.flags then some entry
    else none
  | none => none

def expired (entry : PathCacheEntry tree) (call : PathCall tree) : Bool :=
  pathCacheTtlNs < (call.now + 2 ^ 64 - entry.timestamp) % 2 ^ 64

/-- `path_cache_get`. -/
def get (cache : PathCache tree) (call : PathCall tree) : PathCache tree × Option CString :=
  match cache.find call with
  | some entry =>
    if expired entry call then (update cache (pathIndex call.fullInput) none, none)
    else (cache, some entry.normalized)
  | none => (cache, none)

/-- `path_cache_set`. -/
def set (cache : PathCache tree) (call : PathCall tree) (normalized : CString) : PathCache tree :=
  update cache (pathIndex call.fullInput) (some
    { inputPath := call.fullInput.take (maxPath - 1)
      rootPath := call.root.path.take (maxPath - 1)
      normalized := normalized.take (maxPath - 1)
      timestamp := call.later
      flags := call.flags
      storedBy := call })

def pathNormalize (cache : PathCache tree) (call : PathCall tree) : PathCache tree × PathResult :=
  if call.path = [] then (cache, .err .enoent)
  else
    let hit := cache.get call
    match hit.2 with
    | some out => (hit.1, .ok out)
    | none =>
      match call.resolve with
      | .ok out => (hit.1.set call out, .ok out)
      | r => (hit.1, r)

def step (cache : PathCache tree) (call : PathCall tree) : PathCache tree :=
  (cache.pathNormalize call).1

/-- What a call finds in the cache was stored for the same directory and the same path, and for
the same identity unless the caller is the superuser; for the superuser it is enough that neither
text was cut. -/
def Admits (cache : PathCache tree) (call : PathCall tree) : Prop :=
  ∀ entry, cache.find call = some entry → expired entry call = false →
    (entry.storedBy.start.names = call.start.names ∧ entry.storedBy.path = call.path ∧
      (call.cred.superuser = true ∨ entry.storedBy.cred = call.cred)) ∨
    (call.cred.superuser = true ∧ entry.storedBy.fullText.length < maxPath ∧
      call.fullText.length < maxPath)

structure EntryOk (entry : PathCacheEntry tree) : Prop where
  inputPath : entry.inputPath = entry.storedBy.fullInput
  rootPath : entry.rootPath = entry.storedBy.root.path
  flags : entry.flags = entry.storedBy.flags
  resolve : entry.storedBy.resolve = .ok entry.normalized

def Inv (cache : PathCache tree) : Prop := ∀ i entry, cache i = some entry → EntryOk entry

lemma length_path_lt (d : Directory tree) : d.path.length ≤ maxPath - 1 := by
  have hfits := d.fits
  unfold Directory.path
  split_ifs
  · decide
  · omega

lemma Inv.update_none (h : cache.Inv) (i : ℕ) : PathCache.Inv (update cache i none) := by
  intro j entry hj
  by_cases hij : j = i
  · simp [hij] at hj
  · rw [update_of_ne hij] at hj
    exact h j entry hj

lemma Inv.set (h : cache.Inv) {out : CString} (hout : call.resolve = .ok out) :
    (cache.set call out).Inv := by
  intro j entry hj
  by_cases hij : j = pathIndex call.fullInput
  · rw [hij, PathCache.set, update_self] at hj
    obtain rfl := Option.some.inj hj
    have hlen := PathEnv.length_pathNormalizeFrom hout
    refine ⟨?_, ?_, rfl, ?_⟩
    · simp [PathCall.fullInput]
    · exact List.take_of_length_le (length_path_lt call.root)
    · simp only
      rw [List.take_of_length_le hlen.le, hout]
  · rw [PathCache.set, update_of_ne hij] at hj
    exact h j entry hj

lemma Inv.step (h : cache.Inv) (call : PathCall tree) : (cache.step call).Inv := by
  have hget : (cache.get call).1.Inv := by
    unfold PathCache.get
    split
    · split_ifs
      · exact h.update_none _
      · exact h
    · exact h
  unfold PathCache.step PathCache.pathNormalize
  split_ifs
  · exact h
  · simp only
    split
    · exact hget
    · split
      · rename_i out hout
        exact hget.set hout
      · exact hget

lemma find_eq {entry : PathCacheEntry tree} (h : cache.find call = some entry) :
    cache (pathIndex call.fullInput) = some entry ∧ entry.rootPath = call.root.path ∧
      entry.inputPath = call.fullInput ∧ entry.flags = call.flags := by
  unfold find at h
  split at h
  case h_1 found hfound =>
    split_ifs at h with hkey
    obtain rfl := Option.some.inj h
    exact ⟨hfound, hkey⟩
  case h_2 => cases h

lemma path_ne_nil {out : CString} (h : call.resolve = .ok out) : call.path ≠ [] :=
  (PathEnv.pathNormalizeFrom_ok h).1

lemma resolve_eq {stored call : PathCall tree} {out : CString} (hpath : call.path ≠ [])
    (hroot : stored.root.path = call.root.path) (hflags : stored.flags = call.flags)
    (hinput : stored.fullInput = call.fullInput) (h : stored.resolve = .ok out)
    (hok : (stored.start.names = call.start.names ∧ stored.path = call.path ∧
        (call.cred.superuser = true ∨ stored.cred = call.cred)) ∨
      (call.cred.superuser = true ∧ stored.fullText.length < maxPath ∧
        call.fullText.length < maxPath)) : call.resolve = .ok out := by
  have henv : stored.env.withCred call.cred = call.env := by
    simp [PathEnv.withCred, PathCall.env, hroot, hflags]
  have hmono : (∀ st, accessCheck stored.cred st acX = true →
      accessCheck call.cred st acX = true) →
      call.env.pathNormalizeFrom 5 (some stored.start.path) stored.path = .ok out := by
    intro hacc
    rw [← henv]
    exact PathEnv.pathNormalizeFrom_mono hacc h
  rcases hok with ⟨hstart, hsame, hcred⟩ | ⟨hs, hfit, hfit'⟩
  · have hacc : ∀ st, accessCheck stored.cred st acX = true →
        accessCheck call.cred st acX = true := by
      intro st hst
      rcases hcred with hs | hcred
      · exact PathEnv.accessCheck_superuser hs st acX
      · rwa [← hcred]
    have hdir : stored.start.path = call.start.path := by
      rw [Directory.path, Directory.path, hstart]
    have hres := hmono hacc
    rwa [hdir, hsame] at hres
  · have htext : stored.fullText = call.fullText := by
      rw [PathCall.fullInput, PathCall.fullInput, List.take_of_length_le (by omega),
        List.take_of_length_le (by omega)] at hinput
      exact hinput
    have hres := hmono fun st _ => PathEnv.accessCheck_superuser hs st acX
    exact (pathNormalizeFrom_fullText (e := call.env) hs htext (path_ne_nil h) hpath hfit 5).symm.trans
      hres

/-- In every run in which no lookup finds what was stored for another directory, path or caller,
the cache changes no result. -/
theorem pathNormalize_eq_resolve {calls : List (PathCall tree)}
    (hcalls : RunAll step Admits (fun _ => none) calls) (hcache : cache = run step (fun _ => none) calls)
    (hcall : cache.Admits call) : (cache.pathNormalize call).2 = call.resolve := by
  have h : cache.Inv := by
    rw [hcache]
    refine run_invariant ?_ hcalls (by simp [Inv])
    intro cache call _ hi
    exact hi.step call
  unfold PathCache.pathNormalize
  by_cases hpath : call.path = []
  · rw [if_pos hpath, PathCall.resolve, PathEnv.pathNormalize, PathEnv.pathNormalizeFrom_eq,
      if_pos hpath]
  · rw [if_neg hpath]
    simp only
    cases hhit : (cache.get call).2 with
    | some out =>
      unfold get at hhit
      split at hhit
      case h_1 entry hfind =>
        split_ifs at hhit with hexp
        obtain rfl := Option.some.inj hhit
        obtain ⟨hentry, hroot, hinput, hflags⟩ := find_eq hfind
        obtain ⟨hi, hr, hf, hres⟩ := h _ entry hentry
        exact (resolve_eq hpath (hr.symm.trans hroot) (hf.symm.trans hflags) (hi.symm.trans hinput)
          hres (hcall entry hfind (Bool.not_eq_true _ ▸ hexp))).symm
      case h_2 => cases hhit
    | none =>
      simp only
      cases hres : call.resolve <;> rfl

/-- A directory `/d` that only its owner, the superuser, may search, and a file `f` in it. -/
def privateTree : FileTree where
  node path :=
    if path = [] then some (.object { uid := 0, gid := 0, mode := 0x41ed })
    else if path = ['/', 'd'] then some (.object { uid := 0, gid := 0, mode := 0x41c0 })
    else if path = ['/', 'd', '/', 'f'] then some (.object { uid := 0, gid := 0, mode := 0x81a4 })
    else none
  leaf := by
    intro path nd rest hnd hdir
    split_ifs at hnd with h₁ h₂ h₃
    · obtain rfl := Option.some.inj hnd
      exact absurd hdir (by decide)
    · obtain rfl := Option.some.inj hnd
      exact absurd hdir (by decide)
    · simp [h₃]

def machineRoot : Directory privateTree where
  names := []
  isName := by simp
  isDir := ⟨.object { uid := 0, gid := 0, mode := 0x41ed }, by decide⟩
  fits := by decide

/-- Somebody looks up `/d/f` at some time. -/
def lookup (euid now : ℕ) : PathCall privateTree :=
  { root := machineRoot, dir := machineRoot, path := ['/', 'd', '/', 'f']
    flags := { follow := true, parentDirWrite := false }
    cred := { euid := euid, egid := euid }, now := now, later := now }

theorem pathNormalize_eq_resolve_again :
    ((run step (fun _ => none) [lookup 0 1]).pathNormalize (lookup 0 2)).2 =
      (lookup 0 2).resolve := by
  have hcalls : RunAll step Admits (fun _ => none) [lookup 0 1] := by
    refine ⟨?_, trivial⟩
    intro entry hentry
    cases hentry
  apply pathNormalize_eq_resolve hcalls rfl
  intro entry hentry _
  obtain rfl := Option.some.inj hentry
  exact Or.inl ⟨rfl, rfl, Or.inr rfl⟩

/-- The superuser looks up the file and becomes somebody else, who finds it in the cache. -/
theorem pathNormalize_ne_resolve :
    ((run step (fun _ => none) [lookup 0 1]).pathNormalize (lookup 1000 2)).2 =
        .ok ['/', 'd', '/', 'f'] ∧
      (lookup 1000 2).resolve = .err .eacces := by
  decide

end PathCache

end ShellBox
