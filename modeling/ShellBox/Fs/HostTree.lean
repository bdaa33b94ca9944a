import ShellBox.Fs.Fakefs
import ShellBox.Logic.FinMap

/-!
# A host that behaves as POSIX says

The host's directory tree below the root of the mount is a map from paths to files, in which two
names of one file are hard links. Renaming one of them to the other does nothing. Any call can
also fail for a reason of its own, and then nothing has changed.
-/

namespace ShellBox

/-- The files below the root, by their paths; the root itself is the empty path. -/
structure HostTree where
  node : FinMap CString ℕ
  isDir : ℕ → Bool

inductive HostCall
  | mkdir | unlink | rmdir | link | rename | mkfifo | create | write | close | openFile | attr
  deriving DecidableEq

/-- The failures the host has other reasons for. `EEXIST` has its own. -/
structure HostFaults where
  fail : HostCall → Option ℤ
  exists_ne : ∀ c, fail c ≠ some eexist

def HostFaults.nothing : HostFaults := ⟨fun _ => none, by simp⟩

def parentPath (path : CString) : CString := (path.reverse.dropWhile (· ≠ '/')).tail.reverse

namespace HostTree

variable (h : HostTree)

def dirAt (path : CString) : Bool := (h.node path).any h.isDir

def freshNode : ℕ := (h.node.keys.sup fun p => (h.node p).getD 0) + 1

lemma node_ne_fresh (p : CString) : h.node p ≠ some h.freshNode := by
  intro hp
  have hmem : p ∈ h.node.keys := by
    rw [h.node.mem_keys, hp]
    rfl
  have hle : (h.node p).getD 0 ≤ h.node.keys.sup fun p => (h.node p).getD 0 :=
    Finset.le_sup (f := fun p => (h.node p).getD 0) hmem
  rw [hp] at hle
  unfold freshNode at hle
  simp only [Option.getD_some] at hle
  omega

def hasEntry (path : CString) : Bool :=
  decide (∃ p ∈ h.node.keys, p ≠ path ∧ (tailOf '/' path p).isSome)

/-- The names `path` and `path'` are of one file. -/
def SameFile (path path' : CString) : Prop := h.node path ≠ none ∧ h.node path = h.node path'

instance (path path' : CString) : Decidable (h.SameFile path path') :=
  inferInstanceAs (Decidable (_ ∧ _))

def withNode (path : CString) (isDir : Bool) : HostTree :=
  { node := h.node.set path h.freshNode
    isDir := fun n => if n = h.freshNode then isDir else h.isDir n }

def make (isDir : Bool) (path : CString) : Except ℤ HostTree :=
  if (h.node path).isSome then .error eexist
  else if h.dirAt (parentPath path) then .ok (h.withNode path isDir)
  else .error (-2)

def unlinkAt (path : CString) : Except ℤ HostTree :=
  if (h.node path).isNone then .error (-2)
  else if h.dirAt path then .error (-1)
  else .ok { h with node := h.node.erase path }

def rmdirAt (path : CString) : Except ℤ HostTree :=
  if (h.node path).isNone then .error (-2)
  else if h.dirAt path = false then .error (-20)
  else if path = [] then .error (-16)
  else if h.hasEntry path then .error (-39)
  else .ok { h with node := h.node.erase path }

def linkAt (src dst : CString) : Except ℤ HostTree :=
  match h.node src with
  | none => .error (-2)
  | some n =>
    if h.isDir n then .error (-1)
    else if (h.node dst).isSome then .error eexist
    else if h.dirAt (parentPath dst) then .ok { h with node := h.node.set dst n }
    else .error (-2)

def renameAt (src dst : CString) : Except ℤ HostTree :=
  if (h.node src).isNone ∨ h.dirAt (parentPath dst) = false then .error (-2)
  else if h.SameFile src dst then .ok h
  else if src = [] ∨ dst = [] then .error (-16)
  else if (tailOf '/' src dst).isSome then .error (-22)
  else if h.dirAt src ∧ (h.node dst).isSome ∧ h.dirAt dst = false then .error (-20)
  else if h.dirAt src = false ∧ h.dirAt dst then .error (-21)
  else if h.hasEntry dst then .error (-39)
  else .ok { h with node := h.node.moveTree '/' src dst }

def openAt (path : CString) (flags : ℕ) : Except ℤ (ℕ × HostTree) :=
  match h.node path with
  | some n => .ok (n, h)
  | none => if flags &&& oCreat ≠ 0 then (h.make false path).map fun h' => (h.freshNode, h')
    else .error (-2)

/-! ### What the calls do when they succeed -/

section Effects

variable {h} {h' : HostTree} {path src dst : CString}

lemma make_ok {isDir : Bool} (hok : h.make isDir path = .ok h') :
    h.node path = none ∧ h' = h.withNode path isDir := by
  unfold make at hok
  split_ifs at hok with hnode hdir
  exact ⟨by simpa using hnode, (Except.ok.inj hok).symm⟩

lemma unlinkAt_ok (hok : h.unlinkAt path = .ok h') :
    h.node path ≠ none ∧ h'.node = h.node.erase path := by
  unfold unlinkAt at hok
  split_ifs at hok with hnode hdir
  refine ⟨by simpa using hnode, ?_⟩
  rw [← Except.ok.inj hok]

lemma rmdirAt_ok (hok : h.rmdirAt path = .ok h') :
    h.node path ≠ none ∧ h'.node = h.node.erase path := by
  unfold rmdirAt at hok
  split_ifs at hok with hnode hdir hroot hentry
  refine ⟨by simpa using hnode, ?_⟩
  rw [← Except.ok.inj hok]

lemma linkAt_ok (hok : h.linkAt src dst = .ok h') :
    ∃ n, h.node src = some n ∧ h'.node = h.node.set dst n := by
  unfold linkAt at hok
  cases hn : h.node src with
  | none => simp [hn] at hok
  | some n =>
    simp only [hn] at hok
    split_ifs at hok
    exact ⟨n, rfl, by rw [← Except.ok.inj hok]⟩

lemma renameAt_ok (hok : h.renameAt src dst = .ok h') :
    h.SameFile src dst ∧ h' = h ∨ ¬ h.SameFile src dst ∧
      h'.node = h.node.moveTree '/' src dst := by
  unfold renameAt at hok
  split_ifs at hok with h1 hsame
  · exact Or.inl ⟨hsame, (Except.ok.inj hok).symm⟩
  · exact Or.inr ⟨hsame, by rw [← Except.ok.inj hok]⟩

end Effects

def kindAt (path : CString) : Option HostKind :=
  (h.node path).map fun n => if h.isDir n then .dir else .other

end HostTree

/-- A call at a path below the root, unless it fails for a reason of its own. -/
def HostFaults.at {σ : Type*} (faults : HostFaults) (c : HostCall) (path : HostPath)
    (f : CString → Except ℤ σ) : Except ℤ σ :=
  match faults.fail c, path with
  | some e, _ => .error e
  | none, .root path => f path
  | none, .abs _ => .error (-2)

lemma HostFaults.at_ok {σ : Type*} {faults : HostFaults} {c : HostCall} {path : HostPath}
    {f : CString → Except ℤ σ} {s : σ} (h : faults.at c path f = .ok s) :
    faults.fail c = none ∧ ∃ p, path = .root p ∧ f p = .ok s := by
  unfold HostFaults.at at h
  cases hc : faults.fail c with
  | some e => simp [hc] at h
  | none =>
    cases path with
    | abs path => simp [hc] at h
    | root path => exact ⟨rfl, path, rfl, by simpa [hc] using h⟩

lemma HostFaults.make_eexist {faults : HostFaults} {c : HostCall} {h : HostTree} {isDir : Bool}
    {path : CString} (hexist : faults.at c (.root path) (h.make isDir) = .error eexist) :
    h.node path ≠ none := by
  unfold HostFaults.at HostTree.make at hexist
  cases hc : faults.fail c with
  | some e =>
    obtain rfl : e = eexist := by simpa [hc] using hexist
    exact absurd hc (faults.exists_ne c)
  | none =>
    simp only [hc] at hexist
    split_ifs at hexist with hnode
    · exact Option.isSome_iff_ne_none.1 hnode
    · exact absurd (Except.error.inj hexist) (by decide)

def posixCalls (faults : HostFaults) : HostCalls HostTree where
  mkdir h path := faults.at .mkdir path (h.make true)
  unlink h path := faults.at .unlink path h.unlinkAt
  rmdir h path := faults.at .rmdir path h.rmdirAt
  link h src dst := faults.at .link src fun src => faults.at .link dst (h.linkAt src)
  rename h src dst := faults.at .rename src fun src => faults.at .rename dst (h.renameAt src)
  mkfifo h path := faults.at .mkfifo path (h.make false)
  create h path := faults.at .create path (h.make false)
  write h path _ := faults.at .write path fun _ => .ok h
  close _ := faults.at .close (.root []) fun _ => .ok ()
  openFile h path flags := faults.at .openFile path fun path => h.openAt path flags
  fstatIno _ no := some no
  lstat h path := (faults.at .attr path fun path => .ok (h.kindAt path)).toOption.join
  stat h path := (faults.at .attr path fun path => .ok (h.kindAt path)).toOption.join
  setattr h path _ _ := faults.at .attr path fun _ => .ok h
  fsetattr h _ _ := faults.at .attr (.root []) fun _ => .ok h
  utime h path _ _ _ := faults.at .attr path fun _ => .ok h

end ShellBox
