import ShellBox.Kernel.Exec
import ShellBox.Logic.LittleEndian
import ShellBox.Logic.PackedStrings

/-!
# The arguments of `execve`

`sys_execve` reads the arguments and the environment into two buffers of `ARGV_MAX` bytes, and adds
variables and options in place. The arguments are counted; the environment, and whatever is added,
goes by the first empty string.

The environment that a program should get is given rule by rule, as is what a rule needs so that the
code does this.
-/

namespace ShellBox

def asciiBytes (s : String) : List UInt8 := s.toList.map fun c => UInt8.ofNat c.toNat

/-! ### Reading -/

/-- `user_get` of a pointer. -/
def userGet64 (m : ℕ → Option UInt8) (addr : ℕ) : Option ℕ :=
  if (List.range 8).all fun i => (m (addr + i)).isSome then
    some (loadLE (fun a => (m a).getD 0) addr 8)
  else none

def userReadString (m : ℕ → Option UInt8) (addr : ℕ) : ℕ → Except ℤ (List UInt8)
  | 0 => .error execE2big
  | room + 1 =>
    match m addr with
    | none => .error execEfault
    | some c =>
      if c = 0 then .ok [0] else (userReadString m (addr + 1) room).map (c :: ·)

/-- `user_read_string_array`: the number of strings and their bytes. Every string takes up room, and
`room` strings do not fit. -/
def userReadStringArray (m : ℕ → Option UInt8) (addr room : ℕ) : ℕ → Except ℤ (ℕ × List UInt8)
  | 0 => .error execE2big
  | fuel + 1 =>
    match userGet64 m addr with
    | none => .error execEfault
    | some p =>
      if p = 0 then if room = 0 then .error execE2big else .ok (0, [0])
      else
        match userReadString m p room with
        | .error e => .error e
        | .ok s =>
          match userReadStringArray m (addr + 8) (room - s.length) fuel with
          | .error e => .error e
          | .ok (n, bytes) => .ok (n + 1, s ++ bytes)

/-! ### Variables -/

/-- An entry of `inject_envs`. -/
structure InjectEnv where
  kv : List UInt8
  prefixLen : ℕ
  replace : Bool

def injectEnvs : List InjectEnv :=
  [⟨asciiBytes "PYTHONMALLOC=malloc", 13, true⟩,
    ⟨asciiBytes "NO_COLOR=1", 9, false⟩,
    ⟨asciiBytes "PIP_PROGRESS_BAR=off", 17, false⟩,
    ⟨asciiBytes "PYTHONDONTWRITEBYTECODE=1", 25, false⟩,
    ⟨asciiBytes "GODEBUG=asyncpreemptoff=1", 8, false⟩,
    ⟨asciiBytes "GOMAXPROCS=2", 11, false⟩,
    ⟨asciiBytes "UV_THREADPOOL_SIZE=1", 19, false⟩]

/-- The variable of `node`. -/
def ldPreload : InjectEnv := ⟨asciiBytes "LD_PRELOAD=/lib/zero_free.so", 11, false⟩

/-- `strncmp` of strings. -/
def strncmpEq (s t : List UInt8) (n : ℕ) : Bool := s.take n = t.take n

namespace InjectEnv

variable (r : InjectEnv)

/-- Add the variable where the terminator of the buffer is, if there is room. -/
def append (buf : List UInt8) (totalUsed : ℕ) : List UInt8 :=
  if totalUsed + (r.kv.length + 1) + 1 ≤ argvMax then
    overwrite (overwrite buf (totalUsed - 1) (r.kv ++ [0])) (totalUsed + r.kv.length) [0]
  else buf

def remove (buf : List UInt8) (totalUsed foundAt oldLen : ℕ) : List UInt8 :=
  overwrite buf foundAt
    ((buf.drop (foundAt + oldLen)).take (totalUsed - foundAt - oldLen))

/-- One round of the loop over `inject_envs`. A scan that leaves the buffer has no result. -/
def inject (buf : List UInt8) : Option (List UInt8) :=
  (scan 0 buf).bind fun ss =>
    match findLast (fun e => strncmpEq e r.kv r.prefixLen) 0 ss with
    | none => some (r.append buf ((pack 0 ss).length + 1))
    | some foundAt =>
      if r.replace then
        (strlen 0 (buf.drop foundAt)).map fun k =>
          r.append (remove buf ((pack 0 ss).length + 1) foundAt (k + 1))
            ((pack 0 ss).length + 1 - (k + 1))
      else some buf

end InjectEnv

/-! ### Options of `node` -/

def nodeOptions : List (List UInt8) :=
  [asciiBytes "--jitless", asciiBytes "--no-lazy", asciiBytes "--max-old-space-size=512",
    asciiBytes "--no-concurrent-marking", asciiBytes "--no-concurrent-recompilation",
    asciiBytes "--no-lazy-compile-dispatcher", asciiBytes "--predictable"]

def wasmPolyfill : List UInt8 := asciiBytes "--require=/lib/wasm-polyfill.js"
def fetchPolyfill : List UInt8 := asciiBytes "--require=/lib/fetch-polyfill.js"

def injectArgs (wasm fetch : Bool) : List (List UInt8) :=
  nodeOptions ++ (if wasm then [wasmPolyfill] else []) ++ if fetch then [fetchPolyfill] else []

/-- Move what is behind `argv[0]` and write the option there, unless it is present. -/
def injectArg (arg : List UInt8) (argv : ℕ × List UInt8) : Option (ℕ × List UInt8) :=
  (scan 0 argv.2).bind fun ss =>
    if arg ∉ ss ∧ (pack 0 ss).length + 1 + (arg.length + 1) + 1 ≤ argvMax then
      (strlen 0 argv.2).map fun k =>
        (argv.1 + 1,
          overwrite
            (overwrite argv.2 (k + 1 + (arg.length + 1))
              ((argv.2.drop (k + 1)).take ((pack 0 ss).length + 1 - (k + 1))))
            (k + 1) (arg ++ [0]))
    else some argv

def pathBase (file : List UInt8) : List UInt8 := file.rtakeWhile (· ≠ 47)

def isNode (file : List UInt8) : Bool := pathBase file = asciiBytes "node"

/-! ### The system call -/

/-- The first string of the buffer and all others, as `sys_execve` passes them on. -/
structure ExecBuffers where
  argc : ℕ
  argv : List UInt8
  envp : List UInt8

def fillBuffer (bytes junk : List UInt8) : List UInt8 := bytes ++ junk.drop bytes.length

/-- The variables and options, where there is no result if the code leaves a buffer. -/
def injectAll (file : List UInt8) (wasm fetch : Bool) (b : ExecBuffers) : Option ExecBuffers :=
  (injectEnvs.foldlM (fun buf (r : InjectEnv) => r.inject buf) b.envp).bind fun envp =>
    if isNode file then
      ((injectArgs wasm fetch).foldlM (fun argv arg => injectArg arg argv) (b.argc, b.argv)).bind
        fun argv => (ldPreload.inject envp).map fun envp => ⟨argv.1, argv.2, envp⟩
    else some ⟨b.argc, b.argv, envp⟩

/-- `sys_execve` until the file is opened. The buffers are as `malloc` left them. -/
def readExecArgs (m : ℕ → Option UInt8) (argvAddr envpAddr : ℕ) (argvJunk envpJunk : List UInt8) :
    Except ℤ ExecBuffers :=
  match userReadStringArray m argvAddr argvMax (argvMax + 1) with
  | .error e => .error e
  | .ok (argc, argv) =>
    if envpAddr = 0 then .ok ⟨argc, fillBuffer argv argvJunk, fillBuffer [0, 0] envpJunk⟩
    else
      match userReadStringArray m envpAddr argvMax (argvMax + 1) with
      | .error e => .error e
      | .ok (_, envp) => .ok ⟨argc, fillBuffer argv argvJunk, fillBuffer envp envpJunk⟩

/-! ### What the program should get -/

namespace InjectEnv

variable (r : InjectEnv)

def name : List UInt8 := r.kv.takeWhile (· ≠ 61) ++ [61]

def Names (s : List UInt8) : Prop := r.name <+: s

instance decidableNames (s : List UInt8) : Decidable (r.Names s) :=
  inferInstanceAs (Decidable (_ <+: _))

def force (env : List (List UInt8)) : List (List UInt8) :=
  if r.replace then env.filter (¬ r.Names ·) ++ [r.kv]
  else if ∃ s ∈ env, r.Names s then env
  else env ++ [r.kv]

/-- What the code needs of the environment: a variable to be replaced is there at most once, one
that is present is recognised, and there is room for one that is added. -/
structure Fits (env : List (List UInt8)) : Prop where
  once : r.replace → env.countP (r.Names ·) ≤ 1
  known : ¬ r.replace → (∃ s ∈ env, r.Names s) → ∃ s ∈ env, strncmpEq s r.kv r.prefixLen
  room : r.replace ∨ (¬ ∃ s ∈ env, r.Names s) →
    (pack 0 (r.force env)).length + 2 ≤ argvMax

end InjectEnv

def insertOption (args : List (List UInt8)) (arg : List UInt8) : List (List UInt8) :=
  if arg ∈ args then args
  else
    match args with
    | [] => []
    | argv0 :: rest => argv0 :: arg :: rest

def EnvFits : List InjectEnv → List (List UInt8) → Prop
  | [], _ => True
  | r :: rules, env => r.Fits env ∧ EnvFits rules (r.force env)

def ArgsFit : List (List UInt8) → List (List UInt8) → Prop
  | [], _ => True
  | arg :: opts, args =>
    (arg ∉ args → (pack 0 (insertOption args arg)).length + 2 ≤ argvMax) ∧
      ArgsFit opts (insertOption args arg)

instance decidableInjectEnvFits (r : InjectEnv) (env : List (List UInt8)) :
    Decidable (r.Fits env) :=
  decidable_of_iff
    ((r.replace → env.countP (r.Names ·) ≤ 1) ∧
      (¬ r.replace → (∃ s ∈ env, r.Names s) → ∃ s ∈ env, strncmpEq s r.kv r.prefixLen) ∧
      (r.replace ∨ (¬ ∃ s ∈ env, r.Names s) → (pack 0 (r.force env)).length + 2 ≤ argvMax))
    ⟨fun ⟨h₁, h₂, h₃⟩ => ⟨h₁, h₂, h₃⟩, fun ⟨h₁, h₂, h₃⟩ => ⟨h₁, h₂, h₃⟩⟩

instance decidableEnvFits : ∀ (rules : List InjectEnv) (env : List (List UInt8)),
    Decidable (EnvFits rules env)
  | [], _ => inferInstanceAs (Decidable True)
  | r :: rules, env =>
    have := decidableEnvFits rules (r.force env)
    inferInstanceAs (Decidable (r.Fits env ∧ EnvFits rules (r.force env)))

/-! ### Buffers -/

def CStrings (ss : List (List UInt8)) : Prop := ∀ s ∈ ss, (0 : UInt8) ∉ s

structure Holds (buf : List UInt8) (ss : List (List UInt8)) : Prop where
  bytes : ∃ junk, buf = pack 0 ss ++ 0 :: junk
  length : buf.length = argvMax

section Buffers

variable {buf : List UInt8} {ss pre post : List (List UInt8)} {s : List UInt8} {r : InjectEnv}

lemma Holds.append (h : Holds buf ss) (hroom : (pack 0 (ss ++ [r.kv])).length + 2 ≤ argvMax) :
    Holds (r.append buf ((pack 0 ss).length + 1)) (ss ++ [r.kv]) := by
  obtain ⟨⟨junk, hbuf⟩, hlength⟩ := h
  have hpack : (pack 0 (ss ++ [r.kv])).length = (pack 0 ss).length + (r.kv.length + 1) := by
    simp
  rw [hpack] at hroom
  have hfirst : overwrite buf ((pack 0 ss).length + 1 - 1) (r.kv ++ [0]) =
      (pack 0 ss ++ (r.kv ++ [0])) ++ (0 :: junk).drop (r.kv.length + 1) := by
    rw [hbuf, Nat.add_sub_cancel, overwrite_append, List.length_append, List.length_singleton]
    simp only [List.append_assoc]
  have hat : (pack 0 ss).length + 1 + r.kv.length = (pack 0 ss ++ (r.kv ++ [0])).length := by
    simp only [List.length_append, List.length_singleton]
    omega
  rw [InjectEnv.append, if_pos (by omega)]
  constructor
  · refine ⟨((0 :: junk).drop (r.kv.length + 1)).drop 1, ?_⟩
    rw [hfirst, hat, overwrite_append]
    simp
  · have hlong : (overwrite buf ((pack 0 ss).length + 1 - 1) (r.kv ++ [0])).length = argvMax := by
      rw [length_overwrite, hlength]
      rw [hlength, List.length_append, List.length_singleton]
      omega
    rw [length_overwrite, hlong]
    rw [hlong, List.length_singleton]
    omega

lemma Holds.remove (h : Holds buf (pre ++ s :: post)) :
    Holds (InjectEnv.remove buf ((pack 0 (pre ++ s :: post)).length + 1) (pack 0 pre).length
      (s.length + 1)) (pre ++ post) := by
  obtain ⟨⟨junk, hbuf⟩, hlength⟩ := h
  have htail : (pack 0 (pre ++ s :: post)).length + 1 - (pack 0 pre).length - (s.length + 1) =
      (pack 0 post).length + 1 := by
    rw [pack_append, List.length_append, length_pack_cons]
    omega
  have hsplit : buf = (pack 0 pre ++ (s ++ [0])) ++ (pack 0 post ++ 0 :: junk) := by
    rw [hbuf]
    simp
  have hmove : (buf.drop ((pack 0 pre).length + (s.length + 1))).take
      ((pack 0 post).length + 1) = pack 0 post ++ [0] := by
    rw [hsplit, show (pack 0 pre).length + (s.length + 1) = (pack 0 pre ++ (s ++ [0])).length by
      simp, List.drop_left, show pack 0 post ++ 0 :: junk = (pack 0 post ++ [0]) ++ junk by simp,
      List.take_left' (by simp)]
  have hlong := hlength
  rw [hsplit] at hlong
  simp only [List.length_append, List.length_cons, List.length_nil] at hlong
  rw [InjectEnv.remove, htail, hmove]
  constructor
  · refine ⟨((s ++ [0]) ++ (pack 0 post ++ 0 :: junk)).drop ((pack 0 post).length + 1), ?_⟩
    rw [hsplit, List.append_assoc, overwrite_append]
    simp
  · rw [length_overwrite, hlength]
    rw [hlength, List.length_append, List.length_singleton]
    omega

lemma Holds.scan (h : Holds buf ss) (hss : CStrings ss) (hne : ∀ s ∈ ss, s ≠ []) :
    scan 0 buf = some ss := by
  obtain ⟨⟨junk, hbuf⟩, -⟩ := h
  rw [hbuf, scan_pack_of_ne_nil hss hne]

end Buffers

/-! ### Variables in a buffer -/

namespace InjectEnv

variable {r : InjectEnv} {env : List (List UInt8)} {buf : List UInt8}

structure Sound (r : InjectEnv) : Prop where
  nonempty : r.kv ≠ []
  plain : (0 : UInt8) ∉ r.kv
  compared : r.name.length ≤ r.prefixLen
  prefix_name : r.name <+: r.kv
  exact : r.replace → r.name.length = r.prefixLen

lemma names_iff (h : r.name <+: r.kv) {s : List UInt8} :
    r.Names s ↔ s.take r.name.length = r.kv.take r.name.length := by
  rw [Names, List.prefix_iff_eq_take, ← List.prefix_iff_eq_take.mp h]
  exact eq_comm

lemma Sound.names (h : r.Sound) {s : List UInt8} (hs : strncmpEq s r.kv r.prefixLen) :
    r.Names s := by
  rw [names_iff h.prefix_name]
  have heq : s.take r.prefixLen = r.kv.take r.prefixLen := by simpa [strncmpEq] using hs
  have hmin : min r.name.length r.prefixLen = r.name.length := min_eq_left h.compared
  rw [← hmin, ← List.take_take, heq, List.take_take]

lemma Sound.names_iff_compared (h : r.Sound) (hreplace : r.replace) {s : List UInt8} :
    r.Names s ↔ strncmpEq s r.kv r.prefixLen := by
  rw [names_iff h.prefix_name, h.exact hreplace]
  simp [strncmpEq]

lemma force_cstrings (h : r.Sound) (henv : CStrings env) : CStrings (r.force env) := by
  intro s hs
  unfold force at hs
  split_ifs at hs
  · rcases List.mem_append.mp hs with hs | hs
    · exact henv s (List.mem_of_mem_filter hs)
    · rw [List.mem_singleton.mp hs]
      exact h.plain
  · exact henv s hs
  · rcases List.mem_append.mp hs with hs | hs
    · exact henv s hs
    · rw [List.mem_singleton.mp hs]
      exact h.plain

lemma force_ne_nil (h : r.Sound) (henv : ∀ s ∈ env, s ≠ []) : ∀ s ∈ r.force env, s ≠ [] := by
  intro s hs
  unfold force at hs
  split_ifs at hs
  · rcases List.mem_append.mp hs with hs | hs
    · exact henv s (List.mem_of_mem_filter hs)
    · rw [List.mem_singleton.mp hs]
      exact h.nonempty
  · exact henv s hs
  · rcases List.mem_append.mp hs with hs | hs
    · exact henv s hs
    · rw [List.mem_singleton.mp hs]
      exact h.nonempty

lemma exists_split (hone : env.countP (r.Names ·) ≤ 1) (hex : ∃ s ∈ env, r.Names s) :
    ∃ pre s post, env = pre ++ s :: post ∧ r.Names s ∧ (∀ t ∈ pre, ¬ r.Names t) ∧
      ∀ t ∈ post, ¬ r.Names t := by
  obtain ⟨s, hs, hnames⟩ := hex
  obtain ⟨pre, post, rfl⟩ := List.append_of_mem hs
  rw [List.countP_append, List.countP_cons_of_pos (by simpa using hnames)] at hone
  have hpre : pre.countP (r.Names ·) = 0 := by omega
  have hpost : post.countP (r.Names ·) = 0 := by omega
  refine ⟨pre, s, post, rfl, hnames, fun t ht => ?_, fun t ht => ?_⟩
  · simpa using List.countP_eq_zero.mp hpre t ht
  · simpa using List.countP_eq_zero.mp hpost t ht

lemma inject_spec (h : r.Sound) (hbuf : Holds buf env) (henv : CStrings env)
    (hne : ∀ s ∈ env, s ≠ []) (hfits : r.Fits env) :
    ∃ buf', r.inject buf = some buf' ∧ Holds buf' (r.force env) := by
  have hscan := hbuf.scan henv hne
  by_cases hex : ∃ s ∈ env, r.Names s
  · by_cases hreplace : r.replace
    · obtain ⟨pre, s, post, rfl, hnames, hpre, hpost⟩ := exists_split (hfits.once hreplace) hex
      have hfind : findLast (fun e => strncmpEq e r.kv r.prefixLen) 0 (pre ++ s :: post) =
          some (pack 0 pre).length := by
        rw [findLast_append ((h.names_iff_compared hreplace).mp hnames), Nat.zero_add]
        exact fun t ht => mt (h.names_iff_compared hreplace).mpr (hpost t ht)
      have hforce : r.force (pre ++ s :: post) = (pre ++ post) ++ [r.kv] := by
        rw [force, if_pos hreplace, List.filter_append,
          List.filter_cons_of_neg (by simpa using hnames),
          List.filter_eq_self.mpr (by simpa using hpre),
          List.filter_eq_self.mpr (by simpa using hpost)]
      have hroom := hfits.room (Or.inl hreplace)
      rw [hforce] at hroom ⊢
      have hlen : strlen 0 (buf.drop (pack 0 pre).length) = some s.length := by
        obtain ⟨⟨junk, rfl⟩, -⟩ := hbuf
        rw [pack_append, List.append_assoc, List.drop_left, pack_cons, List.append_assoc,
          List.cons_append]
        exact strlen_append (henv s (by simp))
      have htotal : (pack 0 (pre ++ s :: post)).length + 1 - (s.length + 1) =
          (pack 0 (pre ++ post)).length + 1 := by
        simp only [pack_append, pack_cons, List.length_append, List.length_cons]
        omega
      refine ⟨_, ?_, (hbuf.remove).append hroom⟩
      rw [inject, hscan, Option.bind_some, hfind]
      simp only [hreplace, if_true, hlen, Option.map_some, htotal]
    · have hforce : r.force env = env := by
        rw [force, if_neg hreplace, if_pos hex]
      obtain ⟨s, hs, hknown⟩ := hfits.known hreplace hex
      have hfind : findLast (fun e => strncmpEq e r.kv r.prefixLen) 0 env ≠ none :=
        findLast_ne_none hs hknown
      obtain ⟨off, hoff⟩ := Option.ne_none_iff_exists'.mp hfind
      rw [hforce]
      refine ⟨buf, ?_, hbuf⟩
      rw [inject, hscan, Option.bind_some, hoff]
      simp [hreplace]
  · have hforce : r.force env = env ++ [r.kv] := by
      unfold force
      split_ifs
      · rw [List.filter_eq_self.mpr]
        intro s hs
        simpa using fun hnames => hex ⟨s, hs, hnames⟩
      · rfl
    have hroom := hfits.room (Or.inr hex)
    rw [hforce] at hroom ⊢
    have hfind : findLast (fun e => strncmpEq e r.kv r.prefixLen) 0 env = none :=
      findLast_eq_none fun s hs hyes => hex ⟨s, hs, h.names hyes⟩
    refine ⟨_, ?_, hbuf.append hroom⟩
    rw [inject, hscan, Option.bind_some, hfind]

lemma foldlM_inject {rules : List InjectEnv} (h : ∀ r ∈ rules, r.Sound) (hbuf : Holds buf env)
    (henv : CStrings env) (hne : ∀ s ∈ env, s ≠ []) (hfits : EnvFits rules env) :
    ∃ buf', rules.foldlM (fun buf (r : InjectEnv) => r.inject buf) buf = some buf' ∧
      Holds buf' (rules.foldl (fun env r => r.force env) env) ∧
      CStrings (rules.foldl (fun env r => r.force env) env) ∧
      ∀ s ∈ rules.foldl (fun env r => r.force env) env, s ≠ [] := by
  induction rules generalizing buf env with
  | nil => exact ⟨buf, rfl, hbuf, henv, hne⟩
  | cons r rules ih =>
    have hr := h r List.mem_cons_self
    obtain ⟨buf₁, hinject, hbuf₁⟩ := inject_spec hr hbuf henv hne hfits.1
    obtain ⟨buf₂, hfold, hrest⟩ := ih (fun r' hr' => h r' (List.mem_cons_of_mem r hr')) hbuf₁
      (force_cstrings hr henv) (force_ne_nil hr hne) hfits.2
    refine ⟨buf₂, ?_, hrest⟩
    rw [List.foldlM_cons, hinject]
    exact hfold

instance decidableSound (r : InjectEnv) : Decidable r.Sound :=
  decidable_of_iff
    (r.kv ≠ [] ∧ (0 : UInt8) ∉ r.kv ∧ r.name.length ≤ r.prefixLen ∧ r.name <+: r.kv ∧
      (r.replace → r.name.length = r.prefixLen))
    ⟨fun ⟨h₁, h₂, h₃, h₄, h₅⟩ => ⟨h₁, h₂, h₃, h₄, h₅⟩,
      fun ⟨h₁, h₂, h₃, h₄, h₅⟩ => ⟨h₁, h₂, h₃, h₄, h₅⟩⟩

lemma sound_injectEnvs : ∀ r ∈ injectEnvs, r.Sound := by decide

lemma sound_ldPreload : ldPreload.Sound := by decide

end InjectEnv

/-! ### Options in a buffer -/

section Options

variable {buf arg : List UInt8} {args : List (List UInt8)}

lemma Holds.insert {argv0 : List UInt8} {rest : List (List UInt8)}
    (hbuf : Holds buf (argv0 :: rest))
    (hroom : (pack 0 (argv0 :: arg :: rest)).length + 2 ≤ argvMax) :
    Holds (overwrite
      (overwrite buf (argv0.length + 1 + (arg.length + 1))
        ((buf.drop (argv0.length + 1)).take
          ((pack 0 (argv0 :: rest)).length + 1 - (argv0.length + 1))))
      (argv0.length + 1) (arg ++ [0])) (argv0 :: arg :: rest) := by
  obtain ⟨⟨junk, hbytes⟩, hlength⟩ := hbuf
  have htail : (pack 0 (argv0 :: rest)).length + 1 - (argv0.length + 1) =
      (pack 0 rest ++ [(0 : UInt8)]).length := by
    rw [length_pack_cons, List.length_append, List.length_singleton]
    omega
  have hsplit : buf = (argv0 ++ [0]) ++ ((pack 0 rest ++ [0]) ++ junk) := by
    rw [hbytes]
    simp
  have hhead : (argv0 ++ [(0 : UInt8)]).length = argv0.length + 1 := by simp
  have hmove : (buf.drop (argv0.length + 1)).take
      ((pack 0 (argv0 :: rest)).length + 1 - (argv0.length + 1)) = pack 0 rest ++ [0] := by
    rw [htail, hsplit, ← hhead, List.drop_left, List.take_left]
  rw [length_pack_cons, length_pack_cons] at hroom
  have hfits : argv0.length + 1 + (arg.length + 1) + (pack 0 rest ++ [(0 : UInt8)]).length ≤
      buf.length := by
    rw [hlength, List.length_append, List.length_singleton]
    omega
  -- The bytes between the first string and the moved ones are what the option overwrites.
  obtain ⟨gap, hgap, hmoved⟩ : ∃ gap : List UInt8, gap.length = arg.length + 1 ∧
      overwrite buf (argv0.length + 1 + (arg.length + 1)) (pack 0 rest ++ [0]) =
        (argv0 ++ [0]) ++ (gap ++ ((pack 0 rest ++ [0]) ++ buf.drop
          (argv0.length + 1 + (arg.length + 1) + (pack 0 rest ++ [(0 : UInt8)]).length))) := by
    refine ⟨((pack 0 rest ++ [0]) ++ junk).take (arg.length + 1), ?_, ?_⟩
    · have hlong := hlength
      rw [hsplit, List.length_append, hhead] at hlong
      rw [List.length_take]
      omega
    · rw [overwrite, hsplit, ← hhead, List.take_length_add_append]
      simp only [List.append_assoc]
  rw [hmove]
  constructor
  · refine ⟨buf.drop (argv0.length + 1 + (arg.length + 1) +
      (pack 0 rest ++ [(0 : UInt8)]).length), ?_⟩
    rw [hmoved, ← hhead, overwrite_append, List.length_append, List.length_singleton, ← hgap,
      List.drop_left]
    simp
  · have hlong := length_overwrite hfits
    rw [length_overwrite (by
      rw [hlong, List.length_append, List.length_singleton]
      omega), hlong, hlength]

lemma injectArg_spec (hbuf : Holds buf args) (hargs : CStrings args) (hne : ∀ s ∈ args, s ≠ [])
    (hsome : args ≠ [])
    (hroom : arg ∉ args → (pack 0 (insertOption args arg)).length + 2 ≤ argvMax) :
    ∃ buf', injectArg arg (args.length, buf) = some ((insertOption args arg).length, buf') ∧
      Holds buf' (insertOption args arg) := by
  have hscan := hbuf.scan hargs hne
  by_cases hmem : arg ∈ args
  · refine ⟨buf, ?_, ?_⟩
    · simp [injectArg, hscan, insertOption, hmem]
    · rwa [insertOption.eq_def, if_pos hmem]
  · obtain ⟨argv0, rest, rfl⟩ := List.exists_cons_of_ne_nil hsome
    have hinsert : insertOption (argv0 :: rest) arg = argv0 :: arg :: rest := if_neg hmem
    have hfits := hroom hmem
    rw [hinsert] at hfits ⊢
    have hlen : strlen 0 buf = some argv0.length := by
      obtain ⟨⟨junk, rfl⟩, -⟩ := hbuf
      rw [pack_cons, List.append_assoc, List.cons_append]
      exact strlen_append (hargs argv0 List.mem_cons_self)
    have hguard : (pack 0 (argv0 :: rest)).length + 1 + (arg.length + 1) + 1 ≤ argvMax := by
      rw [length_pack_cons, length_pack_cons] at hfits
      rw [length_pack_cons]
      omega
    refine ⟨_, ?_, hbuf.insert hfits⟩
    rw [injectArg, hscan, Option.bind_some, if_pos ⟨hmem, hguard⟩, hlen, Option.map_some]
    rfl

lemma insertOption_cstrings (hargs : CStrings args) (harg : (0 : UInt8) ∉ arg) :
    CStrings (insertOption args arg) := by
  unfold insertOption
  split_ifs
  · exact hargs
  · intro s hs
    cases args with
    | nil => cases hs
    | cons argv0 rest =>
      rcases List.mem_cons.mp hs with rfl | hs
      · exact hargs s List.mem_cons_self
      · rcases List.mem_cons.mp hs with rfl | hs
        · exact harg
        · exact hargs s (List.mem_cons_of_mem _ hs)

lemma insertOption_ne_nil (hne : ∀ s ∈ args, s ≠ []) (harg : arg ≠ []) :
    ∀ s ∈ insertOption args arg, s ≠ [] := by
  unfold insertOption
  split_ifs
  · exact hne
  · intro s hs
    cases args with
    | nil => cases hs
    | cons argv0 rest =>
      rcases List.mem_cons.mp hs with rfl | hs
      · exact hne s List.mem_cons_self
      · rcases List.mem_cons.mp hs with rfl | hs
        · exact harg
        · exact hne s (List.mem_cons_of_mem _ hs)

lemma insertOption_eq_nil : insertOption args arg = [] ↔ args = [] := by
  unfold insertOption
  split_ifs with hmem
  · exact Iff.rfl
  · cases args <;> simp

lemma foldlM_injectArg {opts : List (List UInt8)} (hopts : ∀ o ∈ opts, o ≠ [] ∧ (0 : UInt8) ∉ o)
    (hbuf : Holds buf args) (hargs : CStrings args) (hne : ∀ s ∈ args, s ≠ []) (hsome : args ≠ [])
    (hfits : ArgsFit opts args) :
    ∃ buf', opts.foldlM (fun argv arg => injectArg arg argv) (args.length, buf) =
        some ((opts.foldl insertOption args).length, buf') ∧
      Holds buf' (opts.foldl insertOption args) ∧ CStrings (opts.foldl insertOption args) := by
  induction opts generalizing buf args with
  | nil => exact ⟨buf, rfl, hbuf, hargs⟩
  | cons o opts ih =>
    obtain ⟨hone, hzero⟩ := hopts o List.mem_cons_self
    obtain ⟨buf₁, hinject, hbuf₁⟩ := injectArg_spec hbuf hargs hne hsome hfits.1
    obtain ⟨buf₂, hfold, hrest⟩ := ih (fun o' ho' => hopts o' (List.mem_cons_of_mem o ho')) hbuf₁
      (insertOption_cstrings hargs hzero) (insertOption_ne_nil hne hone)
      (mt insertOption_eq_nil.mp hsome) hfits.2
    refine ⟨buf₂, ?_, hrest⟩
    rw [List.foldlM_cons, hinject]
    exact hfold

lemma foldlM_injectArg_of_mem {opts : List (List UInt8)} (hbuf : Holds buf args)
    (hargs : CStrings args) (hopts : ∀ o ∈ opts, o ∈ args.takeWhile (· ≠ [])) :
    opts.foldlM (fun argv arg => injectArg arg argv) (args.length, buf) = some (args.length, buf) ∧
      opts.foldl insertOption args = args := by
  have hscan : scan 0 buf = some (args.takeWhile (· ≠ [])) := by
    obtain ⟨⟨junk, hbytes⟩, -⟩ := hbuf
    rw [hbytes, scan_pack hargs]
  induction opts with
  | nil => exact ⟨rfl, rfl⟩
  | cons o opts ih =>
    obtain ⟨hfold, hspec⟩ := ih fun o' ho' => hopts o' (List.mem_cons_of_mem o ho')
    have ho := hopts o List.mem_cons_self
    have hinject : injectArg o (args.length, buf) = some (args.length, buf) := by
      simp only [injectArg, hscan, Option.bind_some, ho, not_true, false_and, if_false]
    constructor
    · rw [List.foldlM_cons, hinject]
      exact hfold
    · rw [List.foldl_cons, insertOption.eq_def,
        if_pos ((List.takeWhile_sublist _).subset ho), hspec]

lemma injectArgs_plain (wasm fetch : Bool) :
    ∀ o ∈ injectArgs wasm fetch, o ≠ [] ∧ (0 : UInt8) ∉ o := by
  cases wasm <;> cases fetch <;> decide

end Options

/-! ### Reading into a buffer -/

def UserString (m : ℕ → Option UInt8) : ℕ → List UInt8 → Prop
  | p, [] => m p = some 0
  | p, c :: s => m p = some c ∧ c ≠ 0 ∧ UserString m (p + 1) s

def UserStrings (m : ℕ → Option UInt8) : ℕ → List (List UInt8) → Prop
  | addr, [] => userGet64 m addr = some 0
  | addr, s :: ss => ∃ p ≠ 0, userGet64 m addr = some p ∧ UserString m p s ∧
    UserStrings m (addr + 8) ss

instance decidableUserString (m : ℕ → Option UInt8) :
    ∀ (p : ℕ) (s : List UInt8), Decidable (UserString m p s)
  | p, [] => inferInstanceAs (Decidable (m p = some 0))
  | p, c :: s =>
    have := decidableUserString m (p + 1) s
    inferInstanceAs (Decidable (m p = some c ∧ c ≠ 0 ∧ UserString m (p + 1) s))

instance decidableUserStrings (m : ℕ → Option UInt8) :
    ∀ (addr : ℕ) (ss : List (List UInt8)), Decidable (UserStrings m addr ss)
  | addr, [] => inferInstanceAs (Decidable (userGet64 m addr = some 0))
  | addr, s :: ss =>
    have := decidableUserStrings m (addr + 8) ss
    decidable_of_iff (∃ p ∈ userGet64 m addr, p ≠ 0 ∧ UserString m p s ∧ UserStrings m (addr + 8) ss)
      ⟨fun ⟨p, hp, hne, hs⟩ => ⟨p, hne, hp, hs⟩, fun ⟨p, hne, hp, hs⟩ => ⟨p, hp, hne, hs⟩⟩

section Reading

variable {m : ℕ → Option UInt8}

lemma UserString.plain {p : ℕ} {s : List UInt8} (h : UserString m p s) : (0 : UInt8) ∉ s := by
  induction s generalizing p with
  | nil => exact List.not_mem_nil
  | cons c s ih =>
    obtain ⟨-, hc, hs⟩ := h
    rw [List.mem_cons, not_or]
    exact ⟨Ne.symm hc, ih hs⟩

lemma UserStrings.cstrings {addr : ℕ} {ss : List (List UInt8)} (h : UserStrings m addr ss) :
    CStrings ss := by
  induction ss generalizing addr with
  | nil => exact fun s hs => absurd hs List.not_mem_nil
  | cons s ss ih =>
    obtain ⟨p, -, -, hs, hss⟩ := h
    intro s' hs'
    rcases List.mem_cons.mp hs' with rfl | hs'
    · exact hs.plain
    · exact ih hss s' hs'

lemma userReadString_spec {p room : ℕ} {s : List UInt8} (h : UserString m p s)
    (hroom : s.length < room) : userReadString m p room = .ok (s ++ [0]) := by
  induction s generalizing p room with
  | nil =>
    obtain ⟨room, rfl⟩ := Nat.exists_eq_succ_of_ne_zero (Nat.ne_of_gt hroom)
    rw [UserString] at h
    rw [userReadString, h]
    rfl
  | cons c s ih =>
    obtain ⟨hc, hne, hs⟩ := h
    obtain ⟨room, rfl⟩ := Nat.exists_eq_succ_of_ne_zero (Nat.ne_of_gt (Nat.zero_lt_of_lt hroom))
    rw [userReadString, hc]
    simp only [hne, if_false, ih hs (Nat.lt_of_succ_lt_succ hroom)]
    rfl

lemma userReadStringArray_spec {addr room fuel : ℕ} {ss : List (List UInt8)}
    (h : UserStrings m addr ss) (hroom : (pack 0 ss).length < room) (hfuel : ss.length < fuel) :
    userReadStringArray m addr room fuel = .ok (ss.length, pack 0 ss ++ [0]) := by
  induction ss generalizing addr room fuel with
  | nil =>
    obtain ⟨fuel, rfl⟩ := Nat.exists_eq_succ_of_ne_zero (Nat.ne_of_gt hfuel)
    rw [UserStrings] at h
    rw [userReadStringArray, h]
    simp only [if_true]
    rw [if_neg (show room ≠ 0 from Nat.ne_of_gt hroom)]
    rfl
  | cons s ss ih =>
    obtain ⟨p, hp, hget, hs, hss⟩ := h
    obtain ⟨fuel, rfl⟩ := Nat.exists_eq_succ_of_ne_zero (Nat.ne_of_gt (Nat.zero_lt_of_lt hfuel))
    rw [length_pack_cons] at hroom
    have hleft : (pack 0 ss).length < room - (s ++ [(0 : UInt8)]).length := by
      rw [List.length_append, List.length_singleton]
      omega
    have hrest := ih hss hleft (Nat.lt_of_succ_lt_succ hfuel)
    rw [userReadStringArray, hget]
    simp only [hp, if_false, userReadString_spec hs (show s.length < room by omega), hrest]
    simp

lemma holds_fillBuffer {ss : List (List UInt8)} {bytes junk : List UInt8}
    (hbytes : ∃ rest, bytes = pack 0 ss ++ 0 :: rest) (hlength : bytes.length ≤ argvMax)
    (hjunk : junk.length = argvMax) : Holds (fillBuffer bytes junk) ss := by
  obtain ⟨rest, rfl⟩ := hbytes
  constructor
  · exact ⟨rest ++ junk.drop (pack 0 ss ++ 0 :: rest).length, by simp [fillBuffer]⟩
  · rw [fillBuffer, List.length_append, List.length_drop, hjunk]
    omega

structure ExecInput (m : ℕ → Option UInt8) (argvAddr envpAddr : ℕ)
    (args env : List (List UInt8)) : Prop where
  argsSize : (pack 0 args).length < argvMax
  envSize : (pack 0 env).length < argvMax
  argsAt : UserStrings m argvAddr args
  envAt : if envpAddr = 0 then env = [] else UserStrings m envpAddr env

lemma readExecArgs_spec {argvAddr envpAddr : ℕ} {args env : List (List UInt8)}
    {argvJunk envpJunk : List UInt8} (h : ExecInput m argvAddr envpAddr args env)
    (hargv : argvJunk.length = argvMax) (henvp : envpJunk.length = argvMax) :
    ∃ b, readExecArgs m argvAddr envpAddr argvJunk envpJunk = .ok b ∧ b.argc = args.length ∧
      Holds b.argv args ∧ Holds b.envp env := by
  have hread {addr : ℕ} {ss : List (List UInt8)} (hss : UserStrings m addr ss)
      (hsize : (pack 0 ss).length < argvMax) :
      userReadStringArray m addr argvMax (argvMax + 1) = .ok (ss.length, pack 0 ss ++ [0]) :=
    userReadStringArray_spec hss hsize
      (Nat.lt_succ_of_le ((length_le_length_pack 0 ss).trans hsize.le))
  have hfill {ss : List (List UInt8)} {junk : List UInt8} (hsize : (pack 0 ss).length < argvMax)
      (hjunk : junk.length = argvMax) : Holds (fillBuffer (pack 0 ss ++ [0]) junk) ss := by
    refine holds_fillBuffer ⟨[], rfl⟩ ?_ hjunk
    rw [List.length_append, List.length_singleton]
    exact hsize
  unfold readExecArgs
  rw [hread h.argsAt h.argsSize]
  have henv := h.envAt
  by_cases hnull : envpAddr = 0
  · rw [if_pos hnull] at henv
    rw [henv]
    simp only [hnull, if_true]
    exact ⟨_, rfl, rfl, hfill h.argsSize hargv, holds_fillBuffer ⟨[0], rfl⟩ (by decide) henvp⟩
  · rw [if_neg hnull] at henv
    simp only [hnull, if_false, hread henv h.envSize]
    exact ⟨_, rfl, rfl, hfill h.argsSize hargv, hfill h.envSize henvp⟩

end Reading

/-! ### The buffers -/

def execArgs (file : List UInt8) (wasm fetch : Bool) (args : List (List UInt8)) :
    List (List UInt8) :=
  if isNode file then (injectArgs wasm fetch).foldl insertOption args else args

def execRules (file : List UInt8) : List InjectEnv :=
  if isNode file then injectEnvs ++ [ldPreload] else injectEnvs

def execEnv (file : List UInt8) (env : List (List UInt8)) : List (List UInt8) :=
  (execRules file).foldl (fun env r => r.force env) env

/-- No variable is empty, the rules can be followed, and where `node` does not have all its options
before the first empty argument, it has arguments, none is empty, and there is room. -/
structure InjectFits (file : List UInt8) (wasm fetch : Bool) (args env : List (List UInt8)) :
    Prop where
  env_ne_nil : ∀ s ∈ env, s ≠ []
  rules : EnvFits (execRules file) env
  options : isNode file → (∀ o ∈ injectArgs wasm fetch, o ∈ args.takeWhile (· ≠ [])) ∨
    (args ≠ [] ∧ (∀ s ∈ args, s ≠ []) ∧ ArgsFit (injectArgs wasm fetch) args)

lemma sound_execRules (file : List UInt8) : ∀ r ∈ execRules file, r.Sound := by
  intro r hr
  unfold execRules at hr
  split_ifs at hr
  · rcases List.mem_append.mp hr with hr | hr
    · exact InjectEnv.sound_injectEnvs r hr
    · rw [List.mem_singleton.mp hr]
      exact InjectEnv.sound_ldPreload
  · exact InjectEnv.sound_injectEnvs r hr

lemma injectAll_spec {file : List UInt8} {wasm fetch : Bool} {args env : List (List UInt8)}
    {b : ExecBuffers} (hargc : b.argc = args.length) (hargv : Holds b.argv args)
    (henvp : Holds b.envp env) (hargs : CStrings args) (henv : CStrings env)
    (hfits : InjectFits file wasm fetch args env) :
    ∃ b', injectAll file wasm fetch b = some b' ∧
      b'.argc = (execArgs file wasm fetch args).length ∧
      Holds b'.argv (execArgs file wasm fetch args) ∧ Holds b'.envp (execEnv file env) ∧
      CStrings (execArgs file wasm fetch args) ∧ CStrings (execEnv file env) ∧
      ∀ s ∈ execEnv file env, s ≠ [] := by
  obtain ⟨buf, hfold, hbuf, hcstrings, hne⟩ := InjectEnv.foldlM_inject (sound_execRules file) henvp
    henv hfits.env_ne_nil hfits.rules
  unfold injectAll execArgs
  by_cases hnode : isNode file
  · obtain ⟨argv, hargvFold, hargv', hargs'⟩ : ∃ buf',
        (injectArgs wasm fetch).foldlM (fun argv arg => injectArg arg argv) (args.length, b.argv) =
          some (((injectArgs wasm fetch).foldl insertOption args).length, buf') ∧
        Holds buf' ((injectArgs wasm fetch).foldl insertOption args) ∧
        CStrings ((injectArgs wasm fetch).foldl insertOption args) := by
      rcases hfits.options hnode with hall | ⟨hsome, hargs_ne, hroom⟩
      · obtain ⟨hsame, hspec⟩ := foldlM_injectArg_of_mem hargv hargs hall
        rw [hspec]
        exact ⟨b.argv, hsame, hargv, hargs⟩
      · exact foldlM_injectArg (injectArgs_plain wasm fetch) hargv hargs hargs_ne hsome hroom
    rw [execRules, if_pos hnode, List.foldlM_append] at hfold
    obtain ⟨envp, henvp', hlast⟩ := Option.bind_eq_some_iff.mp hfold
    have hlast' : ldPreload.inject envp = some buf := by simpa using hlast
    rw [if_pos hnode]
    refine ⟨⟨_, argv, buf⟩, ?_, rfl, hargv', hbuf, hargs', hcstrings, hne⟩
    rw [henvp', Option.bind_some, if_pos hnode, hargc, hargvFold, Option.bind_some, hlast']
    rfl
  · rw [execRules, if_neg hnode] at hfold
    rw [if_neg hnode]
    refine ⟨⟨b.argc, b.argv, buf⟩, ?_, hargc, hargv, hbuf, hargs, hcstrings, hne⟩
    rw [hfold, Option.bind_some, if_neg hnode]

end ShellBox
