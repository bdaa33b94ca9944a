import ShellBox.Kernel.ExecArgs
import ShellBox.Logic.StringArray

/-!
# The initial stack

`elf_exec` copies the name of the file, the environment and the arguments to the top of the stack,
and below them writes the arrays of pointers, which it finds by going from string to string. For a
script, `shebang_exec` first makes new arguments of those it has got.
-/

namespace ShellBox

/-- `struct exec_args` -/
structure PackedArgs where
  count : ℕ
  bytes : List UInt8

structure AuxImage where
  vdso : ℕ
  phdr : ℕ
  phent : ℕ
  phnum : ℕ
  base : ℕ
  entry : ℕ

def auxv (image : AuxImage) (randomAddr fileAddr platformAddr : ℕ) : List (ℕ × ℕ) :=
  [(33, image.vdso), (16, 0x11f), (6, 4096), (17, 0x64), (3, image.phdr), (4, image.phent),
    (5, image.phnum), (7, image.base), (8, 0), (9, image.entry), (11, 0), (12, 0), (13, 0), (14, 0),
    (23, 0), (25, randomAddr), (26, 0), (31, fileAddr), (15, platformAddr), (0, 0)]

def putAux : ℕ → List (ℕ × ℕ) → (ℕ → UInt8) → ℕ → UInt8
  | _, [], m => m
  | p, (type, value) :: aux, m => putAux (p + 16) aux (storeLE (storeLE m p 8 type) (p + 8) 8 value)

structure StackLayout where
  mem : ℕ → UInt8
  sp : ℕ
  tableEnd : ℕ
  randomAddr : ℕ
  platformAddr : ℕ
  argvAddr : ℕ
  envpAddr : ℕ
  fileAddr : ℕ

def platformName : List UInt8 := asciiBytes "aarch64"

/-- The part of `elf_exec` that makes the stack. The memory of the stack is new. -/
def elfStack (file : List UInt8) (argv envp : PackedArgs) (image : AuxImage)
    (random : List UInt8) : Option StackLayout :=
  (countedSize 0 envp.count envp.bytes).bind fun envpSize =>
  (countedSize 0 argv.count argv.bytes).bind fun argvSize =>
    let fileAddr := stackTopAddr - 8 - (file.length + 1)
    let m := writeBytes (fun _ => 0) fileAddr (file ++ [0])
    let envpAddr := fileAddr - envpSize
    let m := writeBytes m envpAddr (envp.bytes.take envpSize)
    let argvAddr := envpAddr - argvSize
    let m := writeBytes m argvAddr (argv.bytes.take argvSize)
    let platformAddr := argvAddr / 16 * 16 - (platformName.length + 1)
    let m := writeBytes m platformAddr (platformName ++ [0])
    let randomAddr := platformAddr - 16
    let m := writeBytes m randomAddr random
    let sp := (randomAddr - ((argv.count + 1) + (envp.count + 1) + 1) * 8 - 20 * 16) / 16 * 16
    let m := storeLE m sp 8 argv.count
    (putPointers stackTopAddr argv.count (sp + 8) argvAddr m).bind fun m =>
    (putPointers stackTopAddr envp.count (sp + 8 + 8 * (argv.count + 1)) envpAddr m).map fun m =>
      let p := sp + 8 + 8 * (argv.count + 1) + 8 * (envp.count + 1)
      { mem := putAux p (auxv image randomAddr fileAddr platformAddr) m
        sp, tableEnd := p + 20 * 16, randomAddr, platformAddr, argvAddr, envpAddr, fileAddr }

/-- The arguments for the interpreter of a script. Without arguments, the rest is counted from
behind the terminator, with the largest count. -/
def shebangArgs (file interpreter : List UInt8) (argument : Option (List UInt8))
    (argv : PackedArgs) : Option (Except ℤ PackedArgs) :=
  (strlen 0 argv.bytes).bind fun k =>
    (countedSize 0 ((argv.count + 2 ^ 64 - 1) % 2 ^ 64) (argv.bytes.drop (k + 1))).map fun size =>
      let extra := interpreter.length + 1 + (file.length + 1) +
        argument.elim 0 fun a => a.length + 1
      if argvMax ≤ size + extra then .error execE2big
      else .ok ⟨argument.elim 2 (fun _ => 3) + (argv.count + 2 ^ 64 - 1) % 2 ^ 64,
        interpreter ++ [0] ++ (argument.elim [] fun a => a ++ [0]) ++ file ++ [0] ++
          (argv.bytes.drop (k + 1)).take size⟩

/-- `do_execve` from the buffers on, for an ELF file or a script. The variables are counted up to
the first empty string. -/
def runExec (file : List UInt8) (script : Option (List UInt8)) (b : ExecBuffers) (image : AuxImage)
    (random : List UInt8) : Option (Except ℤ StackLayout) :=
  (scan 0 b.envp).bind fun env =>
    match script with
    | none => (elfStack file ⟨b.argc, b.argv⟩ ⟨env.length, b.envp⟩ image random).map .ok
    | some script =>
      match ExecEnv.shebangLine script with
      | .error e => some (.error e)
      | .ok (interpreter, argument) =>
        (shebangArgs file interpreter argument ⟨b.argc, b.argv⟩).bind fun argv =>
          match argv with
          | .error e => some (.error e)
          | .ok argv =>
            (elfStack interpreter argv ⟨env.length, b.envp⟩ image random).map .ok

/-- What is around a call: the memory of the caller, the contents of fresh buffers, which files
there are for `node`, whether the file is a script, what the image says, and the random bytes. -/
structure ExecCallEnv where
  user : ℕ → Option UInt8
  argvJunk : List UInt8
  envpJunk : List UInt8
  wasm : Bool
  fetch : Bool
  script : Option (List UInt8)
  image : AuxImage
  random : List UInt8

/-- `sys_execve`. There is no result if the code leaves a buffer. -/
def sysExecve (c : ExecCallEnv) (file : List UInt8) (argvAddr envpAddr : ℕ) :
    Option (Except ℤ StackLayout) :=
  match readExecArgs c.user argvAddr envpAddr c.argvJunk c.envpJunk with
  | .error e => some (.error e)
  | .ok b =>
    (injectAll file c.wasm c.fetch b).bind fun b => runExec file c.script b c.image c.random

/-! ### What the stack says -/

def StackLayout.areas (l : StackLayout) (file : List UInt8) (args env : List (List UInt8)) :
    List (ℕ × ℕ) :=
  [(l.sp, l.tableEnd), (l.randomAddr, l.randomAddr + 16), (l.platformAddr, l.platformAddr + 8)] ++
    stringAreas l.argvAddr args ++ stringAreas l.envpAddr env ++
    [(l.fileAddr, l.fileAddr + file.length + 1)]

structure StackLayout.Denotes (l : StackLayout) (file : List UInt8) (args env : List (List UInt8)) :
    Prop where
  aligned : l.sp % 16 = 0
  argc : loadLE l.mem l.sp 8 = args.length
  argv : Pointers l.mem (l.sp + 8) l.argvAddr args
  argvEnd : loadLE l.mem (l.sp + 8 + 8 * args.length) 8 = 0
  envp : Pointers l.mem (l.sp + 8 + 8 * (args.length + 1)) l.envpAddr env
  envpEnd : loadLE l.mem (l.sp + 8 + 8 * (args.length + 1) + 8 * env.length) 8 = 0
  apart : (l.areas file args env).Pairwise fun r r' => r.2 ≤ r'.1

/-! ### Making the stack -/

section

variable {m m' : ℕ → UInt8}

lemma sameOn_putAux {aux : List (ℕ × ℕ)} {p a b : ℕ} (h : b ≤ p ∨ p + 16 * aux.length ≤ a) :
    SameOn m (putAux p aux m) a b := by
  induction aux generalizing p m with
  | nil => exact fun i _ _ => rfl
  | cons e aux ih =>
    rw [List.length_cons] at h
    have hfirst : SameOn m (storeLE m p 8 e.1) a b := sameOn_storeLE (by omega)
    have hsecond : SameOn (storeLE m p 8 e.1) (storeLE (storeLE m p 8 e.1) (p + 8) 8 e.2) a b :=
      sameOn_storeLE (by omega)
    exact (hfirst.trans hsecond).trans (ih (by omega))

lemma loadLE_eq_zero {p n : ℕ} (h : ∀ i, p ≤ i → i < p + n → m i = 0) : loadLE m p n = 0 := by
  induction n with
  | zero => rfl
  | succ n ih =>
    rw [loadLE, ih fun i hi hi' => h i hi (by omega), h (p + n) (by omega) (by omega)]
    rfl

variable {file : List UInt8} {args env : List (List UInt8)} {argv envp : PackedArgs}
  {image : AuxImage} {random : List UInt8}

structure PackedArgs.Has (argv : PackedArgs) (args : List (List UInt8)) : Prop where
  count : argv.count = args.length
  bytes : ∃ rest, argv.bytes = pack 0 args ++ 0 :: rest
  plain : CStrings args
  size : (pack 0 args).length < argvMax

lemma PackedArgs.Has.countedSize (h : argv.Has args) :
    countedSize 0 argv.count argv.bytes = some ((pack 0 args).length + 1) := by
  obtain ⟨rest, hbytes⟩ := h.bytes
  rw [h.count, hbytes, countedSize_pack h.plain]

lemma PackedArgs.Has.take (h : argv.Has args) :
    argv.bytes.take ((pack 0 args).length + 1) = pack 0 args ++ [0] := by
  obtain ⟨rest, hbytes⟩ := h.bytes
  rw [hbytes, show pack 0 args ++ 0 :: rest = (pack 0 args ++ [0]) ++ rest by simp]
  exact List.take_left' (by simp)

def stackStrings (file : List UInt8) (args env : List (List UInt8)) (random : List UInt8)
    (f v g p r : ℕ) : ℕ → UInt8 :=
  writeBytes (writeBytes (writeBytes (writeBytes (writeBytes (fun _ => 0) f (file ++ [0])) v
    (pack 0 env ++ [0])) g (pack 0 args ++ [0])) p (platformName ++ [0])) r random

lemma length_platformName : platformName.length = 7 := by decide

lemma stackStrings_spec (file : List UInt8) (args env : List (List UInt8)) {f v g p r : ℕ}
    (hrandom : random.length = 16) (hr : r + 16 ≤ p) (hp : p + 8 ≤ g)
    (hg : g + (pack 0 args).length + 1 ≤ v) (hv : v + (pack 0 env).length + 1 ≤ f) :
    MemBytes (stackStrings file args env random f v g p r) g (pack 0 args) ∧
      MemBytes (stackStrings file args env random f v g p r) v (pack 0 env) ∧
      ∀ i < r, stackStrings file args env random f v g p r i = 0 := by
  have hplatform : (platformName ++ [(0 : UInt8)]).length = 8 := by
    rw [List.length_append, length_platformName, List.length_singleton]
  have hargsLen : (pack 0 args ++ [(0 : UInt8)]).length = (pack 0 args).length + 1 := by simp
  have henvLen : (pack 0 env ++ [(0 : UInt8)]).length = (pack 0 env).length + 1 := by simp
  refine ⟨?_, ?_, fun i hi => ?_⟩
  · have hbytes := (memBytes_append.mp (memBytes_writeBytes (writeBytes (writeBytes
      (fun _ => 0) f (file ++ [0])) v (pack 0 env ++ [0])) g (pack 0 args ++ [0]))).1
    refine hbytes.congr (SameOn.trans (sameOn_writeBytes (Or.inr ?_))
      (sameOn_writeBytes (Or.inr ?_)))
    · omega
    · omega
  · have hbytes := (memBytes_append.mp (memBytes_writeBytes (writeBytes
      (fun _ => 0) f (file ++ [0])) v (pack 0 env ++ [0]))).1
    refine hbytes.congr (SameOn.trans (sameOn_writeBytes (Or.inr ?_)) (SameOn.trans
      (sameOn_writeBytes (Or.inr ?_)) (sameOn_writeBytes (Or.inr ?_))))
    · omega
    · omega
    · omega
  · have hwrite {m : ℕ → UInt8} {a : ℕ} {bytes : List UInt8} (ha : r ≤ a) :
        SameOn m (writeBytes m a bytes) 0 r := sameOn_writeBytes (Or.inl ha)
    have hbelow : SameOn (fun _ => 0) (stackStrings file args env random f v g p r) 0 r :=
      ((((hwrite (by omega)).trans (hwrite (by omega))).trans (hwrite (by omega))).trans
        (hwrite (by omega))).trans (hwrite le_rfl)
    exact hbelow i (Nat.zero_le i) hi

lemma pairwise_append_of_le {l l' : List (ℕ × ℕ)} {b : ℕ}
    (hl : l.Pairwise fun r r' => r.2 ≤ r'.1) (hl' : l'.Pairwise fun r r' => r.2 ≤ r'.1)
    (hb : ∀ r ∈ l, r.2 ≤ b) (hb' : ∀ r ∈ l', b ≤ r.1) :
    (l ++ l').Pairwise fun r r' => r.2 ≤ r'.1 :=
  List.pairwise_append.mpr ⟨hl, hl', fun r hr r' hr' => (hb r hr).trans (hb' r' hr')⟩

lemma areas_apart {l : StackLayout} (htable : l.tableEnd ≤ l.randomAddr)
    (hrandom : l.randomAddr + 16 ≤ l.platformAddr) (hplatform : l.platformAddr + 8 ≤ l.argvAddr)
    (hargv : l.argvAddr + (pack 0 args).length ≤ l.envpAddr)
    (henvp : l.envpAddr + (pack 0 env).length ≤ l.fileAddr) :
    (l.areas file args env).Pairwise fun r r' => r.2 ≤ r'.1 := by
  have hlow : [(l.sp, l.tableEnd), (l.randomAddr, l.randomAddr + 16),
      (l.platformAddr, l.platformAddr + 8)].Pairwise fun r r' => r.2 ≤ r'.1 := by
    simp only [List.pairwise_cons, List.mem_cons, List.not_mem_nil, or_false]
    refine ⟨?_, ?_, ?_, List.Pairwise.nil⟩
    · rintro r (rfl | rfl)
      · exact htable
      · dsimp only
        omega
    · rintro r rfl
      exact hrandom
    · exact fun r hr => hr.elim
  refine pairwise_append_of_le (b := l.fileAddr) (pairwise_append_of_le (b := l.envpAddr)
    (pairwise_append_of_le (b := l.argvAddr) hlow stringAreas_pairwise ?_ ?_)
    stringAreas_pairwise ?_ ?_) (List.pairwise_singleton _ _) ?_ ?_
  · simp only [List.mem_cons, List.not_mem_nil, or_false]
    rintro r (rfl | rfl | rfl) <;> dsimp only <;> omega
  · exact fun r hr => (stringAreas_bounds r hr).1
  · simp only [List.mem_append, List.mem_cons, List.not_mem_nil, or_false]
    rintro r ((rfl | rfl | rfl) | hr)
    · dsimp only
      omega
    · dsimp only
      omega
    · dsimp only
      omega
    · exact (stringAreas_bounds r hr).2.trans hargv
  · exact fun r hr => (stringAreas_bounds r hr).1
  · simp only [List.mem_append, List.mem_cons, List.not_mem_nil, or_false]
    rintro r (((rfl | rfl | rfl) | hr) | hr)
    · dsimp only
      omega
    · dsimp only
      omega
    · dsimp only
      omega
    · have hbound := (stringAreas_bounds r hr).2
      omega
    · exact (stringAreas_bounds r hr).2.trans henvp
  · intro r hr
    rw [List.mem_singleton.mp hr]

lemma arrays_spec (file : List UInt8) (image : AuxImage) {f v g p r s : ℕ}
    (hargs : CStrings args) (henv : CStrings env)
    (hstrings : MemBytes m g (pack 0 args)) (hstrings' : MemBytes m v (pack 0 env))
    (hzero : ∀ i < r, m i = 0) (hs : s % 16 = 0)
    (htable : s + 8 + 8 * (args.length + 1) + 8 * (env.length + 1) + 320 ≤ r) (hr : r + 16 ≤ p)
    (hp : p + 8 ≤ g) (hg : g + (pack 0 args).length + 1 ≤ v)
    (hv : v + (pack 0 env).length + 1 ≤ f) (hf : f ≤ stackTopAddr) :
    ∃ m₁ m₂, putPointers stackTopAddr args.length (s + 8) g (storeLE m s 8 args.length) = some m₁ ∧
      putPointers stackTopAddr env.length (s + 8 + 8 * (args.length + 1)) v m₁ = some m₂ ∧
      StackLayout.Denotes ⟨putAux (s + 8 + 8 * (args.length + 1) + 8 * (env.length + 1))
        (auxv image r f p) m₂, s,
        s + 8 + 8 * (args.length + 1) + 8 * (env.length + 1) + 20 * 16, r, p, g, v, f⟩
        file args env := by
  have htop : stackTopAddr < 256 ^ 8 := by decide
  have hcount : SameOn m (storeLE m s 8 args.length) (s + 8) f := sameOn_storeLE (Or.inr le_rfl)
  obtain ⟨m₁, hput₁, hpointers₁, hsame₁⟩ := putPointers_spec stackTopAddr (s + 8)
    hargs (hstrings.congr (hcount.mono (by omega) (by omega))) (by omega) (by omega) (by omega)
  have habove : SameOn m m₁ v (v + (pack 0 env).length) :=
    (hcount.mono (by omega) (by omega)).trans (hsame₁ v _ (Or.inr (by omega)))
  obtain ⟨m₂, hput₂, hpointers₂, hsame₂⟩ := putPointers_spec stackTopAddr
    (s + 8 + 8 * (args.length + 1)) henv (hstrings'.congr habove) (by omega) (by omega)
    (by omega)
  have hlast (b c : ℕ) (h : c ≤ s + 8 + 8 * (args.length + 1) + 8 * (env.length + 1) ∨
      s + 8 + 8 * (args.length + 1) + 8 * (env.length + 1) + 320 ≤ b) :
      SameOn m₂ (putAux (s + 8 + 8 * (args.length + 1) + 8 * (env.length + 1))
        (auxv image r f p) m₂) b c := by
    refine sameOn_putAux ?_
    have hlength : (auxv image r f p).length = 20 := rfl
    rw [hlength]
    omega
  -- A word that no array covers is as it was in new memory.
  have hword (q : ℕ) (hq : s + 8 ≤ q) (hq' : q + 8 ≤ r) (h₁ : q + 8 ≤ s + 8 ∨
      s + 8 + 8 * args.length ≤ q) (h₂ : q + 8 ≤ s + 8 + 8 * (args.length + 1) ∨
      s + 8 + 8 * (args.length + 1) + 8 * env.length ≤ q)
      (h₃ : q + 8 ≤ s + 8 + 8 * (args.length + 1) + 8 * (env.length + 1)) :
      loadLE (putAux (s + 8 + 8 * (args.length + 1) + 8 * (env.length + 1))
        (auxv image r f p) m₂) q 8 = 0 := by
    have hsame := (((hcount.mono hq (by omega)).trans (hsame₁ q (q + 8) h₁)).trans
      (hsame₂ q (q + 8) h₂)).trans (hlast q (q + 8) (Or.inl h₃))
    exact loadLE_eq_zero fun i hi hi' => (hsame i hi hi').trans (hzero i (by omega))
  refine ⟨m₁, m₂, hput₁, hput₂, hs, ?_, ?_, ?_, ?_, ?_, ?_⟩
  · have hsame := ((hsame₁ s (s + 8) (Or.inl le_rfl)).trans
      (hsame₂ s (s + 8) (Or.inl (by omega)))).trans (hlast s (s + 8) (Or.inl (by omega)))
    have hlength := length_le_length_pack 0 args
    rw [loadLE_sameOn hsame, loadLE_storeLE, Nat.mod_eq_of_lt (by omega)]
  · exact hpointers₁.congr
      ((hsame₂ _ _ (Or.inl (by omega))).trans (hlast _ _ (Or.inl (by omega))))
      ((hsame₂ _ _ (Or.inr (by omega))).trans (hlast _ _ (Or.inr (by omega))))
  · exact hword (s + 8 + 8 * args.length) (by omega) (by omega) (by omega) (by omega) (by omega)
  · exact hpointers₂.congr (hlast _ _ (Or.inl (by omega))) (hlast _ _ (Or.inr (by omega)))
  · exact hword (s + 8 + 8 * (args.length + 1) + 8 * env.length) (by omega) (by omega) (by omega)
      (by omega) (by omega)
  · exact areas_apart (by dsimp only; omega) hr hp (by dsimp only; omega) (by dsimp only; omega)

lemma elfStack_spec (image : AuxImage) (hfile : file.length < 4096) (hargs : argv.Has args) (henv : envp.Has env)
    (hrandom : random.length = 16) :
    ∃ l, elfStack file argv envp image random = some l ∧ l.Denotes file args env := by
  have hargsLen := (length_le_length_pack 0 args).trans_lt hargs.size
  have henvLen := (length_le_length_pack 0 env).trans_lt henv.size
  have hargsSize := hargs.size
  have henvSize := henv.size
  have hmax : argvMax = 131072 := rfl
  have htop : stackTopAddr = 4294959104 := rfl
  obtain ⟨f, hf⟩ : ∃ f, f = stackTopAddr - 8 - (file.length + 1) := ⟨_, rfl⟩
  obtain ⟨v, hv⟩ : ∃ v, v = f - ((pack 0 env).length + 1) := ⟨_, rfl⟩
  obtain ⟨g, hg⟩ : ∃ g, g = v - ((pack 0 args).length + 1) := ⟨_, rfl⟩
  obtain ⟨p, hp⟩ : ∃ p, p = g / 16 * 16 - (platformName.length + 1) := ⟨_, rfl⟩
  obtain ⟨r, hr⟩ : ∃ r, r = p - 16 := ⟨_, rfl⟩
  obtain ⟨s, hs⟩ : ∃ s, s =
    (r - ((args.length + 1) + (env.length + 1) + 1) * 8 - 20 * 16) / 16 * 16 := ⟨_, rfl⟩
  have hp' : p = g / 16 * 16 - 8 := by rw [hp, length_platformName]
  obtain ⟨hargsBytes, henvBytes, hzero⟩ := stackStrings_spec file args env (f := f)
    (v := v) (g := g) (p := p) (r := r) hrandom (by omega) (by omega)
    (by omega) (by omega)
  obtain ⟨m₁, m₂, hput₁, hput₂, hdenotes⟩ := arrays_spec file image (f := f) (v := v) (g := g)
    (p := p) (r := r) (s := s) hargs.plain henv.plain hargsBytes henvBytes hzero (by omega)
    (by omega) (by omega)
    (by omega) (by omega) (by omega) (by omega)
  refine ⟨_, ?_, hdenotes⟩
  unfold elfStack
  rw [henv.countedSize, Option.bind_some, hargs.countedSize, Option.bind_some]
  simp only [henv.take, hargs.take, henv.count, hargs.count, ← hf, ← hv, ← hg, ← hp, ← hr, ← hs]
  change (putPointers stackTopAddr args.length (s + 8) g
    (storeLE (stackStrings file args env random f v g p r) s 8 args.length)).bind _ = _
  rw [hput₁, Option.bind_some, hput₂, Option.map_some]

/-! ### Scripts -/

lemma shebangLine_plain {script interpreter : List UInt8} {argument : Option (List UInt8)}
    (h : ExecEnv.shebangLine script = .ok (interpreter, argument)) :
    interpreter.length < 4096 ∧ (0 : UInt8) ∉ interpreter ∧ ∀ a ∈ argument, (0 : UInt8) ∉ a := by
  unfold ExecEnv.shebangLine at h
  simp only at h
  obtain ⟨header, hheader⟩ : ∃ header, header = (script.take 127).takeWhile (· ≠ 0) := ⟨_, rfl⟩
  have hlength : header.length ≤ 127 := by
    rw [hheader]
    exact ((List.takeWhile_sublist _).length_le).trans (List.length_take_le 127 script)
  have hzero : (0 : UInt8) ∉ header := by
    intro hmem
    rw [hheader] at hmem
    simpa using List.mem_takeWhile_imp hmem
  have hsub : List.Sublist (((header.takeWhile (· ≠ 10)).drop 2).dropWhile (· = 32)) header :=
    ((List.dropWhile_sublist _).trans (List.drop_sublist 2 _)).trans (List.takeWhile_sublist _)
  have hinterpreter := (List.takeWhile_sublist (· ≠ (32 : UInt8))).trans hsub
  have hargument := (((List.rdropWhile_prefix (· = (32 : UInt8)) _).sublist.trans
    (List.dropWhile_sublist (· = (32 : UInt8)))).trans
    (List.dropWhile_sublist (· ≠ (32 : UInt8)))).trans hsub
  rw [← hheader] at h
  split_ifs at h
  all_goals
    obtain ⟨rfl, rfl⟩ := Prod.mk.inj (Except.ok.inj h)
    refine ⟨?_, fun hmem => hzero (hinterpreter.subset hmem), fun a ha hmem => hzero ?_⟩
    · have hle := hinterpreter.length_le
      omega
  · cases ha
  · rw [Option.mem_some_iff] at ha
    rw [← ha] at hmem
    exact hargument.subset hmem

lemma shebangArgs_spec {interpreter argv0 : List UInt8} {argument : Option (List UInt8)}
    {rest : List (List UInt8)} (hargs : argv.Has (argv0 :: rest)) (hfile : (0 : UInt8) ∉ file)
    (hinterpreter : (0 : UInt8) ∉ interpreter) (hargument : ∀ a ∈ argument, (0 : UInt8) ∉ a) :
    ∃ r, shebangArgs file interpreter argument argv = some r ∧
      ∀ argv', r = .ok argv' → argv'.Has (interpreter :: (argument.toList ++ file :: rest)) := by
  obtain ⟨hcount, ⟨junk, hbytes⟩, hplain, hsize⟩ := hargs
  have hlen := length_le_length_pack (0 : UInt8) (argv0 :: rest)
  have hmax : argvMax = 131072 := rfl
  have hrest : CStrings rest := fun s hs => hplain s (List.mem_cons_of_mem _ hs)
  have hwrap : (argv.count + 2 ^ 64 - 1) % 2 ^ 64 = rest.length := by
    rw [hcount, List.length_cons] at *
    omega
  have hstrlen : strlen 0 argv.bytes = some argv0.length := by
    rw [hbytes, pack_cons, List.append_assoc, List.cons_append]
    exact strlen_append (hplain argv0 List.mem_cons_self)
  have hdrop : argv.bytes.drop (argv0.length + 1) = pack 0 rest ++ 0 :: junk := by
    rw [hbytes, pack_cons, show argv0 ++ 0 :: pack 0 rest ++ 0 :: junk =
      (argv0 ++ [0]) ++ (pack 0 rest ++ 0 :: junk) by simp]
    exact List.drop_left' (by simp)
  have htake : (argv.bytes.drop (argv0.length + 1)).take ((pack 0 rest).length + 1) =
      pack 0 rest ++ [0] := by
    rw [hdrop, show pack 0 rest ++ 0 :: junk = (pack 0 rest ++ [0]) ++ junk by simp]
    exact List.take_left' (by simp)
  unfold shebangArgs
  rw [hstrlen, Option.bind_some, hwrap, hdrop, countedSize_pack hrest, Option.map_some, ← hdrop,
    htake]
  refine ⟨_, rfl, fun argv' hargv' => ?_⟩
  dsimp only at hargv'
  split_ifs at hargv' with hbig
  cases hargv'
  have hpack : interpreter ++ [0] ++ (argument.elim [] fun a => a ++ [0]) ++ file ++ [0] ++
      (pack 0 rest ++ [0]) =
        pack 0 (interpreter :: (argument.toList ++ file :: rest)) ++ 0 :: [] := by
    cases argument <;> simp
  have hextra : (pack 0 (interpreter :: (argument.toList ++ file :: rest))).length =
      (pack 0 rest).length + (interpreter.length + 1 + (file.length + 1) +
        argument.elim 0 fun a => a.length + 1) := by
    cases argument <;> simp <;> omega
  refine ⟨?_, ⟨[], hpack⟩, ?_, ?_⟩
  · cases argument <;> simp <;> omega
  · intro s hs
    rcases List.mem_cons.mp hs with rfl | hs
    · exact hinterpreter
    · rcases List.mem_append.mp hs with hs | hs
      · exact hargument s (Option.mem_toList.mp hs)
      · rcases List.mem_cons.mp hs with rfl | hs
        · exact hfile
        · exact hrest s hs
  · omega

/-! ### The call -/

/-- What a program is called with: a script's interpreter gets the script's arguments behind its
own. -/
def programArgs (c : ExecCallEnv) (file : List UInt8) (args : List (List UInt8)) :
    List UInt8 × List (List UInt8) :=
  match c.script.map ExecEnv.shebangLine with
  | some (.ok (interpreter, argument)) =>
    (interpreter, interpreter :: (argument.toList ++
      file :: (execArgs file c.wasm c.fetch args).tail))
  | _ => (file, execArgs file c.wasm c.fetch args)

/-- The call stays in its buffers, and the stack of a successful one has the arguments and the
environment; a call for an ELF file is successful. -/
def Passes (c : ExecCallEnv) (file : List UInt8) (argvAddr envpAddr : ℕ)
    (args env : List (List UInt8)) : Prop :=
  ∃ r, sysExecve c file argvAddr envpAddr = some r ∧ (c.script = none → ∃ l, r = .ok l) ∧
    ∀ l, r = .ok l →
      l.Denotes (programArgs c file args).1 (programArgs c file args).2 (execEnv file env)

structure ExecGiven (c : ExecCallEnv) (file : List UInt8) (argvAddr envpAddr : ℕ)
    (args env : List (List UInt8)) : Prop where
  input : ExecInput c.user argvAddr envpAddr args env
  argvJunk : c.argvJunk.length = argvMax
  envpJunk : c.envpJunk.length = argvMax
  random : c.random.length = 16
  fileSize : file.length < 4096
  file : (0 : UInt8) ∉ file

/-- What the code needs: besides the rules for the buffers, a script has arguments. -/
structure ExecFits (c : ExecCallEnv) (file : List UInt8) (args env : List (List UInt8)) : Prop where
  inject : InjectFits file c.wasm c.fetch args env
  script : (∃ x, c.script.map ExecEnv.shebangLine = some (.ok x)) → args ≠ []

lemma execArgs_eq_nil {wasm fetch : Bool} : execArgs file wasm fetch args = [] ↔ args = [] := by
  have hfold (opts : List (List UInt8)) :
      ∀ args, opts.foldl insertOption args = [] ↔ args = [] := by
    induction opts with
    | nil => exact fun args => Iff.rfl
    | cons o opts ih => exact fun args => (ih _).trans insertOption_eq_nil
  unfold execArgs
  split_ifs
  · exact hfold _ args
  · exact Iff.rfl

/-- A call that the code can handle passes its arguments and its environment on. -/
theorem execve_passes {c : ExecCallEnv} {argvAddr envpAddr : ℕ}
    (hgiven : ExecGiven c file argvAddr envpAddr args env) (hfits : ExecFits c file args env) :
    Passes c file argvAddr envpAddr args env := by
  obtain ⟨b, hread, hargc, hargv, henvp⟩ := readExecArgs_spec hgiven.input hgiven.argvJunk
    hgiven.envpJunk
  have hargs : CStrings args := hgiven.input.argsAt.cstrings
  have henv : CStrings env := by
    have hat := hgiven.input.envAt
    split_ifs at hat
    · rw [hat]
      exact fun s hs => absurd hs List.not_mem_nil
    · exact hat.cstrings
  obtain ⟨b', hinject, hargc', hargv', henvp', hargs', henv', hne⟩ := injectAll_spec hargc hargv
    henvp hargs henv hfits.inject
  have hpacked {n : ℕ} {buf : List UInt8} {ss : List (List UInt8)} (hbuf : Holds buf ss)
      (hss : CStrings ss) (hn : n = ss.length) : PackedArgs.Has ⟨n, buf⟩ ss := by
    obtain ⟨⟨junk, hbytes⟩, hlength⟩ := hbuf
    refine ⟨hn, ⟨junk, hbytes⟩, hss, ?_⟩
    rw [← hlength, hbytes, List.length_append, List.length_cons]
    omega
  have hargsHas := hpacked hargv' hargs' hargc'
  have henvHas := hpacked henvp' henv' rfl
  have hcall : sysExecve c file argvAddr envpAddr = runExec file c.script b' c.image c.random := by
    rw [sysExecve, hread]
    simp only [hinject, Option.bind_some]
  have hscan := henvp'.scan henv' hne
  unfold Passes
  rw [hcall, runExec, hscan, Option.bind_some]
  cases hscript : c.script with
  | none =>
    obtain ⟨l, hstack, hdenotes⟩ := elfStack_spec c.image hgiven.fileSize hargsHas
      henvHas hgiven.random
    refine ⟨.ok l, by simp only [hstack, Option.map_some], fun _ => ⟨l, rfl⟩, fun l' hl' => ?_⟩
    cases hl'
    simpa only [programArgs, hscript, Option.map_none] using hdenotes
  | some script =>
    cases hline : ExecEnv.shebangLine script with
    | error e =>
      refine ⟨.error e, by simp only [hline], fun h => ?_, fun l hl => ?_⟩
      · cases h
      · cases hl
    | ok x =>
      obtain ⟨interpreter, argument⟩ := x
      obtain ⟨hsize, hinterpreter, hargument⟩ := shebangLine_plain hline
      have hsome : execArgs file c.wasm c.fetch args ≠ [] :=
        mt execArgs_eq_nil.mp (hfits.script ⟨_, by rw [hscript, Option.map_some, hline]⟩)
      obtain ⟨argv0, rest, hcons⟩ := List.exists_cons_of_ne_nil hsome
      rw [hcons] at hargsHas
      obtain ⟨r, hshebang, hhas⟩ := shebangArgs_spec hargsHas hgiven.file hinterpreter hargument
      simp only [hline, hshebang, Option.bind_some]
      cases r with
      | error e =>
        refine ⟨.error e, rfl, fun h => ?_, fun l hl => ?_⟩
        · cases h
        · cases hl
      | ok argv' =>
        obtain ⟨l, hstack, hdenotes⟩ := elfStack_spec c.image hsize (hhas argv' rfl)
          henvHas hgiven.random
        refine ⟨.ok l, by simp only [hstack, Option.map_some], fun h => ?_, fun l' hl' => ?_⟩
        · cases h
        · cases hl'
          simpa only [programArgs, hscript, Option.map_some, hline, hcons, List.tail_cons]
            using hdenotes

end

/-- A process that has these bytes in memory from 4096 on, and calls an ELF file with fresh
buffers. -/
def execCallOf (bytes : List UInt8) : ExecCallEnv where
  user a := if 4096 ≤ a then bytes[a - 4096]? else none
  argvJunk := List.replicate argvMax 0
  envpJunk := List.replicate argvMax 0
  wasm := false
  fetch := false
  script := none
  image := ⟨0xffffc000, 4096, 56, 9, 0, 4096⟩
  random := List.replicate 16 7

lemma execGiven_execCallOf {bytes file : List UInt8} {argvAddr envpAddr : ℕ}
    {args env : List (List UInt8)}
    (hinput : ExecInput (execCallOf bytes).user argvAddr envpAddr args env)
    (hsize : file.length < 4096) (hfile : (0 : UInt8) ∉ file) :
    ExecGiven (execCallOf bytes) file argvAddr envpAddr args env :=
  ⟨hinput, List.length_replicate, List.length_replicate, rfl, hsize, hfile⟩

def pointerBytes (a : ℕ) : List UInt8 :=
  [UInt8.ofNat a, UInt8.ofNat (a / 256), 0, 0, 0, 0, 0, 0]

def execMemory : List UInt8 :=
  pointerBytes 4136 ++ pointerBytes 4139 ++ pointerBytes 0 ++ pointerBytes 4140 ++ pointerBytes 0 ++
    pack 0 [asciiBytes "ls", [], asciiBytes "PYTHONMALLOC=debug"]

theorem execve_passes_ls :
    Passes (execCallOf execMemory) (asciiBytes "/bin/ls") 4096 4120 [asciiBytes "ls", []]
      [asciiBytes "PYTHONMALLOC=debug"] := by
  have hinput : ExecInput (execCallOf execMemory).user 4096 4120 [asciiBytes "ls", []]
      [asciiBytes "PYTHONMALLOC=debug"] :=
    ⟨by decide +kernel, by decide +kernel, by decide +kernel, by decide +kernel⟩
  have hnode : ¬ isNode (asciiBytes "/bin/ls") := by decide +kernel
  have hinject : InjectFits (asciiBytes "/bin/ls") false false [asciiBytes "ls", []]
      [asciiBytes "PYTHONMALLOC=debug"] :=
    ⟨by decide +kernel, by decide +kernel, fun hyes => absurd hyes hnode⟩
  exact execve_passes (execGiven_execCallOf hinput (by decide +kernel) (by decide +kernel))
    ⟨hinject, fun h => by simp [execCallOf] at h⟩

/-- Three words of the stack of a call: the argument count, a pointer of the environment, and where
its strings are. -/
def glance (bytes file : List UInt8) (argvAddr envpAddr argc i : ℕ) : Option (ℕ × ℕ × ℕ) :=
  (sysExecve (execCallOf bytes) file argvAddr envpAddr).bind fun r =>
    match r with
    | .ok l =>
      some (loadLE l.mem l.sp 8, loadLE l.mem (l.sp + 8 + 8 * (argc + 1) + 8 * i) 8, l.envpAddr)
    | .error _ => none

lemma glance_of_passes {bytes file : List UInt8} {argvAddr envpAddr i : ℕ}
    {args env : List (List UInt8)} {g : ℕ × ℕ × ℕ}
    (h : Passes (execCallOf bytes) file argvAddr envpAddr args env)
    (hg : glance bytes file argvAddr envpAddr (execArgs file false false args).length i = some g) :
    g.1 = (execArgs file false false args).length ∧
      (i < (execEnv file env).length → g.2.2 ≤ g.2.1) ∧
      (i = (execEnv file env).length → g.2.1 = 0) := by
  obtain ⟨r, hr, hok, hdenotes⟩ := h
  obtain ⟨l, rfl⟩ := hok rfl
  rw [glance, hr, Option.bind_some, Option.some_inj] at hg
  have hl := hdenotes l rfl
  rw [← hg]
  exact ⟨hl.argc, fun hi => hl.envp.le hi, fun hi => hi ▸ hl.envpEnd⟩

def emptyVariable : List UInt8 :=
  pointerBytes 4144 ++ pointerBytes 0 ++ pointerBytes 4147 ++ pointerBytes 4151 ++
    pointerBytes 4152 ++ pointerBytes 0 ++
    pack 0 [asciiBytes "ls", asciiBytes "A=1", [], asciiBytes "B=2"]

def otherValue : List UInt8 :=
  pointerBytes 4128 ++ pointerBytes 0 ++ pointerBytes 4131 ++ pointerBytes 0 ++
    pack 0 [asciiBytes "ls", asciiBytes "PYTHONDONTWRITEBYTECODE=0"]

/-- Variables behind an empty one are lost, a variable with another value is there twice, and `node`
without arguments gets some. -/
theorem execve_not_passes :
    ¬ Passes (execCallOf emptyVariable) (asciiBytes "/bin/ls") 4096 4112 [asciiBytes "ls"]
      [asciiBytes "A=1", [], asciiBytes "B=2"] ∧
    ¬ Passes (execCallOf otherValue) (asciiBytes "/bin/ls") 4096 4112 [asciiBytes "ls"]
      [asciiBytes "PYTHONDONTWRITEBYTECODE=0"] ∧
    ¬ Passes (execCallOf (pointerBytes 0)) (asciiBytes "/bin/node") 4096 0 [] [] := by
  refine ⟨fun h => ?_, fun h => ?_, fun h => ?_⟩
  · -- The ninth pointer is null, and there should be ten.
    have hsome : ∃ g ∈ glance emptyVariable (asciiBytes "/bin/ls") 4096 4112 1 8,
        g.2.1 < g.2.2 := by decide +kernel
    obtain ⟨g, hg, hlt⟩ := hsome
    have hle := (glance_of_passes h hg).2.1 (by decide +kernel)
    omega
  · -- The eighth is not, and there should be seven.
    have hsome : ∃ g ∈ glance otherValue (asciiBytes "/bin/ls") 4096 4112 1 7,
        g.2.1 ≠ 0 := by decide +kernel
    obtain ⟨g, hg, hne⟩ := hsome
    exact hne ((glance_of_passes h hg).2.2 (by decide +kernel))
  · have hsome : ∃ g ∈ glance (pointerBytes 0) (asciiBytes "/bin/node") 4096 0 0 0,
        g.1 ≠ 0 := by decide +kernel
    obtain ⟨g, hg, hne⟩ := hsome
    have hzero : (execArgs (asciiBytes "/bin/node") false false []).length = 0 := by decide +kernel
    have hcount := (glance_of_passes h (by rw [hzero]; exact hg)).1
    rw [hzero] at hcount
    exact hne hcount

end ShellBox
