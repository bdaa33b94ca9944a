import Mathlib.Data.List.DropRight
import Mathlib.Data.Int.ModEq
import Mathlib.Logic.Function.Basic
import Mathlib.Tactic.Common

/-!
# Exec

`elf_exec` reads the headers of a file and of its interpreter, gives the task a new address space,
maps the segments and writes the arguments to the new stack. A file without the magic number may be
a script, whose first line names the file to run.

What the calls to the file system, to the host's allocator and to the memory of the guest come to is
given: each call has a result, under the place it is made from.
-/

namespace ShellBox

/-- `struct elf_header64` -/
structure ElfHeader where
  magic : ℕ
  bitness : ℕ
  endian : ℕ
  elfversion1 : ℕ
  type : ℕ
  machine : ℕ
  entryPoint : ℕ

/-- `struct prg_header64` -/
structure ProgHeader where
  type : ℕ
  vaddr : ℕ
  filesize : ℕ
  memsize : ℕ

/-- The calls of an exec. The file is 0 and its interpreter 1; the one that a script names is 2 and
its interpreter 3. `at` is the number of a program header, an argument or a variable. -/
inductive ExecCall
  | readPath
  | mallocArgv
  | readArgv
  | mallocEnvp
  | readEnvp
  | openFile
  | fstat
  | rewind (file : ℕ)
  | readHeader (file : ℕ)
  | mallocHeaders (file : ℕ)
  | seekHeaders (file : ℕ)
  | readHeaders (file : ℕ)
  | errno (file : ℕ)
  | mallocInterp (file i : ℕ)
  | seekInterp (file i : ℕ)
  | readInterp (file i : ℕ)
  | openInterp (file i : ℕ)
  | mmNew (file : ℕ)
  | mmapOp (file : ℕ)
  | holeForElf (file : ℕ)
  | mmap (file i : ℕ)
  | memPt (file i : ℕ)
  | mapBss (file i : ℕ)
  | holeForVdso (file : ℕ)
  | mapVdso (file : ℕ)
  | holeForVvar (file : ℕ)
  | mapVvar (file : ℕ)
  | mapStack (file : ℕ)
  | mapTop (file : ℕ)
  | writeFile (file : ℕ)
  | writeEnvp (file : ℕ)
  | writeArgv (file : ℕ)
  | writePlatform (file : ℕ)
  | putRandom (file : ℕ)
  | putArgc (file : ℕ)
  | putArg (file i : ℕ)
  | putEnv (file i : ℕ)
  | putAux (file : ℕ)
  | rewindScript
  | readScript
  | openScriptInterp
  deriving DecidableEq

def execE2big : ℤ := -7
def execEio : ℤ := -5
def execEnoexec : ℤ := -8
def execEnomem : ℤ := -12
def execEacces : ℤ := -13
def execEfault : ℤ := -14
def execEinval : ℤ := -22
def execElibbad : ℤ := -80

def elfMagic : ℕ := 0x464c457f
def elfExecutable : ℕ := 2
def elfDynamic : ℕ := 3
def ptLoad : ℕ := 1
def ptInterp : ℕ := 3
def argvMax : ℕ := 32 * 4096
def stackTopAddr : ℕ := 0xffffe000

/-- `struct stat` -/
structure ExecStat where
  mode : ℕ
  uid : ℕ
  gid : ℕ

/-- What is in the files, and what the calls return. Neither `mmap` of a file nor `pt_map` fails with
`ENOEXEC`. -/
structure ExecEnv where
  ret : ExecCall → ℤ
  header : ℕ → ElfHeader
  progs : ℕ → List ProgHeader
  nameLength : ℕ → ℕ
  script : List UInt8
  stat : ExecStat
  mmap_error : ∀ file i, ret (.mmap file i) ≠ execEnoexec
  bss_error : ∀ file i, ret (.mapBss file i) ≠ execEnoexec
  vdso_error : ∀ file, ret (.mapVdso file) ≠ execEnoexec
  vvar_error : ∀ file, ret (.mapVvar file) ≠ execEnoexec
  stack_error : ∀ file, ret (.mapStack file) ≠ execEnoexec
  top_error : ∀ file, ret (.mapTop file) ≠ execEnoexec

/-- `struct exec_args`: how many strings there are, their bytes with all the zeros, and the length of
the first. -/
structure ExecArgs where
  count : ℕ
  size : ℕ
  first : ℕ

/-- `struct mm`; `lock` is how often `mem.lock` is held for writing. -/
structure ExecMm where
  id : ℕ
  startBrk : ℕ
  brk : ℕ
  lock : ℤ

structure ExecRegs where
  gpr : ℕ → ℕ
  sp : ℕ
  pc : ℕ
  flags : ℕ
  fpcr : ℕ
  fpsr : ℕ

/-- `uid` or `gid` with the two others. -/
structure ExecIds where
  real : ℕ
  effective : ℕ
  saved : ℕ

structure ExecTask where
  mm : ExecMm
  generalLock : ℤ
  regs : ExecRegs
  action : ℕ → ℕ
  altstack : ℕ
  files : ℕ → Option (ℕ × Bool)
  user : ExecIds
  group : ExecIds

inductive ExecEnd (α : Type)
  | ok (a : α) (t : ExecTask)
  | error (e : ℤ) (t : ExecTask)
  | crash

def ExecM (α : Type) : Type := ExecTask → ExecEnd α

namespace ExecM

variable {α β : Type}

def pure (a : α) : ExecM α := fun t => .ok a t

def bind (m : ExecM α) (k : α → ExecM β) : ExecM β := fun t =>
  match m t with
  | .ok a t' => k a t'
  | .error e t' => .error e t'
  | .crash => .crash

instance : Monad ExecM where
  pure := pure
  bind := bind

def modify (f : ExecTask → ExecTask) : ExecM Unit := fun t => .ok () (f t)

def failIf (c : Prop) [Decidable c] (e : ℤ) : ExecM Unit := fun t =>
  if c then .error e t else .ok () t

def crashIf (c : Prop) [Decidable c] : ExecM Unit := fun t => if c then .crash else .ok () t

def onlyIf (c : Prop) [Decidable c] (m : ExecM Unit) : ExecM Unit := fun t =>
  if c then m t else .ok () t

def onError (m : ExecM α) (f : ExecTask → ExecTask) : ExecM α := fun t =>
  match m t with
  | .error e t' => .error e (f t')
  | r => r

end ExecM

namespace ExecTask

def lockMem (n : ℤ) (t : ExecTask) : ExecTask :=
  { t with mm := { t.mm with lock := t.mm.lock + n } }

def lockGeneral (n : ℤ) (t : ExecTask) : ExecTask := { t with generalLock := t.generalLock + n }

/-- `task_set_mm` with a `mm_new`. -/
def newMm (t : ExecTask) : ExecTask := { t with mm := ⟨t.mm.id + 1, 0, 0, 0⟩ }

/-- The break behind a segment that ends at `brk`. -/
def raiseBrk (brk : ℕ) (t : ExecTask) : ExecTask :=
  if t.mm.startBrk < brk then
    let brk := (brk + 4095) / 4096 * 4096
    { t with mm := { t.mm with startBrk := brk, brk := brk } }
  else t

end ExecTask

namespace ExecEnv

variable (env : ExecEnv)

/-! ### Headers -/

def readHeader (file : ℕ) : Except ℤ ElfHeader :=
  let header := env.header file
  if env.ret (.rewind file) ≠ 0 then .error execEio
  else if env.ret (.readHeader file) ≠ 64 then
    .error (if env.ret (.readHeader file) < 0 then execEio else execEnoexec)
  else if header.magic ≠ elfMagic ∨ header.type ≠ elfExecutable ∧ header.type ≠ elfDynamic ∨
      header.bitness ≠ 2 ∨ header.endian ≠ 1 ∨ header.elfversion1 ≠ 1 ∨ header.machine ≠ 183 then
    .error execEnoexec
  else .ok header

def readPrgHeaders (file : ℕ) : Except ℤ (List ProgHeader) :=
  if env.ret (.mallocHeaders file) = 0 then .error execEnomem
  else if env.ret (.seekHeaders file) < 0 then .error execEio
  else if env.ret (.readHeaders file) ≠ 56 * (env.progs file).length then
    .error (if env.ret (.errno file) ≠ 0 then execEio else execEnoexec)
  else .ok (env.progs file)

/-- The headers of an interpreter that is no such file are `ELIBBAD`. -/
def libError (e : ℤ) : ℤ := if e = execEnoexec then execElibbad else e

/-- The search for an interpreter, from header `i` on. -/
def findInterp (file : ℕ) : List ProgHeader → ℕ → Option (ElfHeader × List ProgHeader) →
    Except ℤ (Option (ElfHeader × List ProgHeader))
  | [], _, interp => .ok interp
  | ph :: phs, i, interp =>
    if ph.type ≠ ptInterp then findInterp file phs (i + 1) interp
    else if interp.isSome then .error execEinval
    else if env.ret (.mallocInterp file i) = 0 then .error execEnomem
    else if env.ret (.seekInterp file i) < 0 then .error execEio
    else if env.ret (.readInterp file i) ≠ ph.filesize then .error execEio
    else if env.ret (.openInterp file i) < 0 then .error (env.ret (.openInterp file i))
    else
      match (env.readHeader (file + 1)).mapError libError with
      | .error e => .error e
      | .ok header =>
        match (env.readPrgHeaders (file + 1)).mapError libError with
        | .error e => .error e
        | .ok progs => findInterp file phs (i + 1) (some (header, progs))

structure ElfImage where
  header : ElfHeader
  progs : List ProgHeader
  interp : Option (ElfHeader × List ProgHeader)

/-- The part of `elf_exec` that reads the file. -/
def readElf (file : ℕ) : Except ℤ ElfImage :=
  match env.readHeader file with
  | .error e => .error e
  | .ok header =>
    match env.readPrgHeaders file with
    | .error e => .error e
    | .ok progs =>
      match env.findInterp file progs 0 none with
      | .error e => .error e
      | .ok interp => .ok ⟨header, progs, interp⟩

/-! ### Segments -/

def pageAddr (page : ℤ) : ℕ := (page * 4096 % 2 ^ 64).toNat

/-- The bytes of a segment that are not in the file, past those of its last page of the file. -/
def bssRest (ph : ProgHeader) (bias : ℕ) : ℕ :=
  let bss := (ph.memsize + 2 ^ 64 - ph.filesize) % 2 ^ 32
  let tail := (4096 - (ph.vaddr + bias + ph.filesize) % 4096) % 4096
  bss - min tail bss

/-- `load_entry`, with the lock of the memory held. It is let go of for the bytes of the last page of
the file. -/
def loadEntry (file i : ℕ) (ph : ProgHeader) (bias : ℕ) : ExecM Unit := do
  .crashIf (env.ret (.mmapOp file) = 0)
  .failIf (env.ret (.mmap file i) < 0) (env.ret (.mmap file i))
  .crashIf (env.ret (.memPt file i) = 0)
  .onlyIf (ph.filesize < ph.memsize ∧ (ph.vaddr + bias + ph.filesize) % 4096 ≠ 0) do
    .modify (ExecTask.lockMem (-1))
    .modify (ExecTask.lockMem 1)
  .failIf (ph.filesize < ph.memsize ∧ bssRest ph bias ≠ 0 ∧ env.ret (.mapBss file i) < 0)
    (env.ret (.mapBss file i))

def biasOf (file : ℕ) (header : ElfHeader) : ℕ :=
  if header.type = elfDynamic then pageAddr (env.ret (.holeForElf file)) else 0

/-- The segments of the file, from header `i` on. -/
def loadFile (file bias : ℕ) : List ProgHeader → ℕ → ExecM Unit
  | [], _ => pure ()
  | ph :: phs, i => do
    .onlyIf (ph.type = ptLoad) do
      env.loadEntry file i ph bias
      .modify (ExecTask.raiseBrk ((bias + ph.vaddr + ph.memsize) % 2 ^ 64))
    loadFile file bias phs (i + 1)

def loadInterp (file base : ℕ) : List ProgHeader → ℕ → ExecM Unit
  | [], _ => pure ()
  | ph :: phs, i => do
    loadInterp file base phs (i + 1)
    .onlyIf (ph.type = ptLoad) (env.loadEntry file i ph base)

def loadInterpOf (file : ℕ) (image : ElfImage) : ExecM Unit :=
  match image.interp with
  | none => pure ()
  | some (_, progs) =>
    env.loadInterp (file + 1) (pageAddr (env.ret (.holeForElf (file + 1)))) progs 0

/-- The pages of the vdso and of the stack. Where there is no place for the vvar pages, `err` is still
the result of the call before. -/
def mapOthers (file : ℕ) : ExecM Unit := do
  .failIf (env.ret (.holeForVdso file) = -1) execEnomem
  .failIf (env.ret (.mapVdso file) < 0) (env.ret (.mapVdso file))
  .failIf (env.ret (.holeForVvar file) = -1) 0
  .failIf (env.ret (.mapVvar file) < 0) (env.ret (.mapVvar file))
  .failIf (env.ret (.mapStack file) < 0) (env.ret (.mapStack file))
  .failIf (env.ret (.mapTop file) < 0) (env.ret (.mapTop file))

/-! ### Arguments -/

def putAll (call : ℕ → ExecCall) : ℕ → ℕ → ExecM Unit
  | 0, _ => pure ()
  | n + 1, i => do
    .failIf (env.ret (call i) ≠ 0) execEfault
    putAll call n (i + 1)

/-- The arguments, variables and auxiliary values. Where the last cannot be written, the exit is the
one that releases the lock. -/
def copyArgs (file : ℕ) (argv envp : ExecArgs) : ExecM Unit := do
  .failIf (env.ret (.writeFile file) ≠ 0) execEfault
  .failIf (env.ret (.writeEnvp file) ≠ 0) execEfault
  .failIf (env.ret (.writeArgv file) ≠ 0) execEfault
  .failIf (env.ret (.writePlatform file) ≠ 0) execEfault
  .failIf (env.ret (.putRandom file) ≠ 0) execEfault
  .failIf (env.ret (.putArgc file) ≠ 0) execEfault
  env.putAll (.putArg file) argv.count 0
  env.putAll (.putEnv file) envp.count 0
  (ExecM.failIf (env.ret (.putAux file) ≠ 0) execEfault).onError (ExecTask.lockMem (-1))

def stackStart (file : ℕ) (argv envp : ExecArgs) : ℕ :=
  let sp := stackTopAddr - 8 - (env.nameLength file + 1) - envp.size - argv.size
  let sp := sp / 16 * 16 - 8 - 16
  (sp - ((argv.count + 1) + (envp.count + 1) + 1) * 8 - 20 * 16) / 16 * 16

def entryPoint (file : ℕ) (image : ElfImage) : ℕ :=
  match image.interp with
  | none => (env.biasOf file image.header + image.header.entryPoint) % 2 ^ 64
  | some (header, _) =>
    (pageAddr (env.ret (.holeForElf (file + 1))) + header.entryPoint) % 2 ^ 64

/-- The part of `elf_exec` that makes the new address space. -/
def loadElf (file : ℕ) (image : ElfImage) (argv envp : ExecArgs) : ExecM Unit := do
  .modify (ExecTask.lockGeneral 1)
  .modify ExecTask.newMm
  .modify (ExecTask.lockGeneral (-1))
  .modify (ExecTask.lockMem 1)
  (do
    env.loadFile file (env.biasOf file image.header) image.progs 0
    env.loadInterpOf file image
    env.mapOthers file : ExecM Unit).onError (ExecTask.lockMem (-1))
  .modify (ExecTask.lockMem (-1))
  env.copyArgs file argv envp
  .modify fun t => { t with
    regs := ⟨fun _ => 0, env.stackStart file argv envp, env.entryPoint file image, 0, 0, 0⟩ }

def elfExec (file : ℕ) (argv envp : ExecArgs) : ExecM Unit := fun t =>
  match env.readElf file with
  | .error e => .error e t
  | .ok image =>
    if env.ret (.mmNew file) = 0 then .error execEnomem t
    else env.loadElf file image argv envp t

/-! ### Scripts -/

def shebangLine (script : List UInt8) : Except ℤ (List UInt8 × Option (List UInt8)) :=
  let header := (script.take 127).takeWhile (· ≠ 0)
  if 10 ∉ header then .error execEnoexec
  else
    let line := header.takeWhile (· ≠ 10)
    if line.take 2 ≠ [35, 33] then .error execEnoexec
    else
      let p := (line.drop 2).dropWhile (· = 32)
      if p = [] then .error execEnoexec
      else
        let interpreter := p.takeWhile (· ≠ 32)
        let argument := ((p.dropWhile (· ≠ 32)).dropWhile (· = 32)).rdropWhile (· = 32)
        .ok (interpreter, if argument = [] then none else some argument)

/-- What `shebang_exec` makes of a file and its arguments: the arguments of the interpreter. `none` is
the end of the emulator: without arguments the sum over those behind the first one does not end in
the buffer. -/
def shebang (argv : ExecArgs) : Option (Except ℤ ExecArgs) :=
  if env.ret .rewindScript ≠ 0 then some (.error execEio)
  else if env.ret .readScript < 0 then some (.error execEio)
  else
    match shebangLine env.script with
    | .error e => some (.error e)
    | .ok (interpreter, argument) =>
      if argv.count = 0 then none
      else
        let rest := argv.size - (argv.first + 1)
        let extra := interpreter.length + 1 + (env.nameLength 0 + 1) +
          (argument.elim 0 fun a => a.length + 1)
        if argvMax ≤ rest + extra then some (.error execE2big)
        else if env.ret .openScriptInterp < 0 then some (.error (env.ret .openScriptInterp))
        else some (.ok ⟨argument.elim 2 (fun _ => 3) + (argv.count - 1), rest + extra,
          interpreter.length⟩)

def shebangExec (argv envp : ExecArgs) : ExecM Unit := fun t =>
  match env.shebang argv with
  | none => .crash
  | some (.error e) => .error e t
  | some (.ok argv) => env.elfExec 2 argv envp t

/-! ### The system call -/

/-- What `__do_execve` changes when the new program is there. -/
def executed (t : ExecTask) : ExecTask :=
  { t with
    user := if env.stat.mode / 2048 % 2 = 1 then
      { t.user with saved := t.user.effective, effective := env.stat.uid } else t.user
    group := if env.stat.mode / 1024 % 2 = 1 then
      { t.group with saved := t.group.effective, effective := env.stat.gid } else t.group
    files := fun fd => (t.files fd).filter fun f => ¬ f.2
    action := fun sig => if t.action sig = 1 then 1 else 0
    altstack := 0 }

/-- `format_exec` and `shebang_exec` -/
def execFile (argv envp : ExecArgs) (t : ExecTask) : ExecEnd Unit :=
  match env.elfExec 0 argv envp t with
  | .error e t' => if e = execEnoexec then env.shebangExec argv envp t' else .error e t'
  | r => r

def finishExec : ExecEnd Unit → ExecEnd Unit
  | .ok _ t => .ok () (env.executed t)
  | .error e t => if e < 0 then .error e t else .ok () (env.executed t)
  | .crash => .crash

def doExecve (argv envp : ExecArgs) (t : ExecTask) : ExecEnd Unit :=
  if env.ret .openFile < 0 then .error (env.ret .openFile) t
  else if env.ret .fstat < 0 then .error (env.ret .fstat) t
  else if env.stat.mode &&& 0o111 = 0 then .error execEacces t
  else env.finishExec (env.execFile argv envp t)

/-- `sys_execve`, with the arguments and variables that it has read and edited. -/
def sysExecve (argv envp : ExecArgs) (t : ExecTask) : ExecEnd Unit :=
  if env.ret .readPath ≠ 0 then .error execEfault t
  else if env.ret .mallocArgv = 0 then .error execEnomem t
  else if env.ret .readArgv < 0 then .error (env.ret .readArgv) t
  else if env.ret .mallocEnvp = 0 then .error execEnomem t
  else if env.ret .readEnvp < 0 then .error (env.ret .readEnvp) t
  else env.doExecve argv envp t

/-! ### When nothing is lost -/

structure EntryOk (file i : ℕ) (ph : ProgHeader) (bias : ℕ) : Prop where
  mmapOp : env.ret (.mmapOp file) ≠ 0
  mmap : 0 ≤ env.ret (.mmap file i)
  memPt : env.ret (.memPt file i) ≠ 0
  mapBss : ph.filesize < ph.memsize → bssRest ph bias ≠ 0 → 0 ≤ env.ret (.mapBss file i)

def SegmentsOk (file bias : ℕ) (phs : List ProgHeader) (i : ℕ) : Prop :=
  ∀ x ∈ phs.zipIdx i, x.1.type = ptLoad → env.EntryOk file x.2 x.1 bias

structure OthersOk (file : ℕ) : Prop where
  holeForVdso : env.ret (.holeForVdso file) ≠ -1
  mapVdso : 0 ≤ env.ret (.mapVdso file)
  holeForVvar : env.ret (.holeForVvar file) ≠ -1
  mapVvar : 0 ≤ env.ret (.mapVvar file)
  mapStack : 0 ≤ env.ret (.mapStack file)
  mapTop : 0 ≤ env.ret (.mapTop file)

structure CopyOk (file : ℕ) (argv envp : ExecArgs) : Prop where
  writeFile : env.ret (.writeFile file) = 0
  writeEnvp : env.ret (.writeEnvp file) = 0
  writeArgv : env.ret (.writeArgv file) = 0
  writePlatform : env.ret (.writePlatform file) = 0
  putRandom : env.ret (.putRandom file) = 0
  putArgc : env.ret (.putArgc file) = 0
  putArg : ∀ i < argv.count, env.ret (.putArg file i) = 0
  putEnv : ∀ i < envp.count, env.ret (.putEnv file i) = 0
  putAux : env.ret (.putAux file) = 0

/-- Once the headers are read, all goes well: nothing after the old address space is given up fails. -/
structure LoadOk (file : ℕ) (image : ElfImage) (argv envp : ExecArgs) : Prop where
  segments : env.SegmentsOk file (env.biasOf file image.header) image.progs 0
  interp : ∀ interp, image.interp = some interp →
    env.SegmentsOk (file + 1) (pageAddr (env.ret (.holeForElf (file + 1)))) interp.2 0
  others : env.OthersOk file
  copy : env.CopyOk file argv envp

def FileFits (file : ℕ) (argv envp : ExecArgs) : Prop :=
  ∀ image, env.readElf file = .ok image → env.ret (.mmNew file) ≠ 0 →
    env.LoadOk file image argv envp

structure Reached : Prop where
  readPath : env.ret .readPath = 0
  mallocArgv : env.ret .mallocArgv ≠ 0
  readArgv : 0 ≤ env.ret .readArgv
  mallocEnvp : env.ret .mallocEnvp ≠ 0
  readEnvp : 0 ≤ env.ret .readEnvp
  openFile : 0 ≤ env.ret .openFile
  fstat : 0 ≤ env.ret .fstat
  mode : env.stat.mode &&& 0o111 ≠ 0

structure ExecFits (argv envp : ExecArgs) : Prop where
  file : env.Reached → env.FileFits 0 argv envp
  script : env.Reached → env.readElf 0 = .error execEnoexec →
    env.shebang argv ≠ none ∧ ∀ argv', env.shebang argv = some (.ok argv') →
      env.FileFits 2 argv' envp

end ExecEnv

/-- An exec comes to the new program, or to an error with all as it was. -/
def Unharmed (t : ExecTask) : ExecEnd Unit → Prop
  | .ok _ t' => t'.regs.gpr = fun _ => 0
  | .error _ t' => t' = t
  | .crash => False

/-! ### After the old address space -/

lemma zero_ne_enoexec : (0 : ℤ) ≠ execEnoexec := by decide

lemma efault_ne_enoexec : execEfault ≠ execEnoexec := by decide

def ExecTask.Keeps (t t' : ExecTask) : Prop := t'.mm.id = t.mm.id ∧ t'.regs = t.regs

lemma ExecTask.Keeps.trans {t t' t'' : ExecTask} (h : t.Keeps t') (h' : t'.Keeps t'') :
    t.Keeps t'' := ⟨h'.1.trans h.1, h'.2.trans h.2⟩

lemma ExecTask.keeps_lockMem (n : ℤ) (t : ExecTask) : t.Keeps (t.lockMem n) := ⟨rfl, rfl⟩

lemma ExecTask.keeps_raiseBrk (brk : ℕ) (t : ExecTask) : t.Keeps (t.raiseBrk brk) := by
  unfold raiseBrk
  split_ifs <;> exact ⟨rfl, rfl⟩

namespace ExecM

/-- A part of the load: it comes to its end if the condition holds, and to no `ENOEXEC` in any
case. -/
def Late (m : ExecM Unit) (c : Prop) : Prop := ∀ t,
  c ∧ (∃ t', m t = .ok () t' ∧ t.Keeps t') ∨
    ¬ c ∧ (m t = .crash ∨ ∃ e t', m t = .error e t' ∧ e ≠ execEnoexec ∧ t.Keeps t')

variable {m k : ExecM Unit} {c c' : Prop}

lemma bind_assoc {α β γ : Type} (m : ExecM α) (k : α → ExecM β) (l : β → ExecM γ) :
    m >>= k >>= l = m >>= fun a => k a >>= l := by
  funext t
  change ExecM.bind (ExecM.bind m k) l t = ExecM.bind m (fun a => ExecM.bind (k a) l) t
  unfold ExecM.bind
  cases m t <;> rfl

lemma bind_of_ok {t t' : ExecTask} (h : m t = .ok () t') : (m >>= fun _ => k) t = k t' := by
  change ExecM.bind m _ t = _
  rw [ExecM.bind, h]

lemma bind_of_error {t t' : ExecTask} {e : ℤ} (h : m t = .error e t') :
    (m >>= fun _ => k) t = .error e t' := by
  change ExecM.bind m _ t = _
  rw [ExecM.bind, h]

lemma bind_of_crash {t : ExecTask} (h : m t = .crash) : (m >>= fun _ => k) t = .crash := by
  change ExecM.bind m _ t = _
  rw [ExecM.bind, h]

lemma Late.congr (hm : m.Late c) (hc : c ↔ c') : m.Late c' := propext hc ▸ hm

lemma late_pure : Late (Pure.pure ()) True := fun t => Or.inl ⟨trivial, t, rfl, rfl, rfl⟩

lemma Late.bind (hm : m.Late c) (hk : k.Late c') : Late (m >>= fun _ => k) (c ∧ c') := by
  intro t
  rcases hm t with ⟨hc, t', hok, hkeeps⟩ | ⟨hc, hcrash | ⟨e, t', herror, he, hkeeps⟩⟩
  · rw [bind_of_ok hok]
    rcases hk t' with ⟨hc', t'', hok', hkeeps'⟩ | ⟨hc', hcrash | ⟨e, t'', herror, he, hkeeps'⟩⟩
    · exact Or.inl ⟨⟨hc, hc'⟩, t'', hok', hkeeps.trans hkeeps'⟩
    · exact Or.inr ⟨fun h => hc' h.2, Or.inl hcrash⟩
    · exact Or.inr ⟨fun h => hc' h.2, Or.inr ⟨e, t'', herror, he, hkeeps.trans hkeeps'⟩⟩
  · exact Or.inr ⟨fun h => hc h.1, Or.inl (bind_of_crash hcrash)⟩
  · exact Or.inr ⟨fun h => hc h.1, Or.inr ⟨e, t', bind_of_error herror, he, hkeeps⟩⟩

lemma late_failIf {x : Prop} [Decidable x] {e : ℤ} (he : x → e ≠ execEnoexec) :
    Late (failIf x e) (¬ x) := by
  intro t
  by_cases hx : x
  · exact Or.inr ⟨not_not.mpr hx, Or.inr ⟨e, t, if_pos hx, he hx, rfl, rfl⟩⟩
  · exact Or.inl ⟨hx, t, if_neg hx, rfl, rfl⟩

lemma late_crashIf {x : Prop} [Decidable x] : Late (crashIf x) (¬ x) := by
  intro t
  by_cases hx : x
  · exact Or.inr ⟨not_not.mpr hx, Or.inl (if_pos hx)⟩
  · exact Or.inl ⟨hx, t, if_neg hx, rfl, rfl⟩

lemma late_modify {f : ExecTask → ExecTask} (hf : ∀ t : ExecTask, t.Keeps (f t)) : Late (modify f) True :=
  fun t => Or.inl ⟨trivial, f t, rfl, hf t⟩

lemma Late.onlyIf {x : Prop} [Decidable x] (hm : m.Late c) : Late (.onlyIf x m) (x → c) := by
  intro t
  by_cases hx : x
  · have heq : ExecM.onlyIf x m t = m t := if_pos hx
    rw [heq, forall_prop_of_true hx]
    exact hm t
  · exact Or.inl ⟨fun h => absurd h hx, t, if_neg hx, rfl, rfl⟩

lemma Late.onError (hm : m.Late c) {f : ExecTask → ExecTask} (hf : ∀ t : ExecTask, t.Keeps (f t)) :
    Late (m.onError f) c := by
  intro t
  unfold ExecM.onError
  rcases hm t with ⟨hc, t', hok, hkeeps⟩ | ⟨hc, hcrash | ⟨e, t', herror, he, hkeeps⟩⟩
  · rw [hok]
    exact Or.inl ⟨hc, t', rfl, hkeeps⟩
  · rw [hcrash]
    exact Or.inr ⟨hc, Or.inl rfl⟩
  · rw [herror]
    exact Or.inr ⟨hc, Or.inr ⟨e, f t', rfl, he, hkeeps.trans (hf t')⟩⟩

end ExecM

namespace ExecEnv

open ExecM

variable (env : ExecEnv)

lemma late_loadEntry (file i : ℕ) (ph : ProgHeader) (bias : ℕ) :
    (env.loadEntry file i ph bias).Late (env.EntryOk file i ph bias) := by
  have hzeros : (ExecM.modify (ExecTask.lockMem (-1)) >>= fun _ =>
      ExecM.modify (ExecTask.lockMem 1)).Late (True ∧ True) :=
    (late_modify (ExecTask.keeps_lockMem (-1))).bind (late_modify (ExecTask.keeps_lockMem 1))
  refine (late_crashIf.bind ((late_failIf fun _ => env.mmap_error file i).bind (late_crashIf.bind
    (hzeros.onlyIf.bind (late_failIf fun _ => env.bss_error file i))))).congr ?_
  constructor
  · rintro ⟨hop, hmmap, hpt, -, hbss⟩
    refine ⟨hop, not_lt.mp hmmap, hpt, fun hless hrest => ?_⟩
    by_contra hneg
    exact hbss ⟨hless, hrest, not_le.mp hneg⟩
  · rintro ⟨hop, hmmap, hpt, hbss⟩
    exact ⟨hop, not_lt.mpr hmmap, hpt, fun _ => ⟨trivial, trivial⟩, fun h =>
      not_le.mpr h.2.2 (hbss h.1 h.2.1)⟩

lemma segmentsOk_cons {file bias i : ℕ} {ph : ProgHeader} {phs : List ProgHeader} :
    env.SegmentsOk file bias (ph :: phs) i ↔
      (ph.type = ptLoad → env.EntryOk file i ph bias) ∧ env.SegmentsOk file bias phs (i + 1) := by
  simp [SegmentsOk, List.zipIdx_cons]

lemma late_loadFile (file bias : ℕ) (phs : List ProgHeader) (i : ℕ) :
    (env.loadFile file bias phs i).Late (env.SegmentsOk file bias phs i) := by
  induction phs generalizing i with
  | nil => exact late_pure.congr (by simp [SegmentsOk])
  | cons ph phs ih =>
    have hbrk : (ExecM.modify (ExecTask.raiseBrk ((bias + ph.vaddr + ph.memsize) % 2 ^ 64))).Late
        True := late_modify (ExecTask.keeps_raiseBrk _)
    refine (((env.late_loadEntry file i ph bias).bind hbrk).onlyIf.bind (ih (i + 1))).congr ?_
    rw [segmentsOk_cons]
    simp only [and_true]

lemma late_loadInterp (file base : ℕ) (phs : List ProgHeader) (i : ℕ) :
    (env.loadInterp file base phs i).Late (env.SegmentsOk file base phs i) := by
  induction phs generalizing i with
  | nil => exact late_pure.congr (by simp [SegmentsOk])
  | cons ph phs ih =>
    refine ((ih (i + 1)).bind (env.late_loadEntry file i ph base).onlyIf).congr ?_
    rw [segmentsOk_cons, and_comm]

lemma late_loadInterpOf (file : ℕ) (image : ElfImage) :
    (env.loadInterpOf file image).Late (∀ interp, image.interp = some interp →
      env.SegmentsOk (file + 1) (pageAddr (env.ret (.holeForElf (file + 1)))) interp.2 0) := by
  unfold loadInterpOf
  cases image.interp with
  | none => exact late_pure.congr (by simp)
  | some interp => exact (env.late_loadInterp (file + 1) _ interp.2 0).congr (by simp)

lemma late_mapOthers (file : ℕ) : (env.mapOthers file).Late (env.OthersOk file) := by
  have hnomem : execEnomem ≠ execEnoexec := by decide
  refine ((late_failIf fun _ => hnomem).bind ((late_failIf fun _ => env.vdso_error file).bind
    ((late_failIf fun _ => zero_ne_enoexec).bind ((late_failIf fun _ => env.vvar_error file).bind
    ((late_failIf fun _ => env.stack_error file).bind
      (late_failIf fun _ => env.top_error file)))))).congr ?_
  simp only [not_lt]
  constructor
  · rintro ⟨h₁, h₂, h₃, h₄, h₅, h₆⟩
    exact ⟨h₁, h₂, h₃, h₄, h₅, h₆⟩
  · rintro ⟨h₁, h₂, h₃, h₄, h₅, h₆⟩
    exact ⟨h₁, h₂, h₃, h₄, h₅, h₆⟩

lemma late_putAll (call : ℕ → ExecCall) (n i : ℕ) :
    (env.putAll call n i).Late (∀ j < n, env.ret (call (i + j)) = 0) := by
  induction n generalizing i with
  | zero => exact late_pure.congr (by simp)
  | succ n ih =>
    refine ((late_failIf fun _ => efault_ne_enoexec).bind (ih (i + 1))).congr ?_
    rw [not_not]
    constructor
    · rintro ⟨hfirst, hrest⟩ j hj
      cases j with
      | zero => exact hfirst
      | succ j =>
        have hnext := hrest j (Nat.lt_of_succ_lt_succ hj)
        rwa [add_right_comm] at hnext
    · refine fun h => ⟨h 0 (Nat.succ_pos n), fun j hj => ?_⟩
      rw [add_right_comm]
      exact h (j + 1) (Nat.succ_lt_succ hj)

lemma late_copyArgs (file : ℕ) (argv envp : ExecArgs) :
    (env.copyArgs file argv envp).Late (env.CopyOk file argv envp) := by
  have hput := fun {c : Prop} [Decidable c] => late_failIf (x := c) fun _ => efault_ne_enoexec
  refine (hput.bind (hput.bind (hput.bind (hput.bind (hput.bind (hput.bind
    ((env.late_putAll _ _ 0).bind ((env.late_putAll _ _ 0).bind
      (hput.onError (ExecTask.keeps_lockMem (-1))))))))))).congr ?_
  simp only [not_not, zero_add]
  constructor
  · rintro ⟨h₁, h₂, h₃, h₄, h₅, h₆, h₇, h₈, h₉⟩
    exact ⟨h₁, h₂, h₃, h₄, h₅, h₆, h₇, h₈, h₉⟩
  · rintro ⟨h₁, h₂, h₃, h₄, h₅, h₆, h₇, h₈, h₉⟩
    exact ⟨h₁, h₂, h₃, h₄, h₅, h₆, h₇, h₈, h₉⟩

/-- Where a load ends: with the new program, or where the old address space is lost. -/
def LoadEnd (t : ExecTask) (r : ExecEnd Unit) (c : Prop) : Prop :=
  c ∧ (∃ t', r = .ok () t' ∧ t'.regs.gpr = fun _ => 0) ∨
    ¬ c ∧ (r = .crash ∨ ∃ e t', r = .error e t' ∧ e ≠ execEnoexec ∧ t'.mm.id = t.mm.id + 1 ∧
      t'.regs = t.regs)

lemma loadEnd_loadElf (file : ℕ) (image : ElfImage) (argv envp : ExecArgs) (t : ExecTask) :
    LoadEnd t (env.loadElf file image argv envp t) (env.LoadOk file image argv envp) := by
  let maps : ExecM Unit := (do
    env.loadFile file (env.biasOf file image.header) image.progs 0
    env.loadInterpOf file image
    env.mapOthers file : ExecM Unit).onError (ExecTask.lockMem (-1))
  let start : ExecTask → ExecTask := fun t => { t with
    regs := ⟨fun _ => 0, env.stackStart file argv envp, env.entryPoint file image, 0, 0, 0⟩ }
  let t₀ := (((t.lockGeneral 1).newMm).lockGeneral (-1)).lockMem 1
  have heq : env.loadElf file image argv envp t =
      ((maps >>= fun _ => .modify (ExecTask.lockMem (-1)) >>= fun _ => env.copyArgs file argv envp)
        >>= fun _ => .modify start) t₀ := by
    rw [ExecM.bind_assoc, ExecM.bind_assoc]
    rfl
  have hmaps := ((env.late_loadFile file (env.biasOf file image.header) image.progs 0).bind
    ((env.late_loadInterpOf file image).bind (env.late_mapOthers file))).onError
    (ExecTask.keeps_lockMem (-1))
  have hrest := (late_modify (ExecTask.keeps_lockMem (-1))).bind (env.late_copyArgs file argv envp)
  have hall : (maps >>= fun _ => .modify (ExecTask.lockMem (-1)) >>= fun _ =>
      env.copyArgs file argv envp).Late (env.LoadOk file image argv envp) := by
    refine (hmaps.bind hrest).congr ?_
    constructor
    · rintro ⟨⟨hsegments, hinterp, hothers⟩, -, hcopy⟩
      exact ⟨hsegments, hinterp, hothers, hcopy⟩
    · rintro ⟨hsegments, hinterp, hothers, hcopy⟩
      exact ⟨⟨hsegments, hinterp, hothers⟩, trivial, hcopy⟩
  have hkept : t₀.mm.id = t.mm.id + 1 ∧ t₀.regs = t.regs := ⟨rfl, rfl⟩
  rw [heq]
  rcases hall t₀ with ⟨hc, t', hok, -⟩ | ⟨hc, hcrash | ⟨e, t', herror, he, hkeeps⟩⟩
  · exact Or.inl ⟨hc, start t', ExecM.bind_of_ok hok, rfl⟩
  · exact Or.inr ⟨hc, Or.inl (ExecM.bind_of_crash hcrash)⟩
  · exact Or.inr ⟨hc, Or.inr ⟨e, t', ExecM.bind_of_error herror, he, hkeeps.1.trans hkept.1,
      hkeeps.2.trans hkept.2⟩⟩

/-! ### Before it -/

lemma readHeader_neg {file : ℕ} {e : ℤ} (h : env.readHeader file = .error e) : e < 0 := by
  simp only [readHeader] at h
  split_ifs at h
  all_goals
    cases h
    decide

lemma readPrgHeaders_neg {file : ℕ} {e : ℤ} (h : env.readPrgHeaders file = .error e) : e < 0 := by
  simp only [readPrgHeaders] at h
  split_ifs at h
  all_goals
    cases h
    decide

lemma libError_neg {α : Type} {r : Except ℤ α} (hr : ∀ e, r = .error e → e < 0) {e : ℤ}
    (h : r.mapError libError = .error e) : e < 0 := by
  cases r with
  | ok a => cases h
  | error e' =>
    cases h
    unfold libError
    split_ifs
    · decide
    · exact hr e' rfl

lemma findInterp_neg {file : ℕ} {phs : List ProgHeader} {i : ℕ}
    {interp : Option (ElfHeader × List ProgHeader)} {e : ℤ}
    (h : env.findInterp file phs i interp = .error e) : e < 0 := by
  induction phs generalizing i interp with
  | nil => cases h
  | cons ph phs ih =>
    unfold findInterp at h
    split_ifs at h with h₁ h₂ h₃ h₄ h₅ h₆
    · exact ih h
    · cases h
      decide
    · cases h
      decide
    · cases h
      decide
    · cases h
      decide
    · cases h
      exact h₆
    · cases hheader : (env.readHeader (file + 1)).mapError libError with
      | error e' =>
        simp only [hheader] at h
        cases h
        exact libError_neg (fun _ => env.readHeader_neg) hheader
      | ok header =>
        cases hprogs : (env.readPrgHeaders (file + 1)).mapError libError with
        | error e' =>
          simp only [hheader, hprogs] at h
          cases h
          exact libError_neg (fun _ => env.readPrgHeaders_neg) hprogs
        | ok progs =>
          simp only [hheader, hprogs] at h
          exact ih h

lemma readElf_neg {file : ℕ} {e : ℤ} (h : env.readElf file = .error e) : e < 0 := by
  unfold readElf at h
  cases hheader : env.readHeader file with
  | error e' =>
    simp only [hheader] at h
    cases h
    exact env.readHeader_neg hheader
  | ok header =>
    cases hprogs : env.readPrgHeaders file with
    | error e' =>
      simp only [hheader, hprogs] at h
      cases h
      exact env.readPrgHeaders_neg hprogs
    | ok progs =>
      cases hinterp : env.findInterp file progs 0 none with
      | error e' =>
        simp only [hheader, hprogs, hinterp] at h
        cases h
        exact env.findInterp_neg hinterp
      | ok interp => simp only [hheader, hprogs, hinterp, reduceCtorEq] at h

lemma shebangLine_neg {script : List UInt8} {e : ℤ} (h : shebangLine script = .error e) : e < 0 := by
  simp only [shebangLine] at h
  split_ifs at h
  all_goals
    cases h
    decide

lemma shebang_neg {argv : ExecArgs} {e : ℤ} (h : env.shebang argv = some (.error e)) : e < 0 := by
  unfold shebang at h
  cases hline : shebangLine env.script with
  | error e' =>
    simp only [hline] at h
    split_ifs at h
    · cases h
      decide
    · cases h
      decide
    · cases h
      exact shebangLine_neg hline
  | ok line =>
    simp only [hline] at h
    split_ifs at h with _ _ _ _ hopen
    · cases h
      decide
    · cases h
      decide
    · cases h
      decide
    · cases h
      exact hopen
    · cases h

/-! ### The whole call -/

lemma elfExec_cases (file : ℕ) (argv envp : ExecArgs) (t : ExecTask) :
    (∃ e, env.readElf file = .error e ∧ env.elfExec file argv envp t = .error e t) ∨
      (∃ image, env.readElf file = .ok image) ∧ env.ret (.mmNew file) = 0 ∧
        env.elfExec file argv envp t = .error execEnomem t ∨
      ∃ image, env.readElf file = .ok image ∧ env.ret (.mmNew file) ≠ 0 ∧
        LoadEnd t (env.elfExec file argv envp t) (env.LoadOk file image argv envp) := by
  unfold elfExec
  cases hread : env.readElf file with
  | error e => exact Or.inl ⟨e, rfl, rfl⟩
  | ok image =>
    by_cases hmm : env.ret (.mmNew file) = 0
    · exact Or.inr (Or.inl ⟨⟨image, rfl⟩, hmm, if_pos hmm⟩)
    · refine Or.inr (Or.inr ⟨image, rfl, hmm, ?_⟩)
      simp only [if_neg hmm]
      exact env.loadEnd_loadElf file image argv envp t

lemma unharmed_error {t : ExecTask} {e : ℤ} (he : e < 0) :
    Unharmed t (env.finishExec (.error e t)) := by
  simp only [finishExec, if_pos he]
  rfl

lemma unharmed_loadEnd {t : ExecTask} (ht : t.regs.gpr 8 = 221) {r : ExecEnd Unit} {c : Prop}
    (h : LoadEnd t r c) : Unharmed t (env.finishExec r) ↔ c := by
  rcases h with ⟨hc, t', rfl, hregs⟩ | ⟨hc, rfl | ⟨e, t', rfl, -, hid, hregs⟩⟩
  · exact iff_of_true hregs hc
  · exact iff_of_false id hc
  · refine iff_of_false (fun h => ?_) hc
    simp only [finishExec] at h
    split_ifs at h with he
    · have hsame : t' = t := h
      rw [hsame] at hid
      omega
    · have hzero : t'.regs.gpr = fun _ => 0 := h
      rw [hregs] at hzero
      have hnumber := congrFun hzero 8
      rw [ht] at hnumber
      exact absurd hnumber (by decide)

lemma unharmed_elfExec {t : ExecTask} (ht : t.regs.gpr 8 = 221) (file : ℕ) (argv envp : ExecArgs) :
    Unharmed t (env.finishExec (env.elfExec file argv envp t)) ↔ env.FileFits file argv envp := by
  rcases env.elfExec_cases file argv envp t with ⟨e, hread, hend⟩ | ⟨-, hmm, hend⟩ |
    ⟨image, hread, hmm, hend⟩
  · rw [hend]
    refine iff_of_true (env.unharmed_error (env.readElf_neg hread)) fun image himage => ?_
    rw [hread] at himage
    cases himage
  · rw [hend]
    exact iff_of_true (env.unharmed_error (by decide)) fun _ _ hmm' => absurd hmm hmm'
  · rw [env.unharmed_loadEnd ht hend]
    constructor
    · intro h image' himage' _
      rw [hread] at himage'
      cases himage'
      exact h
    · exact fun h => h image hread hmm

lemma unharmed_execFile {t : ExecTask} (ht : t.regs.gpr 8 = 221) (argv envp : ExecArgs) :
    Unharmed t (env.finishExec (env.execFile argv envp t)) ↔
      env.FileFits 0 argv envp ∧ (env.readElf 0 = .error execEnoexec →
        env.shebang argv ≠ none ∧ ∀ argv', env.shebang argv = some (.ok argv') →
          env.FileFits 2 argv' envp) := by
  have hfile := env.unharmed_elfExec ht 0 argv envp
  unfold execFile
  rcases env.elfExec_cases 0 argv envp t with ⟨e, hread, hend⟩ | ⟨⟨image, hread⟩, hmm, hend⟩ |
    ⟨image, hread, hmm, hend⟩
  · have hfits : env.FileFits 0 argv envp := by
      intro image himage
      rw [hread] at himage
      cases himage
    simp only [hend]
    by_cases he : e = execEnoexec
    · rw [if_pos he, hread, he]
      rw [and_iff_right hfits, forall_prop_of_true rfl]
      unfold shebangExec
      cases hscript : env.shebang argv with
      | none => exact iff_of_false id fun h => h.1 rfl
      | some r =>
        cases r with
        | error e' =>
          refine iff_of_true (env.unharmed_error (env.shebang_neg hscript)) ⟨by simp, ?_⟩
          intro argv' hargv'
          cases hargv'
        | ok argv' =>
          refine (env.unharmed_elfExec ht 2 argv' envp).trans ?_
          simp
    · rw [if_neg he]
      refine iff_of_true (env.unharmed_error (env.readElf_neg hread)) ⟨hfits, fun h => ?_⟩
      rw [hread] at h
      cases h
      exact absurd rfl he
  · have hscript : env.readElf 0 ≠ .error execEnoexec := by
      rw [hread]
      exact fun h => by cases h
    rw [hend] at hfile
    simp only [hend]
    rw [if_neg (by decide), hfile]
    exact (and_iff_left fun h => absurd h hscript).symm
  · have hscript : env.readElf 0 ≠ .error execEnoexec := by
      rw [hread]
      exact fun h => by cases h
    have hsame : env.execFile argv envp t = env.elfExec 0 argv envp t := by
      unfold execFile
      rcases hend with ⟨-, t', hok, -⟩ | ⟨-, hcrash | ⟨e, t', herror, he, -⟩⟩
      · rw [hok]
      · rw [hcrash]
      · simp only [herror]
        exact if_neg he
    unfold execFile at hsame
    rw [hsame, hfile]
    exact (and_iff_left fun h => absurd h hscript).symm

lemma not_reached (h : ¬ env.Reached) (argv envp : ExecArgs) (t : ExecTask) :
    ∃ e, env.sysExecve argv envp t = .error e t := by
  unfold sysExecve doExecve
  split_ifs with h₁ h₂ h₃ h₄ h₅ h₆ h₇ h₈
  · exact ⟨_, rfl⟩
  · exact ⟨_, rfl⟩
  · exact ⟨_, rfl⟩
  · exact ⟨_, rfl⟩
  · exact ⟨_, rfl⟩
  · exact ⟨_, rfl⟩
  · exact ⟨_, rfl⟩
  · exact ⟨_, rfl⟩
  · exact absurd ⟨not_not.mp h₁, h₂, not_lt.mp h₃, h₄, not_lt.mp h₅, not_lt.mp h₆, not_lt.mp h₇,
      h₈⟩ h

lemma Reached.eq {env : ExecEnv} (h : env.Reached) (argv envp : ExecArgs) (t : ExecTask) :
    env.sysExecve argv envp t = env.finishExec (env.execFile argv envp t) := by
  unfold sysExecve doExecve
  rw [if_neg (not_not.mpr h.readPath), if_neg h.mallocArgv, if_neg (not_lt.mpr h.readArgv),
    if_neg h.mallocEnvp, if_neg (not_lt.mpr h.readEnvp), if_neg (not_lt.mpr h.openFile),
    if_neg (not_lt.mpr h.fstat), if_neg h.mode]

end ExecEnv

/-- An exec does no harm just if nothing fails after the old address space. -/
theorem exec_unharmed_iff (env : ExecEnv) (argv envp : ExecArgs) {t : ExecTask}
    (ht : t.regs.gpr 8 = 221) :
    Unharmed t (env.sysExecve argv envp t) ↔ env.ExecFits argv envp := by
  by_cases hreached : env.Reached
  · rw [hreached.eq, env.unharmed_execFile ht]
    constructor
    · rintro ⟨hfile, hscript⟩
      exact ⟨fun _ => hfile, fun _ => hscript⟩
    · rintro ⟨hfile, hscript⟩
      exact ⟨hfile hreached, hscript hreached⟩
  · obtain ⟨e, he⟩ := env.not_reached hreached argv envp t
    rw [he]
    exact iff_of_true rfl ⟨fun h => absurd h hreached, fun h => absurd h hreached⟩

/-- A file of one segment, for which every call but the mapping goes well. -/
def oneSegment (filesize : ℕ) (mmap : ℤ) (hmmap : mmap ≠ execEnoexec) : ExecEnv where
  ret
    | .mmap _ _ => mmap
    | .readHeader _ => 64
    | .readHeaders _ => 56
    | .mallocArgv | .mallocEnvp | .mallocHeaders _ | .mmNew _ | .mmapOp _ | .memPt _ _ => 1
    | _ => 0
  header := fun _ => ⟨elfMagic, 2, 1, 1, elfExecutable, 183, 0x400000⟩
  progs := fun _ => [⟨ptLoad, 0x400000, filesize, 4096⟩]
  nameLength := fun _ => 4
  script := []
  stat := ⟨0o755, 0, 0⟩
  mmap_error := fun _ _ => hmmap
  bss_error := fun _ _ => zero_ne_enoexec
  vdso_error := fun _ => zero_ne_enoexec
  vvar_error := fun _ => zero_ne_enoexec
  stack_error := fun _ => zero_ne_enoexec
  top_error := fun _ => zero_ne_enoexec

def callingTask : ExecTask where
  mm := ⟨0, 0x10000, 0x20000, 0⟩
  generalLock := 0
  regs := ⟨fun i => if i = 8 then 221 else 0, 0x7000, 0x1000, 0, 0, 0⟩
  action := fun _ => 0
  altstack := 0
  files := fun _ => none
  user := ⟨0, 0, 0⟩
  group := ⟨0, 0, 0⟩

lemma readElf_oneSegment (filesize : ℕ) (mmap : ℤ) (hmmap : mmap ≠ execEnoexec) :
    (oneSegment filesize mmap hmmap).readElf 0 =
      .ok ⟨⟨elfMagic, 2, 1, 1, elfExecutable, 183, 0x400000⟩,
        [⟨ptLoad, 0x400000, filesize, 4096⟩], none⟩ := by
  simp [ExecEnv.readElf, ExecEnv.readHeader, ExecEnv.readPrgHeaders, ExecEnv.findInterp, oneSegment,
    ptInterp, ptLoad]

theorem exec_unharmed_segment :
    Unharmed callingTask
      ((oneSegment 4096 0 (by decide)).sysExecve ⟨1, 6, 4⟩ ⟨0, 1, 0⟩ callingTask) := by
  refine (exec_unharmed_iff _ _ _ rfl).mpr ⟨fun _ => ?_, fun _ h => ?_⟩
  · intro image himage _
    rw [readElf_oneSegment, Except.ok.injEq] at himage
    subst himage
    refine ⟨fun x hx _ => ?_, fun _ h => ?_, ?_, ?_⟩
    · obtain rfl := List.mem_singleton.mp hx
      exact ⟨by decide, le_refl 0, by decide, fun h => absurd h (by decide)⟩
    · cases h
    · exact ⟨by decide, le_refl 0, by decide, le_refl 0, le_refl 0, le_refl 0⟩
    · exact ⟨rfl, rfl, rfl, rfl, rfl, rfl, fun _ _ => rfl, fun _ _ => rfl, rfl⟩
  · rw [readElf_oneSegment] at h
    cases h

/-- A segment without bytes in the file: the host maps nothing, and the call returns an error without
the old address space. -/
theorem exec_harms :
    ¬ Unharmed callingTask
      ((oneSegment 0 (-12) (by decide)).sysExecve ⟨1, 6, 4⟩ ⟨0, 1, 0⟩ callingTask) := by
  intro h
  have hsame := congrArg (fun t : ExecTask => t.mm.id) (show _ = callingTask from h)
  exact absurd hsame (by decide)

end ShellBox
