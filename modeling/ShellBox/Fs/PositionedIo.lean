import ShellBox.Logic.Serial
import ShellBox.Fs.ProcFile

/-!
# Positioned reads and writes

Several tasks have one open file. `read` and `write` use its position; `pread`, `pwrite`, `preadv`
and `pwritev` have an offset of their own, and where the filesystem has no such operation they seek
there, transfer, and seek back, under the lock of the descriptor. Every operation of the filesystem
is one step, and so are taking the lock, releasing it, and reading the offset.
-/

namespace ShellBox

/-- What an operation answers: a count, a position or an error, with the bytes it has read. -/
structure IoRes where
  num : ℤ
  data : List UInt8
  deriving DecidableEq

structure OpenFile (P C : Type) where
  pos : P
  content : C

inductive Transfer
  | get (size : ℕ)
  | put (data : List UInt8)

/-- The operations of a descriptor, as far as it has them. A seek from the position does not look at
the contents; where `pread` or `pwrite` is missing, a seek to where a seek by nothing says that the
position is leads back there. -/
structure FdOps (P C : Type) where
  isDir : Bool
  offset : P → ℤ
  read : Option (ℕ → OpenFile P C → IoRes × OpenFile P C)
  write : Option (List UInt8 → OpenFile P C → IoRes × OpenFile P C)
  pread : Option (ℕ → ℤ → C → IoRes × C)
  pwrite : Option (List UInt8 → ℤ → C → IoRes × C)
  lseek : Option (ℤ → Whence → OpenFile P C → ℤ × P)
  seek_cur : ∀ seek ∈ lseek, ∀ off p c c', seek off .cur ⟨p, c⟩ = seek off .cur ⟨p, c'⟩
  seek_back : pread = none ∨ pwrite = none → ∀ seek ∈ lseek, ∀ f f',
    0 ≤ (seek 0 .cur f).1 → (seek 0 .cur f).2 = f.pos ∧
      seek (seek 0 .cur f).1 .set f' = ((seek 0 .cur f).1, f.pos)

structure SharedFd (T P C : Type) where
  file : OpenFile P C
  lock : Option T

/-- A call: a plain transfer, a seek, or a transfer with an offset, which looks whether the
operations that it needs are there or not. -/
inductive FdCall
  | plain (x : Transfer)
  | lseek (off : ℤ) (whence : Whence)
  | positioned (checked : Bool) (x : Transfer) (off : ℤ)

namespace FdCall

def sysReadBuf (size : ℕ) : FdCall := .plain (.get size)

def sysWriteBuf (data : List UInt8) : FdCall := .plain (.put data)

def sysLseek64 (off : ℤ) (whence : Whence) : FdCall := .lseek off whence

def sysPread (size : ℕ) (off : ℤ) : FdCall := .positioned false (.get size) off

def sysPwrite (data : List UInt8) (off : ℤ) : FdCall := .positioned false (.put data) off

def sysPreadv (lens : List ℕ) (off : ℤ) : FdCall := .positioned true (.get lens.sum) off

def sysPwritev (bufs : List (List UInt8)) (off : ℤ) : FdCall :=
  .positioned true (.put bufs.flatten) off

end FdCall

inductive FdPc
  | begin
  | loaded (off : ℤ)
  | advance (res : IoRes)
  | locked
  | saved (old : ℤ)
  | moved (old : ℤ)
  | back (old : ℤ) (res : IoRes)
  | unlock (res : IoRes)
  | done (res : IoRes)
  | crashed

namespace FdOps

variable {T P C : Type} [DecidableEq T] (ops : FdOps P C)

/-- `read` or `write`, of the descriptor -/
def io : Transfer → Option (OpenFile P C → IoRes × OpenFile P C)
  | .get size => ops.read.map fun op => op size
  | .put data => ops.write.map fun op => op data

/-- `pread` or `pwrite`, of the descriptor -/
def pio : Transfer → Option (ℤ → C → IoRes × C)
  | .get size => ops.pread.map fun op => op size
  | .put data => ops.pwrite.map fun op => op data

def refusesDir : Transfer → Bool
  | .get _ => ops.isDir
  | .put _ => false

def errno (err : ℤ) : IoRes := ⟨err, []⟩

def withPos (s : SharedFd T P C) (p : P) : SharedFd T P C :=
  { s with file := { s.file with pos := p } }

def withContent (s : SharedFd T P C) (c : C) : SharedFd T P C :=
  { s with file := { s.file with content := c } }

/-- `lock`, which waits as long as someone holds it. -/
def acquire (t : T) (s : SharedFd T P C) : Option (FdPc × SharedFd T P C) :=
  match s.lock with
  | none   => some (.locked, { s with lock := some t })
  | some _ => none

/-- A step of `sys_read_buf` or `sys_write_buf`. A missing operation that is called crashes. -/
def plainStep (x : Transfer) (s : SharedFd T P C) : FdPc → Option (FdPc × SharedFd T P C)
  | .begin =>
    if ops.refusesDir x then some (.done (errno (-21)), s)
    else
      match ops.io x, ops.pio x with
      | some op, _    => some (.done (op s.file).1, { s with file := (op s.file).2 })
      | none, some _  => some (.loaded (ops.offset s.file.pos), s)
      | none, none    => some (.done (errno (-9)), s)
  | .loaded off =>
    match ops.pio x with
    | some op =>
      some (if 0 < (op off s.file.content).1.num then .advance (op off s.file.content).1
        else .done (op off s.file.content).1, withContent s (op off s.file.content).2)
    | none => some (.crashed, s)
  | .advance res =>
    match ops.lseek with
    | some seek => some (.done res, withPos s (seek res.num .cur s.file).2)
    | none      => some (.crashed, s)
  | _ => none

/-- A step of `sys_lseek64`. -/
def lseekStep (off : ℤ) (whence : Whence) (t : T) (s : SharedFd T P C) :
    FdPc → Option (FdPc × SharedFd T P C)
  | .begin => if ops.lseek.isSome then acquire t s else some (.done (errno (-29)), s)
  | .locked =>
    match ops.lseek with
    | some seek =>
      some (.unlock (errno (seek off whence s.file).1), withPos s (seek off whence s.file).2)
    | none => some (.crashed, s)
  | .unlock res => some (.done res, { s with lock := none })
  | _ => none

/-- A step of `sys_pread`, `sys_pwrite`, `sys_preadv` or `sys_pwritev`. -/
def positionedStep (checked : Bool) (x : Transfer) (off : ℤ) (t : T) (s : SharedFd T P C) :
    FdPc → Option (FdPc × SharedFd T P C)
  | .begin => acquire t s
  | .locked =>
    match ops.pio x with
    | some op =>
      some (.unlock (op off s.file.content).1, withContent s (op off s.file.content).2)
    | none =>
      if checked && !(ops.lseek.isSome && (ops.io x).isSome) then some (.unlock (errno (-29)), s)
      else
        match ops.lseek with
        | some seek => some (.saved (seek 0 .cur s.file).1, withPos s (seek 0 .cur s.file).2)
        | none      => some (.crashed, s)
  | .saved old =>
    match ops.lseek with
    | some seek =>
      some (if (seek off .set s.file).1 < 0 then .unlock (errno (seek off .set s.file).1)
        else .moved old, withPos s (seek off .set s.file).2)
    | none => some (.crashed, s)
  | .moved old =>
    match ops.io x with
    | some op => some (.back old (op s.file).1, { s with file := (op s.file).2 })
    | none    => some (.crashed, s)
  | .back old res =>
    match ops.lseek with
    | some seek =>
      some (if (seek old .set s.file).1 < 0 then .crashed else .unlock res,
        withPos s (seek old .set s.file).2)
    | none => some (.crashed, s)
  | .unlock res => some (.done res, { s with lock := none })
  | _ => none

def step (t : T) (s : SharedFd T P C) : FdCall → FdPc → Option (FdPc × SharedFd T P C)
  | .plain x, pc                  => ops.plainStep x s pc
  | .lseek off whence, pc         => ops.lseekStep off whence t s pc
  | .positioned checked x off, pc => ops.positionedStep checked x off t s pc

end FdOps

structure FdSystem (T P C : Type) where
  shared : SharedFd T P C
  running : T → Option (FdCall × FdPc)
  returned : T → List (FdCall × IoRes)

namespace FdSystem

variable {T P C : Type} [DecidableEq T]

def init (f : OpenFile P C) : FdSystem T P C := ⟨⟨f, none⟩, fun _ => none, fun _ => []⟩

def setRunning (s : FdSystem T P C) (t : T) (r : Option (FdCall × FdPc)) : FdSystem T P C :=
  { s with running := Function.update s.running t r }

end FdSystem

inductive FdStep {T P C : Type} [DecidableEq T] (ops : FdOps P C) :
    FdSystem T P C → T → FdSystem T P C → Prop
  | call {s : FdSystem T P C} {t : T} (c : FdCall) (hidle : s.running t = none) :
    FdStep ops s t (s.setRunning t (some (c, .begin)))
  | exec {s : FdSystem T P C} {t : T} {c : FdCall} {pc pc' : FdPc} {shared : SharedFd T P C}
    (hrun : s.running t = some (c, pc)) (hstep : ops.step t s.shared c pc = some (pc', shared)) :
    FdStep ops s t { s.setRunning t (some (c, pc')) with shared := shared }
  | ret {s : FdSystem T P C} {t : T} {c : FdCall} {res : IoRes}
    (hrun : s.running t = some (c, .done res)) :
    FdStep ops s t { s.setRunning t none with
      returned := Function.update s.returned t (s.returned t ++ [(c, res)]) }

inductive FdReach {T P C : Type} [DecidableEq T] (ops : FdOps P C) (f : OpenFile P C) :
    FdSystem T P C → Prop
  | init : FdReach ops f (.init f)
  | step {s s' : FdSystem T P C} {t : T} (h : FdReach ops f s) (hstep : FdStep ops s t s') :
    FdReach ops f s'

/-! ### What the calls should do -/

namespace FdOps

variable {T P C : Type} [DecidableEq T] (ops : FdOps P C)

/-- A plain transfer, at once: where the position is, which moves by what was transferred. -/
def plainAtomic (x : Transfer) (f : OpenFile P C) : IoRes × OpenFile P C :=
  if ops.refusesDir x then (errno (-21), f)
  else
    match ops.io x, ops.pio x with
    | some op, _   => op f
    | none, some op =>
      let r := op (ops.offset f.pos) f.content
      let f' : OpenFile P C := { f with content := r.2 }
      match ops.lseek with
      | some seek => (r.1, if 0 < r.1.num then { f' with pos := (seek r.1.num .cur f').2 } else f')
      | none      => (r.1, f')
    | none, none => (errno (-9), f)

def positionedAtomic (x : Transfer) (off : ℤ) (f : OpenFile P C) : IoRes × OpenFile P C :=
  match ops.pio x, ops.lseek, ops.io x with
  | some op, _, _ => ((op off f.content).1, { f with content := (op off f.content).2 })
  | none, some seek, some op =>
    if (seek off .set f).1 < 0 then (errno (seek off .set f).1, f)
    else
      let r := op { f with pos := (seek off .set f).2 }
      (r.1, { r.2 with pos := f.pos })
  | _, _, _ => (errno (-29), f)

def atomic : FdCall → OpenFile P C → IoRes × OpenFile P C
  | .plain x, f => ops.plainAtomic x f
  | .lseek off whence, f =>
    match ops.lseek with
    | some seek => (errno (seek off whence f).1, { f with pos := (seek off whence f).2 })
    | none      => (errno (-29), f)
  | .positioned _ x off, f => ops.positionedAtomic x off f

end FdOps

/-- The calls have had the results that they have in some order, each made at once: the results of
a task are in its own order, with one more if its call has taken effect and not returned; the
contents are what is left behind, and so is the position, once no call is being made. No call has
crashed. -/
def FdSystem.Serializable {T P C : Type} [DecidableEq T] (ops : FdOps P C) (f : OpenFile P C)
    (s : FdSystem T P C) : Prop :=
  (∀ t c, s.running t ≠ some (c, .crashed)) ∧
    ∃ order g, Serial ops.atomic f order g ∧
      (∀ t, ∃ pending, callsOf t order = s.returned t ++ pending ∧
        (pending = [] ∨ ∃ c pc res, s.running t = some (c, pc) ∧ pending = [(c, res)])) ∧
      g.content = s.shared.file.content ∧
      ((∀ t, s.running t = none) → g = s.shared.file)

/-! ### Steps in between -/

namespace FdOps

variable {T P C : Type} [DecidableEq T] (ops : FdOps P C)

def Serves : FdCall → Prop
  | .plain x               => (ops.io x).isSome ∨ ops.pio x = none ∨ ops.lseek.isSome
  | .lseek _ _             => True
  | .positioned checked x _ =>
    (ops.pio x).isSome ∨ ops.lseek.isSome ∧ (ops.io x).isSome ∨ checked = true

def inside : FdPc → Bool
  | .loaded _ | .advance _ | .saved _ | .moved _ | .back _ _ => true
  | _ => false

def usesPos : FdCall → FdPc → Bool
  | .plain _, .begin           => true
  | .lseek _ _, .locked        => true
  | .positioned _ x _, .locked => !(ops.pio x).isSome
  | _, .advance _              => true
  | _, .saved _                => true
  | _, .moved _                => true
  | _, .back _ _               => true
  | _, _                       => false

def isPlain : FdCall → Bool
  | .plain _ => true
  | _        => false

def CanTell (f : OpenFile P C) : FdCall → FdPc → Prop
  | .positioned _ x _, .locked => ops.pio x = none → ∀ seek ∈ ops.lseek, 0 ≤ (seek 0 .cur f).1
  | _, _ => True

def KeepsPos (f : OpenFile P C) : FdCall → FdPc → Prop
  | .positioned _ _ off, .saved _ =>
    ∀ seek ∈ ops.lseek, (seek off .set f).1 < 0 → (seek off .set f).2 = f.pos
  | _, _ => True

end FdOps

/-- The step of the task is none that goes wrong: the operations are there; no plain transfer uses
the position while another call is inside, nor any call while a plain transfer is; the position can
be told, and a seek that fails leaves it. -/
structure FdSystem.Fits {T P C : Type} (ops : FdOps P C) (s : FdSystem T P C) (t : T) (c : FdCall)
    (pc : FdPc) : Prop where
  serves : ops.Serves c
  alone : ops.usesPos c pc = true → ∀ t' c' pc', t' ≠ t → s.running t' = some (c', pc') →
    FdOps.inside pc' = true → FdOps.isPlain c = false ∧ FdOps.isPlain c' = false
  tell : ops.CanTell s.shared.file c pc
  keeps : ops.KeepsPos s.shared.file c pc

inductive FdRun {T P C : Type} [DecidableEq T] (ops : FdOps P C) (f : OpenFile P C) :
    FdSystem T P C → Prop
  | init : FdRun ops f (.init f)
  | step {s s' : FdSystem T P C} {t : T} (h : FdRun ops f s)
    (hfits : ∀ c pc, s.running t = some (c, pc) → s.Fits ops t c pc) (hstep : FdStep ops s t s') :
    FdRun ops f s'

end ShellBox
