import ShellBox.Fs.VectorIo

/-!
# Copies from file to file

`sendfile` and `copy_file_range` read from one descriptor into a buffer and write what they have
read to another, until enough has been copied or one of the two does less than it was asked. The
input is read from where its file position is, or from an offset in the memory of the guest, which
is stored there again with the new value.
-/

namespace ShellBox

/-- The two descriptors: which operations they have, and what they answer. The answers are to the
reads and the writes in the order in which they are made; a call that is made again because it was
interrupted is one with the last. `same` says that the descriptors are of one open file, so that a
write at its position moves the position of the input. -/
structure CopyFiles where
  inOpen : Bool
  outOpen : Bool
  hasRead : Bool
  hasPread : Bool
  hasWrite : Bool
  hasPwrite : Bool
  same : Bool
  rd : ℕ → ℕ → Except ℤ ℕ
  wr : ℕ → ℕ → Except ℤ ℕ
  rd_errno : ∀ i size err, rd i size = .error err → -4095 ≤ err ∧ err < 0
  rd_count : ∀ i size n, rd i size = .ok n → n ≤ size
  wr_errno : ∀ i size err, wr i size = .error err → -4095 ≤ err ∧ err < 0
  wr_count : ∀ i size n, wr i size = .ok n → n ≤ size

/-- The address of an offset: null, or unreadable, or of this value, in memory that can be written
or not. -/
inductive OffsetArg
  | null
  | unreadable
  | given (off : ℤ) (writable : Bool)

namespace OffsetArg

def value : OffsetArg → Option ℤ
  | given off _ => some off
  | _           => none

/-- `user_put` does not fail. -/
def canPut : OffsetArg → Bool
  | given _ writable => writable
  | _                => true

/-- What is in the memory of the guest after `user_put`. -/
def put (off : ℤ) : OffsetArg → Option ℤ
  | given old writable => some (if writable then off else old)
  | _                  => none

end OffsetArg

structure CopyState where
  total : ℕ
  inOff : ℤ
  outOff : ℤ
  pos : ℤ
  sent : List UInt8

/-- What a call returns, and what it leaves: what has reached the output, the file position of the
input, and the offset in the memory of the guest. -/
structure CopyDone where
  ret : ℤ
  sent : List UInt8
  pos : ℤ
  off : Option ℤ

def bytesAt (src : ℤ → UInt8) (p : ℤ) (n : ℕ) : List UInt8 :=
  (List.range n).map fun j : ℕ => src (p + j)

namespace CopyFiles

variable (f : CopyFiles) (src : ℕ → ℤ → UInt8)

/-- The loop of `sys_sendfile64`, with the error that it returns with. `src` has the bytes of the
input at the time of each read. -/
def sendfileLoop (explicit : Bool) (remaining i : ℕ) (s : CopyState) : CopyState × Option ℤ :=
  if remaining = 0 then (s, none)
  else if explicit && !f.hasPread then (s, some (-22))
  else
    match f.rd i (min remaining 4096) with
    | .error err => (s, some err)
    | .ok nread =>
      if nread = 0 then (s, none)
      else
        let data := bytesAt (src i) (if explicit then s.inOff else s.pos) nread
        let s₁ := { s with pos := if explicit then s.pos else s.pos + nread }
        match f.wr i nread with
        | .error err => (s₁, some err)
        | .ok nwritten =>
          let s₂ := { s₁ with
            total := s₁.total + nwritten
            inOff := if explicit then s₁.inOff + nwritten else s₁.inOff
            pos := if f.same then s₁.pos + nwritten else s₁.pos
            sent := s₁.sent ++ data.take nwritten }
          if nwritten < nread then (s₂, none)
          else sendfileLoop explicit (remaining - nwritten) (i + 1) s₂
termination_by remaining

/-- The loop of `sys_copy_file_range`, with the error that it returns with. An offset that is
negative stands for the file position. -/
def copyRangeLoop (remaining i : ℕ) (s : CopyState) : CopyState × Option ℤ :=
  if remaining = 0 then (s, none)
  else
    match f.rd i (min remaining 4096) with
    | .error err => (s, if s.total = 0 then some err else none)
    | .ok nread =>
      if nread = 0 then (s, none)
      else
        let positioned : Bool := 0 ≤ s.inOff && f.hasPread
        let data := bytesAt (src i) (if positioned then s.inOff else s.pos) nread
        let s₁ := { s with
          inOff := if 0 ≤ s.inOff then s.inOff + nread else s.inOff
          pos := if positioned then s.pos else s.pos + nread }
        match f.wr i nread with
        | .error err => (s₁, if s.total = 0 then some err else none)
        | .ok nwritten =>
          if nwritten = 0 then (s₁, none)
          else
            let s₂ := { s₁ with
              total := s₁.total + nwritten
              outOff := if 0 ≤ s₁.outOff then s₁.outOff + nwritten else s₁.outOff
              pos := if f.same && !(0 ≤ s₁.outOff && f.hasPwrite) then s₁.pos + nwritten
                else s₁.pos
              sent := s₁.sent ++ data.take nwritten }
            if nwritten < nread then (s₂, none)
            else copyRangeLoop (remaining - nwritten) (i + 1) s₂
termination_by remaining

def refused (pos : ℤ) (offset : OffsetArg) (err : ℤ) : CopyDone :=
  ⟨guestRet err, [], pos, offset.value⟩

/-- How `sys_sendfile64` ends. An error in the loop returns from it. -/
def sendfileDone (offset : OffsetArg) : CopyState × Option ℤ → CopyDone
  | (s, some err) =>
    ⟨guestRet (if 0 < s.total then s.total else err), s.sent, s.pos, offset.value⟩
  | (s, none) =>
    ⟨guestRet (if offset.canPut then s.total else -14), s.sent, s.pos, offset.put s.inOff⟩

/-- How `sys_copy_file_range` ends. -/
def copyRangeDone (inOff outOff : OffsetArg) : CopyState × Option ℤ → CopyDone
  | (s, some err) => ⟨guestRet err, s.sent, s.pos, inOff.value⟩
  | (s, none) =>
    ⟨guestRet (if inOff.canPut && outOff.canPut then s.total else -14), s.sent, s.pos,
      inOff.put s.inOff⟩

def sysSendfile64 (pos : ℤ) (offset : OffsetArg) (count : BitVec 32) : CopyDone :=
  if f.inOpen = false ∨ f.outOpen = false then refused pos offset (-9)
  else if f.hasRead = false ∧ f.hasPread = false ∨ f.hasWrite = false then refused pos offset (-22)
  else
    match offset with
    | .unreadable => refused pos offset (-14)
    | _ =>
      sendfileDone offset (f.sendfileLoop src offset.value.isSome count.toNat 0
        ⟨0, offset.value.getD (-1), -1, pos, []⟩)

def sysCopyFileRange (pos : ℤ) (inOff outOff : OffsetArg) (len flags : BitVec 32) : CopyDone :=
  if flags ≠ 0 then refused pos inOff (-22)
  else if f.inOpen = false ∨ f.outOpen = false then refused pos inOff (-9)
  else if f.hasRead = false ∧ f.hasPread = false ∨ f.hasWrite = false ∧ f.hasPwrite = false then
    refused pos inOff (-22)
  else
    match inOff, outOff with
    | .unreadable, _ => refused pos inOff (-14)
    | _, .unreadable => refused pos inOff (-14)
    | _, _ =>
      copyRangeDone inOff outOff (f.copyRangeLoop src len.toNat 0
        ⟨0, inOff.value.getD (-1), outOff.value.getD (-1), pos, []⟩)

end CopyFiles

/-! ### What the calls should do -/

/-- The bytes are those of a file from a place on, each as it was at some time. -/
def BytesFrom (src : ℕ → ℤ → UInt8) (start : ℤ) (bytes : List UInt8) : Prop :=
  ∀ (j : ℕ) (b : UInt8), bytes[j]? = some b → ∃ i, b = src i (start + j)

/-- The call returns how much has reached the output, or an error when nothing has; these are the
bytes of the input from its place on, and the place has advanced by as much. -/
structure CopyDone.Exact (src : ℕ → ℤ → UInt8) (pos : ℤ) (offset : OffsetArg) (d : CopyDone) :
    Prop where
  ret : d.ret = d.sent.length ∨ d.ret < 0 ∧ d.sent = []
  bytes : BytesFrom src (offset.value.getD pos) d.sent
  place : d.off.getD d.pos = offset.value.getD pos + d.sent.length

/-! ### The pattern of the answers -/

/-- What the answers come to: the sizes of the chunks that are read and written whole, what is read
and written of the last one, if that is less, and the error, if there is one. -/
structure CopyPattern where
  sizes : List ℕ
  lastRead : ℕ
  lastWritten : ℕ
  err : Option ℤ

namespace CopyPattern

variable (p : CopyPattern)

def cons (size : ℕ) : CopyPattern := { p with sizes := size :: p.sizes }

def read : ℕ := p.sizes.sum + p.lastRead

def written : ℕ := p.sizes.sum + p.lastWritten

def chunks : ℕ := p.sizes.length + if p.lastWritten = 0 then 0 else 1

end CopyPattern

namespace CopyFiles

variable (f : CopyFiles)

def pattern (remaining i : ℕ) : CopyPattern :=
  if remaining = 0 then ⟨[], 0, 0, none⟩
  else
    match f.rd i (min remaining 4096) with
    | .error err => ⟨[], 0, 0, some err⟩
    | .ok nread =>
      if nread = 0 then ⟨[], 0, 0, none⟩
      else
        match f.wr i nread with
        | .error err => ⟨[], nread, 0, some err⟩
        | .ok nwritten =>
          if nwritten < nread then ⟨[], nread, nwritten, none⟩
          else (pattern (remaining - nwritten) (i + 1)).cons nread
termination_by remaining

def countLimit : ℕ := 2 ^ 32 - 4095

/-- The call is refused; or the answers are such that: with an offset, something is written only if
there is no error and the offset can be stored; with the file position, what has been read has been
written, and if the output moves the position too, nothing has been read. -/
def SendfileFits (offset : OffsetArg) (count : BitVec 32) : Prop :=
  f.inOpen = false ∨ f.outOpen = false ∨ f.hasRead = false ∧ f.hasPread = false ∨
    f.hasWrite = false ∨
    match offset with
    | .unreadable => True
    | .given _ writable => f.hasPread = false ∨
        (f.pattern count.toNat 0).written = 0 ∨
        (f.pattern count.toNat 0).err = none ∧ writable = true ∧
          (f.pattern count.toNat 0).written < countLimit
    | .null => (f.pattern count.toNat 0).written < countLimit ∧
        if f.same then (f.pattern count.toNat 0).read = 0
        else (f.pattern count.toNat 0).lastRead = (f.pattern count.toNat 0).lastWritten

def moves (outOff : OffsetArg) : Bool :=
  f.same && !(0 ≤ outOff.value.getD (-1) && f.hasPwrite)

/-- The call is refused; or the answers are such that something is written only if the offsets can
be stored, and: with the file position, what has been read has been written, and if the output moves
the position too, nothing has been read; with a negative offset, nothing is written; with another
offset, what has been read has been written, unless the call ends with an error and stores nothing;
and if the input has no `pread`, the position is at the offset, and only one chunk is written where
the output moves the position. -/
def CopyRangeFits (pos : ℤ) (inOff outOff : OffsetArg) (len flags : BitVec 32) : Prop :=
  flags ≠ 0 ∨ f.inOpen = false ∨ f.outOpen = false ∨ f.hasRead = false ∧ f.hasPread = false ∨
    f.hasWrite = false ∧ f.hasPwrite = false ∨ inOff = .unreadable ∨ outOff = .unreadable ∨
    ((f.pattern len.toNat 0).written = 0 ∨ inOff.canPut = true ∧ outOff.canPut = true ∧
        (f.pattern len.toNat 0).written < countLimit) ∧
      match inOff with
      | .given off writable =>
        if off < 0 then (f.pattern len.toNat 0).written = 0
        else
          ((f.pattern len.toNat 0).lastRead = (f.pattern len.toNat 0).lastWritten ∨
            writable = false ∨
            (f.pattern len.toNat 0).err ≠ none ∧ (f.pattern len.toNat 0).written = 0) ∧
          (f.hasPread = true ∨ (f.pattern len.toNat 0).written = 0 ∨
            pos = off ∧ (f.moves outOff = false ∨ (f.pattern len.toNat 0).chunks ≤ 1))
      | _ =>
        if f.moves outOff then (f.pattern len.toNat 0).read = 0
        else (f.pattern len.toNat 0).lastRead = (f.pattern len.toNat 0).lastWritten

end CopyFiles

end ShellBox
