import ShellBox.Logic.LittleEndian

/-!
# Listing a directory

A call of `getdents` notes the position of the directory before each entry, reads the entry,
and writes a record of it to the buffer of the guest. When an entry does not fit, and at the end
of the directory, it goes back to the position noted last. A failed read and a fault return at
once: what the call has read before is lost to the calls that follow.

`user_write` is a parameter of a call, which says for each record if the buffer takes it.
-/

namespace ShellBox

/-- `struct dir_entry`. The name is a C string of at most `NAME_MAX` bytes. -/
structure DirEntry where
  inode : ℕ
  name : List UInt8
  short : name.length ≤ 255
  noNul : 0 ∉ name

/-- An open directory: `fd->offset`, and what the filesystem keeps for it. -/
structure DirFd (S : Type) where
  offset : ℕ
  dir : S

/-- What the filesystem does with an open directory. The last two are optional. -/
structure DirOps (S : Type) where
  readdir : DirFd S → Except ℤ (Option DirEntry) × DirFd S
  telldir : Option (DirFd S → ℕ)
  seekdir : Option (DirFd S → ℕ → DirFd S)

namespace DirOps

variable {S : Type} (ops : DirOps S) (fd : DirFd S)

def fdTelldir : ℕ :=
  match ops.telldir with
  | some telldir => telldir fd
  | none         => fd.offset

def fdSeekdir (off : ℕ) : DirFd S :=
  match ops.seekdir with
  | some seekdir => seekdir { fd with offset := off } off
  | none         => { fd with offset := off }

def Fails : Prop := ∃ err, (ops.readdir fd).1 = .error err

end DirOps

/-! ### Records -/

/-- The two layouts of a record, `struct linux_dirent_` and `struct linux_dirent64_`. -/
inductive Dirent
  | dirent32 | dirent64
  deriving DecidableEq, Repr

def fillDirent32 (inode offset : ℕ) (name : List UInt8) (type : UInt8) : List UInt8 :=
  bytesLE 4 inode ++ bytesLE 4 offset ++ bytesLE 2 (10 + name.length + 2) ++ name ++ [0, type]

def fillDirent64 (inode offset : ℕ) (name : List UInt8) (type : UInt8) : List UInt8 :=
  bytesLE 8 inode ++ bytesLE 8 offset ++ bytesLE 2 (19 + name.length + 1) ++ [type] ++ name ++ [0]

namespace Dirent

def fill : Dirent → ℕ → ℕ → List UInt8 → UInt8 → List UInt8
  | dirent32 => fillDirent32
  | dirent64 => fillDirent64

def wordSize : Dirent → ℕ
  | dirent32 => 4
  | dirent64 => 8

/-- `offsetof(.., name)`. -/
def nameAt : Dirent → ℕ
  | dirent32 => 10
  | dirent64 => 19

def reclen (d : Dirent) (e : DirEntry) : ℕ :=
  match d with
  | dirent32 => 10 + e.name.length + 2
  | dirent64 => 19 + e.name.length + 1

def readRecord (d : Dirent) (bytes : List UInt8) : ℕ × List UInt8 :=
  (wordLE (bytes.take d.wordSize), (bytes.drop d.nameAt).takeWhile (· ≠ 0))

def readRecords (d : Dirent) : ℕ → List UInt8 → List (ℕ × List UInt8)
  | 0, _ => []
  | fuel + 1, bytes =>
    if bytes = [] then []
    else
      d.readRecord bytes ::
        d.readRecords fuel (bytes.drop (wordLE ((bytes.drop (2 * d.wordSize)).take 2)))

def view (d : Dirent) (e : DirEntry) : ℕ × List UInt8 := (e.inode % 256 ^ d.wordSize, e.name)

lemma reclen_pos (d : Dirent) (e : DirEntry) : 0 < d.reclen e := by
  cases d <;> simp [reclen]

@[simp] lemma length_fill (d : Dirent) (e : DirEntry) (offset : ℕ) (type : UInt8) :
    (d.fill e.inode offset e.name type).length = d.reclen e := by
  cases d <;> simp [fill, fillDirent32, fillDirent64, reclen] <;> omega

lemma takeWhile_name (e : DirEntry) (rest : List UInt8) :
    (e.name ++ 0 :: rest).takeWhile (· ≠ 0) = e.name := by
  rw [List.takeWhile_append_of_pos]
  · simp
  · intro b hb
    have hne : b ≠ 0 := fun h => e.noNul (h ▸ hb)
    simpa using hne

lemma readRecord_fill (d : Dirent) (e : DirEntry) (offset : ℕ) (type : UInt8)
    (rest : List UInt8) :
    d.readRecord (d.fill e.inode offset e.name type ++ rest) = d.view e := by
  cases d with
  | dirent32 =>
    have hname : (fillDirent32 e.inode offset e.name type ++ rest).drop 10 =
        e.name ++ 0 :: type :: rest := by
      rw [fillDirent32, List.append_assoc, List.append_assoc]
      exact List.drop_left' (by simp)
    have hinode : (fillDirent32 e.inode offset e.name type ++ rest).take 4 = bytesLE 4 e.inode := by
      simp [fillDirent32]
    simp only [readRecord, view, fill, wordSize, nameAt]
    rw [hname, hinode, takeWhile_name, wordLE_bytesLE]
  | dirent64 =>
    have hname : (fillDirent64 e.inode offset e.name type ++ rest).drop 19 =
        e.name ++ 0 :: rest := by
      rw [fillDirent64, List.append_assoc, List.append_assoc]
      exact List.drop_left' (by simp)
    have hinode : (fillDirent64 e.inode offset e.name type ++ rest).take 8 = bytesLE 8 e.inode := by
      simp [fillDirent64]
    simp only [readRecord, view, fill, wordSize, nameAt]
    rw [hname, hinode, takeWhile_name, wordLE_bytesLE]

lemma reclen_fill (d : Dirent) (e : DirEntry) (offset : ℕ) (type : UInt8) (rest : List UInt8) :
    wordLE (((d.fill e.inode offset e.name type ++ rest).drop (2 * d.wordSize)).take 2) =
      d.reclen e := by
  have hshort := e.short
  cases d with
  | dirent32 =>
    have hlen : ((fillDirent32 e.inode offset e.name type ++ rest).drop 8).take 2 =
        bytesLE 2 (10 + e.name.length + 2) := by
      simp [fillDirent32, List.drop_append, List.take_append]
    simp only [fill, wordSize, reclen]
    rw [hlen, wordLE_bytesLE, Nat.mod_eq_of_lt (by omega)]
  | dirent64 =>
    have hlen : ((fillDirent64 e.inode offset e.name type ++ rest).drop 16).take 2 =
        bytesLE 2 (19 + e.name.length + 1) := by
      simp [fillDirent64, List.drop_append, List.take_append]
    simp only [fill, wordSize, reclen]
    rw [hlen, wordLE_bytesLE, Nat.mod_eq_of_lt (by omega)]

end Dirent

/-! ### The call -/

/-- The arguments of a call, and which `user_write` of it succeed. The count is a `dword_t`. -/
structure GetdentsCall where
  layout : Dirent
  dirents : ℕ
  count : ℕ
  count_lt : count < 2 ^ 32
  userWrite : ℕ → ℕ → Bool

/-- How the loop ends: it returns an error at once, or goes on behind the loop with what is left
of the count. -/
inductive GetdentsExit
  | returns (err : ℤ)
  | breaks (count : ℕ)

/-- What the loop has done, with the address and the bytes of every `user_write`. -/
structure GetdentsLoop (S : Type) where
  exit : GetdentsExit
  fd : DirFd S
  writes : List (ℕ × List UInt8)

def eFault : ℤ := -14
def eInval : ℤ := -22

variable {S : Type}

/-- The loop of `sys_getdents_common`. The seek behind it is at its two exits here. -/
def getdentsLoop (ops : DirOps S) (c : GetdentsCall) (fd : DirFd S) (dirents count : ℕ) :
    GetdentsLoop S :=
  match ops.readdir fd with
  | (.error err, fd') => ⟨.returns err, fd', []⟩
  | (.ok none, fd') => ⟨.breaks count, ops.fdSeekdir fd' (ops.fdTelldir fd), []⟩
  | (.ok (some entry), fd') =>
    let dirent := c.layout.fill entry.inode (ops.fdTelldir fd') entry.name 0
    if count < dirent.length then ⟨.breaks count, ops.fdSeekdir fd' (ops.fdTelldir fd), []⟩
    else if c.userWrite dirents dirent.length = false then
      ⟨.returns eFault, fd', [(dirents, dirent)]⟩
    else
      let rest := getdentsLoop ops c fd' ((dirents + dirent.length) % 2 ^ 64)
        (count - dirent.length)
      { rest with writes := (dirents, dirent) :: rest.writes }
termination_by count
decreasing_by
  have hpos := c.layout.reclen_pos entry
  have hlen : dirent.length = c.layout.reclen entry := Dirent.length_fill ..
  simp only [Dirent.length_fill]
  omega

/-- What a call returns, an `int_t`, the directory behind it, and what it writes. -/
structure GetdentsResult (S : Type) where
  ret : ℤ
  fd : DirFd S
  writes : List (ℕ × List UInt8)

/-- `sys_getdents_common` on an open directory. -/
def getdentsCommon (ops : DirOps S) (c : GetdentsCall) (fd : DirFd S) : GetdentsResult S :=
  let loop := getdentsLoop ops c fd c.dirents c.count
  match loop.exit with
  | .returns err  => ⟨err, loop.fd, loop.writes⟩
  | .breaks count => ⟨(BitVec.ofNat 32 (c.count - count)).toInt, loop.fd, loop.writes⟩

def GetdentsResult.delivered (c : GetdentsCall) (r : GetdentsResult S) :
    List (Dirent × ℕ × List UInt8) :=
  if 0 ≤ r.ret then
    (c.layout.readRecords (r.writes.flatMap (·.2)).length (r.writes.flatMap (·.2))).map
      (c.layout, ·)
  else []

structure GetdentsStep (S : Type) where
  fd : DirFd S
  call : GetdentsCall
  result : GetdentsResult S

def getdentsRun (ops : DirOps S) : DirFd S → List GetdentsCall → List (GetdentsStep S)
  | _, []       => []
  | fd, c :: cs =>
    ⟨fd, c, getdentsCommon ops c fd⟩ :: getdentsRun ops (getdentsCommon ops c fd).fd cs

def getdentsEnd (ops : DirOps S) : DirFd S → List GetdentsCall → DirFd S
  | fd, []      => fd
  | fd, c :: cs => getdentsEnd ops (getdentsCommon ops c fd).fd cs

end ShellBox
