import Mathlib

/-!
# Guest memory: flags, backing objects and page-table entries

The guest address space has 48-bit addresses and pages of 4096 bytes, so page numbers have
36 bits. A page-table entry names a `struct data`, the reference-counted host memory behind
a whole mapping, and the offset of the page in it.
-/

namespace ShellBox

/-! ### Pages -/

/-- `MEM_PAGES`: one more than the largest page number. -/
def memPages : ℕ := 2 ^ 36

def pageSize : ℕ := 4096

/-- `PAGE(addr)`. -/
def page (addr : ℕ) : ℕ := addr / pageSize

/-- `PGOFFSET(addr)`. -/
def pgoffset (addr : ℕ) : ℕ := addr % pageSize

/-- `PAGE_ROUND_UP(bytes)`, which overflows to zero. -/
def pageRoundUp (bytes : ℕ) : ℕ := page ((bytes + pageSize - 1) % 2 ^ 64)

lemma pgoffset_lt (addr : ℕ) : pgoffset addr < pageSize := Nat.mod_lt _ (by decide)

/-! ### Page flags -/

/-- The flag word of a page-table entry, one field for each `P_` bit. -/
structure Flags where
  read : Bool := false
  write : Bool := false
  exec : Bool := false
  growsdown : Bool := false
  cow : Bool := false
  anonymous : Bool := false
  shared : Bool := false
  code : Bool := false
  deriving DecidableEq, Repr

instance : OrOp Flags where
  or f g :=
    { read := f.read || g.read, write := f.write || g.write, exec := f.exec || g.exec,
      growsdown := f.growsdown || g.growsdown, cow := f.cow || g.cow,
      anonymous := f.anonymous || g.anonymous, shared := f.shared || g.shared,
      code := f.code || g.code }

instance : AndOp Flags where
  and f g :=
    { read := f.read && g.read, write := f.write && g.write, exec := f.exec && g.exec,
      growsdown := f.growsdown && g.growsdown, cow := f.cow && g.cow,
      anonymous := f.anonymous && g.anonymous, shared := f.shared && g.shared,
      code := f.code && g.code }

instance : Complement Flags where
  complement f :=
    { read := !f.read, write := !f.write, exec := !f.exec, growsdown := !f.growsdown,
      cow := !f.cow, anonymous := !f.anonymous, shared := !f.shared, code := !f.code }

section FlagFields

variable (f g : Flags)

@[simp] lemma Flags.read_or : (f ||| g).read = (f.read || g.read) := rfl
@[simp] lemma Flags.write_or : (f ||| g).write = (f.write || g.write) := rfl
@[simp] lemma Flags.exec_or : (f ||| g).exec = (f.exec || g.exec) := rfl
@[simp] lemma Flags.growsdown_or : (f ||| g).growsdown = (f.growsdown || g.growsdown) := rfl
@[simp] lemma Flags.cow_or : (f ||| g).cow = (f.cow || g.cow) := rfl
@[simp] lemma Flags.anonymous_or : (f ||| g).anonymous = (f.anonymous || g.anonymous) := rfl
@[simp] lemma Flags.shared_or : (f ||| g).shared = (f.shared || g.shared) := rfl
@[simp] lemma Flags.code_or : (f ||| g).code = (f.code || g.code) := rfl
@[simp] lemma Flags.read_and : (f &&& g).read = (f.read && g.read) := rfl
@[simp] lemma Flags.write_and : (f &&& g).write = (f.write && g.write) := rfl
@[simp] lemma Flags.exec_and : (f &&& g).exec = (f.exec && g.exec) := rfl
@[simp] lemma Flags.growsdown_and : (f &&& g).growsdown = (f.growsdown && g.growsdown) := rfl
@[simp] lemma Flags.cow_and : (f &&& g).cow = (f.cow && g.cow) := rfl
@[simp] lemma Flags.anonymous_and : (f &&& g).anonymous = (f.anonymous && g.anonymous) := rfl
@[simp] lemma Flags.shared_and : (f &&& g).shared = (f.shared && g.shared) := rfl
@[simp] lemma Flags.code_and : (f &&& g).code = (f.code && g.code) := rfl
@[simp] lemma Flags.read_not : (~~~f).read = !f.read := rfl
@[simp] lemma Flags.write_not : (~~~f).write = !f.write := rfl
@[simp] lemma Flags.exec_not : (~~~f).exec = !f.exec := rfl
@[simp] lemma Flags.growsdown_not : (~~~f).growsdown = !f.growsdown := rfl
@[simp] lemma Flags.cow_not : (~~~f).cow = !f.cow := rfl
@[simp] lemma Flags.anonymous_not : (~~~f).anonymous = !f.anonymous := rfl
@[simp] lemma Flags.shared_not : (~~~f).shared = !f.shared := rfl
@[simp] lemma Flags.code_not : (~~~f).code = !f.code := rfl

end FlagFields

-- The words `P_READ`, `P_WRITE` and so on.
def pRead : Flags := { read := true }
def pWrite : Flags := { write := true }
def pExec : Flags := { exec := true }
def pRwx : Flags := pRead ||| pWrite ||| pExec
def pGrowsdown : Flags := { growsdown := true }
def pCow : Flags := { cow := true }
/-- `P_ANONYMOUS`: the mapping was created with `pt_map_nothing`. -/
def pAnonymous : Flags := { anonymous := true }
/-- `P_SHARED`: the mapping was created with `MAP_SHARED` and is never copied on write. -/
def pShared : Flags := { shared := true }
/-- `P_CODE`: the page holds guest code that has been compiled. -/
def pCode : Flags := { code := true }
/-- `P_META_FLAGS`: what `mprotect` preserves. -/
def pMetaFlags : Flags := pAnonymous ||| pGrowsdown ||| pCow ||| pShared ||| pCode

/-- `P_WRITABLE(flags)`. -/
def Flags.writable (f : Flags) : Bool := f.write && !f.cow

def Flags.isProtNone (f : Flags) : Bool := !f.read && !f.write && !f.exec

/-- Flags that a mapping can be made with: shared memory is never copied on write. -/
def Flags.IsMapFlags (f : Flags) : Prop := f.shared = true → f.cow = false

/-- A protection as `mprotect` takes it: `prot & ~P_RWX` is refused. -/
structure Prot where
  read : Bool
  write : Bool
  exec : Bool
  deriving DecidableEq, Repr

def Prot.flags (prot : Prot) : Flags :=
  { read := prot.read, write := prot.write, exec := prot.exec }

/-! ### Backing objects and entries -/

/-- The number of a `struct data`; numbers are never used again. -/
abbrev DataId := ℕ

/-- `struct data`: the host memory behind one mapping, and how many entries refer to it. -/
structure Data where
  bytes : ℕ → UInt8
  refcount : ℕ

/-- `struct pt_entry`. -/
structure PtEntry where
  data : DataId
  offset : ℕ
  flags : Flags
  deriving DecidableEq, Repr

structure HostPtr where
  data : DataId
  offset : ℕ
  deriving DecidableEq, Repr

inductive Errno where
  | enomem | einval | efault | ebadf | enodev
  deriving DecidableEq, Repr

end ShellBox
