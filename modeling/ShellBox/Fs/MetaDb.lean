import ShellBox.Fs.Path
import ShellBox.Logic.FinMap
import ShellBox.Logic.PrefixRange

/-!
# The metadata database

`meta.db` has a table of paths with their inode numbers and a table of what `stat` answers for
an inode. Statements are taken to succeed; a transaction is one step, and `rollback` gives back
the database from before `begin`.
-/

namespace ShellBox

open Function

/-- `struct ish_stat`. -/
structure IshStat where
  mode : ℕ
  uid : ℕ
  gid : ℕ
  rdev : ℕ
  deriving DecidableEq

/-- `struct fakefs_db`, as its two tables. -/
@[ext] structure MetaDb where
  paths : FinMap CString ℕ
  stats : FinMap ℕ IshStat

/-- The condition `(path >= src/ and path < src0) or path = src`. -/
def pathRange (src path : CString) : Prop :=
  (¬ path < src ++ ['/'] ∧ path < src ++ ['0']) ∨ path = src

lemma nextLetter_char : NextLetter '/' '0' where
  irrefl := by decide
  lt := by decide
  between c h h' := by
    have h1 : ¬ c.toNat < '/'.toNat := h
    have h2 : c.toNat < '0'.toNat := h'
    have h3 : '/'.toNat = 47 := rfl
    have h4 : '0'.toNat = 48 := rfl
    exact Char.toNat_inj.1 (by omega)

/-- The range is the tree of a path. -/
theorem pathRange_iff {src path : CString} :
    pathRange src path ↔ (tailOf '/' src path).isSome :=
  prefixRange_or_self (fun c => Nat.lt_irrefl c.toNat) nextLetter_char

namespace MetaDb

/-- `inode integer references stats(inode)`. -/
def ForeignKey (db : MetaDb) : Prop :=
  ∀ path inode, db.paths path = some inode → (db.stats inode).isSome

/-- `path_get_inode`; zero if there is no row. -/
def pathGetInode (db : MetaDb) (path : CString) : ℕ := (db.paths path).getD 0

def pathReadStat (db : MetaDb) (path : CString) : Option (ℕ × IshStat) := do
  let inode ← db.paths path
  let stat ← db.stats inode
  some (inode, stat)

def pathCreate (db : MetaDb) (path : CString) (stat : IshStat) : MetaDb :=
  { paths := db.paths.set path db.stats.nextKey, stats := db.stats.set db.stats.nextKey stat }

/-- `inode_read_stat_if_exist`. -/
def inodeReadStat (db : MetaDb) (inode : ℕ) : Option IshStat := db.stats inode

def inodeWriteStat (db : MetaDb) (inode : ℕ) (stat : IshStat) : MetaDb :=
  if (db.stats inode).isSome then { db with stats := db.stats.set inode stat } else db

/-- `path_link`; without a row at `src` the program is aborted. -/
def pathLink (db : MetaDb) (src dst : CString) : Option MetaDb :=
  let inode := db.pathGetInode src
  if inode = 0 then none else some { db with paths := db.paths.set dst inode }

def pathUnlink (db : MetaDb) (path : CString) : ℕ × MetaDb :=
  let inode := db.pathGetInode path
  if inode = 0 then (0, db) else (inode, { db with paths := db.paths.erase path })

/-- `path_rename`: the rows in the range of `src` get a new prefix and replace the rows they
collide with. -/
def pathRename (db : MetaDb) (src dst : CString) : MetaDb :=
  { db with paths := db.paths.moveTree '/' src dst }

def pathDeleteTree (db : MetaDb) (path : CString) : MetaDb :=
  { db with paths := db.paths.deleteTree '/' path }

/-- The statement `try_cleanup_inode`. -/
def tryCleanupInode (db : MetaDb) (inode : ℕ) : MetaDb :=
  if db.paths.HasValue inode then db else { db with stats := db.stats.erase inode }

end MetaDb

end ShellBox
