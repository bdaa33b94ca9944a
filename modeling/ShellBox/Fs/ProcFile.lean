import ShellBox.Logic.SignedCount
import ShellBox.Fs.ProcBuffer

/-!
# Reading a procfs file

Every read and every seek prints the contents of the file anew. A read takes a part of them to a
buffer of the kernel; a plain one then seeks forward by what it has read, which prints once more.

The file is compared with one that has nothing but a position: its contents are what is to be
printed, and a read has the part of them from the position on.
-/

namespace ShellBox

open RingBuffer

/-- An open file: the offset, an `unsigned long`, and the buffer, if it has one. -/
structure ProcFd where
  offset : BitVec 64
  data : Option ProcData

/-- What `show` prints this time, and what it returns. -/
structure ProcShow where
  ops : List ProcOp
  ret : ℤ

inductive Whence
  | set | cur | atEnd | other
  deriving DecidableEq, Repr

inductive ProcRet
  | bytes (data : List UInt8)
  | val (v : ℤ)
  deriving DecidableEq

def procEInval : ℤ := -22

/-- `generic_seek`: the new offset. -/
def genericSeek (offset off : BitVec 64) (size : ℕ) : Whence → Except ℤ (BitVec 64)
  | .set   => .ok off
  | .cur   =>
    if offset.toInt + off.toInt < 0 ∨ 2 ^ 63 ≤ offset.toInt + off.toInt then .error procEInval
    else .ok (offset + off)
  | .atEnd =>
    if (BitVec.ofNat 64 size + off).toInt < 0 then .error procEInval
    else .ok (BitVec.ofNat 64 size + off)
  | .other => .error procEInval

/-- The buffer that `show` is called with. -/
def ProcFd.cleared (h : ProcHost) (fd : ProcFd) : ProcData :=
  match fd.data with
  | none   => ⟨h.fresh, 0, 4096⟩
  | some d => { d with size := 0 }

/-- `proc_refresh_data` of a regular file. -/
def procRefreshData (h : ProcHost) (fd : ProcFd) (s : ProcShow) : Option (ProcFd × ProcData) :=
  (procShow h s.ops (fd.cleared h)).map fun d => ({ fd with data := some d }, d)

/-- What a call leaves: the file, what it returns, and what was in the buffer after each time it
was printed to. -/
structure ProcDone where
  fd : ProcFd
  ret : ProcRet
  printed : List (List UInt8)

def procSeek (h : ProcHost) (fd : ProcFd) (s : ProcShow) (off : BitVec 64) (whence : Whence) :
    Option ProcDone :=
  (procRefreshData h fd s).map fun (fd, d) =>
    if s.ret < 0 then ⟨fd, .val s.ret, [d.contents]⟩
    else
      match genericSeek fd.offset off d.size whence with
      | .error err => ⟨fd, .val err, [d.contents]⟩
      | .ok offset => ⟨{ fd with offset := offset }, .val offset.toInt, [d.contents]⟩

/-- The copy of `proc_pread`, which must stay in the buffer. -/
def ProcData.copyOut (d : ProcData) (bufsize : ℕ) (off : BitVec 64) : Option (List UInt8) :=
  let remaining := if d.size < off.toNat then 0 else (BitVec.ofNat 64 d.size - off).toNat
  let n := if remaining < bufsize then remaining else bufsize
  if n ≠ 0 ∧ d.capacity < off.toNat + n then none else some (slice d.data off.toNat n)

def procPread (h : ProcHost) (fd : ProcFd) (s : ProcShow) (bufsize : ℕ) (off : BitVec 64) :
    Option ProcDone :=
  (procRefreshData h fd s).bind fun (fd, d) =>
    if s.ret < 0 then some ⟨fd, .val s.ret, [d.contents]⟩
    else (d.copyOut bufsize off).map fun data => ⟨fd, .bytes data, [d.contents]⟩

/-- `sys_read`: `sys_read_buf`, with the result put into an `int_t`. What the seek returns is not
looked at. -/
def ProcFd.sysRead (h : ProcHost) (fd : ProcFd) (s s' : ProcShow) (size : BitVec 32) :
    Option ProcDone :=
  (procPread h fd s size.toNat fd.offset).bind fun done =>
    match done.ret with
    | .val _      => some done
    | .bytes data =>
      let res := (BitVec.ofNat 32 data.length).toInt
      let ret := if res < 0 then .val res else .bytes data
      if data = [] then some { done with ret := ret }
      else
        (procSeek h done.fd s' (BitVec.ofNat 64 data.length) .cur).map fun moved =>
          ⟨moved.fd, ret, done.printed ++ moved.printed⟩

/-- `sys_pread`, whose buffer has room for a zero behind the bytes: `size + 1` is a `dword_t`. -/
def ProcFd.sysPread (h : ProcHost) (fd : ProcFd) (s : ProcShow) (size : BitVec 32)
    (off : BitVec 64) : Option ProcDone :=
  (procPread h fd s size.toNat off).bind fun done =>
    match done.ret with
    | .val _      => some done
    | .bytes data => if data.length < (size + 1).toNat then some done else none

/-- A call, and what `show` prints each time it is called. -/
inductive ProcAct
  | read (size : BitVec 32) (s s' : ProcShow)
  | pread (size : BitVec 32) (off : BitVec 64) (s : ProcShow)
  | seek (off : BitVec 64) (whence : Whence) (s : ProcShow)

def procStep (h : ProcHost) (fd : ProcFd) : ProcAct → Option ProcDone
  | .read size s s'     => ProcFd.sysRead h fd s s' size
  | .pread size off s   => ProcFd.sysPread h fd s size off
  | .seek off whence s  => procSeek h fd s off whence

/-- What can be seen of a call: the position behind it, what it returns, and what was printed. -/
structure ProcSeen where
  offset : BitVec 64
  ret : ProcRet
  printed : List (List UInt8)

def ProcDone.seen (done : ProcDone) : ProcSeen := ⟨done.fd.offset, done.ret, done.printed⟩

def procRun (h : ProcHost) : ProcFd → List ProcAct → Option (List ProcSeen)
  | _, []       => some []
  | fd, a :: as =>
    (procStep h fd a).bind fun done => (procRun h done.fd as).map (done.seen :: ·)

/-! ### The file as it should be -/

def textAt (s : ProcShow) (off : BitVec 64) (size : ℕ) : List UInt8 :=
  ((opsText s.ops).drop off.toNat).take size

def ProcAct.spec (offset : BitVec 64) : ProcAct → ProcSeen
  | .read size s s' =>
    if s.ret < 0 then ⟨offset, .val s.ret, [opsText s.ops]⟩
    else if textAt s offset size.toNat = [] then ⟨offset, .bytes [], [opsText s.ops]⟩
    else
      ⟨if s'.ret < 0 then offset else offset + BitVec.ofNat 64 (textAt s offset size.toNat).length,
        .bytes (textAt s offset size.toNat), [opsText s.ops, opsText s'.ops]⟩
  | .pread size off s =>
    ⟨offset, if s.ret < 0 then .val s.ret else .bytes (textAt s off size.toNat), [opsText s.ops]⟩
  | .seek off whence s =>
    if s.ret < 0 then ⟨offset, .val s.ret, [opsText s.ops]⟩
    else
      match genericSeek offset off (opsText s.ops).length whence with
      | .error err  => ⟨offset, .val err, [opsText s.ops]⟩
      | .ok offset' => ⟨offset', .val offset'.toInt, [opsText s.ops]⟩

def specRun : BitVec 64 → List ProcAct → List ProcSeen
  | _, []           => []
  | offset, a :: as => a.spec offset :: specRun (a.spec offset).offset as

/-! ### When it is -/

/-- What `show` prints fits. -/
def ProcShow.Fits (h : ProcHost) (s : ProcShow) (capacity : ℕ) : Prop := OpsFit h 0 capacity s.ops

/-- The capacity behind a call of `show`. -/
def ProcShow.capacity (s : ProcShow) (capacity : ℕ) : ℕ := opsCapacity 0 capacity s.ops

namespace ProcAct

/-- What `show` prints when a call calls it first. -/
def first : ProcAct → ProcShow
  | read _ s _  => s
  | pread _ _ s => s
  | seek _ _ s  => s

/-- A call is exact: what it prints fits, a plain read does not have `2 ^ 31` bytes or more, and a
positioned one does not ask for `2 ^ 32 - 1` bytes, unless it fails. -/
def Fits (h : ProcHost) (capacity : ℕ) (offset : BitVec 64) : ProcAct → Prop
  | read size s s' =>
    s.Fits h capacity ∧ (0 ≤ s.ret → (textAt s offset size.toNat).length < 2 ^ 31 ∧
      (textAt s offset size.toNat ≠ [] → s'.Fits h (s.capacity capacity)))
  | pread size _ s => s.Fits h capacity ∧ (0 ≤ s.ret → size.toNat ≠ 2 ^ 32 - 1)
  | seek _ _ s     => s.Fits h capacity

def capacity (capacity : ℕ) (offset : BitVec 64) : ProcAct → ℕ
  | read size s s' =>
    if 0 ≤ s.ret ∧ textAt s offset size.toNat ≠ [] then s'.capacity (s.capacity capacity)
    else s.capacity capacity
  | pread _ _ s => s.capacity capacity
  | seek _ _ s  => s.capacity capacity

end ProcAct

def RunFits (h : ProcHost) : ℕ → BitVec 64 → List ProcAct → Prop
  | _, _, [] => True
  | capacity, offset, a :: as =>
    a.Fits h capacity offset ∧ RunFits h (a.capacity capacity offset) (a.spec offset).offset as

/-! ### One call -/

namespace ProcFd

def Valid (fd : ProcFd) : Prop := ∀ d, fd.data = some d → d.capacity ≤ 2 ^ 47

def capacity (fd : ProcFd) : ℕ :=
  match fd.data with
  | none   => 4096
  | some d => d.capacity

variable {h : ProcHost} {fd fd' : ProcFd} {s : ProcShow} {d : ProcData}

lemma cleared_size (h : ProcHost) (fd : ProcFd) : (fd.cleared h).size = 0 := by
  rw [cleared]
  cases fd.data <;> rfl

lemma cleared_capacity (h : ProcHost) (fd : ProcFd) : (fd.cleared h).capacity = fd.capacity := by
  rw [cleared, capacity]
  cases fd.data <;> rfl

lemma cleared_contents (h : ProcHost) (fd : ProcFd) : (fd.cleared h).contents = [] := by
  rw [ProcData.contents, cleared_size]
  rfl

lemma cleared_valid (hfd : fd.Valid) : (fd.cleared h).Valid := by
  refine ⟨by rw [cleared_size]; exact Nat.zero_le _, ?_⟩
  rw [cleared]
  cases hdata : fd.data with
  | none => exact (by decide : 4096 ≤ 2 ^ 47)
  | some d => exact hfd d hdata

lemma refresh_fits (hfd : fd.Valid) (hfit : s.Fits h fd.capacity) :
    ∃ d, procRefreshData h fd s = some ({ fd with data := some d }, d) ∧ d.Valid ∧
      d.contents = opsText s.ops ∧ d.capacity = s.capacity fd.capacity := by
  rw [ProcShow.Fits, ← cleared_capacity h fd, ← cleared_size h fd] at hfit
  obtain ⟨d, hd, hvalid, hcontents, hcap⟩ := procShow_of_fit (cleared_valid hfd) hfit
  refine ⟨d, by rw [procRefreshData, hd, Option.map_some], hvalid, ?_, ?_⟩
  · rw [hcontents, cleared_contents, List.nil_append]
  · rw [hcap, cleared_size, cleared_capacity, ProcShow.capacity]

lemma refresh_unfit (hfd : fd.Valid) (hfit : ¬ s.Fits h fd.capacity)
    (hrun : procRefreshData h fd s = some (fd', d)) : d.contents ≠ opsText s.ops := by
  rw [ProcShow.Fits, ← cleared_capacity h fd, ← cleared_size h fd,
    ← procShow_iff (cleared_valid hfd)] at hfit
  rw [procRefreshData, Option.map_eq_some_iff] at hrun
  obtain ⟨d', hd', heq⟩ := hrun
  cases heq
  intro hcontents
  exact hfit ⟨d, hd', by rw [cleared_contents, List.nil_append, hcontents]⟩

end ProcFd

lemma ProcData.length_contents (d : ProcData) : d.contents.length = d.size := by
  simp [contents]

lemma ProcData.copyOut_eq {d : ProcData} (hd : d.Valid) (n : ℕ) (off : BitVec 64) :
    d.copyOut n off = some ((d.contents.drop off.toNat).take n) := by
  have hsize := hd.size
  have hcap := hd.capacity
  have hoff := off.isLt
  have htake : ∀ m, off.toNat + m ≤ d.size →
      slice d.data off.toNat m = (d.contents.drop off.toNat).take m := by
    intro m hm
    refine List.ext_getElem (by simp [length_contents]; omega) fun i hi _ => ?_
    simp [slice, contents]
  simp only [copyOut]
  by_cases hbeyond : d.size < off.toNat
  · have hdrop : d.contents.drop off.toNat = [] :=
      List.drop_eq_nil_of_le (by rw [length_contents]; omega)
    have hnone : (if 0 < n then 0 else n) = 0 := by split_ifs <;> omega
    rw [if_pos hbeyond, hdrop, List.take_nil, hnone, if_neg (by simp)]
    rfl
  · have hremaining : (BitVec.ofNat 64 d.size - off).toNat = d.size - off.toNat := by
      rw [BitVec.toNat_sub_of_le, BitVec.toNat_ofNat, Nat.mod_eq_of_lt (by omega)]
      rw [BitVec.le_def, BitVec.toNat_ofNat, Nat.mod_eq_of_lt (by omega)]
      omega
    rw [if_neg hbeyond, hremaining]
    by_cases hmore : d.size - off.toNat < n
    · rw [if_pos hmore, if_neg (by omega), htake _ (by omega)]
      rw [List.take_of_length_le (by rw [List.length_drop, length_contents]),
        List.take_of_length_le (by rw [List.length_drop, length_contents]; omega)]
    · rw [if_neg hmore, if_neg (by omega), htake _ (by omega)]

section Step

variable {h : ProcHost} {fd : ProcFd} {s : ProcShow} {done : ProcDone}

lemma valid_of_data {d : ProcData} (hd : d.Valid) (offset : BitVec 64) :
    (⟨offset, some d⟩ : ProcFd).Valid := by
  intro d' hd'
  obtain rfl := Option.some.inj hd'
  exact hd.capacity

lemma procSeek_fits (hfd : fd.Valid) (hfit : s.Fits h fd.capacity) (off : BitVec 64)
    (whence : Whence) :
    ∃ done, procSeek h fd s off whence = some done ∧
      done.seen = (ProcAct.seek off whence s).spec fd.offset ∧ done.fd.Valid ∧
      done.fd.capacity = s.capacity fd.capacity := by
  obtain ⟨d, hd, hvalid, hcontents, hcap⟩ := ProcFd.refresh_fits hfd hfit
  have hsize : d.size = (opsText s.ops).length := by rw [← hcontents, d.length_contents]
  rw [procSeek, hd, Option.map_some]
  refine ⟨_, rfl, ?_, ?_, ?_⟩
  · simp only [ProcAct.spec, hsize, hcontents]
    split_ifs
    · rfl
    · cases genericSeek fd.offset off (opsText s.ops).length whence <;> rfl
  · simp only
    split_ifs
    · exact valid_of_data hvalid _
    · cases genericSeek fd.offset off d.size whence <;> exact valid_of_data hvalid _
  · simp only
    split_ifs
    · exact hcap
    · cases genericSeek fd.offset off d.size whence <;> exact hcap

lemma procSeek_printed {off : BitVec 64} {whence : Whence}
    (hrun : procSeek h fd s off whence = some done) :
    ∃ fd' d, procRefreshData h fd s = some (fd', d) ∧ done.printed = [d.contents] := by
  rw [procSeek, Option.map_eq_some_iff] at hrun
  obtain ⟨⟨fd', d⟩, hd, rfl⟩ := hrun
  refine ⟨fd', d, hd, ?_⟩
  simp only
  split_ifs
  · rfl
  · cases genericSeek fd'.offset off d.size whence <;> rfl

lemma procPread_fits (hfd : fd.Valid) (hfit : s.Fits h fd.capacity) (n : ℕ) (off : BitVec 64) :
    ∃ d, d.Valid ∧ d.capacity = s.capacity fd.capacity ∧
      procPread h fd s n off = some ⟨{ fd with data := some d },
        if s.ret < 0 then .val s.ret else .bytes (textAt s off n), [opsText s.ops]⟩ := by
  obtain ⟨d, hd, hvalid, hcontents, hcap⟩ := ProcFd.refresh_fits hfd hfit
  refine ⟨d, hvalid, hcap, ?_⟩
  rw [procPread, hd, Option.bind_some]
  simp only [d.copyOut_eq hvalid, Option.map_some, hcontents]
  split_ifs <;> rfl

lemma procPread_printed {n : ℕ} {off : BitVec 64} (hrun : procPread h fd s n off = some done) :
    ∃ fd' d, procRefreshData h fd s = some (fd', d) ∧ done.printed = [d.contents] := by
  rw [procPread, Option.bind_eq_some_iff] at hrun
  obtain ⟨⟨fd', d⟩, hd, hrun⟩ := hrun
  refine ⟨fd', d, hd, ?_⟩
  simp only at hrun
  split_ifs at hrun
  · cases hrun
    rfl
  · rw [Option.map_eq_some_iff] at hrun
    obtain ⟨data, -, rfl⟩ := hrun
    rfl

lemma length_textAt_le (s : ProcShow) (off : BitVec 64) (n : ℕ) :
    (textAt s off n).length ≤ n ∧ (textAt s off n).length ≤ (opsText s.ops).length - off.toNat := by
  simp [textAt]

lemma length_opsText_le (hfd : fd.Valid) (hfit : s.Fits h fd.capacity) :
    (opsText s.ops).length ≤ 2 ^ 47 := by
  obtain ⟨d, -, hvalid, hcontents, -⟩ := ProcFd.refresh_fits hfd hfit
  rw [← hcontents, d.length_contents]
  exact hvalid.size.trans hvalid.capacity

lemma genericSeek_cur {offset : BitVec 64} {n size : ℕ} (hoff : offset.toNat ≤ 2 ^ 47)
    (hn : n ≤ 2 ^ 47) :
    genericSeek offset (BitVec.ofNat 64 n) size .cur = .ok (offset + BitVec.ofNat 64 n) := by
  have hint : offset.toInt = offset.toNat := by
    rw [BitVec.toInt_eq_toNat_cond, if_pos (by omega)]
  have hint' : (BitVec.ofNat 64 n).toInt = n := toInt_ofNat_of_lt (by omega)
  rw [genericSeek, if_neg (by rw [hint, hint']; omega)]

lemma read_ret {data : List UInt8} (hlt : data.length < 2 ^ 32) :
    (if (BitVec.ofNat 32 data.length).toInt < 0 then
      ProcRet.val (BitVec.ofNat 32 data.length).toInt else .bytes data) = .bytes data ↔
      data.length < 2 ^ 31 := by
  have hiff := toInt_ofNat_nonneg_iff hlt
  split_ifs with hneg
  · refine iff_of_false (by simp) fun hsmall => ?_
    have := hiff.mpr (by omega)
    omega
  · exact iff_of_true rfl (by have := hiff.mp (by omega); omega)

lemma sysRead_fits {s' : ProcShow} {size : BitVec 32} (hfd : fd.Valid)
    (hfit : (ProcAct.read size s s').Fits h fd.capacity fd.offset) :
    ∃ done, ProcFd.sysRead h fd s s' size = some done ∧
      done.seen = (ProcAct.read size s s').spec fd.offset ∧ done.fd.Valid ∧
      done.fd.capacity = (ProcAct.read size s s').capacity fd.capacity fd.offset := by
  obtain ⟨hs, hmore⟩ := hfit
  obtain ⟨d, hvalid, hcap, hread⟩ := procPread_fits hfd hs size.toNat fd.offset
  rw [ProcFd.sysRead, hread, Option.bind_some]
  by_cases hret : s.ret < 0
  · have hspec : (ProcAct.read size s s').spec fd.offset =
        ⟨fd.offset, .val s.ret, [opsText s.ops]⟩ := if_pos hret
    have hcapacity : (ProcAct.read size s s').capacity fd.capacity fd.offset =
        s.capacity fd.capacity := if_neg fun h => absurd h.1 (by omega)
    simp only [if_pos hret]
    exact ⟨_, rfl, hspec.symm, valid_of_data hvalid _, hcap.trans hcapacity.symm⟩
  obtain ⟨hsmall, hnext⟩ := hmore (by omega)
  simp only [if_neg hret]
  rw [(read_ret (by omega)).mpr hsmall]
  by_cases hnil : textAt s fd.offset size.toNat = []
  · have hspec : (ProcAct.read size s s').spec fd.offset =
        ⟨fd.offset, .bytes [], [opsText s.ops]⟩ := by
      rw [ProcAct.spec, if_neg hret, if_pos hnil]
    have hcapacity : (ProcAct.read size s s').capacity fd.capacity fd.offset =
        s.capacity fd.capacity := if_neg fun h => h.2 hnil
    rw [if_pos hnil, hnil]
    exact ⟨_, rfl, hspec.symm, valid_of_data hvalid _, hcap.trans hcapacity.symm⟩
  have hspec : (ProcAct.read size s s').spec fd.offset =
      ⟨if s'.ret < 0 then fd.offset
        else fd.offset + BitVec.ofNat 64 (textAt s fd.offset size.toNat).length,
        .bytes (textAt s fd.offset size.toNat), [opsText s.ops, opsText s'.ops]⟩ := by
    rw [ProcAct.spec, if_neg hret, if_neg hnil]
  have hcapacity : (ProcAct.read size s s').capacity fd.capacity fd.offset =
      s'.capacity (s.capacity fd.capacity) := if_pos ⟨by omega, hnil⟩
  have hlen := length_textAt_le s fd.offset size.toNat
  have hpos : 0 < (textAt s fd.offset size.toNat).length := List.length_pos_iff.mpr hnil
  have htext := length_opsText_le hfd hs
  obtain ⟨moved, hmoved, hseen, hvalid', hcap'⟩ := procSeek_fits
    (valid_of_data hvalid fd.offset) (s := s')
    (show s'.Fits h d.capacity from hcap ▸ hnext hnil)
    (BitVec.ofNat 64 (textAt s fd.offset size.toNat).length) .cur
  rw [if_neg hnil, hmoved, Option.map_some]
  refine ⟨_, rfl, ?_, hvalid', hcap'.trans ((congrArg s'.capacity hcap).trans hcapacity.symm)⟩
  rw [ProcAct.spec] at hseen
  simp only [@genericSeek_cur _ _ (opsText s'.ops).length
    (show fd.offset.toNat ≤ 2 ^ 47 by omega)
    (show (textAt s fd.offset size.toNat).length ≤ 2 ^ 47 by omega)] at hseen
  have hoffset := congrArg ProcSeen.offset hseen
  have hprinted := congrArg ProcSeen.printed hseen
  simp only [ProcDone.seen] at hoffset hprinted ⊢
  rw [hspec, hoffset, hprinted]
  by_cases hret' : s'.ret < 0
  · simp only [if_pos hret']
    rfl
  · simp only [if_neg hret']
    rfl

lemma sysPread_fits {size : BitVec 32} (hfd : fd.Valid) (off : BitVec 64)
    (hfit : (ProcAct.pread size off s).Fits h fd.capacity fd.offset) :
    ∃ done, ProcFd.sysPread h fd s size off = some done ∧
      done.seen = (ProcAct.pread size off s).spec fd.offset ∧ done.fd.Valid ∧
      done.fd.capacity = (ProcAct.pread size off s).capacity fd.capacity fd.offset := by
  obtain ⟨hs, hmore⟩ := hfit
  obtain ⟨d, hvalid, hcap, hread⟩ := procPread_fits hfd hs size.toNat off
  rw [ProcFd.sysPread, hread, Option.bind_some]
  simp only [ProcAct.spec, ProcAct.capacity]
  by_cases hret : s.ret < 0
  · simp only [if_pos hret]
    exact ⟨_, rfl, rfl, valid_of_data hvalid _, hcap⟩
  · have hsize := hmore (by omega)
    have hlen := (length_textAt_le s off size.toNat).1
    have hroom : (size + 1).toNat = size.toNat + 1 := by
      have hlt := size.isLt
      rw [BitVec.toNat_add, show (1 : BitVec 32).toNat = 1 from rfl, Nat.mod_eq_of_lt (by omega)]
    simp only [if_neg hret]
    rw [if_pos (by omega)]
    exact ⟨_, rfl, rfl, valid_of_data hvalid _, hcap⟩

lemma procStep_fits (hfd : fd.Valid) {a : ProcAct} (hfit : a.Fits h fd.capacity fd.offset) :
    ∃ done, procStep h fd a = some done ∧ done.seen = a.spec fd.offset ∧ done.fd.Valid ∧
      done.fd.capacity = a.capacity fd.capacity fd.offset := by
  cases a with
  | read size s s' => exact sysRead_fits hfd hfit
  | pread size off s => exact sysPread_fits hfd off hfit
  | seek off whence s => exact procSeek_fits hfd hfit off whence

lemma procStep_printed {a : ProcAct} (hrun : procStep h fd a = some done) :
    ∃ fd' d, procRefreshData h fd a.first = some (fd', d) ∧
      done.printed.head? = some d.contents := by
  cases a with
  | read size s s' =>
    rw [procStep, ProcFd.sysRead, Option.bind_eq_some_iff] at hrun
    obtain ⟨done', hread, hrun⟩ := hrun
    obtain ⟨fd', d, hd, hprinted⟩ := procPread_printed hread
    refine ⟨fd', d, hd, ?_⟩
    split at hrun
    · cases hrun
      rw [hprinted, List.head?_cons]
    · next data hdata =>
      simp only at hrun
      by_cases hnil : data = []
      · rw [if_pos hnil] at hrun
        cases hrun
        rw [hprinted, List.head?_cons]
      · rw [if_neg hnil, Option.map_eq_some_iff] at hrun
        obtain ⟨moved, -, rfl⟩ := hrun
        simp only [hprinted, List.cons_append, List.head?_cons]
  | pread size off s =>
    rw [procStep, ProcFd.sysPread, Option.bind_eq_some_iff] at hrun
    obtain ⟨done', hread, hrun⟩ := hrun
    obtain ⟨fd', d, hd, hprinted⟩ := procPread_printed hread
    refine ⟨fd', d, hd, ?_⟩
    split at hrun
    · cases hrun
      rw [hprinted, List.head?_cons]
    · split_ifs at hrun
      cases hrun
      rw [hprinted, List.head?_cons]
  | seek off whence s =>
    obtain ⟨fd', d, hd, hprinted⟩ := procSeek_printed hrun
    exact ⟨fd', d, hd, by rw [hprinted, List.head?_cons]⟩

lemma spec_printed (a : ProcAct) (offset : BitVec 64) :
    (a.spec offset).printed.head? = some (opsText a.first.ops) := by
  cases a with
  | read size s s' =>
    simp only [ProcAct.spec, ProcAct.first]
    split_ifs <;> rfl
  | pread size off s => rfl
  | seek off whence s =>
    simp only [ProcAct.spec, ProcAct.first]
    split_ifs
    · rfl
    · cases genericSeek offset off (opsText s.ops).length whence <;> rfl

lemma sysRead_unfit {s' : ProcShow} {size : BitVec 32} (hfd : fd.Valid)
    (hs : s.Fits h fd.capacity)
    (hfit : ¬ (ProcAct.read size s s').Fits h fd.capacity fd.offset)
    (hrun : ProcFd.sysRead h fd s s' size = some done) :
    done.seen ≠ (ProcAct.read size s s').spec fd.offset := by
  have hret : ¬ s.ret < 0 := fun hneg => hfit ⟨hs, fun hret => absurd hret (by omega)⟩
  obtain ⟨d, hvalid, hcap, hread⟩ := procPread_fits hfd hs size.toNat fd.offset
  have hlen := length_textAt_le s fd.offset size.toNat
  have hsize := size.isLt
  rw [ProcFd.sysRead, hread, Option.bind_some] at hrun
  simp only [if_neg hret] at hrun
  intro hseen
  by_cases hnil : textAt s fd.offset size.toNat = []
  · exact hfit ⟨hs, fun _ => ⟨by rw [hnil]; decide, fun hne => absurd hnil hne⟩⟩
  have hbytes : ((ProcAct.read size s s').spec fd.offset).ret =
      .bytes (textAt s fd.offset size.toNat) := by
    rw [ProcAct.spec, if_neg hret, if_neg hnil]
  rw [← hseen] at hbytes
  rw [if_neg hnil, Option.map_eq_some_iff] at hrun
  obtain ⟨moved, hmoved, rfl⟩ := hrun
  have hsmall := (read_ret (by omega)).mp hbytes
  have hs' : ¬ s'.Fits h d.capacity := by
    rw [hcap]
    exact fun hs' => hfit ⟨hs, fun _ => ⟨hsmall, fun _ => hs'⟩⟩
  obtain ⟨fd', d', hd', hprinted⟩ := procSeek_printed hmoved
  refine ProcFd.refresh_unfit (valid_of_data hvalid fd.offset) hs' hd' ?_
  have hboth := congrArg ProcSeen.printed hseen
  rw [ProcAct.spec, if_neg hret, if_neg hnil] at hboth
  simp only [ProcDone.seen, hprinted, List.cons_append, List.nil_append, List.cons.injEq,
    true_and, and_true] at hboth
  exact hboth

lemma procStep_unfit (hfd : fd.Valid) {a : ProcAct} (hfit : ¬ a.Fits h fd.capacity fd.offset)
    (hrun : procStep h fd a = some done) : done.seen ≠ a.spec fd.offset := by
  by_cases hfirst : a.first.Fits h fd.capacity
  · cases a with
    | read size s s' => exact sysRead_unfit hfd hfirst hfit hrun
    | pread size off s =>
      -- the buffer has no room for the zero
      obtain ⟨hret, hsize⟩ : 0 ≤ s.ret ∧ size.toNat = 2 ^ 32 - 1 := by
        by_contra hno
        exact hfit ⟨hfirst, fun hret hsize => hno ⟨hret, hsize⟩⟩
      obtain ⟨d, -, -, hread⟩ := procPread_fits hfd (s := s) hfirst size.toNat off
      rw [procStep, ProcFd.sysPread, hread, Option.bind_some] at hrun
      have hzero : (size + 1).toNat = 0 := by
        rw [BitVec.toNat_add, hsize]
        rfl
      simp only [if_neg (show ¬ s.ret < 0 by omega), hzero, Nat.not_lt_zero, if_false] at hrun
      cases hrun
    | seek off whence s => exact absurd hfirst hfit
  · intro hseen
    obtain ⟨fd', d, hd, hprinted⟩ := procStep_printed hrun
    refine ProcFd.refresh_unfit hfd hfirst hd (Option.some.inj ?_)
    rw [← hprinted, ← spec_printed a fd.offset, ← hseen]
    rfl

/-! ### Runs -/

lemma procRun_iff_of_valid (hfd : fd.Valid) (acts : List ProcAct) :
    procRun h fd acts = some (specRun fd.offset acts) ↔
      RunFits h fd.capacity fd.offset acts := by
  induction acts generalizing fd with
  | nil => exact iff_of_true rfl trivial
  | cons a as ih =>
    rw [procRun, specRun, RunFits]
    by_cases hfit : a.Fits h fd.capacity fd.offset
    · obtain ⟨done, hdone, hseen, hvalid, hcap⟩ := procStep_fits hfd hfit
      have hoffset : done.fd.offset = (a.spec fd.offset).offset := congrArg ProcSeen.offset hseen
      rw [hdone, Option.bind_some, ← hcap, ← hoffset, ← ih hvalid, hseen]
      simp only [hfit, true_and, Option.map_eq_some_iff, List.cons.injEq, exists_eq_right]
    · refine iff_of_false (fun hrun => ?_) fun hfits => hfit hfits.1
      rw [Option.bind_eq_some_iff] at hrun
      obtain ⟨done, hdone, hrun⟩ := hrun
      rw [Option.map_eq_some_iff] at hrun
      obtain ⟨seen, -, heq⟩ := hrun
      exact procStep_unfit hfd hfit hdone (List.cons.inj heq).1

end Step

def procOpened (offset : BitVec 64) : ProcFd := ⟨offset, none⟩

lemma procOpened_valid (offset : BitVec 64) : (procOpened offset).Valid := by
  intro d hd
  cases hd

/-- A run of calls on a file is what it should be if and only if all calls fit. -/
theorem procRun_iff (h : ProcHost) (offset : BitVec 64) (acts : List ProcAct) :
    procRun h (procOpened offset) acts = some (specRun offset acts) ↔
      RunFits h 4096 offset acts :=
  @procRun_iff_of_valid h (procOpened offset) (procOpened_valid offset) acts

def plentyHost : ProcHost where
  alloc n := n ≤ 2 ^ 47
  grants n hn := of_decide_eq_true hn
  page n hn := decide_eq_true (by omega)
  fresh _ := 0
  stack _ := 0

/-- A line of 4100 bytes is printed with four bytes of the stack, or not at all. -/
theorem procRun_fails : ¬ ∀ (h : ProcHost) (offset : BitVec 64) (acts : List ProcAct),
    procRun h (procOpened offset) acts = some (specRun offset acts) := by
  intro hall
  have hnoNul : (0 : UInt8) ∉ List.replicate 4100 97 := fun hmem =>
    absurd (List.eq_of_mem_replicate hmem) (by decide)
  have hrun := hall plentyHost 0 [.seek 0 .set ⟨[.printf (List.replicate 4100 97) hnoNul], 0⟩]
  have hfits := (procRun_iff_of_valid (procOpened_valid 0) _).mp hrun
  have hshort : (List.replicate 4100 (97 : UInt8)).length < 4096 := hfits.1.1.1
  rw [List.length_replicate] at hshort
  omega

end ShellBox
