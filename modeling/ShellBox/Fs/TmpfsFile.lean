import ShellBox.Util.Fifo

/-!
# The bytes of a tmpfs file

A regular file of tmpfs keeps its bytes in one piece of memory of just its size, which a write past
the end has enlarged first. Sizes and offsets are words of 64 bits, and a seek to a number from the
start takes any.

An access outside of the file's memory has no result.
-/

namespace ShellBox

open Function

/-- A file, and `fd->offset` of its descriptors. -/
structure TmpFile where
  data : List UInt8
  offset : ℕ → ℕ

def tmpEnomem : ℤ := -12
def tmpEinval : ℤ := -22

/-- The value of a word as an `off_t`. -/
def offT (n : ℕ) : ℤ := (n : ℤ).bmod (2 ^ 64)

/-- An operation on a descriptor. A write comes with whether `realloc` has a larger piece. -/
inductive TmpOp
  | read (fd size : ℕ)
  | write (fd : ℕ) (buf : List UInt8) (grow : Bool)
  | lseek (fd : ℕ) (off whence : ℤ)

structure TmpReply where
  result : ℤ
  bytes : List UInt8

namespace TmpFile

def moveTo (s : TmpFile) (fd off : ℕ) : TmpFile := { s with offset := update s.offset fd off }

/-- `tmpfs_read` -/
def read (s : TmpFile) (fd size : ℕ) : Option (TmpFile × TmpReply) :=
  let offset := s.offset fd
  let left := subSize s.data.length offset
  let size := if left < size then (if s.data.length ≤ offset then 0 else left) else size
  if size = 0 ∨ offset + size ≤ s.data.length then
    some (s.moveTo fd (addSize offset size), ⟨size, (s.data.drop offset).take size⟩)
  else none

/-- `tmpfs_file_resize` where there is memory; a file does not get smaller. -/
def resize (s : TmpFile) (size : ℕ) : TmpFile :=
  { s with data := s.data ++ List.replicate (size - s.data.length) 0 }

/-- The copy of `tmpfs_write`. -/
def put (s : TmpFile) (fd : ℕ) (buf : List UInt8) : Option (TmpFile × TmpReply) :=
  let offset := s.offset fd
  if buf = [] ∨ offset + buf.length ≤ s.data.length then
    let data := s.data.take offset ++ buf ++ s.data.drop (offset + buf.length)
    some (moveTo { s with data } fd (addSize offset buf.length), ⟨buf.length, []⟩)
  else none

/-- `tmpfs_write` -/
def write (s : TmpFile) (fd : ℕ) (buf : List UInt8) (grow : Bool) :
    Option (TmpFile × TmpReply) :=
  let last := addSize (s.offset fd) buf.length
  if s.data.length < last then
    if grow then (s.resize last).put fd buf else some (s, ⟨tmpEnomem, []⟩)
  else s.put fd buf

/-- `fd->offset = new`, and what `tmpfs_lseek` returns then. -/
def seekTo (s : TmpFile) (fd : ℕ) (new : ℤ) : TmpFile × TmpReply :=
  (s.moveTo fd (new % 2 ^ 64).toNat, ⟨offT (new % 2 ^ 64).toNat, []⟩)

/-- `tmpfs_lseek` with `generic_seek`. A seek from the start is not looked at. -/
def lseek (s : TmpFile) (fd : ℕ) (off whence : ℤ) : TmpFile × TmpReply :=
  if whence = 0 then s.seekTo fd off
  else if whence = 1 then
    if 2 ^ 63 ≤ offT (s.offset fd) + off ∨ offT (s.offset fd) + off < 0 then
      (s, ⟨tmpEinval, []⟩)
    else s.seekTo fd (offT (s.offset fd) + off)
  else if whence = 2 then
    if (s.data.length + off).bmod (2 ^ 64) < 0 then (s, ⟨tmpEinval, []⟩)
    else s.seekTo fd ((s.data.length + off).bmod (2 ^ 64))
  else (s, ⟨tmpEinval, []⟩)

end TmpFile

def tmpStep (s : TmpFile) : TmpOp → Option (TmpFile × TmpReply)
  | .read fd size => s.read fd size
  | .write fd buf grow => s.write fd buf grow
  | .lseek fd off whence => some (s.lseek fd off whence)

/-! ### Growable arrays -/

/-- A growable array of bytes, all zero from its length on, and positions in it. -/
structure ByteFile where
  length : ℕ
  byte : ℕ → UInt8
  offset : ℕ → ℕ

namespace ByteFile

variable (a : ByteFile)

def moveTo (fd off : ℕ) : ByteFile := { a with offset := update a.offset fd off }

def read (fd size : ℕ) : ByteFile × TmpReply :=
  let offset := a.offset fd
  let size := min size (a.length - offset)
  (a.moveTo fd (offset + size), ⟨size, (List.range size).map fun i => a.byte (offset + i)⟩)

/-- Bytes take the place of others, or make the array longer; no bytes do nothing. -/
def write (fd : ℕ) (buf : List UInt8) (grow : Bool) : ByteFile × TmpReply :=
  let offset := a.offset fd
  if buf = [] then (a, ⟨0, []⟩)
  else if a.length < offset + buf.length ∧ ¬ grow then (a, ⟨tmpEnomem, []⟩)
  else
    (moveTo { a with
      length := max a.length (offset + buf.length)
      byte := fun i => if offset ≤ i then buf.getD (i - offset) (a.byte i) else a.byte i } fd
      (offset + buf.length), ⟨buf.length, []⟩)

/-- To a position that an `off_t` can say. -/
def seekTo (fd : ℕ) (new : ℤ) : ByteFile × TmpReply :=
  if 0 ≤ new ∧ new < 2 ^ 63 then (a.moveTo fd new.toNat, ⟨new, []⟩) else (a, ⟨tmpEinval, []⟩)

def lseek (fd : ℕ) (off whence : ℤ) : ByteFile × TmpReply :=
  if whence = 0 then a.seekTo fd off
  else if whence = 1 then a.seekTo fd (a.offset fd + off)
  else if whence = 2 then a.seekTo fd (a.length + off)
  else (a, ⟨tmpEinval, []⟩)

end ByteFile

def byteStep (a : ByteFile) : TmpOp → ByteFile × TmpReply
  | .read fd size => a.read fd size
  | .write fd buf grow => a.write fd buf grow
  | .lseek fd off whence => a.lseek fd off whence

def TmpFile.array (s : TmpFile) : ByteFile := ⟨s.data.length, fun i => s.data.getD i 0, s.offset⟩

/-- An operation does to the file and returns what it does to the array and returns. -/
def TmpOp.Agrees (s : TmpFile) (op : TmpOp) : Prop :=
  (tmpStep s op).map (fun r => (r.1.array, r.2)) = some (byteStep s.array op)

/-- What the caller and the host see to: a buffer is an object in memory, an `off_t` a word, and no
piece of memory is as large as 2^63 bytes. -/
def TmpOp.Given (s : TmpFile) : TmpOp → Prop
  | .read _ size => size < 2 ^ 63
  | .write fd buf grow => buf.length < 2 ^ 63 ∧ (grow → s.offset fd + buf.length < 2 ^ 63)
  | .lseek _ off _ => -2 ^ 63 ≤ off ∧ off < 2 ^ 63

/-- A read does not begin past the end, unless it is of no bytes; a write of no bytes does not
either; and no seek from the start is to a negative number. -/
def TmpOp.Fits (s : TmpFile) : TmpOp → Prop
  | .read fd size => size = 0 ∨ s.offset fd ≤ s.data.length
  | .write fd buf _ => buf = [] → s.offset fd ≤ s.data.length
  | .lseek _ off whence => whence = 0 → 0 ≤ off

/-! ### One operation -/

namespace ByteFile

variable {a : ByteFile}

/-- The numbers of an `off_t` say the length and every position. -/
structure Small (a : ByteFile) : Prop where
  length : a.length < 2 ^ 63
  offset : ∀ fd, a.offset fd < 2 ^ 63

lemma Small.moveTo (ha : a.Small) {fd off : ℕ} (hoff : off < 2 ^ 63) : (a.moveTo fd off).Small := by
  refine ⟨ha.length, fun fd' => ?_⟩
  change update a.offset fd off fd' < _
  rw [update_apply]
  split_ifs
  · exact hoff
  · exact ha.offset fd'

lemma Small.seekTo (ha : a.Small) (fd : ℕ) (new : ℤ) : (a.seekTo fd new).1.Small := by
  unfold ByteFile.seekTo
  split_ifs with hnew
  · exact ha.moveTo (by omega)
  · exact ha

lemma Small.write (ha : a.Small) {fd : ℕ} {buf : List UInt8} {grow : Bool}
    (hgrow : grow → a.offset fd + buf.length < 2 ^ 63) : (a.write fd buf grow).1.Small := by
  have hlength := ha.length
  simp only [ByteFile.write]
  split_ifs with hempty hfail
  · exact ha
  · exact ha
  · have hend : a.offset fd + buf.length < 2 ^ 63 := by
      rcases not_and_or.mp hfail with hroom | hgrown
      · omega
      · exact hgrow (not_not.mp hgrown)
    have hgrown : ByteFile.Small { a with
        length := max a.length (a.offset fd + buf.length)
        byte := fun i => if a.offset fd ≤ i then buf.getD (i - a.offset fd) (a.byte i)
          else a.byte i } := ⟨max_lt hlength hend, ha.offset⟩
    exact hgrown.moveTo hend

end ByteFile

namespace TmpFile

variable {s : TmpFile} {fd : ℕ}

lemma array_moveTo (s : TmpFile) (fd off : ℕ) : (s.moveTo fd off).array = s.array.moveTo fd off :=
  rfl

lemma take_drop_eq (data : List UInt8) {off n : ℕ} (hn : off + n ≤ data.length) :
    (data.drop off).take n = (List.range n).map fun i => data.getD (off + i) 0 := by
  apply List.ext_getElem
  · simp only [List.length_take, List.length_drop, List.length_map, List.length_range]
    omega
  · intro i hi hi'
    rw [List.length_map, List.length_range] at hi'
    rw [List.getElem_take, List.getElem_drop, List.getElem_map, List.getElem_range,
      List.getD_eq_getElem _ _ (by omega)]

lemma read_agrees (hs : s.array.Small) {size : ℕ} (hsize : size < 2 ^ 63) :
    (TmpOp.read fd size).Agrees s ↔ (TmpOp.read fd size).Fits s := by
  have hlength : s.data.length < 2 ^ 63 := hs.length
  have hoffset : s.offset fd < 2 ^ 63 := hs.offset fd
  unfold TmpOp.Agrees TmpOp.Fits
  simp only [tmpStep, byteStep, read]
  by_cases hle : s.offset fd ≤ s.data.length
  · refine iff_of_true ?_ (Or.inr hle)
    have hleft : subSize s.data.length (s.offset fd) = s.data.length - s.offset fd :=
      subSize_eq hle (by omega)
    have hmin : (if s.data.length - s.offset fd < size then
        (if s.data.length ≤ s.offset fd then 0 else s.data.length - s.offset fd) else size) =
        min size (s.data.length - s.offset fd) := by
      split_ifs <;> omega
    rw [hleft, hmin, if_pos (Or.inr (by omega)), Option.map_some,
      take_drop_eq _ (by omega), addSize_eq (by omega)]
    rfl
  · have hleft : ¬ subSize s.data.length (s.offset fd) < size := by
      unfold subSize
      rw [Nat.mod_eq_of_lt (by omega)]
      omega
    rw [if_neg hleft]
    by_cases hzero : size = 0
    · refine iff_of_true ?_ (Or.inl hzero)
      subst hzero
      rw [if_pos (Or.inl rfl), Option.map_some, addSize_eq (by omega), List.take_zero]
      simp only [ByteFile.read, Nat.zero_min]
      rfl
    · refine iff_of_false (fun h => ?_) fun h => h.elim hzero hle
      rw [if_neg fun h => h.elim hzero (by omega)] at h
      exact Option.some_ne_none _ h.symm

lemma offT_eq {n : ℕ} (hn : n < 2 ^ 63) : offT n = n :=
  Int.bmod_eq_of_le (by omega) (by omega)

lemma seekTo_eq {new : ℤ} (hnew : 0 ≤ new) (hlt : new < 2 ^ 63) :
    ((s.seekTo fd new).1.array, (s.seekTo fd new).2) = s.array.seekTo fd new := by
  unfold seekTo ByteFile.seekTo
  rw [if_pos ⟨hnew, hlt⟩, Int.emod_eq_of_lt hnew (by omega), offT_eq (by omega),
    Int.toNat_of_nonneg hnew, array_moveTo]

lemma seekTo_fails {a : ByteFile} {new : ℤ} (hnew : new < 0 ∨ 2 ^ 63 ≤ new) :
    a.seekTo fd new = (a, ⟨tmpEinval, []⟩) := if_neg (by omega)

lemma agrees_lseek {off whence : ℤ} : (TmpOp.lseek fd off whence).Agrees s ↔
    ((s.lseek fd off whence).1.array, (s.lseek fd off whence).2) =
      s.array.lseek fd off whence := Option.some_inj

lemma seekSet_agrees (hs : s.array.Small) {off : ℤ} (hlow : -2 ^ 63 ≤ off) (hhigh : off < 2 ^ 63) :
    (TmpOp.lseek fd off 0).Agrees s ↔ 0 ≤ off := by
  rw [agrees_lseek, lseek, ByteFile.lseek, if_pos rfl, if_pos rfl]
  by_cases hneg : 0 ≤ off
  · exact iff_of_true (seekTo_eq hneg hhigh) hneg
  · refine iff_of_false (fun h => ?_) hneg
    rw [seekTo_fails (Or.inl (by omega))] at h
    have hmoved := congrArg (fun r : ByteFile × TmpReply => r.1.offset fd) h
    have hoffset : s.offset fd < 2 ^ 63 := hs.offset fd
    simp only [array, seekTo, moveTo, update_self] at hmoved
    omega

lemma seekCur_agrees (hs : s.array.Small) {off : ℤ} : (TmpOp.lseek fd off 1).Agrees s := by
  have hoffset : s.offset fd < 2 ^ 63 := hs.offset fd
  rw [agrees_lseek, lseek, ByteFile.lseek, if_neg one_ne_zero, if_neg one_ne_zero, if_pos rfl,
    if_pos rfl, offT_eq hoffset]
  have hoff : s.array.offset fd = s.offset fd := rfl
  rw [hoff]
  by_cases hbad : 2 ^ 63 ≤ (s.offset fd : ℤ) + off ∨ (s.offset fd : ℤ) + off < 0
  · rw [if_pos hbad, seekTo_fails hbad.symm]
  · rw [if_neg hbad]
    exact seekTo_eq (by omega) (by omega)

lemma seekEnd_agrees (hs : s.array.Small) {off : ℤ} (hlow : -2 ^ 63 ≤ off) (hhigh : off < 2 ^ 63) :
    (TmpOp.lseek fd off 2).Agrees s := by
  have hlength : s.data.length < 2 ^ 63 := hs.length
  have hlen : s.array.length = s.data.length := rfl
  have htwo : (2 : ℤ) ≠ 1 := by norm_num
  rw [agrees_lseek, lseek, ByteFile.lseek, if_neg two_ne_zero, if_neg two_ne_zero, if_neg htwo,
    if_neg htwo, if_pos rfl, if_pos rfl, hlen]
  by_cases hlarge : 2 ^ 63 ≤ (s.data.length : ℤ) + off
  · -- a sum that an `off_t` cannot say comes out negative
    have hwrap : ((s.data.length : ℤ) + off).bmod (2 ^ 64) < 0 := by
      rw [← Int.sub_bmod_right, Int.bmod_eq_of_le (by omega) (by omega)]
      omega
    rw [if_pos hwrap, seekTo_fails (Or.inr hlarge)]
  · have hsum : ((s.data.length : ℤ) + off).bmod (2 ^ 64) = s.data.length + off :=
      Int.bmod_eq_of_le (by omega) (by omega)
    rw [hsum]
    by_cases hneg : (s.data.length : ℤ) + off < 0
    · rw [if_pos hneg, seekTo_fails (Or.inl hneg)]
    · rw [if_neg hneg]
      exact seekTo_eq (by omega) (by omega)

lemma lseek_agrees (hs : s.array.Small) {off whence : ℤ} (hlow : -2 ^ 63 ≤ off)
    (hhigh : off < 2 ^ 63) :
    (TmpOp.lseek fd off whence).Agrees s ↔ (TmpOp.lseek fd off whence).Fits s := by
  unfold TmpOp.Fits
  by_cases h₀ : whence = 0
  · subst h₀
    exact (seekSet_agrees hs hlow hhigh).trans ⟨fun h _ => h, fun h => h rfl⟩
  · refine iff_of_true ?_ fun h => absurd h h₀
    by_cases h₁ : whence = 1
    · subst h₁
      exact seekCur_agrees hs
    by_cases h₂ : whence = 2
    · subst h₂
      exact seekEnd_agrees hs hlow hhigh
    rw [agrees_lseek, lseek, ByteFile.lseek, if_neg h₀, if_neg h₀, if_neg h₁, if_neg h₁,
      if_neg h₂, if_neg h₂]

lemma getD_splice (data buf : List UInt8) {off : ℕ} (hoff : off + buf.length ≤ data.length)
    (i : ℕ) : (data.take off ++ buf ++ data.drop (off + buf.length)).getD i 0 =
      if off ≤ i then buf.getD (i - off) (data.getD i 0) else data.getD i 0 := by
  have htake : (data.take off).length = off := by
    rw [List.length_take]
    omega
  simp only [List.getD_eq_getElem?_getD]
  split_ifs with hle
  · rw [List.append_assoc, List.getElem?_append_right (by omega), htake]
    by_cases hin : i - off < buf.length
    · rw [List.getElem?_append_left hin, List.getElem?_eq_getElem hin]
      rfl
    · rw [List.getElem?_append_right (by omega), List.getElem?_drop,
        List.getElem?_eq_none (l := buf) (by omega)]
      have hi : off + buf.length + (i - off - buf.length) = i := by omega
      rw [hi]
      rfl
  · rw [List.append_assoc, List.getElem?_append_left (by omega),
      List.getElem?_take_of_lt (by omega)]

lemma getD_resize (data : List UInt8) (n i : ℕ) :
    (data ++ List.replicate n 0).getD i 0 = data.getD i 0 := by
  simp only [List.getD_eq_getElem?_getD]
  by_cases hi : i < data.length
  · rw [List.getElem?_append_left hi]
  · rw [List.getElem?_append_right (by omega), List.getElem?_eq_none (l := data) (by omega),
      List.getElem?_replicate]
    split_ifs <;> rfl

lemma put_eq (buf : List UInt8) (hsum : s.offset fd + buf.length < 2 ^ 64)
    (hfit : s.offset fd + buf.length ≤ s.data.length) :
    (s.put fd buf).map (fun r => (r.1.array, r.2)) = some (ByteFile.moveTo { s.array with
      byte := fun i => if s.offset fd ≤ i then buf.getD (i - s.offset fd) (s.data.getD i 0)
        else s.data.getD i 0 } fd (s.offset fd + buf.length), ⟨buf.length, []⟩) := by
  have hlength : (s.data.take (s.offset fd) ++ buf ++
      s.data.drop (s.offset fd + buf.length)).length = s.data.length := by
    simp only [List.length_append, List.length_take, List.length_drop]
    omega
  unfold put
  rw [if_pos (Or.inr hfit), Option.map_some, addSize_eq hsum, array_moveTo]
  simp only [array, hlength, getD_splice s.data buf hfit]

lemma writeNil_agrees (hs : s.array.Small) {grow : Bool} :
    (TmpOp.write fd [] grow).Agrees s ↔ s.offset fd ≤ s.data.length := by
  have hoffset : s.offset fd < 2 ^ 63 := hs.offset fd
  have hlast : addSize (s.offset fd) ([] : List UInt8).length = s.offset fd :=
    addSize_eq (lt_of_lt_of_le hoffset (by norm_num))
  have hnothing : byteStep s.array (.write fd [] grow) = (s.array, ⟨0, []⟩) := by
    simp [byteStep, ByteFile.write]
  unfold TmpOp.Agrees
  rw [hnothing]
  change (s.write fd [] grow).map _ = _ ↔ _
  unfold write
  rw [hlast]
  by_cases hle : s.offset fd ≤ s.data.length
  · refine iff_of_true ?_ hle
    rw [if_neg (by omega), put_eq [] (by simpa using (by omega)) hle]
    simp [ByteFile.moveTo, array]
  · refine iff_of_false (fun h => ?_) hle
    rw [if_pos (by omega)] at h
    cases grow with
    | false =>
      have hresult : tmpEnomem = 0 :=
        congrArg (fun r : ByteFile × TmpReply => r.2.result) (Option.some_inj.mp h)
      exact absurd hresult (by decide)
    | true =>
      have hgrown : (s.resize (s.offset fd)).data.length = s.offset fd := by
        simp only [resize, List.length_append, List.length_replicate]
        omega
      have hfit : (s.resize (s.offset fd)).offset fd + ([] : List UInt8).length ≤
          (s.resize (s.offset fd)).data.length := hgrown.ge
      have hsum : s.offset fd < 2 ^ 64 := lt_of_lt_of_le hoffset (by norm_num)
      rw [if_pos rfl, put_eq (s := s.resize (s.offset fd)) [] hsum hfit] at h
      have hsame := congrArg (fun r : ByteFile × TmpReply => r.1.length) (Option.some_inj.mp h)
      have hlong : s.array.length = s.data.length := rfl
      exact hle (hgrown.symm.trans (hsame.trans hlong)).le

lemma write_agrees (hs : s.array.Small) {buf : List UInt8} {grow : Bool}
    (hbuf : buf.length < 2 ^ 63) :
    (TmpOp.write fd buf grow).Agrees s ↔ (TmpOp.write fd buf grow).Fits s := by
  have hoffset : s.offset fd < 2 ^ 63 := hs.offset fd
  by_cases hempty : buf = []
  · subst hempty
    exact (writeNil_agrees hs).trans ⟨fun h _ => h, fun h => h rfl⟩
  refine iff_of_true ?_ fun h => absurd h hempty
  have hsum : s.offset fd + buf.length < 2 ^ 64 := by omega
  unfold TmpOp.Agrees
  change (s.write fd buf grow).map _ = some (s.array.write fd buf grow)
  unfold write ByteFile.write
  rw [addSize_eq hsum, if_neg hempty]
  by_cases hlarge : s.data.length < s.offset fd + buf.length
  · rw [if_pos hlarge]
    cases grow with
    | false => exact congrArg some (if_pos ⟨hlarge, Bool.false_ne_true⟩).symm
    | true =>
      have hgrown : (s.resize (s.offset fd + buf.length)).data.length =
          s.offset fd + buf.length := by
        simp only [resize, List.length_append, List.length_replicate]
        omega
      rw [if_pos rfl, put_eq (s := s.resize _) buf hsum hgrown.ge, if_neg fun h => h.2 rfl]
      have hmax : max s.data.length (s.offset fd + buf.length) = s.offset fd + buf.length :=
        max_eq_right hlarge.le
      simp only [resize] at hgrown
      simp only [array, resize, getD_resize, hmax, hgrown]
      rfl
  · rw [if_neg hlarge, put_eq buf hsum (by omega), if_neg fun h => hlarge h.1]
    have hmax : max s.data.length (s.offset fd + buf.length) = s.data.length :=
      max_eq_left (Nat.not_lt.mp hlarge)
    simp only [array, hmax]
    rfl

end TmpFile

/-! ### Runs -/

lemma byteStep_small {s : TmpFile} (hs : s.array.Small) {op : TmpOp} (hgiven : op.Given s) :
    (byteStep s.array op).1.Small := by
  cases op with
  | read fd size =>
    have hlength := hs.length
    have hoffset := hs.offset fd
    refine hs.moveTo ?_
    omega
  | write fd buf grow => exact hs.write hgiven.2
  | lseek fd off whence =>
    simp only [byteStep, ByteFile.lseek]
    split_ifs
    · exact hs.seekTo _ _
    · exact hs.seekTo _ _
    · exact hs.seekTo _ _
    · exact hs

lemma tmpStep_agrees {s : TmpFile} (hs : s.array.Small) {op : TmpOp} (hgiven : op.Given s) :
    op.Agrees s ↔ op.Fits s := by
  cases op with
  | read fd size => exact TmpFile.read_agrees hs hgiven
  | write fd buf grow => exact TmpFile.write_agrees hs hgiven.1
  | lseek fd off whence => exact TmpFile.lseek_agrees hs hgiven.1 hgiven.2

lemma TmpOp.Agrees.small {s : TmpFile} (hs : s.array.Small) {op : TmpOp} (hgiven : op.Given s)
    (h : op.Agrees s) {r : TmpFile × TmpReply} (hr : r ∈ tmpStep s op) : r.1.array.Small := by
  unfold TmpOp.Agrees at h
  rw [Option.mem_def.mp hr, Option.map_some] at h
  have harray : r.1.array = (byteStep s.array op).1 := congrArg Prod.fst (Option.some_inj.mp h)
  rw [harray]
  exact byteStep_small hs hgiven

/-- In a run every operation does and returns what it does on the array just if every operation
fits. -/
theorem tmpfs_agrees {s : TmpFile} (hs : s.array.Small) {ops : List TmpOp}
    (hgiven : AllSteps tmpStep TmpOp.Given s ops) :
    AllSteps tmpStep TmpOp.Agrees s ops ↔ AllSteps tmpStep TmpOp.Fits s ops :=
  allSteps_iff (P := fun s => s.array.Small) (fun _ _ hs hgiven => tmpStep_agrees hs hgiven)
    (fun _ _ hs hgiven h _ hr => h.small hs hgiven hr) hs hgiven

instance decidableTmpGiven (s : TmpFile) : ∀ op : TmpOp, Decidable (op.Given s)
  | .read _ _ => inferInstanceAs (Decidable (_ < _))
  | .write _ _ _ => inferInstanceAs (Decidable (_ ∧ (_ → _)))
  | .lseek _ _ _ => inferInstanceAs (Decidable (_ ∧ _))

instance decidableTmpFits (s : TmpFile) : ∀ op : TmpOp, Decidable (op.Fits s)
  | .read _ _ => inferInstanceAs (Decidable (_ ∨ _))
  | .write _ _ _ => inferInstanceAs (Decidable (_ → _))
  | .lseek _ _ _ => inferInstanceAs (Decidable (_ → _))

def TmpFile.empty : TmpFile := ⟨[], fun _ => 0⟩

lemma TmpFile.small_empty : TmpFile.empty.array.Small :=
  ⟨by decide, fun _ => pow_pos two_pos 63⟩

/-- Two descriptors, with a gap that reads as zero and a read past the end. -/
theorem tmpfs_agrees_gap :
    AllSteps tmpStep TmpOp.Agrees TmpFile.empty [.write 0 [1, 2] true, .lseek 1 5 0,
      .write 1 [3] true, .read 0 9, .read 0 9, .lseek 1 (-2) 2, .write 1 [4] false] :=
  (tmpfs_agrees TmpFile.small_empty (by decide +kernel)).mpr (by decide +kernel)

/-- A read from a position past the end is out of the memory; a seek to a negative number moves; and
a write of no bytes past the end enlarges the file. -/
theorem tmpfs_differs :
    ¬ AllSteps tmpStep TmpOp.Agrees TmpFile.empty [.lseek 0 10 0, .read 0 4] ∧
      ¬ AllSteps tmpStep TmpOp.Agrees TmpFile.empty [.lseek 0 (-5) 0] ∧
      ¬ AllSteps tmpStep TmpOp.Agrees TmpFile.empty [.lseek 0 10 0, .write 0 [] true] := by
  have hsmall : (TmpFile.empty.lseek 0 10 0).1.array.Small :=
    TmpFile.small_empty.moveTo (by norm_num)
  refine ⟨fun h => ?_, fun h => ?_, fun h => ?_⟩
  · have hfits := (tmpStep_agrees hsmall (by decide)).mp (h.2 _ rfl).1
    revert hfits
    decide
  · have hfits := (tmpStep_agrees TmpFile.small_empty (by decide)).mp h.1
    revert hfits
    decide
  · have hfits := (tmpStep_agrees hsmall (by decide)).mp (h.2 _ rfl).1
    revert hfits
    decide

end ShellBox
