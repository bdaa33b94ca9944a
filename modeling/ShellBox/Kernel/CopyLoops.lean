import ShellBox.Kernel.UserCopy

/-!
# Copies that succeed

The loops of `__user_read_mem` and `__user_write_mem` go through the pages of a buffer in 64-bit
arithmetic. The end of the buffer is `addr + count`, and if it overflows then nothing is copied and
the call succeeds. In the last page of the 64-bit addresses the end of a piece overflows; the loop
starts again at the address 0 and never succeeds.

The strings are copied by these loops byte by byte. A buffer that is full ends the reading of a
string as its terminator does.
-/

namespace ShellBox

open Function World

/-! ### The loops -/

/-- `a - b` -/
def sub64 (a b : ℕ) : ℕ := (a + 2 ^ 64 - b) % 2 ^ 64

/-- The end of the piece that starts at `p`. -/
def chunkEnd (stop p : ℕ) : ℕ :=
  let pageEnd := (page p + 1) * pageSize % 2 ^ 64
  if stop < pageEnd then stop else pageEnd

/-- `memcpy` between a host page and the buffer, from or to `buf`: the bytes that are copied. -/
def copyPiece (type : AccessType) (ptr : HostPtr) (n : ℕ) (buf : List UInt8) (w : World) :
    World × List UInt8 :=
  match type with
  | .read => (w, w.loadBytes ptr n)
  | .write | .writePtrace => (w.storeBytes ptr (buf.take n), buf.take n)

/-- The loop that the two functions share: the bytes that are copied, each with its place in the
buffer. -/
def copyLoop (h : Host) (s : ℕ) (type : AccessType) (addr stop : ℕ) (buf : List UInt8) :
    ℕ → ℕ → World → Option (World × Option (List (UInt8 × ℕ)))
  | 0, _, _ => none
  | fuel + 1, p, w =>
    if p < stop then
      match memPtr h s p type w with
      | (w, none) => some (w, none)
      | (w, some ptr) =>
        let i := sub64 p addr
        let r := copyPiece type ptr (sub64 (chunkEnd stop p) p) (buf.drop i) w
        (copyLoop h s type addr stop buf fuel (chunkEnd stop p) r.1).map
          (Prod.map id (Option.map (r.2.zipIdx i ++ ·)))
    else some (w, some [])

namespace UserCopy

def userReadMem (h : Host) (s addr count fuel : ℕ) (w : World) :
    Option (World × Option (List (UInt8 × ℕ))) :=
  copyLoop h s .read addr ((addr + count) % 2 ^ 64) [] fuel addr w

def userWriteMem (h : Host) (s addr : ℕ) (buf : List UInt8) (ptrace : Bool) (fuel : ℕ) (w : World) :
    Option (World × Option (List (UInt8 × ℕ))) :=
  copyLoop h s (if ptrace then .writePtrace else .write) addr ((addr + buf.length) % 2 ^ 64) buf
    fuel addr w

/-- The loop of `user_read_string` over a buffer with some contents: the bytes that are stored. -/
def readStringLoop (h : Host) (s fuel : ℕ) :
    ℕ → List UInt8 → World → Option (World × Option (List (Option UInt8)))
  | _, [], w => some (w, some [])
  | a, old :: buf, w =>
    match userReadMem h s a 1 fuel w with
    | none => none
    | some (w, none) => some (w, none)
    | some (w, some cells) =>
      let cell := cells.head?.map Prod.fst
      if cell.getD old = 0 then some (w, some [cell])
      else (readStringLoop h s fuel ((a + 1) % 2 ^ 64) buf w).map
        (Prod.map id (Option.map (cell :: ·)))

def userReadString (h : Host) (s addr : ℕ) (buf : List UInt8) (fuel : ℕ) (w : World) :
    Option (World × Option (List (Option UInt8))) :=
  if addr = 0 then some (w, none) else readStringLoop h s fuel addr buf w

/-- The loop of `user_write_string` over what is left of the string and its terminator. -/
def writeStringLoop (h : Host) (s fuel : ℕ) :
    ℕ → List UInt8 → World → Option (World × Option (List (Option UInt8)))
  | _, [], w => some (w, some [])
  | a, b :: buf, w =>
    match userWriteMem h s a [b] false fuel w with
    | none => none
    | some (w, none) => some (w, none)
    | some (w, some cells) =>
      (writeStringLoop h s fuel ((a + 1) % 2 ^ 64) buf w).map
        (Prod.map id (Option.map (cells.head?.map Prod.fst :: ·)))

def userWriteString (h : Host) (s addr : ℕ) (str : List UInt8) (fuel : ℕ) (w : World) :
    Option (World × Option (List (Option UInt8))) :=
  if addr = 0 then some (w, none) else writeStringLoop h s fuel addr (str ++ [0]) w

end UserCopy

/-! ### Copying byte by byte -/

def MovesByte (type : AccessType) (ptr : HostPtr) (b : UInt8) (w w' : World) : Prop :=
  match type with
  | .read => w.load ptr = some b ∧ w' = w
  | .write | .writePtrace => w' = w.store ptr b

/-- Bytes are copied in order, each through the translation of its own address for the access.
Translating comes before, as often as it is needed. -/
inductive CopiesBytes (h : Host) (s : ℕ) (type : AccessType) :
    ℕ → List UInt8 → World → World → Prop
  | done {a : ℕ} {w : World} : CopiesBytes h s type a [] w w
  | translate {a : ℕ} {bytes : List UInt8} {w w₁ w' : World} {ptr : HostPtr} :
      memPtr h s a type w = (w₁, some ptr) → CopiesBytes h s type a bytes w₁ w' →
      CopiesBytes h s type a bytes w w'
  | byte {a : ℕ} {b : UInt8} {bytes : List UInt8} {w w₁ w' : World} {ptr : HostPtr} :
      a < 2 ^ 64 → memPtrNofault w s a type = some ptr → MovesByte type ptr b w w₁ →
      CopiesBytes h s type (a + 1) bytes w₁ w' → CopiesBytes h s type a (b :: bytes) w w'

/-! ### The calls -/

def LastPage (a : ℕ) : Prop := 2 ^ 64 - pageSize ≤ a

instance (a : ℕ) : Decidable (LastPage a) := inferInstanceAs (Decidable (_ ≤ _))

/-- The calls of the family: `user_read` and `user_read_task`; `user_write` and `user_write_task`,
or `user_write_task_ptrace`; and those for strings. A string is read into a buffer with some
contents, and is written with its terminator. -/
inductive CopyCall
  | read (count : ℕ)
  | write (buf : List UInt8) (ptrace : Bool)
  | readString (buf : List UInt8)
  | writeString (str : List UInt8)

/-- The reading of a string ends before the buffer is full: at the terminator, or at an address that
cannot be read. The byte at the last address is not read, and what the buffer has there counts. -/
inductive StringEnds (h : Host) (s : ℕ) : ℕ → List UInt8 → World → Prop
  | refused {a : ℕ} {old : UInt8} {buf : List UInt8} {w : World} : a + 1 < 2 ^ 64 →
      (memPtr h s a .read w).2 = none → StringEnds h s a (old :: buf) w
  | last {a : ℕ} {old : UInt8} {buf : List UInt8} {w : World} : LastPage a → a + 1 < 2 ^ 64 →
      StringEnds h s a (old :: buf) w
  | nul {a : ℕ} {old : UInt8} {buf : List UInt8} {w w₁ : World} : ¬ LastPage a →
      readByte h s a w = (w₁, some 0) → StringEnds h s a (old :: buf) w
  | next {a : ℕ} {old b : UInt8} {buf : List UInt8} {w w₁ : World} : ¬ LastPage a →
      readByte h s a w = (w₁, some b) → b ≠ 0 → StringEnds h s (a + 1) buf w₁ →
      StringEnds h s a (old :: buf) w
  | top {old : UInt8} {buf : List UInt8} {w : World} : old ≠ 0 → StringEnds h s 0 buf w →
      StringEnds h s (2 ^ 64 - 1) (old :: buf) w

inductive WriteStops (h : Host) (s : ℕ) : ℕ → List UInt8 → World → Prop
  | refused {a : ℕ} {b : UInt8} {bytes : List UInt8} {w : World} : ¬ LastPage a →
      (memPtr h s a .write w).2 = none → WriteStops h s a (b :: bytes) w
  | last {a : ℕ} {b : UInt8} {bytes : List UInt8} {w : World} : LastPage a → a + 1 < 2 ^ 64 →
      WriteStops h s a (b :: bytes) w
  | next {a : ℕ} {b : UInt8} {bytes : List UInt8} {w w₁ : World} {ptr : HostPtr} : ¬ LastPage a →
      memPtr h s a .write w = (w₁, some ptr) → WriteStops h s (a + 1) bytes (w₁.store ptr b) →
      WriteStops h s a (b :: bytes) w

namespace CopyCall

/-- `count`, a `size_t` -/
def count : CopyCall → ℕ
  | read count => count
  | write buf _ => buf.length
  | readString buf => buf.length
  | writeString str => str.length + 1

/-- A call that succeeds has copied all bytes, and a string that has been read has a terminator. -/
def AllOrError (h : Host) (s addr : ℕ) (w : World) : CopyCall → Prop
  | read count => ∀ fuel w' cells,
      UserCopy.userReadMem h s addr count fuel w = some (w', some cells) →
      ∃ bytes, bytes.length = count ∧ cells = bytes.zipIdx ∧ CopiesBytes h s .read addr bytes w w'
  | write buf ptrace => ∀ fuel w' cells,
      UserCopy.userWriteMem h s addr buf ptrace fuel w = some (w', some cells) →
      cells = buf.zipIdx ∧
        CopiesBytes h s (if ptrace then .writePtrace else .write) addr buf w w'
  | readString buf => ∀ fuel w' cells,
      UserCopy.userReadString h s addr buf fuel w = some (w', some cells) →
      some 0 ∈ cells ∧ cells.length ≤ buf.length
  | writeString str => ∀ fuel w' cells,
      UserCopy.userWriteString h s addr str fuel w = some (w', some cells) →
      cells = (str ++ [0]).map some ∧ CopiesBytes h s .write addr (str ++ [0]) w w'

/-- The end of the buffer does not overflow. A string ends in its buffer, or is not written from the
last address on. -/
def Fits (h : Host) (s addr : ℕ) (w : World) : CopyCall → Prop
  | read count => addr + count < 2 ^ 64
  | write buf _ => addr + buf.length < 2 ^ 64
  | readString buf => addr = 0 ∨ StringEnds h s addr buf w
  | writeString str => addr + 1 < 2 ^ 64 ∨ WriteStops h s 0 ((str ++ [0]).drop 1) w

end CopyCall

variable {h : Host} {s : ℕ} {w w' w₁ : World} {type : AccessType} {a p stop addr n : ℕ}
  {ptr : HostPtr} {buf bytes rest : List UInt8}

lemma nofault_of_memPtr (hptr : memPtr h s a type w = (w₁, some ptr)) :
    memPtrNofault w₁ s a type = some ptr := by
  unfold memPtr at hptr
  generalize faultIn h s (page a) w = r at hptr
  obtain ⟨w₂, _ | _⟩ := r
  · cases hptr
  · simp only at hptr
    split_ifs at hptr
    · obtain ⟨rfl, h⟩ := Prod.mk.inj hptr
      exact h
    · generalize prepareWrite h s (page a) _ w₂ = r at hptr
      obtain ⟨w₃, _ | _⟩ := r
      · cases hptr
      · obtain ⟨rfl, h⟩ := Prod.mk.inj hptr
        exact h

lemma nofault_add (hptr : memPtrNofault w s a type = some ptr) {i : ℕ}
    (hi : pgoffset a + i < pageSize) :
    memPtrNofault w s (a + i) type = some { ptr with offset := ptr.offset + i } := by
  have hpage : page (a + i) = page a := by
    unfold page pgoffset pageSize at *
    omega
  have hoff : pgoffset (a + i) = pgoffset a + i := by
    unfold pgoffset pageSize at *
    omega
  unfold memPtrNofault at hptr ⊢
  rw [hpage, hoff]
  cases he : (w.mem s).pt.memPt (page a) with
  | none => rw [he] at hptr; cases hptr
  | some e =>
    rw [he] at hptr
    simp only at hptr ⊢
    split_ifs at hptr ⊢
    obtain rfl := Option.some.inj hptr
    rw [Nat.add_assoc]

lemma nofault_store (hptr : memPtrNofault w s a type = some ptr) (q : HostPtr) (b : UInt8) :
    memPtrNofault (w.store q b) s a type = some ptr := hptr

lemma isSome_load (hb : w.Balanced) (hptr : memPtrNofault w s a type = some ptr) (o : ℕ) :
    (w.load { ptr with offset := o }).isSome := by
  unfold memPtrNofault at hptr
  cases he : (w.mem s).pt.memPt (page a) with
  | none => rw [he] at hptr; cases hptr
  | some e =>
    rw [he] at hptr
    simp only at hptr
    split_ifs at hptr
    obtain rfl := Option.some.inj hptr
    rw [memPt_eq_slot] at he
    simpa [World.load] using hb.live he

/-! ### The bytes of a piece -/

lemma copies_loadBytes (hb : w.Balanced) (hptr : memPtrNofault w s a .read = some ptr)
    (hn : pgoffset a + n ≤ pageSize) (htop : a + n ≤ 2 ^ 64)
    (hrest : CopiesBytes h s .read (a + n) rest w w') :
    CopiesBytes h s .read a (w.loadBytes ptr n ++ rest) w w' := by
  induction n generalizing rest with
  | zero => exact hrest
  | succ n ih =>
    have hload := isSome_load hb hptr (ptr.offset + n)
    obtain ⟨b, hb'⟩ := Option.isSome_iff_exists.1 hload
    have hlast : w.loadBytes ptr (n + 1) = w.loadBytes ptr n ++ [b] := by
      rw [loadBytes, List.range_succ, List.map_append, List.map_singleton, hb']
      rfl
    rw [hlast, List.append_assoc]
    refine ih (by omega) (by omega) ?_
    exact .byte (by omega) (nofault_add hptr (by omega)) ⟨hb', rfl⟩ hrest

lemma copies_storeBytes (htype : type ≠ .read) (hptr : memPtrNofault w s a type = some ptr)
    (hn : pgoffset a + bytes.length ≤ pageSize) (htop : a + bytes.length ≤ 2 ^ 64)
    (hrest : CopiesBytes h s type (a + bytes.length) rest (w.storeBytes ptr bytes) w') :
    CopiesBytes h s type a (bytes ++ rest) w w' := by
  induction bytes generalizing a w ptr with
  | nil => exact hrest
  | cons b bytes ih =>
    rw [List.length_cons] at hn htop hrest
    have hmoves : MovesByte type ptr b w (w.store ptr b) := by
      cases type with
      | read => exact absurd rfl htype
      | write => rfl
      | writePtrace => rfl
    refine .byte (by omega) hptr hmoves ?_
    cases bytes with
    | nil => exact hrest
    | cons b' bytes =>
      rw [List.length_cons] at hn htop hrest
      have hoff : pgoffset (a + 1) = pgoffset a + 1 := by
        unfold pgoffset pageSize at *
        omega
      refine ih (nofault_add (nofault_store hptr ptr b) (by omega)) ?_ ?_ ?_
      · rw [hoff, List.length_cons]
        omega
      · rw [List.length_cons]
        omega
      · rw [List.length_cons, show a + 1 + (bytes.length + 1) = a + (bytes.length + 1 + 1) by omega]
        exact hrest

lemma copies_piece (hb : w.Balanced) (hptr : memPtrNofault w s a type = some ptr)
    (hn : pgoffset a + n ≤ pageSize) (htop : a + n ≤ 2 ^ 64) (hbuf : type ≠ .read → n ≤ buf.length)
    (hrest : CopiesBytes h s type (a + n) rest (copyPiece type ptr n buf w).1 w') :
    (copyPiece type ptr n buf w).2.length = n ∧
      CopiesBytes h s type a ((copyPiece type ptr n buf w).2 ++ rest) w w' := by
  cases type with
  | read => exact ⟨by simp [copyPiece, loadBytes], copies_loadBytes hb hptr hn htop hrest⟩
  | write | writePtrace =>
    have hlen : (buf.take n).length = n := List.length_take_of_le (hbuf (by simp))
    simp only [copyPiece] at hrest ⊢
    refine ⟨hlen, copies_storeBytes (by simp) hptr ?_ ?_ ?_⟩
    · rwa [hlen]
    · rwa [hlen]
    · rw [hlen]
      exact hrest

/-! ### The loop -/

lemma sub64_of_le {b : ℕ} (hle : b ≤ a) (ha : a < 2 ^ 64) : sub64 a b = a - b := by
  rw [sub64, show a + 2 ^ 64 - b = a - b + 2 ^ 64 by omega, Nat.add_mod_right]
  exact Nat.mod_eq_of_lt (by omega)

lemma chunkEnd_spec (hp : p < stop) (hpage : ¬ LastPage p) :
    p < chunkEnd stop p ∧ chunkEnd stop p ≤ stop ∧
      pgoffset p + (chunkEnd stop p - p) ≤ pageSize := by
  unfold LastPage at hpage
  unfold chunkEnd page pgoffset pageSize at *
  simp only
  have hmod : (p / 4096 + 1) * 4096 % 2 ^ 64 = (p / 4096 + 1) * 4096 ∨
      (p / 4096 + 1) * 4096 = 2 ^ 64 := by omega
  split_ifs <;> omega

lemma chunkEnd_lt (hstop : LastPage (stop - 1)) (hpos : 0 < stop) (hlt : stop < 2 ^ 64) (p : ℕ) :
    chunkEnd stop p < stop := by
  unfold LastPage at hstop
  unfold chunkEnd page pageSize at *
  simp only
  split_ifs with h
  · omega
  · omega

lemma copyLoop_last {fuel : ℕ} {cells : List (UInt8 × ℕ)} (hstop : LastPage (stop - 1))
    (hlt : stop < 2 ^ 64) (hp : p < stop) :
    copyLoop h s type addr stop buf fuel p w ≠ some (w', some cells) := by
  induction fuel generalizing p w w' cells with
  | zero => simp [copyLoop]
  | succ fuel ih =>
    intro hloop
    rw [copyLoop, if_pos hp] at hloop
    cases hptr : memPtr h s p type w with
    | mk w₁ r =>
    rw [hptr] at hloop
    cases r with
    | none => cases hloop
    | some ptr =>
      simp only [Option.map_eq_some_iff] at hloop
      obtain ⟨⟨w₂, _ | cells'⟩, hrest, heq⟩ := hloop
      · cases heq
      · exact ih (chunkEnd_lt hstop (by omega) hlt p) hrest

lemma copyLoop_copies {fuel : ℕ} {cells : List (UInt8 × ℕ)} (hv : w.Valid) (haddr : addr ≤ p)
    (hp : p ≤ stop) (hlt : stop < 2 ^ 64) (hbuf : type ≠ .read → buf.length = stop - addr)
    (hloop : copyLoop h s type addr stop buf fuel p w = some (w', some cells)) :
    ∃ bytes, bytes.length = stop - p ∧ (type ≠ .read → bytes = buf.drop (p - addr)) ∧
      cells = bytes.zipIdx (p - addr) ∧ CopiesBytes h s type p bytes w w' := by
  induction fuel generalizing p w cells with
  | zero => cases hloop
  | succ fuel ih =>
    have hloop' := hloop
    rw [copyLoop] at hloop
    by_cases hend : p < stop
    swap
    · rw [if_neg hend] at hloop
      obtain ⟨rfl, rfl⟩ := by simpa using hloop
      obtain rfl : p = stop := by omega
      refine ⟨[], by simp, fun hw => ?_, rfl, .done⟩
      rw [List.drop_of_length_le (hbuf hw).le]
    have hpage : ¬ LastPage p := by
      intro hlast
      refine copyLoop_last ?_ hlt hend hloop'
      unfold LastPage at *
      omega
    obtain ⟨hlow, hhigh, hin⟩ := chunkEnd_spec hend hpage
    rw [if_pos hend, sub64_of_le hlow.le (by omega), sub64_of_le haddr (by omega)] at hloop
    obtain ⟨n, hn⟩ := Nat.exists_eq_add_of_le hlow.le
    rw [hn] at hlow hhigh hin hloop
    rw [Nat.add_sub_cancel_left] at hin hloop
    have hv₁ := valid_memPtr h s p type hv
    cases hptr : memPtr h s p type w with
    | mk w₁ r =>
    rw [hptr] at hloop hv₁
    cases r with
    | none => cases hloop
    | some ptr =>
      simp only [Option.map_eq_some_iff] at hloop
      obtain ⟨⟨w₂, _ | cells'⟩, hrest, heq⟩ := hloop
      · cases heq
      simp only [Prod.map, id, Option.map_some, Option.some.injEq, Prod.mk.injEq] at heq
      obtain ⟨rfl, rfl⟩ := heq
      have hv₂ : (copyPiece type ptr n (buf.drop (p - addr)) w₁).1.Valid := by
        cases type with
        | read => exact hv₁
        | write | writePtrace => exact valid_storeBytes _ _ hv₁
      obtain ⟨bytes, hlen, hbytes, rfl, hcopies⟩ := ih hv₂ (by omega) hhigh hrest
      have hroom : type ≠ .read → n ≤ (buf.drop (p - addr)).length := by
        intro hw
        rw [List.length_drop, hbuf hw]
        omega
      obtain ⟨hpiece, hcopied⟩ := copies_piece hv₁.balanced (nofault_of_memPtr hptr) hin (by omega)
        hroom hcopies
      refine ⟨_, ?_, ?_, ?_, .translate hptr hcopied⟩
      · rw [List.length_append, hpiece, hlen]
        omega
      · intro hw
        have htake : (copyPiece type ptr n (buf.drop (p - addr)) w₁).2 =
            (buf.drop (p - addr)).take n := by
          cases type with
          | read => exact absurd rfl hw
          | write | writePtrace => rfl
        rw [htake, hbytes hw, Nat.sub_add_comm haddr, ← List.drop_drop, List.take_append_drop]
      · rw [List.zipIdx_append, hpiece, Nat.sub_add_comm haddr]

lemma copyLoop_mono {fuel fuel' : ℕ} (hle : fuel ≤ fuel')
    {r : World × Option (List (UInt8 × ℕ))}
    (hloop : copyLoop h s type addr stop buf fuel p w = some r) :
    copyLoop h s type addr stop buf fuel' p w = some r := by
  induction fuel generalizing fuel' p w r with
  | zero => cases hloop
  | succ fuel ih =>
    obtain ⟨fuel', rfl⟩ := Nat.exists_eq_add_of_le' hle
    rw [copyLoop] at hloop
    rw [← Nat.add_assoc, copyLoop]
    split_ifs at hloop ⊢
    · cases hptr : memPtr h s p type w with
      | mk w₁ r =>
      rw [hptr] at hloop
      cases r with
      | none => exact hloop
      | some ptr =>
        simp only [Option.map_eq_some_iff] at hloop ⊢
        obtain ⟨r, hr, heq⟩ := hloop
        exact ⟨r, ih (Nat.le_add_left _ _) hr, heq⟩
    · exact hloop

lemma copyLoop_byte (ha : ¬ LastPage a) (fuel : ℕ) (buf : List UInt8) :
    copyLoop h s type a ((a + 1) % 2 ^ 64) buf (fuel + 2) a w =
      match memPtr h s a type w with
      | (w₁, none) => some (w₁, none)
      | (w₁, some ptr) => some ((copyPiece type ptr 1 buf w₁).1,
          some ((copyPiece type ptr 1 buf w₁).2.zipIdx)) := by
  have hlt : a + 1 < 2 ^ 64 := by
    unfold LastPage pageSize at ha
    omega
  obtain ⟨hlow, hhigh, -⟩ := chunkEnd_spec (Nat.lt_add_one a) ha
  have hend : chunkEnd (a + 1) a = a + 1 := by omega
  rw [Nat.mod_eq_of_lt hlt, copyLoop, if_pos (Nat.lt_add_one a), hend,
    sub64_of_le (Nat.le_succ a) hlt, sub64_of_le le_rfl (by omega)]
  cases memPtr h s a type w with
  | mk w₁ r =>
  cases r with
  | none => rfl
  | some ptr =>
    simp only [Nat.sub_self, List.drop_zero]
    rw [copyLoop, if_neg (lt_irrefl _)]
    simp

lemma copyLoop_byte_some (ha : ¬ LastPage a) {fuel : ℕ} {cells : List (UInt8 × ℕ)}
    (hloop : copyLoop h s type a ((a + 1) % 2 ^ 64) buf fuel a w = some (w', some cells)) :
    ∃ w₁ ptr, memPtr h s a type w = (w₁, some ptr) ∧ w' = (copyPiece type ptr 1 buf w₁).1 ∧
      cells = (copyPiece type ptr 1 buf w₁).2.zipIdx := by
  have hloop' := copyLoop_mono (Nat.le_add_right fuel 2) hloop
  rw [copyLoop_byte ha] at hloop'
  cases hptr : memPtr h s a type w with
  | mk w₁ r =>
  rw [hptr] at hloop'
  cases r with
  | none => cases hloop'
  | some ptr =>
    obtain ⟨rfl, rfl⟩ := by simpa using hloop'
    exact ⟨w₁, ptr, rfl, rfl, rfl⟩

lemma copyLoop_byte_last (ha : LastPage a) (hlt : a + 1 < 2 ^ 64) (fuel : ℕ)
    (cells : List (UInt8 × ℕ)) :
    copyLoop h s type a ((a + 1) % 2 ^ 64) buf fuel a w ≠ some (w', some cells) := by
  rw [Nat.mod_eq_of_lt hlt]
  exact copyLoop_last ha hlt (Nat.lt_add_one a)

lemma copyLoop_byte_top (fuel : ℕ) :
    copyLoop h s type (2 ^ 64 - 1) ((2 ^ 64 - 1 + 1) % 2 ^ 64) buf (fuel + 1) (2 ^ 64 - 1) w =
      some (w, some []) := by
  rw [copyLoop]
  exact if_neg (by omega)

/-! ### Strings -/

namespace UserCopy

lemma readStringLoop_mono {fuel fuel' : ℕ} (hle : fuel ≤ fuel')
    {r : World × Option (List (Option UInt8))}
    (hloop : readStringLoop h s fuel a buf w = some r) :
    readStringLoop h s fuel' a buf w = some r := by
  induction buf generalizing a w r with
  | nil => exact hloop
  | cons old buf ih =>
    rw [readStringLoop] at hloop ⊢
    cases hread : userReadMem h s a 1 fuel w with
    | none => rw [hread] at hloop; cases hloop
    | some res =>
      have hread' : userReadMem h s a 1 fuel' w = some res := copyLoop_mono hle hread
      rw [hread] at hloop
      rw [hread']
      obtain ⟨w₁, _ | cells⟩ := res
      · exact hloop
      simp only at hloop ⊢
      split_ifs at hloop ⊢
      · exact hloop
      simp only [Option.map_eq_some_iff] at hloop ⊢
      obtain ⟨r, hr, heq⟩ := hloop
      exact ⟨r, ih hr, heq⟩

lemma userReadMem_byte (ha : ¬ LastPage a) {fuel : ℕ} {cells : List (UInt8 × ℕ)}
    (hread : userReadMem h s a 1 fuel w = some (w₁, some cells)) :
    ∃ ptr, memPtr h s a .read w = (w₁, some ptr) ∧ cells = [((w₁.load ptr).getD 0, 0)] := by
  obtain ⟨w₂, ptr, hptr, rfl, rfl⟩ := copyLoop_byte_some ha hread
  exact ⟨ptr, hptr, by simp [copyPiece, loadBytes]⟩

lemma userReadMem_top {fuel : ℕ} {cells : List (UInt8 × ℕ)}
    (hread : userReadMem h s (2 ^ 64 - 1) 1 fuel w = some (w₁, some cells)) :
    w₁ = w ∧ cells = [] := by
  have hread' := copyLoop_mono (Nat.le_add_right fuel 1) hread
  rw [copyLoop_byte_top] at hread'
  simpa [eq_comm] using hread'

lemma readStringLoop_cons {fuel : ℕ} {old : UInt8} {cells : List (Option UInt8)}
    (hloop : readStringLoop h s fuel a (old :: buf) w = some (w', some cells)) :
    ∃ w₁ read, userReadMem h s a 1 fuel w = some (w₁, some read) ∧
      ((read.head?.map Prod.fst).getD old = 0 ∧ cells = [read.head?.map Prod.fst] ∨
        (read.head?.map Prod.fst).getD old ≠ 0 ∧ ∃ more,
          readStringLoop h s fuel ((a + 1) % 2 ^ 64) buf w₁ = some (w', some more) ∧
            cells = read.head?.map Prod.fst :: more) := by
  rw [readStringLoop] at hloop
  cases hread : userReadMem h s a 1 fuel w with
  | none => rw [hread] at hloop; cases hloop
  | some res =>
    rw [hread] at hloop
    obtain ⟨w₁, _ | read⟩ := res
    · cases hloop
    refine ⟨w₁, read, rfl, ?_⟩
    simp only at hloop
    split_ifs at hloop with hnul
    · obtain ⟨-, rfl⟩ := by simpa using hloop
      exact Or.inl ⟨hnul, rfl⟩
    · simp only [Option.map_eq_some_iff] at hloop
      obtain ⟨⟨w₂, _ | more⟩, hrest, heq⟩ := hloop
      · cases heq
      simp only [Prod.map, id, Option.map_some, Option.some.injEq, Prod.mk.injEq] at heq
      obtain ⟨rfl, rfl⟩ := heq
      exact Or.inr ⟨hnul, more, hrest, rfl⟩

def ReadsNul (h : Host) (s a : ℕ) (buf : List UInt8) (w : World) : Prop :=
  ∀ fuel w' cells, readStringLoop h s fuel a buf w = some (w', some cells) →
    some 0 ∈ cells ∧ cells.length ≤ buf.length

lemma readsNul_of_ends (hends : StringEnds h s a buf w) : ReadsNul h s a buf w := by
  induction hends with
  | @refused a old buf w hlt hnone =>
    intro fuel w' cells hloop
    obtain ⟨w₁, read, hread, -⟩ := readStringLoop_cons hloop
    by_cases hlast : LastPage a
    · exact absurd hread (copyLoop_byte_last hlast hlt fuel read)
    · obtain ⟨ptr, hptr, -⟩ := userReadMem_byte hlast hread
      rw [hptr] at hnone
      cases hnone
  | @last a old buf w hlast hlt =>
    intro fuel w' cells hloop
    obtain ⟨w₁, read, hread, -⟩ := readStringLoop_cons hloop
    exact absurd hread (copyLoop_byte_last hlast hlt fuel read)
  | @nul a old buf w w₀ hpage hbyte =>
    intro fuel w' cells hloop
    obtain ⟨w₁, read, hread, hcases⟩ := readStringLoop_cons hloop
    obtain ⟨ptr, hptr, rfl⟩ := userReadMem_byte hpage hread
    have hload : w₁.load ptr = some 0 := by
      rw [readByte, hptr] at hbyte
      exact (Prod.mk.inj hbyte).1 ▸ (Prod.mk.inj hbyte).2
    rcases hcases with ⟨-, rfl⟩ | ⟨hne, -⟩
    · simp [hload]
    · simp [hload] at hne
  | @next a old b buf w w₀ hpage hbyte hne hrest ih =>
    intro fuel w' cells hloop
    obtain ⟨w₁, read, hread, hcases⟩ := readStringLoop_cons hloop
    obtain ⟨ptr, hptr, rfl⟩ := userReadMem_byte hpage hread
    rw [readByte, hptr] at hbyte
    obtain ⟨rfl, hload⟩ := Prod.mk.inj hbyte
    rcases hcases with ⟨hzero, -⟩ | ⟨-, more, hmore, rfl⟩
    · simp [hload, hne] at hzero
    · unfold LastPage pageSize at hpage
      rw [Nat.mod_eq_of_lt (by omega)] at hmore
      obtain ⟨hmem, hlen⟩ := ih fuel w' more hmore
      exact ⟨List.mem_cons_of_mem _ hmem, by simpa using hlen⟩
  | @top old buf w hold hrest ih =>
    intro fuel w' cells hloop
    obtain ⟨w₁, read, hread, hcases⟩ := readStringLoop_cons hloop
    obtain ⟨rfl, rfl⟩ := userReadMem_top hread
    rcases hcases with ⟨hzero, -⟩ | ⟨-, more, hmore, rfl⟩
    · exact absurd hzero hold
    · obtain ⟨hmem, hlen⟩ := ih fuel w' more hmore
      exact ⟨List.mem_cons_of_mem _ hmem, by simpa using hlen⟩

lemma ends_of_readsNul (hv : w.Valid) (ha : a < 2 ^ 64) (hreads : ReadsNul h s a buf w) :
    StringEnds h s a buf w := by
  induction buf generalizing a w with
  | nil => exact absurd (hreads 0 w [] rfl).1 (by simp)
  | cons old buf ih =>
    by_cases htop : a = 2 ^ 64 - 1
    · subst htop
      have hread (fuel : ℕ) : userReadMem h s (2 ^ 64 - 1) 1 (fuel + 1) w = some (w, some []) :=
        copyLoop_byte_top fuel
      by_cases hold : old = 0
      · have hloop : readStringLoop h s 1 (2 ^ 64 - 1) (old :: buf) w = some (w, some [none]) := by
          rw [readStringLoop, hread]
          exact if_pos hold
        exact absurd (hreads 1 _ _ hloop).1 (by simp)
      · refine .top hold (ih hv (by omega) fun fuel w' cells hloop => ?_)
        have hloop' : readStringLoop h s (fuel + 1) (2 ^ 64 - 1) (old :: buf) w =
            some (w', some (none :: cells)) := by
          have hmono := readStringLoop_mono (Nat.le_add_right fuel 1) hloop
          rw [readStringLoop, hread]
          simp only [List.head?_nil, Option.map_none, Option.getD_none]
          rw [Nat.sub_add_cancel (by omega), Nat.mod_self, hmono]
          exact if_neg hold
        obtain ⟨hmem, hlen⟩ := hreads _ _ _ hloop'
        exact ⟨by simpa using hmem, by simpa using hlen⟩
    have hlt : a + 1 < 2 ^ 64 := by omega
    by_cases hlast : LastPage a
    · exact .last hlast hlt
    have hv₁ := valid_memPtr h s a .read hv
    cases hptr : memPtr h s a .read w with
    | mk w₁ r =>
    rw [hptr] at hv₁
    cases r with
    | none => exact .refused hlt (by rw [hptr])
    | some ptr =>
      obtain ⟨b, hload⟩ := Option.isSome_iff_exists.1
        (isSome_load hv₁.balanced (nofault_of_memPtr hptr) ptr.offset)
      have hbyte : readByte h s a w = (w₁, some b) := by
        rw [readByte, hptr]
        exact congrArg (Prod.mk w₁) hload
      by_cases hb : b = 0
      · exact .nul hlast (hb ▸ hbyte)
      refine .next hlast hbyte hb (ih hv₁ hlt fun fuel w' cells hloop => ?_)
      have hread : userReadMem h s a 1 (fuel + 2) w = some (w₁, some [(b, 0)]) := by
        rw [userReadMem, copyLoop_byte hlast, hptr]
        simp [copyPiece, loadBytes, hload]
      have hloop' : readStringLoop h s (fuel + 2) a (old :: buf) w =
          some (w', some (some b :: cells)) := by
        have hmono := readStringLoop_mono (Nat.le_add_right fuel 2) hloop
        rw [readStringLoop, hread]
        simp only [List.head?_cons, Option.map_some, Option.getD_some]
        rw [Nat.mod_eq_of_lt hlt, hmono]
        exact if_neg hb
      obtain ⟨hmem, hlen⟩ := hreads _ _ _ hloop'
      exact ⟨by simpa [Ne.symm hb] using hmem, by simpa using hlen⟩

lemma userWriteMem_byte (ha : ¬ LastPage a) {b : UInt8} {fuel : ℕ} {cells : List (UInt8 × ℕ)}
    (hwrite : userWriteMem h s a [b] false fuel w = some (w', some cells)) :
    ∃ w₁ ptr, memPtr h s a .write w = (w₁, some ptr) ∧ w' = w₁.store ptr b ∧
      cells = [(b, 0)] := by
  obtain ⟨w₁, ptr, hptr, rfl, rfl⟩ := copyLoop_byte_some ha hwrite
  exact ⟨w₁, ptr, hptr, rfl, rfl⟩

lemma writeStringLoop_cons {fuel : ℕ} {b : UInt8} {cells : List (Option UInt8)}
    (hloop : writeStringLoop h s fuel a (b :: bytes) w = some (w', some cells)) :
    ∃ w₁ written more, userWriteMem h s a [b] false fuel w = some (w₁, some written) ∧
      writeStringLoop h s fuel ((a + 1) % 2 ^ 64) bytes w₁ = some (w', some more) ∧
      cells = written.head?.map Prod.fst :: more := by
  rw [writeStringLoop] at hloop
  cases hwrite : userWriteMem h s a [b] false fuel w with
  | none => rw [hwrite] at hloop; cases hloop
  | some res =>
    rw [hwrite] at hloop
    obtain ⟨w₁, _ | written⟩ := res
    · cases hloop
    simp only [Option.map_eq_some_iff] at hloop
    obtain ⟨⟨w₂, _ | more⟩, hrest, heq⟩ := hloop
    · cases heq
    simp only [Prod.map, id, Option.map_some, Option.some.injEq, Prod.mk.injEq] at heq
    obtain ⟨rfl, rfl⟩ := heq
    exact ⟨w₁, written, more, rfl, hrest, rfl⟩

lemma writeStringLoop_copies {fuel : ℕ} {cells : List (Option UInt8)} (ha : a + 1 < 2 ^ 64)
    (hloop : writeStringLoop h s fuel a bytes w = some (w', some cells)) :
    cells = bytes.map some ∧ CopiesBytes h s .write a bytes w w' := by
  induction bytes generalizing a w cells with
  | nil =>
    obtain ⟨rfl, rfl⟩ := by simpa [writeStringLoop] using hloop
    exact ⟨rfl, .done⟩
  | cons b bytes ih =>
    obtain ⟨w₁, written, more, hwrite, hmore, rfl⟩ := writeStringLoop_cons hloop
    by_cases hlast : LastPage a
    · exact absurd hwrite (copyLoop_byte_last hlast ha fuel written)
    · obtain ⟨w₂, ptr, hptr, rfl, rfl⟩ := userWriteMem_byte hlast hwrite
      rw [Nat.mod_eq_of_lt ha] at hmore
      unfold LastPage pageSize at hlast
      obtain ⟨rfl, hcopies⟩ := ih (by omega) hmore
      exact ⟨rfl, .translate hptr (.byte (by omega) (nofault_of_memPtr hptr) rfl hcopies)⟩

lemma writeStringLoop_stops {fuel : ℕ} {cells : List (Option UInt8)}
    (hstops : WriteStops h s a bytes w) :
    writeStringLoop h s fuel a bytes w ≠ some (w', some cells) := by
  intro hloop
  induction hstops generalizing cells with
  | refused hpage hnone =>
    obtain ⟨w₁, written, more, hwrite, -, -⟩ := writeStringLoop_cons hloop
    obtain ⟨w₂, ptr, hptr, -, -⟩ := userWriteMem_byte hpage hwrite
    rw [hptr] at hnone
    cases hnone
  | last hlast hlt =>
    obtain ⟨w₁, written, more, hwrite, -, -⟩ := writeStringLoop_cons hloop
    exact copyLoop_byte_last hlast hlt fuel written hwrite
  | next hpage hptr hrest ih =>
    obtain ⟨w₁, written, more, hwrite, hmore, -⟩ := writeStringLoop_cons hloop
    obtain ⟨w₂, ptr, hptr', rfl, -⟩ := userWriteMem_byte hpage hwrite
    obtain ⟨rfl, hsame⟩ := Prod.mk.inj (hptr.symm.trans hptr')
    obtain rfl := Option.some.inj hsame
    unfold LastPage pageSize at hpage
    rw [Nat.mod_eq_of_lt (by omega)] at hmore
    exact ih hmore

lemma writeStringLoop_total (bytes : List UInt8) (ha : a < 2 ^ 64 - pageSize)
    (hno : ¬ WriteStops h s a bytes w) :
    ∃ w' cells, writeStringLoop h s 2 a bytes w = some (w', some cells) := by
  induction bytes generalizing a w with
  | nil => exact ⟨w, [], rfl⟩
  | cons b bytes ih =>
    have hpage : ¬ LastPage a := not_le.2 ha
    cases hptr : memPtr h s a .write w with
    | mk w₁ r =>
    cases r with
    | none => exact absurd (.refused hpage (by rw [hptr])) hno
    | some ptr =>
      have hwrite : userWriteMem h s a [b] false 2 w = some (w₁.store ptr b, some [(b, 0)]) := by
        rw [userWriteMem]
        refine (copyLoop_byte hpage 0 [b]).trans ?_
        simp only [Bool.false_eq_true, if_false]
        rw [hptr]
        rfl
      have hno' : ¬ WriteStops h s (a + 1) bytes (w₁.store ptr b) := fun hstops =>
        hno (.next hpage hptr hstops)
      have hlt : a + 1 < 2 ^ 64 := by
        unfold pageSize at ha
        omega
      have hrest : ∃ w' cells,
          writeStringLoop h s 2 (a + 1) bytes (w₁.store ptr b) = some (w', some cells) := by
        by_cases hend : a + 1 < 2 ^ 64 - pageSize
        · exact ih hend hno'
        · cases bytes with
          | nil => exact ⟨_, [], rfl⟩
          | cons b' bytes =>
            refine absurd (.last (not_lt.1 hend) ?_) hno'
            unfold pageSize at ha
            omega
      obtain ⟨w', cells, hrest⟩ := hrest
      exact ⟨w', some b :: cells, by
        rw [writeStringLoop, hwrite]
        simp only
        rw [Nat.mod_eq_of_lt hlt, hrest]
        rfl⟩

end UserCopy

/-! ### All calls -/

open UserCopy

lemma copyLoop_allOrError {count : ℕ} (hv : w.Valid) (haddr : addr < 2 ^ 64)
    (hcount : count < 2 ^ 64) (hbuf : type ≠ .read → buf.length = count) :
    (∀ fuel w' cells, copyLoop h s type addr ((addr + count) % 2 ^ 64) buf fuel addr w =
        some (w', some cells) → ∃ bytes, bytes.length = count ∧ (type ≠ .read → bytes = buf) ∧
          cells = bytes.zipIdx ∧ CopiesBytes h s type addr bytes w w') ↔ addr + count < 2 ^ 64 := by
  constructor
  · intro hall
    by_contra hover
    have hloop : copyLoop h s type addr ((addr + count) % 2 ^ 64) buf 1 addr w =
        some (w, some []) := by
      rw [copyLoop]
      exact if_neg (by omega)
    obtain ⟨bytes, hlen, -, hcells, -⟩ := hall 1 w [] hloop
    have hnil := congrArg List.length hcells
    rw [List.length_zipIdx, hlen, List.length_nil] at hnil
    omega
  · intro hfits fuel w' cells hloop
    rw [Nat.mod_eq_of_lt hfits] at hloop
    have hlen : type ≠ .read → buf.length = addr + count - addr := fun hw => by
      rw [hbuf hw, Nat.add_sub_cancel_left]
    obtain ⟨bytes, hbytes, hsame, hcells, hcopies⟩ :=
      copyLoop_copies hv le_rfl (Nat.le_add_right _ _) hfits hlen hloop
    rw [Nat.sub_self] at hsame hcells
    exact ⟨bytes, by rw [hbytes, Nat.add_sub_cancel_left], hsame, hcells, hcopies⟩

/-- A copy between the kernel and a guest is all or an error if and only if its end does not
overflow and its string ends in its buffer. -/
theorem userCopy_allOrError_iff (call : CopyCall) (hv : w.Valid) (haddr : addr < 2 ^ 64)
    (hcount : call.count < 2 ^ 64) : call.AllOrError h s addr w ↔ call.Fits h s addr w := by
  cases call with
  | read count =>
    have hall := @copyLoop_allOrError h s w .read addr [] count hv haddr hcount (by simp)
    simp only [ne_eq, not_true_eq_false, false_implies, true_and] at hall
    exact hall
  | write buf ptrace =>
    have htype : (if ptrace then .writePtrace else .write : AccessType) ≠ .read := by
      cases ptrace <;> simp
    refine Iff.trans ?_ (@copyLoop_allOrError h s w (if ptrace then .writePtrace else .write) addr
      buf buf.length hv haddr hcount fun _ => rfl)
    refine forall_congr' fun fuel => forall_congr' fun w' => forall_congr' fun cells =>
      forall_congr' fun _ => ?_
    constructor
    · rintro ⟨hcells, hcopies⟩
      exact ⟨buf, rfl, fun _ => rfl, hcells, hcopies⟩
    · rintro ⟨bytes, -, hbytes, hcells, hcopies⟩
      obtain rfl := hbytes htype
      exact ⟨hcells, hcopies⟩
  | readString buf =>
    by_cases hzero : addr = 0
    · refine iff_of_true (fun fuel w' cells hloop => ?_) (Or.inl hzero)
      rw [UserCopy.userReadString, if_pos hzero] at hloop
      cases hloop
    · have hiff : ReadsNul h s addr buf w ↔ StringEnds h s addr buf w :=
        ⟨ends_of_readsNul hv haddr, readsNul_of_ends⟩
      simp only [CopyCall.AllOrError, CopyCall.Fits, UserCopy.userReadString, hzero, if_false,
        false_or]
      exact hiff
  | writeString str =>
    obtain ⟨b, rest, hstr⟩ : ∃ b rest, str ++ [0] = b :: rest :=
      List.exists_cons_of_ne_nil (by simp)
    simp only [CopyCall.AllOrError, CopyCall.Fits, UserCopy.userWriteString, hstr, List.drop_one,
      List.tail_cons]
    constructor
    · intro hall
      by_contra hno
      have hover : ¬ addr + 1 < 2 ^ 64 := fun hlt => hno (Or.inl hlt)
      have hgoes : ¬ WriteStops h s 0 rest w := fun hstops => hno (Or.inr hstops)
      obtain rfl : addr = 2 ^ 64 - 1 := by omega
      obtain ⟨w', more, hmore⟩ := writeStringLoop_total rest (by decide) hgoes
      have hloop : writeStringLoop h s 2 (2 ^ 64 - 1) (b :: rest) w =
          some (w', some (none :: more)) := by
        rw [writeStringLoop, UserCopy.userWriteMem, List.length_singleton, copyLoop_byte_top]
        simp only
        rw [Nat.sub_add_cancel (by omega), Nat.mod_self, hmore]
        rfl
      have hcells := (hall 2 w' _ (by rw [if_neg (by omega)]; exact hloop)).1
      simp at hcells
    · intro hfits fuel w' cells hloop
      by_cases hzero : addr = 0
      · rw [if_pos hzero] at hloop
        cases hloop
      rw [if_neg hzero] at hloop
      by_cases htop : addr + 1 < 2 ^ 64
      · exact writeStringLoop_copies htop hloop
      · obtain rfl : addr = 2 ^ 64 - 1 := by omega
        obtain ⟨w₁, written, more, hwrite, hmore, -⟩ := writeStringLoop_cons hloop
        have hwrite' := copyLoop_mono (Nat.le_add_right fuel 1) hwrite
        rw [List.length_singleton, copyLoop_byte_top] at hwrite'
        obtain ⟨rfl, -⟩ := by simpa using hwrite'
        rw [Nat.sub_add_cancel (by omega), Nat.mod_self] at hmore
        exact absurd hmore (writeStringLoop_stops (hfits.resolve_left htop))

/-- Two pages from `0x5000` on, with an `a` at the start of the second one. -/
def twoPages : World :=
  run MemOp.step World.init
    [({}, .mapNothing 0 ⟨5, 2, by decide⟩ ⟨pWrite, fun _ => rfl⟩), ({}, .write 0 0x6000 97)]

lemma twoPages_valid : twoPages.Valid := MemOp.valid_run _ World.valid_init

/-- A read over the end of the first page. -/
theorem userCopy_allOrError_twoPages : (CopyCall.read 16).AllOrError {} 0 0x5ff8 twoPages :=
  (userCopy_allOrError_iff (.read 16) twoPages_valid (by decide) (by decide)).2
    (show 0x5ff8 + 16 < 2 ^ 64 by decide)

/-- A read of 16 bytes from eight bytes before the last address succeeds and reads nothing, and a
string of one byte without a terminator is read into a buffer of one byte. -/
theorem userCopy_reads_nothing :
    ¬ (CopyCall.read 16).AllOrError {} 0 (2 ^ 64 - 8) twoPages ∧
      ¬ (CopyCall.readString [0]).AllOrError {} 0 0x6000 twoPages := by
  constructor
  · intro hall
    have hloop : UserCopy.userReadMem {} 0 (2 ^ 64 - 8) 16 1 twoPages =
        some (twoPages, some []) := by
      rw [UserCopy.userReadMem, copyLoop]
      exact if_neg (by decide)
    obtain ⟨bytes, hlen, hcells, -⟩ := hall 1 twoPages [] hloop
    have hnil := congrArg List.length hcells
    rw [List.length_zipIdx, hlen] at hnil
    cases hnil
  · intro hall
    have hreads : ReadsNul {} 0 0x6000 [0] twoPages := fun fuel w' cells hloop =>
      hall fuel w' cells ((if_neg (by decide)).trans hloop)
    have hbyte : (readByte {} 0 0x6000 twoPages).2 = some 97 := by decide +kernel
    cases ends_of_readsNul twoPages_valid (by decide) hreads with
    | refused _ hnone =>
      rw [readByte] at hbyte
      generalize memPtr {} 0 0x6000 .read twoPages = r at hbyte hnone
      obtain ⟨w₁, _ | ptr⟩ := r
      · cases hbyte
      · cases hnone
    | last hlast => exact absurd hlast (by decide)
    | nul _ hnul =>
      rw [hnul] at hbyte
      cases hbyte
    | next _ _ _ hrest => cases hrest

end ShellBox
