import ShellBox.Logic.Loop

/-!
# The input side of a terminal

The bytes that have been typed lie in one buffer, with a flag beside each place: the flag marks the
end of a line, and the end of a line that an EOF character made is a NUL byte with the flag. In
non-canonical mode the bytes go to the same buffer, and the flags are left as they are.

Echo is left out, and the terminal has not been hung up.
-/

namespace ShellBox

/-- The parts of `struct termios_` that input looks at. -/
structure Termios where
  iflags : ℕ
  lflags : ℕ
  cc : ℕ → UInt8

def vintr : ℕ := 0
def vquit : ℕ := 1
def verase : ℕ := 2
def vkill : ℕ := 3
def veof : ℕ := 4
def vtime : ℕ := 5
def vmin : ℕ := 6
def vsusp : ℕ := 10
def veol : ℕ := 11
def vwerase : ℕ := 14

namespace Termios

variable (tm : Termios)

def isig : Bool := tm.lflags.testBit 0
def icanon : Bool := tm.lflags.testBit 1
def noflsh : Bool := tm.lflags.testBit 7
def inlcr : Bool := tm.iflags.testBit 6
def igncr : Bool := tm.iflags.testBit 7
def icrnl : Bool := tm.iflags.testBit 8

end Termios

def ttyBufSize : ℕ := 4096

/-- `struct tty`. `buf` is the part of the buffer that is in use, and `flag` the whole of
`buf_flag`. `charSigned` says of the host whether `char` is signed: then a byte from 128 on is never
equal to a control character, which is an `unsigned char`. -/
structure Tty where
  buf : List UInt8
  flag : ℕ → Bool
  termios : Termios
  fgGroup : ℕ
  charSigned : Bool

inductive TtyEvent
  /-- A round of the loop of `tty_input`. -/
  | char (ch : UInt8)
  /-- A call of `tty_read`. `timeout` says that it will not wait any longer. -/
  | read (size : ℕ) (timeout : Bool)
  /-- `TCSETS`, or `TCSETSF`, which also empties the buffer. -/
  | set (termios : Termios) (flush : Bool)

namespace Tty

variable (t : Tty)

def isCc (ch : UInt8) (i : ℕ) : Bool := ch = t.termios.cc i ∧ (t.charSigned = true → ch < 128)

/-- The condition of `tty_push_char`. -/
def full : Bool := ttyBufSize ≤ t.buf.length

/-- `tty_push_char`, when there is room. -/
def pushChar (ch : UInt8) (flag : Bool) : Tty :=
  { t with buf := t.buf ++ [ch], flag := Function.update t.flag t.buf.length flag }

/-- Whether a byte is taken by `tty_send_input_signal`. -/
def isSignal (ch : UInt8) : Bool :=
  t.termios.isig ∧ ch ≠ 0 ∧ (t.isCc ch vintr ∨ t.isCc ch vquit ∨ t.isCc ch vsusp)

/-- What `tty_send_input_signal` does with the buffer. -/
def signalled : Tty :=
  if t.fgGroup ≠ 0 ∧ ¬ t.termios.noflsh then { t with buf := [] } else t

/-- The loop that erases up to `count` bytes, and none that has the flag. -/
def eraseLoop : ℕ → Tty → Tty
  | 0, t => t
  | count + 1, t =>
    if t.flag (t.buf.length - 1) then t else eraseLoop count { t with buf := t.buf.dropLast }

def translate (ch : UInt8) : UInt8 :=
  if t.termios.inlcr ∧ ch = 10 then 13 else if t.termios.icrnl ∧ ch = 13 then 10 else ch

/-- A byte in canonical mode. When the buffer is full, a byte that is to be put there waits. -/
def inputCanon (ch₀ : UInt8) : Tty :=
  let ch := t.translate ch₀
  if t.termios.igncr ∧ ch = 13 then t
  else if ch = 0 then if t.full then t else t.pushChar ch false
  else if t.isCc ch verase ∨ t.isCc ch vkill then
    t.eraseLoop (if t.isCc ch verase ∧ 0 < t.buf.length then 1 else t.buf.length)
  else if t.isCc ch veof then if t.full then t else t.pushChar 0 true
  else if ch = 10 ∨ t.isCc ch veol then if t.full then t else t.pushChar ch true
  else if t.isSignal ch then t.signalled
  else if t.full then t
  else t.pushChar ch false

def inputRaw (ch : UInt8) : Tty :=
  if t.isSignal ch then t.signalled
  else if t.full then t
  else { t with buf := t.buf ++ [ch] }

/-- A byte given to `tty_input`. -/
def inputChar (ch : UInt8) : Tty := if t.termios.icanon then t.inputCanon ch else t.inputRaw ch

/-- `tty_read_into_buf`. The flags behind the bytes that are left stay. -/
def readIntoBuf (n : ℕ) : Tty :=
  { t with
    buf := t.buf.drop n
    flag := fun i => if i < t.buf.length - n then t.flag (i + n) else t.flag i }

/-- `tty_canon_size` -/
def canonSize : Option ℕ := ((List.range t.buf.length).find? t.flag).map (· + 1)

/-- Whether the byte at a place is taken for the end of a line made by an EOF character. -/
def eofAt (i : ℕ) : Bool := t.buf[i]? = some 0 ∧ t.flag i

/-- The end of `tty_read`, for `n` bytes. -/
def takeBytes (n : ℕ) : Tty × Option (List UInt8) :=
  let t' := t.readIntoBuf n
  (if t'.eofAt 0 then t'.readIntoBuf 1 else t', some (t.buf.take n))

def rawWaits (timeout : Bool) : Bool :=
  t.buf.length < (t.termios.cc vmin).toNat ∧ ¬ (timeout ∧ t.termios.cc vtime ≠ 0)

/-- `tty_read`: the bytes, or nothing as yet. -/
def read (size : ℕ) (timeout : Bool) : Tty × Option (List UInt8) :=
  if size = 0 then (t, some [])
  else if t.termios.icanon then
    match t.canonSize with
    | none => (t, none)
    | some c =>
      -- a null byte means that EOF was typed
      t.takeBytes (min size (if t.buf[c - 1]? = some 0 then c - 1 else c))
  else if t.rawWaits timeout then (t, none)
  else t.takeBytes (min size t.buf.length)

end Tty

structure TtyRun where
  tty : Tty
  reads : List (Option (List UInt8))

def ttyStep (s : TtyRun) : TtyEvent → TtyRun
  | .char ch => { s with tty := s.tty.inputChar ch }
  | .read size timeout =>
    ⟨(s.tty.read size timeout).1, s.reads ++ [(s.tty.read size timeout).2]⟩
  | .set termios flush =>
    { s with tty := { s.tty with termios, buf := if flush then [] else s.tty.buf } }

namespace Tty

variable {t : Tty}

@[simp] lemma readIntoBuf_buf (n : ℕ) : (t.readIntoBuf n).buf = t.buf.drop n := rfl

lemma readIntoBuf_eofAt (n i : ℕ) : (t.readIntoBuf n).eofAt i = t.eofAt (i + n) := by
  simp only [eofAt, readIntoBuf, List.getElem?_drop, Nat.add_comm n i]
  by_cases hi : i < t.buf.length - n
  · rw [if_pos hi]
  · have hnone : t.buf[i + n]? = none := List.getElem?_eq_none (by omega)
    simp [hnone]

lemma takeBytes_fst_buf (n : ℕ) :
    (t.takeBytes n).1.buf = if t.eofAt n then t.buf.drop (n + 1) else t.buf.drop n := by
  simp only [takeBytes, readIntoBuf_eofAt, Nat.zero_add]
  split_ifs
  · simp [List.drop_drop]
  · rfl

lemma takeBytes_snd (n : ℕ) : (t.takeBytes n).2 = some (t.buf.take n) := rfl

end Tty

/-! ### Non-canonical mode -/

def typed (es : List TtyEvent) : List UInt8 :=
  es.flatMap fun
    | .char ch => [ch]
    | _ => []

lemma typed_cons (e : TtyEvent) (es : List TtyEvent) : typed (e :: es) = typed [e] ++ typed es := by
  simp [typed]

namespace TtyRun

def delivered (s : TtyRun) : List UInt8 := s.reads.flatMap fun r => r.getD []

def contents (s : TtyRun) : List UInt8 := s.delivered ++ s.tty.buf

/-- The mode and the bounds of a transparent terminal: not canonical, no signals, and room for what
is typed. -/
def Raw (s : TtyRun) : TtyEvent → Prop
  | .char _ => s.tty.termios.icanon = false ∧ s.tty.termios.isig = false ∧ s.tty.full = false
  | .read _ _ => s.tty.termios.icanon = false
  | .set _ _ => False

/-- The condition on a step: behind the bytes that a read takes is no NUL byte with an old flag. -/
def NoMark (s : TtyRun) : TtyEvent → Prop
  | .read size timeout => size ≠ 0 → s.tty.rawWaits timeout = false →
      s.tty.eofAt (min size s.tty.buf.length) = false
  | _ => True

variable {s : TtyRun} {e : TtyEvent}

lemma delivered_read (size : ℕ) (timeout : Bool) :
    (ttyStep s (.read size timeout)).delivered =
      s.delivered ++ (s.tty.read size timeout).2.getD [] := by
  simp [ttyStep, delivered]

lemma contents_char {ch : UInt8} (hraw : s.Raw (.char ch)) :
    (ttyStep s (.char ch)).contents = s.contents ++ [ch] := by
  obtain ⟨hcanon, hsig, hfull⟩ := hraw
  have hnot : s.tty.isSignal ch = false := by simp [Tty.isSignal, hsig]
  have hbuf : (s.tty.inputChar ch).buf = s.tty.buf ++ [ch] := by
    simp only [Tty.inputChar, hcanon, Tty.inputRaw, hnot, hfull, Bool.false_eq_true, if_false]
  change s.delivered ++ (s.tty.inputChar ch).buf = s.delivered ++ s.tty.buf ++ [ch]
  rw [hbuf, List.append_assoc]

lemma contents_read {size : ℕ} {timeout : Bool} (hraw : s.Raw (.read size timeout)) :
    (ttyStep s (.read size timeout)).contents =
      if size ≠ 0 ∧ s.tty.rawWaits timeout = false ∧
          s.tty.eofAt (min size s.tty.buf.length) = true then
        s.delivered ++ (s.tty.buf.take (min size s.tty.buf.length) ++
          s.tty.buf.drop (min size s.tty.buf.length + 1))
      else s.contents := by
  have hcanon : s.tty.termios.icanon = false := hraw
  rw [contents, delivered_read]
  change s.delivered ++ _ ++ (s.tty.read size timeout).1.buf = _
  by_cases hsize : size = 0
  · rw [if_neg fun hc => hc.1 hsize]
    simp [Tty.read, hsize, contents]
  by_cases hwaits : s.tty.rawWaits timeout = true
  · rw [if_neg fun hc => absurd (hc.2.1.symm.trans hwaits) Bool.false_ne_true]
    simp [Tty.read, hsize, hcanon, hwaits, contents]
  have hread : s.tty.read size timeout = s.tty.takeBytes (min size s.tty.buf.length) := by
    simp only [Tty.read, if_neg hsize, hcanon, Bool.false_eq_true, if_false, if_neg hwaits]
  rw [hread, Tty.takeBytes_snd, Tty.takeBytes_fst_buf, Option.getD_some, List.append_assoc]
  by_cases hmark : s.tty.eofAt (min size s.tty.buf.length) = true
  · rw [if_pos hmark, if_pos ⟨hsize, Bool.eq_false_iff.2 hwaits, hmark⟩]
  · rw [if_neg hmark, if_neg fun hc => hmark hc.2.2, List.take_append_drop]
    rfl

lemma contents_step (hraw : s.Raw e) (hmark : s.NoMark e) :
    (ttyStep s e).contents = s.contents ++ typed [e] := by
  cases e with
  | char ch => exact contents_char hraw
  | read size timeout =>
    rw [contents_read hraw, if_neg]
    · exact (List.append_nil _).symm
    · rintro ⟨hsize, hwaits, heof⟩
      rw [hmark hsize hwaits] at heof
      cases heof
  | set termios flush => exact hraw.elim

lemma contents_lost (hraw : s.Raw e) (hmark : ¬ s.NoMark e) :
    (ttyStep s e).contents.length < (s.contents ++ typed [e]).length := by
  cases e with
  | char ch => exact absurd trivial hmark
  | read size timeout =>
    simp only [NoMark, Classical.not_imp, Bool.not_eq_false] at hmark
    rw [contents_read hraw, if_pos hmark]
    have heof := hmark.2.2
    simp only [Tty.eofAt, decide_eq_true_eq] at heof
    have hlt := (List.getElem?_eq_some_iff.1 heof.1).1
    simp only [contents, typed, List.length_append, List.length_take, List.length_drop,
      List.flatMap_cons, List.flatMap_nil, List.append_nil]
    omega
  | set termios flush => exact hraw.elim

lemma contents_run_le {es : List TtyEvent} (hes : RunAll ttyStep Raw s es) :
    (run ttyStep s es).contents.length ≤ (s.contents ++ typed es).length := by
  induction es generalizing s with
  | nil => simp [typed]
  | cons e es ih =>
    have hrest := ih hes.2
    have hstep : (ttyStep s e).contents.length ≤ (s.contents ++ typed [e]).length := by
      by_cases hmark : s.NoMark e
      · rw [contents_step hes.1 hmark]
      · exact (contents_lost hes.1 hmark).le
    rw [run_cons]
    rw [typed_cons]
    simp only [List.length_append] at hrest hstep ⊢
    omega

lemma contents_run_iff {es : List TtyEvent} (hes : RunAll ttyStep Raw s es) :
    (run ttyStep s es).contents = s.contents ++ typed es ↔ RunAll ttyStep NoMark s es := by
  induction es generalizing s with
  | nil => simp [typed, RunAll]
  | cons e es ih =>
    rw [run_cons, typed_cons]
    by_cases hmark : s.NoMark e
    · rw [← List.append_assoc, ← contents_step hes.1 hmark, ih hes.2]
      exact ⟨fun h => ⟨hmark, h⟩, fun h => h.2⟩
    · refine ⟨fun h => ?_, fun h => absurd h.1 hmark⟩
      have hlost := contents_lost hes.1 hmark
      have hle := contents_run_le hes.2
      have hlen := congrArg List.length h
      simp only [List.length_append] at hlost hle hlen
      omega

end TtyRun

/-- **Raw mode**: what has been read and what can still be is what there was at first and what has
been typed since, if and only if no read stops short of a NUL byte at a place that was the end of a
line before. -/
theorem raw_transparent_iff (t : Tty) {es : List TtyEvent}
    (hes : RunAll ttyStep TtyRun.Raw ⟨t, []⟩ es) :
    (run ttyStep ⟨t, []⟩ es).delivered ++ (run ttyStep ⟨t, []⟩ es).tty.buf = t.buf ++ typed es ↔
      RunAll ttyStep TtyRun.NoMark ⟨t, []⟩ es :=
  TtyRun.contents_run_iff hes

def defaultTermios (canonical : Bool) : Termios where
  iflags := 0x500
  lflags := if canonical then 0x827b else 0
  cc i := [3, 28, 127, 21, 4, 0, 1, 0, 17, 19, 26, 0, 18, 15, 23, 22].getD i 0

/-- `tty_alloc` -/
def newTty : Tty := ⟨[], fun _ => false, defaultTermios true, 0, true⟩

/-- Bytes are typed and read in two pieces, the second of which begins with a NUL byte. -/
theorem raw_transparent_nul :
    (run ttyStep ⟨{ newTty with termios := defaultTermios false }, []⟩
        [.char 120, .char 0, .read 1 false, .read 5 false]).delivered ++
      (run ttyStep ⟨{ newTty with termios := defaultTermios false }, []⟩
        [.char 120, .char 0, .read 1 false, .read 5 false]).tty.buf =
      [] ++ typed [.char 120, .char 0, .read 1 false, .read 5 false] := by
  refine (raw_transparent_iff _ ?_).2 ?_
  · exact ⟨⟨rfl, rfl, rfl⟩, ⟨rfl, rfl, rfl⟩, rfl, rfl, trivial⟩
  · exact ⟨trivial, trivial, fun _ _ => rfl, fun _ _ => rfl, trivial⟩

/-- A terminal on which a line of three bytes has been typed and read, now in non-canonical mode. -/
def afterLine : Tty :=
  (run ttyStep ⟨newTty, []⟩ [.char 97, .char 98, .char 10, .read 8 false,
    .set (defaultTermios false) false]).tty

/-- The NUL byte at the place of the line's end is lost when a read stops before it. -/
theorem raw_not_transparent :
    ¬ ((run ttyStep ⟨afterLine, []⟩ [.char 120, .char 121, .char 0, .read 2 false]).delivered ++
        (run ttyStep ⟨afterLine, []⟩ [.char 120, .char 121, .char 0, .read 2 false]).tty.buf =
      afterLine.buf ++ typed [.char 120, .char 121, .char 0, .read 2 false]) := by
  decide

/-! ### Canonical mode -/

inductive CharKind
  | ordinary (ch : UInt8)
  | lineEnd (ch : UInt8)
  | eof
  | erase
  | wordErase
  | kill
  | ignored

structure TtyLine where
  bytes : List UInt8
  last : Option UInt8

namespace TtyLine

def contents (l : TtyLine) : List UInt8 := l.bytes ++ l.last.toList

def drop (l : TtyLine) (n : ℕ) : TtyLine := ⟨l.bytes.drop n, l.last⟩

end TtyLine

structure LineEditor where
  lines : List TtyLine
  current : List UInt8

namespace LineEditor

variable (q : LineEditor)

def eraseWord (bs : List UInt8) : List UInt8 :=
  ((bs.reverse.dropWhile fun ch => ch = 32 ∨ ch = 9).dropWhile fun ch => ch ≠ 32 ∧ ch ≠ 9).reverse

def type : CharKind → LineEditor
  | .ordinary ch => { q with current := q.current ++ [ch] }
  | .lineEnd ch => ⟨q.lines ++ [⟨q.current, some ch⟩], []⟩
  | .eof => ⟨q.lines ++ [⟨q.current, none⟩], []⟩
  | .erase => { q with current := q.current.dropLast }
  | .wordErase => { q with current := eraseWord q.current }
  | .kill => { q with current := [] }
  | .ignored => q

def read (size : ℕ) : LineEditor × Option (List UInt8) :=
  if size = 0 then (q, some [])
  else
    match q.lines with
    | [] => (q, none)
    | l :: ls =>
      (if l.contents.length ≤ size then { q with lines := ls }
        else { q with lines := l.drop size :: ls }, some (l.contents.take size))

end LineEditor

/-- What a byte is with the settings of the terminal. `werase` says whether the word-erase character
is one. -/
def Tty.charKind (t : Tty) (werase : Bool) (ch₀ : UInt8) : CharKind :=
  let ch := t.translate ch₀
  if t.termios.igncr ∧ ch = 13 then .ignored
  else if ch = 0 then .ordinary 0
  else if t.isCc ch verase then .erase
  else if t.isCc ch vkill then .kill
  else if t.isCc ch veof then .eof
  else if ch = 10 ∨ t.isCc ch veol then .lineEnd ch
  else if werase ∧ t.isCc ch vwerase then .wordErase
  else .ordinary ch

structure EditorRun where
  editor : LineEditor
  reads : List (Option (List UInt8))

def editorStep (t : Tty) (werase : Bool) (s : EditorRun) : TtyEvent → EditorRun
  | .char ch => { s with editor := s.editor.type (t.charKind werase ch) }
  | .read size _ => ⟨(s.editor.read size).1, s.reads ++ [(s.editor.read size).2]⟩
  | .set _ _ => s

namespace Tty

def cells (t : Tty) : List (UInt8 × Bool) := t.buf.mapIdx fun i ch => (ch, t.flag i)

end Tty

def TtyLine.cells (l : TtyLine) : List (UInt8 × Bool) :=
  l.bytes.map (·, false) ++ [(l.last.getD 0, true)]

def LineEditor.cells (q : LineEditor) : List (UInt8 × Bool) :=
  q.lines.flatMap TtyLine.cells ++ q.current.map (·, false)

def LineEditor.Ended (q : LineEditor) : Prop := ∀ l ∈ q.lines, l.last ≠ some 0

namespace Tty

variable {t : Tty}

lemma getElem?_cells (i : ℕ) : t.cells[i]? = t.buf[i]?.map fun ch => (ch, t.flag i) := by
  simp [cells]

lemma cells_pushChar (ch : UInt8) (flag : Bool) :
    (t.pushChar ch flag).cells = t.cells ++ [(ch, flag)] := by
  have hprefix : t.buf.mapIdx (fun i ch => (ch, Function.update t.flag t.buf.length flag i)) =
      t.cells := by
    apply List.ext_getElem?
    intro i
    rw [getElem?_cells, List.getElem?_mapIdx]
    by_cases hi : i = t.buf.length
    · simp [hi]
    · rw [Function.update_of_ne hi]
  simp only [cells, pushChar, List.mapIdx_concat, hprefix, Function.update_self]

lemma cells_readIntoBuf (n : ℕ) : (t.readIntoBuf n).cells = t.cells.drop n := by
  apply List.ext_getElem?
  intro i
  rw [getElem?_cells, List.getElem?_drop, getElem?_cells, readIntoBuf_buf, List.getElem?_drop,
    Nat.add_comm n i]
  by_cases hi : i < t.buf.length - n
  · simp only [readIntoBuf, if_pos hi]
  · have hnone : t.buf[i + n]? = none := List.getElem?_eq_none (by omega)
    rw [hnone]
    rfl

lemma length_cells : t.cells.length = t.buf.length := by simp [cells]

lemma cells_dropLast : { t with buf := t.buf.dropLast }.cells = t.cells.dropLast := by
  apply List.ext_getElem?
  intro i
  rw [getElem?_cells, List.getElem?_dropLast, List.getElem?_dropLast, getElem?_cells, length_cells]
  split_ifs <;> rfl

lemma flag_last (pre : List (UInt8 × Bool)) {ch : UInt8} {f : Bool}
    (h : t.cells = pre ++ [(ch, f)]) :
    t.flag (t.buf.length - 1) = f := by
  have hlen : t.buf.length = pre.length + 1 := by rw [← length_cells, h]; simp
  have hget := getElem?_cells (t := t) pre.length
  rw [h, List.getElem?_concat_length] at hget
  obtain ⟨c, -, hc⟩ := Option.map_eq_some_iff.1 hget.symm
  rw [hlen]
  exact congrArg Prod.snd hc

lemma cells_eraseLoop {pre : List (UInt8 × Bool)} (hpre : ∀ c, pre.getLast? = some c → c.2 = true)
    {cur : List UInt8} {n : ℕ} (hn : n ≤ t.buf.length) (h : t.cells = pre ++ cur.map (·, false)) :
    (t.eraseLoop n).cells = pre ++ (cur.take (cur.length - n)).map (·, false) := by
  induction n generalizing t cur with
  | zero => simpa [eraseLoop] using h
  | succ n ih =>
    rw [eraseLoop]
    obtain rfl | ⟨cs, ch, rfl⟩ := List.eq_nil_or_concat' cur
    · have hne : pre ≠ [] := by
        rintro rfl
        have hlen := congrArg List.length h
        rw [length_cells] at hlen
        simp only [List.map_nil, List.append_nil, List.length_nil] at hlen
        omega
      obtain ⟨ps, ⟨ch, f⟩, rfl⟩ := (List.eq_nil_or_concat' pre).resolve_left hne
      have hf : f = true := hpre (ch, f) (by simp)
      have hflag : t.flag (t.buf.length - 1) = f := flag_last ps (by simpa using h)
      rw [hflag, if_pos hf, h]
      simp
    · have hflag : t.flag (t.buf.length - 1) = false :=
        flag_last (pre ++ cs.map (·, false)) (by simpa using h)
      rw [hflag, if_neg Bool.false_ne_true]
      have hdrop : { t with buf := t.buf.dropLast }.cells = pre ++ cs.map (·, false) := by
        rw [cells_dropLast, h]
        simp [← List.append_assoc]
      rw [ih (by simp; omega) hdrop]
      simp only [List.length_append, List.length_singleton]
      rw [Nat.add_sub_add_right, List.take_append_of_le_length (by omega)]

lemma eofAt_iff (i : ℕ) : t.eofAt i = true ↔ t.cells[i]? = some (0, true) := by
  rw [getElem?_cells, eofAt, decide_eq_true_eq]
  cases t.buf[i]? with
  | none => simp
  | some ch => simp

lemma flag_of_cells {i : ℕ} {c : UInt8 × Bool} (h : t.cells[i]? = some c) :
    t.flag i = c.2 ∧ t.buf[i]? = some c.1 := by
  rw [getElem?_cells] at h
  obtain ⟨ch, hch, hc⟩ := Option.map_eq_some_iff.1 h
  exact ⟨congrArg Prod.snd hc, hch.trans (congrArg (some ∘ Prod.fst) hc)⟩

lemma map_fst_cells : t.cells.map Prod.fst = t.buf := by
  apply List.ext_getElem?
  intro i
  rw [List.getElem?_map, getElem?_cells]
  cases t.buf[i]? <;> rfl

lemma cells_takeBytes (n : ℕ) :
    (t.takeBytes n).1.cells =
      if t.cells[n]? = some (0, true) then t.cells.drop (n + 1) else t.cells.drop n := by
  simp only [takeBytes, readIntoBuf_eofAt, Nat.zero_add, eofAt_iff]
  split_ifs
  · rw [cells_readIntoBuf, cells_readIntoBuf, List.drop_drop]
  · exact cells_readIntoBuf n

lemma canonSize_line {bs : List UInt8} {ch : UInt8} {rest : List (UInt8 × Bool)}
    (h : t.cells = bs.map (·, false) ++ (ch, true) :: rest) :
    t.canonSize = some (bs.length + 1) ∧ t.buf[bs.length]? = some ch := by
  have hlast := flag_of_cells (t := t) (i := bs.length) (c := (ch, true)) (by rw [h]; simp)
  refine ⟨?_, hlast.2⟩
  have hlen := (List.getElem?_eq_some_iff.1 hlast.2).1
  have hfind : (List.range t.buf.length).find? t.flag = some bs.length := by
    rw [List.find?_range_eq_some]
    refine ⟨hlast.1, List.mem_range.2 hlen, fun j hj => ?_⟩
    have hj' : t.cells[j]? = some (bs[j], false) := by
      rw [h, List.getElem?_append_left (by simpa using hj)]
      simp [hj]
    simp [(flag_of_cells hj').1]
  rw [canonSize, hfind]
  rfl

lemma canonSize_none {cur : List UInt8} (h : t.cells = cur.map (·, false)) :
    t.canonSize = none := by
  have hfind : (List.range t.buf.length).find? t.flag = none := by
    rw [List.find?_range_eq_none]
    intro j hj
    have hlen : j < cur.length := by
      rw [← length_cells, h] at hj
      simpa using hj
    have hj' : t.cells[j]? = some (cur[j], false) := by
      rw [h]
      simp [hlen]
    simp [(flag_of_cells hj').1]
  rw [canonSize, hfind]
  rfl

end Tty

namespace LineEditor

lemma getLast?_lines (q : LineEditor) (c : UInt8 × Bool)
    (hc : (q.lines.flatMap TtyLine.cells).getLast? = some c) : c.2 = true := by
  obtain hlines | ⟨ls, l, hlines⟩ := List.eq_nil_or_concat' q.lines
  · rw [hlines] at hc
    cases hc
  · rw [hlines, List.flatMap_append, List.flatMap_singleton, TtyLine.cells, ← List.append_assoc,
      List.getLast?_concat] at hc
    exact congrArg Prod.snd (Option.some.inj hc).symm

end LineEditor

structure Tty.Holds (t : Tty) (q : LineEditor) : Prop where
  cells : t.cells = q.cells
  ended : q.Ended

namespace Tty

variable {t : Tty} {q : LineEditor}

lemma Holds.erased (h : t.Holds q) {n m : ℕ} (hn : n ≤ t.buf.length)
    (hm : q.current.take (q.current.length - n) = q.current.take m) :
    (t.eraseLoop n).Holds { q with current := q.current.take m } :=
  ⟨by rw [cells_eraseLoop q.getLast?_lines hn h.cells, hm]; rfl, h.ended⟩

lemma Holds.length_current (h : t.Holds q) : q.current.length ≤ t.buf.length := by
  rw [← length_cells, h.cells, LineEditor.cells, List.length_append, List.length_map]
  exact Nat.le_add_left _ _

lemma Holds.pushOrdinary (h : t.Holds q) (ch : UInt8) :
    (t.pushChar ch false).Holds (q.type (.ordinary ch)) := by
  refine ⟨?_, h.ended⟩
  rw [cells_pushChar, h.cells, LineEditor.cells, List.append_assoc]
  simp [LineEditor.type, LineEditor.cells]

lemma Holds.pushLine (h : t.Holds q) (last : Option UInt8) (hlast : last ≠ some 0) :
    (t.pushChar (last.getD 0) true).Holds ⟨q.lines ++ [⟨q.current, last⟩], []⟩ := by
  refine ⟨?_, fun l hl => ?_⟩
  · rw [cells_pushChar, h.cells, LineEditor.cells, List.append_assoc]
    simp [LineEditor.cells, TtyLine.cells]
  · obtain hl | hl := List.mem_append.1 hl
    · exact h.ended l hl
    · rw [List.mem_singleton.1 hl]
      exact hlast

lemma Holds.inputCanon (h : t.Holds q) {ch₀ : UInt8} (hfull : t.full = false)
    (hsig : t.isSignal (t.translate ch₀) = false) :
    (t.inputCanon ch₀).Holds (q.type (t.charKind false ch₀)) := by
  simp only [Tty.inputCanon, Tty.charKind]
  generalize t.translate ch₀ = ch at hsig ⊢
  by_cases hcr : t.termios.igncr ∧ ch = 13
  · rw [if_pos hcr, if_pos hcr]
    exact h
  rw [if_neg hcr, if_neg hcr]
  by_cases hnul : ch = 0
  · rw [if_pos hnul, if_pos hnul, hfull, hnul]
    exact h.pushOrdinary 0
  rw [if_neg hnul, if_neg hnul]
  by_cases herase : t.isCc ch verase = true
  · rw [if_pos (.inl herase), if_pos herase]
    change Holds _ { q with current := q.current.dropLast }
    rw [List.dropLast_eq_take]
    by_cases hpos : 0 < t.buf.length
    · rw [if_pos ⟨herase, hpos⟩]
      exact h.erased hpos rfl
    · rw [if_neg fun hc => hpos hc.2]
      have hlen := h.length_current
      refine h.erased le_rfl ?_
      rw [show q.current = [] from List.length_eq_zero_iff.1 (by omega), List.take_nil,
        List.take_nil]
  by_cases hkill : t.isCc ch vkill = true
  · rw [if_pos (.inr hkill), if_neg herase, if_pos hkill, if_neg fun hc => herase hc.1]
    change Holds _ { q with current := [] }
    rw [← List.take_zero (l := q.current)]
    refine h.erased le_rfl ?_
    rw [Nat.sub_eq_zero_of_le h.length_current]
  rw [if_neg (not_or_intro herase hkill), if_neg herase, if_neg hkill]
  by_cases heof : t.isCc ch veof = true
  · rw [if_pos heof, if_pos heof, hfull]
    exact h.pushLine none nofun
  rw [if_neg heof, if_neg heof]
  by_cases hend : ch = 10 ∨ t.isCc ch veol = true
  · rw [if_pos hend, if_pos hend, hfull]
    exact h.pushLine (some ch) fun hc => hnul (Option.some.inj hc)
  rw [if_neg hend, if_neg hend, hsig, hfull]
  simpa using h.pushOrdinary ch

/-- A read that goes to the end of a line does not find the mark of an EOF character behind it,
unless it is that of the line. -/
def EofKept (t : Tty) (size : ℕ) : Prop :=
  ∀ c, t.canonSize = some c → t.buf[c - 1]? ≠ some 0 → c ≤ size → t.eofAt c = false

lemma Holds.read (h : t.Holds q) (hcanon : t.termios.icanon = true) {size : ℕ} (timeout : Bool)
    (hkept : t.EofKept size) :
    (t.read size timeout).1.Holds (q.read size).1 ∧
      (t.read size timeout).2 = (q.read size).2 := by
  by_cases hsize : size = 0
  · simp only [Tty.read, LineEditor.read, if_pos hsize]
    exact ⟨h, trivial⟩
  simp only [Tty.read, LineEditor.read, if_neg hsize, if_pos hcanon]
  obtain ⟨lines, current⟩ := q
  cases lines with
  | nil =>
    rw [canonSize_none (by simpa [LineEditor.cells] using h.cells)]
    exact ⟨h, rfl⟩
  | cons l ls =>
    obtain ⟨bs, last⟩ := l
    set rest := ls.flatMap TtyLine.cells ++ current.map (·, false) with hrest
    have hcells : t.cells = bs.map (·, false) ++ (last.getD 0, true) :: rest := by
      rw [h.cells]
      simp [LineEditor.cells, TtyLine.cells, hrest]
    have hended : LineEditor.Ended ⟨ls, current⟩ :=
      fun l hl => h.ended l (List.mem_cons_of_mem _ hl)
    have hlast : last ≠ some 0 := h.ended ⟨bs, last⟩ List.mem_cons_self
    obtain ⟨hsome, hbyte⟩ := canonSize_line hcells
    have hbuf : t.buf = bs ++ last.getD 0 :: rest.map Prod.fst := by
      rw [← map_fst_cells, hcells]
      simp [Function.comp_def]
    have hcount : (if t.buf[bs.length + 1 - 1]? = some 0 then bs.length + 1 - 1
        else bs.length + 1) = (TtyLine.contents ⟨bs, last⟩).length := by
      rw [Nat.add_sub_cancel, hbyte]
      cases last with
      | none => simp [TtyLine.contents]
      | some ch =>
        rw [Option.getD_some, if_neg hlast]
        simp [TtyLine.contents]
    have hprefix : t.buf.take (TtyLine.contents ⟨bs, last⟩).length =
        TtyLine.contents ⟨bs, last⟩ := by
      rw [hbuf]
      cases last <;> simp [TtyLine.contents, List.take_append]
    rw [hsome]
    simp only [hcount]
    refine ⟨⟨?_, ?_⟩, ?_⟩
    · rw [cells_takeBytes]
      by_cases hle : (TtyLine.contents ⟨bs, last⟩).length ≤ size
      · rw [min_eq_right hle, if_pos hle]
        cases last with
        | none =>
          have hlen : (TtyLine.contents ⟨bs, none⟩).length = bs.length := by
            simp [TtyLine.contents]
          rw [hlen, hcells, if_pos (by simp), List.drop_append]
          simp [LineEditor.cells, hrest]
        | some ch =>
          have hlen : (TtyLine.contents ⟨bs, some ch⟩).length = bs.length + 1 := by
            simp [TtyLine.contents]
          rw [hlen] at hle ⊢
          have hkeep := hkept _ hsome (by rw [Nat.add_sub_cancel, hbyte]; exact hlast) hle
          rw [if_neg fun hc => Bool.eq_false_iff.1 hkeep ((eofAt_iff _).2 hc), hcells,
            List.drop_append]
          simp [LineEditor.cells, hrest]
      · have hlt := not_le.1 hle
        rw [min_eq_left hlt.le, if_neg hle]
        have hbs : size ≤ bs.length := by
          cases last <;> simp [TtyLine.contents] at hlt <;> omega
        have hmark : t.cells[size]? ≠ some (0, true) := by
          rw [hcells]
          obtain hbs | rfl := hbs.lt_or_eq
          · simp [List.getElem?_append_left, hbs]
          · cases last with
            | none => simp [TtyLine.contents] at hlt
            | some ch => simpa using fun hc => hlast (congrArg some hc)
        rw [if_neg hmark, hcells, List.drop_append_of_le_length (by simpa using hbs)]
        simp [LineEditor.cells, TtyLine.cells, TtyLine.drop, hrest]
    · split_ifs
      · exact hended
      · intro l hl
        obtain rfl | hl := List.mem_cons.1 hl
        · exact hlast
        · exact hended l hl
    · rw [takeBytes_snd, ← List.take_take, hprefix]

structure SameSettings (t t' : Tty) : Prop where
  termios : t.termios = t'.termios
  charSigned : t.charSigned = t'.charSigned

lemma sameSettings_eraseLoop (n : ℕ) : (t.eraseLoop n).SameSettings t := by
  induction n generalizing t with
  | zero => exact ⟨rfl, rfl⟩
  | succ n ih =>
    rw [eraseLoop]
    split_ifs
    · exact ⟨rfl, rfl⟩
    · have h := ih (t := { t with buf := t.buf.dropLast })
      exact ⟨h.termios, h.charSigned⟩

lemma sameSettings_inputCanon (ch : UInt8) : (t.inputCanon ch).SameSettings t := by
  simp only [Tty.inputCanon]
  split_ifs
  all_goals try exact ⟨rfl, rfl⟩
  · exact sameSettings_eraseLoop _
  · exact sameSettings_eraseLoop _
  · simp only [signalled]
    split_ifs <;> exact ⟨rfl, rfl⟩

lemma sameSettings_takeBytes (n : ℕ) : (t.takeBytes n).1.SameSettings t := by
  simp only [takeBytes]
  split_ifs <;> exact ⟨rfl, rfl⟩

lemma sameSettings_read (size : ℕ) (timeout : Bool) : (t.read size timeout).1.SameSettings t := by
  simp only [Tty.read]
  split_ifs
  · exact ⟨rfl, rfl⟩
  · split
    · exact ⟨rfl, rfl⟩
    · exact sameSettings_takeBytes _
  · exact ⟨rfl, rfl⟩
  · exact sameSettings_takeBytes _

lemma SameSettings.charKind {t' : Tty} (h : t.SameSettings t') (werase : Bool) (ch : UInt8) :
    t.charKind werase ch = t'.charKind werase ch := by
  obtain ⟨buf, flag, termios, fgGroup, charSigned⟩ := t
  obtain ⟨buf', flag', termios', fgGroup', charSigned'⟩ := t'
  obtain rfl : termios = termios' := h.termios
  obtain rfl : charSigned = charSigned' := h.charSigned
  rfl

end Tty

namespace TtyRun

/-- The condition on a step in canonical mode: there is room, the byte is not taken for a signal,
and a read keeps the EOF characters. -/
def Typing (s : TtyRun) : TtyEvent → Prop
  | .char ch => s.tty.full = false ∧ s.tty.isSignal (s.tty.translate ch) = false
  | .read size _ => s.tty.EofKept size
  | .set _ _ => False

structure Edits (t : Tty) (s : TtyRun) (r : EditorRun) : Prop where
  settings : s.tty.SameSettings t
  holds : s.tty.Holds r.editor
  reads : s.reads = r.reads

variable {t : Tty} {s : TtyRun} {r : EditorRun} {e : TtyEvent}

lemma Edits.step (h : Edits t s r) (hcanon : t.termios.icanon = true) (hcond : s.Typing e) :
    Edits t (ttyStep s e) (editorStep t false r e) := by
  have hs : s.tty.termios.icanon = true := by rw [h.settings.termios, hcanon]
  cases e with
  | char ch =>
    have hinput : s.tty.inputChar ch = s.tty.inputCanon ch := by rw [Tty.inputChar, if_pos hs]
    have hsame := Tty.sameSettings_inputCanon (t := s.tty) ch
    refine ⟨?_, ?_, h.reads⟩
    · change (s.tty.inputChar ch).SameSettings t
      rw [hinput]
      exact ⟨hsame.termios.trans h.settings.termios, hsame.charSigned.trans h.settings.charSigned⟩
    · change (s.tty.inputChar ch).Holds (r.editor.type (t.charKind false ch))
      rw [hinput, ← h.settings.charKind]
      exact h.holds.inputCanon hcond.1 hcond.2
  | read size timeout =>
    have hsame := Tty.sameSettings_read (t := s.tty) size timeout
    obtain ⟨hholds, hread⟩ := h.holds.read hs timeout hcond
    refine ⟨?_, hholds, ?_⟩
    · exact ⟨hsame.termios.trans h.settings.termios, hsame.charSigned.trans h.settings.charSigned⟩
    · change s.reads ++ [_] = r.reads ++ [_]
      rw [h.reads, hread]
  | set termios flush => exact hcond.elim

lemma Edits.run {es : List TtyEvent} (h : Edits t s r) (hcanon : t.termios.icanon = true)
    (hes : RunAll ttyStep Typing s es) :
    Edits t (run ttyStep s es) (run (editorStep t false) r es) := by
  induction es generalizing s r with
  | nil => exact h
  | cons e es ih => exact ih (h.step hcanon hes.1) hes.2

end TtyRun

/-- **Canonical mode**: where no read goes to the end of a line with the mark of an EOF character
directly behind it, the reads give what they have to give of the lines that were typed, without word
erase. -/
theorem canonical_reads {t : Tty} (hcanon : t.termios.icanon = true) (hempty : t.buf = [])
    {es : List TtyEvent} (hes : RunAll ttyStep TtyRun.Typing ⟨t, []⟩ es) :
    (run ttyStep ⟨t, []⟩ es).reads = (run (editorStep t false) ⟨⟨[], []⟩, []⟩ es).reads := by
  have hstart : TtyRun.Edits t ⟨t, []⟩ ⟨⟨[], []⟩, []⟩ :=
    ⟨⟨rfl, rfl⟩, ⟨by simp [Tty.cells, hempty, LineEditor.cells], nofun⟩, rfl⟩
  exact (hstart.run hcanon hes).reads

/-- A line with a byte erased is read in two pieces, and the one behind it ends in an EOF character.
-/
theorem canonical_reads_pieces :
    (run ttyStep ⟨newTty, []⟩ [.char 97, .char 98, .char 127, .char 10, .char 99, .char 4,
        .read 1 false, .read 4 false, .read 4 false]).reads =
      (run (editorStep newTty false) ⟨⟨[], []⟩, []⟩ [.char 97, .char 98, .char 127, .char 10,
        .char 99, .char 4, .read 1 false, .read 4 false, .read 4 false]).reads := by
  refine canonical_reads rfl rfl ⟨⟨rfl, rfl⟩, ⟨rfl, rfl⟩, ⟨rfl, rfl⟩, ⟨rfl, rfl⟩, ⟨rfl, rfl⟩,
    ⟨rfl, rfl⟩, ?_, ?_, ?_, trivial⟩
  all_goals
    intro c hc _ _
    obtain rfl := Option.some.inj hc
    rfl

/-- The word-erase character becomes a part of the line; and an EOF character that has been typed at
the start of a line, behind a line that has not been read, does not end a read. -/
theorem canonical_reads_differ :
    (run ttyStep ⟨newTty, []⟩ [.char 97, .char 23, .char 10, .read 8 false]).reads ≠
        (run (editorStep newTty true) ⟨⟨[], []⟩, []⟩
          [.char 97, .char 23, .char 10, .read 8 false]).reads ∧
      (run ttyStep ⟨newTty, []⟩ [.char 10, .char 4, .read 8 false, .read 8 false]).reads ≠
        (run (editorStep newTty true) ⟨⟨[], []⟩, []⟩
          [.char 10, .char 4, .read 8 false, .read 8 false]).reads := by
  decide

end ShellBox
