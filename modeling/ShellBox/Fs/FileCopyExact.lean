import ShellBox.Fs.FileCopy
import ShellBox.Fs.VectorIoExact

/-!
# When copies keep positions consistent

The loops are followed along the pattern of the answers: what has been written is what the pattern
says, the place of the input advances by what has been read or by what has been written, and the
bytes are those of the places that the chunks have been read from.
-/

namespace ShellBox

/-! ### Bytes of chunks -/

/-- The bytes of chunks of these sizes and of a last one. From one to the next the place advances by
the size some number of times. -/
def sentOf (src : ℕ → ℤ → UInt8) (stride : ℕ) : ℕ → ℤ → List ℕ → ℕ → List UInt8
  | i, p, [], last            => bytesAt (src i) p last
  | i, p, size :: sizes, last =>
    bytesAt (src i) p size ++ sentOf src stride (i + 1) (p + stride * size) sizes last

section Bytes

variable {src : ℕ → ℤ → UInt8} {stride i last : ℕ} {p start : ℤ} {sizes : List ℕ}

@[simp] lemma length_bytesAt (src : ℤ → UInt8) (p : ℤ) (n : ℕ) : (bytesAt src p n).length = n := by
  rw [bytesAt, List.length_map, List.length_range]

lemma take_bytesAt (src : ℤ → UInt8) (p : ℤ) {m n : ℕ} (h : m ≤ n) :
    (bytesAt src p n).take m = bytesAt src p m := by
  rw [bytesAt, ← List.map_take, List.take_range, Nat.min_eq_left h, bytesAt]

lemma bytesAt_getElem? (src : ℤ → UInt8) (p : ℤ) {j n : ℕ} (h : j < n) :
    (bytesAt src p n)[j]? = some (src (p + j)) := by
  rw [bytesAt, List.getElem?_map, List.getElem?_range h, Option.map_some]

lemma length_sentOf : (sentOf src stride i p sizes last).length = sizes.sum + last := by
  induction sizes generalizing i p with
  | nil => simp [sentOf]
  | cons size sizes ih =>
    rw [sentOf, List.length_append, length_bytesAt, ih, List.sum_cons]
    omega

lemma bytesFrom_append {l l' : List UInt8} (h : BytesFrom src start l)
    (h' : BytesFrom src (start + l.length) l') : BytesFrom src start (l ++ l') := by
  intro j b hb
  by_cases hj : j < l.length
  · rw [List.getElem?_append_left hj] at hb
    exact h j b hb
  · rw [List.getElem?_append_right (by omega)] at hb
    obtain ⟨i, hi⟩ := h' _ b hb
    refine ⟨i, hi.trans ?_⟩
    congr 1
    omega

lemma bytesFrom_bytesAt (src : ℕ → ℤ → UInt8) (i : ℕ) (p : ℤ) (n : ℕ) :
    BytesFrom src p (bytesAt (src i) p n) := by
  intro j b hb
  have hj : j < n := by
    have hlt := (List.getElem?_eq_some_iff.mp hb).1
    rwa [length_bytesAt] at hlt
  rw [bytesAt_getElem? _ _ hj] at hb
  exact ⟨i, (Option.some.inj hb).symm⟩

lemma bytesFrom_sentOf : BytesFrom src p (sentOf src 1 i p sizes last) := by
  induction sizes generalizing i p with
  | nil => exact bytesFrom_bytesAt src i p last
  | cons size sizes ih =>
    refine bytesFrom_append (bytesFrom_bytesAt src i p size) ?_
    rw [length_bytesAt, Nat.cast_one, one_mul]
    exact ih

def oneAt (q : ℤ) : ℕ → ℤ → UInt8 := fun _ p => if p = q then 1 else 0

lemma place_of_bytesFrom {l : List UInt8} {j : ℕ} {q : ℤ} (hbyte : l[j]? = some 1)
    (h : BytesFrom (oneAt q) start l) : start + j = q := by
  obtain ⟨i, hi⟩ := h j 1 hbyte
  by_contra hne
  rw [oneAt, if_neg hne] at hi
  exact absurd hi (by decide)

lemma sentOf_zero (hpos : ∀ size ∈ sizes, 0 < size) (h : 0 < sizes.sum + last) :
    (sentOf src stride i p sizes last)[0]? = some (src i p) := by
  cases sizes with
  | nil =>
    rw [List.sum_nil, Nat.zero_add] at h
    rw [sentOf, bytesAt_getElem? _ _ h, Nat.cast_zero, add_zero]
  | cons size sizes =>
    have hsize := hpos size List.mem_cons_self
    rw [sentOf, List.getElem?_append_left (by rwa [length_bytesAt]), bytesAt_getElem? _ _ hsize,
      Nat.cast_zero, add_zero]

lemma sentOf_iff (hpos : ∀ size ∈ sizes, 0 < size) (hstride : stride = 1 ∨ stride = 2) :
    (∀ src, BytesFrom src start (sentOf src stride i p sizes last)) ↔
      sizes.sum + last = 0 ∨ p = start ∧
        (stride = 1 ∨ (sizes.length + if last = 0 then 0 else 1) ≤ 1) := by
  constructor
  · intro h
    by_cases hzero : sizes.sum + last = 0
    · exact .inl hzero
    have hstart : p = start := by
      have hbyte : (sentOf (oneAt p) stride i p sizes last)[0]? = some 1 := by
        rw [sentOf_zero hpos (Nat.pos_of_ne_zero hzero), oneAt, if_pos rfl]
      have hplace := place_of_bytesFrom hbyte (h _)
      rw [Nat.cast_zero, add_zero] at hplace
      exact hplace.symm
    refine .inr ⟨hstart, ?_⟩
    obtain rfl | rfl := hstride
    · exact .inl rfl
    refine .inr ?_
    by_contra hmore
    -- the first byte of the second chunk comes from twice as far
    cases sizes with
    | nil => simp at hmore; split_ifs at hmore <;> omega
    | cons size sizes =>
      have hsize := hpos size List.mem_cons_self
      have hrest : 0 < sizes.sum + last := by
        cases sizes with
        | nil =>
          by_contra hnone
          have hlast : last = 0 := by simpa using hnone
          rw [if_pos hlast] at hmore
          exact hmore le_rfl
        | cons next sizes =>
          have hnext := hpos next (by simp)
          rw [List.sum_cons]
          omega
      have hbyte : (sentOf (oneAt (p + (2 : ℕ) * size)) 2 i p (size :: sizes) last)[size]? =
          some 1 := by
        rw [sentOf, List.getElem?_append_right (by rw [length_bytesAt]), length_bytesAt,
          Nat.sub_self, sentOf_zero (fun n hn => hpos n (List.mem_cons_of_mem size hn)) hrest,
          oneAt, if_pos rfl]
      have hplace := place_of_bytesFrom hbyte (h _)
      rw [← hstart] at hplace
      omega
  · rintro (hzero | ⟨rfl, hone⟩) src
    · have hnil : sentOf src stride i p sizes last = [] :=
        List.eq_nil_of_length_eq_zero (by rw [length_sentOf, hzero])
      rw [hnil]
      intro j b hb
      simp at hb
    · obtain rfl | hchunks := hone
      · exact bytesFrom_sentOf
      · cases sizes with
        | nil => exact bytesFrom_bytesAt src i p last
        | cons size sizes =>
          have hlast : sizes = [] ∧ last = 0 := by
            cases sizes with
            | nil =>
              split_ifs at hchunks with hlast
              · exact ⟨rfl, hlast⟩
              · simp at hchunks
            | cons next sizes => simp at hchunks; omega
          rw [hlast.1, hlast.2, sentOf, sentOf, bytesAt, bytesAt, List.range_zero, List.map_nil,
            List.append_nil]
          exact bytesFrom_bytesAt src i p size

end Bytes

/-! ### The loops along the pattern -/

namespace CopyFiles

variable {f : CopyFiles} {remaining i : ℕ}

lemma pattern_pos {size : ℕ} (h : size ∈ (f.pattern remaining i).sizes) : 0 < size := by
  induction remaining using Nat.strong_induction_on generalizing i with
  | _ remaining ih =>
    rw [pattern] at h
    split_ifs at h with hrem
    · simp at h
    · split at h
      · simp at h
      · rename_i nread _
        split_ifs at h with hread
        · simp at h
        · split at h
          · simp at h
          · rename_i nwritten _
            split_ifs at h with hshort
            · simp at h
            · obtain rfl | hrest := List.mem_cons.mp h
              · exact Nat.pos_of_ne_zero hread
              · exact ih (remaining - nwritten) (by omega) hrest

lemma pattern_err (h : (f.pattern remaining i).err ≠ none) :
    (f.pattern remaining i).lastWritten = 0 := by
  induction remaining using Nat.strong_induction_on generalizing i with
  | _ remaining ih =>
    rw [pattern] at h ⊢
    by_cases hrem : remaining = 0
    · rw [if_pos hrem]
    rw [if_neg hrem] at h ⊢
    cases hrd : f.rd i (min remaining 4096) with
    | error err => rfl
    | ok nread =>
      rw [hrd] at h
      simp only at h ⊢
      by_cases hread : nread = 0
      · rw [if_pos hread]
      rw [if_neg hread] at h ⊢
      cases hwr : f.wr i nread with
      | error err => rfl
      | ok nwritten =>
        rw [hwr] at h
        simp only at h ⊢
        by_cases hshort : nwritten < nread
        · rw [if_pos hshort] at h
          exact absurd rfl h
        · rw [if_neg hshort] at h ⊢
          exact ih (remaining - nwritten) (by omega) h

lemma pattern_le : (f.pattern remaining i).lastWritten ≤ (f.pattern remaining i).lastRead := by
  induction remaining using Nat.strong_induction_on generalizing i with
  | _ remaining ih =>
    rw [pattern]
    by_cases hrem : remaining = 0
    · rw [if_pos hrem]
    rw [if_neg hrem]
    cases hrd : f.rd i (min remaining 4096) with
    | error err => exact le_rfl
    | ok nread =>
      simp only
      by_cases hread : nread = 0
      · rw [if_pos hread]
      rw [if_neg hread]
      cases hwr : f.wr i nread with
      | error err => exact Nat.zero_le nread
      | ok nwritten =>
        simp only
        by_cases hshort : nwritten < nread
        · rw [if_pos hshort]
          exact f.wr_count i nread nwritten hwr
        · rw [if_neg hshort]
          exact ih (remaining - nwritten) (by omega)

lemma pattern_errno {err : ℤ} (h : (f.pattern remaining i).err = some err) :
    -4095 ≤ err ∧ err < 0 := by
  induction remaining using Nat.strong_induction_on generalizing i with
  | _ remaining ih =>
    rw [pattern] at h
    by_cases hrem : remaining = 0
    · rw [if_pos hrem] at h
      exact absurd h.symm (Option.some_ne_none err)
    rw [if_neg hrem] at h
    cases hrd : f.rd i (min remaining 4096) with
    | error err' =>
      rw [hrd] at h
      obtain rfl := Option.some.inj h
      exact f.rd_errno i _ _ hrd
    | ok nread =>
      rw [hrd] at h
      simp only at h
      by_cases hread : nread = 0
      · rw [if_pos hread] at h
        exact absurd h.symm (Option.some_ne_none err)
      rw [if_neg hread] at h
      cases hwr : f.wr i nread with
      | error err' =>
        rw [hwr] at h
        obtain rfl := Option.some.inj h
        exact f.wr_errno i _ _ hwr
      | ok nwritten =>
        rw [hwr] at h
        simp only at h
        by_cases hshort : nwritten < nread
        · rw [if_pos hshort] at h
          exact absurd h.symm (Option.some_ne_none err)
        · rw [if_neg hshort] at h
          exact ih (remaining - nwritten) (by omega) h

lemma sizes_of_written (h : (f.pattern remaining i).written = 0) :
    (f.pattern remaining i).sizes = [] := by
  refine List.eq_nil_iff_forall_not_mem.mpr fun size hsize => ?_
  have hpos := pattern_pos hsize
  have hle := List.le_sum_of_mem hsize
  rw [CopyPattern.written] at h
  omega

section Loops

variable {src : ℕ → ℤ → UInt8}

@[simp] lemma written_cons (p : CopyPattern) (n : ℕ) : (p.cons n).written = n + p.written := by
  simp only [CopyPattern.written, CopyPattern.cons, List.sum_cons, Nat.add_assoc]

@[simp] lemma read_cons (p : CopyPattern) (n : ℕ) : (p.cons n).read = n + p.read := by
  simp only [CopyPattern.read, CopyPattern.cons, List.sum_cons, Nat.add_assoc]

@[simp] lemma sizes_cons (p : CopyPattern) (n : ℕ) : (p.cons n).sizes = n :: p.sizes := rfl

@[simp] lemma lastWritten_cons (p : CopyPattern) (n : ℕ) :
    (p.cons n).lastWritten = p.lastWritten := rfl

@[simp] lemma err_cons (p : CopyPattern) (n : ℕ) : (p.cons n).err = p.err := rfl

@[simp] lemma length_sent (p : CopyPattern) {src : ℕ → ℤ → UInt8} {stride i : ℕ} {start : ℤ} :
    (sentOf src stride i start p.sizes p.lastWritten).length = p.written := length_sentOf

def stride (shared : Bool) : ℕ := if shared then 2 else 1

lemma sendfileLoop_eq {explicit : Bool} (hpread : explicit = true → f.hasPread = true)
    (s : CopyState) : f.sendfileLoop src explicit remaining i s =
      (⟨s.total + (f.pattern remaining i).written,
        if explicit then s.inOff + (f.pattern remaining i).written else s.inOff, s.outOff,
        s.pos + (if explicit then 0 else (f.pattern remaining i).read : ℕ) +
          (if f.same then (f.pattern remaining i).written else 0 : ℕ),
        s.sent ++ sentOf src (stride (!explicit && f.same)) i (if explicit then s.inOff else s.pos)
          (f.pattern remaining i).sizes (f.pattern remaining i).lastWritten⟩,
        (f.pattern remaining i).err) := by
  have hguard : (explicit && !f.hasPread) = false := by
    cases explicit with
    | false => rfl
    | true => simp [hpread rfl]
  induction remaining using Nat.strong_induction_on generalizing i s with
  | _ remaining ih =>
    rw [sendfileLoop, pattern]
    by_cases hrem : remaining = 0
    · rw [if_pos hrem, if_pos hrem]
      simp [CopyPattern.written, CopyPattern.read, sentOf, bytesAt]
    rw [if_neg hrem, if_neg hrem, if_neg (by simp [hguard])]
    cases hrd : f.rd i (min remaining 4096) with
    | error err => simp [CopyPattern.written, CopyPattern.read, sentOf, bytesAt]
    | ok nread =>
      simp only
      by_cases hread : nread = 0
      · rw [if_pos hread, if_pos hread]
        simp [CopyPattern.written, CopyPattern.read, sentOf, bytesAt]
      rw [if_neg hread, if_neg hread]
      cases hwr : f.wr i nread with
      | error err =>
        cases explicit <;> simp [CopyPattern.written, CopyPattern.read, sentOf, bytesAt]
      | ok nwritten =>
        have hcount := f.wr_count i nread nwritten hwr
        simp only
        by_cases hshort : nwritten < nread
        · rw [if_pos hshort, if_pos hshort, take_bytesAt _ _ hcount]
          cases explicit <;> cases f.same <;>
            simp [CopyPattern.written, CopyPattern.read, sentOf]
        · obtain rfl : nwritten = nread := by omega
          rw [if_neg hshort, if_neg hshort, ih _ (by omega), take_bytesAt _ _ le_rfl]
          cases explicit <;> cases f.same <;>
            simp [sentOf, stride, two_mul, add_assoc, add_left_comm]

lemma nonneg_advance (x : ℤ) (n : ℕ) :
    decide (0 ≤ if 0 ≤ x then x + n else x) = decide (0 ≤ x) := by
  refine decide_eq_decide.mpr ?_
  split_ifs <;> omega

/-- `copy_file_range` with what the pattern says. `given` and `outGiven` say that an offset is not
negative, `moved` that the output moves the position. -/
lemma copyRangeLoop_eq {given outGiven moved : Bool}
    (hmoved : (f.same && !(outGiven && f.hasPwrite)) = moved) (s : CopyState)
    (hgiven : decide (0 ≤ s.inOff) = given) (hout : decide (0 ≤ s.outOff) = outGiven) :
    f.copyRangeLoop src remaining i s =
      (⟨s.total + (f.pattern remaining i).written,
        s.inOff + (if given then (f.pattern remaining i).read else 0 : ℕ),
        s.outOff + (if outGiven then (f.pattern remaining i).written else 0 : ℕ),
        s.pos + (if given && f.hasPread then 0 else (f.pattern remaining i).read : ℕ) +
          (if moved then (f.pattern remaining i).written else 0 : ℕ),
        s.sent ++ sentOf src (stride (!(given && f.hasPread) && moved)) i
          (if given && f.hasPread then s.inOff else s.pos)
          (f.pattern remaining i).sizes (f.pattern remaining i).lastWritten⟩,
        if s.total = 0 ∧ (f.pattern remaining i).sizes = [] then (f.pattern remaining i).err
        else none) := by
  induction remaining using Nat.strong_induction_on generalizing i s with
  | _ remaining ih =>
    have hin : (0 ≤ s.inOff) = (given = true) := by rw [← hgiven, decide_eq_true_eq]
    have hoff : (0 ≤ s.outOff) = (outGiven = true) := by rw [← hout, decide_eq_true_eq]
    rw [copyRangeLoop, pattern]
    by_cases hrem : remaining = 0
    · rw [if_pos hrem, if_pos hrem]
      simp [CopyPattern.written, CopyPattern.read, sentOf, bytesAt]
    rw [if_neg hrem, if_neg hrem]
    cases hrd : f.rd i (min remaining 4096) with
    | error err => simp [CopyPattern.written, CopyPattern.read, sentOf, bytesAt]
    | ok nread =>
      simp only [hgiven, hout, hmoved]
      by_cases hread : nread = 0
      · rw [if_pos hread, if_pos hread]
        simp [CopyPattern.written, CopyPattern.read, sentOf, bytesAt]
      rw [if_neg hread, if_neg hread]
      cases hwr : f.wr i nread with
      | error err =>
        cases given <;> cases f.hasPread <;>
          simp [hin, CopyPattern.written, CopyPattern.read, sentOf, bytesAt]
      | ok nwritten =>
        have hcount := f.wr_count i nread nwritten hwr
        simp only
        by_cases hnone : nwritten = 0
        · have hshort : nwritten < nread := by omega
          rw [if_pos hnone, if_pos hshort]
          cases given <;> cases f.hasPread <;>
            simp [hin, hnone, CopyPattern.written, CopyPattern.read, sentOf, bytesAt]
        rw [if_neg hnone]
        by_cases hshort : nwritten < nread
        · rw [if_pos hshort, if_pos hshort, take_bytesAt _ _ hcount]
          cases given <;> cases f.hasPread <;> cases outGiven <;> cases moved <;>
            simp [hin, hoff, CopyPattern.written, CopyPattern.read, sentOf]
        · obtain rfl : nwritten = nread := by omega
          rw [if_neg hshort, if_neg hshort, ih _ (by omega), take_bytesAt _ _ le_rfl]
          · cases given <;> cases f.hasPread <;> cases outGiven <;> cases moved <;>
              simp [hin, hoff, hread, sentOf, stride, two_mul, add_assoc, add_left_comm]
          · exact (nonneg_advance s.inOff nwritten).trans hgiven
          · exact (nonneg_advance s.outOff nwritten).trans hout

end Loops

/-! ### What the calls come to -/

section Calls

variable {src : ℕ → ℤ → UInt8} {pos : ℤ} {offset : OffsetArg}

lemma exact_refused {err : ℤ} (h : -4095 ≤ err ∧ err < 0) :
    (refused pos offset err).Exact src pos offset where
  ret := .inr ⟨by rw [refused, guestRet_error h]; exact h.2, rfl⟩
  bytes j b hb := by simp [refused] at hb
  place := by cases offset <;> simp [refused, OffsetArg.value]

lemma ret_iff {n : ℕ} {l : List UInt8} (hl : l.length = n) :
    guestRet n = l.length ∨ guestRet n < 0 ∧ l = [] ↔ n < countLimit := by
  rw [hl, countLimit, ← guestRet_count_iff]
  constructor
  · rintro (hret | ⟨hret, rfl⟩)
    · exact hret
    · obtain rfl : n = 0 := hl.symm
      exact absurd hret (by decide)
  · exact .inl

lemma ret_error_iff {n : ℕ} {l : List UInt8} {err : ℤ} (hl : l.length = n)
    (herr : -4095 ≤ err ∧ err < 0) :
    guestRet err = l.length ∨ guestRet err < 0 ∧ l = [] ↔ n = 0 := by
  rw [guestRet_error herr, hl]
  constructor
  · rintro (hret | ⟨-, rfl⟩)
    · omega
    · exact hl.symm
  · rintro rfl
    exact .inr ⟨herr.2, List.eq_nil_of_length_eq_zero hl⟩

lemma sendfile_null_iff {count : BitVec 32} (hfd : ¬ (f.inOpen = false ∨ f.outOpen = false))
    (hops : ¬ (f.hasRead = false ∧ f.hasPread = false ∨ f.hasWrite = false)) :
    (∀ src, (f.sysSendfile64 src pos .null count).Exact src pos .null) ↔
      (f.pattern count.toNat 0).written < countLimit ∧
        if f.same then (f.pattern count.toNat 0).read = 0
        else (f.pattern count.toNat 0).lastRead = (f.pattern count.toNat 0).lastWritten := by
  have hle := @pattern_le f count.toNat 0
  have hdone (src : ℕ → ℤ → UInt8) : ∃ ret : ℤ,
      f.sysSendfile64 src pos .null count =
        ⟨guestRet ret, sentOf src (stride f.same) 0 pos (f.pattern count.toNat 0).sizes
          (f.pattern count.toNat 0).lastWritten,
          pos + (f.pattern count.toNat 0).read +
            (if f.same then (f.pattern count.toNat 0).written else 0 : ℕ), none⟩ ∧
      (ret = (f.pattern count.toNat 0).written ∨
        (f.pattern count.toNat 0).written = 0 ∧ -4095 ≤ ret ∧ ret < 0) := by
    unfold sysSendfile64
    rw [if_neg hfd, if_neg hops]
    simp only [OffsetArg.value, Option.isSome_none, Option.getD_none]
    rw [sendfileLoop_eq (fun h => absurd h Bool.false_ne_true)]
    cases herr : (f.pattern count.toNat 0).err with
    | none =>
      refine ⟨(f.pattern count.toNat 0).written, ?_, .inl rfl⟩
      simp [sendfileDone, OffsetArg.canPut, OffsetArg.put]
    | some err =>
      by_cases hzero : (f.pattern count.toNat 0).written = 0
      · exact ⟨err, by simp [sendfileDone, OffsetArg.value, hzero], .inr ⟨hzero, pattern_errno herr⟩⟩
      · refine ⟨(f.pattern count.toNat 0).written, ?_, .inl rfl⟩
        simp [sendfileDone, OffsetArg.value, Nat.pos_of_ne_zero hzero]
  generalize f.pattern count.toNat 0 = P at hle hdone ⊢
  have hplace : (pos + P.read + (if f.same then P.written else 0 : ℕ) = pos + P.written) ↔
      if f.same then P.read = 0 else P.lastRead = P.lastWritten := by
    rw [CopyPattern.read, CopyPattern.written]
    split_ifs <;> omega
  constructor
  · intro h
    obtain ⟨ret, hcall, hret⟩ := hdone fun _ _ => 0
    have hex := h fun _ _ => 0
    rw [hcall] at hex
    have hplace' := hex.place
    rw [length_sent] at hplace'
    refine ⟨?_, hplace.mp hplace'⟩
    obtain rfl | ⟨hzero, -⟩ := hret
    · exact (ret_iff (length_sent P)).mp hex.ret
    · rw [hzero]
      decide
  · rintro ⟨hcount, hmoved⟩ src
    obtain ⟨ret, hcall, hret⟩ := hdone src
    rw [hcall]
    refine ⟨?_, ?_, ?_⟩
    · obtain rfl | ⟨hzero, herr⟩ := hret
      · exact (ret_iff (length_sent P)).mpr hcount
      · exact (ret_error_iff (length_sent P) herr).mpr hzero
    · cases hsame : f.same with
      | false => exact bytesFrom_sentOf
      | true =>
        rw [hsame, if_pos rfl, CopyPattern.read] at hmoved
        intro j b hb
        have hlt := (List.getElem?_eq_some_iff.mp hb).1
        rw [length_sentOf] at hlt
        omega
    · rw [length_sent]
      exact hplace.mpr hmoved

lemma sendfile_given_iff {off : ℤ} {writable : Bool} {count : BitVec 32}
    (hfd : ¬ (f.inOpen = false ∨ f.outOpen = false))
    (hops : ¬ (f.hasRead = false ∧ f.hasPread = false ∨ f.hasWrite = false)) :
    (∀ src, (f.sysSendfile64 src pos (.given off writable) count).Exact src pos
        (.given off writable)) ↔
      f.hasPread = false ∨ (f.pattern count.toNat 0).written = 0 ∨
        (f.pattern count.toNat 0).err = none ∧ writable = true ∧
          (f.pattern count.toNat 0).written < countLimit := by
  cases hpread : f.hasPread with
  | false =>
    refine iff_of_true (fun src => ?_) (.inl rfl)
    unfold sysSendfile64
    rw [if_neg hfd, if_neg hops]
    simp only [OffsetArg.value, Option.isSome_some, Option.getD_some]
    rw [sendfileLoop]
    by_cases hnone : count.toNat = 0
    · rw [if_pos hnone]
      cases writable <;> constructor <;>
        simp [sendfileDone, OffsetArg.canPut, OffsetArg.put, OffsetArg.value, BytesFrom, guestRet]
    · rw [if_neg hnone, if_pos (by rw [hpread]; rfl)]
      constructor <;> simp [sendfileDone, OffsetArg.value, BytesFrom, guestRet]
  | true =>
    have hdone (src : ℕ → ℤ → UInt8) : f.sysSendfile64 src pos (.given off writable) count =
        (⟨guestRet ((f.pattern count.toNat 0).err.elim
            (if writable then (f.pattern count.toNat 0).written else -14)
            fun err => if 0 < (f.pattern count.toNat 0).written then
              (f.pattern count.toNat 0).written else err),
          sentOf src 1 0 off (f.pattern count.toNat 0).sizes
            (f.pattern count.toNat 0).lastWritten,
          pos + (if f.same then (f.pattern count.toNat 0).written else 0 : ℕ),
          some (if (f.pattern count.toNat 0).err = none ∧ writable = true then
            off + (f.pattern count.toNat 0).written else off)⟩ : CopyDone) := by
      unfold sysSendfile64
      rw [if_neg hfd, if_neg hops]
      simp only [OffsetArg.value, Option.isSome_some, Option.getD_some]
      rw [sendfileLoop_eq fun _ => hpread]
      cases herr : (f.pattern count.toNat 0).err <;>
        simp [sendfileDone, OffsetArg.value, OffsetArg.canPut, OffsetArg.put, stride]
    have herrno (err : ℤ) : (f.pattern count.toNat 0).err = some err → -4095 ≤ err ∧ err < 0 :=
      pattern_errno
    generalize f.pattern count.toNat 0 = P at hdone herrno ⊢
    constructor
    · intro h
      have hex := h fun _ _ => 0
      rw [hdone] at hex
      have hplace : (if P.err = none ∧ writable = true then off + P.written else off) =
          off + P.written := by
        simpa [OffsetArg.value] using hex.place
      by_cases hzero : P.written = 0
      · exact .inr (.inl hzero)
      have hput : P.err = none ∧ writable = true := by
        by_contra hno
        rw [if_neg hno] at hplace
        omega
      have hret := hex.ret
      simp only [hput.1, if_pos hput.2] at hret
      exact .inr (.inr ⟨hput.1, hput.2, (ret_iff (length_sent P)).mp hret⟩)
    · rintro (hno | hzero | ⟨herr, rfl, hcount⟩) src
      · exact absurd hno Bool.noConfusion
      · rw [hdone]
        refine ⟨?_, bytesFrom_sentOf, by simp [OffsetArg.value, hzero]⟩
        cases herr : P.err with
        | none =>
          cases writable with
          | false =>
            exact (@ret_error_iff _ _ (-14) (length_sent P) ⟨by decide, by decide⟩).mpr hzero
          | true => exact (ret_iff (length_sent P)).mpr (by rw [hzero]; decide)
        | some err =>
          simp only [hzero, lt_irrefl, if_false]
          exact (ret_error_iff (length_sent P) (herrno err herr)).mpr hzero
      · rw [hdone]
        refine ⟨?_, bytesFrom_sentOf, by simp [OffsetArg.value, herr]⟩
        simp only [herr, if_true]
        exact (ret_iff (length_sent P)).mpr hcount

lemma sendfile_iff {count : BitVec 32} :
    (∀ src, (f.sysSendfile64 src pos offset count).Exact src pos offset) ↔
      f.SendfileFits offset count := by
  unfold SendfileFits
  by_cases hfd : f.inOpen = false ∨ f.outOpen = false
  · refine iff_of_true (fun src => ?_) (by tauto)
    unfold sysSendfile64
    rw [if_pos hfd]
    exact exact_refused ⟨by decide, by decide⟩
  by_cases hops : f.hasRead = false ∧ f.hasPread = false ∨ f.hasWrite = false
  · refine iff_of_true (fun src => ?_) (by tauto)
    unfold sysSendfile64
    rw [if_neg hfd, if_pos hops]
    exact exact_refused ⟨by decide, by decide⟩
  cases offset with
  | null =>
    rw [sendfile_null_iff hfd hops]
    tauto
  | unreadable =>
    refine iff_of_true (fun src => ?_) (by tauto)
    unfold sysSendfile64
    rw [if_neg hfd, if_neg hops]
    exact exact_refused ⟨by decide, by decide⟩
  | given off writable =>
    rw [sendfile_given_iff hfd hops]
    tauto

lemma ret_put_iff {n : ℕ} {l : List UInt8} {put : Bool} {ret : ℤ} (hl : l.length = n)
    (h : ret = (if put then (n : ℤ) else -14) ∨ n = 0 ∧ -4095 ≤ ret ∧ ret < 0) :
    guestRet ret = l.length ∨ guestRet ret < 0 ∧ l = [] ↔ n = 0 ∨ put = true ∧ n < countLimit := by
  obtain rfl | ⟨hzero, herr⟩ := h
  · cases put with
    | false =>
      rw [if_neg Bool.false_ne_true, @ret_error_iff n l (-14) hl ⟨by decide, by decide⟩]
      exact ⟨.inl, fun h => h.resolve_right fun hno => Bool.false_ne_true hno.1⟩
    | true =>
      rw [if_pos rfl, ret_iff hl]
      refine ⟨fun hcount => .inr ⟨rfl, hcount⟩, ?_⟩
      rintro (rfl | ⟨-, hcount⟩)
      · decide
      · exact hcount
  · exact iff_of_true ((ret_error_iff hl herr).mpr hzero) (.inl hzero)

/-- The input of `copy_file_range` is read from the offset. -/
def positioned (f : CopyFiles) (inOff : OffsetArg) : Bool :=
  0 ≤ inOff.value.getD (-1) && f.hasPread

lemma sysCopyFileRange_eq {inOff outOff : OffsetArg} {len flags : BitVec 32}
    (hflags : ¬ flags ≠ 0) (hfd : ¬ (f.inOpen = false ∨ f.outOpen = false))
    (hops : ¬ (f.hasRead = false ∧ f.hasPread = false ∨ f.hasWrite = false ∧ f.hasPwrite = false))
    (hin : inOff ≠ .unreadable) (hout : outOff ≠ .unreadable) : ∃ ret : ℤ,
      f.sysCopyFileRange src pos inOff outOff len flags =
        ⟨guestRet ret,
          sentOf src (stride (!f.positioned inOff && f.moves outOff)) 0
            (if f.positioned inOff then inOff.value.getD (-1) else pos)
            (f.pattern len.toNat 0).sizes (f.pattern len.toNat 0).lastWritten,
          pos + (if f.positioned inOff then 0 else (f.pattern len.toNat 0).read : ℕ) +
            (if f.moves outOff then (f.pattern len.toNat 0).written else 0 : ℕ),
          if (f.pattern len.toNat 0).sizes = [] ∧ (f.pattern len.toNat 0).err ≠ none then
            inOff.value
          else inOff.put (inOff.value.getD (-1) +
            (if 0 ≤ inOff.value.getD (-1) then (f.pattern len.toNat 0).read else 0 : ℕ))⟩ ∧
      (ret = (if inOff.canPut && outOff.canPut then ((f.pattern len.toNat 0).written : ℤ)
          else -14) ∨
        (f.pattern len.toNat 0).written = 0 ∧ -4095 ≤ ret ∧ ret < 0) := by
  have hloop := @copyRangeLoop_eq f len.toNat 0 src _ _ _ rfl
    ⟨0, inOff.value.getD (-1), outOff.value.getD (-1), pos, []⟩ rfl rfl
  have hcall : f.sysCopyFileRange src pos inOff outOff len flags =
      copyRangeDone inOff outOff (f.copyRangeLoop src len.toNat 0
        ⟨0, inOff.value.getD (-1), outOff.value.getD (-1), pos, []⟩) := by
    unfold sysCopyFileRange
    rw [if_neg hflags, if_neg hfd, if_neg hops]
    cases inOff <;> cases outOff <;> first | rfl | contradiction
  rw [hcall, hloop]
  by_cases hsizes : (f.pattern len.toNat 0).sizes = []
  · cases herr : (f.pattern len.toNat 0).err with
    | none =>
      refine ⟨_, ?_, .inl rfl⟩
      simp [copyRangeDone, positioned, moves]
    | some err =>
      have hzero : (f.pattern len.toNat 0).written = 0 := by
        rw [CopyPattern.written, hsizes, pattern_err (by rw [herr]; exact Option.some_ne_none err)]
        rfl
      refine ⟨err, ?_, .inr ⟨hzero, pattern_errno herr⟩⟩
      simp [copyRangeDone, positioned, moves, hsizes]
  · refine ⟨_, ?_, .inl rfl⟩
    simp [copyRangeDone, positioned, moves, hsizes]

lemma bytesFrom_of_written {p : CopyPattern} {src : ℕ → ℤ → UInt8} {stride i : ℕ}
    {start place : ℤ} (h : p.written = 0) :
    BytesFrom src start (sentOf src stride i place p.sizes p.lastWritten) := by
  intro j b hb
  have hlt := (List.getElem?_eq_some_iff.mp hb).1
  rw [length_sent] at hlt
  omega

lemma copyRange_null_iff {outOff : OffsetArg} {len flags : BitVec 32}
    (hflags : ¬ flags ≠ 0) (hfd : ¬ (f.inOpen = false ∨ f.outOpen = false))
    (hops : ¬ (f.hasRead = false ∧ f.hasPread = false ∨ f.hasWrite = false ∧ f.hasPwrite = false))
    (hout : outOff ≠ .unreadable) :
    (∀ src, (f.sysCopyFileRange src pos .null outOff len flags).Exact src pos .null) ↔
      ((f.pattern len.toNat 0).written = 0 ∨ outOff.canPut = true ∧
        (f.pattern len.toNat 0).written < countLimit) ∧
      if f.moves outOff then (f.pattern len.toNat 0).read = 0
      else (f.pattern len.toNat 0).lastRead = (f.pattern len.toNat 0).lastWritten := by
  have hle := @pattern_le f len.toNat 0
  have hdone (src : ℕ → ℤ → UInt8) := @sysCopyFileRange_eq f src pos .null outOff len flags
    hflags hfd hops OffsetArg.noConfusion hout
  generalize f.pattern len.toNat 0 = P at hle hdone ⊢
  have hoff (off : ℤ) :
      (if P.sizes = [] ∧ P.err ≠ none then OffsetArg.null.value else OffsetArg.null.put off) =
        none := ite_self none
  have hplace : (pos + P.read + (if f.moves outOff then P.written else 0 : ℕ) = pos + P.written) ↔
      if f.moves outOff then P.read = 0 else P.lastRead = P.lastWritten := by
    rw [CopyPattern.read, CopyPattern.written]
    split_ifs <;> omega
  have hno : f.positioned .null = false := rfl
  simp only [hoff, hno, Bool.not_false, Bool.true_and, Bool.false_eq_true, if_false] at hdone
  constructor
  · intro h
    obtain ⟨ret, hcall, hret⟩ := hdone fun _ _ => 0
    have hex := h fun _ _ => 0
    rw [hcall] at hex
    refine ⟨(ret_put_iff (length_sent P) hret).mp hex.ret, hplace.mp ?_⟩
    have hplace' := hex.place
    rwa [length_sent] at hplace'
  · rintro ⟨hcount, hmoved⟩ src
    obtain ⟨ret, hcall, hret⟩ := hdone src
    rw [hcall]
    refine ⟨(ret_put_iff (length_sent P) hret).mpr hcount, ?_, ?_⟩
    · cases hmoves : f.moves outOff with
      | false => exact bytesFrom_sentOf
      | true =>
        rw [hmoves, if_pos rfl, CopyPattern.read] at hmoved
        exact bytesFrom_of_written (by rw [CopyPattern.written]; omega)
    · rw [length_sent]
      exact hplace.mpr hmoved

lemma bytes_given_iff {p : CopyPattern} {off : ℤ} {b moved : Bool}
    (hpos : ∀ size ∈ p.sizes, 0 < size) :
    (∀ src, BytesFrom src off (sentOf src (stride (!b && moved)) 0 (if b then off else pos)
        p.sizes p.lastWritten)) ↔
      b = true ∨ p.written = 0 ∨ pos = off ∧ (moved = false ∨ p.chunks ≤ 1) := by
  cases b with
  | true => exact iff_of_true (fun _ => bytesFrom_sentOf) (.inl rfl)
  | false =>
    rw [Bool.not_false, Bool.true_and, if_neg Bool.false_ne_true,
      sentOf_iff hpos (by cases moved <;> simp [stride])]
    cases moved <;> simp [stride, CopyPattern.written, CopyPattern.chunks]

lemma place_given_iff {p : CopyPattern} {off : ℤ} {failed writable : Bool}
    (hfailed : failed = true → p.written = 0) :
    (if failed then off else if writable then off + (if 0 ≤ off then p.read else 0 : ℕ) else off) =
        off + p.written ↔
      if off < 0 then p.written = 0
      else failed = true ∨ if writable then p.lastRead = p.lastWritten else p.written = 0 := by
  rw [CopyPattern.read]
  rw [CopyPattern.written] at hfailed ⊢
  generalize p.sizes.sum = whole at hfailed ⊢
  cases failed with
  | true =>
    have hzero := hfailed rfl
    rw [if_pos rfl]
    refine iff_of_true (by omega) ?_
    split_ifs
    · exact hzero
    · exact .inl rfl
    · exact .inl rfl
  | false =>
    rw [if_neg Bool.false_ne_true, or_iff_right Bool.false_ne_true]
    split_ifs <;> omega

lemma copyRange_given_iff {outOff : OffsetArg} {off : ℤ} {writable : Bool} {len flags : BitVec 32}
    (hflags : ¬ flags ≠ 0) (hfd : ¬ (f.inOpen = false ∨ f.outOpen = false))
    (hops : ¬ (f.hasRead = false ∧ f.hasPread = false ∨ f.hasWrite = false ∧ f.hasPwrite = false))
    (hout : outOff ≠ .unreadable) :
    (∀ src, (f.sysCopyFileRange src pos (.given off writable) outOff len flags).Exact src pos
        (.given off writable)) ↔
      ((f.pattern len.toNat 0).written = 0 ∨ writable = true ∧ outOff.canPut = true ∧
        (f.pattern len.toNat 0).written < countLimit) ∧
      if off < 0 then (f.pattern len.toNat 0).written = 0
      else
        ((f.pattern len.toNat 0).lastRead = (f.pattern len.toNat 0).lastWritten ∨
          writable = false ∨
          (f.pattern len.toNat 0).err ≠ none ∧ (f.pattern len.toNat 0).written = 0) ∧
        (f.hasPread = true ∨ (f.pattern len.toNat 0).written = 0 ∨
          pos = off ∧ (f.moves outOff = false ∨ (f.pattern len.toNat 0).chunks ≤ 1)) := by
  have hnil := @sizes_of_written f len.toNat 0
  have hpos (size : ℕ) : size ∈ (f.pattern len.toNat 0).sizes → 0 < size := pattern_pos
  have hfailed : ((f.pattern len.toNat 0).sizes = [] ∧ (f.pattern len.toNat 0).err ≠ none) →
      (f.pattern len.toNat 0).written = 0 := by
    rintro ⟨hsizes, herr⟩
    rw [CopyPattern.written, hsizes, pattern_err herr]
    rfl
  have hdone (src : ℕ → ℤ → UInt8) := @sysCopyFileRange_eq f src pos (.given off writable) outOff
    len flags hflags hfd hops OffsetArg.noConfusion hout
  generalize f.pattern len.toNat 0 = P at hnil hpos hfailed hdone ⊢
  have hplace := @place_given_iff P off (decide (P.sizes = [] ∧ P.err ≠ none)) writable
    (fun h => hfailed (of_decide_eq_true h))
  have hbytes := @bytes_given_iff pos P off (f.positioned (.given off writable)) (f.moves outOff)
    hpos
  have hoff (new : ℤ) : (if P.sizes = [] ∧ P.err ≠ none then (OffsetArg.given off writable).value
      else (OffsetArg.given off writable).put new) =
      some (if P.sizes = [] ∧ P.err ≠ none then off else if writable then new else off) := by
    by_cases h : P.sizes = [] ∧ P.err ≠ none
    · rw [if_pos h, if_pos h]
      rfl
    · rw [if_neg h, if_neg h]
      rfl
  have hcan : ((OffsetArg.given off writable).canPut && outOff.canPut) = true ↔
      writable = true ∧ outOff.canPut = true := Bool.and_eq_true_iff
  simp only [decide_eq_true_eq] at hplace
  simp only [hoff] at hdone
  have hall : (∀ src, (f.sysCopyFileRange src pos (.given off writable) outOff len flags).Exact src
      pos (.given off writable)) ↔
      (P.written = 0 ∨ (writable = true ∧ outOff.canPut = true) ∧ P.written < countLimit) ∧
      (f.positioned (.given off writable) = true ∨ P.written = 0 ∨
        pos = off ∧ (f.moves outOff = false ∨ P.chunks ≤ 1)) ∧
      (if off < 0 then P.written = 0
        else (P.sizes = [] ∧ P.err ≠ none) ∨
          if writable then P.lastRead = P.lastWritten else P.written = 0) := by
    rw [← hplace, ← hbytes, ← hcan]
    constructor
    · intro h
      obtain ⟨ret, hcall, hret⟩ := hdone fun _ _ => 0
      have hex := h fun _ _ => 0
      rw [hcall] at hex
      refine ⟨(ret_put_iff (length_sent P) hret).mp hex.ret, fun src => ?_, ?_⟩
      · obtain ⟨ret, hcall, -⟩ := hdone src
        have hbytes' := (h src).bytes
        rwa [hcall] at hbytes'
      · have hplace' := hex.place
        rwa [length_sent] at hplace'
    · rintro ⟨hcount, hsent, hput⟩ src
      obtain ⟨ret, hcall, hret⟩ := hdone src
      rw [hcall]
      refine ⟨(ret_put_iff (length_sent P) hret).mpr hcount, hsent src, ?_⟩
      rw [length_sent]
      exact hput
  rw [hall, and_assoc]
  have hpositioned : f.positioned (.given off writable) = (decide (0 ≤ off) && f.hasPread) := rfl
  have hfailed_iff : (P.sizes = [] ∧ P.err ≠ none) ↔ P.err ≠ none ∧ P.written = 0 :=
    ⟨fun h => ⟨h.2, hfailed h⟩, fun h => ⟨hnil h.2, h.1⟩⟩
  rw [hpositioned, hfailed_iff]
  by_cases hoff : off < 0
  · rw [if_pos hoff, if_pos hoff]
    exact ⟨fun h => ⟨h.1, h.2.2⟩, fun h => ⟨h.1, .inr (.inl h.2), h.2⟩⟩
  · rw [if_neg hoff, if_neg hoff, decide_eq_true (show 0 ≤ off by omega), Bool.true_and]
    cases writable with
    | false =>
      rw [if_neg Bool.false_ne_true]
      refine ⟨fun h => ⟨h.1, .inr (.inl rfl), h.2.1⟩, fun h => ⟨h.1, h.2.2, .inr ?_⟩⟩
      exact h.1.resolve_right fun hno => Bool.false_ne_true hno.1
    | true =>
      rw [if_pos rfl]
      refine ⟨fun h => ⟨h.1, ?_, h.2.1⟩, fun h => ⟨h.1, h.2.2, ?_⟩⟩
      · exact h.2.2.elim (fun hfail => .inr (.inr hfail)) .inl
      · obtain hsame | hno | hfail := h.2.1
        · exact .inr hsame
        · exact absurd hno Bool.true_eq_false.mp
        · exact .inl hfail

lemma copyRange_iff {outOff : OffsetArg} {len flags : BitVec 32} :
    (∀ src, (f.sysCopyFileRange src pos offset outOff len flags).Exact src pos offset) ↔
      f.CopyRangeFits pos offset outOff len flags := by
  unfold CopyRangeFits
  by_cases hflags : flags ≠ 0
  · refine iff_of_true (fun src => ?_) (.inl hflags)
    unfold sysCopyFileRange
    rw [if_pos hflags]
    exact exact_refused ⟨by decide, by decide⟩
  by_cases hfd : f.inOpen = false ∨ f.outOpen = false
  · refine iff_of_true (fun src => ?_) (by tauto)
    unfold sysCopyFileRange
    rw [if_neg hflags, if_pos hfd]
    exact exact_refused ⟨by decide, by decide⟩
  by_cases hops : f.hasRead = false ∧ f.hasPread = false ∨ f.hasWrite = false ∧ f.hasPwrite = false
  · refine iff_of_true (fun src => ?_) (by tauto)
    unfold sysCopyFileRange
    rw [if_neg hflags, if_neg hfd, if_pos hops]
    exact exact_refused ⟨by decide, by decide⟩
  by_cases hin : offset = .unreadable
  · refine iff_of_true (fun src => ?_) (by tauto)
    unfold sysCopyFileRange
    rw [if_neg hflags, if_neg hfd, if_neg hops, hin]
    exact exact_refused ⟨by decide, by decide⟩
  by_cases hout : outOff = .unreadable
  · refine iff_of_true (fun src => ?_) (by tauto)
    unfold sysCopyFileRange
    rw [if_neg hflags, if_neg hfd, if_neg hops, hout]
    cases offset <;> exact exact_refused ⟨by decide, by decide⟩
  obtain ⟨hinOpen, houtOpen⟩ := not_or.mp hfd
  obtain ⟨hread, hwrite⟩ := not_or.mp hops
  rw [or_iff_right hflags, or_iff_right hinOpen, or_iff_right houtOpen, or_iff_right hread,
    or_iff_right hwrite, or_iff_right hin, or_iff_right hout]
  cases offset with
  | null =>
    have hput : OffsetArg.null.canPut = true := rfl
    rw [copyRange_null_iff hflags hfd hops hout, hput, and_iff_right rfl]
  | unreadable => exact absurd rfl hin
  | given off writable => exact copyRange_given_iff hflags hfd hops hout

end Calls

end CopyFiles

/-- Copies from file to file keep the positions consistent if and only if the answers fit. -/
theorem file_copy_iff (f : CopyFiles) (pos : ℤ) (inOff outOff : OffsetArg)
    (count len flags : BitVec 32) :
    ((∀ src, (f.sysSendfile64 src pos inOff count).Exact src pos inOff) ↔
      f.SendfileFits inOff count) ∧
    ((∀ src, (f.sysCopyFileRange src pos inOff outOff len flags).Exact src pos inOff) ↔
      f.CopyRangeFits pos inOff outOff len flags) :=
  ⟨CopyFiles.sendfile_iff, CopyFiles.copyRange_iff⟩

def shortWrite : CopyFiles where
  inOpen := true
  outOpen := true
  hasRead := true
  hasPread := true
  hasWrite := true
  hasPwrite := true
  same := false
  rd _ size := .ok (min size 2)
  wr _ size := .ok (min size 1)
  rd_errno _ _ _ h := by cases h
  rd_count _ size n h := by
    obtain rfl := Except.ok.inj h
    exact Nat.min_le_left size 2
  wr_errno _ _ _ h := by cases h
  wr_count _ size n h := by
    obtain rfl := Except.ok.inj h
    exact Nat.min_le_left size 1

/-- Of two bytes that are read one is written, and the position is behind both. -/
theorem file_copy_fails :
    ¬ ∀ (f : CopyFiles) (pos : ℤ) (offset : OffsetArg) (count : BitVec 32) (src : ℕ → ℤ → UInt8),
      (f.sysSendfile64 src pos offset count).Exact src pos offset := by
  intro h
  have hplace := (h shortWrite 0 .null 2 fun _ _ => 0).place
  have hcall : shortWrite.sysSendfile64 (fun _ _ => 0) 0 .null 2 = ⟨1, [0], 2, none⟩ := by
    simp [CopyFiles.sysSendfile64, CopyFiles.sendfileDone, CopyFiles.sendfileLoop, shortWrite, OffsetArg.value,
      OffsetArg.canPut, OffsetArg.put, guestRet, bytesAt]
  rw [hcall] at hplace
  exact absurd hplace (by decide)

end ShellBox
