import ShellBox.Logic.RingBuffer

/-!
# The buffer of a procfs file

`proc_buf_append` adds bytes at the end of a buffer, which grows by doubling its capacity, and
drops them when the host has no memory. `proc_printf` prints to a local buffer of 4096 bytes, and
appends as many bytes of it as the whole text has, be they in the local buffer or not.

A step that reads outside the bytes it copies from, or writes outside the buffer, or does not end,
has no result.
-/

namespace ShellBox

open RingBuffer

/-- What the host answers: if it has `n` bytes, of which it never has more than fit into an
address space, and what is in memory nobody has written to. A page is always there. -/
structure ProcHost where
  alloc : ℕ → Bool
  grants : ∀ n, alloc n = true → n ≤ 2 ^ 47
  page : ∀ n ≤ 4096, alloc n = true
  fresh : ℕ → UInt8
  stack : ℕ → UInt8

/-- `struct proc_data`. -/
structure ProcData where
  data : ℕ → UInt8
  size : ℕ
  capacity : ℕ

def ProcData.contents (d : ProcData) : List UInt8 := slice d.data 0 d.size

/-- The loop that doubles the new capacity, a `size_t`. -/
def growCapacity (tidemark : ℕ) : ℕ → ℕ → Option ℕ
  | 0, _ => none
  | fuel + 1, newCapacity =>
    if newCapacity < tidemark then growCapacity tidemark fuel (newCapacity * 2 % 2 ^ 64)
    else some newCapacity

/-- The capacity that `proc_buf_write` asks for. After 65 rounds that did not end the loop the
capacity is zero and stays so. -/
def newCapacity (capacity tidemark : ℕ) : Option ℕ :=
  growCapacity tidemark 65 ((capacity + 1) % 2 ^ 64)

namespace ProcData

/-- `realloc`: the new memory is not written yet. -/
def realloc (h : ProcHost) (d : ProcData) (capacity : ℕ) : ProcData where
  data := fun i => if i < d.capacity then d.data i else h.fresh i
  size := d.size
  capacity := capacity

/-- The copy at the end of `proc_buf_write`. -/
def store (d : ProcData) (src : List UInt8) (size off tidemark : ℕ) : Option ProcData :=
  if src.length < size ∨ d.capacity < off + size then none
  else
    some
      { data := putAt d.data off (src.take size)
        size := if d.size < tidemark then tidemark else d.size
        capacity := d.capacity }

end ProcData

/-- `proc_buf_write`, which copies `size` bytes of `src`. -/
def procBufWrite (h : ProcHost) (d : ProcData) (src : List UInt8) (size off : ℕ) :
    Option ProcData :=
  let tidemark := (off + size) % 2 ^ 64
  if d.capacity < tidemark then
    match newCapacity d.capacity tidemark with
    | none => none
    | some capacity =>
      if h.alloc capacity = false then some d
      else (d.realloc h capacity).store src size off tidemark
  else d.store src size off tidemark

def procBufAppend (h : ProcHost) (d : ProcData) (src : List UInt8) (size : ℕ) : Option ProcData :=
  procBufWrite h d src size d.size

/-- `vsnprintf` to a local buffer of 4096 bytes: what is in the buffer, and the length of the
whole text as a `size_t`. A text that is too long for an `int` is an error, -1. -/
def vsnprintf (h : ProcHost) (text : List UInt8) : List UInt8 × ℕ :=
  ((text.take 4095 ++ 0 :: slice h.stack 0 4096).take 4096,
    if text.length < 2 ^ 31 then text.length else 2 ^ 64 - 1)

/-- `proc_printf` of a format and arguments that expand to a text. -/
def procPrintf (h : ProcHost) (d : ProcData) (text : List UInt8) : Option ProcData :=
  procBufAppend h d (vsnprintf h text).1 (vsnprintf h text).2

/-- A call that adds to the buffer. What is appended is an object in the memory of the host, and a
text has no zero byte. -/
inductive ProcOp
  | append (data : List UInt8) (short : data.length ≤ 2 ^ 47)
  | printf (text : List UInt8) (noNul : 0 ∉ text)

namespace ProcOp

def text : ProcOp → List UInt8
  | append data _ => data
  | printf text _ => text

def apply (h : ProcHost) (d : ProcData) : ProcOp → Option ProcData
  | append data _ => procBufAppend h d data data.length
  | printf text _ => procPrintf h d text

end ProcOp

/-- The calls of a `show` function, one after the other. -/
def procShow (h : ProcHost) : List ProcOp → ProcData → Option ProcData
  | [], d        => some d
  | op :: ops, d => (op.apply h d).bind (procShow h ops)

structure ProcData.Valid (d : ProcData) : Prop where
  size : d.size ≤ d.capacity
  capacity : d.capacity ≤ 2 ^ 47

/-! ### Growing -/

lemma growCapacity_eq_none_iff {tidemark c : ℕ} (hc : c < 2 ^ 64) (fuel : ℕ) :
    growCapacity tidemark fuel c = none ↔ ∀ k < fuel, c * 2 ^ k % 2 ^ 64 < tidemark := by
  induction fuel generalizing c with
  | zero => simp [growCapacity]
  | succ fuel ih =>
    have hround : ∀ k, c * 2 % 2 ^ 64 * 2 ^ k % 2 ^ 64 = c * 2 ^ (k + 1) % 2 ^ 64 := by
      intro k
      rw [Nat.mod_mul_mod, Nat.mul_assoc, ← Nat.pow_succ']
    rw [growCapacity]
    split_ifs with hlt
    · rw [ih (Nat.mod_lt _ (by decide))]
      constructor
      · intro h k hk
        cases k with
        | zero => rwa [pow_zero, Nat.mul_one, Nat.mod_eq_of_lt hc]
        | succ k => exact hround k ▸ h k (by omega)
      · exact fun h k hk => hround k ▸ h (k + 1) (by omega)
    · refine iff_of_false (by simp) fun h => hlt ?_
      have hfirst := h 0 (by omega)
      rwa [pow_zero, Nat.mul_one, Nat.mod_eq_of_lt hc] at hfirst

lemma growCapacity_stuck {tidemark c : ℕ} (hc : c < 2 ^ 64)
    (h : growCapacity tidemark 65 c = none) (fuel : ℕ) :
    growCapacity tidemark fuel c = none := by
  rw [growCapacity_eq_none_iff hc] at h ⊢
  intro k _
  rcases Nat.lt_or_ge k 65 with hk | hk
  · exact h k hk
  · have hzero : c * 2 ^ k % 2 ^ 64 = 0 := by
      obtain ⟨m, rfl⟩ := Nat.exists_eq_add_of_le (show 64 ≤ k by omega)
      rw [Nat.pow_add, Nat.mul_left_comm, Nat.mul_mod_right]
    have hlast := h 64 (by decide)
    rw [Nat.mul_mod_left] at hlast
    omega

lemma growCapacity_ends {tidemark : ℕ} (htide : tidemark ≤ 2 ^ 48) (fuel : ℕ) {c : ℕ}
    (hc : tidemark ≤ c * 2 ^ fuel) :
    ∃ c', growCapacity tidemark (fuel + 1) c = some c' ∧ tidemark ≤ c' := by
  induction fuel generalizing c with
  | zero =>
    refine ⟨c, ?_, by omega⟩
    rw [growCapacity, if_neg (by omega)]
  | succ fuel ih =>
    rw [growCapacity]
    split_ifs with hlt
    · rw [Nat.mod_eq_of_lt (by omega)]
      exact ih (by rw [Nat.mul_assoc, ← Nat.pow_succ']; exact hc)
    · exact ⟨c, rfl, by omega⟩

lemma newCapacity_ends {capacity tidemark : ℕ} (hcap : capacity ≤ 2 ^ 47)
    (htide : tidemark ≤ 2 ^ 48) :
    ∃ c, newCapacity capacity tidemark = some c ∧ tidemark ≤ c := by
  rw [newCapacity, Nat.mod_eq_of_lt (by omega)]
  refine growCapacity_ends htide 64 ?_
  have hmul : 2 ^ 64 ≤ (capacity + 1) * 2 ^ 64 := Nat.le_mul_of_pos_left _ (by omega)
  omega

/-! ### One call -/

lemma slice_putAt_end (buf : ℕ → UInt8) (n : ℕ) (data : List UInt8) :
    slice (putAt buf n data) 0 (n + data.length) = slice buf 0 n ++ data := by
  refine List.ext_getElem (by simp) fun i hi _ => ?_
  rw [length_slice] at hi
  simp only [slice, List.getElem_map, List.getElem_range, Nat.zero_add, List.getElem_append,
    List.length_map, List.length_range]
  split_ifs with hlt
  · exact putAt_of_notMem (.inl hlt)
  · have hput := @putAt_of_lt UInt8 buf data n (i - n) (by omega)
    rwa [show n + (i - n) = i by omega] at hput

lemma slice_congr {buf buf' : ℕ → UInt8} {n : ℕ} (h : ∀ i < n, buf i = buf' i) :
    slice buf 0 n = slice buf' 0 n := by
  refine List.map_congr_left fun i hi => ?_
  rw [Nat.zero_add]
  exact h i (List.mem_range.mp hi)

namespace ProcData

variable {h : ProcHost} {d d' : ProcData} {src : List UInt8}

/-- The buffer has room for `n` more bytes, or the host gives it the memory. -/
def Room (h : ProcHost) (size capacity n : ℕ) : Prop :=
  capacity < size + n → ∃ c, newCapacity capacity (size + n) = some c ∧ h.alloc c = true

/-- The capacity behind a call that has added `n` bytes. -/
def capacityFor (size capacity n : ℕ) : ℕ :=
  if capacity < size + n then (newCapacity capacity (size + n)).getD 0 else capacity

lemma contents_realloc (hd : d.Valid) (c : ℕ) : (d.realloc h c).contents = d.contents := by
  refine slice_congr fun i hi => ?_
  have hsize := hd.size
  simp only [realloc] at hi ⊢
  rw [if_pos (by omega)]

lemma store_end (hroom : d.size + src.length ≤ d.capacity) :
    ∃ d', d.store src src.length d.size (d.size + src.length) = some d' ∧
      d'.contents = d.contents ++ src ∧ d'.size = d.size + src.length ∧
      d'.capacity = d.capacity := by
  rw [store, if_neg (by omega)]
  have hsize : (if d.size < d.size + src.length then d.size + src.length else d.size) =
      d.size + src.length := by split_ifs <;> omega
  refine ⟨_, rfl, ?_, hsize, rfl⟩
  simp only [contents, hsize, List.take_length]
  exact slice_putAt_end _ _ _

lemma procBufAppend_object (hd : d.Valid) (hsrc : src.length ≤ 2 ^ 47) :
    (Room h d.size d.capacity src.length ∧
      ∃ d', procBufAppend h d src src.length = some d' ∧ d'.Valid ∧
        d'.contents = d.contents ++ src ∧ d'.size = d.size + src.length ∧
        d'.capacity = capacityFor d.size d.capacity src.length) ∨
    (¬ Room h d.size d.capacity src.length ∧ src ≠ [] ∧
      procBufAppend h d src src.length = some d) := by
  have hsize := hd.size
  have hcap := hd.capacity
  have htide : (d.size + src.length) % 2 ^ 64 = d.size + src.length :=
    Nat.mod_eq_of_lt (by omega)
  simp only [procBufAppend, procBufWrite, htide]
  by_cases hgrow : d.capacity < d.size + src.length
  · obtain ⟨c, hc, hle⟩ := newCapacity_ends hcap (show d.size + src.length ≤ 2 ^ 48 by omega)
    rw [if_pos hgrow, hc]
    simp only
    cases halloc : h.alloc c with
    | false =>
      refine .inr ⟨fun hroom => ?_, ?_, if_pos rfl⟩
      · obtain ⟨c', hc', hgrant⟩ := hroom hgrow
        rw [hc] at hc'
        cases hc'
        rw [halloc] at hgrant
        cases hgrant
      · rintro rfl
        rw [List.length_nil] at hgrow
        omega
    | true =>
      obtain ⟨d', hd', hcontents, hsize', hcap'⟩ :=
        @store_end (d.realloc h c) src (show d.size + src.length ≤ c from hle)
      rw [contents_realloc hd] at hcontents
      refine .inl ⟨fun _ => ⟨c, hc, halloc⟩, d', ?_, ⟨?_, ?_⟩, hcontents, hsize', ?_⟩
      · rw [if_neg (by decide)]
        exact hd'
      · rw [hsize', hcap']
        exact hle
      · rw [hcap']
        exact h.grants c halloc
      · rw [hcap', capacityFor, if_pos hgrow, hc]
        rfl
  · rw [if_neg hgrow]
    obtain ⟨d', hd', hcontents, hsize', hcap'⟩ := @store_end d src (by omega)
    refine .inl ⟨fun hlt => absurd hlt hgrow, d', hd', ⟨by omega, by omega⟩, hcontents, hsize', ?_⟩
    rw [hcap', capacityFor, if_neg hgrow]

lemma procBufAppend_short {size : ℕ} (hsrc : src.length < size) :
    procBufAppend h d src size = none ∨ procBufAppend h d src size = some d := by
  have hstore : ∀ (d : ProcData) off tidemark, d.store src size off tidemark = none :=
    fun d off tidemark => if_pos (.inl hsrc)
  simp only [procBufAppend, procBufWrite, hstore]
  split_ifs
  · cases newCapacity d.capacity ((d.size + size) % 2 ^ 64) with
    | none => exact .inl rfl
    | some c =>
      simp only
      split_ifs
      · exact .inr rfl
      · exact .inl rfl
  · exact .inl rfl

lemma procBufAppend_take {size : ℕ} (hsrc : size ≤ src.length) :
    procBufAppend h d src size = procBufAppend h d (src.take size) (src.take size).length := by
  have hlen : (src.take size).length = size := by rw [List.length_take]; omega
  have hstore : ∀ (d : ProcData) off tidemark,
      d.store src size off tidemark = d.store (src.take size) size off tidemark := by
    intro d off tidemark
    simp only [store, hlen, hsrc.not_gt, lt_irrefl, false_or, List.take_take, min_self]
  simp only [procBufAppend, procBufWrite, hstore, hlen]

end ProcData

lemma length_vsnprintf (h : ProcHost) (text : List UInt8) :
    (vsnprintf h text).1.length = 4096 := by
  simp [vsnprintf]

lemma take_vsnprintf {h : ProcHost} {text : List UInt8} (hshort : text.length < 4096) :
    (vsnprintf h text).1.take text.length = text ∧ (vsnprintf h text).2 = text.length := by
  refine ⟨?_, if_pos (by omega)⟩
  have hwhole : text.take 4095 = text := List.take_of_length_le (by omega)
  rw [vsnprintf, List.take_take, min_eq_left (by omega), hwhole, List.take_left]

lemma vsnprintf_full {h : ProcHost} {text : List UInt8} (hfull : text.length = 4096) :
    0 ∈ (vsnprintf h text).1 := by
  have hlen : (text.take 4095).length = 4095 := by rw [List.length_take]; omega
  rw [vsnprintf, List.take_append, hlen, List.mem_append]
  exact .inr (by simp)

namespace ProcOp

variable {h : ProcHost} {d d' : ProcData}

/-- The text of a call fits the local buffer with a zero byte behind it. -/
def Short : ProcOp → Prop
  | append _ _    => True
  | printf text _ => text.length < 4096

lemma apply_long (hd : d.Valid) {text : List UInt8} {noNul : 0 ∉ text}
    (hlong : 4096 ≤ text.length) :
    (printf text noNul).apply h d = none ∨ ∃ d' c, (printf text noNul).apply h d = some d' ∧
      d'.Valid ∧ d'.contents = d.contents ++ c ∧ c.length ≤ text.length ∧ c ≠ text := by
  have hlen := length_vsnprintf h text
  have hne : ([] : List UInt8) ≠ text := by
    rintro rfl
    rw [List.length_nil] at hlong
    omega
  have dropped : (printf text noNul).apply h d = some d → ∃ d' c,
      (printf text noNul).apply h d = some d' ∧ d'.Valid ∧ d'.contents = d.contents ++ c ∧
        c.length ≤ text.length ∧ c ≠ text := fun happly =>
    ⟨d, [], happly, hd, (List.append_nil _).symm, Nat.zero_le _, hne⟩
  rcases Nat.eq_or_lt_of_le hlong with hfull | hover
  · have hsize : (vsnprintf h text).2 = (vsnprintf h text).1.length := by
      rw [hlen, hfull]
      exact if_pos (by omega)
    have happly : (printf text noNul).apply h d =
        procBufAppend h d (vsnprintf h text).1 (vsnprintf h text).1.length := by
      rw [apply, procPrintf, hsize]
    rcases ProcData.procBufAppend_object (h := h) hd (show (vsnprintf h text).1.length ≤ 2 ^ 47 by
        omega) with ⟨-, d', hd', hvalid, hcontents, -, -⟩ | ⟨-, -, hsame⟩
    · refine .inr ⟨d', _, happly.trans hd', hvalid, hcontents, by omega, fun heq => noNul ?_⟩
      rw [← heq]
      exact vsnprintf_full hfull.symm
    · exact .inr (dropped (happly.trans hsame))
  · have hshort : (vsnprintf h text).1.length < (vsnprintf h text).2 := by
      rw [hlen, vsnprintf]
      simp only
      split_ifs <;> omega
    rcases ProcData.procBufAppend_short (h := h) (d := d) hshort with hnone | hsame
    · exact .inl hnone
    · exact .inr (dropped hsame)

lemma apply_object (hd : d.Valid) {op : ProcOp} (hshort : op.Short)
    (hlen : op.text.length ≤ 2 ^ 47)
    (happly : op.apply h d = procBufAppend h d op.text op.text.length) :
    ((op.Short ∧ ProcData.Room h d.size d.capacity op.text.length) ∧
      ∃ d', op.apply h d = some d' ∧ d'.Valid ∧ d'.contents = d.contents ++ op.text ∧
        d'.size = d.size + op.text.length ∧
        d'.capacity = ProcData.capacityFor d.size d.capacity op.text.length) ∨
    (¬ (op.Short ∧ ProcData.Room h d.size d.capacity op.text.length) ∧
      (op.apply h d = none ∨ ∃ d' c, op.apply h d = some d' ∧ d'.Valid ∧
        d'.contents = d.contents ++ c ∧ c.length ≤ op.text.length ∧ c ≠ op.text)) := by
  rw [happly]
  rcases ProcData.procBufAppend_object (h := h) hd hlen with ⟨hroom, hdone⟩ | ⟨hno, hne, hsame⟩
  · exact .inl ⟨⟨hshort, hroom⟩, hdone⟩
  · exact .inr ⟨fun hfits => hno hfits.2, .inr ⟨d, [], hsame, hd, (List.append_nil _).symm,
      Nat.zero_le _, hne.symm⟩⟩

lemma apply_cases (hd : d.Valid) (op : ProcOp) :
    ((op.Short ∧ ProcData.Room h d.size d.capacity op.text.length) ∧
      ∃ d', op.apply h d = some d' ∧ d'.Valid ∧ d'.contents = d.contents ++ op.text ∧
        d'.size = d.size + op.text.length ∧
        d'.capacity = ProcData.capacityFor d.size d.capacity op.text.length) ∨
    (¬ (op.Short ∧ ProcData.Room h d.size d.capacity op.text.length) ∧
      (op.apply h d = none ∨ ∃ d' c, op.apply h d = some d' ∧ d'.Valid ∧
        d'.contents = d.contents ++ c ∧ c.length ≤ op.text.length ∧ c ≠ op.text)) := by
  cases op with
  | append data short => exact apply_object hd trivial short rfl
  | printf text noNul =>
    by_cases hshort : text.length < 4096
    · obtain ⟨htake, hsize⟩ := take_vsnprintf (h := h) hshort
      refine apply_object hd hshort (show text.length ≤ 2 ^ 47 by omega) ?_
      rw [apply, procPrintf, hsize, ProcData.procBufAppend_take
        (by rw [length_vsnprintf]; omega), htake]
      rfl
    · exact .inr ⟨fun hfits => hshort hfits.1, apply_long hd (by omega)⟩

end ProcOp

/-! ### The calls of a `show` function -/

/-- Every text is short, and the host has the memory for the buffer whenever it grows. -/
def OpsFit (h : ProcHost) : ℕ → ℕ → List ProcOp → Prop
  | _, _, [] => True
  | size, capacity, op :: ops =>
    (op.Short ∧ ProcData.Room h size capacity op.text.length) ∧
      OpsFit h (size + op.text.length) (ProcData.capacityFor size capacity op.text.length) ops

def opsText (ops : List ProcOp) : List UInt8 := ops.flatMap ProcOp.text

section Show

variable {h : ProcHost} {d d' : ProcData} {ops : List ProcOp}

lemma procShow_adds (hd : d.Valid) (hrun : procShow h ops d = some d') :
    d'.Valid ∧ ∃ c, d'.contents = d.contents ++ c ∧ c.length ≤ (opsText ops).length := by
  induction ops generalizing d with
  | nil =>
    cases hrun
    exact ⟨hd, [], by simp, by simp⟩
  | cons op ops ih =>
    rw [procShow, Option.bind_eq_some_iff] at hrun
    obtain ⟨d₁, hd₁, hrun⟩ := hrun
    obtain ⟨hvalid, c, hc, hle⟩ : d₁.Valid ∧ ∃ c, d₁.contents = d.contents ++ c ∧
        c.length ≤ op.text.length := by
      rcases op.apply_cases (h := h) hd with ⟨-, d₂, hd₂, hvalid, hc, -, -⟩ | ⟨-, hnone | hsome⟩
      · obtain rfl := Option.some.inj (hd₁.symm.trans hd₂)
        exact ⟨hvalid, _, hc, le_rfl⟩
      · rw [hd₁] at hnone
        cases hnone
      · obtain ⟨d₂, c, hd₂, hvalid, hc, hle, -⟩ := hsome
        obtain rfl := Option.some.inj (hd₁.symm.trans hd₂)
        exact ⟨hvalid, c, hc, hle⟩
    obtain ⟨hvalid', c', hc', hle'⟩ := ih hvalid hrun
    refine ⟨hvalid', c ++ c', by rw [hc', hc, List.append_assoc], ?_⟩
    simp only [opsText, List.flatMap_cons, List.length_append] at hle' ⊢
    omega

lemma procShow_iff (hd : d.Valid) (ops : List ProcOp) :
    (∃ d', procShow h ops d = some d' ∧ d'.contents = d.contents ++ opsText ops) ↔
      OpsFit h d.size d.capacity ops := by
  induction ops generalizing d with
  | nil => simp [procShow, OpsFit, opsText]
  | cons op ops ih =>
    have htext : opsText (op :: ops) = op.text ++ opsText ops := by simp [opsText]
    rw [procShow, OpsFit, htext]
    rcases op.apply_cases (h := h) hd with
      ⟨hfits, d₁, hd₁, hvalid, hc, hsize, hcap⟩ | ⟨hno, hnone | ⟨d₁, c, hd₁, hvalid, hc, hle, hne⟩⟩
    · rw [hd₁, Option.bind_some, ← hsize, ← hcap, ← ih hvalid, hc]
      simp only [hfits, true_and, List.append_assoc]
    · refine iff_of_false ?_ fun hfit => hno hfit.1
      rintro ⟨d', hd', -⟩
      rw [hnone] at hd'
      cases hd'
    · refine iff_of_false ?_ fun hfit => hno hfit.1
      rintro ⟨d', hd', hcontents⟩
      rw [hd₁, Option.bind_some] at hd'
      obtain ⟨-, c', hc', hle'⟩ := procShow_adds hvalid hd'
      rw [hc', hc, List.append_assoc] at hcontents
      have hboth := List.append_cancel_left hcontents
      have hlen := congrArg List.length hboth
      rw [List.length_append, List.length_append] at hlen
      exact hne (List.append_inj_left hboth (by omega))

def opsCapacity : ℕ → ℕ → List ProcOp → ℕ
  | _, capacity, [] => capacity
  | size, capacity, op :: ops =>
    opsCapacity (size + op.text.length) (ProcData.capacityFor size capacity op.text.length) ops

lemma procShow_of_fit (hd : d.Valid) (hfit : OpsFit h d.size d.capacity ops) :
    ∃ d', procShow h ops d = some d' ∧ d'.Valid ∧ d'.contents = d.contents ++ opsText ops ∧
      d'.capacity = opsCapacity d.size d.capacity ops := by
  induction ops generalizing d with
  | nil => exact ⟨d, rfl, hd, by simp [opsText], rfl⟩
  | cons op ops ih =>
    rcases op.apply_cases (h := h) hd with ⟨-, d₁, hd₁, hvalid, hc, hsize, hcap⟩ | ⟨hno, -⟩
    · obtain ⟨d', hd', hvalid', hcontents, hcapacity⟩ :=
        ih hvalid (by rw [hsize, hcap]; exact hfit.2)
      refine ⟨d', by rw [procShow, hd₁, Option.bind_some, hd'], hvalid', ?_, ?_⟩
      · rw [hcontents, hc, opsText, opsText, List.flatMap_cons, List.append_assoc]
      · rw [hcapacity, hsize, hcap]
        rfl
    · exact absurd hfit.1 hno

end Show

end ShellBox
