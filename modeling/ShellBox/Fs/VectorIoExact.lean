import ShellBox.Fs.VectorIo

/-!
# When vectored and scalar calls agree

Storing buffer after buffer is storing byte after byte at the addresses of the buffers. `preadv`
stores the bytes it has read and no others. `readv` stores as many as the buffers are long, so it
is right if the read has filled them, or if the store has to fail before the bytes that were read
end.
-/

namespace ShellBox

lemma zip_append_left {α β : Type*} (xs ys : List α) (bs : List β) :
    (xs ++ ys).zip bs = xs.zip (bs.take xs.length) ++ ys.zip (bs.drop xs.length) := by
  induction xs generalizing bs with
  | nil => simp
  | cons x xs ih =>
    cases bs with
    | nil => simp
    | cons b bs => simp [ih]

@[simp] lemma length_addrs (a n : ℕ) : (addrs a n).length = n := by
  induction n generalizing a with
  | zero => rfl
  | succ n ih => simp [addrs, ih]

lemma addrs_zip {a n : ℕ} {bs : List UInt8} (h : bs.length ≤ n) :
    (addrs a n).zip bs = (addrs a bs.length).zip bs := by
  induction bs generalizing a n with
  | nil => simp
  | cons b bs ih =>
    cases n with
    | zero => simp at h
    | succ n =>
      rw [List.length_cons, addrs, addrs, List.zip_cons_cons, List.zip_cons_cons,
        ih (by simpa using h)]

@[simp] lemma length_places (vs : List Iovec) : (places vs).length = iovecSize vs := by
  simp [places, iovecSize, List.length_flatMap]

lemma places_cons (v : Iovec) (vs : List Iovec) :
    places (v :: vs) = addrs v.base v.len ++ places vs := by
  simp [places]

namespace GuestBytes

variable {m : GuestBytes} {ps qs : List (ℕ × UInt8)} {vs : List Iovec}

/-! ### Stores -/

def Writable (m : GuestBytes) (as : List ℕ) : Prop := ∀ a ∈ as, m.writable (a / 4096) = true

@[simp] lemma put_writable (m : GuestBytes) (a : ℕ) (b : UInt8) :
    (m.put a b).writable = m.writable := rfl

lemma storeAt_writable (m : GuestBytes) (ps : List (ℕ × UInt8)) :
    (m.storeAt ps).1.writable = m.writable := by
  induction ps generalizing m with
  | nil => rfl
  | cons p ps ih =>
    rw [storeAt]
    split_ifs
    · rw [ih, put_writable]
    · rfl

lemma storeAt_ok_iff (m : GuestBytes) (ps : List (ℕ × UInt8)) :
    (m.storeAt ps).2 = true ↔ ∀ p ∈ ps, m.writable (p.1 / 4096) = true := by
  induction ps generalizing m with
  | nil => simp [storeAt]
  | cons p ps ih =>
    rw [storeAt, List.forall_mem_cons]
    split_ifs with h
    · simp only [ih, put_writable, h, true_and]
    · simp [h]

lemma storeAt_append (m : GuestBytes) (ps qs : List (ℕ × UInt8)) :
    m.storeAt (ps ++ qs) =
      if (m.storeAt ps).2 = true then (m.storeAt ps).1.storeAt qs else m.storeAt ps := by
  induction ps generalizing m with
  | nil => rfl
  | cons p ps ih =>
    rw [List.cons_append, storeAt, storeAt]
    split_ifs with h hok hok
    · rw [ih, if_pos hok]
    · rw [ih, if_neg hok]
    · cases hok
    · rfl

lemma userWrite_eq (m : GuestBytes) (a : ℕ) (bs : List UInt8) :
    m.userWrite a bs = m.storeAt ((addrs a bs.length).zip bs) := by
  induction bs generalizing m a with
  | nil => simp [userWrite, storeAt]
  | cons b bs ih =>
    rw [userWrite, List.length_cons, addrs, List.zip_cons_cons, storeAt]
    split_ifs
    · exact ih _ _
    · rfl

lemma scatter_eq (m : GuestBytes) (vs : List Iovec) (buf : List UInt8) :
    m.scatter vs buf = m.storeAt ((places vs).zip buf) := by
  induction vs generalizing m buf with
  | nil => simp [scatter, places, storeAt]
  | cons v vs ih =>
    have hfirst : m.userWrite v.base (buf.take v.len) =
        m.storeAt ((addrs v.base v.len).zip (buf.take v.len)) := by
      rw [userWrite_eq, addrs_zip (n := v.len) (by simp)]
    rw [places_cons, zip_append_left, length_addrs, storeAt_append, scatter, hfirst]
    rcases m.storeAt ((addrs v.base v.len).zip (buf.take v.len)) with ⟨m', _ | _⟩
    · rfl
    · exact ih m' _

lemma scatterChunks_eq (m : GuestBytes) (vs : List Iovec) (buf : List UInt8) (n : ℕ) :
    m.scatterChunks vs buf n = m.scatter vs (buf.take n) := by
  have hnil : ∀ (m : GuestBytes) vs, m.scatter vs [] = (m, true) := by
    intro m vs
    rw [scatter_eq, List.zip_nil_right]
    rfl
  induction vs generalizing m buf n with
  | nil => rfl
  | cons v vs ih =>
    rw [scatterChunks]
    by_cases hn : n = 0
    · rw [if_pos hn, hn, List.take_zero, hnil]
    rw [if_neg hn, scatter]
    by_cases hlen : v.len < n
    · simp only [if_pos hlen]
      rw [List.take_take, min_eq_left hlen.le]
      rcases m.userWrite v.base (buf.take v.len) with ⟨m', _ | _⟩
      · rfl
      · simp only [ih, List.drop_take]
    · simp only [if_neg hlen]
      rw [List.take_take, min_eq_right (by omega)]
      rcases m.userWrite v.base (buf.take n) with ⟨m', _ | _⟩
      · rfl
      · have hdrop : (buf.take n).drop v.len = [] :=
          List.drop_eq_nil_of_le (by rw [List.length_take]; omega)
        simp only [ih, Nat.sub_self, List.take_zero, hdrop]

/-! ### Loads -/

def Readable (m : GuestBytes) (as : List ℕ) : Prop := ∀ a ∈ as, m.readable (a / 4096) = true

instance readableDecidable (m : GuestBytes) (as : List ℕ) : Decidable (m.Readable as) :=
  inferInstanceAs (Decidable (∀ a ∈ as, _))

lemma readable_cons {m : GuestBytes} {a : ℕ} {as : List ℕ} :
    m.Readable (a :: as) ↔ m.readable (a / 4096) = true ∧ m.Readable as := List.forall_mem_cons

lemma userRead_eq (m : GuestBytes) (a n : ℕ) :
    m.userRead a n =
      if m.Readable (addrs a n) then some ((addrs a n).map m.byte) else none := by
  induction n generalizing a with
  | zero => simp [userRead, addrs, Readable]
  | succ n ih =>
    rw [userRead, addrs, ih]
    by_cases h : m.readable (a / 4096) = true
    · by_cases hrest : m.Readable (addrs ((a + 1) % 2 ^ 64) n)
      · rw [if_pos h, if_pos hrest, if_pos (readable_cons.mpr ⟨h, hrest⟩)]
        rfl
      · rw [if_pos h, if_neg hrest, if_neg fun hall => hrest (readable_cons.mp hall).2]
        rfl
    · rw [if_neg h, if_neg fun hall => h (readable_cons.mp hall).1]

lemma readable_append {m : GuestBytes} {as bs : List ℕ} :
    m.Readable (as ++ bs) ↔ m.Readable as ∧ m.Readable bs := List.forall_mem_append

lemma gather_eq (m : GuestBytes) (vs : List Iovec) :
    m.gather vs = if m.Readable (places vs) then some ((places vs).map m.byte) else none := by
  induction vs with
  | nil => simp [gather, places, Readable]
  | cons v vs ih =>
    rw [gather, userRead_eq, ih, places_cons]
    by_cases hv : m.Readable (addrs v.base v.len)
    · by_cases hvs : m.Readable (places vs)
      · rw [if_pos hv, if_pos hvs, if_pos (readable_append.mpr ⟨hv, hvs⟩), List.map_append]
        rfl
      · rw [if_pos hv, if_neg hvs, if_neg fun h => hvs (readable_append.mp h).2]
        rfl
    · rw [if_neg hv, if_neg fun h => hv (readable_append.mp h).1]
      rfl

end GuestBytes

/-! ### Returned values -/

lemma guestRet_error {err : ℤ} (h : -4095 ≤ err ∧ err < 0) : guestRet err = err := by
  rw [guestRet]
  split_ifs <;> omega

lemma guestRet_count_iff (n : ℕ) : guestRet n = n ↔ n < 2 ^ 32 - 4095 := by
  rw [guestRet]
  split_ifs <;> omega

lemma guestRet_eFault : guestRet VecFile.eFault = VecFile.eFault := by decide

lemma guestRet_eBadf : guestRet VecFile.eBadf = VecFile.eBadf := by decide

/-! ### Lengths that are cut down -/

/-- The lengths of the iovecs are below `2 ^ 32`. -/
def ShortLens (vs : List Iovec) : Prop := ∀ v ∈ vs, v.len < 2 ^ 32

lemma map_short {vs : List Iovec} (h : ShortLens vs) : vs.map Iovec.short = vs := by
  refine (List.map_congr_left fun v hv => ?_).trans (List.map_id vs)
  rw [Iovec.short, Nat.mod_eq_of_lt (h v hv)]
  rfl

lemma iovecSize_short_le (vs : List Iovec) : iovecSize (vs.map Iovec.short) ≤ iovecSize vs := by
  induction vs with
  | nil => simp [iovecSize]
  | cons v vs ih =>
    have := Nat.mod_le v.len (2 ^ 32)
    simp only [iovecSize, List.map_cons, List.sum_cons, Iovec.short] at ih ⊢
    omega

lemma iovecSize_short_iff (vs : List Iovec) :
    iovecSize (vs.map Iovec.short) = iovecSize vs ↔ ShortLens vs := by
  refine ⟨fun h => ?_, fun h => by rw [map_short h]⟩
  induction vs with
  | nil => simp [ShortLens]
  | cons v vs ih =>
    have hle := iovecSize_short_le vs
    have hmod := Nat.mod_le v.len (2 ^ 32)
    have hlt := Nat.mod_lt v.len (show 0 < 2 ^ 32 by decide)
    simp only [iovecSize, List.map_cons, List.sum_cons, Iovec.short] at h hle ih
    refine List.forall_mem_cons.mpr ⟨by omega, ih (by omega)⟩

/-! ### Reads -/

@[simp] lemma length_kernelBuf (buf : ℕ → UInt8) (n : ℕ) : (kernelBuf buf n).length = n := by
  simp [kernelBuf]

lemma take_kernelBuf (buf : ℕ → UInt8) {n k : ℕ} (h : n ≤ k) :
    (kernelBuf buf k).take n = kernelBuf buf n := by
  rw [kernelBuf, kernelBuf, ← List.map_take, List.take_range, min_eq_left h]

section Reads

variable {f : VecFile} {m : GuestBytes} {vs : List Iovec} {n : ℕ}

def VecDone.stored (call : FileCall) (r : GuestBytes × Bool) (n : ℤ) : VecDone :=
  match r with
  | (m, true)  => ⟨[call], m, n⟩
  | (m, false) => ⟨[call], m, VecFile.eFault⟩

lemma stored_calls (call : FileCall) (r : GuestBytes × Bool) (n : ℤ) :
    (VecDone.stored call r n).calls = [call] := by
  rcases r with ⟨m, _ | _⟩ <;> rfl

lemma zip_places (hn : n ≤ iovecSize vs) (buf : ℕ → UInt8) :
    ∃ rest, (places vs).zip (kernelBuf buf (iovecSize vs)) =
      ((places vs).take n).zip (kernelBuf buf n) ++ rest := by
  have hlen : ((places vs).take n).length = n := by
    rw [List.length_take, length_places]
    omega
  refine ⟨((places vs).drop n).zip ((kernelBuf buf (iovecSize vs)).drop n), ?_⟩
  conv_lhs => rw [← List.take_append_drop n (places vs)]
  rw [zip_append_left, hlen, take_kernelBuf buf hn]

lemma storeAt_places_iff (buf : ℕ → UInt8) (as : List ℕ) (k : ℕ) (hk : as.length = k) :
    (m.storeAt (as.zip (kernelBuf buf k))).2 = true ↔ m.Writable as := by
  rw [GuestBytes.storeAt_ok_iff]
  constructor
  · intro h a ha
    obtain ⟨i, hi, rfl⟩ := List.mem_iff_getElem.mp ha
    have hbuf : i < (kernelBuf buf k).length := by rw [length_kernelBuf]; omega
    refine h (as[i], (kernelBuf buf k)[i]) (List.mem_iff_getElem.mpr ⟨i, ?_, List.getElem_zip⟩)
    rw [List.length_zip]
    omega
  · exact fun h p hp => h p.1 (List.of_mem_zip hp).1

lemma storeAt_last {k : ℕ} (hk : iovecSize vs = k + 1) (hw : m.Writable (places vs)) :
    ∃ x, ∀ buf, (m.storeAt ((places vs).zip (kernelBuf buf (k + 1)))).1.byte x = buf k := by
  have hlen := length_places vs
  rcases List.eq_nil_or_concat (places vs) with hnil | ⟨init, x, hx⟩
  · rw [hnil, List.length_nil] at hlen
    omega
  refine ⟨x, fun buf => ?_⟩
  rw [List.concat_eq_append] at hx
  have hinit : init.length = k := by
    rw [hx, List.length_append, List.length_singleton] at hlen
    omega
  have hbuf : kernelBuf buf (k + 1) = kernelBuf buf k ++ [buf k] := by
    rw [kernelBuf, List.range_succ, List.map_append]
    rfl
  rw [hx] at hw ⊢
  have hok : (m.storeAt (init.zip (kernelBuf buf k))).2 = true :=
    (storeAt_places_iff buf init k hinit).mpr fun a ha => hw a (List.mem_append_left _ ha)
  have hlast : m.writable (x / 4096) = true := hw x (by simp)
  rw [hbuf, List.zip_append (by rw [hinit, length_kernelBuf]), GuestBytes.storeAt_append,
    if_pos hok, List.zip_cons_cons, List.zip_nil_right, GuestBytes.storeAt,
    GuestBytes.storeAt_writable, if_pos hlast]
  simp [GuestBytes.storeAt, GuestBytes.put]

lemma stored_whole_iff {call : FileCall} (hn : n ≤ iovecSize vs) :
    (∀ buf, VecDone.stored call (m.storeAt ((places vs).zip (kernelBuf buf (iovecSize vs))))
        (guestRet n) =
      VecDone.stored call (m.storeAt (((places vs).take n).zip (kernelBuf buf n))) n) ↔
      ¬ m.Writable ((places vs).take n) ∨ n < 2 ^ 32 - 4095 ∧ n = iovecSize vs := by
  have hlen : ((places vs).take n).length = n := by
    rw [List.length_take, length_places]
    omega
  constructor
  · intro h
    by_contra hno
    rw [not_or, not_not] at hno
    obtain ⟨hw, hcond⟩ := hno
    have hok : ∀ buf, (m.storeAt (((places vs).take n).zip (kernelBuf buf n))).2 = true :=
      fun buf => (storeAt_places_iff buf _ n hlen).mpr hw
    -- the ideal call returns the count, so the code has stored the whole buffer
    have hboth : ∀ buf, (m.storeAt ((places vs).zip (kernelBuf buf (iovecSize vs)))).2 = true ∧
        guestRet n = n ∧ (m.storeAt ((places vs).zip (kernelBuf buf (iovecSize vs)))).1 =
          (m.storeAt (((places vs).take n).zip (kernelBuf buf n))).1 := by
      intro buf
      have heq := h buf
      rcases hideal : m.storeAt (((places vs).take n).zip (kernelBuf buf n)) with ⟨m', ok⟩
      have hok' := hok buf
      rw [hideal] at hok' heq
      obtain rfl : ok = true := hok'
      rcases hcode : m.storeAt ((places vs).zip (kernelBuf buf (iovecSize vs))) with ⟨m'', _ | _⟩
      · rw [hcode] at heq
        have hret := congrArg VecDone.ret heq
        simp only [VecDone.stored, VecFile.eFault] at hret
        omega
      · rw [hcode] at heq
        exact ⟨rfl, congrArg VecDone.ret heq, congrArg VecDone.mem heq⟩
    have hcount := (guestRet_count_iff n).mp (hboth fun _ => 0).2.1
    have hlt : n < iovecSize vs := by
      rcases Nat.eq_or_lt_of_le hn with heq | hlt
      · exact absurd ⟨hcount, heq⟩ hcond
      · exact hlt
    obtain ⟨k, hk⟩ := Nat.exists_eq_succ_of_ne_zero (show iovecSize vs ≠ 0 by omega)
    have hall : m.Writable (places vs) :=
      (storeAt_places_iff (fun _ => 0) _ _ (length_places vs)).mp (hboth fun _ => 0).1
    obtain ⟨x, hx⟩ := storeAt_last hk hall
    -- two kernel buffers with the same bytes read, and something else at the end
    have hsame : kernelBuf (fun i => if i = k then 1 else 0) n = kernelBuf (fun _ => 0) n := by
      refine List.map_congr_left fun i hi => if_neg ?_
      have := List.mem_range.mp hi
      omega
    have hone := (hboth fun i => if i = k then 1 else 0).2.2
    rw [hsame, ← (hboth fun _ => 0).2.2, hk] at hone
    have hbyte := congrFun (congrArg GuestBytes.byte hone) x
    rw [hx, hx] at hbyte
    simp at hbyte
  · rintro (hw | ⟨hcount, rfl⟩) buf
    · obtain ⟨rest, hrest⟩ := zip_places hn buf
      have hno : ¬ (m.storeAt (((places vs).take n).zip (kernelBuf buf n))).2 = true :=
        fun hok => hw ((storeAt_places_iff buf _ n hlen).mp hok)
      rw [hrest, GuestBytes.storeAt_append, if_neg hno]
      rcases hr : m.storeAt (((places vs).take n).zip (kernelBuf buf n)) with ⟨m', _ | _⟩
      · rfl
      · rw [hr] at hno
        exact absurd rfl hno
    · rw [(guestRet_count_iff _).mpr hcount, List.take_of_length_le (length_places vs).le]

lemma stored_chunks_iff {call : FileCall} (hn : n ≤ iovecSize vs) :
    (∀ buf, VecDone.stored call (m.storeAt (((places vs).take n).zip (kernelBuf buf n)))
        (guestRet n) =
      VecDone.stored call (m.storeAt (((places vs).take n).zip (kernelBuf buf n))) n) ↔
      ¬ m.Writable ((places vs).take n) ∨ n < 2 ^ 32 - 4095 := by
  have hlen : ((places vs).take n).length = n := by
    rw [List.length_take, length_places]
    omega
  rw [← guestRet_count_iff]
  constructor
  · intro h
    by_cases hw : m.Writable ((places vs).take n)
    · have hok := (storeAt_places_iff (fun _ => 0) _ n hlen).mpr hw
      have heq := h fun _ => 0
      rcases hr : m.storeAt (((places vs).take n).zip (kernelBuf (fun _ => 0) n)) with ⟨m', ok⟩
      rw [hr] at hok heq
      obtain rfl : ok = true := hok
      exact .inr (congrArg VecDone.ret heq)
    · exact .inl hw
  · rintro (hw | hcount) buf
    · have hno : ¬ (m.storeAt (((places vs).take n).zip (kernelBuf buf n))).2 = true :=
        fun hok => hw ((storeAt_places_iff buf _ n hlen).mp hok)
      rcases hr : m.storeAt (((places vs).take n).zip (kernelBuf buf n)) with ⟨m', _ | _⟩
      · rfl
      · rw [hr] at hno
        exact absurd rfl hno
    · rw [hcount]

/-- A read with several buffers does what it should: the lengths are below `2 ^ 32`, and the file
has an error, or one of the bytes it has read cannot be stored, or the count is below the values
that are errors, and for `readv` the whole length was read. -/
def ReadFits (f : VecFile) (m : GuestBytes) (vs : List Iovec) (call : ℕ → FileCall)
    (whole : Bool) : Prop :=
  ShortLens vs ∧
    match f.answer (call (iovecSize vs)) with
    | .error _ => True
    | .ok n    => ¬ m.Writable ((places vs).take n) ∨
        n < 2 ^ 32 - 4095 ∧ (whole = true → n = iovecSize vs)

/-- What a reading call does with iovecs, when it stores what the file has answered in some way. -/
def codeRead (f : VecFile) (m : GuestBytes) (vs : List Iovec) (call : ℕ → FileCall)
    (store : ℕ → GuestBytes × Bool) : VecDone :=
  match f.answer (call (iovecSize vs)) with
  | .error err => ⟨[call (iovecSize vs)], m, guestRet err⟩
  | .ok n      => VecDone.stored (call (iovecSize vs)) (store n) (guestRet n)

lemma codeRead_calls (call : ℕ → FileCall) (store : ℕ → GuestBytes × Bool) :
    (codeRead f m vs call store).calls = [call (iovecSize vs)] := by
  rw [codeRead]
  cases f.answer (call (iovecSize vs)) with
  | error err => rfl
  | ok n => exact stored_calls _ _ _

lemma idealRead_eq (buf : ℕ → UInt8) (call : ℕ → FileCall) :
    idealRead f buf m vs call =
      match f.answer (call (iovecSize vs)) with
      | .error err => ⟨[call (iovecSize vs)], m, err⟩
      | .ok n      => VecDone.stored (call (iovecSize vs))
          (m.storeAt (((places vs).take n).zip (kernelBuf buf n))) n := by
  rw [idealRead]
  cases f.answer (call (iovecSize vs)) with
  | error err => rfl
  | ok n =>
    rcases m.storeAt (((places vs).take n).zip (kernelBuf buf n)) with ⟨m', _ | _⟩ <;> rfl

lemma idealRead_calls (buf : ℕ → UInt8) (call : ℕ → FileCall) :
    (idealRead f buf m vs call).calls = [call (iovecSize vs)] := by
  rw [idealRead_eq]
  cases f.answer (call (iovecSize vs)) with
  | error err => rfl
  | ok n => exact stored_calls _ _ _

lemma codeRead_iff {call : ℕ → FileCall} {store : (ℕ → UInt8) → List Iovec → ℕ → GuestBytes × Bool}
    {whole : Bool} (hcall : Function.Injective call) (hsize : ∀ n, (call n).size = n)
    (hstore : ∀ n, n ≤ iovecSize vs → ((∀ buf, VecDone.stored (call (iovecSize vs))
        (store buf vs n) (guestRet n) = VecDone.stored (call (iovecSize vs))
          (m.storeAt (((places vs).take n).zip (kernelBuf buf n))) n) ↔
        ¬ m.Writable ((places vs).take n) ∨
          n < 2 ^ 32 - 4095 ∧ (whole = true → n = iovecSize vs))) :
    (∀ buf, codeRead f m (vs.map Iovec.short) call (store buf (vs.map Iovec.short)) =
      idealRead f buf m vs call) ↔ ReadFits f m vs call whole := by
  by_cases hshort : ShortLens vs
  · rw [ReadFits, map_short hshort]
    simp only [hshort, true_and, codeRead, idealRead_eq]
    cases hanswer : f.answer (call (iovecSize vs)) with
    | error err => simp [guestRet_error (f.errno _ _ hanswer)]
    | ok n =>
      have hle := f.count _ _ hanswer
      rw [hsize] at hle
      exact hstore n hle
  · refine iff_of_false (fun h => hshort ?_) fun h => hshort h.1
    have hcalls := congrArg VecDone.calls (h fun _ => 0)
    rw [codeRead_calls, idealRead_calls] at hcalls
    exact (iovecSize_short_iff vs).mp (hcall (List.singleton_inj.mp hcalls))

end Reads

/-! ### Writes -/

/-- A write with several buffers does what it should: it has an error because of the buffers,
whether their lengths are cut down or not, or the lengths are below `2 ^ 32`, and the count is
below the values that are errors. -/
def WriteFits (f : VecFile) (m : GuestBytes) (vs : List Iovec) (call : List UInt8 → FileCall) :
    Prop :=
  ¬ m.Readable (places vs) ∧ ¬ m.Readable (places (vs.map Iovec.short)) ∨
    m.Readable (places vs) ∧ ShortLens vs ∧
      f.result (call ((places vs).map m.byte)) < 2 ^ 32 - 4095

def codeWrite (f : VecFile) (m : GuestBytes) (vs : List Iovec) (call : List UInt8 → FileCall) :
    VecDone :=
  match m.gather vs with
  | none      => .failed m VecFile.eFault
  | some data => ⟨[call data], m, guestRet (f.result (call data))⟩

section Writes

variable {f : VecFile} {m : GuestBytes} {vs : List Iovec}

lemma guestRet_result_iff (call : FileCall) :
    guestRet (f.result call) = f.result call ↔ f.result call < 2 ^ 32 - 4095 := by
  rw [VecFile.result]
  cases hanswer : f.answer call with
  | error err =>
    have herr := f.errno _ _ hanswer
    exact iff_of_true (guestRet_error herr) (by simp only; omega)
  | ok n =>
    have hiff := guestRet_count_iff n
    simp only [hiff]
    omega

lemma codeWrite_iff {call : List UInt8 → FileCall}
    (hsize : ∀ data, (call data).size = data.length) :
    codeWrite f m (vs.map Iovec.short) call = idealWrite f m vs call ↔ WriteFits f m vs call := by
  have hideal : idealWrite f m vs call = if m.Readable (places vs) then
      ⟨[call ((places vs).map m.byte)], m, f.result (call ((places vs).map m.byte))⟩
      else ⟨[], m, VecFile.eFault⟩ := rfl
  rw [codeWrite, GuestBytes.gather_eq, hideal, WriteFits]
  by_cases hr : m.Readable (places vs) <;>
    by_cases hr' : m.Readable (places (vs.map Iovec.short))
  · rw [if_pos hr, if_pos hr']
    simp only [hr, hr', not_true_eq_false, and_self, false_or, true_and]
    rw [← guestRet_result_iff]
    constructor
    · intro h
      have hcalls := List.singleton_inj.mp (congrArg VecDone.calls h)
      have hlen := congrArg FileCall.size hcalls
      rw [hsize, hsize, List.length_map, List.length_map, length_places, length_places] at hlen
      have hret := congrArg VecDone.ret h
      simp only [hcalls] at hret
      exact ⟨(iovecSize_short_iff vs).mp hlen, hret⟩
    · rintro ⟨hshort, hret⟩
      rw [map_short hshort, hret]
  · rw [if_pos hr, if_neg hr']
    refine iff_of_false (fun h => ?_) fun h => ?_
    · cases congrArg VecDone.calls h
    · rcases h with h | h
      · exact h.1 hr
      · rw [map_short h.2.1] at hr'
        exact hr' hr
  · rw [if_neg hr, if_pos hr']
    refine iff_of_false (fun h => ?_) fun h => ?_
    · cases congrArg VecDone.calls h
    · exact h.elim (fun h => h.2 hr') fun h => hr h.1
  · rw [if_neg hr, if_neg hr']
    exact iff_of_true (by rw [VecDone.failed, guestRet_eFault]) (.inl ⟨hr, hr'⟩)

end Writes

/-! ### The calls -/

def VecCall.Fits (c : VecCall) (f : VecFile) (m : GuestBytes) (addr count : ℕ) : Prop :=
  (c.positioned = true ∧ f.isOpen = false) ∨
    match guestIovecs m addr count with
    | none    => True
    | some vs =>
      match c with
      | .readv             => ReadFits f m vs .read true
      | .preadv posL posH  => ReadFits f m vs (.pread · (posOff posL posH)) false
      | .writev            => WriteFits f m vs .write
      | .pwritev posL posH => WriteFits f m vs (.pwrite · (posOff posL posH))

section Calls

variable {f : VecFile} {m : GuestBytes} {addr count : ℕ}

/-- A reading call as the store of what it has read, for `readv` of the whole kernel buffer. -/
lemma readv_eq (buf : ℕ → UInt8) {vs : List Iovec} (hvs : guestIovecs m addr count = some vs) :
    sysReadv f buf m addr count = codeRead f m (vs.map Iovec.short) .read fun _ =>
      m.storeAt ((places (vs.map Iovec.short)).zip
        (kernelBuf buf (iovecSize (vs.map Iovec.short)))) := by
  rw [sysReadv, readIovec, hvs, Option.map_some]
  simp only [codeRead, GuestBytes.scatter_eq]
  cases f.answer (.read (iovecSize (vs.map Iovec.short))) with
  | error err => rfl
  | ok n =>
    simp only [VecDone.stored]
    rcases m.storeAt ((places (vs.map Iovec.short)).zip
      (kernelBuf buf (iovecSize (vs.map Iovec.short)))) with ⟨m', _ | _⟩
    · rw [guestRet_eFault]
    · rfl

lemma preadv_eq (buf : ℕ → UInt8) (posL posH : BitVec 32) {vs : List Iovec}
    (hopen : f.isOpen = true) (hvs : guestIovecs m addr count = some vs) :
    sysPreadv f buf m addr count posL posH =
      codeRead f m (vs.map Iovec.short) (.pread · (posOff posL posH)) fun n =>
        m.storeAt (((places (vs.map Iovec.short)).take n).zip (kernelBuf buf n)) := by
  rw [sysPreadv, hopen, if_neg (by decide), readIovec, hvs, Option.map_some]
  simp only [codeRead]
  cases hanswer : f.answer (.pread (iovecSize (vs.map Iovec.short)) (posOff posL posH)) with
  | error err => rfl
  | ok n =>
    have hle : n ≤ iovecSize (vs.map Iovec.short) := f.count _ _ hanswer
    have hstore : m.scatterChunks (vs.map Iovec.short)
        (kernelBuf buf (iovecSize (vs.map Iovec.short))) n =
          m.storeAt (((places (vs.map Iovec.short)).take n).zip (kernelBuf buf n)) := by
      rw [GuestBytes.scatterChunks_eq, take_kernelBuf buf hle, GuestBytes.scatter_eq]
      congr 1
      rw [← List.take_append_drop n (places (vs.map Iovec.short)), zip_append_left,
        List.length_take, length_places, min_eq_left hle,
        List.take_of_length_le (length_kernelBuf buf n).le,
        List.drop_eq_nil_of_le (length_kernelBuf buf n).le, List.zip_nil_right, List.append_nil,
        List.take_append_drop]
    simp only [VecDone.stored, hstore]
    rcases m.storeAt (((places (vs.map Iovec.short)).take n).zip (kernelBuf buf n)) with
      ⟨m', _ | _⟩
    · rw [guestRet_eFault]
    · rfl

lemma readv_agrees_iff {vs : List Iovec} (hvs : guestIovecs m addr count = some vs) :
    (∀ buf, sysReadv f buf m addr count = idealRead f buf m vs .read) ↔
      ReadFits f m vs .read true := by
  simp only [readv_eq _ hvs]
  refine @codeRead_iff f m vs .read
    (fun buf vs _ => m.storeAt ((places vs).zip (kernelBuf buf (iovecSize vs)))) true
    (fun a b h => by cases h; rfl) (fun n => rfl) fun n hn => ?_
  rw [stored_whole_iff hn]
  simp

lemma preadv_agrees_iff (posL posH : BitVec 32) {vs : List Iovec} (hopen : f.isOpen = true)
    (hvs : guestIovecs m addr count = some vs) :
    (∀ buf, sysPreadv f buf m addr count posL posH =
      idealRead f buf m vs (.pread · (posOff posL posH))) ↔
      ReadFits f m vs (.pread · (posOff posL posH)) false := by
  simp only [preadv_eq _ posL posH hopen hvs]
  refine @codeRead_iff f m vs (.pread · (posOff posL posH))
    (fun buf vs n => m.storeAt (((places vs).take n).zip (kernelBuf buf n))) false
    (fun a b h => by cases h; rfl) (fun n => rfl) fun n hn => ?_
  rw [stored_chunks_iff hn]
  simp

end Calls

/-- An iovec at `0x2000`, for a buffer of two bytes at `0x1000`. -/
def twoBytes : GuestBytes where
  byte := fun a => if a = 0x2001 then 0x10 else if a = 0x2008 then 2 else 0
  readable := fun _ => true
  writable := fun _ => true

def oneByte : VecFile where
  isOpen := true
  answer := fun c => .ok (if c.size = 0 then 0 else 1)
  errno := by intro c err h; cases h
  count := by
    intro c n h
    cases h
    split_ifs <;> omega

end ShellBox
