import ShellBox.Kernel.Memory.Protect
import ShellBox.Kernel.Memory.Isolation

/-!
# Copies between the kernel and a guest

`user_read` and `user_write` go through the pages of a buffer and translate each one by `mem_ptr`.
A copy that meets a page that cannot be translated stops there; what it did before stays done.

A read can change an address space, since translating grows stacks and gives reserved pages their
entries. Once it has succeeded everything it needs is there: a second read of the same buffer
finds the same bytes and changes nothing.
-/

namespace ShellBox

open Function World

variable {h : Host} {s : ℕ} {w w' w'' : World}

/-! ### The pages of a buffer -/

/-- The loop over the pages of a buffer that ends at `stop`: where each piece starts and how long
it is. A copy from the last page of the 64-bit addresses, where `chunk_end` wraps, never succeeds;
the loop with its 64-bit arithmetic is in `CopyLoops`. -/
def userChunks (stop : ℕ) : ℕ → ℕ → List (ℕ × ℕ)
  | 0, _ => []
  | fuel + 1, p =>
    if p < stop then
      let chunkEnd := min ((page p + 1) * pageSize) stop
      (p, chunkEnd - p) :: userChunks stop fuel chunkEnd
    else []

/-- The pieces of `count` bytes at `addr`; there are none when `addr + count` overflows. -/
def chunksOf (addr count : ℕ) : List (ℕ × ℕ) := userChunks ((addr + count) % 2 ^ 64) count addr

/-! ### Reading -/

/-- `memcpy` of `n` bytes out of a host page. -/
def World.loadBytes (w : World) (p : HostPtr) (n : ℕ) : List UInt8 :=
  (List.range n).map fun i => (w.load { p with offset := p.offset + i }).getD 0

/-- The loop of `__user_read_mem`. -/
def userReadMem (h : Host) (s : ℕ) : List (ℕ × ℕ) → World → World × Option (List UInt8)
  | [], w => (w, some [])
  | (p, n) :: rest, w =>
    match memPtr h s p .read w with
    | (w, none) => (w, none)
    | (w, some ptr) => (userReadMem h s rest w).map id (Option.map (w.loadBytes ptr n ++ ·))

def userRead (h : Host) (s addr count : ℕ) (w : World) : World × Option (List UInt8) :=
  userReadMem h s (chunksOf addr count) w

/-! ### Writing -/

/-- `memcpy` into a host page. -/
def World.storeBytes (p : HostPtr) : List UInt8 → World → World
  | [], w => w
  | b :: rest, w => storeBytes { p with offset := p.offset + 1 } rest (w.store p b)

/-- The loop of `__user_write_mem`. -/
def userWriteMem (h : Host) (s : ℕ) : List (ℕ × ℕ) → List UInt8 → World → World × Bool
  | [], _, w => (w, true)
  | (p, n) :: rest, buf, w =>
    match memPtr h s p .write w with
    | (w, none) => (w, false)
    | (w, some ptr) => userWriteMem h s rest (buf.drop n) (w.storeBytes ptr (buf.take n))

/-- `user_write`; `false` stands for a fault. -/
def userWrite (h : Host) (s addr : ℕ) (buf : List UInt8) (w : World) : World × Bool :=
  userWriteMem h s (chunksOf addr buf.length) buf w

/-! ### Valid address spaces -/

lemma steps_memPtr_any (h : Host) (s addr : ℕ) (type : AccessType) (hb : w.Balanced) :
    ∃ n, Steps ⟨Set.univ, ∅, True⟩ n w (memPtr h s addr type w).1 := by
  obtain ⟨n, hs, -⟩ := steps_memPtr (S := ⟨Set.univ, ∅, True⟩) (h := h) (s := s) addr type hb
    fun _ => ⟨Set.mem_univ _, trivial⟩
  exact ⟨n, hs⟩

lemma valid_memPtr (h : Host) (s addr : ℕ) (type : AccessType) (hv : w.Valid) :
    (memPtr h s addr type w).1.Valid := by
  obtain ⟨n, hs⟩ := steps_memPtr_any h s addr type hv.balanced
  exact hs.valid hv

lemma World.Valid.store (hv : w.Valid) (p : HostPtr) (byte : UInt8) : (w.store p byte).Valid where
  balanced := hv.balanced.store p byte
  lawful := by
    intro k k' e e' hne he he'
    rw [store_slot] at he he'
    exact hv.lawful k k' e e' hne he he'

lemma valid_userReadMem (chunks : List (ℕ × ℕ)) (hv : w.Valid) :
    (userReadMem h s chunks w).1.Valid := by
  induction chunks generalizing w with
  | nil => exact hv
  | cons c rest ih =>
    have hptr := valid_memPtr h s c.1 .read hv
    rw [userReadMem]
    generalize memPtr h s c.1 .read w = r at hptr ⊢
    obtain ⟨w₁, _ | ptr⟩ := r
    · exact hptr
    · exact ih hptr

lemma valid_storeBytes (p : HostPtr) (buf : List UInt8) (hv : w.Valid) :
    (w.storeBytes p buf).Valid := by
  induction buf generalizing w p with
  | nil => exact hv
  | cons b rest ih => exact ih _ (hv.store p b)

lemma valid_userWriteMem (chunks : List (ℕ × ℕ)) (buf : List UInt8) (hv : w.Valid) :
    (userWriteMem h s chunks buf w).1.Valid := by
  induction chunks generalizing w buf with
  | nil => exact hv
  | cons c rest ih =>
    have hptr := valid_memPtr h s c.1 .write hv
    rw [userWriteMem]
    generalize memPtr h s c.1 .write w = r at hptr ⊢
    obtain ⟨w₁, _ | ptr⟩ := r
    · exact hptr
    · exact ih _ (valid_storeBytes ptr _ hptr)

lemma valid_userRead (addr count : ℕ) (hv : w.Valid) : (userRead h s addr count w).1.Valid :=
  valid_userReadMem _ hv

lemma valid_userWrite (addr : ℕ) (buf : List UInt8) (hv : w.Valid) :
    (userWrite h s addr buf w).1.Valid := valid_userWriteMem _ _ hv

/-! ### A read that is made again -/

lemma memPtr_read_some {addr : ℕ} {ptr : HostPtr} (hb : w.Balanced)
    (hptr : memPtr h s addr .read w = (w', some ptr)) :
    w.KeepsSlots w' ∧ ∃ e, w'.slot (s, ptIndex (page addr)) = some e ∧
      ptr = { data := e.data, offset := e.offset + pgoffset addr } := by
  have hkeeps : w.KeepsSlots (faultIn h s (page addr) w).1 := keepsSlots_faultIn hb
  unfold memPtr at hptr
  generalize faultIn h s (page addr) w = r at hptr hkeeps
  obtain ⟨w₁, ok⟩ := r
  cases ok with
  | false => exact absurd (congrArg Prod.snd hptr) (by simp)
  | true =>
    simp only [if_true, Prod.mk.injEq] at hptr
    obtain ⟨rfl, hptr⟩ := hptr
    refine ⟨hkeeps, ?_⟩
    unfold memPtrNofault at hptr
    rw [memPt_eq_slot] at hptr
    cases he : w₁.slot (s, ptIndex (page addr)) with
    | none => simp [he] at hptr
    | some e => exact ⟨e, rfl, by simpa [he] using hptr.symm⟩

lemma keepsSlots_memPtr_read (h : Host) (s addr : ℕ) (hb : w.Balanced) :
    w.KeepsSlots (memPtr h s addr .read w).1 := by
  have hkeeps : w.KeepsSlots (faultIn h s (page addr) w).1 := keepsSlots_faultIn hb
  unfold memPtr
  generalize faultIn h s (page addr) w = r at hkeeps
  obtain ⟨w₁, ok⟩ := r
  cases ok <;> exact hkeeps

/-- The entries that a later address space has to have for a read to go as before: those of
`w`, with the memory behind them. -/
structure World.Extends (w w' : World) : Prop where
  slot : w.KeepsSlots w'
  load : ∀ k e o, w.slot k = some e →
    w'.load { data := e.data, offset := o } = w.load { data := e.data, offset := o }

namespace World.Extends

lemma refl (w : World) : w.Extends w := ⟨.refl w, fun _ _ _ _ => rfl⟩

lemma trans (h : w.Extends w') (h' : w'.Extends w'') : w.Extends w'' where
  slot := h.slot.trans h'.slot
  load k e o he := (h'.load k e o (h.slot k e he)).trans (h.load k e o he)

lemma memPtr_read (h : Host) (s addr : ℕ) (hb : w.Balanced) :
    w.Extends (memPtr h s addr .read w).1 := by
  have hkeeps := keepsSlots_memPtr_read h s addr hb
  obtain ⟨n, hs⟩ := steps_memPtr_any h s addr .read hb
  exact ⟨hkeeps, fun k e o he => load_of_steps hs hb he (hkeeps k e he) o⟩

lemma userReadMem (chunks : List (ℕ × ℕ)) (hv : w.Valid) :
    w.Extends (ShellBox.userReadMem h s chunks w).1 := by
  induction chunks generalizing w with
  | nil => exact .refl w
  | cons c rest ih =>
    have hptr := valid_memPtr h s c.1 .read hv
    have hext := memPtr_read h s c.1 hv.balanced
    rw [ShellBox.userReadMem]
    generalize memPtr h s c.1 .read w = r at hptr hext ⊢
    obtain ⟨w₁, _ | ptr⟩ := r
    · exact hext
    · exact hext.trans (ih hptr)

end World.Extends

lemma userReadMem_extends {chunks : List (ℕ × ℕ)} {buf : List UInt8} (hv : w.Valid)
    (hread : userReadMem h s chunks w = (w', some buf)) (hext : w'.Extends w'') :
    userReadMem h s chunks w'' = (w'', some buf) := by
  induction chunks generalizing w buf with
  | nil =>
    obtain rfl := Option.some.inj (Prod.mk.inj hread).2
    rfl
  | cons c rest ih =>
    have hptr := valid_memPtr h s c.1 .read hv
    cases hmem : memPtr h s c.1 .read w with
    | mk w₁ r =>
    cases r with
    | none => simp [userReadMem, hmem] at hread
    | some ptr =>
      rw [hmem] at hptr
      obtain ⟨-, e, he, rfl⟩ := memPtr_read_some hv.balanced hmem
      cases hrest : userReadMem h s rest w₁ with
      | mk w₂ r =>
      simp only [userReadMem, hmem, hrest, Prod.map, id, Prod.mk.injEq,
        Option.map_eq_some_iff] at hread
      obtain ⟨rfl, more, rfl, rfl⟩ := hread
      -- the page found then is still mapped to the same memory
      have hlater : w₁.Extends w'' := by
        have h₁ : w₁.Extends w₂ := by
          have := World.Extends.userReadMem (h := h) (s := s) rest hptr
          rwa [hrest] at this
        exact h₁.trans hext
      have hbytes : w''.loadBytes { data := e.data, offset := e.offset + pgoffset c.1 } c.2 =
          w₁.loadBytes { data := e.data, offset := e.offset + pgoffset c.1 } c.2 := by
        simp only [World.loadBytes, hlater.load _ e _ he]
      simp only [userReadMem, memPtr_read_mapped h (hlater.slot _ e he), ih hptr hrest, hbytes,
        Prod.map, id, Option.map_some]

/-- A read that has succeeded can be made again: it finds the same bytes and changes nothing. -/
theorem userRead_again {addr count : ℕ} {buf : List UInt8} (hv : w.Valid)
    (hread : userRead h s addr count w = (w', some buf)) :
    userRead h s addr count w' = (w', some buf) :=
  userReadMem_extends hv hread (.refl w')

/-! ### Two writes to one place

A write that meets a page it cannot store to has copied what comes before. Two writes leave the
same memory exactly when they agree on what is copied. -/

/-- How many bytes a write copies before it meets a page it cannot store to. -/
def userReach (h : Host) (s : ℕ) : List (ℕ × ℕ) → List UInt8 → World → ℕ
  | [], _, _ => 0
  | (p, n) :: rest, buf, w =>
    match memPtr h s p .write w with
    | (_, none) => 0
    | (w, some ptr) => n + userReach h s rest (buf.drop n) (w.storeBytes ptr (buf.take n))

lemma storeBytes_slot (p : HostPtr) (buf : List UInt8) : (w.storeBytes p buf).slot = w.slot := by
  induction buf generalizing w p with
  | nil => rfl
  | cons b rest ih => rw [World.storeBytes, ih, store_slot]

lemma load_storeBytes_of_notMem {p q : HostPtr} {buf : List UInt8}
    (hq : q.data = p.data → q.offset < p.offset ∨ p.offset + buf.length ≤ q.offset) :
    (w.storeBytes p buf).load q = w.load q := by
  induction buf generalizing w p with
  | nil => rfl
  | cons b rest ih =>
    simp only [List.length_cons] at hq
    have hne : q ≠ p := by
      rintro rfl
      have := hq rfl
      omega
    rw [World.storeBytes, ih, load_store_of_ne hne]
    intro hd
    have := hq hd
    simp only
    omega

lemma load_storeBytes {p : HostPtr} {buf : List UInt8} {i : ℕ} {b : UInt8}
    (hlive : (w.data p.data).isSome) (hi : buf[i]? = some b) :
    (w.storeBytes p buf).load { p with offset := p.offset + i } = some b := by
  induction buf generalizing w p i with
  | nil => simp at hi
  | cons b₀ rest ih =>
    cases i with
    | zero =>
      obtain rfl : b₀ = b := by simpa using hi
      rw [World.storeBytes, load_storeBytes_of_notMem (fun _ => Or.inl (Nat.lt_succ_self _))]
      exact load_store_self hlive b₀
    | succ i =>
      have hlive' : ((w.store p b₀).data p.data).isSome := by simpa [World.store] using hlive
      have := ih (p := { p with offset := p.offset + 1 }) hlive' (by simpa using hi)
      rwa [show p.offset + 1 + i = p.offset + (i + 1) by omega] at this

lemma loadBytes_storeBytes {p : HostPtr} (buf : List UInt8) (hlive : (w.data p.data).isSome) :
    (w.storeBytes p buf).loadBytes p buf.length = buf := by
  apply List.ext_getElem
  · simp [World.loadBytes]
  · intro i hi hi'
    have hload := load_storeBytes hlive (List.getElem?_eq_getElem hi')
    simp [World.loadBytes, hload]

lemma memPtr_write_slot_of_ne {addr : ℕ} {k : ℕ × ℕ} {e : PtEntry} (hb : w.Balanced)
    (hk : k ≠ (s, ptIndex (page addr))) (he : w.slot k = some e) :
    (memPtr h s addr .write w).1.slot k = some e := by
  have hfault : (faultIn h s (page addr) w).1.slot k = some e := keepsSlots_faultIn hb k e he
  have hb' : (faultIn h s (page addr) w).1.Balanced := by
    obtain ⟨n, hs, -⟩ := steps_faultIn (S := ⟨Set.univ, ∅, True⟩) hb
    exact hs.balanced hb
  unfold memPtr
  generalize faultIn h s (page addr) w = r at hfault hb'
  obtain ⟨w₁, ok⟩ := r
  cases ok with
  | false => exact hfault
  | true =>
    have hprep : (prepareWrite h s (page addr) false w₁).1.slot k = some e := by
      unfold prepareWrite
      rw [memPt_eq_slot]
      cases he₁ : w₁.slot (s, ptIndex (page addr)) with
      | none => exact hfault
      | some e₁ =>
        simp only [Bool.not_false, Bool.true_and, Bool.false_eq_true, if_false]
        by_cases hdeny : (!e₁.flags.write) = true
        · rw [if_pos hdeny]
          exact hfault
        rw [if_neg hdeny]
        obtain ⟨f, -, -, hclear, hb₂⟩ := clearCode_mapped hb' he₁
        have he₂ : (clearCode s (page addr) e₁.flags w₁).slot (s, ptIndex (page addr)) =
            some { e₁ with flags := f } := by
          rw [hclear, update_self]
        have hcopy := copyForWrite_slot (h := h) hb₂ he₂
        split_ifs at hcopy
        · rw [hcopy, update_of_ne hk, hclear, update_of_ne hk, hfault]
        · rw [hcopy, hclear, update_of_ne hk, hfault]
    simp only [reduceCtorEq, if_false, decide_false]
    generalize prepareWrite h s (page addr) false w₁ = r at hprep ⊢
    obtain ⟨w₂, ok⟩ := r
    cases ok <;> exact hprep

def ChunksApart (chunks : List (ℕ × ℕ)) : Prop :=
  (∀ c ∈ chunks, pgoffset c.1 + c.2 ≤ pageSize) ∧
    chunks.Pairwise fun c c' => ptIndex (page c.1) ≠ ptIndex (page c'.1)

lemma userWriteMem_keeps {chunks : List (ℕ × ℕ)} {buf : List UInt8} {k : ℕ} {e : PtEntry}
    (hv : w.Valid) (he : w.slot (s, k) = some e) (hap : ChunksApart chunks)
    (hk : ∀ c ∈ chunks, ptIndex (page c.1) ≠ k) {o : ℕ}
    (ho : e.offset ≤ o) (ho' : o < e.offset + pageSize) :
    (userWriteMem h s chunks buf w).1.load { data := e.data, offset := o } =
      w.load { data := e.data, offset := o } := by
  induction chunks generalizing w buf with
  | nil => rfl
  | cons c rest ih =>
    have hne : ((s, k) : ℕ × ℕ) ≠ (s, ptIndex (page c.1)) := fun heq =>
      hk c List.mem_cons_self (Prod.mk.inj heq).2.symm
    have hv₁ := valid_memPtr h s c.1 .write hv
    have he₁ := memPtr_write_slot_of_ne (h := h) hv.balanced hne he
    obtain ⟨n, hs⟩ := steps_memPtr_any h s c.1 .write hv.balanced
    have hload := load_of_steps hs hv.balanced he he₁ o
    have hap' : ChunksApart rest :=
      ⟨fun c' hc' => hap.1 c' (List.mem_cons_of_mem _ hc'), (List.pairwise_cons.mp hap.2).2⟩
    rw [userWriteMem]
    cases hptr : memPtr h s c.1 .write w with
    | mk w₁ r =>
    rw [hptr] at hv₁ he₁ hload
    cases r with
    | none => exact hload
    | some ptr =>
      obtain ⟨e', he', -, rfl⟩ := memPtr_write_some hptr
      simp only
      rw [ih (valid_storeBytes _ _ hv₁) (by rw [storeBytes_slot]; exact he₁) hap'
        fun c' hc' => hk c' (List.mem_cons_of_mem _ hc'), ← hload]
      -- the two pages have no byte in common
      apply load_storeBytes_of_notMem
      intro hd
      have hfits := hap.1 c List.mem_cons_self
      have hlen : (buf.take c.2).length ≤ c.2 := List.length_take_le _ _
      have hover : ¬ e.Overlaps e' := fun hover =>
        hk c List.mem_cons_self (hv₁.lawful _ _ e e' hne he₁ he' hover).1.symm
      simp only [PtEntry.Overlaps, not_and] at hover
      have := hover hd
      simp only
      omega

/-- Two writes of the same length leave the same memory, and the same answer, exactly when they
agree on the bytes that are copied. -/
theorem userWriteMem_eq_iff {chunks : List (ℕ × ℕ)} {b b' : List UInt8} (hv : w.Valid)
    (hap : ChunksApart chunks) (hlen : (chunks.map Prod.snd).sum = b.length)
    (hlen' : b'.length = b.length) :
    userWriteMem h s chunks b w = userWriteMem h s chunks b' w ↔
      b.take (userReach h s chunks b w) = b'.take (userReach h s chunks b w) := by
  induction chunks generalizing w b b' with
  | nil => simp [userReach, userWriteMem]
  | cons c rest ih =>
    obtain ⟨p, n⟩ := c
    have hv₁ := valid_memPtr h s p .write hv
    have hap' : ChunksApart rest :=
      ⟨fun c' hc' => hap.1 c' (List.mem_cons_of_mem _ hc'), (List.pairwise_cons.mp hap.2).2⟩
    simp only [List.map_cons, List.sum_cons] at hlen
    cases hptr : memPtr h s p .write w with
    | mk w₁ r =>
    rw [hptr] at hv₁
    cases r with
    | none => simp [userWriteMem, userReach, hptr]
    | some ptr =>
      obtain ⟨e, he, -, rfl⟩ := memPtr_write_some hptr
      have hlive : (w₁.data e.data).isSome := hv₁.balanced.live he
      simp only [userWriteMem, userReach, hptr]
      generalize hr : userReach h s rest (b.drop n) _ = reach
      have htake : b.take (n + reach) = b'.take (n + reach) ↔
          b.take n = b'.take n ∧ (b.drop n).take reach = (b'.drop n).take reach := by
        rw [List.take_add, List.take_add]
        constructor
        · intro heq
          exact List.append_inj heq (by simp [hlen'])
        · rintro ⟨h₁, h₂⟩
          rw [h₁, h₂]
      rw [htake]
      by_cases hn : b.take n = b'.take n
      · have := ih (valid_storeBytes { data := e.data, offset := e.offset + pgoffset p }
          (b.take n) hv₁) hap' (b := b.drop n) (by simp; omega)
          (show (b'.drop n).length = (b.drop n).length by simp [hlen'])
        rw [hr] at this
        rw [← hn, this, and_iff_right rfl]
      · refine ⟨fun heq => absurd ?_ hn, fun heq => absurd heq.1 hn⟩
        -- the first page shows which of the two was written
        have hpage : ∀ buf : List UInt8, (buf.take n).length = n →
            (userWriteMem h s rest (buf.drop n) (w₁.storeBytes
              { data := e.data, offset := e.offset + pgoffset p } (buf.take n))).1.loadBytes
                { data := e.data, offset := e.offset + pgoffset p } n = buf.take n := by
          intro buf hbuf
          have hloaded := loadBytes_storeBytes (buf.take n) (w := w₁)
            (p := { data := e.data, offset := e.offset + pgoffset p }) hlive
          rw [hbuf] at hloaded
          refine Eq.trans ?_ hloaded
          apply List.map_congr_left
          intro i hi
          have hfits := hap.1 (p, n) List.mem_cons_self
          have hi := List.mem_range.mp hi
          simp only at hfits
          congr 1
          refine userWriteMem_keeps (valid_storeBytes _ _ hv₁) (k := ptIndex (page p)) (e := e)
            (by rw [storeBytes_slot]; exact he) hap' ?_ (by simp only; omega) (by simp only; omega)
          intro c hc
          exact ((List.pairwise_cons.mp hap.2).1 c hc).symm
        have h₁ := hpage b (by simp; omega)
        have h₂ := hpage b' (by simp; omega)
        rw [← h₁, ← h₂, heq]

/-! ### The pieces of a short buffer -/

lemma userChunks_spec (stop fuel p : ℕ) :
    (∀ c ∈ userChunks stop fuel p, p ≤ c.1 ∧ c.1 < stop ∧ pgoffset c.1 + c.2 ≤ pageSize) ∧
      (userChunks stop fuel p).Pairwise (fun c c' => page c.1 < page c'.1) ∧
      (stop ≤ p + fuel → ((userChunks stop fuel p).map Prod.snd).sum = stop - p) := by
  induction fuel generalizing p with
  | zero =>
    simp [userChunks]
    omega
  | succ fuel ih =>
    rw [userChunks]
    split_ifs with hp
    swap
    · simp
      omega
    obtain ⟨hin, hpw, hsum⟩ := ih (min ((page p + 1) * pageSize) stop)
    have hdiv := Nat.div_add_mod p 4096
    have hmod := Nat.mod_lt p (show 0 < 4096 by decide)
    simp only [page, pgoffset, pageSize] at hin hpw hsum ⊢
    refine ⟨?_, ?_, ?_⟩
    · intro c hc
      rcases List.mem_cons.mp hc with rfl | hc
      · exact ⟨le_rfl, hp, by simp only; omega⟩
      · have := hin c hc
        exact ⟨by omega, this.2.1, this.2.2⟩
    · refine List.pairwise_cons.mpr ⟨fun c hc => ?_, hpw⟩
      have := hin c hc
      simp only
      omega
    · intro hfuel
      rw [List.map_cons, List.sum_cons, hsum (by omega)]
      simp only
      omega

lemma chunksOf_apart {addr count : ℕ} (hcount : count < 2 ^ 47) :
    ChunksApart (chunksOf addr count) := by
  obtain ⟨hin, hpw, -⟩ := userChunks_spec ((addr + count) % 2 ^ 64) count addr
  refine ⟨fun c hc => (hin c hc).2.2, hpw.imp_of_mem ?_⟩
  intro c c' hc hc' hlt
  have h₁ := hin c hc
  have h₂ := hin c' hc'
  simp only [page, pageSize, ptIndex, memPages] at hlt ⊢
  omega

/-- The two writes of a short record to one address. -/
theorem userWrite_eq_iff {addr : ℕ} {b b' : List UInt8} (hv : w.Valid) (haddr : addr < 2 ^ 64)
    (hb : b.length < 2 ^ 47) (hlen : b'.length = b.length) :
    userWrite h s addr b w = userWrite h s addr b' w ↔
      b.take (userReach h s (chunksOf addr b.length) b w) =
        b'.take (userReach h s (chunksOf addr b.length) b w) := by
  rw [userWrite, userWrite, hlen]
  obtain ⟨-, -, hsum⟩ := userChunks_spec ((addr + b.length) % 2 ^ 64) b.length addr
  by_cases hfits : addr + b.length < 2 ^ 64
  · refine userWriteMem_eq_iff hv (chunksOf_apart hb) ?_ hlen
    rw [chunksOf, hsum (Nat.mod_le _ _), Nat.mod_eq_of_lt hfits, Nat.add_sub_cancel_left]
  · -- the end of the buffer overflows, and nothing is written
    have hnil : chunksOf addr b.length = [] := by
      unfold chunksOf
      cases hn : b.length with
      | zero => rfl
      | succ n => rw [userChunks, if_neg (by omega)]
    simp [hnil, userWriteMem, userReach]

end ShellBox
