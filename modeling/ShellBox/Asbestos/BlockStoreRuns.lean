import ShellBox.Asbestos.BlockStoreIntact

/-!
# Invalidation, and the end of the block store

An invalidation disconnects exactly the live blocks on the lists of the pages. The counters are
those of the live blocks, and in the end every block has been freed once.
-/

namespace ShellBox

open Function

namespace Asbestos

variable {s s' s'' : Asbestos} {b c : BlockId} {i : Fin 2} {k : ℕ} {lost lost' : BlockId → Prop}

/-! ### The counters -/

def liveBlocks (s : Asbestos) : Finset BlockId :=
  (Finset.range s.nextBlock).filter fun b => s.fate b = .live

/-- The counters are those of the live blocks. -/
structure Counted (s : Asbestos) : Prop where
  born : ∀ b < s.nextBlock, s.fate b ≠ .unborn
  numBlocks : s.numBlocks = s.liveBlocks.card
  memUsed : s.memUsed = ∑ b ∈ s.liveBlocks, (s.block b).used

lemma Intact.mem_liveBlocks (h : s.Intact) : b ∈ s.liveBlocks ↔ s.fate b = .live := by
  rw [liveBlocks, Finset.mem_filter, Finset.mem_range]
  refine ⟨And.right, fun hb => ⟨?_, hb⟩⟩
  by_contra hlt
  exact absurd ((h.unborn b (Nat.le_of_not_lt hlt)).symm.trans hb) (by simp)

namespace Counted

/-- Nothing has happened to the blocks. -/
lemma congr (h : s.Counted) (hfate : s'.fate = s.fate) (hblock : s'.block = s.block)
    (hnext : s'.nextBlock = s.nextBlock) (hnum : s'.numBlocks = s.numBlocks)
    (hmem : s'.memUsed = s.memUsed) : s'.Counted := by
  have hlive : s'.liveBlocks = s.liveBlocks := by rw [liveBlocks, hfate, hnext, liveBlocks]
  refine ⟨?_, ?_, ?_⟩
  · rw [hfate, hnext]
    exact h.born
  · rw [hnum, hlive, h.numBlocks]
  · rw [hmem, hlive, hblock, h.memUsed]

lemma discard (h : s.Counted) (hi : s.Intact) (hb : s.fate b = .live) : (s.discard b).Counted := by
  have hlive : (s.discard b).liveBlocks = s.liveBlocks.erase b := by
    ext c
    rw [(hi.discard hb).mem_liveBlocks, Finset.mem_erase, hi.mem_liveBlocks]
    by_cases hc : c = b
    · simp [hc, Asbestos.discard]
    · simp [hc, Asbestos.discard]
  have hmem := hi.mem_liveBlocks.2 hb
  constructor
  case born =>
    intro c hc
    by_cases hcb : c = b
    · simp [hcb, Asbestos.discard]
    · simpa [hcb, Asbestos.discard] using h.born c hc
  case numBlocks =>
    rw [hlive, Finset.card_erase_of_mem hmem, ← h.numBlocks]
    rfl
  case memUsed =>
    have hsum := Finset.add_sum_erase s.liveBlocks (fun c => (s.block c).used) hmem
    rw [← h.memUsed] at hsum
    rw [hlive]
    exact Nat.sub_eq_of_eq_add (hsum.symm.trans (Nat.add_comm _ _))

lemma findOrCompile (h : s.Counted) (hi : s.Intact) (new : FiberBlock) :
    (s.findOrCompile new).2.Counted := by
  have hi' := hi.findOrCompile new
  unfold Asbestos.findOrCompile at hi' ⊢
  cases hf : s.fiberLookup new.addr with
  | some b => exact h
  | none =>
    rw [hf] at hi'
    obtain ⟨-, hblock, -, hnext, hnum, hmem, -⟩ :=
      grow_rest ((s.genEnd new).count s.nextBlock)
    have hfate' := fate_fiberInsert s new
    have hblock' : ((s.genEnd new).fiberInsert s.nextBlock).block =
        update s.block s.nextBlock new := hblock
    have hnotMem : s.nextBlock ∉ s.liveBlocks := by simp [liveBlocks]
    have hlive : ((s.genEnd new).fiberInsert s.nextBlock).liveBlocks =
        insert s.nextBlock s.liveBlocks := by
      ext c
      rw [hi'.mem_liveBlocks, hfate', Finset.mem_insert, hi.mem_liveBlocks]
      by_cases hc : c = s.nextBlock <;> simp [hc]
    constructor
    case born =>
      intro c hc
      have hc' : c < s.nextBlock + 1 := hc.trans_eq hnext
      rw [hfate']
      by_cases hcb : c = s.nextBlock
      · simp [hcb]
      · rw [update_of_ne hcb]
        exact h.born c (Nat.lt_of_le_of_ne (Nat.le_of_lt_succ hc') hcb)
    case numBlocks =>
      rw [hlive, Finset.card_insert_of_notMem hnotMem, ← h.numBlocks]
      exact hnum
    case memUsed =>
      rw [hlive, Finset.sum_insert hnotMem, hblock', update_self, add_comm]
      refine hmem.trans (congrArg₂ _ ?_ (by simp [Asbestos.genEnd]))
      rw [Asbestos.genEnd, h.memUsed]
      refine Finset.sum_congr rfl fun c hc => ?_
      rw [update_of_ne]
      rintro rfl
      exact hnotMem hc

lemma chain (h : s.Counted) : (s.chain b c).Counted := by
  have hslot : ∀ {s : Asbestos} (i : Fin 2), s.Counted → (s.chainSlot b c i).Counted := by
    intro s i hs
    unfold chainSlot
    split
    · exact hs
    · split_ifs
      · exact { hs with }
      · exact hs
  unfold Asbestos.chain
  split_ifs
  · exact h
  · exact hslot 1 (hslot 0 h)

lemma fiberFreeJetsam (h : s.Counted) (hi : s.Intact) : s.fiberFreeJetsam.Counted := by
  have hfate : ∀ b, b ∈ s.jetsam → s.fate b = .jetsam := fun b => (hi.jetsam.2 b).1
  have hlive : s.fiberFreeJetsam.liveBlocks = s.liveBlocks := by
    ext b
    rw [hi.fiberFreeJetsam.mem_liveBlocks, hi.mem_liveBlocks]
    by_cases hb : b ∈ s.jetsam <;> simp [Asbestos.fiberFreeJetsam, hb, hfate]
  refine ⟨fun b hb => ?_, hlive ▸ h.numBlocks, hlive ▸ h.memUsed⟩
  by_cases hj : b ∈ s.jetsam
  · simp [Asbestos.fiberFreeJetsam, hj]
  · simpa [Asbestos.fiberFreeJetsam, hj] using h.born b hb

end Counted

/-! ### Invalidation -/

/-- The blocks that are gone have become jetsam, and the others are as they were. -/
structure Discards (s s' : Asbestos) (lost : BlockId → Prop) : Prop where
  intact : s'.Intact
  was : ∀ b, lost b → s.fate b = .live
  gone : ∀ b, lost b → s'.fate b = .jetsam
  kept : ∀ b, ¬ lost b → s'.fate b = s.fate b
  block : s'.block = s.block
  counted : s.Counted → s'.Counted
  slots : ∀ b i, s'.fate b = .live → s'.jumpIp b i = s.jumpIp b i ∨
    s'.jumpIp b i = s.oldJumpIp b i ∧ ∃ c, s.jumpIp b i = some (.chained c) ∧ lost c

namespace Discards

lemma refl (h : s.Intact) : s.Discards s fun _ => False where
  intact := h
  was _ hb := hb.elim
  gone _ hb := hb.elim
  kept _ _ := rfl
  block := rfl
  counted := id
  slots _ _ _ := Or.inl rfl

lemma one (h : s.Intact) (hb : s.fate b = .live) : s.Discards (s.discard b) (· = b) where
  intact := h.discard hb
  was _ hc := hc ▸ hb
  gone _ hc := hc ▸ update_self ..
  kept _ hc := update_of_ne hc _ _
  counted hc := hc.discard h hb
  block := rfl
  slots c i _ := by
    by_cases hc : c ∈ (s.jumpsFrom i b).erase b
    · exact Or.inr ⟨if_pos hc, b, ((mem_erase_jumpsFrom h).1 hc).2.2, rfl⟩
    · exact Or.inl (if_neg hc)

lemma live_iff (h : s.Discards s' lost) : s'.fate b = .live ↔ s.fate b = .live ∧ ¬ lost b := by
  by_cases hb : lost b
  · simp [h.gone b hb, hb]
  · simp [h.kept b hb, hb]

lemma trans (h : s.Discards s' lost) (h' : s'.Discards s'' lost') :
    s.Discards s'' fun b => lost b ∨ lost' b where
  intact := h'.intact
  was b hb := hb.elim (h.was b) fun hb' => (h.live_iff.1 (h'.was b hb')).1
  gone b hb := by
    by_cases hb' : lost' b
    · exact h'.gone b hb'
    · rw [h'.kept b hb', h.gone b (hb.resolve_right hb')]
  kept b hb := by
    rw [not_or] at hb
    rw [h'.kept b hb.2, h.kept b hb.1]
  block := h'.block.trans h.block
  counted := h'.counted ∘ h.counted
  slots b i hb := by
    have hb' := (h'.live_iff.1 hb).1
    rcases h.slots b i hb' with hsame | ⟨hold, c, hc, hlost⟩
    · rcases h'.slots b i hb with hsame' | ⟨hold', c, hc, hlost⟩
      · exact Or.inl (hsame'.trans hsame)
      · refine Or.inr ⟨hold'.trans ?_, c, hsame.symm.trans hc, Or.inr hlost⟩
        rw [oldJumpIp, h.block, oldJumpIp]
    · refine Or.inr ⟨?_, c, hc, Or.inl hlost⟩
      rcases h'.slots b i hb with hsame' | ⟨-, d, hd, -⟩
      · exact hsame'.trans hold
      · exact absurd (hold.symm.trans hd) oldJumpIp_ne

/-- A jump to a block that is gone is as it was compiled, any other as it was. -/
lemma jumpIp_eq (h : s.Discards s' lost) (hb : s'.fate b = .live) :
    (∀ c, s.jumpIp b i = some (.chained c) → s'.fate c ≠ .live → s'.jumpIp b i = s.oldJumpIp b i) ∧
      ((∀ c, s.jumpIp b i = some (.chained c) → s'.fate c = .live) →
        s'.jumpIp b i = s.jumpIp b i) := by
  rcases h.slots b i hb with hsame | ⟨hold, c, hc, hlost⟩
  · exact ⟨fun c hc hdead => absurd (h.intact.live_dest hb (hsame.trans hc)) hdead, fun _ => hsame⟩
  · refine ⟨fun _ _ _ => hold, fun hall => ?_⟩
    cases (h.gone c hlost).symm.trans (hall c hc)

lemma congr (h : s.Discards s' lost) (heq : ∀ b, lost b ↔ lost' b) : s.Discards s' lost' := by
  rwa [← funext fun b => propext (heq b)]

/-- The loop over the blocks of a list. -/
lemma foldl {l : List BlockId} (h : s.Intact) (hl : l.Nodup) (hlive : ∀ b ∈ l, s.fate b = .live) :
    s.Discards (l.foldl discard s) (· ∈ l) := by
  induction l generalizing s with
  | nil => exact (refl h).congr fun b => by simp
  | cons b l ih =>
    rw [List.nodup_cons] at hl
    have hhead := one h (hlive b List.mem_cons_self)
    refine (hhead.trans (ih hhead.intact hl.2 fun c hc => hhead.live_iff.2 ⟨?_, ?_⟩)).congr
      fun c => List.mem_cons.symm
    · exact hlive c (List.mem_cons_of_mem b hc)
    · rintro rfl
      exact hl.1 hc

lemma pageKey_eq_some (h : s.Discards s' lost) :
    s'.pageKey i b = some k ↔ s.pageKey i b = some k ∧ ¬ lost b := by
  have hpage : s'.pageOf b = s.pageOf b := by
    funext i
    fin_cases i <;> simp [pageOf, addr, h.block]
  rw [pageKey, pageKey, liveKey_eq_some, liveKey_eq_some, h.live_iff, hpage]
  tauto

end Discards

/-- The block is on a list of the bucket. -/
def OnBucket (s : Asbestos) (k : ℕ) (b : BlockId) : Prop := ∃ i, s.pageKey i b = some k

lemma onBucket_iff (hb : s.fate b = .live) :
    s.OnBucket k b ↔ ∃ i, pageBucket (s.pageOf b i) = k := by
  simp only [OnBucket, Fin.exists_fin_two, pageKey, liveKey_eq_some, hb, true_and, true_or, if_true,
    Option.some_inj]
  by_cases hcross : s.pageOf b 0 = s.pageOf b 1
  · simp [hcross]
  · simp [hcross]

lemma discards_list (h : s.Intact) (i : Fin 2) (k : ℕ) :
    s.Discards ((s.pageHash i k).foldl discard s) fun b => s.pageKey i b = some k :=
  (Discards.foldl h ((h.page i).nodup k) fun _ hb =>
    (liveKey_eq_some.1 ((h.page i).mem_iff.1 hb)).1).congr fun _ => (h.page i).mem_iff

lemma discards_bucket (h : s.Intact) (k : ℕ) : s.Discards (s.discardBucket k) (s.OnBucket k) := by
  have hfirst := discards_list h 0 k
  refine (hfirst.trans (discards_list hfirst.intact 1 k)).congr fun b => ?_
  rw [hfirst.pageKey_eq_some, OnBucket, Fin.exists_fin_two]
  tauto

lemma discards_loop (h : s.Intact) (ks : List ℕ) :
    s.Discards (ks.foldl discardBucket s) fun b => ∃ k ∈ ks, s.OnBucket k b := by
  induction ks generalizing s with
  | nil => exact (Discards.refl h).congr fun b => by simp
  | cons k ks ih =>
    have hhead := discards_bucket h k
    refine (hhead.trans (ih hhead.intact)).congr fun b => ?_
    simp only [OnBucket, hhead.pageKey_eq_some, List.exists_mem_cons_iff]
    by_cases hb : ∃ i, s.pageKey i b = some k
    · simp [hb]
    · simp [hb]

lemma foldl_discard_invalidations (l : List BlockId) :
    (l.foldl discard s).invalidations = s.invalidations := by
  induction l generalizing s with
  | nil => rfl
  | cons b l ih => exact ih

lemma foldl_discardBucket_invalidations (ks : List ℕ) :
    (ks.foldl discardBucket s).invalidations = s.invalidations := by
  induction ks generalizing s with
  | nil => rfl
  | cons k ks ih =>
    rw [List.foldl_cons, ih, discardBucket, foldl_discard_invalidations,
      foldl_discard_invalidations]

/-- An invalidation counts if a block is gone. -/
structure Invalidates (s s' : Asbestos) (lost : BlockId → Prop) : Prop
    extends s.Discards s' lost where
  counts_lt : ∀ b, lost b → s.invalidations < s'.invalidations

lemma invalidations_le_discardBuckets (s : Asbestos) (ks : List ℕ) :
    s.invalidations ≤ (s.discardBuckets ks).invalidations := by
  have hinv := foldl_discardBucket_invalidations (s := s) ks
  unfold discardBuckets
  dsimp only
  split_ifs
  · exact hinv.ge
  · exact Nat.le_succ_of_le hinv.ge

lemma invalidates_buckets (h : s.Intact) (ks : List ℕ) :
    s.Invalidates (s.discardBuckets ks) fun b => ∃ k ∈ ks, s.OnBucket k b := by
  have hd := discards_loop h ks
  have hinv := foldl_discardBucket_invalidations (s := s) ks
  unfold discardBuckets
  by_cases hj : (ks.foldl discardBucket s).jetsam = s.jetsam
  · rw [if_pos hj]
    refine { hd with counts_lt := fun b hb => ?_ }
    -- it was live, and is on the same list of jetsam
    have hmem := (hd.intact.jetsam.2 b).2 (hd.gone b hb)
    rw [hj, h.jetsam.2, hd.was b hb] at hmem
    cases hmem
  · rw [if_neg hj]
    exact {
      hd with
      intact := { hd.intact with }
      counted := fun hc => { hd.counted hc with }
      counts_lt := fun _ _ => Nat.lt_succ_of_le hinv.ge }

/-! ### `asbestos_free` -/

lemma foldl_fiberBlockFree (l : List BlockId) : (l.foldl fiberBlockFree s).freed = s.freed ++ l ∧
    (l.foldl fiberBlockFree s).jetsam = s.jetsam := by
  induction l generalizing s with
  | nil => exact ⟨(List.append_nil _).symm, rfl⟩
  | cons b l ih =>
    obtain ⟨hfreed, hjetsam⟩ := ih (s := s.fiberBlockFree b)
    exact ⟨hfreed.trans (List.append_assoc s.freed [b] l), hjetsam⟩

/-- The loop over the hash table frees the live blocks, and the others are jetsam or freed. -/
lemma freed_asbestosFree (h : s.Intact) (hc : s.Counted) :
    s.asbestosFree.freed.Perm (List.range s.nextBlock) := by
  obtain ⟨hfreed, hjetsam⟩ := foldl_fiberBlockFree (s := s) ((List.range s.hashSize).flatMap s.hash)
  have heq : s.asbestosFree.freed =
      s.freed ++ (List.range s.hashSize).flatMap s.hash ++ s.jetsam := by
    rw [asbestosFree, fiberFreeJetsam, hfreed, hjetsam]
  have hmem : ∀ b, b ∈ (List.range s.hashSize).flatMap s.hash ↔ s.fate b = .live :=
    fun b => h.mem_hashLists
  rw [heq, List.perm_ext_iff_of_nodup _ List.nodup_range]
  · intro b
    rw [List.mem_append, List.mem_append, h.freed.2, hmem, h.jetsam.2, List.mem_range]
    constructor
    · intro hb
      by_contra hlt
      rw [h.unborn b (Nat.le_of_not_lt hlt)] at hb
      simp at hb
    · intro hb
      have hborn := hc.born b hb
      cases hf : s.fate b <;> simp_all
  · refine List.Nodup.append (h.freed.1.append (h.hash.nodup_flatMap _) ?_) h.jetsam.1 ?_
    · intro b hb hb'
      rw [h.freed.2] at hb
      rw [hmem, hb] at hb'
      cases hb'
    · intro b hb hb'
      rw [List.mem_append, h.freed.2, hmem] at hb
      rw [h.jetsam.2] at hb'
      simp [hb'] at hb

end Asbestos

end ShellBox
