import ShellBox.Asbestos.BlockStore

/-!
# The block store stays intact

Every live block is once on each list it belongs to, and a slot of a live block is as it was
compiled, or leads to the live block of the address it was compiled for, which has it on its list.
-/

namespace ShellBox

open Function

/-- The block a slot leads to. -/
def JumpIp.dest : JumpIp → Option BlockId
  | .fake _    => none
  | .chained b => some b

namespace Asbestos

/-- A block that is not freed. -/
def Held (s : Asbestos) (b : BlockId) : Prop := s.fate b = .live ∨ s.fate b = .jetsam

/-- The list a live block is on. -/
def liveKey {κ : Type*} (fate : BlockId → BlockFate) (f : BlockId → Option κ) (b : BlockId) :
    Option κ :=
  if fate b = .live then f b else none

def hashKey (s : Asbestos) : BlockId → Option ℕ :=
  liveKey s.fate fun b => some (s.hashBucket (s.addr b))

def pageKey (s : Asbestos) (i : Fin 2) : BlockId → Option ℕ :=
  liveKey s.fate fun b =>
    if i = 0 ∨ s.pageOf b 0 ≠ s.pageOf b 1 then some (pageBucket (s.pageOf b i)) else none

/-- The block whose list a jump is on. -/
def chainedTo (s : Asbestos) (i : Fin 2) : BlockId → Option BlockId :=
  liveKey s.fate fun b => (s.jumpIp b i).bind JumpIp.dest

/-- A slot is as it was compiled, or leads to the live block of the address. -/
def SlotFits (s : Asbestos) (b : BlockId) (i : Fin 2) : Prop :=
  s.jumpIp b i = s.oldJumpIp b i ∨
    ∃ c, s.jumpIp b i = some (.chained c) ∧ s.fate c = .live ∧
      (s.block b).target i = some (s.addr c)

structure Intact (s : Asbestos) : Prop where
  unborn : ∀ b, s.nextBlock ≤ b → s.fate b = .unborn
  hashSize : 0 < s.hashSize
  hash : Buckets s.hash s.hashKey
  page : ∀ i, Buckets (s.pageHash i) (s.pageKey i)
  jumps : ∀ i, Buckets (s.jumpsFrom i) (s.chainedTo i)
  jetsam : s.jetsam.Nodup ∧ ∀ b, b ∈ s.jetsam ↔ s.fate b = .jetsam
  freed : s.freed.Nodup ∧ ∀ b, b ∈ s.freed ↔ s.fate b = .freed
  unique : ∀ b c, s.fate b = .live → s.fate c = .live → s.addr b = s.addr c → b = c
  slot : ∀ b i, s.fate b = .live → s.SlotFits b i
  stray : ∀ b i c, s.fate b = .jetsam → s.jumpIp b i = some (.chained c) → s.Held c

variable {s : Asbestos} {b c last : BlockId} {i : Fin 2} {new : FiberBlock}

section LiveKey

variable {κ : Type*} {fate fate' : BlockId → BlockFate} {f g : BlockId → Option κ} {x : BlockFate}

lemma liveKey_eq_some {k : κ} : liveKey fate f b = some k ↔ fate b = .live ∧ f b = some k := by
  unfold liveKey
  split_ifs with h <;> simp [h]

lemma liveKey_congr (hfate : ∀ b, fate' b = .live ↔ fate b = .live)
    (hf : ∀ b, fate b = .live → g b = f b) : liveKey fate' g = liveKey fate f := by
  funext b
  unfold liveKey
  by_cases hb : fate b = .live
  · rw [if_pos hb, if_pos ((hfate b).2 hb), hf b hb]
  · rw [if_neg hb, if_neg fun hb' => hb ((hfate b).1 hb')]

lemma liveKey_born : liveKey (update fate b .live) f = update (liveKey fate f) b (f b) := by
  funext c
  by_cases hc : c = b
  · simp [liveKey, hc]
  · simp [liveKey, hc]

lemma liveKey_dead (hx : x ≠ .live) :
    liveKey (update fate b x) f = update (liveKey fate f) b none := by
  funext c
  by_cases hc : c = b
  · simp [liveKey, hc, hx]
  · simp [liveKey, hc]

end LiveKey

lemma hashKey_isSome : (s.hashKey b).isSome ↔ s.fate b = .live := by
  unfold hashKey liveKey
  split_ifs with h <;> simp [h]

lemma chainedTo_eq_some : s.chainedTo i b = some c ↔
    s.fate b = .live ∧ s.jumpIp b i = some (.chained c) := by
  rw [chainedTo, liveKey_eq_some]
  refine and_congr_right fun _ => ?_
  cases hj : s.jumpIp b i with
  | none => simp
  | some w => cases w <;> simp [JumpIp.dest]

lemma oldJumpIp_ne : s.oldJumpIp b i ≠ some (.chained c) := by
  unfold oldJumpIp
  cases (s.block b).target i <;> simp

lemma intact_asbestosNew : asbestosNew.Intact where
  unborn _ _ := rfl
  hashSize := by decide
  hash := .empty
  page _ := .empty
  jumps _ := .empty
  jetsam := ⟨List.nodup_nil, fun _ => ⟨fun h => absurd h List.not_mem_nil, fun h => by cases h⟩⟩
  freed := ⟨List.nodup_nil, fun _ => ⟨fun h => absurd h List.not_mem_nil, fun h => by cases h⟩⟩
  unique _ _ hb := by cases hb
  slot _ _ hb := by cases hb
  stray _ _ _ hb := by cases hb

namespace Intact

lemma fate_nextBlock (h : s.Intact) : s.fate s.nextBlock = .unborn := h.unborn _ le_rfl

lemma live_dest (h : s.Intact) (hb : s.fate b = .live) (hj : s.jumpIp b i = some (.chained c)) :
    s.fate c = .live := by
  rcases h.slot b i hb with hold | ⟨d, hd, hlive, -⟩
  · exact absurd (hold.symm.trans hj) oldJumpIp_ne
  · rw [hd, Option.some_inj, JumpIp.chained.injEq] at hj
    exact hj ▸ hlive

lemma held_dest (h : s.Intact) (hb : s.Held b) (hj : s.jumpIp b i = some (.chained c)) :
    s.Held c :=
  hb.elim (fun hb => Or.inl (h.live_dest hb hj)) fun hb => h.stray b i c hb hj

lemma mem_jumpsFrom (h : s.Intact) : b ∈ s.jumpsFrom i c ↔
    s.fate b = .live ∧ s.jumpIp b i = some (.chained c) :=
  (h.jumps i).mem_iff.trans chainedTo_eq_some

/-! ### Lookup -/

lemma lookup_iff (h : s.Intact) {addr : BitVec 64} :
    s.fiberLookup addr = some b ↔ s.fate b = .live ∧ s.addr b = addr := by
  have hmem : ∀ c, s.addr c = addr → (c ∈ s.hash (s.hashBucket addr) ↔ s.fate c = .live) := by
    rintro c rfl
    rw [h.hash.mem_iff, hashKey, liveKey_eq_some]
    exact and_iff_left rfl
  constructor
  · intro hb
    have haddr : s.addr b = addr := by simpa using List.find?_some hb
    exact ⟨(hmem b haddr).1 (List.mem_of_find?_eq_some hb), haddr⟩
  · rintro ⟨hlive, haddr⟩
    cases hf : s.fiberLookup addr with
    | none =>
      have := List.find?_eq_none.1 hf b ((hmem b haddr).2 hlive)
      simp [haddr] at this
    | some c =>
      have hc : s.addr c = addr := by simpa using List.find?_some hf
      have hclive := (hmem c hc).1 (List.mem_of_find?_eq_some hf)
      rw [h.unique c b hclive hlive (hc.trans haddr.symm)]

/-! ### Insertion -/

/-- Memory that no block has yet may change. -/
lemma congr (h : s.Intact) {s' : Asbestos} (hfate : s'.fate = s.fate)
    (hblock : ∀ b, s.fate b ≠ .unborn → s'.block b = s.block b)
    (hjump : ∀ b, s.fate b ≠ .unborn → s'.jumpIp b = s.jumpIp b)
    (hnext : s.nextBlock ≤ s'.nextBlock) (hhash : s'.hash = s.hash ∧ s'.hashSize = s.hashSize)
    (hpage : s'.pageHash = s.pageHash) (hjumps : s'.jumpsFrom = s.jumpsFrom)
    (hjetsam : s'.jetsam = s.jetsam) (hfreed : s'.freed = s.freed) : s'.Intact := by
  have hlive : ∀ {b}, s.fate b = .live → s.fate b ≠ .unborn := fun hb hu => by simp [hb] at hu
  have haddr : ∀ b, s.fate b = .live → s'.addr b = s.addr b := by
    intro b hb
    rw [addr, hblock b (hlive hb), addr]
  have hpages : ∀ b i, s.fate b = .live → s'.pageOf b i = s.pageOf b i := by
    intro b i hb
    fin_cases i <;> simp [pageOf, haddr b hb, hblock b (hlive hb)]
  have hiff : ∀ b, s'.fate b = .live ↔ s.fate b = .live := fun b => by rw [hfate]
  constructor
  case unborn => exact fun b hb => hfate ▸ h.unborn b (hnext.trans hb)
  case hashSize => exact hhash.2 ▸ h.hashSize
  case hash =>
    have hkey : s'.hashKey = s.hashKey :=
      liveKey_congr hiff fun b hb => by rw [hashBucket, haddr b hb, hhash.2, hashBucket]
    rw [hhash.1, hkey]
    exact h.hash
  case page =>
    intro i
    have hkey : s'.pageKey i = s.pageKey i :=
      liveKey_congr hiff fun b hb => by simp only [hpages b _ hb]
    rw [hpage, hkey]
    exact h.page i
  case jumps =>
    intro i
    have hkey : s'.chainedTo i = s.chainedTo i :=
      liveKey_congr hiff fun b hb => by rw [hjump b (hlive hb)]
    rw [hjumps, hkey]
    exact h.jumps i
  case jetsam => rw [hjetsam, hfate]; exact h.jetsam
  case freed => rw [hfreed, hfate]; exact h.freed
  case unique =>
    intro b c hb hc heq
    rw [hfate] at hb hc
    rw [haddr b hb, haddr c hc] at heq
    exact h.unique b c hb hc heq
  case slot =>
    intro b i hb
    rw [hfate] at hb
    rcases h.slot b i hb with hold | ⟨c, hc, hclive, htarget⟩
    · left
      rw [hjump b (hlive hb), hold, oldJumpIp, oldJumpIp, hblock b (hlive hb)]
    · right
      refine ⟨c, ?_, hfate ▸ hclive, ?_⟩
      · rw [hjump b (hlive hb), hc]
      · rw [hblock b (hlive hb), haddr c hclive, htarget]
  case stray =>
    intro b i c hb hj
    rw [hfate] at hb
    rw [hjump b (by simp [hb])] at hj
    rw [Held, hfate]
    exact h.stray b i c hb hj

lemma genEnd (h : s.Intact) (new : FiberBlock) : (s.genEnd new).Intact := by
  have hne : ∀ b, s.fate b ≠ .unborn → b ≠ s.nextBlock := by
    rintro b hb rfl
    exact hb h.fate_nextBlock
  refine h.congr rfl (fun b hb => update_of_ne (hne b hb) _ _)
    (fun b hb => update_of_ne (hne b hb) _ _) (Nat.le_succ _) ⟨rfl, rfl⟩ rfl ?_ rfl rfl
  -- no block is chained to one that is not there yet
  funext i
  refine update_eq_self_iff.2 (List.eq_nil_iff_forall_not_mem.2 fun b hb => ?_).symm
  obtain ⟨hlive, hj⟩ := h.mem_jumpsFrom.1 hb
  rcases h.held_dest (Or.inl hlive) hj with hn | hn <;> simp [h.fate_nextBlock] at hn

lemma mem_hashLists (h : s.Intact) :
    b ∈ (List.range s.hashSize).flatMap s.hash ↔ s.fate b = .live := by
  rw [List.mem_flatMap, ← hashKey_isSome]
  constructor
  · rintro ⟨k, -, hk⟩
    rw [h.hash.mem_iff.1 hk]
    rfl
  · intro hb
    refine ⟨s.hashBucket (s.addr b), List.mem_range.2 (Nat.mod_lt _ h.hashSize), ?_⟩
    exact h.hash.mem_iff.2 (liveKey_eq_some.2 ⟨hashKey_isSome.1 hb, rfl⟩)

lemma resize (h : s.Intact) {n : ℕ} (hn : 0 < n) : (s.fiberResizeHash n).Intact := by
  refine { h with hashSize := hn, hash := ?_ }
  refine buckets_regroup (h.hash.nodup_flatMap _) (fun b => ?_) fun b hb => ?_
  · rw [h.mem_hashLists, hashKey_isSome]
    rfl
  · exact liveKey_eq_some.2 ⟨hashKey_isSome.1 hb, rfl⟩

/-- A block that is not in the store yet, at an address without one. -/
lemma link (h : s.Intact) (hb : s.fate b = .unborn) (hlt : b < s.nextBlock)
    (hslots : s.jumpIp b = s.oldJumpIp b) (hno : s.fiberLookup (s.addr b) = none) :
    (s.link b).Intact := by
  have hfate : ∀ c, c ≠ b → (s.link b).fate c = s.fate c := fun c hc => update_of_ne hc _ _
  have hlive : (s.link b).fate b = .live := update_self ..
  have hnone : ∀ {κ : Type} {f : BlockId → Option κ}, liveKey s.fate f b = none :=
    if_neg (by simp [hb])
  have hne : ∀ {c}, s.fate c ≠ .unborn → c ≠ b := by
    rintro c hc rfl
    exact hc hb
  have hfresh : ∀ c, s.fate c = .live → s.addr c ≠ s.addr b := by
    intro c hc heq
    have hsome := h.lookup_iff.2 ⟨hc, heq⟩
    rw [hno] at hsome
    cases hsome
  have hcases : ∀ {c}, (s.link b).fate c = .live → c = b ∨ s.fate c = .live := by
    intro c hc
    by_cases hcb : c = b
    · exact Or.inl hcb
    · exact Or.inr (hfate c hcb ▸ hc)
  constructor
  case unborn =>
    intro c hc
    rw [hfate c (Nat.ne_of_gt (hlt.trans_le hc))]
    exact h.unborn c hc
  case hashSize => exact h.hashSize
  case hash =>
    have hkey : (s.link b).hashKey = update s.hashKey b (some (s.hashBucket (s.addr b))) :=
      liveKey_born
    rw [hkey]
    exact h.hash.push hnone _
  case page =>
    intro i
    have hkey : (s.link b).pageKey i = update (s.pageKey i) b
        (if i = 0 ∨ s.pageOf b 0 ≠ s.pageOf b 1 then some (pageBucket (s.pageOf b i)) else none) :=
      liveKey_born
    rw [hkey]
    by_cases hi : i = 0 ∨ s.pageOf b 0 ≠ s.pageOf b 1
    · have hlists : (s.link b).pageHash i = update (s.pageHash i) (pageBucket (s.pageOf b i))
          (b :: s.pageHash i (pageBucket (s.pageOf b i))) := if_pos hi
      rw [if_pos hi, hlists]
      exact (h.page i).push hnone _
    · have hlists : (s.link b).pageHash i = s.pageHash i := if_neg hi
      rw [if_neg hi, hlists, update_eq_self_iff.2 hnone.symm]
      exact h.page i
  case jumps =>
    intro i
    have hdest : (s.jumpIp b i).bind JumpIp.dest = none := by
      rw [hslots, oldJumpIp]
      cases (s.block b).target i <;> rfl
    have hkey : (s.link b).chainedTo i = update (s.chainedTo i) b none := hdest ▸ liveKey_born
    rw [hkey, update_eq_self_iff.2 hnone.symm]
    exact h.jumps i
  case jetsam =>
    refine ⟨h.jetsam.1, fun c => (h.jetsam.2 c).trans ?_⟩
    by_cases hc : c = b
    · simp [hc, hlive, hb]
    · rw [hfate c hc]
  case freed =>
    refine ⟨h.freed.1, fun c => (h.freed.2 c).trans ?_⟩
    by_cases hc : c = b
    · simp [hc, hlive, hb]
    · rw [hfate c hc]
  case unique =>
    intro c d hc hd heq
    rcases hcases hc with hcb | hc'
    · rcases hcases hd with hdb | hd'
      · rw [hcb, hdb]
      · exact absurd heq.symm (hcb ▸ hfresh d hd')
    · rcases hcases hd with hdb | hd'
      · exact absurd heq (hdb ▸ hfresh c hc')
      · exact h.unique c d hc' hd' heq
  case slot =>
    intro c i hc
    rcases hcases hc with rfl | hc
    · exact Or.inl (congrFun hslots i)
    · rcases h.slot c i hc with hold | ⟨d, hj, hd, ht⟩
      · exact Or.inl hold
      · exact Or.inr ⟨d, hj, (hfate d (hne (by simp [hd]))).trans hd, ht⟩
  case stray =>
    intro c i d hc hj
    by_cases hcb : c = b
    · rw [hcb, hlive] at hc
      cases hc
    · have hd := h.stray c i d (hfate c hcb ▸ hc) hj
      rw [Held, hfate d (hne (by rcases hd with hd | hd <;> simp [hd]))]
      exact hd

lemma grow (h : s.Intact) : s.grow.Intact := by
  unfold Asbestos.grow
  split_ifs
  · exact h.resize (Nat.mul_pos h.hashSize two_pos)
  · exact h

end Intact

/-- What does not depend on the lists of the hash table. -/
lemma grow_rest (s : Asbestos) : s.grow.fate = s.fate ∧ s.grow.block = s.block ∧
    s.grow.jumpIp = s.jumpIp ∧ s.grow.nextBlock = s.nextBlock ∧ s.grow.numBlocks = s.numBlocks ∧
    s.grow.memUsed = s.memUsed ∧ s.grow.invalidations = s.invalidations := by
  unfold grow
  split_ifs <;> exact ⟨rfl, rfl, rfl, rfl, rfl, rfl, rfl⟩

lemma fate_fiberInsert (s : Asbestos) (new : FiberBlock) :
    ((s.genEnd new).fiberInsert s.nextBlock).fate = update s.fate s.nextBlock .live := by
  rw [fiberInsert, link, (grow_rest _).1]
  rfl

lemma Intact.findOrCompile (h : s.Intact) (new : FiberBlock) :
    (s.findOrCompile new).2.Intact := by
  unfold Asbestos.findOrCompile
  cases hf : s.fiberLookup new.addr with
  | some b => exact h
  | none =>
    obtain ⟨hfate, hblock, hjump, hnext, -⟩ := grow_rest ((s.genEnd new).count s.nextBlock)
    have hcount : ((s.genEnd new).count s.nextBlock).Intact := { h.genEnd new with }
    have hgrown := hcount.grow
    refine hgrown.link ((congrFun hfate _).trans h.fate_nextBlock)
      (hnext ▸ Nat.lt_succ_self _) ?_ ?_
    · funext i
      rw [hjump, oldJumpIp, hblock]
      simp [count, Asbestos.genEnd]
    · by_contra hsome
      obtain ⟨c, hc⟩ := Option.ne_none_iff_exists'.1 hsome
      obtain ⟨hlive, hca⟩ := hgrown.lookup_iff.1 hc
      rw [addr, addr, hblock] at hca
      rw [hfate] at hlive
      have hne : c ≠ s.nextBlock := by
        rintro rfl
        exact absurd (h.fate_nextBlock.symm.trans hlive) (by simp)
      have hsc : s.addr c = new.addr := by
        simpa [count, Asbestos.genEnd, hne, addr] using hca
      rw [h.lookup_iff.2 ⟨hlive, hsc⟩] at hf
      cases hf

/-! ### Chaining -/

/-- A slot that the loop takes for one that leads to `b` does lead there. -/
def Apt (s : Asbestos) (last b : BlockId) : Prop :=
  ∀ i w, s.jumpIp last i = some w → s.word w &&& 0xffffffff = s.addr b → w = .fake (s.addr b)

lemma Intact.patch (h : s.Intact) (hl : s.fate last = .live) (hb : s.fate b = .live)
    (hfake : s.jumpIp last i = some (.fake (s.addr b))) : (s.patch last b i).Intact := by
  have htarget : (s.block last).target i = some (s.addr b) := by
    rcases h.slot last i hl with hold | ⟨c, hc, -⟩
    · simpa [oldJumpIp] using hold.symm.trans hfake
    · rw [hfake] at hc
      cases hc
  have hother : ∀ {c j}, ¬ (c = last ∧ j = i) → (s.patch last b i).jumpIp c j = s.jumpIp c j := by
    intro c j hcj
    by_cases hc : c = last
    · subst hc
      have hj : j ≠ i := fun hj => hcj ⟨rfl, hj⟩
      simp [Asbestos.patch, hj]
    · simp [Asbestos.patch, hc]
  have hslot : (s.patch last b i).jumpIp last i = some (.chained b) := by simp [Asbestos.patch]
  refine { h with jumps := fun j => ?_, slot := fun c j hc => ?_, stray := fun c j d hc hj => ?_ }
  · by_cases hj : j = i
    · subst hj
      have hkey : (s.patch last b j).chainedTo j = update (s.chainedTo j) last (some b) := by
        funext c
        by_cases hc : c = last
        · rw [hc, update_self]
          exact chainedTo_eq_some.2 ⟨hl, hslot⟩
        · rw [update_of_ne hc, chainedTo, liveKey, hother fun hcl => hc hcl.1]
          rfl
      have hlists : (s.patch last b j).jumpsFrom j =
          update (s.jumpsFrom j) b (last :: s.jumpsFrom j b) := update_self ..
      rw [hkey, hlists]
      refine (h.jumps j).push ?_ b
      rw [chainedTo, liveKey, if_pos hl, hfake]
      rfl
    · have hkey : (s.patch last b i).chainedTo j = s.chainedTo j :=
        liveKey_congr (fun _ => Iff.rfl) fun c _ => by rw [hother fun hcl => hj hcl.2]
      have hlists : (s.patch last b i).jumpsFrom j = s.jumpsFrom j := update_of_ne hj _ _
      rw [hkey, hlists]
      exact h.jumps j
  · by_cases hcj : c = last ∧ j = i
    · obtain ⟨rfl, rfl⟩ := hcj
      exact Or.inr ⟨b, hslot, hb, htarget⟩
    · rw [SlotFits, hother hcj]
      exact h.slot c j hc
  · have hcl : c ≠ last := by
      rintro rfl
      exact absurd (hl.symm.trans hc) (by simp)
    rw [hother fun hcj => hcl hcj.1] at hj
    exact h.stray c j d hc hj

lemma Intact.chainSlot (h : s.Intact) (hl : s.fate last = .live) (hb : s.fate b = .live)
    (hapt : ∀ w, s.jumpIp last i = some w → s.word w &&& 0xffffffff = s.addr b →
      w = .fake (s.addr b)) : (s.chainSlot last b i).Intact := by
  unfold Asbestos.chainSlot
  cases hw : s.jumpIp last i with
  | none => exact h
  | some w =>
    by_cases hmatch : s.word w &&& 0xffffffff = s.addr b
    · simp only [if_pos hmatch]
      exact h.patch hl hb (hw.trans (congrArg some (hapt w hw hmatch)))
    · simp only [if_neg hmatch]
      exact h

/-- The other fields, and the other slot. -/
lemma chainSlot_rest (s : Asbestos) (last b : BlockId) (i : Fin 2) :
    (s.chainSlot last b i).fate = s.fate ∧ (s.chainSlot last b i).block = s.block ∧
      ∀ j, j ≠ i → (s.chainSlot last b i).jumpIp last j = s.jumpIp last j := by
  unfold chainSlot
  cases s.jumpIp last i with
  | none => exact ⟨rfl, rfl, fun _ _ => rfl⟩
  | some w =>
    by_cases hmatch : s.word w &&& 0xffffffff = s.addr b
    · simp only [if_pos hmatch]
      exact ⟨rfl, rfl, fun j hj => by simp [patch, hj]⟩
    · simp only [if_neg hmatch, implies_true, and_self]

lemma Intact.chain (h : s.Intact) (hl : s.Held last) (hb : s.Held b) (hapt : s.Apt last b) :
    (s.chain last b).Intact := by
  unfold Asbestos.chain
  split_ifs with hjetsam
  · exact h
  rw [not_or] at hjetsam
  have hl' := hl.resolve_right hjetsam.1
  have hb' := hb.resolve_right hjetsam.2
  obtain ⟨hfate, hblock, hslot⟩ := chainSlot_rest s last b 0
  refine (h.chainSlot hl' hb' (hapt 0)).chainSlot (hfate ▸ hl') (hfate ▸ hb') fun w hw hmatch => ?_
  rw [hslot 1 (by decide)] at hw
  have haddr : (s.chainSlot last b 0).addr b = s.addr b := by rw [addr, hblock, addr]
  have hword : (s.chainSlot last b 0).word w = s.word w := by
    cases w with
    | fake target => rfl
    | chained c => simp only [word, hblock]
  rw [haddr] at hmatch ⊢
  rw [hword] at hmatch
  exact hapt 1 w hw hmatch

/-! ### Removal -/

lemma mem_erase_jumpsFrom (h : s.Intact) : c ∈ (s.jumpsFrom i b).erase b ↔
    c ≠ b ∧ s.fate c = .live ∧ s.jumpIp c i = some (.chained b) := by
  rw [((h.jumps i).nodup b).mem_erase_iff, h.mem_jumpsFrom]

lemma Intact.discard (h : s.Intact) (hb : s.fate b = .live) : (s.discard b).Intact := by
  have hself : (s.discard b).fate b = .jetsam := update_self ..
  have hfate : ∀ {c}, c ≠ b → (s.discard b).fate c = s.fate c := fun hc => update_of_ne hc _ _
  have hlive : ∀ {c}, (s.discard b).fate c = .live → c ≠ b ∧ s.fate c = .live := by
    intro c hc
    have hcb : c ≠ b := by
      rintro rfl
      exact absurd (hself.symm.trans hc) (by simp)
    exact ⟨hcb, hfate hcb ▸ hc⟩
  have hkept : ∀ {c j}, ¬ (c ≠ b ∧ s.fate c = .live ∧ s.jumpIp c j = some (.chained b)) →
      (s.discard b).jumpIp c j = s.jumpIp c j := by
    intro c j hc
    exact if_neg fun hmem => hc ((mem_erase_jumpsFrom h).1 hmem)
  have hrestored : ∀ {c j}, c ≠ b → s.fate c = .live → s.jumpIp c j = some (.chained b) →
      (s.discard b).jumpIp c j = s.oldJumpIp c j :=
    fun hcb hc hj => if_pos ((mem_erase_jumpsFrom h).2 ⟨hcb, hc, hj⟩)
  constructor
  case unborn =>
    intro c hc
    have hcb : c ≠ b := by
      rintro rfl
      exact absurd ((h.unborn c hc).symm.trans hb) (by simp)
    rw [hfate hcb]
    exact h.unborn c hc
  case hashSize => exact h.hashSize
  case hash =>
    have hkey : (s.discard b).hashKey = update s.hashKey b none := liveKey_dead (by decide)
    rw [hkey]
    exact h.hash.remove b
  case page =>
    intro i
    have hkey : (s.discard b).pageKey i = update (s.pageKey i) b none := liveKey_dead (by decide)
    rw [hkey]
    exact (h.page i).remove b
  case jumps =>
    intro i
    have hkey : (s.discard b).chainedTo i = fun c =>
        if update (s.chainedTo i) b none c = some b then none
        else update (s.chainedTo i) b none c := by
      funext c
      rw [chainedTo, Asbestos.discard, liveKey_dead (by decide)]
      by_cases hc : c = b
      · simp [hc]
      · rw [update_of_ne hc, update_of_ne hc]
        split_ifs with hto
        · obtain ⟨hlc, hj⟩ := chainedTo_eq_some.1 hto
          have hold := hrestored hc hlc hj
          rw [liveKey, if_pos hlc, show (s.fiberBlockDisconnect b).jumpIp c i = _ from hold,
            oldJumpIp]
          cases (s.block c).target i <;> rfl
        · have hsame := hkept (fun hall => hto (chainedTo_eq_some.2 hall.2))
          rw [liveKey, show (s.fiberBlockDisconnect b).jumpIp c i = _ from hsame]
          rfl
    rw [hkey]
    exact ((h.jumps i).remove b).clear b
  case jetsam =>
    constructor
    · refine List.nodup_cons.2 ⟨fun hmem => ?_, h.jetsam.1⟩
      exact absurd (((h.jetsam.2 b).1 hmem).symm.trans hb) (by simp)
    · intro c
      by_cases hc : c = b
      · simp [hc, Asbestos.discard]
      · rw [hfate hc, ← h.jetsam.2 c]
        simp [Asbestos.discard, hc]
  case freed =>
    refine ⟨h.freed.1, fun c => (h.freed.2 c).trans ?_⟩
    by_cases hc : c = b
    · simp [hc, hself, hb]
    · rw [hfate hc]
  case unique => exact fun c d hc hd => h.unique c d (hlive hc).2 (hlive hd).2
  case slot =>
    intro c i hc
    obtain ⟨hcb, hlc⟩ := hlive hc
    rcases h.slot c i hlc with hold | ⟨d, hd, hdlive, htarget⟩
    · left
      rw [hkept, hold]
      · rfl
      · rintro ⟨-, -, hj⟩
        exact oldJumpIp_ne (hold.symm.trans hj)
    · by_cases hdb : d = b
      · exact Or.inl (hrestored hcb hlc (hdb ▸ hd))
      · refine Or.inr ⟨d, (hkept ?_).trans hd, (hfate hdb).trans hdlive, htarget⟩
        rintro ⟨-, -, hj⟩
        rw [hd, Option.some_inj, JumpIp.chained.injEq] at hj
        exact hdb hj
  case stray =>
    intro c i d hc hj
    have hheld : ∀ {e}, s.Held e → (s.discard b).Held e := by
      intro e he
      by_cases heb : e = b
      · exact Or.inr (heb ▸ hself)
      · rw [Held, hfate heb]
        exact he
    by_cases hcb : c = b
    · rw [hkept fun hall => hall.1 hcb] at hj
      exact hheld (h.held_dest (Or.inl (hcb ▸ hb)) hj)
    · rw [hfate hcb] at hc
      rw [hkept fun hall => absurd (hc.symm.trans hall.2.1) (by simp)] at hj
      exact hheld (h.held_dest (Or.inr hc) hj)

lemma Intact.fiberFreeJetsam (h : s.Intact) : s.fiberFreeJetsam.Intact := by
  have hmem : ∀ {c}, s.fate c = .jetsam → s.fiberFreeJetsam.fate c = .freed :=
    fun hc => if_pos ((h.jetsam.2 _).2 hc)
  have hfate : ∀ {c}, s.fate c ≠ .jetsam → s.fiberFreeJetsam.fate c = s.fate c :=
    fun hc => if_neg fun hj => hc ((h.jetsam.2 _).1 hj)
  have hiff : ∀ {c x}, x ≠ .jetsam → x ≠ .freed →
      (s.fiberFreeJetsam.fate c = x ↔ s.fate c = x) := by
    intro c x hxj hxf
    by_cases hc : s.fate c = .jetsam
    · rw [hmem hc, hc]
      exact ⟨fun hx => absurd hx.symm hxf, fun hx => absurd hx.symm hxj⟩
    · rw [hfate hc]
  have hlive : ∀ {c}, s.fiberFreeJetsam.fate c = .live ↔ s.fate c = .live :=
    hiff (by decide) (by decide)
  constructor
  case unborn => exact fun c hc => (hiff (by decide) (by decide)).2 (h.unborn c hc)
  case hashSize => exact h.hashSize
  case hash =>
    have hkey : s.fiberFreeJetsam.hashKey = s.hashKey :=
      liveKey_congr (fun _ => hlive) fun _ _ => rfl
    rw [hkey]
    exact h.hash
  case page =>
    intro i
    have hkey : s.fiberFreeJetsam.pageKey i = s.pageKey i :=
      liveKey_congr (fun _ => hlive) fun _ _ => rfl
    rw [hkey]
    exact h.page i
  case jumps =>
    intro i
    have hkey : s.fiberFreeJetsam.chainedTo i = s.chainedTo i :=
      liveKey_congr (fun _ => hlive) fun _ _ => rfl
    rw [hkey]
    exact h.jumps i
  case jetsam =>
    refine ⟨List.nodup_nil, fun c => ⟨fun hc => absurd hc List.not_mem_nil, fun hc => ?_⟩⟩
    by_cases hj : s.fate c = .jetsam
    · rw [hmem hj] at hc
      cases hc
    · exact absurd ((hfate hj).symm.trans hc) hj
  case freed =>
    constructor
    · refine h.freed.1.append h.jetsam.1 fun c hf hj => ?_
      rw [h.freed.2] at hf
      rw [h.jetsam.2, hf] at hj
      cases hj
    · intro c
      rw [show s.fiberFreeJetsam.freed = s.freed ++ s.jetsam from rfl, List.mem_append, h.freed.2,
        h.jetsam.2]
      by_cases hj : s.fate c = .jetsam
      · simp [hj, hmem]
      · simp [hj, hfate]
  case unique => exact fun c d hc hd => h.unique c d (hlive.1 hc) (hlive.1 hd)
  case slot =>
    intro c i hc
    rcases h.slot c i (hlive.1 hc) with hold | ⟨d, hd, hdlive, htarget⟩
    · exact Or.inl hold
    · exact Or.inr ⟨d, hd, hlive.2 hdlive, htarget⟩
  case stray =>
    intro c i d hc
    by_cases hj : s.fate c = .jetsam
    · rw [hmem hj] at hc
      cases hc
    · exact absurd ((hfate hj).symm.trans hc) hj

end Asbestos

end ShellBox
