import ShellBox.Kernel.Memory.Frame

/-!
# Copy-on-write isolation

After a fork, two address spaces refer to the same host pages. A private page then awaits a
copy in both, so that a store through one of them goes to a host page the other does not see;
a shared page is the same host page in both until one of them unmaps or remaps it.
-/

namespace ShellBox

open Function World

variable {w : World} {h : Host} {s start pages : ℕ}

/-! ### What a load returns -/

def byteAddr (p off : ℕ) : ℕ := p * pageSize + off

lemma page_byteAddr {p off : ℕ} (hoff : off < pageSize) : page (byteAddr p off) = p := by
  simp only [page, byteAddr, pageSize] at *
  omega

lemma pgoffset_byteAddr {p off : ℕ} (hoff : off < pageSize) : pgoffset (byteAddr p off) = off := by
  simp only [pgoffset, byteAddr, pageSize] at *
  omega

lemma readByte_mapped {addr : ℕ} {e : PtEntry} (he : w.slot (s, ptIndex (page addr)) = some e) :
    (readByte h s addr w).2 = w.load { data := e.data, offset := e.offset + pgoffset addr } := by
  have hpt : (w.mem s).pt.memPt (page addr) = some e := he
  simp [readByte, memPtr, faultIn, memPtrNofault, hpt]

private lemma load_fresh {addr n : ℕ} {flags : Flags} (hb : w.Balanced) (hn : 0 < n)
    (hpages : n ≤ memPages) (hempty : w.slot (s, ptIndex (page addr)) = none) :
    let w' := (ptMapNothing h s (page addr) n flags (w.addAnon n)).1
    (memPtrNofault w' s addr .read).bind w'.load =
      if h.mmapOk (page addr) && h.dataOk (page addr) then some 0 else none := by
  intro w'
  have hunmapped : ∀ v : World, v.slot = w.slot → (memPtrNofault v s addr .read).bind v.load = none := by
    intro v hv
    have hpt : (v.mem s).pt.memPt (page addr) = none := by
      rw [memPt_eq_slot, hv, hempty]
    simp [memPtrNofault, hpt]
  by_cases hmmap : h.mmapOk (page addr) = true
  swap
  · have hw' : w' = w.addAnon n := by simp [w', ptMapNothing, hmmap, Nat.ne_of_gt hn]
    rw [hw', hunmapped (w.addAnon n) rfl]
    simp [hmmap]
  by_cases hdata : h.dataOk (page addr) = true
  swap
  · have hw' : w' = w.addAnon n := by simp [w', ptMapNothing, ptMap, hmmap, hpages, hdata, Nat.ne_of_gt hn]
    rw [hw', hunmapped (w.addAnon n) rfl]
    simp [hdata]
  have hcount : Steps ⟨Set.univ, ∅, True⟩ n w (w.addAnon n) := .single (.count w n)
  obtain ⟨w₁, heq, hloop⟩ := ptMap_ok (S := ⟨Set.univ, ∅, True⟩) (s := s) (fun _ => 0) 0
    (flags ||| pAnonymous) (hcount.balanced hb) hpages hdata
    (fun q _ _ e _ => Or.inl (Set.mem_univ _)) (Or.inr trivial)
  have hw' : w' = w₁ := by simp [w', ptMapNothing, hmmap, hpages, Nat.ne_of_gt hn, heq]
  obtain ⟨x, hx, hbytes⟩ := hloop.data
  have hentry := hloop.inside (page addr) le_rfl (by omega)
  rw [← memPt_eq_slot] at hentry
  simp only [hw', memPtrNofault, hentry]
  simp [load, newEntry, hx, hbytes, hmmap, hdata]

private def loadAfter (s addr : ℕ) (r : World × Bool) : Option UInt8 :=
  if r.2 then (memPtrNofault r.1 s addr .read).bind r.1.load else none

private lemma readByte_eq (h : Host) (s addr : ℕ) (w : World) :
    (readByte h s addr w).2 = loadAfter s addr (faultIn h s (page addr) w) := by
  simp only [readByte, memPtr, loadAfter]
  generalize faultIn h s (page addr) w = r
  obtain ⟨w₁, ok⟩ := r
  cases ok with
  | false => rfl
  | true =>
    simp only [if_true]
    cases memPtrNofault w₁ s addr .read <;> rfl

lemma readByte_unmapped {addr : ℕ} {w w' : World} (hb : w.Balanced) (hb' : w'.Balanced)
    (hmem : w'.mem s = w.mem s) (hempty : w.slot (s, ptIndex (page addr)) = none) :
    (readByte h s addr w').2 = (readByte h s addr w).2 := by
  have hempty' : w'.slot (s, ptIndex (page addr)) = none := by
    rw [slot, hmem]
    exact hempty
  have hnone : (w.mem s).pt.memPt (page addr) = none := hempty
  have hreserved : loadAfter s addr (mapReserved h s (page addr) w') =
      loadAfter s addr (mapReserved h s (page addr) w) := by
    unfold mapReserved
    rw [hmem]
    cases memFindReservation (w.mem s).reservations (page addr) with
    | none => rfl
    | some res =>
      exact (load_fresh hb' (n := 1) (by decide) (by decide) hempty').trans
        (load_fresh hb (n := 1) (by decide) (by decide) hempty).symm
  rw [readByte_eq, readByte_eq]
  unfold faultIn
  simp only [hmem, hnone]
  cases hnext : (w.mem s).pt.nextMapped memPages ((w.mem s).pt.memNextPage (page addr)) with
  | none => exact hreserved
  | some p =>
    simp only
    by_cases hgrows : (((w.mem s).pt.memPt p).map (·.flags.growsdown)).getD false = true
    swap
    · rw [if_neg hgrows, if_neg hgrows]
      exact hreserved
    rw [if_pos hgrows, if_pos hgrows]
    by_cases hlimit : withinStackLimit h (page addr) = true
    swap
    · rw [if_neg hlimit, if_neg hlimit]
      rfl
    rw [if_pos hlimit, if_pos hlimit]
    obtain ⟨hlt, -, -⟩ := PageTable.nextMapped_gap _ hnone hnext
    have hcount : 0 < (if 256 < p - page addr then page addr + 256 else p) - page addr := by
      split_ifs <;> omega
    have hpages : (if 256 < p - page addr then page addr + 256 else p) - page addr ≤ memPages :=
      le_trans (show _ ≤ 256 by split_ifs <;> omega) (by decide)
    exact (load_fresh hb' hcount hpages hempty').trans (load_fresh hb hcount hpages hempty).symm

/-! ### A store through one space -/

lemma memPtr_write_some {addr : ℕ} {w₁ : World} {p : HostPtr}
    (hp : memPtr h s addr .write w = (w₁, some p)) :
    ∃ e, w₁.slot (s, ptIndex (page addr)) = some e ∧ e.flags.writable = true ∧
      p = { data := e.data, offset := e.offset + pgoffset addr } := by
  have hnofault : memPtrNofault w₁ s addr .write = some p := by
    unfold memPtr at hp
    generalize faultIn h s (page addr) w = r at hp
    obtain ⟨w₂, ok⟩ := r
    cases ok with
    | false => simp at hp
    | true =>
      simp only at hp
      rw [if_neg (by decide)] at hp
      generalize prepareWrite h s (page addr) (AccessType.write = .writePtrace) w₂ = r at hp
      obtain ⟨w₃, ok⟩ := r
      cases ok with
      | false => simp at hp
      | true =>
        simp only [Prod.mk.injEq] at hp
        rw [← hp.1, hp.2]
  unfold memPtrNofault at hnofault
  rw [memPt_eq_slot] at hnofault
  cases he : w₁.slot (s, ptIndex (page addr)) with
  | none => simp [he] at hnofault
  | some e =>
    simp only [he, decide_true, Bool.true_and, Bool.not_eq_true', ite_eq_iff, reduceCtorEq,
      and_false, false_or, Option.some.injEq] at hnofault
    exact ⟨e, rfl, by simpa using hnofault.1, hnofault.2.symm⟩

lemma World.Balanced.store (hb : w.Balanced) (p : HostPtr) (byte : UInt8) :
    (w.store p byte).Balanced := by
  rwa [World.Balanced, store_refStore]

lemma load_store_of_ne {p q : HostPtr} (hne : q ≠ p) (byte : UInt8) :
    (w.store p byte).load q = w.load q := by
  by_cases hd : q.data = p.data
  · have ho : q.offset ≠ p.offset := fun ho => hne (by cases p; cases q; simp_all)
    simp only [load, World.store, hd, modifyData_data, update_self, Option.map_map]
    congr 1
    funext x
    simp [ho]
  · simp [load, World.store, hd]

lemma load_store_self {p : HostPtr} (hlive : (w.data p.data).isSome) (byte : UInt8) :
    (w.store p byte).load p = some byte := by
  obtain ⟨x, hx⟩ := Option.isSome_iff_exists.mp hlive
  simp [load, World.store, hx]

lemma load_of_steps {S : Scope} {n : ℤ} {w w' : World} (hs : Steps S n w w') (hb : w.Balanced)
    {k : ℕ × ℕ} {e : PtEntry} (he : w.slot k = some e) (he' : w'.slot k = some e) (o : ℕ) :
    w'.load { data := e.data, offset := o } = w.load { data := e.data, offset := o } := by
  obtain ⟨x, hx⟩ := Option.isSome_iff_exists.mp ((hs.balanced hb).live he')
  obtain ⟨x₀, hx₀, hbytes⟩ := hs.bytes.2 e.data x (hb.lt_nextData he) hx
  simp [load, hx, hx₀, hbytes]

/-- A store through one address space changes no byte that another one reads at a page whose
host page the two do not share by design. -/
theorem readByte_writeByte {X Y p off addr : ℕ} {byte : UInt8} {h' : Host} (hXY : X ≠ Y)
    (hv : w.Valid) (hoff : off < pageSize)
    (hlink : ¬ w.SharedLink (X, ptIndex p) (Y, ptIndex p)) :
    (readByte h' Y (byteAddr p off) (writeByte h X addr byte w)).2 =
      (readByte h' Y (byteAddr p off) w).2 := by
  have hmem : (writeByte h X addr byte w).mem Y = w.mem Y := writeByte_mem hXY.symm w
  obtain ⟨n, hs, -⟩ := steps_memPtr (S := ⟨∅, ∅, False⟩) (h := h) (s := X) addr
    .write hv.balanced (by simp)
  have hmem₁ : (memPtr h X addr .write w).1.mem Y = w.mem Y := memPtr_mem hXY.symm w
  have hb₁ := hs.balanced hv.balanced
  rw [writeByte_eq] at hmem ⊢
  cases he : w.slot (Y, ptIndex p) with
  | none =>
    have hempty : w.slot (Y, ptIndex (page (byteAddr p off))) = none := by
      rwa [page_byteAddr hoff]
    cases hp : (memPtr h X addr .write w).2 with
    | none => exact readByte_unmapped hv.balanced hb₁ hmem₁ hempty
    | some ptr => exact readByte_unmapped hv.balanced (hb₁.store ptr byte) hmem₁ hempty
  | some e =>
    have he₁ : (memPtr h X addr .write w).1.slot (Y, ptIndex p) = some e := by
      rw [slot, hmem₁]
      exact he
    have hload := load_of_steps hs hv.balanced he he₁ (e.offset + off)
    rw [readByte_mapped (w := w) (e := e) (by rwa [page_byteAddr hoff]), pgoffset_byteAddr hoff]
    cases hp : (memPtr h X addr .write w).2 with
    | none =>
      rw [Option.elim_none, readByte_mapped (e := e) (by rwa [page_byteAddr hoff]),
        pgoffset_byteAddr hoff, hload]
    | some ptr =>
      rw [Option.elim_some, readByte_mapped (e := e) (by rwa [page_byteAddr hoff]),
        pgoffset_byteAddr hoff, load_store_of_ne ?_, hload]
      -- a store to the same byte would be through a host page that both spaces share
      obtain ⟨e', he', hwr, rfl⟩ := memPtr_write_some (Prod.ext rfl hp)
      intro heq
      have heq' := HostPtr.mk.inj heq
      have hover : e'.Overlaps e := by
        have := pgoffset_lt addr
        exact ⟨heq'.1.symm, by omega, by omega⟩
      obtain ⟨hidx, -, hboth⟩ := hs.lawful hv.lawful _ _ e' e (by simp [hXY]) he' he₁ hover
      rcases hboth with ⟨hcow, -⟩ | ⟨hsh, hsh'⟩
      · simp [Flags.writable, hcow] at hwr
      · rw [← show ptIndex (page addr) = ptIndex p from hidx] at hlink
        refine hlink (hs.sharedLink (by simp [hXY]) (by simp) (by simp) ?_)
        refine ⟨e', e, he', ?_, hover, hsh, hsh'⟩
        rw [show ptIndex (page addr) = ptIndex p from hidx]
        exact he₁

/-! ### Forks -/

/-- `mm_copy`, several times from one address space: each fork copies the whole page range
into its own address space. -/
def forkAll (src : ℕ) (forks : List (Host × ℕ)) (w : World) : World :=
  forks.foldl (fun w f => ptCopyOnWrite f.1 src f.2 0 memPages w) w

def World.SharedAt (w : World) (s p : ℕ) : Prop := ∃ e, w.slot (s, p) = some e ∧ e.flags.shared = true

def PtEntry.frame (e : PtEntry) : DataId × ℕ × Bool := (e.data, e.offset, e.flags.shared)

lemma fork_frame {src dst p : ℕ} (hne : src ≠ dst) (hv : w.Valid) (hp : p < memPages)
    (hfresh : w.slot (dst, p) = none) :
    ((ptCopyOnWrite h src dst 0 memPages w).slot (src, p)).map PtEntry.frame =
        (w.slot (src, p)).map PtEntry.frame ∧
      ((ptCopyOnWrite h src dst 0 memPages w).slot (dst, p)).map PtEntry.frame =
        (w.slot (src, p)).map PtEntry.frame ∧
      ∀ k, k.1 ≠ src → k.1 ≠ dst → (ptCopyOnWrite h src dst 0 memPages w).slot k = w.slot k := by
  obtain ⟨-, j, st, hj, hloop, hslot⟩ := ptCopyOnWrite_spec (S := ⟨Set.univ, Set.univ, True⟩)
    (h := h) 0 memPages hne (fun i => trivial) trivial hv.balanced hv.lawful
    (fun hS => absurd trivial hS) (by omega)
  rw [hslot]
  refine ⟨?_, ?_, hloop.other⟩
  · cases he : w.slot (src, p) with
    | none => rw [(hloop.unmapped p he).1]
    | some e =>
      rw [(hloop.marked p e (by omega) (by omega) hp he).1]
      simp [PtEntry.frame]
  · cases he : w.slot (src, p) with
    | none => rw [(hloop.unmapped p he).2, hfresh]
    | some e =>
      rw [(hloop.marked p e (by omega) (by omega) hp he).2]
      simp [PtEntry.frame, pCode]

lemma fork_step {src dst : ℕ} (hne : src ≠ dst) :
    ptCopyOnWrite h src dst 0 memPages w =
      MemOp.step w (h, .copyOnWrite src dst hne ⟨0, memPages, by omega⟩) := rfl

lemma forkAll_frame {src p : ℕ} {forks : List (Host × ℕ)} {w : World}
    (hnodup : (src :: forks.map Prod.snd).Nodup) (hv : w.Valid) (hp : p < memPages)
    (hfresh : ∀ f ∈ forks, w.slot (f.2, p) = none) :
    (forkAll src forks w).Valid ∧
      (∀ X ∈ src :: forks.map Prod.snd, ((forkAll src forks w).slot (X, p)).map PtEntry.frame =
        (w.slot (src, p)).map PtEntry.frame) ∧
      ∀ X ∉ src :: forks.map Prod.snd, (forkAll src forks w).slot (X, p) = w.slot (X, p) := by
  induction forks generalizing w with
  | nil => exact ⟨hv, by simp [forkAll], fun X _ => rfl⟩
  | cons f forks ih =>
    obtain ⟨h, dst⟩ := f
    simp only [List.map_cons, List.nodup_cons, List.mem_cons, not_or] at hnodup
    obtain ⟨⟨hne, hsrc⟩, hdst, hnd⟩ := hnodup
    obtain ⟨hsame, hcopy, hother⟩ := fork_frame (h := h) hne hv hp (hfresh _ List.mem_cons_self)
    have hv₁ : (ptCopyOnWrite h src dst 0 memPages w).Valid :=
      fork_step (w := w) hne ▸ MemOp.valid_step _ hv
    obtain ⟨hvalid, hin, hout⟩ := ih (w := ptCopyOnWrite h src dst 0 memPages w)
      (List.nodup_cons.mpr ⟨hsrc, hnd⟩) hv₁ (by
        intro f hf
        have hf₂ : f.2 ∈ forks.map Prod.snd := List.mem_map_of_mem hf
        rw [hother (f.2, p) (fun heq => hsrc (heq ▸ hf₂)) fun heq => hdst (heq ▸ hf₂)]
        exact hfresh f (List.mem_cons_of_mem _ hf))
    refine ⟨hvalid, fun X hX => ?_, fun X hX => ?_⟩
    · simp only [List.map_cons, List.mem_cons] at hX
      rcases hX with rfl | rfl | hX
      · exact (hin X List.mem_cons_self).trans hsame
      · have hX' : X ∉ src :: forks.map Prod.snd := by
          simp only [List.mem_cons, not_or]
          exact ⟨Ne.symm hne, hdst⟩
        exact (congrArg (Option.map PtEntry.frame) (hout X hX')).trans hcopy
      · exact (hin X (List.mem_cons_of_mem _ hX)).trans hsame
    · simp only [List.map_cons, List.mem_cons, not_or] at hX
      obtain ⟨hXs, hXd, hXf⟩ := hX
      refine (hout X ?_).trans (hother (X, p) hXs hXd)
      simp only [List.mem_cons, not_or]
      exact ⟨hXs, hXf⟩

lemma forkAll_sharedPinned {src : ℕ} {forks : List (Host × ℕ)} {w : World}
    (hsrc : src ∉ forks.map Prod.snd) (hv : w.Valid) (hw : w.SharedPinned) :
    (forkAll src forks w).SharedPinned := by
  induction forks generalizing w with
  | nil => exact hw
  | cons f forks ih =>
    simp only [List.map_cons, List.mem_cons, not_or] at hsrc
    have hstep := fork_step (w := w) (h := f.1) hsrc.1
    refine ih (w := ptCopyOnWrite f.1 src f.2 0 memPages w) hsrc.2 ?_ ?_
    · exact hstep ▸ MemOp.valid_step _ hv
    · exact hstep ▸ MemOp.sharedPinned_step _ hv (fun hd => hd) hw

namespace MemOp

variable {X Y : ℕ}

lemma sharedLink_run {w : World} {p : ℕ} {ops : List (Host × MemOp)} (hXY : X ≠ Y) (hv : w.Valid)
    (hops : ∀ op ∈ ops, X ∉ op.2.copiesInto ∧ Y ∉ op.2.copiesInto)
    (hlink : (run step w ops).SharedLink (X, p) (Y, p)) : w.SharedLink (X, p) (Y, p) := by
  induction ops generalizing w with
  | nil => exact hlink
  | cons op ops ih =>
    have hnext := ih (valid_step op hv) (fun op' h' => hops op' (List.mem_cons_of_mem _ h')) hlink
    obtain ⟨hX, hY⟩ := hops op List.mem_cons_self
    obtain ⟨n, w', hs, hstep⟩ := exists_steps op.1 op.2 hv
    refine hs.sharedLink (by simp [hXY]) hX hY ?_
    rcases hstep with heq | ⟨s, addr, byte, ptr, -, -, heq⟩
    · exact heq ▸ hnext
    · rw [show step w op = _ from heq] at hnext
      exact hnext

lemma pinned_run {w : World} {k : ℕ × ℕ} {ops : List (Host × MemOp)} (hv : w.Valid)
    (hops : ∀ op ∈ ops, k ∉ op.2.replaces) {e : PtEntry} (he : w.slot k = some e)
    (hp : e.Pinned) :
    ∃ e', (run step w ops).slot k = some e' ∧ e'.data = e.data ∧ e'.offset = e.offset ∧
      e'.Pinned := by
  induction ops generalizing w e with
  | nil => exact ⟨e, he, rfl, rfl, hp⟩
  | cons op ops ih =>
    obtain ⟨n, w', hs, hstep⟩ := exists_steps op.1 op.2 hv
    obtain ⟨e₁, he₁, hd, ho, hp₁⟩ := hs.pinned (hops op List.mem_cons_self) he hp
    have he₁' : (step w op).slot k = some e₁ := by
      rcases hstep with heq | ⟨s, addr, byte, ptr, -, -, heq⟩
      · rw [show step w op = w' from heq, he₁]
      · rw [show step w op = _ from heq, store_slot, he₁]
    obtain ⟨e₂, he₂, hd₂, ho₂, hp₂⟩ := ih (valid_step op hv)
      (fun op' h' => hops op' (List.mem_cons_of_mem _ h')) he₁' hp₁
    exact ⟨e₂, he₂, hd₂.trans hd, ho₂.trans ho, hp₂⟩

end MemOp

/-- A page that is the same host page in two spaces reads the same in both, and what is
stored through one is read through the other. -/
theorem readByte_shared {X Y p off : ℕ} {h' : Host} (hv : w.Valid) (hoff : off < pageSize)
    {e e' : PtEntry} (he : w.slot (X, ptIndex p) = some e) (he' : w.slot (Y, ptIndex p) = some e')
    (hd : e'.data = e.data) (ho : e'.offset = e.offset) (hp : e.Pinned) (hp' : e'.Pinned) :
    (readByte h X (byteAddr p off) w).2 = (readByte h' Y (byteAddr p off) w).2 ∧
      ∀ byte, (memPtr h X (byteAddr p off) .write w).2.isSome →
        (readByte h' Y (byteAddr p off) (writeByte h X (byteAddr p off) byte w)).2 =
          some byte := by
  have hpage := page_byteAddr (p := p) hoff
  have hoffset := pgoffset_byteAddr (p := p) hoff
  constructor
  · rw [readByte_mapped (by rwa [hpage]), readByte_mapped (by rwa [hpage]), hd, ho]
  · intro byte hsome
    obtain ⟨ptr, hptr⟩ := Option.isSome_iff_exists.mp hsome
    obtain ⟨n, hs, -⟩ := steps_memPtr (S := ⟨∅, ∅, False⟩) (h := h) (s := X)
      (byteAddr p off) .write hv.balanced (by simp)
    obtain ⟨e₁, he₁, -, rfl⟩ := memPtr_write_some (Prod.ext rfl hptr)
    obtain ⟨e₂, he₂, hd₂, ho₂, -⟩ := hs.pinned (by simp) he hp
    obtain ⟨e₃, he₃, hd₃, ho₃, -⟩ := hs.pinned (by simp) he' hp'
    obtain rfl : e₁ = e₂ := by
      rw [hpage, he₂] at he₁
      exact (Option.some.inj he₁).symm
    have hlive : ((memPtr h X (byteAddr p off) .write w).1.data e₁.data).isSome :=
      (hs.balanced hv.balanced).live he₂
    rw [writeByte_eq, hptr, Option.elim_some, readByte_mapped (e := e₃) (by rwa [hpage, store_slot]),
      hd₃, ho₃, hd, ho, ← hd₂, ← ho₂]
    exact load_store_self hlive byte

end ShellBox
