import ShellBox.Fs.PositionedIo

/-!
# Positioned reads and writes in one order

Every call takes effect at one step: a plain transfer with its operation, a transfer with an offset
with its operation, a seek with the seek. The file that the calls leave in this order is the open
file, up to the position while a call is inside; where it stands then is what the call still knows.
-/

namespace ShellBox

open FdOps FdSystem

section PositionedIo

variable {T P C : Type} [DecidableEq T] {ops : FdOps P C} {f g g' : OpenFile P C}
  {s s' : FdSystem T P C} {t t' : T} {c c' : FdCall} {pc pc' : FdPc}

def pendingOf : Option (FdCall × FdPc) → List (FdCall × IoRes)
  | some (c, .advance res) => [(c, res)]
  | some (c, .back _ res)  => [(c, res)]
  | some (c, .unlock res)  => [(c, res)]
  | some (c, .done res)    => [(c, res)]
  | _                      => []

def holds : FdPc → Bool
  | .locked | .saved _ | .moved _ | .back _ _ | .unlock _ => true
  | _ => false

def Tells (ops : FdOps P C) (p : P) (old : ℤ) : Prop :=
  0 ≤ old ∧ ∀ seek ∈ ops.lseek, ∀ f, seek old .set f = (old, p)

/-- What is known of a call on its way, with the file `g` of the order and the open file `f`. -/
def Agrees (ops : FdOps P C) (g f : OpenFile P C) : FdCall → FdPc → Prop
  | _, .begin => True
  | _, .unlock _ => True
  | _, .done _ => True
  | .plain x, .loaded off =>
    (ops.refusesDir x = false ∧ ops.io x = none ∧ (ops.pio x).isSome ∧ ops.lseek.isSome) ∧
      f.pos = g.pos ∧ off = ops.offset g.pos
  | .plain _, .advance res =>
    ops.lseek.isSome ∧ ∀ seek ∈ ops.lseek, (seek res.num .cur f).2 = g.pos
  | .lseek _ _, .locked => ops.lseek.isSome
  | .positioned _ _ _, .locked => True
  | .positioned _ x _, .saved old =>
    (ops.pio x = none ∧ ops.lseek.isSome ∧ (ops.io x).isSome) ∧ f.pos = g.pos ∧ Tells ops g.pos old
  | .positioned _ x off, .moved old =>
    (ops.pio x = none ∧ ops.lseek.isSome ∧ (ops.io x).isSome) ∧ Tells ops g.pos old ∧
      ∀ seek ∈ ops.lseek, ¬ (seek off .set g).1 < 0 ∧ f.pos = (seek off .set g).2
  | .positioned _ _ _, .back old _ => ops.lseek.isSome ∧ Tells ops g.pos old
  | _, _ => False

/-- The run so far, against an order of its calls and the file that they leave. -/
structure Ordered (ops : FdOps P C) (f : OpenFile P C) (s : FdSystem T P C) (g : OpenFile P C)
    (order : List (T × FdCall × IoRes)) : Prop where
  serial : Serial ops.atomic f order g
  calls : ∀ t, callsOf t order = s.returned t ++ pendingOf (s.running t)
  content : g.content = s.shared.file.content
  lock : ∀ t c pc, s.running t = some (c, pc) → holds pc = true → s.shared.lock = some t
  one : ∀ t t' c c' pc pc', s.running t = some (c, pc) → s.running t' = some (c', pc') →
    inside pc = true → inside pc' = true → t = t'
  pos : (∀ t c pc, s.running t = some (c, pc) → inside pc = false) → s.shared.file.pos = g.pos
  agrees : ∀ t c pc, s.running t = some (c, pc) → Agrees ops g s.shared.file c pc

lemma agrees_of_outside (h : inside pc = false) (f' : OpenFile P C) (ha : Agrees ops g f c pc) :
    Agrees ops g' f' c pc := by
  cases c <;> cases pc <;> first | exact ha | cases h

lemma ordered_init : Ordered ops f (init f : FdSystem T P C) f [] where
  serial := rfl
  calls _ := rfl
  content := rfl
  lock _ _ _ h := absurd h.symm (Option.some_ne_none _)
  one _ _ _ _ _ _ h := absurd h.symm (Option.some_ne_none _)
  pos _ := rfl
  agrees _ _ _ h := absurd h.symm (Option.some_ne_none _)

variable {order order' : List (T × FdCall × IoRes)} {shared : SharedFd T P C}

def Alone (s : FdSystem T P C) (t : T) : Prop :=
  ∀ t' c' pc', t' ≠ t → s.running t' = some (c', pc') → inside pc' = false

lemma Ordered.next (h : Ordered ops f s g order) (hrun : s.running t = some (c, pc))
    (hserial : Serial ops.atomic f order' g')
    (hcalls : ∀ t', callsOf t' order' =
      s.returned t' ++ pendingOf (Function.update s.running t (some (c, pc')) t'))
    (hcontent : g'.content = shared.file.content)
    (hlock : ∀ t', t' ≠ t → s.shared.lock = some t' → shared.lock = some t')
    (hown : holds pc' = true → shared.lock = some t)
    (hone : inside pc' = true → inside pc = true ∨ Alone s t)
    (hpos : inside pc' = false → Alone s t → shared.file.pos = g'.pos)
    (hagrees : Agrees ops g' shared.file c pc')
    (hothers : ∀ t' c'' pc'', t' ≠ t → s.running t' = some (c'', pc'') → inside pc'' = true →
      Agrees ops g s.shared.file c'' pc'' → Agrees ops g' shared.file c'' pc'') :
    Ordered ops f { s.setRunning t (some (c, pc')) with shared := shared } g' order' := by
  have hself : Function.update s.running t (some (c, pc')) t = some (c, pc') :=
    Function.update_self t _ _
  have hother {t' : T} (hne : t' ≠ t) : Function.update s.running t (some (c, pc')) t' =
      s.running t' := Function.update_of_ne hne _ _
  refine ⟨hserial, hcalls, hcontent, ?_, ?_, ?_, ?_⟩
  · intro t' c'' pc'' hr hh
    by_cases hne : t' = t
    · subst hne
      obtain ⟨-, rfl⟩ := Prod.mk.inj (Option.some.inj (hself.symm.trans hr))
      exact hown hh
    · exact hlock t' hne (h.lock t' c'' pc'' ((hother hne).symm.trans hr) hh)
  · -- who is inside now was alone, or was inside already
    have hnew (t' : T) (c'' : FdCall) (pc'' : FdPc) (hne : t' ≠ t)
        (hr : s.running t' = some (c'', pc'')) (hin : inside pc'' = true)
        (hin' : inside pc' = true) : False := by
      rcases hone hin' with hold | halone
      · exact hne (h.one t' t c'' c pc'' pc hr hrun hin hold)
      · exact Bool.false_ne_true ((halone t' c'' pc'' hne hr).symm.trans hin)
    intro t₁ t₂ c₁ c₂ pc₁ pc₂ hr₁ hr₂ hin₁ hin₂
    by_cases hne₁ : t₁ = t
    · by_cases hne₂ : t₂ = t
      · exact hne₁.trans hne₂.symm
      · subst hne₁
        obtain ⟨-, rfl⟩ := Prod.mk.inj (Option.some.inj (hself.symm.trans hr₁))
        exact (hnew t₂ c₂ pc₂ hne₂ ((hother hne₂).symm.trans hr₂) hin₂ hin₁).elim
    · by_cases hne₂ : t₂ = t
      · subst hne₂
        obtain ⟨-, rfl⟩ := Prod.mk.inj (Option.some.inj (hself.symm.trans hr₂))
        exact (hnew t₁ c₁ pc₁ hne₁ ((hother hne₁).symm.trans hr₁) hin₁ hin₂).elim
      · exact h.one t₁ t₂ c₁ c₂ pc₁ pc₂ ((hother hne₁).symm.trans hr₁)
          ((hother hne₂).symm.trans hr₂) hin₁ hin₂
  · intro hout
    refine hpos (hout t c pc' hself) fun t' c'' pc'' hne hr => ?_
    exact hout t' c'' pc'' ((hother hne).trans hr)
  · intro t' c'' pc'' hr
    by_cases hne : t' = t
    · subst hne
      obtain ⟨rfl, rfl⟩ := Prod.mk.inj (Option.some.inj (hself.symm.trans hr))
      exact hagrees
    · have hr' := (hother hne).symm.trans hr
      have ha := h.agrees t' c'' pc'' hr'
      by_cases hin : inside pc'' = true
      · exact hothers t' c'' pc'' hne hr' hin ha
      · exact agrees_of_outside (Bool.eq_false_of_not_eq_true hin) _ ha

lemma Ordered.calls_silent (h : Ordered ops f s g order) (hrun : s.running t = some (c, pc))
    (hpending : pendingOf (some (c, pc')) = pendingOf (some (c, pc))) (t' : T) :
    callsOf t' order =
      s.returned t' ++ pendingOf (Function.update s.running t (some (c, pc')) t') := by
  rw [h.calls t']
  by_cases hne : t' = t
  · rw [hne, Function.update_self, hpending, hrun]
  · rw [Function.update_of_ne hne]

lemma Ordered.calls_effect (h : Ordered ops f s g order) (hrun : s.running t = some (c, pc))
    {res : IoRes} (hbefore : pendingOf (some (c, pc)) = [])
    (hafter : pendingOf (some (c, pc')) = [(c, res)]) (t' : T) :
    callsOf t' (order ++ [(t, c, res)]) =
      s.returned t' ++ pendingOf (Function.update s.running t (some (c, pc')) t') := by
  by_cases hne : t' = t
  · rw [hne, callsOf_effect, h.calls t, hrun, hbefore, List.append_nil, Function.update_self,
      hafter]
  · rw [callsOf_effect_of_ne hne, h.calls t', Function.update_of_ne hne]

/-! ### Who is alone -/

lemma Ordered.file_eq (h : Ordered ops f s g order) (hrun : s.running t = some (c, pc))
    (hout : inside pc = false) (halone : Alone s t) : g = s.shared.file := by
  have hpos : s.shared.file.pos = g.pos := by
    refine h.pos fun t' c' pc' hr => ?_
    by_cases hne : t' = t
    · subst hne
      obtain ⟨-, rfl⟩ := Prod.mk.inj (Option.some.inj (hrun.symm.trans hr))
      exact hout
    · exact halone t' c' pc' hne hr
  have hcontent := h.content
  cases g
  cases hfile : s.shared.file
  rw [hfile] at hpos hcontent
  simp only at hpos hcontent
  rw [hpos, hcontent]

lemma Ordered.alone_of_inside (h : Ordered ops f s g order) (hrun : s.running t = some (c, pc))
    (hin : inside pc = true) : Alone s t := by
  intro t' c' pc' hne hr
  by_contra hin'
  exact hne (h.one t' t c' c pc' pc hr hrun (Bool.eq_true_of_not_eq_false hin') hin)

lemma holds_of_uses (hplain : isPlain c = false) (huses : ops.usesPos c pc = true)
    (ha : Agrees ops g f c pc) : holds pc = true := by
  cases c <;> cases pc <;> first | rfl | cases hplain; done | exact False.elim ha | cases huses

lemma holds_of_inside (hplain : isPlain c = false) (hin : inside pc = true)
    (ha : Agrees ops g f c pc) : holds pc = true := by
  cases c <;> cases pc <;> first | rfl | cases hplain; done | exact False.elim ha | cases hin

lemma Ordered.holder_eq (h : Ordered ops f s g order) (hrun : s.running t = some (c, pc))
    (hrun' : s.running t' = some (c', pc')) (hh : holds pc = true) (hh' : holds pc' = true) :
    t' = t :=
  Option.some.inj ((h.lock t' c' pc' hrun' hh').symm.trans (h.lock t c pc hrun hh))

lemma Ordered.alone_of_uses (h : Ordered ops f s g order) (hrun : s.running t = some (c, pc))
    (hfits : s.Fits ops t c pc) (huses : ops.usesPos c pc = true) : Alone s t := by
  intro t' c' pc' hne hr
  by_contra hno
  have hin := Bool.eq_true_of_not_eq_false hno
  obtain ⟨hplain, hplain'⟩ := hfits.alone huses t' c' pc' hne hr hin
  exact hne (h.holder_eq hrun hr (holds_of_uses hplain huses (h.agrees t c pc hrun))
    (holds_of_inside hplain' hin (h.agrees t' c' pc' hr)))

/-! ### The kinds of steps -/

lemma Ordered.wait (h : Ordered ops f s g order) (hrun : s.running t = some (c, pc))
    (hfile : shared.file = s.shared.file)
    (hpending : pendingOf (some (c, pc')) = pendingOf (some (c, pc)))
    (hlock : ∀ t', t' ≠ t → s.shared.lock = some t' → shared.lock = some t')
    (hown : holds pc' = true → shared.lock = some t) (hout : inside pc = false)
    (hone : inside pc' = true → Alone s t) (hagrees : Agrees ops g s.shared.file c pc') :
    Ordered ops f { s.setRunning t (some (c, pc')) with shared := shared } g order := by
  refine h.next hrun h.serial (h.calls_silent hrun hpending) (hfile ▸ h.content) hlock hown
    (fun hin => .inr (hone hin)) ?_ (hfile ▸ hagrees) ?_
  · intro _ halone
    rw [hfile, ← h.file_eq hrun hout halone]
  · intro t' c'' pc'' _ _ _ ha
    rwa [hfile]

lemma Ordered.answer (h : Ordered ops f s g order) (hrun : s.running t = some (c, pc))
    {res : IoRes} (hatomic : ops.atomic c g = (res, g)) (hfile : shared.file = s.shared.file)
    (hlockeq : shared.lock = s.shared.lock)
    (hbefore : pendingOf (some (c, pc)) = []) (hafter : pendingOf (some (c, pc')) = [(c, res)])
    (hown : holds pc' = true → holds pc = true) (hout : inside pc = false)
    (hout' : inside pc' = false) (hagrees : Agrees ops g s.shared.file c pc') :
    Ordered ops f { s.setRunning t (some (c, pc')) with shared := shared } g
      (order ++ [(t, c, res)]) := by
  have hserial := h.serial.effect t c
  rw [hatomic] at hserial
  refine h.next hrun hserial (h.calls_effect hrun hbefore hafter) (hfile ▸ h.content)
    (fun t' _ hl => hlockeq.trans hl) (fun hh => hlockeq.trans (h.lock t c pc hrun (hown hh)))
    (fun hin => absurd (hout'.symm.trans hin) Bool.false_ne_true) ?_ (hfile ▸ hagrees) ?_
  · intro _ halone
    rw [hfile, ← h.file_eq hrun hout halone]
  · intro t' c'' pc'' _ _ _ ha
    rwa [hfile]

lemma Ordered.effect (h : Ordered ops f s g order) (hrun : s.running t = some (c, pc))
    (halone : Alone s t) {res : IoRes} (hatomic : ops.atomic c g = (res, g'))
    (hcontent : g'.content = shared.file.content) (hlockeq : shared.lock = s.shared.lock)
    (hbefore : pendingOf (some (c, pc)) = []) (hafter : pendingOf (some (c, pc')) = [(c, res)])
    (hown : holds pc' = true → holds pc = true)
    (hpos : inside pc' = false → shared.file.pos = g'.pos)
    (hagrees : Agrees ops g' shared.file c pc') :
    Ordered ops f { s.setRunning t (some (c, pc')) with shared := shared } g'
      (order ++ [(t, c, res)]) := by
  have hserial := h.serial.effect t c
  rw [hatomic] at hserial
  refine h.next hrun hserial (h.calls_effect hrun hbefore hafter) hcontent
    (fun t' _ hl => hlockeq.trans hl) (fun hh => hlockeq.trans (h.lock t c pc hrun (hown hh)))
    (fun _ => .inr halone) (fun hout _ => hpos hout) hagrees ?_
  intro t' c'' pc'' hne hr hin
  exact absurd ((halone t' c'' pc'' hne hr).symm.trans hin) Bool.false_ne_true

lemma Ordered.move (h : Ordered ops f s g order) (hrun : s.running t = some (c, pc))
    (halone : Alone s t) (hcontent : shared.file.content = s.shared.file.content)
    (hlockeq : shared.lock = s.shared.lock)
    (hpending : pendingOf (some (c, pc')) = pendingOf (some (c, pc)))
    (hown : holds pc' = true → holds pc = true)
    (hpos : inside pc' = false → shared.file.pos = g.pos)
    (hagrees : Agrees ops g shared.file c pc') :
    Ordered ops f { s.setRunning t (some (c, pc')) with shared := shared } g order := by
  refine h.next hrun h.serial (h.calls_silent hrun hpending) (h.content.trans hcontent.symm)
    (fun t' _ hl => hlockeq.trans hl) (fun hh => hlockeq.trans (h.lock t c pc hrun (hown hh)))
    (fun _ => .inr halone) (fun hout _ => hpos hout) hagrees ?_
  intro t' c'' pc'' hne hr hin
  exact absurd ((halone t' c'' pc'' hne hr).symm.trans hin) Bool.false_ne_true

lemma Ordered.acquire (h : Ordered ops f s g order) (hrun : s.running t = some (c, .begin))
    (hstep : FdOps.acquire t s.shared = some (pc', shared))
    (hagrees : Agrees ops g s.shared.file c .locked) :
    Ordered ops f { s.setRunning t (some (c, pc')) with shared := shared } g order := by
  unfold FdOps.acquire at hstep
  cases hlock : s.shared.lock with
  | some t' =>
    rw [hlock] at hstep
    exact absurd hstep.symm (Option.some_ne_none _)
  | none =>
    rw [hlock] at hstep
    obtain ⟨rfl, rfl⟩ := Prod.mk.inj (Option.some.inj hstep)
    refine h.wait hrun rfl rfl ?_ (fun _ => rfl) rfl (fun hin => absurd hin Bool.false_ne_true)
      hagrees
    intro t' _ hl
    exact absurd (hl.symm.trans hlock) (Option.some_ne_none t')

lemma Ordered.release (h : Ordered ops f s g order) {res : IoRes}
    (hrun : s.running t = some (c, .unlock res)) :
    Ordered ops f { s.setRunning t (some (c, .done res)) with
      shared := { s.shared with lock := none } } g order := by
  have hmine := h.lock t c _ hrun rfl
  refine h.wait hrun rfl rfl ?_ (fun hh => absurd hh Bool.false_ne_true) rfl
    (fun hin => absurd hin Bool.false_ne_true) trivial
  intro t' hne hl
  exact absurd (Option.some.inj (hl.symm.trans hmine)) hne

/-! ### The steps of the calls -/

section Steps

variable (h : Ordered ops f s g order)
include h

lemma Ordered.plain {x : Transfer} (hrun : s.running t = some (.plain x, pc))
    (hfits : s.Fits ops t (.plain x) pc)
    (hstep : ops.plainStep x s.shared pc = some (pc', shared)) : ∃ g' order',
      Ordered ops f { s.setRunning t (some (.plain x, pc')) with shared := shared } g' order' := by
  have ha := h.agrees t _ _ hrun
  cases pc with
  | begin =>
    have halone := h.alone_of_uses hrun hfits rfl
    have hfile := h.file_eq hrun rfl halone
    rw [plainStep] at hstep
    by_cases hdir : ops.refusesDir x = true
    · rw [if_pos hdir] at hstep
      obtain ⟨rfl, rfl⟩ := Prod.mk.inj (Option.some.inj hstep)
      exact ⟨_, _, h.answer hrun (by rw [atomic, plainAtomic, if_pos hdir]) rfl rfl rfl rfl
        (fun hh => absurd hh Bool.false_ne_true) rfl rfl trivial⟩
    rw [if_neg hdir] at hstep
    cases hio : ops.io x with
    | some op =>
      simp only [hio] at hstep
      obtain ⟨rfl, rfl⟩ := Prod.mk.inj (Option.some.inj hstep)
      have hatomic : ops.atomic (.plain x) g = ((op s.shared.file).1, (op s.shared.file).2) := by
        rw [atomic, plainAtomic, if_neg hdir]
        simp only [hio, hfile]
      exact ⟨_, _, h.effect hrun halone hatomic rfl rfl rfl rfl
        (fun hh => absurd hh Bool.false_ne_true) (fun _ => rfl) trivial⟩
    | none =>
      cases hpio : ops.pio x with
      | some op =>
        simp only [hio, hpio] at hstep
        obtain ⟨rfl, rfl⟩ := Prod.mk.inj (Option.some.inj hstep)
        refine ⟨_, _, h.wait hrun rfl rfl (fun _ _ hl => hl)
          (fun hh => absurd hh Bool.false_ne_true) rfl (fun _ => halone) ?_⟩
        have hserves : (ops.io x).isSome ∨ ops.pio x = none ∨ ops.lseek.isSome := hfits.serves
        rw [hio, hpio] at hserves
        have hseek : ops.lseek.isSome := by simpa using hserves
        exact ⟨⟨Bool.eq_false_of_not_eq_true hdir, hio, by rw [hpio]; rfl, hseek⟩,
          by rw [hfile], by rw [hfile]⟩
      | none =>
        simp only [hio, hpio] at hstep
        obtain ⟨rfl, rfl⟩ := Prod.mk.inj (Option.some.inj hstep)
        have hatomic : ops.atomic (.plain x) g = (errno (-9), g) := by
          rw [atomic, plainAtomic, if_neg hdir]
          simp only [hio, hpio]
        exact ⟨_, _, h.answer hrun hatomic rfl rfl rfl rfl
          (fun hh => absurd hh Bool.false_ne_true) rfl rfl trivial⟩
  | loaded off =>
    obtain ⟨⟨hdir, hio, hpio, hseek⟩, hpos, rfl⟩ := ha
    obtain ⟨op, hop⟩ := Option.isSome_iff_exists.mp hpio
    obtain ⟨seek, hs⟩ := Option.isSome_iff_exists.mp hseek
    have halone := h.alone_of_inside hrun rfl
    simp only [plainStep, hop] at hstep
    obtain ⟨rfl, rfl⟩ := Prod.mk.inj (Option.some.inj hstep)
    -- the call takes effect with `pread`: the order moves the position at once
    rw [← h.content]
    have hatomic : ops.atomic (.plain x) g = ((op (ops.offset g.pos) g.content).1,
        if 0 < (op (ops.offset g.pos) g.content).1.num then
          { pos := (seek (op (ops.offset g.pos) g.content).1.num .cur
              ⟨g.pos, (op (ops.offset g.pos) g.content).2⟩).2
            content := (op (ops.offset g.pos) g.content).2 }
        else ⟨g.pos, (op (ops.offset g.pos) g.content).2⟩) := by
      rw [atomic, plainAtomic, if_neg (by rw [hdir]; exact Bool.false_ne_true)]
      simp only [hio, hop, hs]
    generalize op (ops.offset g.pos) g.content = r at hatomic ⊢
    by_cases hnum : 0 < r.1.num
    · rw [if_pos hnum] at hatomic ⊢
      refine ⟨_, _, h.effect hrun halone hatomic rfl rfl rfl rfl
        (fun hh => absurd hh Bool.false_ne_true) (fun hh => absurd hh.symm Bool.false_ne_true) ?_⟩
      refine ⟨hseek, fun seek' hs' => ?_⟩
      obtain rfl : seek = seek' := Option.some.inj (hs.symm.trans hs')
      simp only [withContent, hpos]
    · rw [if_neg hnum] at hatomic ⊢
      exact ⟨_, _, h.effect hrun halone hatomic rfl rfl rfl rfl
        (fun hh => absurd hh Bool.false_ne_true) (fun _ => hpos) trivial⟩
  | advance res =>
    obtain ⟨hseek, hpos⟩ := ha
    obtain ⟨seek, hs⟩ := Option.isSome_iff_exists.mp hseek
    simp only [plainStep, hs] at hstep
    obtain ⟨rfl, rfl⟩ := Prod.mk.inj (Option.some.inj hstep)
    exact ⟨_, _, h.move hrun (h.alone_of_inside hrun rfl) rfl rfl rfl
      (fun hh => absurd hh Bool.false_ne_true) (fun _ => hpos seek hs) trivial⟩
  | locked => cases hstep
  | saved old => cases hstep
  | moved old => cases hstep
  | back old res => cases hstep
  | unlock res => cases hstep
  | done res => cases hstep
  | crashed => cases hstep

lemma Ordered.lseek {off : ℤ} {whence : Whence} (hrun : s.running t = some (.lseek off whence, pc))
    (hfits : s.Fits ops t (.lseek off whence) pc)
    (hstep : ops.lseekStep off whence t s.shared pc = some (pc', shared)) : ∃ g' order',
      Ordered ops f { s.setRunning t (some (.lseek off whence, pc')) with shared := shared }
        g' order' := by
  have ha := h.agrees t _ _ hrun
  cases pc with
  | begin =>
    rw [lseekStep] at hstep
    by_cases hseek : ops.lseek.isSome = true
    · rw [if_pos hseek] at hstep
      exact ⟨_, _, h.acquire hrun hstep hseek⟩
    · rw [if_neg hseek] at hstep
      obtain ⟨rfl, rfl⟩ := Prod.mk.inj (Option.some.inj hstep)
      have hatomic : ops.atomic (.lseek off whence) g = (errno (-29), g) := by
        rw [Option.not_isSome_iff_eq_none] at hseek
        simp only [atomic, hseek]
      exact ⟨_, _, h.answer hrun hatomic rfl rfl rfl rfl
        (fun hh => absurd hh Bool.false_ne_true) rfl rfl trivial⟩
  | locked =>
    have halone := h.alone_of_uses hrun hfits rfl
    have hfile := h.file_eq hrun rfl halone
    obtain ⟨seek, hs⟩ := Option.isSome_iff_exists.mp ha
    simp only [lseekStep, hs] at hstep
    obtain ⟨rfl, rfl⟩ := Prod.mk.inj (Option.some.inj hstep)
    have hatomic : ops.atomic (.lseek off whence) g = (errno (seek off whence s.shared.file).1,
        { s.shared.file with pos := (seek off whence s.shared.file).2 }) := by
      simp only [atomic, hs, hfile]
    exact ⟨_, _, h.effect hrun halone hatomic rfl rfl rfl rfl (fun _ => rfl) (fun _ => rfl)
      trivial⟩
  | unlock res =>
    obtain ⟨rfl, rfl⟩ := Prod.mk.inj (Option.some.inj hstep)
    exact ⟨_, _, h.release hrun⟩
  | loaded off => cases hstep
  | advance res => cases hstep
  | saved old => cases hstep
  | moved old => cases hstep
  | back old res => cases hstep
  | done res => cases hstep
  | crashed => cases hstep

/-- `pread` and `pwrite` of the descriptor take effect beside a plain transfer that is inside. -/
lemma Ordered.native {checked : Bool} {x : Transfer} {off : ℤ}
    (hrun : s.running t = some (.positioned checked x off, .locked))
    {op : ℤ → C → IoRes × C} (hop : ops.pio x = some op) :
    Ordered ops f { s.setRunning t (some (.positioned checked x off,
        .unlock (op off s.shared.file.content).1)) with
      shared := withContent s.shared (op off s.shared.file.content).2 }
      { g with content := (op off s.shared.file.content).2 }
      (order ++ [(t, .positioned checked x off, (op off s.shared.file.content).1)]) := by
  have hmine := h.lock t _ _ hrun rfl
  have hserial := h.serial.effect t (.positioned checked x off)
  have hatomic : ops.atomic (.positioned checked x off) g =
      ((op off s.shared.file.content).1,
        { g with content := (op off s.shared.file.content).2 }) := by
    simp only [atomic, positionedAtomic, hop, h.content]
  rw [hatomic] at hserial
  refine h.next hrun hserial (h.calls_effect hrun rfl rfl) rfl (fun t' _ hl => hl) (fun _ => hmine)
    (fun hin => absurd hin Bool.false_ne_true) ?_ trivial ?_
  · intro _ halone
    rw [withContent, h.file_eq hrun rfl halone]
  · intro t' c'' pc'' hne hr hin ha
    cases hplain : isPlain c'' with
    | false =>
      exact absurd (h.holder_eq hrun hr rfl (holds_of_inside hplain hin ha)) hne
    | true =>
      cases c'' with
      | lseek off whence => cases hplain
      | positioned checked x off => cases hplain
      | plain x' =>
        cases pc'' with
        | loaded off => exact ha
        | advance res =>
          refine ⟨ha.1, fun seek hs => ?_⟩
          rw [← ha.2 seek hs]
          exact congrArg Prod.snd (ops.seek_cur seek hs res.num _ _ _)
        | begin => trivial
        | unlock res => trivial
        | done res => trivial
        | locked => cases hin
        | saved old => exact False.elim ha
        | moved old => exact False.elim ha
        | back old res => exact False.elim ha
        | crashed => cases hin

lemma Ordered.positioned {checked : Bool} {x : Transfer} {off : ℤ}
    (hrun : s.running t = some (.positioned checked x off, pc))
    (hfits : s.Fits ops t (.positioned checked x off) pc)
    (hstep : ops.positionedStep checked x off t s.shared pc = some (pc', shared)) : ∃ g' order',
      Ordered ops f { s.setRunning t (some (.positioned checked x off, pc')) with shared := shared }
        g' order' := by
  have ha := h.agrees t _ _ hrun
  cases pc with
  | begin => exact ⟨_, _, h.acquire hrun hstep trivial⟩
  | locked =>
    cases hpio : ops.pio x with
    | some op =>
      simp only [positionedStep, hpio] at hstep
      obtain ⟨rfl, rfl⟩ := Prod.mk.inj (Option.some.inj hstep)
      exact ⟨_, _, h.native hrun hpio⟩
    | none =>
      have huses : ops.usesPos (.positioned checked x off) .locked = true := by
        rw [usesPos, hpio]
        rfl
      have halone := h.alone_of_uses hrun hfits huses
      have hfile := h.file_eq hrun rfl halone
      simp only [positionedStep, hpio] at hstep
      by_cases hops : (ops.lseek.isSome && (ops.io x).isSome) = true
      · rw [hops, Bool.not_true, Bool.and_false, if_neg Bool.false_ne_true] at hstep
        obtain ⟨hseek, hio⟩ := Bool.and_eq_true_iff.mp hops
        obtain ⟨seek, hs⟩ := Option.isSome_iff_exists.mp hseek
        simp only [hs] at hstep
        obtain ⟨rfl, rfl⟩ := Prod.mk.inj (Option.some.inj hstep)
        have hmissing : ops.pread = none ∨ ops.pwrite = none := by
          cases x with
          | get size => exact .inl (Option.map_eq_none_iff.mp hpio)
          | put data => exact .inr (Option.map_eq_none_iff.mp hpio)
        have htell : 0 ≤ (seek 0 .cur s.shared.file).1 := hfits.tell hpio seek hs
        have hsame := (ops.seek_back hmissing seek hs _ s.shared.file htell).1
        refine ⟨_, _, h.move hrun halone rfl rfl rfl (fun _ => rfl)
          (fun hh => absurd hh.symm Bool.false_ne_true) ?_⟩
        refine ⟨⟨hpio, hseek, hio⟩, ?_, htell, fun seek' hs' f' => ?_⟩
        · rw [withPos, hsame, hfile]
        · obtain rfl : seek = seek' := Option.some.inj (hs.symm.trans hs')
          rw [hfile]
          exact (ops.seek_back hmissing seek hs _ f' htell).2
      · have hchecked : checked = true := by
          have hserves : (ops.pio x).isSome ∨ ops.lseek.isSome ∧ (ops.io x).isSome ∨
            checked = true := hfits.serves
          rw [hpio] at hserves
          rw [Bool.and_eq_true_iff] at hops
          obtain hno | hno | hyes := hserves
          · cases hno
          · exact absurd hno hops
          · exact hyes
        rw [hchecked, Bool.eq_false_of_not_eq_true hops, Bool.not_false, Bool.and_true,
          if_pos rfl] at hstep
        obtain ⟨rfl, rfl⟩ := Prod.mk.inj (Option.some.inj hstep)
        have hatomic : ops.atomic (.positioned checked x off) g = (errno (-29), g) := by
          rw [Bool.and_eq_true_iff] at hops
          simp only [atomic, positionedAtomic, hpio]
          cases hseek : ops.lseek with
          | none => rfl
          | some seek =>
            cases hio : ops.io x with
            | none => rfl
            | some op => exact absurd ⟨by rw [hseek]; rfl, by rw [hio]; rfl⟩ hops
        exact ⟨_, _, h.answer hrun hatomic rfl rfl rfl rfl (fun _ => rfl) rfl rfl trivial⟩
  | saved old =>
    obtain ⟨⟨hpio, hseek, hio⟩, hpos, htells⟩ := ha
    obtain ⟨seek, hs⟩ := Option.isSome_iff_exists.mp hseek
    obtain ⟨op, hop⟩ := Option.isSome_iff_exists.mp hio
    have halone := h.alone_of_inside hrun rfl
    have hfile : g = s.shared.file := by
      have hcontent := h.content
      cases g
      cases hf : s.shared.file
      rw [hf] at hpos hcontent
      simp only at hpos hcontent
      rw [hpos, hcontent]
    simp only [positionedStep, hs] at hstep
    obtain ⟨rfl, rfl⟩ := Prod.mk.inj (Option.some.inj hstep)
    by_cases hfail : (seek off .set s.shared.file).1 < 0
    · rw [if_pos hfail]
      have hatomic : ops.atomic (.positioned checked x off) g =
          (errno (seek off .set s.shared.file).1, g) := by
        simp only [atomic, positionedAtomic, hpio, hs, hop, hfile, if_pos hfail]
      have hkeeps : (seek off .set s.shared.file).2 = s.shared.file.pos :=
        hfits.keeps seek hs hfail
      refine ⟨_, _, h.effect hrun halone hatomic h.content rfl rfl rfl (fun _ => rfl) ?_ trivial⟩
      intro _
      rw [withPos, hkeeps, hpos]
    · rw [if_neg hfail]
      refine ⟨_, _, h.move hrun halone rfl rfl rfl (fun _ => rfl)
        (fun hh => absurd hh.symm Bool.false_ne_true) ?_⟩
      refine ⟨⟨hpio, hseek, hio⟩, htells, fun seek' hs' => ?_⟩
      obtain rfl : seek = seek' := Option.some.inj (hs.symm.trans hs')
      rw [hfile]
      exact ⟨hfail, rfl⟩
  | moved old =>
    obtain ⟨⟨hpio, hseek, hio⟩, htells, hmoved⟩ := ha
    obtain ⟨seek, hs⟩ := Option.isSome_iff_exists.mp hseek
    obtain ⟨op, hop⟩ := Option.isSome_iff_exists.mp hio
    have halone := h.alone_of_inside hrun rfl
    obtain ⟨hfail, hpos⟩ := hmoved seek hs
    have hfile : ({ g with pos := (seek off .set g).2 } : OpenFile P C) = s.shared.file := by
      rw [← hpos, h.content]
    simp only [positionedStep, hop] at hstep
    obtain ⟨rfl, rfl⟩ := Prod.mk.inj (Option.some.inj hstep)
    have hatomic : ops.atomic (.positioned checked x off) g =
        ((op s.shared.file).1, { (op s.shared.file).2 with pos := g.pos }) := by
      simp only [atomic, positionedAtomic, hpio, hs, hop, if_neg hfail, hfile]
    exact ⟨_, _, h.effect hrun halone hatomic rfl rfl rfl rfl (fun _ => rfl)
      (fun hh => absurd hh.symm Bool.false_ne_true) ⟨hseek, htells⟩⟩
  | back old res =>
    obtain ⟨hseek, hold, htells⟩ := ha
    obtain ⟨seek, hs⟩ := Option.isSome_iff_exists.mp hseek
    have hback := htells seek hs s.shared.file
    simp only [positionedStep, hs, hback, if_neg (not_lt.mpr hold)] at hstep
    obtain ⟨rfl, rfl⟩ := Prod.mk.inj (Option.some.inj hstep)
    exact ⟨_, _, h.move hrun (h.alone_of_inside hrun rfl) rfl rfl rfl (fun _ => rfl)
      (fun _ => rfl) trivial⟩
  | unlock res =>
    obtain ⟨rfl, rfl⟩ := Prod.mk.inj (Option.some.inj hstep)
    exact ⟨_, _, h.release hrun⟩
  | loaded off => cases hstep
  | advance res => cases hstep
  | done res => cases hstep
  | crashed => cases hstep

lemma Ordered.reset (hbefore : ∀ c pc, s.running t = some (c, pc) → inside pc = false)
    {r : Option (FdCall × FdPc)} (hr : ∀ c pc, r = some (c, pc) → pc = .begin)
    {returned : T → List (FdCall × IoRes)}
    (hcalls : ∀ t', callsOf t' order =
      returned t' ++ pendingOf (Function.update s.running t r t')) :
    Ordered ops f { s.setRunning t r with returned := returned } g order := by
  have hself : Function.update s.running t r t = r := Function.update_self t _ _
  have hother {t' : T} (hne : t' ≠ t) : Function.update s.running t r t' = s.running t' :=
    Function.update_of_ne hne _ _
  have hbegin {c : FdCall} {pc : FdPc} (hrun : Function.update s.running t r t = some (c, pc)) :
      pc = .begin := hr c pc (hself.symm.trans hrun)
  refine ⟨h.serial, hcalls, h.content, ?_, ?_, ?_, ?_⟩
  · intro t' c pc hrun hh
    by_cases hne : t' = t
    · subst hne
      rw [hbegin hrun] at hh
      exact absurd hh Bool.false_ne_true
    · exact h.lock t' c pc ((hother hne).symm.trans hrun) hh
  · intro t₁ t₂ c₁ c₂ pc₁ pc₂ hr₁ hr₂ hin₁ hin₂
    have hne₁ : t₁ ≠ t := by
      rintro rfl
      rw [hbegin hr₁] at hin₁
      exact Bool.false_ne_true hin₁
    have hne₂ : t₂ ≠ t := by
      rintro rfl
      rw [hbegin hr₂] at hin₂
      exact Bool.false_ne_true hin₂
    exact h.one t₁ t₂ c₁ c₂ pc₁ pc₂ ((hother hne₁).symm.trans hr₁) ((hother hne₂).symm.trans hr₂)
      hin₁ hin₂
  · intro hout
    refine h.pos fun t' c pc hrun => ?_
    by_cases hne : t' = t
    · subst hne
      exact hbefore c pc hrun
    · exact hout t' c pc ((hother hne).trans hrun)
  · intro t' c pc hrun
    by_cases hne : t' = t
    · subst hne
      rw [hbegin hrun]
      cases c <;> trivial
    · exact h.agrees t' c pc ((hother hne).symm.trans hrun)

lemma Ordered.step (hfits : ∀ c pc, s.running t = some (c, pc) → s.Fits ops t c pc)
    (hstep : FdStep ops s t s') : ∃ g' order', Ordered ops f s' g' order' := by
  cases hstep with
  | call c hidle =>
    refine ⟨_, _, h.reset (fun c pc hrun => ?_) (fun c' pc' hr => ?_) fun t' => ?_⟩
    · exact absurd (hidle.symm.trans hrun).symm (Option.some_ne_none _)
    · exact (Prod.mk.inj (Option.some.inj hr)).2.symm
    · rw [h.calls t']
      by_cases hne : t' = t
      · rw [hne, Function.update_self, hidle]
        rfl
      · rw [Function.update_of_ne hne]
  | @exec c pc pc' shared hrun hexec =>
    cases c with
    | plain x => exact h.plain hrun (hfits _ _ hrun) hexec
    | lseek off whence => exact h.lseek hrun (hfits _ _ hrun) hexec
    | positioned checked x off => exact h.positioned hrun (hfits _ _ hrun) hexec
  | @ret c res hrun =>
    refine ⟨_, _, h.reset (fun c' pc' hrun' => ?_) (fun c' pc' hr => ?_) fun t' => ?_⟩
    · rw [← (Prod.mk.inj (Option.some.inj (hrun.symm.trans hrun'))).2]
      rfl
    · exact absurd hr.symm (Option.some_ne_none _)
    · rw [h.calls t']
      by_cases hne : t' = t
      · rw [hne, Function.update_self, Function.update_self, hrun]
        exact (List.append_nil _).symm
      · rw [Function.update_of_ne hne, Function.update_of_ne hne]

end Steps

lemma FdRun.ordered (h : FdRun ops f s) : ∃ g order, Ordered ops f s g order := by
  induction h with
  | init => exact ⟨f, [], ordered_init⟩
  | step _ hfits hstep ih =>
    obtain ⟨g, order, hord⟩ := ih
    exact hord.step hfits hstep

lemma Ordered.serializable (h : Ordered ops f s g order) : s.Serializable ops f := by
  refine ⟨fun t c hrun => ?_, order, g, h.serial, fun t => ?_, h.content, fun hidle => ?_⟩
  · have ha := h.agrees t c _ hrun
    cases c <;> exact ha
  · refine ⟨_, h.calls t, ?_⟩
    cases hrun : s.running t with
    | none => exact .inl rfl
    | some r =>
      obtain ⟨c, pc⟩ := r
      cases pc with
      | advance res => exact .inr ⟨c, _, res, rfl, rfl⟩
      | back old res => exact .inr ⟨c, _, res, rfl, rfl⟩
      | unlock res => exact .inr ⟨c, _, res, rfl, rfl⟩
      | done res => exact .inr ⟨c, _, res, rfl, rfl⟩
      | begin => exact .inl rfl
      | loaded off => exact .inl rfl
      | locked => exact .inl rfl
      | saved old => exact .inl rfl
      | moved old => exact .inl rfl
      | crashed => exact .inl rfl
  · have hpos := h.pos fun t c pc hrun =>
      absurd ((hidle t).symm.trans hrun).symm (Option.some_ne_none _)
    have hcontent := h.content
    cases g
    cases hf : s.shared.file
    rw [hf] at hpos hcontent
    simp only at hpos hcontent
    rw [hpos, hcontent]

lemma positionedAtomic_pos (x : Transfer) (off : ℤ) (f : OpenFile P C) :
    (ops.positionedAtomic x off f).2.pos = f.pos := by
  unfold positionedAtomic
  split
  · rfl
  · split_ifs <;> rfl
  · rfl

end PositionedIo

/-- `tmpfs_write` at an offset: zeros up to there, and the data over what is there. -/
def overwriteAt (content : List UInt8) (p : ℕ) (data : List UInt8) : List UInt8 :=
  (content ++ List.replicate (p - content.length) 0).take p ++ data ++
    content.drop (p + data.length)

def tmpfsRead (size : ℕ) (f : OpenFile (BitVec 64) (List UInt8)) :
    IoRes × OpenFile (BitVec 64) (List UInt8) :=
  let data := (f.content.drop f.pos.toInt.toNat).take size
  (⟨data.length, data⟩, { f with pos := f.pos + BitVec.ofNat 64 data.length })

def tmpfsWrite (data : List UInt8) (f : OpenFile (BitVec 64) (List UInt8)) :
    IoRes × OpenFile (BitVec 64) (List UInt8) :=
  (⟨data.length, []⟩,
    ⟨f.pos + BitVec.ofNat 64 data.length, overwriteAt f.content f.pos.toInt.toNat data⟩)

/-- `tmpfs_lseek`: what it returns, and the position. -/
def tmpfsLseek (off : ℤ) (whence : Whence) (f : OpenFile (BitVec 64) (List UInt8)) :
    ℤ × BitVec 64 :=
  match genericSeek f.pos (BitVec.ofInt 64 off) f.content.length whence with
  | .ok p      => (p.toInt, p)
  | .error err => (err, f.pos)

lemma tmpfsLseek_back (f f' : OpenFile (BitVec 64) (List UInt8))
    (h : 0 ≤ (tmpfsLseek 0 .cur f).1) : (tmpfsLseek 0 .cur f).2 = f.pos ∧
      tmpfsLseek (tmpfsLseek 0 .cur f).1 .set f' = ((tmpfsLseek 0 .cur f).1, f.pos) := by
  by_cases hrange : f.pos.toInt + (BitVec.ofInt 64 0).toInt < 0 ∨
      2 ^ 63 ≤ f.pos.toInt + (BitVec.ofInt 64 0).toInt
  · have herr : tmpfsLseek 0 .cur f = (procEInval, f.pos) := by
      simp only [tmpfsLseek, genericSeek, if_pos hrange]
    rw [herr] at h
    have hneg : ¬ 0 ≤ procEInval := by decide
    exact absurd h hneg
  · have hok : tmpfsLseek 0 .cur f = (f.pos.toInt, f.pos) := by
      simp only [tmpfsLseek, genericSeek, if_neg hrange]
      simp
    rw [hok]
    refine ⟨rfl, ?_⟩
    simp only [tmpfsLseek, genericSeek, BitVec.ofInt_toInt]

/-- `tmpfs_fdops` -/
def tmpfsOps : FdOps (BitVec 64) (List UInt8) where
  isDir := false
  offset p := p.toInt
  read := some tmpfsRead
  write := some tmpfsWrite
  pread := none
  pwrite := none
  lseek := some tmpfsLseek
  seek_cur seek hs off p c c' := by
    obtain rfl := Option.some.inj hs
    rfl
  seek_back _ seek hs f f' h := by
    obtain rfl := Option.some.inj hs
    exact tmpfsLseek_back f f' h

def abc : OpenFile (BitVec 64) (List UInt8) := ⟨0, [97, 98, 99]⟩

end ShellBox
