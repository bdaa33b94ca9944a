import ShellBox.Fs.PathAccess

/-!
# The directories on the way

A resolution looks names up in one directory after the other. It asks for search permission where
a name has a slash behind it, which leaves out the directories it starts in and those above them
that `..` leads to.
-/

namespace ShellBox

namespace PathEnv

def unchecked (e : PathEnv) : PathEnv := e.withCred ⟨0, 0⟩

def Refuses (e : PathEnv) (d : CString) : Prop :=
  ∃ st, e.tree.stat d = some st ∧ accessCheck e.cred st acX = false

def nameCheck (e : PathEnv) (out q : CString) : List CString :=
  if (e.follow = true ∨ eatSlashes q ≠ []) ∧ q.head? = some '/' ∧ e.tree.readlink out = none ∧
      (e.tree.stat out).any PathStat.isDir = true then [out]
  else []

def stepChecks (e : PathEnv) (out : CString) (n : ℤ) (p : CString) : List CString :=
  if p = [] ∨ isDot p ∨ isDotDot p ∨ n < 2 then []
  else
    let r := copyName (n - 1) p
    if r.2.1 ≤ 0 then [] else e.nameCheck (out ++ '/' :: r.1) r.2.2

def stepLookups (out : CString) (_ : ℤ) (p : CString) : List CString := if p = [] then [] else [out]

def walkList (e : PathEnv) (f : CString → ℤ → CString → List CString)
    (again : CString → CString → CString → List CString) :
    ℕ → CString → ℤ → CString → List CString
  | 0, _, _, _ => []
  | fuel + 1, out, n, p =>
    f out n p ++
      match e.unchecked.walkStep out n p with
      | .ret _ => []
      | .link dir target rest => again dir target rest
      | .next out n p => walkList e f again fuel out n p

def listFrom (e : PathEnv) (f : CString → ℤ → CString → List CString) :
    ℕ → Option CString → CString → List CString
  | left, atPath, path =>
    let base := basePath atPath
    let again : CString → CString → CString → List CString := fun dir target rest =>
      match left with
      | 0 => []
      | left + 1 =>
        match e.expandLink dir target rest with
        | some (restartAt, expanded) => listFrom e f left restartAt expanded
        | none => []
    if path = [] then []
    else if base ≠ [] ∧ maxPath - 1 < base.length + 2 then []
    else e.walkList f again (path.length + 1) base (maxPath - 1 - base.length) (eatSlashes path)

def lookups (e : PathEnv) (atPath : Option CString) (path : CString) : List CString :=
  e.listFrom stepLookups 5 atPath path

def checks (e : PathEnv) (atPath : Option CString) (path : CString) : List CString :=
  e.listFrom e.stepChecks 5 atPath path

def again (e : PathEnv) (f : CString → ℤ → CString → List CString) :
    ℕ → CString → CString → CString → List CString
  | 0, _, _, _ => []
  | left + 1, dir, target, rest =>
    match e.expandLink dir target rest with
    | some (restartAt, expanded) => e.listFrom f left restartAt expanded
    | none => []

variable {e : PathEnv} {f : CString → ℤ → CString → List CString} {out p q : CString} {n : ℤ}

lemma listFrom_eq (e : PathEnv) (f : CString → ℤ → CString → List CString) (left : ℕ)
    (atPath : Option CString) (path : CString) :
    e.listFrom f left atPath path =
      if path = [] then []
      else if basePath atPath ≠ [] ∧ maxPath - 1 < (basePath atPath).length + 2 then []
      else e.walkList f (e.again f left) (path.length + 1) (basePath atPath)
        (maxPath - 1 - (basePath atPath).length) (eatSlashes path) := by
  rw [listFrom.eq_def]
  cases left <;> rfl

@[simp] lemma unchecked_tree (e : PathEnv) : e.unchecked.tree = e.tree := rfl

@[simp] lemma unchecked_rootPath (e : PathEnv) : e.unchecked.rootPath = e.rootPath := rfl

@[simp] lemma unchecked_follow (e : PathEnv) : e.unchecked.follow = e.follow := rfl

lemma accessCheck_unchecked (e : PathEnv) (st : PathStat) (check : ℕ) :
    accessCheck e.unchecked.cred st check = true := accessCheck_superuser rfl st check

/-! ### The check of a round -/

lemma pastName_eq (e : PathEnv) (out out' : CString) (n : ℤ) (q : CString) :
    (∀ d ∈ e.nameCheck out' q, ¬ e.Refuses d) ∧
        e.pastName out out' n q = e.unchecked.pastName out out' n q ∨
      (∃ d ∈ e.nameCheck out' q, e.Refuses d) ∧
        e.pastName out out' n q = .ret (.err .eacces) := by
  unfold pastName nameCheck
  simp only [unchecked_follow]
  by_cases hlook : e.follow = true ∨ eatSlashes q ≠ []
  · simp only [hlook, if_true, true_and]
    unfold checkName
    simp only [unchecked_tree]
    cases hlink : e.tree.readlink out' with
    | some target => exact .inl ⟨by simp, rfl⟩
    | none =>
      by_cases hslash : q.head? = some '/'
      · simp only [hslash, decide_true, if_true, true_and]
        cases hst : e.tree.stat out' with
        | none => exact .inl ⟨by simp, rfl⟩
        | some st =>
          by_cases hdir : st.isDir = true
          · have hrefuses : e.Refuses out' ↔ accessCheck e.cred st acX = false := by
              simp [Refuses, hst]
            cases hacc : accessCheck e.cred st acX with
            | true => exact .inl ⟨by simp [hdir, hrefuses, hacc], by
                simp [hdir, hacc, accessCheck_unchecked]⟩
            | false => exact .inr ⟨by simp [hdir, hrefuses, hacc], by simp [hdir, hacc]⟩
          · exact .inl ⟨by simp [hdir], by simp [hdir]⟩
      · exact .inl ⟨by simp [hslash], by simp [hslash]⟩
  · exact .inl ⟨by simp [hlook], by simp [hlook]⟩

lemma walkStep_eq (e : PathEnv) (out : CString) (n : ℤ) (p : CString) :
    (∀ d ∈ e.stepChecks out n p, ¬ e.Refuses d) ∧
        e.walkStep out n p = e.unchecked.walkStep out n p ∨
      (∃ d ∈ e.stepChecks out n p, e.Refuses d) ∧
        e.walkStep out n p = .ret (.err .eacces) := by
  unfold walkStep stepChecks
  simp only [unchecked_rootPath]
  by_cases hnil : p = []
  · exact .inl ⟨by simp [hnil], by simp [hnil]⟩
  by_cases hdot : isDot p = true
  · exact .inl ⟨by simp [hdot], by simp [hnil, hdot]⟩
  by_cases hdots : isDotDot p = true
  · exact .inl ⟨by simp [hdots], by simp only [hnil, hdot, hdots, if_true, if_false, Bool.false_eq_true]; rfl⟩
  by_cases hsmall : n < 2
  · exact .inl ⟨by simp [hsmall], by simp [hnil, hdot, hdots, hsmall]⟩
  simp only [hnil, hdot, hdots, hsmall, if_false]
  by_cases hfull : (copyName (n - 1) p).2.1 ≤ 0
  · exact .inl ⟨by simp [hfull], by simp [hfull]⟩
  simp only [hfull, if_false]
  exact pastName_eq e out _ _ _

lemma checkName_unchecked (e : PathEnv) (out : CString) (slash : Bool) :
    e.unchecked.checkName out slash ≠ .err .eacces := by
  unfold checkName
  split
  · simp
  · split_ifs
    · split
      · split_ifs with hdir hacc
        · simp
        · exact absurd (accessCheck_unchecked e _ acX) hacc
        · simp
      · simp
    · simp

lemma walkStep_unchecked (e : PathEnv) (out : CString) (n : ℤ) (p : CString) :
    e.unchecked.walkStep out n p ≠ .ret (.err .eacces) := by
  have hpast (out' : CString) (m : ℤ) (q : CString) :
      e.unchecked.pastName out out' m q ≠ .ret (.err .eacces) := by
    unfold pastName
    simp only
    split_ifs
    · cases hcheck : e.unchecked.checkName out' (q.head? = some '/') with
      | link target => simp
      | go => simp
      | err er =>
        intro heq
        obtain rfl : er = .eacces := by simpa using heq
        exact checkName_unchecked e _ _ hcheck
    · simp
  unfold walkStep
  split_ifs
  any_goals simp
  split_ifs
  · simp
  · exact hpast _ _ _

/-! ### Whole resolutions -/

/-- What is refused is refused at one of the directories, and without that the caller gets what one
gets that may search everything. -/
structure Follows (e : PathEnv) (dirs : List CString) (r r' : PathResult) : Prop where
  refused : (∃ d ∈ dirs, e.Refuses d) → r = .err .eacces
  eq : (∀ d ∈ dirs, ¬ e.Refuses d) → r = r'
  searched : r' ≠ .err .eacces

lemma follows_nil {r : PathResult} (hr : r ≠ .err .eacces) : e.Follows [] r r := by
  refine ⟨?_, fun _ => rfl, hr⟩
  rintro ⟨d, hd, -⟩
  cases hd

lemma Follows.append {dirs more : List CString} {r r' : PathResult} (h : e.Follows more r r')
    (hall : ∀ d ∈ dirs, ¬ e.Refuses d) : e.Follows (dirs ++ more) r r' := by
  refine ⟨?_, fun hno => h.eq fun d hd => hno d (List.mem_append_right _ hd), h.searched⟩
  rintro ⟨d, hd, hr⟩
  exact h.refused ⟨d, (List.mem_append.1 hd).resolve_left fun hd => hall d hd hr, hr⟩

lemma follows_of_refused {dirs more : List CString} {r' : PathResult}
    (hex : ∃ d ∈ dirs, e.Refuses d) (hr : r' ≠ .err .eacces) :
    e.Follows (dirs ++ more) (.err .eacces) r' := by
  obtain ⟨d, hd, hrefuses⟩ := hex
  exact ⟨fun _ => rfl, fun hno => absurd hrefuses (hno d (List.mem_append_left _ hd)), hr⟩

lemma walk_follows {restart restart' : CString → CString → CString → PathResult}
    {again : CString → CString → CString → List CString}
    (h : ∀ dir target rest, e.Follows (again dir target rest) (restart dir target rest)
      (restart' dir target rest)) (fuel : ℕ) (out : CString) (n : ℤ) (p : CString) :
    e.Follows (e.walkList e.stepChecks again fuel out n p) (e.walk restart fuel out n p)
      (e.unchecked.walk restart' fuel out n p) := by
  induction fuel generalizing out n p with
  | zero => exact follows_nil (by simp [walk])
  | succ fuel ih =>
    rw [walkList, walk, walk]
    have hfree := walkStep_unchecked e out n p
    have hstep := walkStep_eq e out n p
    cases hu : e.unchecked.walkStep out n p with
    | ret r =>
      rw [hu] at hfree hstep
      have hr : r ≠ .err .eacces := by simpa using hfree
      obtain ⟨hall, heq⟩ | ⟨hex, heq⟩ := hstep
      · rw [heq]
        exact (follows_nil hr).append hall
      · rw [heq]
        exact follows_of_refused hex hr
    | link dir target rest =>
      rw [hu] at hstep
      obtain ⟨hall, heq⟩ | ⟨hex, heq⟩ := hstep
      · rw [heq]
        exact (h dir target rest).append hall
      · rw [heq]
        exact follows_of_refused hex (h dir target rest).searched
    | next out' n' p' =>
      rw [hu] at hstep
      obtain ⟨hall, heq⟩ | ⟨hex, heq⟩ := hstep
      · rw [heq]
        exact (ih out' n' p').append hall
      · rw [heq]
        exact follows_of_refused hex (ih out' n' p').searched

lemma pathNormalizeFrom_follows (e : PathEnv) (left : ℕ) (atPath : Option CString)
    (path : CString) :
    e.Follows (e.listFrom e.stepChecks left atPath path) (e.pathNormalizeFrom left atPath path)
      (e.unchecked.pathNormalizeFrom left atPath path) := by
  induction left using Nat.strong_induction_on generalizing atPath path with
  | _ left ih =>
    rw [listFrom_eq, pathNormalizeFrom_eq, pathNormalizeFrom_eq]
    split_ifs
    · exact follows_nil (by simp)
    · exact follows_nil (by simp)
    · refine walk_follows (fun dir target rest => ?_) _ _ _ _
      cases left with
      | zero => exact follows_nil (by simp [restart])
      | succ left =>
        have hexp : e.unchecked.expandLink dir target rest = e.expandLink dir target rest := rfl
        rw [again, restart, restart, hexp]
        cases e.expandLink dir target rest with
        | none => exact follows_nil (by simp)
        | some r => exact ih left (Nat.lt_succ_self left) _ _

/-- A resolution is refused for want of permission at the directories it checks only. -/
theorem pathNormalize_eq_eacces_iff (e : PathEnv) (atPath : Option CString) (path : CString) :
    e.pathNormalize atPath path = .err .eacces ↔ ∃ d ∈ e.checks atPath path, e.Refuses d := by
  obtain ⟨hrefused, hsame, hsearch⟩ := pathNormalizeFrom_follows e 5 atPath path
  refine ⟨fun h => ?_, hrefused⟩
  by_contra hno
  have heq := hsame fun d hd hr => hno ⟨d, hd, hr⟩
  rw [← heq] at hsearch
  exact hsearch h

/-! ### What is not checked -/

/-- The directory is `base`, or `..` leads to it from there. -/
def Above (base d : CString) : Prop := ∃ j, d = popName^[j] base

/-- The directory itself and those that `..` leads to. -/
def AllAbove (Good : CString → Prop) (out : CString) : Prop := ∀ j, Good (popName^[j] out)

lemma AllAbove.pop {Good : CString → Prop} (h : AllAbove Good out) :
    AllAbove Good (popName out) := fun j => h (j + 1)

lemma AllAbove.name {Good : CString → Prop} (h : AllAbove Good out) {c : CString} (hc : IsName c)
    (hgood : Good (out ++ '/' :: c)) : AllAbove Good (out ++ '/' :: c) := by
  intro j
  cases j with
  | zero => exact hgood
  | succ j =>
    rw [Function.iterate_succ_apply, popName_append hc.slash]
    exact h j

lemma mem_stepChecks {c tail : CString} {n' : ℤ} (hc : IsName c) (hend : endsName tail = true)
    (hn : (c.length : ℤ) + 1 < n) (htail : eatSlashes tail ≠ []) {st : PathStat}
    (hst : e.tree.stat (out ++ '/' :: c) = some st)
    (hstep : e.unchecked.walkStep out n (c ++ tail) =
      .next (out ++ '/' :: c) n' (eatSlashes tail)) :
    out ++ '/' :: c ∈ e.stepChecks out n (c ++ tail) := by
  have hslash : tail.head? = some '/' := by
    obtain rfl | ⟨q, rfl⟩ := endsName_iff.1 hend
    · exact absurd rfl htail
    · rfl
  have hroom : ¬ n - 1 - (c.length : ℤ) ≤ 0 := by omega
  have hsmall : ¬ n < 2 := by omega
  have hcopy := copyName_append (n := n - 1) hc.slash hend (by omega)
  rw [e.unchecked.walkStep_name hc hend hn, pastName] at hstep
  simp only [htail, ne_eq, not_false_eq_true, or_true, if_true, hslash, decide_true, checkName,
    unchecked_tree, hst] at hstep
  cases hlink : e.tree.readlink (out ++ '/' :: c) with
  | some target => simp [hlink] at hstep
  | none =>
    have hdir : st.isDir = true := by
      by_contra hno
      simp [hlink, hno] at hstep
    have hnil : ¬ (c ++ tail = [] ∨ isDot (c ++ tail) = true ∨ isDotDot (c ++ tail) = true ∨
        n < 2) := by
      simp only [List.append_eq_nil_iff, hc.ne_nil, hc.not_isDot hend, hc.not_isDotDot hend,
        hsmall, false_and, Bool.false_eq_true, or_self, not_false_eq_true]
    rw [stepChecks, if_neg hnil, hcopy]
    simp only
    rw [if_neg hroom, nameCheck, if_pos]
    · exact List.mem_singleton_self _
    · exact ⟨.inr htail, hslash, hlink, by simp [hst, hdir]⟩

lemma walk_lookups {Good : CString → Prop}
    {again again' : CString → CString → CString → List CString}
    (hagain : ∀ dir target rest, (∀ d ∈ again' dir target rest, Good d) →
      ∀ d ∈ again dir target rest, Good d)
    (hnone : ∀ d, e.tree.stat d = none → Good d) (fuel : ℕ) (hp : p.head? ≠ some '/')
    (hout : AllAbove Good out)
    (hchecks : ∀ d ∈ e.walkList e.stepChecks again' fuel out n p, Good d) :
    ∀ d ∈ e.walkList stepLookups again fuel out n p, Good d := by
  induction fuel generalizing out n p with
  | zero => simp [walkList]
  | succ fuel ih =>
    rw [walkList] at hchecks ⊢
    have hhere : ∀ d ∈ stepLookups out n p, Good d := by
      intro d hd
      unfold stepLookups at hd
      split_ifs at hd
      · cases hd
      · obtain rfl := List.mem_singleton.1 hd
        exact hout 0
    have hcases := e.unchecked.walkStep_cases out n hp
    generalize hstep : e.unchecked.walkStep out n p = step at hchecks hcases ⊢
    intro d hd
    obtain hd | hd := List.mem_append.1 hd
    · exact hhere d hd
    have hrest := fun d hd => hchecks d (List.mem_append_right _ hd)
    cases hcases with
    | done hnil => cases hd
    | err er => cases hd
    | dot p' hlen hp' => exact ih hp' hout hrest d hd
    | dotDot p' hlen hp' hne hfloor => exact ih hp' hout.pop hrest d hd
    | link c tail target hc hend hsplit hn hlink => exact hagain _ _ _ hrest d hd
    | name c tail hc hend hsplit hn =>
      by_cases htail : eatSlashes tail = []
      · -- Nothing is looked up behind the last name.
        rw [htail] at hd
        cases fuel with
        | zero => cases hd
        | succ fuel => simp [walkList, stepLookups, walkStep] at hd
      · refine ih (head_eatSlashes tail) (hout.name hc ?_) hrest d hd
        cases hst : e.tree.stat (out ++ '/' :: c) with
        | none => exact hnone _ hst
        | some st =>
          refine hchecks _ (List.mem_append_left _ ?_)
          rw [hsplit] at hstep ⊢
          exact mem_stepChecks hc hend hn htail hst hstep

lemma listFrom_lookups {left : ℕ} {atPath : Option CString} {path d : CString}
    (hd : d ∈ e.listFrom stepLookups left atPath path) :
    e.tree.stat d = none ∨ d ∈ e.listFrom e.stepChecks left atPath path ∨
      Above (basePath atPath) d ∨ Above (basePath (some e.rootPath)) d ∨ Above [] d := by
  suffices h : ∀ Good : CString → Prop, (∀ d, e.tree.stat d = none → Good d) →
      (∀ d ∈ e.listFrom e.stepChecks left atPath path, Good d) → AllAbove Good (basePath atPath) →
      AllAbove Good (basePath (some e.rootPath)) → AllAbove Good [] →
      ∀ d ∈ e.listFrom stepLookups left atPath path, Good d by
    refine h (fun d => e.tree.stat d = none ∨ d ∈ e.listFrom e.stepChecks left atPath path ∨
      Above (basePath atPath) d ∨ Above (basePath (some e.rootPath)) d ∨ Above [] d)
      ?_ ?_ ?_ ?_ ?_ d hd
    · exact fun d hd => .inl hd
    · exact fun d hd => .inr (.inl hd)
    · exact fun j => .inr (.inr (.inl ⟨j, rfl⟩))
    · exact fun j => .inr (.inr (.inr (.inl ⟨j, rfl⟩)))
    · exact fun j => .inr (.inr (.inr (.inr ⟨j, rfl⟩)))
  clear hd d
  intro Good hnone
  induction left using Nat.strong_induction_on generalizing atPath path with
  | _ left ih =>
    intro hchecks hbase hroot hmachine
    rw [listFrom_eq] at hchecks ⊢
    split_ifs at hchecks ⊢
    · simp
    · simp
    · refine walk_lookups (fun dir target rest hagain => ?_) hnone _ (head_eatSlashes path) hbase
        hchecks
      cases left with
      | zero => simp [again]
      | succ left =>
        rw [again] at hagain ⊢
        cases hexp : e.expandLink dir target rest with
        | none => simp
        | some r =>
          rw [hexp] at hagain
          refine ih left (Nat.lt_succ_self left) hagain ?_ hroot hmachine
          simp only [expandLink] at hexp
          split_ifs at hexp
          all_goals
            obtain rfl := Option.some.inj hexp
            first | exact hroot | exact hmachine

theorem lookups_checked {atPath : Option CString} {path d : CString}
    (hd : d ∈ e.lookups atPath path) : e.tree.stat d = none ∨ d ∈ e.checks atPath path ∨
      Above (basePath atPath) d ∨ Above (basePath (some e.rootPath)) d ∨ Above [] d :=
  listFrom_lookups hd

end PathEnv

end ShellBox
