import ShellBox.Fs.Path

/-!
# What a resolution depends on

Every resolution comes to an end, and its result fits its buffer. Whoever may search more
directories gets every result that another caller gets. A caller that may search all of them gets
the same result wherever a text is split into a starting directory and a path, because reading the
path of a directory leads to that directory.
-/

namespace ShellBox

namespace PathEnv

variable {e : PathEnv} {restart : CString → CString → CString → PathResult} {out p r : CString}
  {n : ℤ}

/-! ### The loop ends, and what it returns fits -/

lemma length_tail_lt {c tail : CString} (hc : IsName c) (hp : p = c ++ tail) :
    (eatSlashes tail).length < p.length := by
  have hpos := List.length_pos_iff.2 hc.ne_nil
  have hle := length_eatSlashes tail
  rw [hp, List.length_append]
  omega

lemma walk_fuel {fuel : ℕ} (fuel' : ℕ) (hp : p.head? ≠ some '/') (h : p.length < fuel)
    (h' : p.length < fuel') : e.walk restart fuel out n p = e.walk restart fuel' out n p := by
  induction fuel generalizing fuel' out n p with
  | zero => exact absurd h (Nat.not_lt_zero _)
  | succ fuel ih =>
    cases fuel' with
    | zero => exact absurd h' (Nat.not_lt_zero _)
    | succ fuel' =>
      rw [walk, walk]
      have hcases := e.walkStep_cases out n hp
      generalize e.walkStep out n p = step at hcases
      cases hcases with
      | done hnil => rfl
      | err er => rfl
      | dot p' hlen hp' => exact ih _ hp' (by omega) (by omega)
      | dotDot p' hlen hp' hne hfloor => exact ih _ hp' (by omega) (by omega)
      | name c tail hc hend hsplit hn =>
        have hlen := length_tail_lt hc hsplit
        exact ih _ (head_eatSlashes tail) (by omega) (by omega)
      | link c tail target hc hend hsplit hn hlink => rfl

lemma walk_ne_outOfFuel (hrestart : ∀ dir target rest, restart dir target rest ≠ .outOfFuel)
    {fuel : ℕ} (hp : p.head? ≠ some '/') (h : p.length < fuel) :
    e.walk restart fuel out n p ≠ .outOfFuel := by
  induction fuel generalizing out n p with
  | zero => exact absurd h (Nat.not_lt_zero _)
  | succ fuel ih =>
    rw [walk]
    have hcases := e.walkStep_cases out n hp
    generalize e.walkStep out n p = step at hcases
    cases hcases with
    | done hnil => simp
    | err er => simp
    | dot p' hlen hp' => exact ih hp' (by omega)
    | dotDot p' hlen hp' hne hfloor => exact ih hp' (by omega)
    | name c tail hc hend hsplit hn =>
      have hlen := length_tail_lt hc hsplit
      exact ih (head_eatSlashes tail) (by omega)
    | link c tail target hc hend hsplit hn hlink => exact hrestart _ _ _

lemma ne_outOfFuel_of_restart {left : ℕ}
    (hrestart : ∀ dir target rest, e.restart left dir target rest ≠ .outOfFuel)
    (atPath : Option CString) (path : CString) :
    e.pathNormalizeFrom left atPath path ≠ .outOfFuel := by
  rw [pathNormalizeFrom_eq]
  split_ifs
  · simp
  · simp
  · exact walk_ne_outOfFuel hrestart (head_eatSlashes path)
      (Nat.lt_succ_of_le (length_eatSlashes path))

lemma length_popName (out : CString) : (popName out).length ≤ out.length := by
  have hdrop := List.Sublist.length_le (List.dropWhile_sublist (l := out.reverse) (· ≠ '/'))
  simp only [popName, List.length_reverse, List.length_drop] at hdrop ⊢
  omega

lemma walk_length (hrestart : ∀ {dir target rest r}, restart dir target rest = .ok r →
      r.length < maxPath - 1) {fuel : ℕ} (hn : Room out n) (hp : p.head? ≠ some '/')
    (h : e.walk restart fuel out n p = .ok r) : r.length < maxPath - 1 := by
  induction fuel generalizing out n p with
  | zero => cases h
  | succ fuel ih =>
    rw [walk] at h
    have hcases := e.walkStep_cases out n hp
    generalize e.walkStep out n p = step at h hcases
    obtain ⟨hlen, hpos⟩ := hn
    cases hcases with
    | done hnil =>
      rw [← PathResult.ok.inj h]
      omega
    | err er => cases h
    | dot p' _ hp' => exact ih ⟨hlen, hpos⟩ hp' h
    | dotDot p' _ hp' hne hfloor =>
      have hle := length_popName out
      refine ih ⟨?_, ?_⟩ hp' h <;> omega
    | name c tail hc hend hsplit hroom =>
      refine ih ⟨?_, ?_⟩ (head_eatSlashes tail) h
      · simp only [List.length_append, List.length_cons, Nat.cast_add, Nat.cast_one]
        omega
      · omega
    | link c tail target hc hend hsplit hroom hlink => exact hrestart h

theorem length_pathNormalizeFrom {left : ℕ} {atPath : Option CString} {path : CString}
    (h : e.pathNormalizeFrom left atPath path = .ok r) : r.length < maxPath - 1 := by
  induction left using Nat.strong_induction_on generalizing atPath path r with
  | _ left ih =>
    obtain ⟨-, hroom, hwalk⟩ := pathNormalizeFrom_ok h
    refine walk_length ?_ hroom (head_eatSlashes path) hwalk
    intro dir target rest r hr
    obtain ⟨left', restartAt, expanded, rfl, -, hrec⟩ := restart_ok hr
    exact ih left' (Nat.lt_succ_self _) hrec

/-! ### Access rights -/

def withCred (e : PathEnv) (cred : PathCred) : PathEnv := { e with cred := cred }

variable {cred : PathCred}

lemma checkName_mono (hacc : ∀ st, accessCheck e.cred st acX = true → accessCheck cred st acX = true)
    (out : CString) (slash : Bool) : (∃ er, e.checkName out slash = .err er) ∨
      (e.withCred cred).checkName out slash = e.checkName out slash := by
  unfold checkName withCred
  cases e.tree.readlink out with
  | some target => exact Or.inr rfl
  | none =>
    cases slash with
    | false => exact Or.inr rfl
    | true =>
      cases hst : e.tree.stat out with
      | none => exact Or.inr (by simp)
      | some st =>
        by_cases hdir : st.isDir = true
        · by_cases ha : accessCheck e.cred st acX = true
          · exact Or.inr (by simp [hdir, ha, hacc st ha])
          · exact Or.inl ⟨.eacces, by simp [hdir, ha]⟩
        · exact Or.inl ⟨.enotdir, by simp [hdir]⟩

lemma walkStep_mono (hacc : ∀ st, accessCheck e.cred st acX = true → accessCheck cred st acX = true)
    (out : CString) (n : ℤ) (p : CString) : (∃ er, e.walkStep out n p = .ret (.err er)) ∨
      (e.withCred cred).walkStep out n p = e.walkStep out n p := by
  have hpast : ∀ out' m q, (∃ er, e.pastName out out' m q = .ret (.err er)) ∨
      (e.withCred cred).pastName out out' m q = e.pastName out out' m q := by
    intro out' m q
    unfold pastName
    rcases checkName_mono hacc out' (q.head? = some '/') with ⟨er, her⟩ | heq
    · by_cases hlook : e.follow = true ∨ eatSlashes q ≠ []
      · exact Or.inl ⟨er, by simp only [hlook, if_true, her]⟩
      · exact Or.inr (by simp only [withCred, hlook, if_false])
    · exact Or.inr (by rw [heq]; rfl)
  have hroot : (e.withCred cred).rootPath = e.rootPath := rfl
  unfold walkStep
  rw [hroot]
  split_ifs
  · exact Or.inr rfl
  · exact Or.inr rfl
  · exact Or.inr rfl
  · exact Or.inr rfl
  · exact Or.inr rfl
  · simp only
    split_ifs
    · exact Or.inr rfl
    · exact hpast _ _ _

lemma walk_mono (hacc : ∀ st, accessCheck e.cred st acX = true → accessCheck cred st acX = true)
    {restart' : CString → CString → CString → PathResult}
    (hrestart : ∀ {dir target rest r}, restart dir target rest = .ok r →
      restart' dir target rest = .ok r) {fuel : ℕ}
    (h : e.walk restart fuel out n p = .ok r) :
    (e.withCred cred).walk restart' fuel out n p = .ok r := by
  induction fuel generalizing out n p with
  | zero => cases h
  | succ fuel ih =>
    rw [walk] at h ⊢
    rcases walkStep_mono hacc out n p with ⟨er, her⟩ | heq
    · rw [her] at h
      cases h
    · rw [heq]
      cases hstep : e.walkStep out n p with
      | ret r' =>
        rw [hstep] at h
        exact h
      | link dir target rest =>
        rw [hstep] at h
        exact hrestart h
      | next out' n' p' =>
        rw [hstep] at h
        exact ih h

/-- Whoever may search more gets every result that another one gets. -/
theorem pathNormalizeFrom_mono
    (hacc : ∀ st, accessCheck e.cred st acX = true → accessCheck cred st acX = true) {left : ℕ}
    {atPath : Option CString} {path : CString} (h : e.pathNormalizeFrom left atPath path = .ok r) :
    (e.withCred cred).pathNormalizeFrom left atPath path = .ok r := by
  induction left using Nat.strong_induction_on generalizing atPath path r with
  | _ left ih =>
    rw [pathNormalizeFrom_eq] at h ⊢
    split_ifs at h ⊢
    refine walk_mono hacc ?_ h
    intro dir target rest r hr
    obtain ⟨left', restartAt, expanded, rfl, hexp, hrec⟩ := restart_ok hr
    have hexp' : (e.withCred cred).expandLink dir target rest = some (restartAt, expanded) := hexp
    rw [restart, hexp']
    exact ih left' (Nat.lt_succ_self _) hrec

lemma accessCheck_superuser (hs : cred.superuser = true) (st : PathStat) (check : ℕ) :
    accessCheck cred st check = true := by
  simp [accessCheck, hs]

/-! ### Reading the path of a directory -/

variable {d : Directory e.tree}

lemma pastName_superuser (hs : e.cred.superuser = true) {done more : List CString} {c : CString}
    (hd : d.names = done ++ c :: more) (out tail : CString) (n : ℤ) :
    e.pastName out (joinPath done ++ '/' :: c) n tail =
      .next (joinPath done ++ '/' :: c) n (eatSlashes tail) := by
  have hsplit : d.names = (done ++ [c]) ++ more := by simp [hd]
  have hlink : e.tree.readlink (joinPath done ++ '/' :: c) = none := by
    rw [← joinPath_concat]
    exact d.readlink_prefix hsplit
  have hcheck : ∀ slash, e.checkName (joinPath done ++ '/' :: c) slash = .go := by
    intro slash
    unfold checkName
    rw [hlink]
    cases slash with
    | false => rfl
    | true =>
      cases hst : e.tree.stat (joinPath done ++ '/' :: c) with
      | none => rfl
      | some st =>
        have hdir : st.isDir = true := by
          unfold FileTree.stat at hst
          split at hst
          case h_1 st' hnd =>
            rw [← joinPath_concat] at hnd
            rw [← Option.some.inj hst]
            exact d.isDir_prefix hsplit hnd
          case h_2 => cases hst
        simp [hdir, accessCheck_superuser hs]
  unfold pastName
  simp only [hcheck, ite_self]

lemma walk_directory (hs : e.cred.superuser = true) {done more : List CString} {tail : CString}
    (hd : d.names = done ++ more) (hroom : (joinPath d.names).length < maxPath - 1)
    (hend : endsName tail = true) (fuel : ℕ) :
    e.walk restart (fuel + more.length) (joinPath done) (maxPath - 1 - (joinPath done).length)
        (eatSlashes (joinPath more ++ tail)) =
      e.walk restart fuel (joinPath d.names) (maxPath - 1 - (joinPath d.names).length)
        (eatSlashes tail) := by
  induction more generalizing done with
  | nil => simp [hd]
  | cons c more ih =>
    have hc : IsName c := d.isName c (by simp [hd])
    have hrest : endsName (joinPath more ++ tail) = true := endsName_joinPath more hend
    have heat : eatSlashes (joinPath (c :: more) ++ tail) = c ++ (joinPath more ++ tail) := by
      rw [joinPath_cons, List.cons_append, List.cons_append, eatSlashes_slash, List.append_assoc]
      exact eatSlashes_of_ne (hc.head _)
    have hlen : (joinPath d.names).length =
        (joinPath done).length + (c.length + 1) + (joinPath more).length := by
      simp [hd]
      omega
    have hn : (c.length : ℤ) + 1 < maxPath - 1 - (joinPath done).length := by
      have hmax : maxPath = 4096 := rfl
      omega
    rw [heat, List.length_cons, ← Nat.add_assoc, walk, e.walkStep_name hc hrest hn,
      pastName_superuser hs hd]
    simp only
    have hih := ih (show d.names = (done ++ [c]) ++ more by simp [hd])
    rw [joinPath_concat] at hih
    rw [← hih]
    congr 1
    simp only [List.length_append, List.length_cons, Nat.cast_add, Nat.cast_one]
    omega

lemma pathNormalizeFrom_split (hs : e.cred.superuser = true) {d d' : Directory e.tree}
    (more : List CString) {path path' : CString} (hd : d'.names = d.names ++ more)
    (heat : eatSlashes path = eatSlashes (joinPath more ++ '/' :: path')) (hpath : path ≠ [])
    (hpath' : path' ≠ []) (hfit : (joinPath d'.names).length + 2 ≤ maxPath - 1) (left : ℕ) :
    e.pathNormalizeFrom left (some d.path) path = e.pathNormalizeFrom left (some d'.path) path' := by
  have hle : (joinPath d.names).length ≤ (joinPath d'.names).length := by
    rw [hd, joinPath_append, List.length_append]
    exact Nat.le_add_right _ _
  have hfull : ¬ (joinPath d.names ≠ [] ∧ maxPath - 1 < (joinPath d.names).length + 2) := by
    rintro ⟨-, hlt⟩
    omega
  have hfull' : ¬ (joinPath d'.names ≠ [] ∧ maxPath - 1 < (joinPath d'.names).length + 2) := by
    rintro ⟨-, hlt⟩
    omega
  have hread : e.walk (e.restart left) (path.length + path'.length + 1 + more.length) _ _ _ = _ :=
    walk_directory hs hd (by omega) (endsName_slash path') (path.length + path'.length + 1)
  rw [pathNormalizeFrom_eq, pathNormalizeFrom_eq, d.basePath_path, d'.basePath_path, if_neg hpath,
    if_neg hpath', if_neg hfull, if_neg hfull']
  rw [← heat, eatSlashes_slash] at hread
  have hlen := length_eatSlashes path
  have hlen' := length_eatSlashes path'
  rw [walk_fuel (path.length + path'.length + 1 + more.length) (head_eatSlashes path)
    (by omega) (by omega), hread]
  exact walk_fuel _ (head_eatSlashes path') (by omega) (by omega)

end PathEnv

/-! ### Texts -/

def Directory.fullText {tree : FileTree} (d : Directory tree) (path : CString) : CString :=
  if d.path = ['/'] then path else d.path ++ '/' :: path

lemma Directory.fullText_eq {tree : FileTree} (d : Directory tree) (path : CString) :
    d.fullText path = if d.names = [] then path else joinPath d.names ++ '/' :: path := by
  by_cases h : d.names = []
  · simp [Directory.fullText, Directory.path, h]
  · simp [Directory.fullText, Directory.path, h, d.joinPath_ne_slash]

lemma joinPath_split {names names' : List CString} {path path' : CString}
    (hn : ∀ c ∈ names, IsName c) (hn' : ∀ c ∈ names', IsName c)
    (h : joinPath names ++ '/' :: path = joinPath names' ++ '/' :: path') :
    (∃ more, names' = names ++ more ∧ '/' :: path = joinPath more ++ '/' :: path') ∨
      ∃ more, names = names' ++ more ∧ '/' :: path' = joinPath more ++ '/' :: path := by
  induction names generalizing names' with
  | nil => exact Or.inl ⟨names', rfl, h⟩
  | cons c names ih =>
    cases names' with
    | nil => exact Or.inr ⟨c :: names, rfl, h.symm⟩
    | cons c' names' =>
      rw [joinPath_cons, joinPath_cons, List.cons_append, List.cons_append, List.cons_append,
        List.cons_append, List.append_assoc, List.append_assoc] at h
      obtain ⟨rfl, hrest⟩ := name_unique (hn c (by simp)).slash (hn' c' (by simp)).slash
        (endsName_joinPath names (endsName_slash path))
        (endsName_joinPath names' (endsName_slash path')) (List.cons.inj h).2
      rcases ih (fun x hx => hn x (by simp [hx])) (fun x hx => hn' x (by simp [hx])) hrest with
        ⟨more, rfl, hmore⟩ | ⟨more, rfl, hmore⟩
      · exact Or.inl ⟨more, rfl, hmore⟩
      · exact Or.inr ⟨more, rfl, hmore⟩

/-- A caller that may search everything gets the same result wherever a text is split. -/
theorem pathNormalizeFrom_fullText {e : PathEnv} (hs : e.cred.superuser = true)
    {d d' : Directory e.tree} {path path' : CString} (htext : d.fullText path = d'.fullText path')
    (hpath : path ≠ []) (hpath' : path' ≠ []) (hfit : (d.fullText path).length < maxPath)
    (left : ℕ) :
    e.pathNormalizeFrom left (some d.path) path = e.pathNormalizeFrom left (some d'.path) path' := by
  have hpos := List.length_pos_iff.2 hpath
  have hpos' := List.length_pos_iff.2 hpath'
  have hfit' := htext ▸ hfit
  rw [d.fullText_eq] at hfit htext
  rw [d'.fullText_eq] at hfit' htext
  by_cases hn : d.names = [] <;> by_cases hn' : d'.names = []
  · rw [if_pos hn, if_pos hn'] at htext
    rw [htext, Directory.path, Directory.path, if_pos hn, if_pos hn']
  · rw [if_pos hn, if_neg hn'] at htext
    rw [if_neg hn', List.length_append, List.length_cons] at hfit'
    exact PathEnv.pathNormalizeFrom_split hs d'.names (by simp [hn]) (by rw [htext]) hpath hpath'
      (by omega) left
  · rw [if_neg hn, if_pos hn'] at htext
    rw [if_neg hn, List.length_append, List.length_cons] at hfit
    exact (PathEnv.pathNormalizeFrom_split hs d.names (by simp [hn']) (by rw [htext])
      hpath' hpath (by omega) left).symm
  · rw [if_neg hn, if_neg hn'] at htext
    rw [if_neg hn, List.length_append, List.length_cons] at hfit
    rw [if_neg hn', List.length_append, List.length_cons] at hfit'
    rcases joinPath_split d.isName d'.isName htext with ⟨more, hd, hmore⟩ | ⟨more, hd, hmore⟩
    · exact PathEnv.pathNormalizeFrom_split hs more hd (by rw [← hmore, eatSlashes_slash]) hpath
        hpath' (by omega) left
    · exact (PathEnv.pathNormalizeFrom_split hs more hd (by rw [← hmore, eatSlashes_slash]) hpath'
        hpath (by omega) left).symm

end ShellBox
