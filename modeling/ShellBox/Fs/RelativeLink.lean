import ShellBox.Fs.BindRouting

/-!
# The relative target of a link

`compute_relative_path` drops what the two paths share, writes `..` for each name that is left of
the directory of the link, and appends what is left of the target. If one of the paths is an
ancestor of the other, then it counts one `..` too many.
-/

namespace ShellBox

/-! ### The code -/

def strlcpy (src : CString) (size : ℕ) : CString := src.take (size - 1)

/-- `strlcat` onto a string. -/
def strlcat (dst src : CString) (size : ℕ) : CString := dst ++ src.take (size - 1 - dst.length)

/-- The loop that finds the common prefix: `common`, and `last_slash` behind its last slash. -/
def sharedPrefix : CString → CString → ℕ → ℕ → ℕ × ℕ
  | a :: linkDir, b :: absTarget, common, lastSlash =>
    if a ≠ b then (common, lastSlash)
    else sharedPrefix linkDir absTarget (common + 1) (if a = '/' then common + 1 else lastSlash)
  | _, _, common, lastSlash => (common, lastSlash)

def relativeCommon (linkDir absTarget : CString) : ℕ :=
  let shared := sharedPrefix linkDir absTarget 0 0
  if linkDir[shared.1]? = none ∧ absTarget[shared.1]? = some '/' then shared.1
  else if absTarget[shared.1]? = none ∧ linkDir[shared.1]? = some '/' then shared.1
  else shared.2

/-- How many `..` are written. -/
def relativeUps (linkDir : CString) (common : ℕ) : ℕ :=
  (linkDir.drop common).count '/' +
    if linkDir ≠ [] ∧ linkDir.getLast? ≠ some '/' then 1 else 0

def writeUps (outSize : ℕ) : ℕ → CString
  | 0 => []
  | 1 => strlcpy ['.', '.'] outSize
  | ups + 1 => strlcat (writeUps outSize ups) ['/', '.', '.'] outSize

def computeRelativePath (linkDir absTarget : CString) (outSize : ℕ) : CString :=
  let common := relativeCommon linkDir absTarget
  let ups := relativeUps linkDir common
  let rest := absTarget.drop common
  let suffix := if rest.head? = some '/' then rest.drop 1 else rest
  let out := writeUps outSize ups
  let out :=
    if suffix = [] then out
    else strlcat (if 0 < ups then strlcat out ['/'] outSize else out) suffix outSize
  if out = [] then strlcpy ['.'] outSize else out

def RelativeFits (linkDir absTarget : CString) (outSize : ℕ) : Prop :=
  ∀ size, outSize ≤ size →
    computeRelativePath linkDir absTarget size = computeRelativePath linkDir absTarget outSize

/-- The path is relative, and following it name by name from a directory leads to the target. -/
def LeadsTo (path : CString) (dir target : List CString) : Prop :=
  path ≠ [] ∧ path.head? ≠ some '/' ∧ (path.splitOn '/').foldl pushName dir = target

instance (path : CString) (dir target : List CString) : Decidable (LeadsTo path dir target) :=
  inferInstanceAs (Decidable (_ ∧ _))

/-! ### The text without a limit -/

variable {linkDir absTarget l t p : CString} {names ls ts more : List CString} {size ups : ℕ}

lemma strlcpy_fits {src : CString} (h : src.length < size) : strlcpy src size = src :=
  List.take_of_length_le (Nat.le_sub_one_of_lt h)

lemma strlcat_fits {dst src : CString} (h : dst.length + src.length < size) :
    strlcat dst src size = dst ++ src := by
  rw [strlcat, List.take_of_length_le]
  omega

def relativeText (ups : ℕ) (down : List CString) : CString :=
  match List.replicate ups ['.', '.'] ++ down with
  | [] => ['.']
  | name :: names => name ++ joinPath names

lemma joinPath_ups (ups : ℕ) :
    joinPath (List.replicate (ups + 1) ['.', '.']) =
      joinPath (List.replicate ups ['.', '.']) ++ ['/', '.', '.'] := by
  rw [List.replicate_succ', joinPath_concat]

lemma length_joinPath_ups (ups : ℕ) :
    (joinPath (List.replicate ups ['.', '.'])).length = 3 * ups := by
  induction ups with
  | zero => rfl
  | succ ups ih =>
    rw [joinPath_ups, List.length_append, ih]
    rfl

lemma writeUps_fits (h : 3 * ups + 2 < size) :
    writeUps size (ups + 1) = ['.', '.'] ++ joinPath (List.replicate ups ['.', '.']) := by
  induction ups with
  | zero =>
    rw [writeUps, strlcpy_fits (by simpa using h)]
    rfl
  | succ ups ih =>
    have hlen := length_joinPath_ups ups
    rw [writeUps, ih (by omega), strlcat_fits, joinPath_ups, List.append_assoc]
    · simp only [List.length_append, List.length_cons, List.length_nil]
      omega
    · simp

lemma suffix_eq {rest : CString} (hdown : ∀ c ∈ names, IsName c)
    (hrest : rest = joinPath names ∨ rest = (joinPath names).drop 1) :
    (if rest.head? = some '/' then rest.drop 1 else rest) = (joinPath names).drop 1 := by
  cases names with
  | nil => rcases hrest with rfl | rfl <;> rfl
  | cons c names =>
    rcases hrest with rfl | rfl
    · rw [joinPath_cons, List.cons_append, List.head?_cons, if_pos rfl]
    · refine if_neg fun hslash => ?_
      obtain ⟨d, c', hc⟩ := List.exists_cons_of_ne_nil (hdown c List.mem_cons_self).ne_nil
      have hslash' : d = '/' := by simpa [hc] using hslash
      exact (hdown c List.mem_cons_self).slash (by simp [hc, hslash'])

lemma computeRelativePath_eq {common : ℕ} (hcommon : relativeCommon linkDir absTarget = common)
    (hups : relativeUps linkDir common = ups) (hdown : ∀ c ∈ names, IsName c)
    (hrest : absTarget.drop common = joinPath names ∨
      absTarget.drop common = (joinPath names).drop 1)
    (hsize : 3 * ups + 3 + (joinPath names).length < size) :
    computeRelativePath linkDir absTarget size = relativeText ups names := by
  have hlen := length_joinPath_ups (ups - 1)
  unfold computeRelativePath
  simp only [hcommon, hups, suffix_eq hdown hrest]
  cases names with
  | nil =>
    rw [joinPath_nil, List.drop_nil, if_pos rfl]
    cases ups with
    | zero => exact strlcpy_fits (by simp; omega)
    | succ ups =>
      rw [writeUps_fits (by omega), if_neg (by simp), relativeText, List.append_nil,
        List.replicate_succ]
  | cons c names =>
    have hc := (hdown c List.mem_cons_self).ne_nil
    have hdrop : (joinPath (c :: names)).drop 1 = c ++ joinPath names := by
      rw [joinPath_cons, List.cons_append, List.drop_one, List.tail_cons]
    have hne : c ++ joinPath names ≠ [] := by simp [hc]
    rw [joinPath_cons, List.cons_append, List.length_cons] at hsize
    rw [hdrop, if_neg hne]
    cases ups with
    | zero =>
      rw [if_neg (Nat.lt_irrefl 0), writeUps, strlcat_fits, List.nil_append, if_neg hne]
      · rfl
      · simp only [List.length_nil]
        omega
    | succ ups =>
      rw [Nat.add_sub_cancel] at hlen
      rw [if_pos ups.succ_pos, writeUps_fits (by omega), strlcat_fits, strlcat_fits,
        if_neg (by simp), relativeText, List.replicate_succ, List.cons_append]
      · simp
      · simp only [List.length_append, List.length_cons, List.length_nil]
        omega
      · rw [strlcat_fits]
        all_goals
          simp only [List.length_append, List.length_cons, List.length_nil] at hsize ⊢
          omega

/-! ### Where the text leads -/

lemma foldl_pushName_ups (ls : List CString) (ups : ℕ) :
    (List.replicate ups ['.', '.']).foldl pushName ls = ls.take (ls.length - ups) := by
  induction ups generalizing ls with
  | zero => simp
  | succ ups ih =>
    rw [List.replicate_succ, List.foldl_cons, ih,
      show pushName ls ['.', '.'] = ls.dropLast from rfl, List.dropLast_eq_take, List.take_take, List.length_take]
    congr 1
    omega

lemma foldl_pushName_names (ls : List CString) {names : List CString}
    (hn : ∀ c ∈ names, IsName c) : names.foldl pushName ls = ls ++ names := by
  induction names generalizing ls with
  | nil => simp
  | cons c names ih =>
    have hc := hn c List.mem_cons_self
    rw [List.foldl_cons, ih _ fun d hd => hn d (List.mem_cons_of_mem _ hd), pushName,
      if_neg (not_or.mpr ⟨hc.ne_nil, hc.dot⟩), if_neg hc.dotDot, List.append_assoc,
      List.singleton_append]

lemma leadsTo_relativeText (ls ts : List CString) (hn : ∀ c ∈ names, IsName c) :
    LeadsTo (relativeText ups names) ls ts ↔ ls.take (ls.length - ups) ++ names = ts := by
  have hslash : ∀ c ∈ List.replicate ups ['.', '.'] ++ names, c ≠ [] ∧ '/' ∉ c := by
    intro c hc
    rcases List.mem_append.mp hc with hc | hc
    · obtain rfl := List.eq_of_mem_replicate hc
      exact ⟨by simp, by simp⟩
    · exact ⟨(hn c hc).ne_nil, (hn c hc).slash⟩
  have hfold : (List.replicate ups ['.', '.'] ++ names).foldl pushName ls =
      ls.take (ls.length - ups) ++ names := by
    rw [List.foldl_append, foldl_pushName_ups, foldl_pushName_names _ hn]
  rw [LeadsTo, relativeText]
  cases hall : List.replicate ups ['.', '.'] ++ names with
  | nil =>
    rw [hall] at hfold
    have hdot : ['.'].splitOn '/' = [['.']] := List.splitOn_eq_singleton (by simp)
    rw [← hfold, hdot]
    simp [pushName]
  | cons c more =>
    rw [hall] at hfold hslash
    obtain ⟨hne, hc⟩ := hslash c List.mem_cons_self
    simp only
    rw [splitOn_joinPath (fun d hd => (hslash d (List.mem_cons_of_mem _ hd)).2) hc, hfold]
    obtain ⟨d, c', rfl⟩ := List.exists_cons_of_ne_nil hne
    have hd : d ≠ '/' := fun h => hc (by simp [h])
    simp [hd]

/-! ### Where the paths part -/

lemma exists_common_prefix {α : Type} {x y : List α} (h : x ≠ y) :
    ∃ r x' y', x = r ++ x' ∧ y = r ++ y' ∧ x'.head? ≠ y'.head? := by
  induction x generalizing y with
  | nil =>
    obtain ⟨b, y, rfl⟩ := List.exists_cons_of_ne_nil h.symm
    exact ⟨[], [], b :: y, rfl, rfl, by simp⟩
  | cons a x ih =>
    cases y with
    | nil => exact ⟨[], a :: x, [], rfl, rfl, by simp⟩
    | cons b y =>
      by_cases hab : a = b
      · subst hab
        obtain ⟨r, x', y', rfl, rfl, hne⟩ := ih fun hxy => h (by rw [hxy])
        exact ⟨a :: r, x', y', rfl, rfl, hne⟩
      · exact ⟨[], a :: x, b :: y, rfl, rfl, by simpa using hab⟩

/-- Nothing more is shared, and neither rest begins where the other path ends. -/
structure Parted (l t : CString) : Prop where
  apart : l = [] ∧ t = [] ∨ l.head? ≠ t.head?
  left : l = [] → t.head? ≠ some '/'
  right : t = [] → l.head? ≠ some '/'

lemma sharedPrefix_parted {common lastSlash : ℕ} (h : l = [] ∧ t = [] ∨ l.head? ≠ t.head?) :
    sharedPrefix l t common lastSlash = (common, lastSlash) := by
  cases l with
  | nil => simp [sharedPrefix]
  | cons a l =>
    cases t with
    | nil => simp [sharedPrefix]
    | cons b t =>
      have hne : a ≠ b := by simpa using h
      rw [sharedPrefix, if_pos hne]

lemma sharedPrefix_append (q l t : CString) (common lastSlash : ℕ) :
    ∃ last, sharedPrefix (q ++ l) (q ++ t) common lastSlash =
      sharedPrefix l t (common + q.length) last ∧ ('/' ∉ q → last = lastSlash) := by
  induction q generalizing common lastSlash with
  | nil => exact ⟨lastSlash, rfl, fun _ => rfl⟩
  | cons c q ih =>
    obtain ⟨last, heq, hlast⟩ := ih (common + 1) (if c = '/' then common + 1 else lastSlash)
    refine ⟨last, ?_, fun hc => ?_⟩
    · rw [List.cons_append, List.cons_append, sharedPrefix, if_neg (not_not.mpr rfl), heq,
        List.length_cons, Nat.add_assoc, Nat.add_comm 1]
    · rw [List.mem_cons, not_or] at hc
      rw [hlast hc.2, if_neg (Ne.symm hc.1)]

lemma relativeCommon_parted {q r : CString} (hr : '/' ∉ r) (h : Parted l t) :
    relativeCommon (q ++ '/' :: (r ++ l)) (q ++ '/' :: (r ++ t)) = q.length + 1 := by
  have hshared : sharedPrefix (q ++ '/' :: (r ++ l)) (q ++ '/' :: (r ++ t)) 0 0 =
      (q.length + 1 + r.length, q.length + 1) := by
    obtain ⟨last, heq, -⟩ := sharedPrefix_append q ('/' :: (r ++ l)) ('/' :: (r ++ t)) 0 0
    obtain ⟨last', heq', hlast'⟩ := sharedPrefix_append r l t (q.length + 1) (q.length + 1)
    rw [heq, sharedPrefix, if_neg (not_not.mpr rfl), if_pos rfl, Nat.zero_add, heq', hlast' hr,
      sharedPrefix_parted h.apart]
  have hget (s : CString) : (q ++ '/' :: (r ++ s))[q.length + 1 + r.length]? = s.head? := by
    rw [List.getElem?_append_right (by omega), List.head?_eq_getElem?]
    rw [show q.length + 1 + r.length - q.length = r.length + 1 by omega, List.getElem?_cons_succ,
      List.getElem?_append_right le_rfl, Nat.sub_self]
  have hnil {s : CString} (hs : s.head? = none) : s = [] := List.head?_eq_none_iff.mp hs
  rw [relativeCommon]
  simp only [hshared, hget]
  rw [if_neg fun hend => h.left (hnil hend.1) hend.2,
    if_neg fun hend => h.right (hnil hend.1) hend.2]

lemma relativeCommon_ancestor (q t : CString) :
    relativeCommon q (q ++ '/' :: t) = q.length ∧ relativeCommon (q ++ '/' :: t) q = q.length := by
  have hshared (l' t' : CString) (h : l' = [] ∧ t' = [] ∨ l'.head? ≠ t'.head?) :
      (sharedPrefix (q ++ l') (q ++ t') 0 0).1 = q.length := by
    obtain ⟨last, heq, -⟩ := sharedPrefix_append q l' t' 0 0
    rw [heq, sharedPrefix_parted h, Nat.zero_add]
  have hdown := hshared [] ('/' :: t) (Or.inr (by simp))
  have hup := hshared ('/' :: t) [] (Or.inr (by simp))
  rw [List.append_nil] at hdown hup
  rw [relativeCommon, relativeCommon]
  simp [hdown, hup]

lemma head_append_joinPath {x : CString} (hx : '/' ∉ x) (names : List CString) :
    x = [] ∧ ((x ++ joinPath names).head? = none ∨ (x ++ joinPath names).head? = some '/') ∨
      ∃ d, x.head? = some d ∧ (x ++ joinPath names).head? = some d ∧ d ≠ '/' := by
  cases x with
  | nil => cases names <;> simp
  | cons d x =>
    refine Or.inr ⟨d, rfl, rfl, fun hd => hx ?_⟩
    rw [hd]
    exact List.mem_cons_self

lemma parted_of_head {x y : CString} (hx : '/' ∉ x) (hy : '/' ∉ y) (h : x.head? ≠ y.head?)
    (a b : List CString) : Parted (x ++ joinPath a) (y ++ joinPath b) := by
  rcases head_append_joinPath hx a with ⟨rfl, hl⟩ | ⟨d, hd, hl, hd'⟩ <;>
  rcases head_append_joinPath hy b with ⟨rfl, ht⟩ | ⟨e, he, ht, he'⟩
  · exact absurd rfl h
  · have hne : (y ++ joinPath b) ≠ [] := by
      rintro hnil
      simp [hnil] at ht
    refine ⟨Or.inr ?_, fun _ => ?_, fun hnil => absurd hnil hne⟩
    · rcases hl with hl | hl <;> rw [hl, ht] <;> simp [he'.symm]
    · simpa [ht] using he'
  · have hne : (x ++ joinPath a) ≠ [] := by
      rintro hnil
      simp [hnil] at hl
    refine ⟨Or.inr ?_, fun hnil => absurd hnil hne, fun _ => ?_⟩
    · rcases ht with ht | ht <;> rw [hl, ht] <;> simp [hd']
    · simpa [hl] using hd'
  · rw [hd, he] at h
    refine ⟨Or.inr (by rwa [hl, ht]), fun hnil => ?_, fun hnil => ?_⟩
    · simp [hnil] at hl
    · simp [hnil] at ht

lemma exists_parted {a b : List CString} (ha : ∀ c ∈ a, IsName c) (hb : ∀ c ∈ b, IsName c)
    (h : a = b ∧ a.length ≤ 1 ∨ a.head? ≠ b.head?) :
    ∃ r l t, '/' ∉ r ∧ Parted l t ∧
      (joinPath a).drop 1 = r ++ l ∧ (joinPath b).drop 1 = r ++ t := by
  have hdrop (c : CString) (names : List CString) :
      (joinPath (c :: names)).drop 1 = c ++ joinPath names := by
    rw [joinPath_cons, List.cons_append, List.drop_one, List.tail_cons]
  have hends : Parted [] [] := ⟨Or.inl ⟨rfl, rfl⟩, by simp, by simp⟩
  cases a with
  | nil =>
    cases b with
    | nil => exact ⟨[], [], [], by simp, hends, rfl, rfl⟩
    | cons y b =>
      have hy := hb y List.mem_cons_self
      have hne : ([] : CString).head? ≠ y.head? :=
        fun h => hy.ne_nil (List.head?_eq_none_iff.mp h.symm)
      exact ⟨[], [], y ++ joinPath b, by simp, parted_of_head (by simp) hy.slash hne [] b, rfl,
        hdrop y b⟩
  | cons x a =>
    have hx := ha x List.mem_cons_self
    cases b with
    | nil =>
      have hne : x.head? ≠ ([] : CString).head? :=
        fun h => hx.ne_nil (List.head?_eq_none_iff.mp h)
      exact ⟨[], x ++ joinPath a, [], by simp, parted_of_head hx.slash (by simp) hne a [],
        hdrop x a, rfl⟩
    | cons y b =>
      have hy := hb y List.mem_cons_self
      rw [hdrop, hdrop]
      by_cases hxy : x = y
      · subst hxy
        rcases h with ⟨heq, hlen⟩ | hne
        · obtain rfl : a = [] := by simpa using hlen
          obtain rfl : b = [] := by simpa using heq.symm
          exact ⟨x, [], [], hx.slash, hends, by simp, by simp⟩
        · exact absurd rfl hne
      · obtain ⟨r, x', y', rfl, rfl, hne⟩ := exists_common_prefix hxy
        have hx' := hx.slash
        have hy' := hy.slash
        rw [List.mem_append, not_or] at hx' hy'
        exact ⟨r, x' ++ joinPath a, y' ++ joinPath b, hx'.1,
          parted_of_head hx'.2 hy'.2 hne a b, by rw [List.append_assoc], by rw [List.append_assoc]⟩

/-! ### When the text is right -/

lemma absPath_append {q a : List CString} (h : q = [] ∨ a ≠ []) :
    absPath (q ++ a) = joinPath q ++ '/' :: (joinPath a).drop 1 := by
  cases a with
  | nil =>
    obtain rfl : q = [] := h.resolve_right fun h => h rfl
    rfl
  | cons x a =>
    rw [absPath_of_ne (by simp), joinPath_append, joinPath_cons]
    rfl

lemma getLast_absPath {names : List CString} (hn : ∀ c ∈ names, IsName c) :
    (absPath names).getLast? ≠ some '/' ↔ names ≠ [] := by
  rcases List.eq_nil_or_concat names with rfl | ⟨init, c, rfl⟩
  · simp
  · rw [List.concat_eq_append, absPath_concat]
    rw [List.concat_eq_append] at hn
    have hc := hn c (by simp)
    refine iff_of_true ?_ (by simp)
    rw [List.getLast?_append_of_ne_nil _ (by simp), List.getLast?_cons_of_ne_nil hc.ne_nil]
    exact fun h => hc.slash (List.mem_of_getLast? h)

lemma count_joinPath (hn : ∀ c ∈ names, IsName c) : (joinPath names).count '/' = names.length := by
  induction names with
  | nil => rfl
  | cons c names ih =>
    rw [joinPath_cons, List.cons_append, List.count_cons_self, List.count_append,
      List.count_eq_zero.mpr (hn c List.mem_cons_self).slash, Nat.zero_add,
      ih fun d hd => hn d (List.mem_cons_of_mem _ hd), List.length_cons]

lemma relativeUps_eq {common : ℕ} (hl : ∀ c ∈ ls, IsName c) :
    relativeUps (absPath ls) common =
      ((absPath ls).drop common).count '/' + if ls = [] then 0 else 1 := by
  have hne : absPath ls ≠ [] := fun h => by simpa [h] using head_absPath ls
  rw [relativeUps]
  by_cases h : ls = []
  · rw [if_neg fun hlast => (getLast_absPath hl).mp hlast.2 h, if_pos h]
  · rw [if_pos ⟨hne, (getLast_absPath hl).mpr h⟩, if_neg h]

lemma computeRelativePath_parted {q a b : List CString} (hl : ∀ c ∈ q ++ a, IsName c)
    (ht : ∀ c ∈ q ++ b, IsName c) (hroot : q = [] ∨ a ≠ [] ∧ b ≠ [])
    (h : a = b ∧ a.length ≤ 1 ∨ a.head? ≠ b.head?)
    (hsize : 3 * a.length + 3 + (joinPath b).length < size) :
    computeRelativePath (absPath (q ++ a)) (absPath (q ++ b)) size = relativeText a.length b := by
  have ha : ∀ c ∈ a, IsName c := fun c hc => hl c (List.mem_append_right _ hc)
  have hb : ∀ c ∈ b, IsName c := fun c hc => ht c (List.mem_append_right _ hc)
  have hlink := absPath_append (hroot.imp_right And.left)
  have htarget := absPath_append (hroot.imp_right And.right)
  have hskip (s : CString) : (joinPath q ++ '/' :: s).drop ((joinPath q).length + 1) = s := by
    rw [← List.drop_drop, List.drop_left, List.drop_one, List.tail_cons]
  have hcommon : relativeCommon (absPath (q ++ a)) (absPath (q ++ b)) =
      (joinPath q).length + 1 := by
    obtain ⟨r, l, t, hr, hparted, hu, hv⟩ := exists_parted ha hb h
    rw [hlink, htarget, hu, hv]
    exact relativeCommon_parted hr hparted
  refine computeRelativePath_eq hcommon ?_ hb (Or.inr ?_) hsize
  · rw [relativeUps_eq hl, hlink, hskip]
    cases a with
    | nil =>
      obtain rfl : q = [] := hroot.resolve_right fun h => h.1 rfl
      rfl
    | cons x a =>
      rw [if_neg (by simp), joinPath_cons, List.cons_append, List.drop_one, List.tail_cons,
        List.count_append, List.count_eq_zero.mpr (ha x List.mem_cons_self).slash, Nat.zero_add,
        count_joinPath fun c hc => ha c (List.mem_cons_of_mem _ hc), List.length_cons]
  · rw [htarget, hskip]

lemma computeRelativePath_down (hl : ∀ c ∈ ls, IsName c) (hls : ls ≠ [])
    (hn : ∀ c ∈ names, IsName c) (hnames : names ≠ [])
    (hsize : 6 + (joinPath names).length < size) :
    computeRelativePath (absPath ls) (absPath (ls ++ names)) size = relativeText 1 names := by
  obtain ⟨c, names, rfl⟩ := List.exists_cons_of_ne_nil hnames
  have htarget : absPath (ls ++ c :: names) = absPath ls ++ '/' :: (c ++ joinPath names) := by
    rw [absPath_of_ne (by simp), absPath_of_ne hls, joinPath_append, joinPath_cons,
      List.cons_append]
  have hcommon : relativeCommon (absPath ls) (absPath (ls ++ c :: names)) = (absPath ls).length :=
    htarget ▸ (relativeCommon_ancestor (absPath ls) (c ++ joinPath names)).1
  refine computeRelativePath_eq hcommon ?_ hn (Or.inl ?_) hsize
  · rw [relativeUps_eq hl, List.drop_length, if_neg hls]
    rfl
  · rw [htarget, List.drop_left, joinPath_cons, List.cons_append]

lemma computeRelativePath_up (ht : ∀ c ∈ ts ++ names, IsName c) (hts : ts ≠ [])
    (hnames : names ≠ []) (hsize : 3 * (names.length + 1) + 3 < size) :
    computeRelativePath (absPath (ts ++ names)) (absPath ts) size =
      relativeText (names.length + 1) [] := by
  have hn : ∀ c ∈ names, IsName c := fun c hc => ht c (List.mem_append_right _ hc)
  obtain ⟨c, more, hmore⟩ := List.exists_cons_of_ne_nil hnames
  have hlink : absPath (ts ++ names) = absPath ts ++ joinPath names := by
    rw [absPath_of_ne (by simp [hts]), absPath_of_ne hts, joinPath_append]
  have hcommon : relativeCommon (absPath (ts ++ names)) (absPath ts) = (absPath ts).length := by
    rw [hlink, hmore, joinPath_cons, List.cons_append]
    exact (relativeCommon_ancestor (absPath ts) (c ++ joinPath more)).2
  refine computeRelativePath_eq hcommon ?_ (by simp) (Or.inl ?_) (by simpa using hsize)
  · rw [relativeUps_eq ht, hlink, List.drop_left, count_joinPath hn, if_neg (by simp [hts])]
  · rw [List.drop_length, joinPath_nil]

def ProperAncestors (ls ts : List CString) : Prop :=
  ls ≠ [] ∧ ts ≠ [] ∧ ls ≠ ts ∧ (ls <+: ts ∨ ts <+: ls)

lemma not_properAncestors {q a b : List CString} (hroot : q = [] ∨ a ≠ [] ∧ b ≠ [])
    (h : a.head? ≠ b.head?) : ¬ ProperAncestors (q ++ a) (q ++ b) := by
  rintro ⟨hls, hts, -, hprefix⟩
  have hne : a ≠ [] ∧ b ≠ [] := by
    rcases hroot with rfl | hne
    · exact ⟨hls, hts⟩
    · exact hne
  obtain ⟨x, a, rfl⟩ := List.exists_cons_of_ne_nil hne.1
  obtain ⟨y, b, rfl⟩ := List.exists_cons_of_ne_nil hne.2
  rw [List.prefix_append_right_inj, List.prefix_append_right_inj, List.cons_prefix_cons,
    List.cons_prefix_cons] at hprefix
  rcases hprefix with ⟨rfl, -⟩ | ⟨rfl, -⟩
  · exact h rfl
  · exact h rfl

lemma leadsTo_names_iff {outSize : ℕ} (hl : ∀ c ∈ ls, IsName c) (ht : ∀ c ∈ ts, IsName c)
    (hfit : RelativeFits (absPath ls) (absPath ts) outSize) :
    LeadsTo (computeRelativePath (absPath ls) (absPath ts) outSize) ls ts ↔
      ¬ ProperAncestors ls ts := by
  -- a buffer that is large enough in every case
  rw [← hfit (outSize + 3 * ls.length + (joinPath ts).length + 9) (by omega)]
  by_cases heq : ls = ts
  · subst heq
    refine iff_of_true ?_ fun h => h.2.2.1 rfl
    rcases List.eq_nil_or_concat ls with rfl | ⟨init, c, rfl⟩
    · rw [show ([] : List CString) = [] ++ [] from rfl,
        computeRelativePath_parted (by simp) (by simp) (Or.inl rfl) (Or.inl ⟨rfl, by simp⟩)
          (by simp)]
      exact (leadsTo_relativeText _ _ (by simp)).mpr rfl
    · rw [List.concat_eq_append] at hl ⊢
      rw [computeRelativePath_parted hl hl (Or.inr (by simp)) (Or.inl ⟨rfl, by simp⟩)
        (by simp; omega)]
      exact (leadsTo_relativeText _ _ fun c hc => hl c (List.mem_append_right _ hc)).mpr (by simp)
  obtain ⟨q, a, b, rfl, rfl, hne⟩ := exists_common_prefix heq
  have hb : ∀ c ∈ b, IsName c := fun c hc => ht c (List.mem_append_right _ hc)
  by_cases hroot : q = [] ∨ a ≠ [] ∧ b ≠ []
  · refine iff_of_true ?_ (not_properAncestors hroot hne)
    rw [computeRelativePath_parted hl ht hroot (Or.inr hne) (by simp; omega)]
    exact (leadsTo_relativeText _ _ hb).mpr (by simp)
  rw [not_or, not_and_or, not_not, not_not] at hroot
  obtain ⟨hq, rfl | rfl⟩ := hroot
  · have hb' : b ≠ [] := fun h => hne (by rw [h])
    rw [List.append_nil] at hl ⊢
    refine iff_of_false (fun h => ?_) fun h => h ⟨hq, by simp [hq], by simpa using hb', Or.inl ?_⟩
    · rw [computeRelativePath_down hl hq hb hb' (by simp; omega)] at h
      have hlen := congrArg List.length ((leadsTo_relativeText _ _ hb).mp h)
      have hpos := List.length_pos_iff.mpr hq
      simp only [List.length_append, List.length_take] at hlen
      omega
    · exact List.prefix_append q b
  · have ha' : a ≠ [] := fun h => hne (by rw [h])
    rw [List.append_nil] at ht ⊢
    refine iff_of_false (fun h => ?_) fun h => h ⟨by simp [hq], hq, by simpa using ha', Or.inr ?_⟩
    · rw [computeRelativePath_up hl hq ha' (by simp; omega)] at h
      have hlen := congrArg List.length ((leadsTo_relativeText _ _ (by simp)).mp h)
      have hpos := List.length_pos_iff.mpr hq
      simp only [List.append_nil, List.length_append, List.length_take] at hlen
      omega
    · exact List.prefix_append q a

lemma NormalPath.isName {path : CString} (h : NormalPath path) :
    ∀ c ∈ components path, IsName c := by
  intro c hc
  obtain ⟨hne, hdot, hdotDot⟩ := h.names c hc
  exact ⟨hne, slash_notMem_splitOn (List.mem_of_mem_filter hc), hdot, hdotDot⟩

/-- What the code writes leads to the target, unless one of the two paths is an ancestor of the
other and neither is the root. -/
theorem computeRelativePath_leadsTo_iff (linkDir absTarget : CString) (outSize : ℕ)
    (hl : NormalPath linkDir) (ht : NormalPath absTarget)
    (hfit : RelativeFits linkDir absTarget outSize) :
    LeadsTo (computeRelativePath linkDir absTarget outSize) (components linkDir)
        (components absTarget) ↔
      ¬ ProperAncestors (components linkDir) (components absTarget) := by
  have h := @leadsTo_names_iff (components linkDir) (components absTarget) outSize hl.isName
    ht.isName
  rw [← hl.joined, ← ht.joined] at h
  exact h hfit

lemma fits_of_short {outSize : ℕ} (hl : ∀ c ∈ ls, IsName c) (hls : ls ≠ [])
    (hn : ∀ c ∈ names, IsName c) (hnames : names ≠ [])
    (hsize : 6 + (joinPath names).length < outSize) :
    RelativeFits (absPath ls) (absPath (ls ++ names)) outSize := by
  intro size hle
  rw [computeRelativePath_down hl hls hn hnames (hsize.trans_le hle),
    computeRelativePath_down hl hls hn hnames hsize]

lemma isName_singleton {c : Char} (h : c ≠ '/') (h' : c ≠ '.') : IsName [c] :=
  ⟨by simp, by simpa using h.symm, by simpa using h', by simp⟩

/-- A link in `/a` to `/a/b` gets the target `../b`, which is `/b`. -/
theorem computeRelativePath_down_wrong :
    NormalPath ['/', 'a'] ∧ NormalPath ['/', 'a', '/', 'b'] ∧
      RelativeFits ['/', 'a'] ['/', 'a', '/', 'b'] maxPath ∧
      computeRelativePath ['/', 'a'] ['/', 'a', '/', 'b'] maxPath = ['.', '.', '/', 'b'] ∧
      ¬ LeadsTo (computeRelativePath ['/', 'a'] ['/', 'a', '/', 'b'] maxPath)
        (components ['/', 'a']) (components ['/', 'a', '/', 'b']) := by
  have ha : IsName ['a'] := isName_singleton (by decide) (by decide)
  have hb : IsName ['b'] := isName_singleton (by decide) (by decide)
  refine ⟨@normalPath_absPath [['a']] (by simpa using ha),
    @normalPath_absPath [['a'], ['b']] (by simpa using ⟨ha, hb⟩), ?_, by decide +kernel,
    by decide +kernel⟩
  exact @fits_of_short [['b']] [['a']] maxPath (by simpa using ha) (by simp) (by simpa using hb)
    (by simp) (by decide)

/-- A link in `/` to `/a`. -/
theorem computeRelativePath_leadsTo_root :
    LeadsTo (computeRelativePath ['/'] ['/', 'a'] maxPath) (components ['/'])
      (components ['/', 'a']) := by
  have ha : IsName ['a'] := isName_singleton (by decide) (by decide)
  refine (computeRelativePath_leadsTo_iff ['/'] ['/', 'a'] maxPath
    (@normalPath_absPath [] (by simp)) (@normalPath_absPath [['a']] (by simpa using ha))
    fun size hle => ?_).mpr fun h => h.1 (by decide +kernel)
  have hparted (n : ℕ) (hn : 5 < n) : computeRelativePath ['/'] ['/', 'a'] n = ['a'] :=
    @computeRelativePath_parted n [] [] [['a']] (by simp) (by simpa using ha) (Or.inl rfl)
      (Or.inr (by simp)) (by simpa using hn)
  rw [hparted size (by rw [maxPath] at hle; omega), hparted maxPath (by decide)]

end ShellBox
