import ShellBox.Fs.BindMount
import ShellBox.Logic.Loop

/-!
# Where a bind-mounted path goes

Normalized paths are names joined by slashes. Over the names a slot covers a path if its names
are the first names of the path, and normalizing a path pushes and pops names. A table that
calls of `fakefs_bind_mount` and `fakefs_bind_unmount` have built has normalized paths in its
active slots, different ones, and none is the root: the host has no file with an empty name.
-/

namespace ShellBox

open Function

/-! ### Normalized paths -/

def components (path : CString) : List CString := (path.splitOn '/').filter (· ≠ [])

def absPath (names : List CString) : CString := if names = [] then ['/'] else joinPath names

@[simp] lemma absPath_nil : absPath [] = ['/'] := rfl

lemma absPath_of_ne {names : List CString} (h : names ≠ []) : absPath names = joinPath names :=
  if_neg h

lemma absPath_concat (names : List CString) (c : CString) :
    absPath (names ++ [c]) = joinPath names ++ '/' :: c := by
  rw [absPath_of_ne (by simp), joinPath_concat]

lemma head_absPath (names : List CString) : (absPath names).head? = some '/' := by
  cases names with
  | nil => rfl
  | cons c names => simp [absPath]

/-- A list with a name more at its end; the empty name and `.` are left out, and `..` takes the
last name back. -/
def pushName (names : List CString) (seg : CString) : List CString :=
  if seg = [] ∨ seg = ['.'] then names
  else if seg = ['.', '.'] then names.dropLast
  else names ++ [seg]

lemma isName_pushName {names : List CString} {seg : CString} (hn : ∀ c ∈ names, IsName c)
    (hs : '/' ∉ seg) : ∀ c ∈ pushName names seg, IsName c := by
  unfold pushName
  split_ifs with h1 h2
  · exact hn
  · exact fun c hc => hn c (List.mem_of_mem_dropLast hc)
  · intro c hc
    rcases List.mem_append.1 hc with hc | hc
    · exact hn c hc
    · obtain rfl : c = seg := by simpa using hc
      push Not at h1
      exact ⟨h1.1, hs, h1.2, h2⟩

lemma slash_notMem_splitOn {path seg : CString} (h : seg ∈ path.splitOn '/') : '/' ∉ seg := by
  induction path generalizing seg with
  | nil =>
    obtain rfl : seg = [] := by simpa using h
    simp
  | cons c path ih =>
    rw [List.splitOn_cons_eq_if_modifyHead] at h
    split_ifs at h with hc
    · rcases List.mem_cons.1 h with rfl | h
      · simp
      · exact ih h
    · have hne := List.splitOn_ne_nil '/' path
      obtain ⟨s, rest, hs⟩ := List.exists_cons_of_ne_nil hne
      rw [hs, List.modifyHead_cons] at h
      rcases List.mem_cons.1 h with rfl | h
      · have hs' : '/' ∉ s := ih (by simp [hs])
        have hc' : '/' ≠ c := fun heq => hc (by simp [← heq])
        simp [hs', hc']
      · exact ih (by simp [hs, h])

lemma splitOn_joinPath {names : List CString} (hn : ∀ c ∈ names, '/' ∉ c) {c : CString}
    (hc : '/' ∉ c) : (c ++ joinPath names).splitOn '/' = c :: names := by
  induction names generalizing c with
  | nil => simpa using List.splitOn_eq_singleton hc
  | cons d names ih =>
    rw [joinPath_cons, List.cons_append, List.splitOn_append_cons_self_of_not_mem hc,
      ih (fun e he => hn e (by simp [he])) (hn d (by simp))]

lemma components_joinPath {names : List CString} (hn : ∀ c ∈ names, IsName c) :
    components (joinPath names) = names := by
  have hs := splitOn_joinPath (fun c hc => (hn c hc).slash) (List.not_mem_nil (a := '/'))
  rw [List.nil_append] at hs
  rw [components, hs, List.filter_cons_of_neg (by simp)]
  exact List.filter_eq_self.2 fun c hc => by simpa using (hn c hc).ne_nil

lemma components_absPath {names : List CString} (hn : ∀ c ∈ names, IsName c) :
    components (absPath names) = names := by
  by_cases h : names = []
  · subst h
    rfl
  · rw [absPath_of_ne h, components_joinPath hn]

/-! ### What normalizing comes to -/

lemma backToSlash_append {seg : CString} (hs : '/' ∉ seg) (rest : CString) :
    backToSlash (seg ++ '/' :: rest) = '/' :: rest := by
  induction seg with
  | nil =>
    cases rest with
    | nil => rfl
    | cons c rest => simp [backToSlash]
  | cons c seg ih =>
    have hc : c ≠ '/' := fun h => hs (by simp [h])
    have ih := ih fun h => hs (List.mem_cons_of_mem _ h)
    cases seg with
    | nil => simpa [backToSlash, hc] using ih
    | cons d seg => simpa [backToSlash, hc] using ih

lemma dropSegment_absPath {names : List CString} (hn : ∀ c ∈ names, IsName c) :
    dropSegment (absPath names) = absPath names.dropLast := by
  rcases List.eq_nil_or_concat names with rfl | ⟨init, c, rfl⟩
  · rfl
  · have hc : '/' ∉ c.reverse := by simpa using (hn c (by simp)).slash
    have hback := backToSlash_append hc (joinPath init).reverse
    simp only [List.concat_eq_append, absPath_concat, List.dropLast_concat, dropSegment,
      List.reverse_append, List.reverse_cons, List.append_assoc, List.cons_append, List.nil_append,
      hback]
    by_cases hi : init = []
    · subst hi
      rfl
    · have hj : (joinPath init).reverse ≠ [] := by simpa [joinPath_eq_nil] using hi
      have hlen : 0 < (joinPath init).reverse.length := List.length_pos_iff.2 hj
      have hlt : 1 < ('/' :: (joinPath init).reverse).length := by
        rw [List.length_cons]
        omega
      rw [if_pos hlt, List.drop_one, List.tail_cons, if_neg hj, List.reverse_reverse,
        absPath_of_ne hi]

lemma length_absPath_dropLast (names : List CString) :
    (absPath names.dropLast).length ≤ (absPath names).length := by
  rcases List.eq_nil_or_concat names with rfl | ⟨init, c, rfl⟩
  · simp
  · rw [List.concat_eq_append, List.dropLast_concat, absPath_concat]
    by_cases hi : init = []
    · simp [hi]
    · simp [absPath_of_ne hi]

lemma normalizeSegment_name {names : List CString} {seg : CString} {outSize : ℕ}
    (hn : ∀ c ∈ names, IsName c) (hs : IsName seg) :
    normalizeSegment outSize (absPath names) seg =
      if (absPath (names ++ [seg])).length < outSize then some (absPath (names ++ [seg]))
      else none := by
  rw [normalizeSegment, if_neg (not_or.2 ⟨hs.ne_nil, hs.dot⟩), if_neg hs.dotDot]
  cases names with
  | nil =>
    have hout : absPath [] ++ seg = absPath ([] ++ [seg]) := by simp [absPath]
    have hlen : (absPath ([] ++ [seg])).length = (absPath []).length + seg.length := by
      rw [← hout, List.length_append]
    rw [if_neg (by simp), appendSegment, hout, ← hlen]
    by_cases hfit : (absPath ([] ++ [seg])).length < outSize
    · rw [if_neg (not_le.2 hfit), if_pos hfit]
    · rw [if_pos (not_lt.1 hfit), if_neg hfit]
  | cons c names =>
    have hc : 0 < c.length := List.length_pos_iff.2 (hn c (by simp)).ne_nil
    have hlt : 1 < (absPath (c :: names)).length := by
      simp [absPath]
      omega
    have hout : absPath (c :: names) ++ ['/'] ++ seg = absPath (c :: names ++ [seg]) := by
      simp [absPath]
    have hlen : (absPath (c :: names ++ [seg])).length =
        (absPath (c :: names) ++ ['/']).length + seg.length := by
      rw [← hout, List.length_append]
    rw [if_pos hlt, appendSegment, hout, ← hlen]
    by_cases hfit : (absPath (c :: names ++ [seg])).length < outSize
    · rw [List.length_append, List.length_singleton] at hlen
      rw [if_neg (by omega), if_neg (not_le.2 hfit), if_pos hfit]
    · rw [if_pos (not_lt.1 hfit), if_neg hfit, ite_self]

lemma normalizeSegment_eq {names : List CString} {seg : CString} {outSize : ℕ}
    (hn : ∀ c ∈ names, IsName c) (hs : '/' ∉ seg) (hlen : (absPath names).length < outSize) :
    normalizeSegment outSize (absPath names) seg =
      if (absPath (pushName names seg)).length < outSize then some (absPath (pushName names seg))
      else none := by
  by_cases h1 : seg = [] ∨ seg = ['.']
  · rw [normalizeSegment, pushName, if_pos h1, if_pos h1, if_pos hlen]
  · by_cases h2 : seg = ['.', '.']
    · have hle := lt_of_le_of_lt (length_absPath_dropLast names) hlen
      rw [normalizeSegment, pushName, if_neg h1, if_pos h2, if_neg h1, if_pos h2,
        dropSegment_absPath hn, if_pos hle]
    · obtain ⟨hne, hdot⟩ := not_or.1 h1
      rw [normalizeSegment_name hn ⟨hne, hs, hdot, h2⟩, pushName, if_neg h1, if_neg h2]

lemma foldlM_normalizeSegment {segs names : List CString} {outSize : ℕ} {out : CString}
    (hn : ∀ c ∈ names, IsName c) (hs : ∀ seg ∈ segs, '/' ∉ seg)
    (hlen : (absPath names).length < outSize)
    (h : segs.foldlM (normalizeSegment outSize) (absPath names) = some out) :
    out = absPath (segs.foldl pushName names) ∧ (∀ c ∈ segs.foldl pushName names, IsName c) ∧
      out.length < outSize := by
  induction segs generalizing names with
  | nil =>
    obtain rfl : absPath names = out := by simpa using h
    exact ⟨rfl, hn, hlen⟩
  | cons seg segs ih =>
    have hseg := hs seg (by simp)
    rw [List.foldlM_cons, normalizeSegment_eq hn hseg hlen] at h
    split_ifs at h with hlt
    · exact ih (isName_pushName hn hseg) (fun s hs' => hs s (by simp [hs'])) hlt h
    · simp at h

def resolvedNames (path : CString) : List CString := (path.splitOn '/').foldl pushName []

theorem bindMountNormalize_spec {path out : CString} {outSize : ℕ} (hsize : 1 < outSize)
    (h : bindMountNormalize path outSize = some out) :
    out = absPath (resolvedNames path) ∧ (∀ c ∈ resolvedNames path, IsName c) ∧
      out.length < outSize :=
  foldlM_normalizeSegment (by simp) (fun _ hs => slash_notMem_splitOn hs) (by simpa using hsize) h

lemma length_absPath_append (names more : List CString) :
    (absPath names).length ≤ (absPath (names ++ more)).length := by
  cases more with
  | nil => simp
  | cons c more =>
    have hne : names ++ c :: more ≠ [] := by simp
    rw [absPath_of_ne hne, joinPath_append]
    by_cases hn : names = []
    · simp [hn]
    · simp [absPath_of_ne hn]

lemma foldlM_names {names more : List CString} {outSize : ℕ}
    (hn : ∀ c ∈ names ++ more, IsName c) (hlen : (absPath (names ++ more)).length < outSize) :
    more.foldlM (normalizeSegment outSize) (absPath names) = some (absPath (names ++ more)) := by
  induction more generalizing names with
  | nil => simp
  | cons c more ih =>
    have happ : names ++ c :: more = names ++ [c] ++ more := by simp
    have hle := length_absPath_append (names ++ [c]) more
    rw [← happ] at hle
    rw [List.foldlM_cons, normalizeSegment_name (fun d hd => hn d (by simp [hd])) (hn c (by simp)),
      if_pos (lt_of_le_of_lt hle hlen)]
    rw [happ] at hn hlen ⊢
    exact ih hn hlen

/-- A path that is normalized stays as it is. -/
theorem bindMountNormalize_absPath {names : List CString} {outSize : ℕ}
    (hn : ∀ c ∈ names, IsName c) (hlen : (absPath names).length < outSize) :
    bindMountNormalize (absPath names) outSize = some (absPath names) := by
  by_cases h : names = []
  · subst h
    rfl
  · have hs := splitOn_joinPath (fun c hc => (hn c hc).slash) (List.not_mem_nil (a := '/'))
    rw [List.nil_append] at hs
    rw [bindMountNormalize]
    conv_lhs => rw [absPath_of_ne h, hs, List.foldlM_cons]
    have hfold : names.foldlM (normalizeSegment outSize) (absPath []) =
        some (absPath ([] ++ names)) := foldlM_names (by simpa using hn) (by simpa using hlen)
    simpa [normalizeSegment] using hfold

/-! ### The longest match -/

lemma prefix_of_joinPath {ns names : List CString} {tail : CString} (hns : ∀ c ∈ ns, IsName c)
    (hn : ∀ c ∈ names, IsName c) (htail : endsName tail = true)
    (h : joinPath names = joinPath ns ++ tail) : ns <+: names := by
  induction ns generalizing names with
  | nil => exact List.nil_prefix
  | cons c ns ih =>
    cases names with
    | nil => simp at h
    | cons d names =>
      have hnext : endsName (joinPath names) = true := by
        simpa using endsName_joinPath names endsName_nil
      simp only [joinPath_cons, List.cons_append, List.append_assoc, List.cons.injEq, true_and] at h
      obtain ⟨rfl, hrest⟩ := name_unique (hn d (by simp)).slash (hns c (by simp)).slash hnext
        (endsName_joinPath ns htail) h
      rw [List.cons_prefix_cons]
      exact ⟨rfl, ih (fun e he => hns e (by simp [he])) (fun e he => hn e (by simp [he])) hrest⟩

structure BindMount.RoutedBy (m : BindMount) (ns : List CString) : Prop where
  ne_nil : ns ≠ []
  isName : ∀ c ∈ ns, IsName c
  path : m.path = joinPath ns
  len : m.pathLen = m.path.length

lemma BindMount.RoutedBy.take_path {m : BindMount} {ns : List CString} (hm : m.RoutedBy ns) :
    m.path.take m.pathLen = joinPath ns := by
  rw [hm.len, List.take_length, hm.path]

lemma BindMount.RoutedBy.covers_iff {m : BindMount} {ns names : List CString} (hm : m.RoutedBy ns)
    (hn : ∀ c ∈ names, IsName c) : m.covers (absPath names) = true ↔ ns <+: names := by
  have hlen : m.pathLen = (joinPath ns).length := by rw [hm.len, hm.path]
  simp only [BindMount.covers, hm.take_path, decide_eq_true_eq]
  constructor
  · rintro ⟨htake, hend⟩
    have habs : absPath names = joinPath ns ++ (absPath names).drop m.pathLen := by
      rw [htake, List.take_append_drop]
    have hne : names ≠ [] := by
      rintro rfl
      obtain ⟨c, ns, rfl⟩ := List.exists_cons_of_ne_nil hm.ne_nil
      have hc := (hm.isName c (by simp)).ne_nil
      rw [absPath_nil, joinPath_cons, List.cons_append, List.cons_append] at habs
      obtain ⟨-, habs⟩ := List.cons.inj habs
      have hlen0 := congrArg List.length habs
      simp only [List.length_nil, List.length_append] at hlen0
      exact hc (List.length_eq_zero_iff.1 (by omega))
    rw [absPath_of_ne hne] at habs hend
    exact prefix_of_joinPath hm.isName hn hend habs
  · rintro ⟨more, rfl⟩
    have hne : ns ++ more ≠ [] := by simp [hm.ne_nil]
    rw [absPath_of_ne hne, joinPath_append, hlen, List.take_left, List.drop_left]
    exact ⟨rfl, by simpa using endsName_joinPath more endsName_nil⟩

/-- The slots `bind_mount_find` chooses from. -/
def BindTable.Matches (t : BindTable) (cmpPath : CString) (readonlyOnly : Bool)
    (i : Fin fakefsMaxBindMounts) : Prop :=
  (t i).active = true ∧ (readonlyOnly = true → (t i).readOnly = true) ∧
    (t i).covers cmpPath = true

section Find

variable {t : BindTable} {cmpPath : CString} {readonlyOnly : Bool}

lemma bindMountBetter_of_matches {i : Fin fakefsMaxBindMounts}
    (best : Option (Fin fakefsMaxBindMounts) × ℤ) (h : t.Matches cmpPath readonlyOnly i) :
    bindMountBetter t cmpPath readonlyOnly best i =
      if best.2 < ((t i).pathLen : ℤ) then (some i, ((t i).pathLen : ℤ)) else best := by
  obtain ⟨ha, hr, hc⟩ := h
  unfold bindMountBetter
  rw [if_neg (by simp [ha]), if_neg, if_neg (by simp [hc])]
  rintro ⟨hro, hi⟩
  simp [hr hro] at hi

lemma bindMountBetter_of_not {i : Fin fakefsMaxBindMounts}
    (best : Option (Fin fakefsMaxBindMounts) × ℤ) (h : ¬ t.Matches cmpPath readonlyOnly i) :
    bindMountBetter t cmpPath readonlyOnly best i = best := by
  unfold bindMountBetter
  split_ifs with h1 h2 h3 h4
  · rfl
  · rfl
  · rfl
  · refine absurd ⟨by simpa using h1, ?_, by simpa using h3⟩ h
    intro hro
    by_contra hi
    exact h2 ⟨hro, by simpa using hi⟩
  · rfl

lemma foldl_bindMountBetter (t : BindTable) (cmpPath : CString) (readonlyOnly : Bool)
    (l : List (Fin fakefsMaxBindMounts)) (best : Option (Fin fakefsMaxBindMounts) × ℤ) :
    let r := l.foldl (bindMountBetter t cmpPath readonlyOnly) best
    (r = best ∨ ∃ i, t.Matches cmpPath readonlyOnly i ∧ r = (some i, ((t i).pathLen : ℤ))) ∧
      best.2 ≤ r.2 ∧ ∀ i ∈ l, t.Matches cmpPath readonlyOnly i → ((t i).pathLen : ℤ) ≤ r.2 := by
  induction l generalizing best with
  | nil => simp
  | cons i l ih =>
    obtain ⟨hr, hle, hall⟩ := ih (bindMountBetter t cmpPath readonlyOnly best i)
    by_cases hm : t.Matches cmpPath readonlyOnly i
    · have hstep : best.2 ≤ (bindMountBetter t cmpPath readonlyOnly best i).2 ∧
          ((t i).pathLen : ℤ) ≤ (bindMountBetter t cmpPath readonlyOnly best i).2 := by
        rw [bindMountBetter_of_matches best hm]
        split_ifs with hlt
        · exact ⟨hlt.le, le_refl _⟩
        · exact ⟨le_refl _, not_lt.1 hlt⟩
      refine ⟨?_, hstep.1.trans hle, ?_⟩
      · rcases hr with hr | hr
        · rw [bindMountBetter_of_matches best hm] at hr
          split_ifs at hr with hlt
          · exact Or.inr ⟨i, hm, by simpa [bindMountBetter_of_matches best hm, hlt] using hr⟩
          · exact Or.inl (by simpa [bindMountBetter_of_matches best hm, hlt] using hr)
        · exact Or.inr hr
      · intro j hj hmj
        rcases List.mem_cons.1 hj with rfl | hj
        · exact hstep.2.trans hle
        · exact hall j hj hmj
    · rw [bindMountBetter_of_not best hm] at hr hle hall
      simp only [List.foldl_cons, bindMountBetter_of_not best hm]
      refine ⟨hr, hle, ?_⟩
      intro j hj hmj
      rcases List.mem_cons.1 hj with rfl | hj
      · exact absurd hmj hm
      · exact hall j hj hmj

theorem bindMountFind_some {i : Fin fakefsMaxBindMounts}
    (h : bindMountFind t cmpPath readonlyOnly = some i) :
    t.Matches cmpPath readonlyOnly i ∧
      ∀ j, t.Matches cmpPath readonlyOnly j → (t j).pathLen ≤ (t i).pathLen := by
  obtain ⟨hr, -, hall⟩ := foldl_bindMountBetter t cmpPath readonlyOnly
    (List.finRange fakefsMaxBindMounts) (none, -1)
  rcases hr with hr | ⟨k, hk, hr⟩
  · rw [bindMountFind, hr] at h
    cases h
  · rw [bindMountFind, hr] at h
    obtain rfl := Option.some.inj h
    refine ⟨hk, fun j hj => ?_⟩
    have hle := hall j (List.mem_finRange j) hj
    rw [hr] at hle
    have hle' : ((t j).pathLen : ℤ) ≤ (t k).pathLen := hle
    exact_mod_cast hle'

theorem bindMountFind_none (h : bindMountFind t cmpPath readonlyOnly = none)
    (i : Fin fakefsMaxBindMounts) : ¬ t.Matches cmpPath readonlyOnly i := by
  intro hi
  obtain ⟨hr, -, hall⟩ := foldl_bindMountBetter t cmpPath readonlyOnly
    (List.finRange fakefsMaxBindMounts) (none, -1)
  rcases hr with hr | ⟨k, -, hr⟩
  · have hle := hall i (List.mem_finRange i) hi
    rw [hr] at hle
    have hneg : ((t i).pathLen : ℤ) ≤ -1 := hle
    omega
  · rw [bindMountFind, hr] at h
    cases h

end Find

/-! ### Tables that calls have built -/

/-- The active slots are for different normalized paths, and none is for the root. -/
structure BindTable.Routed (t : BindTable) : Prop where
  routed : ∀ i, (t i).active = true → ∃ ns, (t i).RoutedBy ns
  inj : ∀ i j, (t i).active = true → (t j).active = true → (t i).path = (t j).path → i = j

lemma bindSlotOf_some {t : BindTable} {path : CString} {i : Fin fakefsMaxBindMounts}
    (h : bindSlotOf t path = some i) : (t i).active = true ∧ (t i).path = path := by
  simpa using List.find?_some h

lemma bindSlotOf_none {t : BindTable} {path : CString} (h : bindSlotOf t path = none)
    (i : Fin fakefsMaxBindMounts) : (t i).active = true → (t i).path ≠ path := by
  simpa using List.find?_eq_none.1 h i (List.mem_finRange i)

lemma bindFreeSlot_some {t : BindTable} {i : Fin fakefsMaxBindMounts}
    (h : bindFreeSlot t = some i) : (t i).active = false := by
  simpa using List.find?_some h

inductive BindSlot (t : BindTable) (path hostPath : CString) :
    Fin fakefsMaxBindMounts → Bool → Prop
  | again {slot} (h : bindSlotOf t path = some slot) :
      BindSlot t path hostPath slot (decide ((t slot).hostPath ≠ hostPath))
  | fresh {slot} (h : bindSlotOf t path = none) (hfree : bindFreeSlot t = some slot) :
      BindSlot t path hostPath slot true

/-- What a call that succeeds does. -/
theorem fakefsBindMount_ok {h : BindHost} {b : Binds} {linuxPath hostPath : CString}
    {readOnly : Bool} (hok : (fakefsBindMount h b linuxPath hostPath readOnly).1 = none) :
    let host := (h.realpath hostPath).getD hostPath
    ∃ path isFile slot hostChanged, bindMountNormalize linuxPath maxPath = some path ∧
      BindSlot b.mounts path host slot hostChanged ∧
      (hostChanged = true → h.link (fixPath path) host = true) ∧
      fakefsBindMount h b linuxPath hostPath readOnly =
        (none, { mounts := update b.mounts slot (BindMount.make path host readOnly)
                 db := bindMetaTop (if hostChanged then bindMetaStash b.db path else b.db) path
                  (bindTopMode isFile readOnly) }) := by
  intro host
  have hat : ∀ slot changed path isFile,
      (bindAt h b slot changed path host readOnly isFile).1 = none →
      (changed = true → h.link (fixPath path) host = true) ∧
      bindAt h b slot changed path host readOnly isFile =
        (none, { mounts := update b.mounts slot (BindMount.make path host readOnly)
                 db := bindMetaTop (if changed then bindMetaStash b.db path else b.db) path
                  (bindTopMode isFile readOnly) }) := by
    intro slot changed path isFile h1
    by_cases hc : changed = true ∧ h.link (fixPath path) host = false
    · simp [bindAt, hc] at h1
    · refine ⟨fun hch => ?_, if_neg hc⟩
      by_contra hl
      exact hc ⟨hch, by simpa using hl⟩
  by_cases habs : linuxPath.head? ≠ some '/'
  · rw [fakefsBindMount, if_pos habs] at hok
    cases hok
  · rw [fakefsBindMount, if_neg habs] at hok ⊢
    split at hok
    · cases hok
    · rename_i path hpath
      split at hok
      · cases hok
      · rename_i isFile hfile
        split at hok
        · rename_i slot hslot
          obtain ⟨hl, heq⟩ := hat _ _ _ _ hok
          exact ⟨path, isFile, slot, _, hpath, .again hslot, hl, heq⟩
        · rename_i hslot
          split at hok
          · rename_i slot hfree
            obtain ⟨hl, heq⟩ := hat _ _ _ _ hok
            exact ⟨path, isFile, slot, _, hpath, .fresh hslot hfree, hl, heq⟩
          · cases hok

theorem fakefsBindUnmount_ok {b : Binds} {linuxPath : CString}
    (hok : (fakefsBindUnmount b linuxPath).1 = none) :
    ∃ path slot, bindMountNormalize linuxPath maxPath = some path ∧
      bindSlotOf b.mounts path = some slot ∧
      fakefsBindUnmount b linuxPath =
        (none, { mounts := update b.mounts slot { b.mounts slot with active := false }
                 db := bindMetaRestore b.db path }) := by
  unfold fakefsBindUnmount at hok ⊢
  split at hok
  · cases hok
  · rename_i path hpath
    split at hok
    · cases hok
    · rename_i slot hslot
      exact ⟨path, slot, hpath, hslot, rfl⟩

lemma routedBy_make {h : BindHost} {b : Binds} {linuxPath path host : CString} {readOnly : Bool}
    {slot : Fin fakefsMaxBindMounts} {changed : Bool} (hb : b.mounts.Routed)
    (hpath : bindMountNormalize linuxPath maxPath = some path)
    (hslot : BindSlot b.mounts path host slot changed)
    (hlink : changed = true → h.link (fixPath path) host = true) :
    ∃ ns, path = joinPath ns ∧ (BindMount.make path host readOnly).RoutedBy ns := by
  obtain ⟨heq, hn, hlen⟩ := bindMountNormalize_spec (by decide) hpath
  have hne : resolvedNames linuxPath ≠ [] := by
    intro hnil
    rw [hnil, absPath_nil] at heq
    cases hslot with
    | again hs =>
      obtain ⟨hact, hpeq⟩ := bindSlotOf_some hs
      obtain ⟨ns, hns⟩ := hb.routed _ hact
      -- the path of an active slot has a name in it
      have hc := hns.covers_iff (by simp : ∀ c ∈ ([] : List CString), IsName c)
      have hcov : (b.mounts slot).covers (absPath []) = true := by
        simp [BindMount.covers, hpeq, heq, hns.len]
      exact hns.ne_nil (List.prefix_nil.1 (hc.1 hcov))
    | fresh hs hfree =>
      have hl := hlink rfl
      rw [heq, fixPath, if_pos rfl, h.link_nil] at hl
      cases hl
  have hjoin : path = joinPath (resolvedNames linuxPath) := by rw [heq, absPath_of_ne hne]
  have htake : path.take (pathMax - 1) = path := by
    refine List.take_of_length_le ?_
    have hmax : maxPath = pathMax := rfl
    omega
  exact ⟨_, hjoin, hne, hn, by simp [BindMount.make, htake, hjoin.symm],
    by simp [BindMount.make, htake]⟩

lemma Routed.update {t : BindTable} (ht : t.Routed) {slot : Fin fakefsMaxBindMounts}
    {m : BindMount} (hm : m.active = true → ∃ ns, m.RoutedBy ns)
    (hinj : ∀ i, i ≠ slot → (t i).active = true → m.active = true → (t i).path ≠ m.path) :
    BindTable.Routed (update t slot m) := by
  constructor
  · intro i hi
    by_cases h : i = slot
    · subst h
      simp only [update_self] at hi ⊢
      exact hm hi
    · simp only [update_of_ne h] at hi ⊢
      exact ht.routed i hi
  · intro i j hi hj hp
    by_cases hs : i = slot <;> by_cases hs' : j = slot
    · rw [hs, hs']
    · subst hs
      simp only [update_self, update_of_ne hs'] at hi hj hp
      exact absurd hp.symm (hinj j hs' hj hi)
    · subst hs'
      simp only [update_self, update_of_ne hs] at hi hj hp
      exact absurd hp (hinj i hs hi hj)
    · simp only [update_of_ne hs, update_of_ne hs'] at hi hj hp
      exact ht.inj i j hi hj hp

theorem routed_bindStep {b : Binds} {c : BindCall} (hb : b.mounts.Routed) (hc : c.Succeeds b) :
    (bindStep b c).mounts.Routed := by
  cases c with
  | mount h linuxPath hostPath readOnly =>
    obtain ⟨path, isFile, slot, changed, hpath, hslot, hlink, heq⟩ := fakefsBindMount_ok hc
    obtain ⟨ns, hjoin, hns⟩ :
        ∃ ns, path = joinPath ns ∧ (BindMount.make path ((h.realpath hostPath).getD hostPath)
          readOnly).RoutedBy ns :=
      routedBy_make hb hpath hslot hlink
    simp only [bindStep, bindCall, heq]
    refine Routed.update hb (fun _ => ⟨ns, hns⟩) ?_
    intro i hi hact _
    rw [hns.path, ← hjoin]
    cases hslot with
    | again hs =>
      obtain ⟨hact', hpeq⟩ := bindSlotOf_some hs
      intro hp
      exact hi (hb.inj i slot hact hact' (hp.trans hpeq.symm))
    | fresh hs hfree => exact bindSlotOf_none hs i hact
  | unmount linuxPath =>
    obtain ⟨path, slot, hpath, hslot, heq⟩ := fakefsBindUnmount_ok hc
    simp only [bindStep, bindCall, heq]
    exact Routed.update hb (by simp) (by simp)

lemma routed_unused : BindTable.Routed fun _ => BindMount.unused := by
  constructor
  · intro i h
    cases h
  · intro i j h
    cases h

theorem routed_run {b : Binds} {calls : List BindCall} (hb : b.mounts.Routed)
    (hcalls : RunAll bindStep (fun b c => c.Succeeds b) b calls) :
    (run bindStep b calls).mounts.Routed :=
  run_invariant (P := fun b => b.mounts.Routed) (fun _ _ hc hb => routed_bindStep hb hc) hcalls hb

/-! ### Routing -/

/-- A slot whose path is a prefix of `path`, name by name. -/
def BindTable.Above (t : BindTable) (path : CString) (i : Fin fakefsMaxBindMounts) : Prop :=
  (t i).active = true ∧ components (t i).path <+: components path

def BindTable.Nearest (t : BindTable) (path : CString) (i : Fin fakefsMaxBindMounts) : Prop :=
  t.Above path i ∧
    ∀ j, t.Above path j → (components (t j).path).length ≤ (components (t i).path).length

/-- A path as `bind_mount_normalize` leaves it. -/
structure NormalPath (path : CString) : Prop where
  head : path.head? = some '/'
  names : ∀ c ∈ components path, c ≠ [] ∧ c ≠ ['.'] ∧ c ≠ ['.', '.']
  joined : path = absPath (components path)
  last : path ≠ ['/'] → path.getLast? ≠ some '/'

section Routed

variable {t : BindTable}

lemma BindMount.RoutedBy.components_path {m : BindMount} {ns : List CString} (hm : m.RoutedBy ns) :
    components m.path = ns := by
  rw [hm.path, components_joinPath hm.isName]

lemma BindTable.Routed.matches_iff (ht : t.Routed) {names : List CString}
    (hn : ∀ c ∈ names, IsName c) {i : Fin fakefsMaxBindMounts} :
    t.Matches (absPath names) false i ↔ t.Above (absPath names) i := by
  rw [BindTable.Matches, BindTable.Above, components_absPath hn]
  constructor
  · rintro ⟨ha, -, hc⟩
    obtain ⟨ns, hns⟩ := ht.routed i ha
    rw [hns.components_path]
    exact ⟨ha, (hns.covers_iff hn).1 hc⟩
  · rintro ⟨ha, hp⟩
    obtain ⟨ns, hns⟩ := ht.routed i ha
    rw [hns.components_path] at hp
    exact ⟨ha, by simp, (hns.covers_iff hn).2 hp⟩

lemma length_joinPath_le {ns ms names : List CString} (hm : ms <+: names) (hn : ns <+: names) :
    (joinPath ms).length ≤ (joinPath ns).length ↔ ms.length ≤ ns.length := by
  rcases List.prefix_or_prefix_of_prefix hm hn with ⟨more, rfl⟩ | ⟨more, rfl⟩
  · simp
  · cases more with
    | nil => simp
    | cons c more => simp

theorem bindMountFind_iff_nearest (ht : t.Routed) {names : List CString}
    (hn : ∀ c ∈ names, IsName c) (i : Fin fakefsMaxBindMounts) :
    bindMountFind t (absPath names) false = some i ↔ t.Nearest (absPath names) i := by
  have hlen : ∀ {j k}, t.Above (absPath names) j → t.Above (absPath names) k →
      ((t j).pathLen ≤ (t k).pathLen ↔
        (components (t j).path).length ≤ (components (t k).path).length) := by
    intro j k hj hk
    obtain ⟨ns, hns⟩ := ht.routed j hj.1
    obtain ⟨ms, hms⟩ := ht.routed k hk.1
    have hj' := hj.2
    have hk' := hk.2
    rw [components_absPath hn, hns.components_path] at hj'
    rw [components_absPath hn, hms.components_path] at hk'
    rw [hns.len, hms.len, hns.components_path, hms.components_path, hns.path, hms.path]
    exact length_joinPath_le hj' hk'
  constructor
  · intro h
    obtain ⟨hi, hbest⟩ := bindMountFind_some h
    have hab := (ht.matches_iff hn).1 hi
    refine ⟨hab, fun j hj => ?_⟩
    exact (hlen hj hab).1 (hbest j ((ht.matches_iff hn).2 hj))
  · rintro ⟨hab, hbest⟩
    cases hf : bindMountFind t (absPath names) false with
    | none => exact absurd ((ht.matches_iff hn).2 hab) (bindMountFind_none hf i)
    | some k =>
      obtain ⟨hk, hlong⟩ := bindMountFind_some hf
      have hk := (ht.matches_iff hn).1 hk
      -- two prefixes of one length are equal, and so are the slots
      have hle := hbest k hk
      have hge := (hlen hab hk).1 (hlong i ((ht.matches_iff hn).2 hab))
      have heq : components (t k).path = components (t i).path :=
        (List.prefix_of_prefix_length_le hk.2 hab.2 hle).eq_of_length (le_antisymm hle hge)
      obtain ⟨ns, hns⟩ := ht.routed i hab.1
      obtain ⟨ms, hms⟩ := ht.routed k hk.1
      rw [hns.components_path, hms.components_path] at heq
      rw [ht.inj k i hk.1 hab.1 (by rw [hns.path, hms.path, heq])]

/-- No slot is found where none covers the path. -/
theorem bindMountFind_none_iff (ht : t.Routed) {names : List CString}
    (hn : ∀ c ∈ names, IsName c) :
    bindMountFind t (absPath names) false = none ↔ ∀ i, ¬ t.Above (absPath names) i := by
  constructor
  · intro h i hi
    exact bindMountFind_none h i ((ht.matches_iff hn).2 hi)
  · intro h
    cases hf : bindMountFind t (absPath names) false with
    | none => rfl
    | some k => exact absurd ((ht.matches_iff hn).1 (bindMountFind_some hf).1) (h k)

lemma normalPath_absPath {names : List CString} (hn : ∀ c ∈ names, IsName c) :
    NormalPath (absPath names) := by
  refine ⟨head_absPath names, ?_, by rw [components_absPath hn], ?_⟩
  · rw [components_absPath hn]
    exact fun c hc => ⟨(hn c hc).ne_nil, (hn c hc).dot, (hn c hc).dotDot⟩
  · intro hroot
    rcases List.eq_nil_or_concat names with rfl | ⟨init, c, rfl⟩
    · exact absurd rfl hroot
    · have hc := hn c (by simp)
      rw [List.concat_eq_append, absPath_concat, List.getLast?_append,
        List.getLast?_cons, List.getLast?_eq_some_getLast hc.ne_nil]
      simp only [Option.getD_some, Option.some_or, ne_eq, Option.some.injEq]
      intro hlast
      exact hc.slash (hlast ▸ List.getLast_mem hc.ne_nil)

lemma drop_pathLen {m : BindMount} {ns names rest : List CString} (hm : m.RoutedBy ns)
    (hnames : names = ns ++ rest) : (absPath names).drop m.pathLen = joinPath rest := by
  have hne : names ≠ [] := by
    rw [hnames]
    simp [hm.ne_nil]
  rw [absPath_of_ne hne, hnames, joinPath_append, hm.len, hm.path, List.drop_left]

end Routed

/-- A path that the table routes goes to the host path of the nearest slot, followed by the names
that are left. -/
theorem bindMountTranslatePathEx_table {t : BindTable} (ht : t.Routed) {hook : TranslateHook}
    {path out : CString} {outSize : ℕ}
    (h : bindMountTranslatePathEx hook t path outSize = some (out, false)) :
    ∃ norm i rest, bindMountNormalize path maxPath = some norm ∧ t.Nearest norm i ∧
      components norm = components (t i).path ++ rest ∧ (∀ c ∈ rest, IsName c) ∧
      out = (t i).hostPath ++ joinPath rest := by
  rw [bindMountTranslatePathEx, Option.bind_eq_bind, Option.bind_eq_some_iff] at h
  obtain ⟨norm, hnorm, h⟩ := h
  obtain ⟨rfl, hn, -⟩ := bindMountNormalize_spec (by decide) hnorm
  cases hhook : hook.bind fun f => f (absPath (resolvedNames path)) with
  | some o => simp [hhook] at h
  | none =>
    rw [hhook] at h
    simp only [Option.bind_eq_bind] at h
    obtain ⟨i, hfind, h⟩ := Option.bind_eq_some_iff.1 h
    have hnear := (bindMountFind_iff_nearest ht hn i).1 hfind
    obtain ⟨ns, hns⟩ := ht.routed i hnear.1.1
    have habove := hnear.1.2
    rw [components_absPath hn, hns.components_path] at habove
    obtain ⟨rest, hrest⟩ := habove
    rw [drop_pathLen hns hrest.symm] at h
    split_ifs at h with hfit
    obtain ⟨rfl, -⟩ := Prod.mk.inj (Option.some.inj h)
    refine ⟨_, i, rest, hnorm, hnear, ?_, ?_, rfl⟩
    · rw [components_absPath hn, hns.components_path, hrest]
    · intro c hc
      exact hn c (hrest ▸ List.mem_append_right ns hc)

lemma bindMountTranslatePathEx_nearest {t : BindTable} (ht : t.Routed) {hook : TranslateHook}
    {path norm : CString} (hnorm : bindMountNormalize path maxPath = some norm)
    (hhook : hook.bind (fun f => f norm) = none) {i : Fin fakefsMaxBindMounts}
    (hi : t.Nearest norm i) (outSize : ℕ) :
    ∃ rest, components norm = components (t i).path ++ rest ∧ (∀ c ∈ rest, IsName c) ∧
      bindMountTranslatePathEx hook t path outSize =
        if outSize ≤ ((t i).hostPath ++ joinPath rest).length then none
        else some ((t i).hostPath ++ joinPath rest, false) := by
  obtain ⟨rfl, hn, -⟩ := bindMountNormalize_spec (by decide) hnorm
  have hfind := (bindMountFind_iff_nearest ht hn i).2 hi
  obtain ⟨ns, hns⟩ := ht.routed i hi.1.1
  have habove := hi.1.2
  rw [components_absPath hn, hns.components_path] at habove
  obtain ⟨rest, hrest⟩ := habove
  refine ⟨rest, ?_, ?_, ?_⟩
  · rw [components_absPath hn, hns.components_path, hrest]
  · intro c hc
    exact hn c (hrest ▸ List.mem_append_right ns hc)
  · simp only [bindMountTranslatePathEx, hnorm, Option.bind_eq_bind, Option.bind_some, hhook,
      hfind, drop_pathLen hns hrest.symm]

lemma bindMountTranslatePathEx_none {t : BindTable} (ht : t.Routed) {hook : TranslateHook}
    {path norm : CString} (hnorm : bindMountNormalize path maxPath = some norm)
    (hhook : hook.bind (fun f => f norm) = none) (h : ∀ i, ¬ t.Above norm i) (outSize : ℕ) :
    bindMountTranslatePathEx hook t path outSize = none := by
  obtain ⟨rfl, hn, -⟩ := bindMountNormalize_spec (by decide) hnorm
  have hfind := (bindMountFind_none_iff ht hn).2 h
  simp only [bindMountTranslatePathEx, hnorm, Option.bind_eq_bind, Option.bind_some, hhook, hfind,
    Option.bind_none]

lemma BindTable.Routed.normalPath {t : BindTable} (ht : t.Routed) {i : Fin fakefsMaxBindMounts}
    (hi : (t i).active = true) : NormalPath (t i).path := by
  obtain ⟨ns, hns⟩ := ht.routed i hi
  rw [hns.path, ← absPath_of_ne hns.ne_nil]
  exact normalPath_absPath hns.isName

def Binds.start (db : MetaDb) : Binds := ⟨fun _ => .unused, db⟩

/-- Bind mounts route a path to the slot with the longest matching path, and what is left of the
path is put behind the host path of the slot. -/
theorem bindMount_routing {db : MetaDb} {calls : List BindCall}
    (hcalls : RunAll bindStep (fun b c => c.Succeeds b) (Binds.start db) calls) :
    let t := (run bindStep (Binds.start db) calls).mounts
    (∀ i, (t i).active = true → NormalPath (t i).path) ∧
      (∀ path norm outSize, 1 < outSize → bindMountNormalize path outSize = some norm →
        NormalPath norm ∧ bindMountNormalize norm outSize = some norm) ∧
      ∀ path norm, bindMountNormalize path maxPath = some norm →
        (∀ i, bindMountFind t norm false = some i ↔ t.Nearest norm i) ∧
        (bindMountFind t norm false = none ↔ ∀ i, ¬ t.Above norm i) ∧
        (∀ hook out outSize, bindMountTranslatePathEx hook t path outSize = some (out, false) →
          ∃ i rest, t.Nearest norm i ∧ components norm = components (t i).path ++ rest ∧
            (∀ c ∈ rest, IsName c) ∧ out = (t i).hostPath ++ joinPath rest) ∧
        ∀ hook outSize, hook.bind (fun f => f norm) = none →
          ((∀ i, ¬ t.Above norm i) → bindMountTranslatePathEx hook t path outSize = none) ∧
          ∀ i, t.Nearest norm i → ∃ rest, components norm = components (t i).path ++ rest ∧
            bindMountTranslatePathEx hook t path outSize =
              if outSize ≤ ((t i).hostPath ++ joinPath rest).length then none
              else some ((t i).hostPath ++ joinPath rest, false) := by
  intro t
  have ht : t.Routed := routed_run routed_unused hcalls
  refine ⟨fun i hi => ht.normalPath hi, ?_, ?_⟩
  · intro path norm outSize hsize hnorm
    obtain ⟨rfl, hn, hlen⟩ := bindMountNormalize_spec hsize hnorm
    exact ⟨normalPath_absPath hn, bindMountNormalize_absPath hn hlen⟩
  · intro path norm hnorm
    obtain ⟨hnorm', hn, -⟩ := bindMountNormalize_spec (by decide) hnorm
    refine ⟨?_, ?_, ?_, ?_⟩
    · intro i
      rw [hnorm']
      exact bindMountFind_iff_nearest ht hn i
    · rw [hnorm']
      exact bindMountFind_none_iff ht hn
    · intro hook out outSize h
      obtain ⟨norm', i, rest, heq, hi⟩ := bindMountTranslatePathEx_table ht h
      obtain rfl : norm = norm' := Option.some.inj (hnorm.symm.trans heq)
      exact ⟨i, rest, hi⟩
    · intro hook outSize hhook
      refine ⟨fun h => bindMountTranslatePathEx_none ht hnorm hhook h outSize, fun i hi => ?_⟩
      obtain ⟨rest, hrest, -, heq⟩ := bindMountTranslatePathEx_nearest ht hnorm hhook hi outSize
      exact ⟨rest, hrest, heq⟩

def BindHost.willing : BindHost where
  isFile _ := some false
  realpath path := some path
  link name _ := name ≠ []
  link_nil _ := rfl

/-- The directory `/m/n` inside `/m`. -/
theorem bindMount_routing_nested :
    let calls : List BindCall := [.mount .willing ['/', 'm'] ['/', 'h'] true,
      .mount .willing ['/', 'm', '/', '/', 'n', '/'] ['/', 'k'] false]
    let t := (run bindStep (Binds.start ⟨.empty, .empty⟩) calls).mounts
    ∀ i, bindMountFind t ['/', 'm', '/', 'n', '/', 'x'] false = some i ↔
      t.Nearest ['/', 'm', '/', 'n', '/', 'x'] i := by
  intro calls
  have hcalls : RunAll bindStep (fun b c => c.Succeeds b) (Binds.start ⟨.empty, .empty⟩) calls :=
    ⟨rfl, rfl, trivial⟩
  exact ((bindMount_routing hcalls).2.2 ['/', 'm', '/', 'n', '/', 'x'] _ rfl).1

/-- Only the root ends with a slash. -/
theorem bindMountNormalize_root : ¬ ∀ path norm, bindMountNormalize path maxPath = some norm →
    norm.head? = some '/' ∧ (∀ c ∈ components norm, c ≠ [] ∧ c ≠ ['.'] ∧ c ≠ ['.', '.']) ∧
      norm.getLast? ≠ some '/' := by
  intro h
  have hroot : bindMountNormalize ['/'] maxPath = some ['/'] := rfl
  exact (h _ _ hroot).2.2 rfl

end ShellBox
