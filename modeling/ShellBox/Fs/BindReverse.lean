import ShellBox.Fs.BindRouting

/-!
# From a host path back to the guest's path

The kernel of the host tells the path of an open file, and the table of bind mounts is searched
by host path for the guest's name of it. The search by guest path that follows need not come to
the same mount: another one may be mounted inside the first, and hides what is in its directory
there.
-/

namespace ShellBox

open Function

def privateName : CString := ['p', 'r', 'i', 'v', 'a', 't', 'e']

def varName : CString := ['v', 'a', 'r']

/-- `fakefs_host_path_contains_rootfs`; `root` is `g_rootfs_data_path`. -/
def fakefsHostPathContainsRootfs (root hostPath : CString) (hostPathLen : ℕ) : Bool :=
  if root.length = 0 then false
  else if root.length < hostPathLen then false
  else if hostPath.take hostPathLen ≠ root.take hostPathLen then false
  else endsName (root.drop hostPathLen)

/-- The two comparisons of a slot in `fakefs_bind_mount_resolve_path`, and what is behind the host
path of the slot. -/
def BindMount.behindHost (m : BindMount) (resolved : CString) : Option CString :=
  if resolved.take m.hostPathLen = m.hostPath.take m.hostPathLen ∧
      endsName (resolved.drop m.hostPathLen) then
    some (resolved.drop m.hostPathLen)
  else if m.hostPath.take 5 = joinPath [varName] ++ ['/'] ∧
      resolved.take 13 = joinPath [privateName, varName] ++ ['/'] then
    let resolvedNoPrivate := resolved.drop 8
    if resolvedNoPrivate.take m.hostPathLen = m.hostPath.take m.hostPathLen ∧
        endsName (resolvedNoPrivate.drop m.hostPathLen) then
      some (resolvedNoPrivate.drop m.hostPathLen)
    else none
  else none

def BindMount.offers (m : BindMount) (root resolved : CString) : Option CString :=
  if m.active = false then none
  else if fakefsHostPathContainsRootfs root m.hostPath m.hostPathLen then none
  else m.behindHost resolved

/-- The body of the loop of `fakefs_bind_mount_resolve_path`, on `best` with `best_rest` and
`best_len`. -/
def bindMountResolveBetter (t : BindTable) (root resolved : CString)
    (best : Option (Fin fakefsMaxBindMounts × CString) × ℤ) (i : Fin fakefsMaxBindMounts) :
    Option (Fin fakefsMaxBindMounts × CString) × ℤ :=
  match (t i).offers root resolved with
  | none      => best
  | some rest => if best.2 < (t i).hostPathLen then (some (i, rest), (t i).hostPathLen) else best

/-- `g_path_reverse_hook`. -/
abbrev ReverseHook := Option (CString → Option CString)

def fakefsBindMountResolvePath (reverse : ReverseHook) (t : BindTable) (root resolved : CString)
    (outSize : ℕ) : Option CString :=
  match ((List.finRange fakefsMaxBindMounts).foldl (bindMountResolveBetter t root resolved)
    (none, -1)).1 with
  | some (i, rest) =>
    let out := (t i).path ++ rest
    if outSize ≤ out.length then none else some out
  | none => reverse.bind fun h => h resolved

/-! ### What is expected of it -/

/-- A host path, and the same path without the `/private` in front of its `/var`. -/
def SameHost (names out : List CString) : Prop :=
  out = names ∨ names = privateName :: out ∧ out.head? = some varName

/-- The hooks know other paths than the table, and the reverse one is the counterpart of the
other. -/
structure HooksFit (t : BindTable) (hook : TranslateHook) (reverse : ReverseHook) : Prop where
  table : ∀ path i, t.Above path i → hook.bind (fun h => h path) = none
  counterpart : ∀ resolved path, reverse.bind (fun h => h resolved) = some path →
    ∃ norm out, bindMountNormalize path maxPath = some norm ∧
      hook.bind (fun h => h norm) = some out ∧ SameHost (components resolved) (components out)

def LeadsBack (hook : TranslateHook) (reverse : ReverseHook) (t : BindTable)
    (root resolved : CString) : Prop :=
  ∀ path, fakefsBindMountResolvePath reverse t root resolved maxPath = some path →
    ∃ out viaHook, bindMountTranslatePathEx hook t path maxPath = some (out, viaHook) ∧
      SameHost (components resolved) (components out)

/-- The slot with the longest host path above a host path, the first of them, and what follows. -/
structure BindTable.NearestHost (t : BindTable) (root resolved : CString)
    (i : Fin fakefsMaxBindMounts) (rest : CString) : Prop where
  offers : (t i).offers root resolved = some rest
  longest : ∀ j rest', (t j).offers root resolved = some rest' →
    (t j).hostPathLen ≤ (t i).hostPathLen
  first : ∀ j rest', (t j).offers root resolved = some rest' →
    (t j).hostPathLen = (t i).hostPathLen → i ≤ j

/-- No mount hides the file of a host path: on the way to its guest path the deepest mount is the
one that the path is from, or it is of the very directory that it is mounted on. -/
def Unhidden (t : BindTable) (root : CString) (names : List CString) : Prop :=
  ∀ i rest, t.NearestHost root (absPath names) i rest → ((t i).path ++ rest).length < maxPath →
    ∀ j, t.Nearest ((t i).path ++ rest) j → j ≠ i →
      ∀ base below, names = base ++ below →
        components ((t i).path ++ rest) = components (t j).path ++ below →
          SameHost base (components (t j).hostPath)

/-! ### The search by host path -/

section Search

variable {t : BindTable} {root resolved : CString}

lemma foldl_bindMountResolveBetter {l : List (Fin fakefsMaxBindMounts)} (hl : l.Pairwise (· < ·))
    (best : Option (Fin fakefsMaxBindMounts × CString) × ℤ) :
    let r := l.foldl (bindMountResolveBetter t root resolved) best
    (r = best ∧ ∀ i ∈ l, ∀ rest, (t i).offers root resolved = some rest →
        ((t i).hostPathLen : ℤ) ≤ best.2) ∨
      ∃ i rest, (t i).offers root resolved = some rest ∧
        r = (some (i, rest), ((t i).hostPathLen : ℤ)) ∧ best.2 < (t i).hostPathLen ∧
        ∀ j ∈ l, ∀ rest', (t j).offers root resolved = some rest' →
          (t j).hostPathLen ≤ (t i).hostPathLen ∧
            ((t j).hostPathLen = (t i).hostPathLen → i ≤ j) := by
  induction l generalizing best with
  | nil => exact Or.inl ⟨rfl, fun i hi => absurd hi List.not_mem_nil⟩
  | cons a l ih =>
    obtain ⟨ha, hl⟩ := List.pairwise_cons.1 hl
    cases ho : (t a).offers root resolved with
    | none =>
      have hstep : bindMountResolveBetter t root resolved best a = best := by
        simp only [bindMountResolveBetter, ho]
      have hnot : ∀ rest, (t a).offers root resolved ≠ some rest := by simp [ho]
      simp only [List.foldl_cons, hstep]
      refine (ih hl best).imp ?_ ?_
      · rintro ⟨hr, hall⟩
        refine ⟨hr, fun i hi rest hrest => ?_⟩
        rcases List.mem_cons.1 hi with rfl | hi
        · exact absurd hrest (hnot rest)
        · exact hall i hi rest hrest
      · rintro ⟨i, rest, hi, hr, hlt, hall⟩
        refine ⟨i, rest, hi, hr, hlt, fun j hj rest' hrest' => ?_⟩
        rcases List.mem_cons.1 hj with rfl | hj
        · exact absurd hrest' (hnot rest')
        · exact hall j hj rest' hrest'
    | some resta =>
      by_cases hlt : best.2 < ((t a).hostPathLen : ℤ)
      · have hstep : bindMountResolveBetter t root resolved best a =
            (some (a, resta), ((t a).hostPathLen : ℤ)) := by
          simp only [bindMountResolveBetter, ho, hlt, if_true]
        simp only [List.foldl_cons, hstep]
        rcases ih hl (some (a, resta), ((t a).hostPathLen : ℤ)) with ⟨hr, hall⟩ | h
        · refine Or.inr ⟨a, resta, ho, hr, hlt, fun j hj rest' hrest' => ?_⟩
          rcases List.mem_cons.1 hj with rfl | hj
          · exact ⟨le_rfl, fun _ => le_rfl⟩
          · exact ⟨Int.ofNat_le.1 (hall j hj rest' hrest'), fun _ => (ha j hj).le⟩
        · obtain ⟨i, rest, hi, hr, hlt', hall⟩ := h
          simp only [Nat.cast_lt] at hlt'
          refine Or.inr ⟨i, rest, hi, hr, by omega, fun j hj rest' hrest' => ?_⟩
          rcases List.mem_cons.1 hj with rfl | hj
          · exact ⟨hlt'.le, fun heq => absurd heq hlt'.ne⟩
          · exact hall j hj rest' hrest'
      · have hstep : bindMountResolveBetter t root resolved best a = best := by
          simp only [bindMountResolveBetter, ho, hlt, if_false]
        simp only [List.foldl_cons, hstep]
        rcases ih hl best with ⟨hr, hall⟩ | ⟨i, rest, hi, hr, hlt', hall⟩
        · refine Or.inl ⟨hr, fun i hi rest hrest => ?_⟩
          rcases List.mem_cons.1 hi with rfl | hi
          · exact not_lt.1 hlt
          · exact hall i hi rest hrest
        · refine Or.inr ⟨i, rest, hi, hr, hlt', fun j hj rest' hrest' => ?_⟩
          rcases List.mem_cons.1 hj with rfl | hj
          · exact ⟨by omega, fun heq => by omega⟩
          · exact hall j hj rest' hrest'

lemma fakefsBindMountResolvePath_cases (reverse : ReverseHook) (t : BindTable)
    (root resolved : CString) (outSize : ℕ) :
    (∃ i rest, t.NearestHost root resolved i rest ∧
      fakefsBindMountResolvePath reverse t root resolved outSize =
        if outSize ≤ ((t i).path ++ rest).length then none else some ((t i).path ++ rest)) ∨
    (∀ i rest, ¬ t.NearestHost root resolved i rest) ∧
      fakefsBindMountResolvePath reverse t root resolved outSize =
        reverse.bind fun h => h resolved := by
  have hfold := @foldl_bindMountResolveBetter t root resolved _
    (List.pairwise_lt_finRange fakefsMaxBindMounts) (none, -1)
  rcases hfold with ⟨hr, hall⟩ | ⟨i, rest, hi, hr, -, hall⟩
  · refine Or.inr ⟨fun i rest hi => ?_, by simp only [fakefsBindMountResolvePath, hr]⟩
    have hle := hall i (List.mem_finRange i) rest hi.offers
    simp only at hle
    omega
  · refine Or.inl ⟨i, rest, ⟨hi, ?_, ?_⟩, by simp only [fakefsBindMountResolvePath, hr]⟩
    · exact fun j rest' hj => (hall j (List.mem_finRange j) rest' hj).1
    · exact fun j rest' hj => (hall j (List.mem_finRange j) rest' hj).2

lemma BindTable.NearestHost.unique {i j : Fin fakefsMaxBindMounts} {rest rest' : CString}
    (hi : t.NearestHost root resolved i rest) (hj : t.NearestHost root resolved j rest') :
    i = j ∧ rest = rest' := by
  have hlen := le_antisymm (hj.longest i rest hi.offers) (hi.longest j rest' hj.offers)
  obtain rfl := le_antisymm (hi.first j rest' hj.offers hlen.symm) (hj.first i rest hi.offers hlen)
  exact ⟨rfl, Option.some.inj (hi.offers.symm.trans hj.offers)⟩

end Search

/-! ### What is behind a host path -/

structure BindMount.HostedBy (m : BindMount) (hs : List CString) : Prop where
  isName : ∀ c ∈ hs, IsName c
  hostPath : m.hostPath = absPath hs
  len : m.hostPathLen = m.hostPath.length

def BindTable.Hosted (t : BindTable) : Prop :=
  ∀ i, (t i).active = true → ∃ hs, (t i).HostedBy hs

section Behind

variable {m : BindMount} {hs names : List CString}

lemma BindMount.HostedBy.names_eq (hm : m.HostedBy hs) (hn : ∀ c ∈ names, IsName c)
    (htake : (absPath names).take m.hostPathLen = m.hostPath.take m.hostPathLen)
    (hend : endsName ((absPath names).drop m.hostPathLen) = true) :
    ∃ s, names = hs ++ s ∧ (absPath names).drop m.hostPathLen = joinPath s ∧
      (hs = [] → s = []) := by
  have habs : absPath names = absPath hs ++ (absPath names).drop m.hostPathLen := by
    conv_lhs => rw [← List.take_append_drop m.hostPathLen (absPath names)]
    rw [htake, hm.len, List.take_length, hm.hostPath]
  by_cases hhs : hs = []
  · subst hhs
    cases names with
    | nil => exact ⟨[], rfl, by simp [hm.len, hm.hostPath], fun _ => rfl⟩
    | cons c ns =>
      obtain ⟨d, c', hc⟩ := List.exists_cons_of_ne_nil (hn c (by simp)).ne_nil
      have hslash : d ≠ '/' := fun h => (hn c (by simp)).slash (by simp [hc, h])
      have hlen : m.hostPathLen = 1 := by simp [hm.len, hm.hostPath]
      rw [hlen, absPath_of_ne (by simp), joinPath_cons, hc] at hend
      exact absurd (by simpa [endsName] using hend) hslash
  · rw [absPath_of_ne hhs] at habs
    have hne : names ≠ [] := by
      rintro rfl
      obtain ⟨c, hs, rfl⟩ := List.exists_cons_of_ne_nil hhs
      have hc := (hm.isName c (by simp)).ne_nil
      have hlen := congrArg List.length habs
      simp only [absPath_nil, joinPath_cons, List.length_append, List.length_cons,
        List.length_nil] at hlen
      exact hc (List.length_eq_zero_iff.1 (by omega))
    have habs' := habs
    rw [absPath_of_ne hne] at habs'
    rw [absPath_of_ne hne] at hend
    obtain ⟨s, rfl⟩ := prefix_of_joinPath hm.isName hn hend habs'
    refine ⟨s, rfl, ?_, fun h => absurd h hhs⟩
    rw [absPath_of_ne hne, joinPath_append] at habs ⊢
    exact (List.append_cancel_left habs).symm

lemma BindMount.HostedBy.behindHost (hm : m.HostedBy hs) (hn : ∀ c ∈ names, IsName c)
    {rest : CString} (h : m.behindHost (absPath names) = some rest) :
    ∃ s, rest = joinPath s ∧ (∀ c ∈ s, IsName c) ∧ (hs = [] → s = []) ∧
      (names = hs ++ s ∨ names = privateName :: (hs ++ s) ∧ (hs ++ s).head? = some varName) := by
  simp only [BindMount.behindHost] at h
  split_ifs at h with h1 h2 h3
  · obtain ⟨s, hs', hdrop, hnil⟩ := hm.names_eq hn h1.1 h1.2
    refine ⟨s, (Option.some.inj h).symm.trans hdrop, fun c hc => hn c ?_, hnil, Or.inl hs'⟩
    rw [hs']
    exact List.mem_append_right hs hc
  · have hne : names ≠ [] := by
      rintro rfl
      exact absurd h2.2 (by decide)
    have habs : joinPath names = joinPath [privateName, varName] ++
        '/' :: (absPath names).drop 13 := by
      conv_lhs => rw [← absPath_of_ne hne, ← List.take_append_drop 13 (absPath names)]
      rw [h2.2, List.append_assoc, List.singleton_append]
    have hnames : ∀ c ∈ [privateName, varName], IsName c := by
      intro c hc
      rcases List.mem_pair.1 hc with rfl | rfl <;> constructor <;> decide
    obtain ⟨more, rfl⟩ := prefix_of_joinPath hnames hn (endsName_slash _) habs
    have hdrop : (absPath ([privateName, varName] ++ more)).drop 8 =
        absPath (varName :: more) := by
      rw [absPath_of_ne hne, absPath_of_ne (by simp)]
      rfl
    rw [hdrop] at h3 h
    have hn' : ∀ c ∈ varName :: more, IsName c := fun c hc => hn c (List.mem_cons_of_mem _ hc)
    obtain ⟨s, hs', hdrop', hnil⟩ := hm.names_eq hn' h3.1 h3.2
    refine ⟨s, (Option.some.inj h).symm.trans hdrop', fun c hc => hn' c ?_, hnil, Or.inr ⟨?_, ?_⟩⟩
    · rw [hs']
      exact List.mem_append_right hs hc
    · rw [← hs']
      rfl
    · rw [← hs']
      rfl

end Behind

/-! ### There and back -/

lemma sameHost_append {base below out : List CString} (hbase : 2 ≤ base.length) :
    SameHost (base ++ below) (out ++ below) ↔ SameHost base out := by
  unfold SameHost
  rw [List.append_cancel_right_eq, ← List.cons_append, List.append_cancel_right_eq]
  refine or_congr_right (and_congr_right ?_)
  rintro rfl
  cases out with
  | nil => simp at hbase
  | cons c out => rfl

lemma components_slash_append {names more : List CString} (hn : ∀ c ∈ names, IsName c)
    (hm : ∀ c ∈ more, IsName c) : components (absPath names ++ joinPath more) = names ++ more := by
  have hall : ∀ c ∈ names ++ more, IsName c := fun c hc =>
    (List.mem_append.1 hc).elim (hn c) (hm c)
  by_cases h : names = []
  · subst h
    have hsplit : components ('/' :: joinPath more) = components (joinPath more) := by
      unfold components
      rw [List.splitOn_cons_eq_if_modifyHead, if_pos (beq_self_eq_true _),
        List.filter_cons_of_neg (by simp)]
    rw [absPath_nil, List.singleton_append, hsplit, components_joinPath hm, List.nil_append]
  · rw [absPath_of_ne h, ← joinPath_append, components_joinPath hall]

lemma SameHost.length_le {names hs below : List CString} (h : SameHost names (hs ++ below))
    (hhs : hs = [] → below = []) :
    (absPath hs ++ joinPath below).length ≤ (absPath names).length := by
  have hout : absPath hs ++ joinPath below = absPath (hs ++ below) := by
    by_cases hnil : hs = []
    · rw [hnil, hhs hnil]
      rfl
    · rw [absPath_of_ne hnil, absPath_of_ne (by simp [hnil]), joinPath_append]
  rw [hout]
  rcases h with h | ⟨h, hhead⟩
  · rw [h]
  · have hne : hs ++ below ≠ [] := by
      intro hnil
      rw [hnil] at hhead
      cases hhead
    rw [h, absPath_of_ne hne, absPath_of_ne (by simp), joinPath_cons, List.length_append]
    omega

lemma BindTable.Nearest.unique {t : BindTable} (ht : t.Routed) {path : CString}
    {i j : Fin fakefsMaxBindMounts} (hi : t.Nearest path i) (hj : t.Nearest path j) : i = j := by
  have heq : components (t i).path = components (t j).path :=
    (List.prefix_of_prefix_length_le hi.1.2 hj.1.2 (hj.2 i hi.1)).eq_of_length
      (le_antisymm (hj.2 i hi.1) (hi.2 j hj.1))
  obtain ⟨ns, hns⟩ := ht.routed i hi.1.1
  obtain ⟨ms, hms⟩ := ht.routed j hj.1.1
  rw [hns.components_path, hms.components_path] at heq
  exact ht.inj i j hi.1.1 hj.1.1 (by rw [hns.path, hms.path, heq])

section Back

variable {t : BindTable} {hook : TranslateHook} {reverse : ReverseHook} {root : CString}
  {names : List CString}

structure Route (t : BindTable) (names : List CString) (i : Fin fakefsMaxBindMounts)
    (rest : CString) (j : Fin fakefsMaxBindMounts) (hs below : List CString) : Prop where
  isName : ∀ c ∈ hs ++ below, IsName c
  hostPath : (t j).hostPath = absPath hs
  nearest : t.Nearest ((t i).path ++ rest) j
  follows : components ((t i).path ++ rest) = components (t j).path ++ below
  /-- The mount of the chosen slot is the deepest one, or another one is inside it. -/
  cases : j = i ∧ SameHost names (hs ++ below) ∧ (hs = [] → below = []) ∨
    j ≠ i ∧ ∃ base, names = base ++ below ∧ 2 ≤ base.length

lemma exists_base {gs gsj hs s below : List CString} (hbelow : gs ++ s = gsj ++ below)
    (hlen : gs.length ≤ gsj.length) (hne : gsj ≠ gs) (hnil : hs = [] → s = [])
    (hback : names = hs ++ s ∨ names = privateName :: (hs ++ s)) :
    ∃ base, names = base ++ below ∧ 2 ≤ base.length := by
  obtain ⟨u, rfl⟩ : gs <+: gsj := List.prefix_of_prefix_length_le
    (List.prefix_append gs s) (hbelow ▸ List.prefix_append gsj below) hlen
  rw [List.append_assoc, List.append_cancel_left_eq] at hbelow
  have hu : u ≠ [] := by
    rintro rfl
    exact hne (List.append_nil gs)
  have hhs : hs ≠ [] := by
    intro h
    have hs0 := hnil h
    rw [hbelow] at hs0
    exact hu (List.append_eq_nil_iff.1 hs0).1
  have hlu : 0 < u.length := List.length_pos_iff.2 hu
  have hlh : 0 < hs.length := List.length_pos_iff.2 hhs
  rcases hback with h | h
  · refine ⟨hs ++ u, ?_, ?_⟩
    · rw [h, hbelow, List.append_assoc]
    · rw [List.length_append]
      omega
  · refine ⟨privateName :: (hs ++ u), ?_, ?_⟩
    · rw [h, hbelow, List.cons_append, List.append_assoc]
    · rw [List.length_cons, List.length_append]
      omega

lemma exists_route (ht : t.Routed) (hh : t.Hosted) (hook : TranslateHook)
    (htable : ∀ path i, t.Above path i → hook.bind (fun h => h path) = none)
    (hn : ∀ c ∈ names, IsName c) {i : Fin fakefsMaxBindMounts} {rest : CString}
    (hi : t.NearestHost root (absPath names) i rest)
    (hfit : ((t i).path ++ rest).length < maxPath) :
    ∃ j hs below, Route t names i rest j hs below ∧
      bindMountTranslatePathEx hook t ((t i).path ++ rest) maxPath =
        if maxPath ≤ (absPath hs ++ joinPath below).length then none
        else some (absPath hs ++ joinPath below, false) := by
  have hoffer := hi.offers
  unfold BindMount.offers at hoffer
  split_ifs at hoffer with hinactive hroot
  have hact : (t i).active = true := by simpa using hinactive
  obtain ⟨gs, hgs⟩ := ht.routed i hact
  obtain ⟨hs, hhs⟩ := hh i hact
  obtain ⟨s, rfl, hsn, hnil, hback⟩ := hhs.behindHost hn hoffer
  -- the guest path
  have hgn : ∀ c ∈ gs ++ s, IsName c := fun c hc =>
    (List.mem_append.1 hc).elim (hgs.isName c) (hsn c)
  have hguest : (t i).path ++ joinPath s = absPath (gs ++ s) := by
    rw [hgs.path, absPath_of_ne (by simp [hgs.ne_nil]), joinPath_append]
  rw [hguest] at hfit ⊢
  have hnorm := bindMountNormalize_absPath hgn hfit
  have habove : t.Above (absPath (gs ++ s)) i := by
    refine ⟨hact, ?_⟩
    rw [hgs.components_path, components_absPath hgn]
    exact List.prefix_append gs s
  obtain ⟨j, hj⟩ : ∃ j, t.Nearest (absPath (gs ++ s)) j := by
    cases hfind : bindMountFind t (absPath (gs ++ s)) false with
    | none => exact absurd habove ((bindMountFind_none_iff ht hgn).1 hfind i)
    | some j => exact ⟨j, (bindMountFind_iff_nearest ht hgn j).1 hfind⟩
  obtain ⟨below, hbelow, hbn, htrans⟩ :=
    bindMountTranslatePathEx_nearest ht hnorm (htable _ i habove) hj maxPath
  obtain ⟨hsj, hhsj⟩ := hh j hj.1.1
  rw [hhsj.hostPath] at htrans
  refine ⟨j, hsj, below, ⟨?_, hhsj.hostPath, hguest ▸ hj, hguest ▸ hbelow, ?_⟩, htrans⟩
  · exact fun c hc => (List.mem_append.1 hc).elim (hhsj.isName c) (hbn c)
  · rw [components_absPath hgn] at hbelow
    by_cases hji : j = i
    · subst hji
      rw [hgs.components_path, List.append_cancel_left_eq] at hbelow
      subst hbelow
      have hsame : hsj = hs := by
        rw [← components_absPath hhsj.isName, ← hhsj.hostPath, hhs.hostPath,
          components_absPath hhs.isName]
      rw [hsame]
      refine Or.inl ⟨rfl, ?_, hnil⟩
      exact hback.imp Eq.symm id
    · obtain ⟨gsj, hgsj⟩ := ht.routed j hj.1.1
      rw [hgsj.components_path] at hbelow
      have hdeeper := hj.2 i habove
      rw [hgs.components_path, hgsj.components_path] at hdeeper
      have hother : gsj ≠ gs := by
        rintro rfl
        exact hji (ht.inj j i hj.1.1 hact (hgsj.path.trans hgs.path.symm))
      exact Or.inr ⟨hji, exists_base hbelow hdeeper hother hnil (hback.imp id And.left)⟩

lemma leadsBack_iff (ht : t.Routed) (hh : t.Hosted) (hf : HooksFit t hook reverse)
    (hn : ∀ c ∈ names, IsName c) (hlen : (absPath names).length < maxPath) :
    LeadsBack hook reverse t root (absPath names) ↔ Unhidden t root names := by
  rcases fakefsBindMountResolvePath_cases reverse t root (absPath names) maxPath with
    ⟨i, rest, hi, hres⟩ | ⟨hnot, hres⟩
  · by_cases hfit : ((t i).path ++ rest).length < maxPath
    · rw [if_neg (not_le.2 hfit)] at hres
      obtain ⟨j, hs, below, hr, htrans⟩ := exists_route ht hh hook hf.table hn hi hfit
      have hhsn : ∀ c ∈ hs, IsName c := fun c hc => hr.isName c (List.mem_append_left _ hc)
      have hbn : ∀ c ∈ below, IsName c := fun c hc => hr.isName c (List.mem_append_right _ hc)
      have hout := components_slash_append hhsn hbn
      have hsame : SameHost names (hs ++ below) → (hs = [] → below = []) →
          LeadsBack hook reverse t root (absPath names) := by
        intro hsame hnil path hpath
        rw [hres] at hpath
        obtain rfl := Option.some.inj hpath
        have hle := hsame.length_le hnil
        rw [if_neg (by omega)] at htrans
        exact ⟨_, _, htrans, by rwa [components_absPath hn, hout]⟩
      rcases hr.cases with ⟨rfl, hsame', hnil⟩ | ⟨hji, base, hbase, hlong⟩
      · refine iff_of_true (hsame hsame' hnil) ?_
        intro i' rest' hi' _ j' hj' hne
        obtain ⟨rfl, rfl⟩ := hi.unique hi'
        exact absurd (hj'.unique ht hr.nearest) hne
      · have hhost : components (t j).hostPath = hs := by rw [hr.hostPath, components_absPath hhsn]
        constructor
        · intro hback i' rest' hi' _ j' hj' hne base' below' hbase' hbelow'
          obtain ⟨rfl, rfl⟩ := hi.unique hi'
          obtain rfl := hj'.unique ht hr.nearest
          obtain rfl : below = below' := List.append_cancel_left (hr.follows.symm.trans hbelow')
          obtain rfl : base = base' := List.append_cancel_right (hbase.symm.trans hbase')
          obtain ⟨out, viaHook, htrans', hsame'⟩ := hback _ hres
          rw [htrans] at htrans'
          split_ifs at htrans' with hlong'
          obtain ⟨rfl, -⟩ := Prod.mk.inj (Option.some.inj htrans')
          rw [components_absPath hn, hout, hbase, sameHost_append hlong] at hsame'
          rwa [hhost]
        · intro hun
          have hsame' := hun i rest hi hfit j hr.nearest hji base below hbase hr.follows
          rw [hhost] at hsame'
          refine hsame (by rwa [hbase, sameHost_append hlong]) ?_
          rintro rfl
          rcases hsame' with h | ⟨-, h⟩
          · rw [← h] at hlong
            simp at hlong
          · cases h
    · rw [if_pos (not_lt.1 hfit)] at hres
      refine iff_of_true (fun path hpath => ?_) ?_
      · rw [hres] at hpath
        cases hpath
      · intro i' rest' hi' hfit'
        obtain ⟨rfl, rfl⟩ := hi.unique hi'
        exact absurd hfit' hfit
  · refine iff_of_true (fun path hpath => ?_) fun i rest hi => absurd hi (hnot i rest)
    rw [hres] at hpath
    obtain ⟨norm, out, hnorm, hhook, hsame⟩ := hf.counterpart _ _ hpath
    refine ⟨out, true, ?_, hsame⟩
    simp only [bindMountTranslatePathEx, hnorm, Option.bind_eq_bind, Option.bind_some, hhook]

end Back

/-! ### Tables that calls have built -/

/-- `realpath` resolves the host path of a mount. -/
def BindCall.Canonical : BindCall → Prop
  | .mount h _ hostPath _ => ∃ hs, (∀ c ∈ hs, IsName c) ∧ h.realpath hostPath = some (absPath hs) ∧
      (absPath hs).length < pathMax
  | .unmount _ => True

lemma hosted_bindStep {b : Binds} {c : BindCall} (hb : b.mounts.Hosted) (hc : c.Succeeds b)
    (hcanon : c.Canonical) : (bindStep b c).mounts.Hosted := by
  cases c with
  | mount h linuxPath hostPath readOnly =>
    obtain ⟨path, isFile, slot, changed, -, -, -, heq⟩ := fakefsBindMount_ok hc
    obtain ⟨hs, hn, hreal, hlen⟩ := hcanon
    simp only [bindStep, bindCall, heq]
    intro i hi
    by_cases his : i = slot
    · subst his
      refine ⟨hs, hn, ?_, ?_⟩
      · simp only [update_self, BindMount.make, hreal, Option.getD_some]
        exact List.take_of_length_le (by omega)
      · simp only [update_self, BindMount.make, hreal, Option.getD_some, List.length_take]
        omega
    · simp only [update_of_ne his] at hi ⊢
      exact hb i hi
  | unmount linuxPath =>
    obtain ⟨path, slot, -, -, heq⟩ := fakefsBindUnmount_ok hc
    simp only [bindStep, bindCall, heq]
    intro i hi
    by_cases his : i = slot
    · subst his
      simp at hi
    · simp only [update_of_ne his] at hi ⊢
      exact hb i hi

/-- The guest path that is found for a host path leads back to it exactly if no mount hides what
is there. -/
theorem fakefsBindMountResolvePath_leadsBack_iff {db : MetaDb} {calls : List BindCall}
    (hcalls : RunAll bindStep (fun b c => c.Succeeds b ∧ c.Canonical) (Binds.start db) calls)
    {hook : TranslateHook} {reverse : ReverseHook}
    (hf : HooksFit (run bindStep (Binds.start db) calls).mounts hook reverse) (root : CString)
    {names : List CString} (hn : ∀ c ∈ names, IsName c) (hlen : (absPath names).length < maxPath) :
    LeadsBack hook reverse (run bindStep (Binds.start db) calls).mounts root (absPath names) ↔
      Unhidden (run bindStep (Binds.start db) calls).mounts root names := by
  have hinv : (run bindStep (Binds.start db) calls).mounts.Routed ∧
      (run bindStep (Binds.start db) calls).mounts.Hosted := by
    refine run_invariant (P := fun b => b.mounts.Routed ∧ b.mounts.Hosted) ?_ hcalls
      ⟨routed_unused, ?_⟩
    · intro b c hc hb
      exact ⟨routed_bindStep hb.1 hc.1, hosted_bindStep hb.2 hc.1 hc.2⟩
    · intro i hi
      cases hi
  exact leadsBack_iff hinv.1 hinv.2 hf hn hlen

/-- `/a` is of `/h`, and inside it `/a/s` is of `/k`. -/
def nestedBinds : List BindCall :=
  [.mount .willing ['/', 'a'] ['/', 'h'] false,
    .mount .willing ['/', 'a', '/', 's'] ['/', 'k'] false]

def nestedTable : BindTable := (run bindStep (Binds.start ⟨.empty, .empty⟩) nestedBinds).mounts

lemma isName_letter {c : Char} (h : c ≠ '/') (h' : c ≠ '.') : IsName [c] := by
  refine ⟨by simp, ?_, ?_, by simp⟩
  · simpa using Ne.symm h
  · simpa using h'

lemma nestedBinds_runAll (db : MetaDb) :
    RunAll bindStep (fun b c => c.Succeeds b ∧ c.Canonical) (Binds.start db) nestedBinds := by
  have hone : ∀ c : Char, c ≠ '/' → c ≠ '.' → ∀ c' ∈ [[c]], IsName c' := by
    intro c h h' c' hc'
    rw [List.mem_singleton.1 hc']
    exact isName_letter h h'
  exact ⟨⟨rfl, [['h']], hone 'h' (by decide) (by decide), rfl, by decide⟩,
    ⟨rfl, [['k']], hone 'k' (by decide) (by decide), rfl, by decide⟩, trivial⟩

lemma hooksFit_none (t : BindTable) : HooksFit t none none :=
  ⟨fun _ _ _ => rfl, fun _ _ h => (by cases h)⟩

/-- `/k/x` leads back if nothing is hidden. -/
theorem fakefsBindMountResolvePath_leadsBack_nested :
    LeadsBack none none nestedTable [] (absPath [['k'], ['x']]) ↔
      Unhidden nestedTable [] [['k'], ['x']] := by
  refine fakefsBindMountResolvePath_leadsBack_iff (nestedBinds_runAll _) (hooksFit_none _) [] ?_
    (by decide)
  intro c hc
  rcases List.mem_pair.1 hc with rfl | rfl
  · exact isName_letter (by decide) (by decide)
  · exact isName_letter (by decide) (by decide)

/-- `/h/s/x` is hidden: it is named `/a/s/x`, which is `/k/x`. -/
theorem fakefsBindMountResolvePath_hidden : ¬ ∀ (db : MetaDb) (calls : List BindCall),
    RunAll bindStep (fun b c => c.Succeeds b ∧ c.Canonical) (Binds.start db) calls →
    ∀ root names, (∀ c ∈ names, IsName c) → (absPath names).length < maxPath →
      LeadsBack none none (run bindStep (Binds.start db) calls).mounts root (absPath names) := by
  intro h
  have hnames : ∀ c ∈ [['h'], ['s'], ['x']], IsName c := by
    intro c hc
    simp only [List.mem_cons, List.not_mem_nil, or_false] at hc
    rcases hc with rfl | rfl | rfl
    · exact isName_letter (by decide) (by decide)
    · exact isName_letter (by decide) (by decide)
    · exact isName_letter (by decide) (by decide)
  have hres : fakefsBindMountResolvePath none nestedTable [] ['/', 'h', '/', 's', '/', 'x']
      maxPath = some ['/', 'a', '/', 's', '/', 'x'] := rfl
  obtain ⟨out, viaHook, hout, hsame⟩ := h ⟨.empty, .empty⟩ nestedBinds (nestedBinds_runAll _) []
    [['h'], ['s'], ['x']] hnames (by decide) _ hres
  have htrans : bindMountTranslatePathEx none nestedTable ['/', 'a', '/', 's', '/', 'x']
      maxPath = some (['/', 'k', '/', 'x'], false) := rfl
  obtain ⟨rfl, -⟩ := Prod.mk.inj (Option.some.inj (htrans.symm.trans hout))
  rcases hsame with hsame | ⟨hsame, -⟩
  · exact absurd hsame (by decide)
  · exact absurd hsame (by decide)

end ShellBox
