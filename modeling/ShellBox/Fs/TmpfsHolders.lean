import ShellBox.Logic.KeyedList
import ShellBox.Fs.TmpfsLookup

/-!
# The holders of a tmpfs

A tree is *balanced* between two calls: each count is the number of holders. The descriptors hold
their entry and their position. Opening, reading and seeking keep the balance, and so does closing a
descriptor that has no position.
-/

namespace ShellBox

open Function

namespace TmpTree

structure Balanced (s : TmpTree) : Prop extends s.Counted fun _ => 0 where
  rootLive : ∀ d, s.root = some d → ∃ r, s.dirent d = some r

def Freed (s : TmpTree) : Prop := (∀ d, s.dirent d = none) ∧ ∀ i, s.inode i = none

variable {s : TmpTree} {extra : ℕ → ℕ} {d c p : ℕ} {r : TmpDirent} {name : TmpName}

lemma Counted.freed (h : s.Counted extra) (hroot : ∀ d r, s.dirent d = some r → r.parent ≠ none) :
    s.Freed := by
  have hnone : ∀ d, s.dirent d = none := by
    intro d
    induction d using Nat.strongRecOn with
    | ind d ih =>
      by_contra hd
      obtain ⟨r, hr⟩ := Option.ne_none_iff_exists'.mp hd
      obtain ⟨p, hp⟩ := Option.ne_none_iff_exists'.mp (hroot d r hr)
      obtain ⟨hlt, rp, hrp, -⟩ := h.parent d r p hr hp
      rw [ih p hlt] at hrp
      cases hrp
  refine ⟨hnone, fun i => ?_⟩
  by_contra hi
  obtain ⟨x, hx⟩ := Option.ne_none_iff_exists'.mp hi
  obtain ⟨d, r, hr, -⟩ := h.holder i x hx
  rw [hnone d] at hr
  cases hr

lemma Balanced.freed (h : s.Balanced) (hroot : s.root = none) : s.Freed := by
  refine h.toCounted.freed fun d r hd hp => ?_
  rw [h.root d r hd hp] at hroot
  cases hroot

lemma not_balanced_bump (h : s.Balanced) (hd : s.dirent d = some r) : ¬ (s.bump d).Balanced := by
  intro h'
  have hcount := h'.count d _ (dirent_bump_self hd)
  have hcount' := h.count d r hd
  change r.count + 1 = 1 + r.children.length + held s.fds d + 0 at hcount
  omega

namespace Balanced

lemma lookup_cases (h : s.Balanced) {root : ℕ} (hroot : s.root = some root) (parent : Bool)
    (path : List TmpName) : WalkCase s parent path root (s.lookup parent path) := by
  obtain ⟨r, hr⟩ := h.rootLive root hroot
  rw [lookup, hroot, Option.bind_some, retain_eq hr, Option.bind_some]
  exact h.walk_cases parent path hr

end Balanced

/-! ### Holders -/

lemma held_cons (f : TmpFd) (fds : List TmpFd) (d : ℕ) : held (f :: fds) d =
    held fds d + (if d = f.dirent then 1 else 0) + (if f.pos = some d then 1 else 0) := by
  simp only [held, List.countP_cons, decide_eq_true_eq, eq_comm (a := f.dirent)]
  omega

lemma held_append (fds fds' : List TmpFd) (d : ℕ) :
    held (fds ++ fds') d = held fds d + held fds' d := by
  simp only [held, List.countP_append]
  omega

lemma held_split (f : TmpFd) (l₁ l₂ : List TmpFd) (d : ℕ) : held (l₁ ++ f :: l₂) d =
    held (l₁ ++ l₂) d + (if d = f.dirent then 1 else 0) + (if f.pos = some d then 1 else 0) := by
  rw [held_append, held_cons, held_append]
  omega

def bumpPos (s : TmpTree) : Option ℕ → TmpTree
  | none => s
  | some d => s.bump d

lemma dirent_bumpPos (s : TmpTree) (pos : Option ℕ) (d : ℕ) : (s.bumpPos pos).dirent d =
    (s.dirent d).map fun r => { r with count := r.count + if pos = some d then 1 else 0 } := by
  cases pos with
  | none =>
    show s.dirent d = _
    cases s.dirent d <;> rfl
  | some c =>
    rw [bumpPos, dirent_bump]
    simp only [Option.some.injEq, eq_comm (a := d)]

lemma bumpPos_eq (s : TmpTree) (pos : Option ℕ) :
    s.bumpPos pos = { s with dirent := (s.bumpPos pos).dirent } := by
  cases pos <;> rfl

lemma retainPos_eq {pos : Option ℕ} (hpos : ∀ d, pos = some d → ∃ r, s.dirent d = some r) :
    s.retainPos pos = some (s.bumpPos pos) := by
  cases pos with
  | none => rfl
  | some d =>
    obtain ⟨r, hr⟩ := hpos d rfl
    exact retain_eq hr

def dropPos (s : TmpTree) : Option ℕ → TmpTree
  | none => s
  | some d => s.setDirent d ((s.dirent d).map fun r => { r with count := r.count - 1 })

lemma dirent_dropPos (s : TmpTree) (pos : Option ℕ) (d : ℕ) : (s.dropPos pos).dirent d =
    (s.dirent d).map fun r => { r with count := r.count - if pos = some d then 1 else 0 } := by
  cases pos with
  | none =>
    show s.dirent d = _
    cases s.dirent d <;> rfl
  | some c =>
    by_cases hcd : c = d
    · subst hcd
      simp [dropPos, setDirent]
    · have hsame : (s.dropPos (some c)).dirent d = s.dirent d := update_of_ne (Ne.symm hcd) _ _
      rw [hsame]
      cases s.dirent d <;> simp [hcd]

lemma dropPos_eq (s : TmpTree) (pos : Option ℕ) :
    s.dropPos pos = { s with dirent := (s.dropPos pos).dirent } := by
  cases pos <;> rfl

lemma releasePos_eq {pos : Option ℕ}
    (hpos : ∀ d, pos = some d → ∃ r, s.dirent d = some r ∧ r.count ≠ 1) :
    s.releasePos pos = some (s.dropPos pos) := by
  cases pos with
  | none => rfl
  | some d =>
    obtain ⟨r, hr, hcount⟩ := hpos d rfl
    rw [releasePos, release_of_ne hr hcount, dropPos, hr]
    rfl

namespace Balanced

lemma openFd_spec (h : s.Balanced) (hd : s.dirent d = some r) (alloc : Bool) :
    ∃ t, (s.bump d).openFd d alloc = some t ∧ t.1.Balanced := by
  cases alloc with
  | false =>
    refine ⟨(s, tmpEnomem), ?_, h⟩
    show ((s.bump d).release d).map _ = _
    rw [h.release_bump hd]
    rfl
  | true =>
    have hlive : ∀ c, r.children.head? = some c → ∃ rc, (s.bump d).dirent c = some rc := by
      intro c hc
      obtain ⟨rc, hrc, -⟩ := h.child d r c hd (List.mem_of_head? hc)
      exact ⟨_, by rw [dirent_bump, hrc]; rfl⟩
    refine ⟨({ s with
      dirent := ((s.bump d).bumpPos r.children.head?).dirent
      fds := ⟨s.nextFd, d, r.children.head?⟩ :: s.fds
      nextFd := s.nextFd + 1 }, s.nextFd), ?_, ⟨?_, fun x hx => ?_⟩⟩
    · rw [openFd, if_neg (by simp), dirent_bump_self hd, Option.bind_some, retainPos_eq hlive,
        bumpPos_eq]
      rfl
    · refine h.of_same (fun x => ?_) rfl rfl rfl rfl ?_ ?_
      · simp only [dirent_bumpPos, dirent_bump, Option.map_map]
        refine Option.map_congr fun rx hx => ?_
        simp only [comp_apply, h.count x rx hx, held_cons]
        congr 1
        ring
      · rintro f (_ | ⟨_, hf⟩)
        · exact ⟨Nat.lt_succ_self _, r, hd, fun c hc => List.mem_of_head? hc⟩
        · obtain ⟨hnum, hrest⟩ := h.fd f hf
          exact ⟨Nat.lt_succ_of_lt hnum, hrest⟩
      · refine List.nodup_cons.mpr ⟨fun hmem => ?_, h.nums⟩
        obtain ⟨f, hf, hnum⟩ := List.mem_map.mp hmem
        exact absurd hnum (h.fd f hf).1.ne
    · obtain ⟨rx, hrx⟩ := h.rootLive x hx
      exact ⟨_, by rw [dirent_bumpPos, dirent_bump, hrx]; rfl⟩

lemma fd_spec (h : s.Balanced) {n : ℕ} {f : TmpFd} (hf : s.fd n = some f) :
    f.num = n ∧ (∃ r, s.dirent f.dirent = some r ∧ ∀ d, f.pos = some d → d ∈ r.children) ∧
      ∃ l₁ l₂, s.fds = l₁ ++ f :: l₂ ∧ ∀ g ∈ l₁ ++ l₂, g.num ≠ n := by
  obtain ⟨l₁, l₂, hfds, hnum, hne⟩ := exists_keyed_split h.nums hf
  exact ⟨hnum, (h.fd f (List.mem_of_find?_eq_some hf)).2, l₁, l₂, hfds, hne⟩

lemma close_eq (h : s.Balanced) {n : ℕ} {f : TmpFd} (hf : s.fd n = some f)
    (hd : s.dirent f.dirent = some r) :
    s.close n = some ({ s.setDirent f.dirent (some { r with count := r.count - 1 }) with
      fds := s.fds.filter (·.num ≠ n) }, 0) := by
  obtain ⟨-, -, l₁, l₂, hfds, -⟩ := h.fd_spec hf
  have hcount := h.count f.dirent r hd
  rw [hfds, held_split, if_pos rfl] at hcount
  rw [close, hf, Option.bind_some, release_of_ne hd (by omega)]
  rfl

lemma close_balanced (h : s.Balanced) {n : ℕ} {f : TmpFd} (hf : s.fd n = some f)
    (hpos : f.pos = none) : ∃ t, s.close n = some t ∧ t.1.Balanced := by
  obtain ⟨hnum, ⟨r, hd, -⟩, l₁, l₂, hfds, hne⟩ := h.fd_spec hf
  have hrest : s.fds.filter (·.num ≠ n) = l₁ ++ l₂ := hfds ▸ filter_keyed_split hnum hne
  refine ⟨_, h.close_eq hf hd, ⟨h.of_same (fun x => ?_) rfl rfl rfl rfl ?_ ?_, fun x hx => ?_⟩⟩
  · have hheld : held s.fds x = held (l₁ ++ l₂) x + if x = f.dirent then 1 else 0 := by
      rw [hfds, held_split, hpos]
      simp
    simp only [setDirent, hrest]
    by_cases hx : x = f.dirent
    · subst hx
      have hcount := h.count _ r hd
      rw [hheld, if_pos rfl] at hcount
      rw [update_self, hd, Option.map_some, hcount]
      rfl
    · rw [if_neg hx] at hheld
      rw [update_of_ne hx]
      cases hrx : s.dirent x with
      | none => rfl
      | some rx =>
        have hcount := h.count x rx hrx
        rw [hheld] at hcount
        rw [Option.map_some, ← Nat.add_zero (held _ _), ← hcount]
  · intro g hg
    exact h.fd g (List.mem_of_mem_filter hg)
  · exact h.nums.sublist (List.filter_sublist.map _)
  · obtain ⟨rx, hrx⟩ := h.rootLive x hx
    by_cases hxd : x = f.dirent
    · exact ⟨_, by rw [hxd]; exact update_self _ _ _⟩
    · exact ⟨rx, (update_of_ne hxd _ _).trans hrx⟩

lemma not_close_balanced (h : s.Balanced) {n : ℕ} {f : TmpFd} (hf : s.fd n = some f)
    (hpos : f.pos = some c) : ∃ t, s.close n = some t ∧ ¬ t.1.Balanced := by
  obtain ⟨hnum, ⟨r, hd, hmem⟩, l₁, l₂, hfds, hne⟩ := h.fd_spec hf
  have hrest : s.fds.filter (·.num ≠ n) = l₁ ++ l₂ := hfds ▸ filter_keyed_split hnum hne
  refine ⟨_, h.close_eq hf hd, fun h' => ?_⟩
  obtain ⟨rc, hrc, hparent⟩ := h.child f.dirent r c hd (hmem c hpos)
  have hdc : c ≠ f.dirent := (h.parent c rc f.dirent hrc hparent).1.ne'
  have hcount := h.count c rc hrc
  have hcount' := h'.count c rc ((update_of_ne hdc _ _).trans hrc)
  rw [hfds, held_split, if_neg hdc, if_pos hpos] at hcount
  simp only [hrest] at hcount'
  omega

lemma seekTo_spec (h : s.Balanced) {n : ℕ} {f : TmpFd} (hf : s.fd n = some f)
    (hd : s.dirent f.dirent = some r) {pos : Option ℕ} (hpos : ∀ d, pos = some d → d ∈ r.children) :
    ∃ t, s.seekTo f pos = some t ∧ t.Balanced ∧ t.isDir = s.isDir := by
  obtain ⟨hnum, ⟨r', hd', hold⟩, l₁, l₂, hfds, hne⟩ := h.fd_spec hf
  obtain rfl : r' = r := Option.some.inj (hd'.symm.trans hd)
  have hmap : (s.setPos f.num pos).fds = l₁ ++ { f with pos } :: l₂ := by
    show s.fds.map (fun g => if g.num = f.num then { g with pos } else g) = _
    rw [hfds]
    exact map_keyed_split (fun g => { g with pos }) rfl fun g hg => hnum ▸ hne g hg
  have hlive : ∀ d, pos = some d → ∃ rd, s.dirent d = some rd := fun d hpd =>
    (h.child f.dirent r' d hd (hpos d hpd)).imp fun _ hrd => hrd.1
  -- The position that is given up is a child of the directory, which holds it as well.
  have hcount : ∀ d, f.pos = some d →
      ∃ rd, (s.bumpPos pos).dirent d = some rd ∧ rd.count ≠ 1 := by
    intro d hfd
    obtain ⟨rd, hrd, -⟩ := h.child f.dirent r' d hd (hold d hfd)
    refine ⟨_, by rw [dirent_bumpPos, hrd]; rfl, ?_⟩
    have hcd := h.count d rd hrd
    rw [hfds, held_split, if_pos hfd] at hcd
    show rd.count + _ ≠ 1
    omega
  refine ⟨{ s.setPos f.num pos with dirent := ((s.bumpPos pos).dropPos f.pos).dirent }, ?_,
    ⟨?_, fun x hx => ?_⟩, ?_⟩
  · rw [seekTo, retainPos_eq hlive, Option.bind_some, releasePos_eq hcount, dropPos_eq, bumpPos_eq]
    rfl
  · refine h.of_same (fun x => ?_) rfl rfl rfl rfl ?_ ?_
    · simp only [dirent_dropPos, dirent_bumpPos, Option.map_map]
      refine Option.map_congr fun rx hrx => ?_
      have hcx := h.count x rx hrx
      rw [hfds, held_split] at hcx
      simp only [comp_apply, hmap, held_split, hcx]
      congr 1
      omega
    · show ∀ g ∈ (s.setPos f.num pos).fds, _
      rw [hmap]
      intro g hg
      rw [List.mem_append, List.mem_cons] at hg
      rcases hg with hg | rfl | hg
      · exact h.fd g (hfds ▸ List.mem_append_left _ hg)
      · exact ⟨(h.fd f (List.mem_of_find?_eq_some hf)).1, r', hd, hpos⟩
      · exact h.fd g (hfds ▸ List.mem_append_right _ (List.mem_cons_of_mem _ hg))
    · show ((s.setPos f.num pos).fds.map TmpFd.num).Nodup
      have hnums := h.nums
      rw [hfds] at hnums
      rw [hmap]
      simpa using hnums
  · obtain ⟨rx, hrx⟩ := h.rootLive x hx
    exact ⟨_, by rw [dirent_dropPos, dirent_bumpPos, hrx]; rfl⟩
  · funext x
    simp only [isDir, dirent_dropPos, dirent_bumpPos, Option.map_map, Option.bind_map]
    rfl

lemma readdir_spec (h : s.Balanced) {n : ℕ} {f : TmpFd} (hf : s.fd n = some f) :
    ∃ t, s.readdir n = some t ∧ t.1.Balanced := by
  obtain ⟨-, ⟨r, hd, hpos⟩, -⟩ := h.fd_spec hf
  obtain ⟨dir, hdir, -⟩ := h.isDir_eq hd
  rw [readdir, hf, Option.bind_some, hd, Option.bind_some, hdir, Option.bind_some]
  cases dir with
  | false => exact ⟨_, rfl, h⟩
  | true =>
    rw [if_neg (by simp)]
    cases hp : f.pos with
    | none => exact ⟨_, rfl, h⟩
    | some d =>
      have hnext : ∀ c, (r.children.dropWhile (· ≠ d)).tail.head? = some c → c ∈ r.children :=
        fun c hc => (List.dropWhile_sublist _).subset (List.mem_of_mem_tail (List.mem_of_head? hc))
      obtain ⟨t, ht, hbal, hsame⟩ := h.seekTo_spec hf hd hnext
      obtain ⟨rd, hrd, -⟩ := h.child f.dirent r d hd (hpos d hp)
      obtain ⟨dir', hdir', -⟩ := h.isDir_eq hrd
      refine ⟨(t, 1), ?_, hbal⟩
      simp only [ht, Option.bind_some, hsame, hdir', Option.map_some]

lemma telldir_spec (h : s.Balanced) {n : ℕ} {f : TmpFd} (hf : s.fd n = some f) :
    ∃ t, s.telldir n = some t ∧ t.1 = s := by
  obtain ⟨-, ⟨r, hd, hpos⟩, -⟩ := h.fd_spec hf
  rw [telldir, hf, Option.bind_some]
  cases hp : f.pos with
  | none => exact ⟨_, rfl, rfl⟩
  | some d =>
    obtain ⟨rd, hrd, -⟩ := h.child f.dirent r d hd (hpos d hp)
    refine ⟨(s, rd.index), ?_, rfl⟩
    simp only [hrd, Option.map_some]

end Balanced

lemma indexFrom_eq (ptr : ℕ) {l : List ℕ} (hl : ∀ c ∈ l, ∃ r, s.dirent c = some r) :
    ∃ pos, s.indexFrom ptr l = some pos ∧ ∀ c, pos = some c → c ∈ l := by
  induction l with
  | nil => exact ⟨none, rfl, fun c hc => by cases hc⟩
  | cons c cs ih =>
    obtain ⟨r, hr⟩ := hl c List.mem_cons_self
    rw [indexFrom, hr, Option.bind_some]
    by_cases hptr : ptr ≤ r.index
    · rw [if_pos hptr]
      refine ⟨some c, rfl, fun c' hc' => ?_⟩
      cases hc'
      exact List.mem_cons_self
    · rw [if_neg hptr]
      obtain ⟨pos, hpos, hmem⟩ := ih fun c' hc' => hl c' (List.mem_cons_of_mem _ hc')
      exact ⟨pos, hpos, fun c' hc' => List.mem_cons_of_mem _ (hmem c' hc')⟩

namespace Balanced

lemma seekdir_spec (h : s.Balanced) {n : ℕ} {f : TmpFd} (hf : s.fd n = some f)
    (hdir : s.isDir f.dirent = some true) (ptr : ℕ) :
    ∃ t, s.seekdir n ptr = some t ∧ t.1.Balanced := by
  obtain ⟨-, ⟨r, hd, -⟩, -⟩ := h.fd_spec hf
  obtain ⟨pos, hpos, hmem⟩ := indexFrom_eq (s := s) ptr fun c hc =>
    (h.child f.dirent r c hd hc).imp fun _ hrc => hrc.1
  obtain ⟨t, ht, hbal, -⟩ := h.seekTo_spec hf hd hmem
  refine ⟨(t, 0), ?_, hbal⟩
  rw [seekdir, hf, Option.bind_some, hd, Option.bind_some, hdir, Option.bind_some,
    if_neg (by simp), hpos, Option.bind_some, ht]
  rfl

end Balanced

end TmpTree

end ShellBox
