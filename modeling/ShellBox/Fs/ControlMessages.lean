import ShellBox.Logic.LittleEndian

/-!
# Control messages

`sendmsg` walks twice over the headers in the control buffer of a message: once to count the file
descriptors in them, and once to take the files. The second walk has an array with a slot for each
descriptor that the first one has counted.

A header whose length is not right ends both walks. The lengths are unsigned, and a header that is
shorter than itself counts as nearly 2 ^ 62 descriptors.
-/

namespace ShellBox

/-- What a guest passes as `msg_control`. -/
structure ControlData where
  bytes : List UInt8
  short : bytes.length ≤ 2048

/-- `struct cmsghdr_`, and where it is in the buffer. -/
structure Cmsghdr where
  off : ℕ
  len : ℕ
  level : ℕ
  type : ℕ
  deriving DecidableEq

/-- How a walk ends early. `outside` is a read outside the buffer or a write outside the array. -/
inductive CmsgError
  | einval | ebadf | outside | spinning
  deriving DecidableEq

def cmsgLen (len : ℕ) : ℕ := (len + 3) / 4 * 4

/-- `CMSG_NXTHDR_`: how far it is to the next header. -/
def cmsgNxthdr (len left : ℕ) : Option ℕ :=
  if len < 12 ∨ cmsgLen len ≤ 12 ∨ left ≤ cmsgLen len + 12 then none else some (cmsgLen len)

/-- `(cmsg->len - sizeof(struct cmsghdr_)) / sizeof(fd_t)`, in `size_t`. -/
def cmsgFds (len : ℕ) : ℕ := (len + 2 ^ 64 - 12) % 2 ^ 64 / 4

namespace ControlData

variable {σ F : Type*}

def dword (c : ControlData) (off : ℕ) : Option ℕ :=
  if off + 4 ≤ c.bytes.length then some (loadLE (fun i => c.bytes.getD i 0) off 4) else none

def header (c : ControlData) (off : ℕ) : Option Cmsghdr := do
  let len ← c.dword off
  let level ← c.dword (off + 4)
  let type ← c.dword (off + 8)
  some { off := off, len := len, level := level, type := type }

/-- A walk over the headers from `off` on, with what it does at each of them. -/
def walk (c : ControlData) (body : σ → Cmsghdr → Except CmsgError σ) :
    ℕ → ℕ → σ → Except CmsgError σ
  | 0, _, _ => .error .spinning
  | fuel + 1, off, s =>
    match c.header off with
    | none   => .error .outside
    | some h =>
      match body s h with
      | .error e => .error e
      | .ok s    =>
        match cmsgNxthdr h.len (c.bytes.length - off) with
        | none   => .ok s
        | some d => c.walk body fuel (off + d) s

/-- The first walk at a header: `num_fds` is unsigned and has 32 bits. -/
def countFds (numFds : ℕ) (h : Cmsghdr) : Except CmsgError ℕ :=
  if h.level ≠ 1 then .ok numFds
  else if h.type ≠ 1 then .error .einval
  else .ok ((numFds + cmsgFds h.len) % 2 ^ 32)

/-- Take the files of the descriptors from the one at `p` on. -/
def takeFds (c : ControlData) (fGet : ℕ → Option F) (numFds : ℕ) :
    ℕ → ℕ → List F → Except CmsgError (List F)
  | 0, _, fds => .ok fds
  | n + 1, p, fds =>
    match c.dword p with
    | none   => .error .outside
    | some w =>
      match fGet w with
      | none   => .error .ebadf
      | some f =>
        if fds.length < numFds then c.takeFds fGet numFds n (p + 4) (fds ++ [f])
        else .error .outside

def storeFds (c : ControlData) (fGet : ℕ → Option F) (numFds : ℕ) (fds : List F) (h : Cmsghdr) :
    Except CmsgError (List F) :=
  if h.level ≠ 1 then .ok fds else c.takeFds fGet numFds (cmsgFds h.len) (h.off + 12) fds

/-- The part of `sys_sendmsg` that makes a `struct scm` of the control buffer: the size of its
array, and the files. -/
def scm (c : ControlData) (fGet : ℕ → Option F) : Except CmsgError (Option (ℕ × List F)) :=
  if c.bytes.length < 12 then .ok none
  else
    match c.walk countFds c.bytes.length 0 0 with
    | .error e   => .error e
    | .ok numFds =>
      if 253 < numFds then .error .einval
      else if numFds = 0 then .ok none
      else
        match c.walk (c.storeFds fGet numFds) c.bytes.length 0 [] with
        | .error e => .error e
        | .ok fds  => .ok (some (numFds, fds))

/-- The headers that a walk reaches from `off` on. -/
def reached (c : ControlData) : ℕ → ℕ → List Cmsghdr
  | 0, _ => []
  | fuel + 1, off =>
    match c.header off with
    | none   => []
    | some h =>
      match cmsgNxthdr h.len (c.bytes.length - off) with
      | none   => [h]
      | some d => h :: c.reached fuel (off + d)

def headers (c : ControlData) : List Cmsghdr := c.reached c.bytes.length 0

/-- The length of a header is less than the header, or more than what is left of the buffer. -/
def Malformed (c : ControlData) (h : Cmsghdr) : Prop :=
  h.len < 12 ∨ c.bytes.length - h.off < h.len

/-- The walks end, stay in the buffer and in the array, and fill the array; a malformed header is
not valid. -/
structure ScmSafe (c : ControlData) (fGet : ℕ → Option F) : Prop where
  ends : c.scm fGet ≠ .error .spinning
  inside : c.scm fGet ≠ .error .outside
  agree : ∀ numFds fds, c.scm fGet = .ok (some (numFds, fds)) → fds.length = numFds
  invalid : (∃ h ∈ c.headers, c.Malformed h) → c.scm fGet = .error .einval

/-- How many descriptors a header says that it has. It is less than none if the header is shorter
than itself. -/
def saidFds (h : Cmsghdr) : ℤ := if h.level = 1 then ((h.len : ℤ) - 12) / 4 else 0

def saidTotal (hs : List Cmsghdr) : ℤ := (hs.map saidFds).sum

/-- A header of the socket level with something other than descriptors in it. -/
def Foreign (h : Cmsghdr) : Prop := h.level = 1 ∧ h.type ≠ 1

end ControlData

/-! ### The headers of a walk -/

lemma cmsgNxthdr_eq_some {len left d : ℕ} (h : cmsgNxthdr len left = some d) :
    12 ≤ len ∧ len ≤ d ∧ 12 < d ∧ d + 12 < left := by
  unfold cmsgNxthdr at h
  split_ifs at h with hend
  obtain rfl := Option.some.inj h
  unfold cmsgLen at hend ⊢
  omega

namespace ControlData

variable {c : ControlData} {σ F : Type*} {fuel off : ℕ}

lemma dword_eq_some (c : ControlData) {off : ℕ} (h : off + 4 ≤ c.bytes.length) :
    ∃ w, c.dword off = some w ∧ w < 2 ^ 32 :=
  ⟨_, if_pos h, loadLE_lt _ off 4⟩

lemma header_eq_some (h : off + 12 ≤ c.bytes.length) :
    ∃ hd, c.header off = some hd ∧ hd.off = off ∧ hd.len < 2 ^ 32 := by
  obtain ⟨len, hlen, hlt⟩ := c.dword_eq_some (show off + 4 ≤ _ by omega)
  obtain ⟨level, hlevel, -⟩ := c.dword_eq_some (show off + 4 + 4 ≤ _ by omega)
  obtain ⟨type, htype, -⟩ := c.dword_eq_some (show off + 8 + 4 ≤ _ by omega)
  exact ⟨_, by simp only [header, hlen, hlevel, htype]; rfl, rfl, hlt⟩

lemma walk_eq (body : σ → Cmsghdr → Except CmsgError σ) (hoff : off + 12 ≤ c.bytes.length)
    (hfuel : c.bytes.length ≤ off + fuel) (s : σ) :
    c.walk body fuel off s = (c.reached fuel off).foldlM body s := by
  induction fuel generalizing off s with
  | zero => omega
  | succ fuel ih =>
    obtain ⟨hd, hhd, hdoff, -⟩ := header_eq_some hoff
    simp only [walk, reached, hhd]
    cases hnext : cmsgNxthdr hd.len (c.bytes.length - off) with
    | none =>
      simp only [List.foldlM_cons, List.foldlM_nil]
      cases body s hd <;> rfl
    | some d =>
      have hd' := cmsgNxthdr_eq_some hnext
      simp only [List.foldlM_cons]
      cases body s hd with
      | error e => rfl
      | ok s => exact ih (by omega) (by omega) s

lemma mem_reached (hoff : off + 12 ≤ c.bytes.length) {h : Cmsghdr} (hh : h ∈ c.reached fuel off) :
    h.off + 12 ≤ c.bytes.length ∧ h.len < 2 ^ 32 := by
  induction fuel generalizing off with
  | zero => simp [reached] at hh
  | succ fuel ih =>
    obtain ⟨hd, hhd, hdoff, hdlen⟩ := header_eq_some hoff
    simp only [reached, hhd] at hh
    cases hnext : cmsgNxthdr hd.len (c.bytes.length - off) with
    | none =>
      simp only [hnext, List.mem_singleton] at hh
      subst hh
      exact ⟨by omega, hdlen⟩
    | some d =>
      have hd' := cmsgNxthdr_eq_some hnext
      simp only [hnext, List.mem_cons] at hh
      rcases hh with rfl | hh
      · exact ⟨by omega, hdlen⟩
      · exact ih (by omega) hh

lemma saidFds_bounds {h : Cmsghdr} (hlen : h.len < 2 ^ 32) :
    -3 ≤ saidFds h ∧ saidFds h < 2 ^ 30 := by
  unfold saidFds
  split_ifs <;> omega

lemma saidTotal_bounds (hoff : off + 12 ≤ c.bytes.length) :
    -3 ≤ saidTotal (c.reached fuel off) ∧
      saidTotal (c.reached fuel off) ≤ 2 ^ 30 + (c.bytes.length - off : ℕ) := by
  induction fuel generalizing off with
  | zero =>
    simp only [reached, saidTotal, List.map_nil, List.sum_nil]
    omega
  | succ fuel ih =>
    obtain ⟨hd, hhd, hdoff, hdlen⟩ := header_eq_some hoff
    have hsaid := saidFds_bounds hdlen
    simp only [reached, hhd]
    cases hnext : cmsgNxthdr hd.len (c.bytes.length - off) with
    | none =>
      simp only [saidTotal, List.map_cons, List.map_nil, List.sum_cons, List.sum_nil]
      omega
    | some d =>
      have hd' := cmsgNxthdr_eq_some hnext
      have hrest := ih (show off + d + 12 ≤ c.bytes.length by omega)
      have hfew : 0 ≤ saidFds hd ∧ saidFds hd ≤ d := by
        unfold saidFds
        split_ifs <;> omega
      simp only [saidTotal, List.map_cons, List.sum_cons] at hrest ⊢
      omega

/-! ### The first walk -/

lemma add_cmsgFds {n len : ℕ} (hlen : len < 2 ^ 32) :
    (((n + cmsgFds len) % 2 ^ 32 : ℕ) : ℤ) = (n + ((len : ℤ) - 12) / 4) % 2 ^ 32 := by
  unfold cmsgFds
  omega

lemma countFds_of_foreign {hs : List Cmsghdr} (hforeign : ∃ h ∈ hs, Foreign h) (n : ℕ) :
    hs.foldlM countFds n = .error .einval := by
  induction hs generalizing n with
  | nil => simp at hforeign
  | cons h hs ih =>
    rw [List.foldlM_cons]
    by_cases hhere : Foreign h
    · simp only [countFds, hhere.1, hhere.2, ne_eq, not_true, not_false_eq_true, if_false, if_true]
      rfl
    · have hrest : ∃ h ∈ hs, Foreign h := by
        obtain ⟨h', hmem, hh'⟩ := hforeign
        rcases List.mem_cons.1 hmem with rfl | hmem
        · exact absurd hh' hhere
        · exact ⟨h', hmem, hh'⟩
      have hok : ∃ m, countFds n h = .ok m := by
        unfold countFds
        split_ifs with hlevel htype
        · exact ⟨_, rfl⟩
        · exact absurd ⟨not_not.1 hlevel, htype⟩ hhere
        · exact ⟨_, rfl⟩
      obtain ⟨m, hm⟩ := hok
      rw [hm]
      exact ih hrest m

lemma countFds_step {h : Cmsghdr} (hlen : h.len < 2 ^ 32) (hnot : ¬ Foreign h) {n : ℕ}
    (hn : n < 2 ^ 32) :
    ∃ m : ℕ, countFds n h = .ok m ∧ m < 2 ^ 32 ∧ (m : ℤ) = (n + saidFds h) % 2 ^ 32 := by
  by_cases hlevel : h.level = 1
  · have htype : h.type = 1 := by_contra fun ht => hnot ⟨hlevel, ht⟩
    refine ⟨(n + cmsgFds h.len) % 2 ^ 32, ?_, Nat.mod_lt _ (by decide), ?_⟩
    · simp only [countFds, hlevel, htype, ne_eq, not_true, if_false]
    · rw [saidFds, if_pos hlevel]
      exact add_cmsgFds hlen
  · refine ⟨n, if_pos hlevel, hn, ?_⟩
    rw [saidFds, if_neg hlevel]
    omega

lemma countFds_eq {hs : List Cmsghdr} (hlen : ∀ h ∈ hs, h.len < 2 ^ 32)
    (hforeign : ¬ ∃ h ∈ hs, Foreign h) {n : ℕ} (hn : n < 2 ^ 32) :
    ∃ m : ℕ, hs.foldlM countFds n = .ok m ∧ (m : ℤ) = (n + saidTotal hs) % 2 ^ 32 := by
  induction hs generalizing n with
  | nil => exact ⟨n, rfl, by simp only [saidTotal, List.map_nil, List.sum_nil]; omega⟩
  | cons h hs ih =>
    have hhere : ¬ Foreign h := fun hf => hforeign ⟨h, List.mem_cons_self, hf⟩
    have hrest : ¬ ∃ h ∈ hs, Foreign h := by
      rintro ⟨h', hmem, hf⟩
      exact hforeign ⟨h', List.mem_cons_of_mem _ hmem, hf⟩
    obtain ⟨m, hm, hlt, hval⟩ := countFds_step (hlen h List.mem_cons_self) hhere hn
    obtain ⟨k, hk, hkval⟩ := ih (fun h hh => hlen h (List.mem_cons_of_mem _ hh)) hrest hlt
    refine ⟨k, ?_, ?_⟩
    · rw [List.foldlM_cons, hm]
      exact hk
    · simp only [saidTotal, List.map_cons, List.sum_cons] at hkval ⊢
      omega

/-! ### The second walk -/

variable {fGet : ℕ → Option F} {numFds : ℕ}

lemma takeFds_spec {n p : ℕ} {fds : List F} (hp : p + 4 * n ≤ c.bytes.length)
    (hroom : fds.length + n ≤ numFds) :
    (∃ fds', c.takeFds fGet numFds n p fds = .ok fds' ∧ fds'.length = fds.length + n) ∨
      c.takeFds fGet numFds n p fds = .error .ebadf := by
  induction n generalizing p fds with
  | zero => exact Or.inl ⟨fds, rfl, rfl⟩
  | succ n ih =>
    obtain ⟨w, hw, -⟩ := c.dword_eq_some (show p + 4 ≤ _ by omega)
    cases hf : fGet w with
    | none =>
      right
      simp only [takeFds, hw, hf]
    | some f =>
      have hlt : fds.length < numFds := by omega
      have hlen : (fds ++ [f]).length = fds.length + 1 := by simp
      have hnext := ih (show p + 4 + 4 * n ≤ _ by omega)
        (show (fds ++ [f]).length + n ≤ numFds by omega)
      rw [hlen, Nat.add_assoc, Nat.add_comm 1 n] at hnext
      simpa only [takeFds, hw, hf, hlt, if_true] using hnext

lemma saidFds_of_formed {h : Cmsghdr} (hformed : ¬ c.Malformed h) :
    0 ≤ saidFds h ∧ (h.level = 1 → saidFds h = cmsgFds h.len ∧
      12 + 4 * cmsgFds h.len ≤ c.bytes.length - h.off) := by
  have hshort := c.short
  unfold Malformed at hformed
  unfold saidFds cmsgFds
  split_ifs with hlevel
  · omega
  · exact ⟨le_rfl, fun h => absurd h hlevel⟩

lemma saidTotal_nonneg {hs : List Cmsghdr} (hformed : ∀ h ∈ hs, ¬ c.Malformed h) :
    0 ≤ saidTotal hs :=
  List.sum_nonneg (by simpa using fun h hh => (saidFds_of_formed (hformed h hh)).1)

lemma storeFds_spec {hs : List Cmsghdr} (hin : ∀ h ∈ hs, h.off + 12 ≤ c.bytes.length)
    (hformed : ∀ h ∈ hs, ¬ c.Malformed h) {fds : List F}
    (hroom : fds.length + saidTotal hs ≤ numFds) :
    (∃ fds', hs.foldlM (c.storeFds fGet numFds) fds = .ok fds' ∧
      (fds'.length : ℤ) = fds.length + saidTotal hs) ∨
      hs.foldlM (c.storeFds fGet numFds) fds = .error .ebadf := by
  induction hs generalizing fds with
  | nil => exact Or.inl ⟨fds, rfl, by simp [saidTotal]⟩
  | cons h hs ih =>
    have hrest : ∀ h ∈ hs, ¬ c.Malformed h := fun h hh => hformed h (List.mem_cons_of_mem _ hh)
    have hnonneg := saidTotal_nonneg hrest
    obtain ⟨hpos, hlevel⟩ := saidFds_of_formed (hformed h List.mem_cons_self)
    have htotal : saidTotal (h :: hs) = saidFds h + saidTotal hs := List.sum_cons
    -- what the walk does at this header
    have hstep : (∃ fds', c.storeFds fGet numFds fds h = .ok fds' ∧
        (fds'.length : ℤ) = fds.length + saidFds h) ∨
        c.storeFds fGet numFds fds h = .error .ebadf := by
      by_cases hl : h.level = 1
      · obtain ⟨hsaid, hleft⟩ := hlevel hl
        have hp : h.off + 12 + 4 * cmsgFds h.len ≤ c.bytes.length := by
          have := hin h List.mem_cons_self
          omega
        have htake := @takeFds_spec c F fGet numFds _ _ fds hp
          (show fds.length + cmsgFds h.len ≤ numFds by omega)
        simp only [storeFds, hl, ne_eq, not_true, if_false]
        refine htake.imp_left ?_
        rintro ⟨fds', hok, hlen⟩
        exact ⟨fds', hok, by omega⟩
      · exact Or.inl ⟨fds, if_pos hl, by rw [saidFds, if_neg hl, add_zero]⟩
    rw [List.foldlM_cons]
    rcases hstep with ⟨fds', hok, hlen⟩ | herr
    · rw [hok]
      have hnext := ih (fun h hh => hin h (List.mem_cons_of_mem _ hh)) hrest
        (show fds'.length + saidTotal hs ≤ numFds by omega)
      refine hnext.imp_left ?_
      rintro ⟨fds'', hok', hlen'⟩
      exact ⟨fds'', hok', by omega⟩
    · rw [herr]
      exact Or.inr rfl

/-! ### Both walks -/

variable (c) (fGet)

def Settled : Prop :=
  (∀ h ∈ c.headers, ¬ c.Malformed h) ∨ (∃ h ∈ c.headers, Foreign h) ∨
    saidTotal c.headers < 0 ∨ 253 < saidTotal c.headers

variable {c} {fGet}

lemma headers_eq_nil (h : c.bytes.length < 12) : c.headers = [] := by
  unfold headers
  cases hn : c.bytes.length with
  | zero => rfl
  | succ n =>
    have hnone : c.header 0 = none := by
      unfold header dword
      by_cases h4 : 0 + 4 ≤ c.bytes.length
      · by_cases h8 : 0 + 4 + 4 ≤ c.bytes.length
        · have h12 : ¬ 0 + 8 + 4 ≤ c.bytes.length := by omega
          simp only [h4, h8, h12, if_true, if_false]
          rfl
        · simp only [h4, h8, if_true, if_false]
          rfl
      · simp only [h4, if_false]
        rfl
    simp only [reached, hnone]

lemma scm_of_foreign (hl : 12 ≤ c.bytes.length) (hforeign : ∃ h ∈ c.headers, Foreign h) :
    c.scm fGet = .error .einval := by
  have hcount : c.walk countFds c.bytes.length 0 0 = .error .einval := by
    rw [walk_eq countFds (by omega) (by omega)]
    exact countFds_of_foreign hforeign 0
  simp only [scm, not_lt.2 hl, if_false, hcount]

lemma scm_eq (hl : 12 ≤ c.bytes.length) (hforeign : ¬ ∃ h ∈ c.headers, Foreign h) :
    ∃ numFds : ℕ, (numFds : ℤ) = saidTotal c.headers % 2 ^ 32 ∧
      c.scm fGet = if 253 < numFds then .error .einval
        else if numFds = 0 then .ok none
        else match c.headers.foldlM (c.storeFds fGet numFds) [] with
          | .error e => .error e
          | .ok fds  => .ok (some (numFds, fds)) := by
  obtain ⟨n, hn, hval⟩ := countFds_eq (fun h hh => (mem_reached (by omega) hh).2) hforeign
    (show 0 < 2 ^ 32 by decide)
  rw [Nat.cast_zero, zero_add] at hval
  refine ⟨n, hval, ?_⟩
  have hcount : c.walk countFds c.bytes.length 0 0 = .ok n := by
    rw [walk_eq countFds (by omega) (by omega)]
    exact hn
  simp only [scm, not_lt.2 hl, if_false, hcount, walk_eq (c.storeFds fGet n)
    (show 0 + 12 ≤ c.bytes.length by omega) (show c.bytes.length ≤ 0 + c.bytes.length by omega)]
  rfl

lemma takeFds_ne_einval (n p : ℕ) (fds : List F) :
    c.takeFds fGet numFds n p fds ≠ .error .einval := by
  induction n generalizing p fds with
  | zero => exact fun h => (by cases h)
  | succ n ih =>
    unfold takeFds
    cases c.dword p with
    | none => exact fun h => (by cases h)
    | some w =>
      simp only
      cases fGet w with
      | none => exact fun h => (by cases h)
      | some f =>
        simp only
        split_ifs
        · exact ih _ _
        · exact fun h => (by cases h)

lemma storeFds_ne_einval (hs : List Cmsghdr) (fds : List F) :
    hs.foldlM (c.storeFds fGet numFds) fds ≠ .error .einval := by
  induction hs generalizing fds with
  | nil => exact fun h => (by cases h)
  | cons h hs ih =>
    rw [List.foldlM_cons]
    have hstep : c.storeFds fGet numFds fds h ≠ .error .einval := by
      unfold storeFds
      split_ifs
      · exact fun h => (by cases h)
      · exact takeFds_ne_einval _ _ _
    cases hres : c.storeFds fGet numFds fds h with
    | error e =>
      intro herr
      rw [hres] at hstep
      exact hstep herr
    | ok fds' => exact ih fds'

inductive ScmResult : Except CmsgError (Option (ℕ × List F)) → Prop
  | einval : ScmResult (.error .einval)
  | ebadf : ScmResult (.error .ebadf)
  | none : ScmResult (.ok none)
  | scm (fds : List F) : ScmResult (.ok (some (fds.length, fds)))

lemma ScmResult.safe {r : Except CmsgError (Option (ℕ × List F))} (hr : ScmResult r)
    (h : c.scm fGet = r) (hvalid : (∃ h ∈ c.headers, c.Malformed h) → r = .error .einval) :
    c.ScmSafe fGet := by
  subst h
  refine ⟨?_, ?_, ?_, hvalid⟩
  · intro hends
    rw [hends] at hr
    cases hr
  · intro hinside
    rw [hinside] at hr
    cases hr
  · intro numFds fds hok
    rw [hok] at hr
    cases hr
    rfl

lemma formed_of_safe (hsafe : c.ScmSafe fGet)
    (hscm : c.scm fGet = if numFds = 0 then .ok none
      else match c.headers.foldlM (c.storeFds fGet numFds) [] with
        | .error e => .error e
        | .ok fds  => .ok (some (numFds, fds))) : ∀ h ∈ c.headers, ¬ c.Malformed h := by
  intro h hmem hbad
  have heinval := hsafe.invalid ⟨h, hmem, hbad⟩
  rw [hscm] at heinval
  split_ifs at heinval
  cases hstore : c.headers.foldlM (c.storeFds fGet numFds) [] with
  | error e =>
    rw [hstore] at heinval
    have he : e = .einval := Except.error.inj heinval
    exact storeFds_ne_einval _ _ (he ▸ hstore)
  | ok fds =>
    rw [hstore] at heinval
    cases heinval

lemma safe_of_formed (hl : 12 ≤ c.bytes.length) (hformed : ∀ h ∈ c.headers, ¬ c.Malformed h)
    (hnum : (numFds : ℤ) = saidTotal c.headers)
    (hscm : c.scm fGet = if numFds = 0 then .ok none
      else match c.headers.foldlM (c.storeFds fGet numFds) [] with
        | .error e => .error e
        | .ok fds  => .ok (some (numFds, fds))) : c.ScmSafe fGet := by
  have hvalid : ¬ ∃ h ∈ c.headers, c.Malformed h := by
    rintro ⟨h, hmem, hbad⟩
    exact hformed h hmem hbad
  by_cases hzero : numFds = 0
  · exact ScmResult.none.safe (hscm.trans (if_pos hzero)) fun h => absurd h hvalid
  · rw [if_neg hzero] at hscm
    have hin : ∀ h ∈ c.headers, h.off + 12 ≤ c.bytes.length :=
      fun h hh => (mem_reached (by omega) hh).1
    have hroom : (([] : List F).length : ℤ) + saidTotal c.headers ≤ numFds := by
      rw [List.length_nil]
      omega
    rcases @storeFds_spec c F fGet numFds c.headers hin hformed [] hroom with
      ⟨fds, hok, hlen⟩ | herr
    · rw [hok] at hscm
      rw [List.length_nil] at hlen
      obtain rfl : fds.length = numFds := by omega
      exact (ScmResult.scm fds).safe hscm fun h => absurd h hvalid
    · rw [herr] at hscm
      exact ScmResult.ebadf.safe hscm fun h => absurd h hvalid

/-- The control buffer is parsed safely exactly if its headers are good, or there is another
reason not to take the message. -/
theorem scm_safe_iff (c : ControlData) (fGet : ℕ → Option F) : c.ScmSafe fGet ↔ c.Settled := by
  by_cases hl : c.bytes.length < 12
  · have hnil := headers_eq_nil hl
    have hformed : ∀ h ∈ c.headers, ¬ c.Malformed h := by simp [hnil]
    exact iff_of_true (ScmResult.none.safe (if_pos hl) (by simp [hnil])) (Or.inl hformed)
  · by_cases hforeign : ∃ h ∈ c.headers, Foreign h
    · have heinval := @scm_of_foreign c F fGet (not_lt.1 hl) hforeign
      exact iff_of_true (ScmResult.einval.safe heinval fun _ => rfl) (Or.inr (Or.inl hforeign))
    · have hbounds : -3 ≤ saidTotal c.headers ∧
          saidTotal c.headers ≤ 2 ^ 30 + (c.bytes.length - 0 : ℕ) :=
        saidTotal_bounds (by omega)
      have hshort := c.short
      obtain ⟨numFds, hnum, hscm⟩ := @scm_eq c F fGet (not_lt.1 hl) hforeign
      by_cases hmany : 253 < numFds
      · rw [if_pos hmany] at hscm
        exact iff_of_true (ScmResult.einval.safe hscm fun _ => rfl) (Or.inr (Or.inr (by omega)))
      · rw [if_neg hmany] at hscm
        constructor
        · exact fun hsafe => Or.inl (formed_of_safe hsafe hscm)
        · rintro (hformed | h | h)
          · exact safe_of_formed (not_lt.1 hl) hformed (by omega) hscm
          · exact absurd h hforeign
          · omega

/-- The second of two headers says that it has less than no descriptors, and the array is too
short for those of the first. -/
theorem scm_overflows :
    ¬ ∀ (c : ControlData) (fGet : ℕ → Option Unit), c.ScmSafe fGet := by
  intro h
  have hsafe := h ⟨[24, 0, 0, 0, 1, 0, 0, 0, 1, 0, 0, 0, 0, 0, 0, 0, 0, 0, 0, 0, 0, 0, 0, 0,
    8, 0, 0, 0, 1, 0, 0, 0, 1, 0, 0, 0, 0, 0, 0, 0], by decide⟩ fun _ => some ()
  exact hsafe.inside (by decide +kernel)

end ControlData

end ShellBox
