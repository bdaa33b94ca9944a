import ShellBox.Fs.UnixNames

/-!
# The table of abstract names

An entry of the table is held by one socket, which has its name recorded, as long as the host
accepts what `bind` has recorded before. So the table has exactly the names of the open sockets,
and every reference is released when its socket goes.
-/

namespace ShellBox

open Function

namespace UnixWorld

variable {w w' : UnixWorld} {s : SockId} {p : NamePtr} {k : NameHolder}

def store (w : UnixWorld) : RefStore NameHolder NamePtr := ⟨w.owner, w.refcount, w.freed⟩

def abstractChain (w : UnixWorld) (p : NamePtr) : Option ℕ :=
  (w.abstract p).map fun sock => sock.hash.toNat % nameHashSize

def inodeChain (w : UnixWorld) (p : NamePtr) : Option ℕ :=
  (w.inode p).map fun inode => inode.number % nameHashSize

def Points (w : UnixWorld) (p : NamePtr) : NameHolder → Prop
  | .abstract _ => w.abstract p ≠ none
  | _ => w.inode p ≠ none

/-- References are counted, and the chains have what is referred to: abstract names under the hash
of their bytes, each once. -/
structure Tables (w : UnixWorld) : Prop where
  store : w.store.Sound
  strays : w.strays = []
  abstracts : Buckets w.abstractHash w.abstractChain
  inodes : Buckets w.inodesHash w.inodeChain
  hash : ∀ p sock, w.abstract p = some sock → sock.hash = memHash sock.name
  distinct : ∀ p p' sock sock', w.abstract p = some sock → w.abstract p' = some sock' →
    sock.name = sock'.name → p = p'
  live : ∀ p, w.refcount p = none → w.abstract p = none ∧ w.inode p = none
  kinds : ∀ p, w.abstract p ≠ none → w.inode p = none
  points : ∀ k p, w.owner k = some p → w.Points p k
  single : ∀ s s' p, w.owner (.abstract s) = some p → w.owner (.abstract s') = some p → s = s'

lemma Tables.single_of (h : w.Tables) {owner : NameHolder → Option NamePtr}
    (hsub : ∀ s p, owner (.abstract s) = some p → w.owner (.abstract s) = some p) (s s' : SockId)
    (p : NamePtr) (hs : owner (.abstract s) = some p) (hs' : owner (.abstract s') = some p) :
    s = s' :=
  h.single s s' p (hsub s p hs) (hsub s' p hs')

lemma owner_of_update_none {owner : NameHolder → Option NamePtr} {j : NameHolder}
    (hj : update owner k none j = some p) : owner j = some p := by
  by_cases hjk : j = k
  · rw [hjk, update_self] at hj
    cases hj
  · rwa [update_of_ne hjk] at hj

structure Recorded (w : UnixWorld) : Prop where
  named : ∀ s n, w.unixName s = 0 :: n → w.owner (.abstract s) ≠ none
  name : ∀ s p sock, w.owner (.abstract s) = some p → w.abstract p = some sock →
    w.unixName s = 0 :: sock.name
  bound : ∀ s, w.hostBound s = false → w.owner (.abstract s) = none ∧ w.owner (.inode s) = none ∧
    w.unixName s = []
  closed : ∀ s, w.isOpen s = false → w.hostBound s = false

lemma Tables.isName_iff (h : w.Tables) {n : List UInt8} :
    w.isName n p = true ↔ ∃ sock, w.abstract p = some sock ∧ sock.name = n := by
  unfold isName
  rw [Option.any_eq_true]
  constructor
  · rintro ⟨sock, hsock, hname⟩
    exact ⟨sock, hsock, (of_decide_eq_true hname).2.2⟩
  · rintro ⟨sock, hsock, rfl⟩
    exact ⟨sock, hsock, decide_eq_true ⟨h.hash p sock hsock, rfl, rfl⟩⟩

lemma Tables.abstractFind_eq_some (h : w.Tables) {n : List UInt8} :
    w.abstractFind n = some p ↔ ∃ sock, w.abstract p = some sock ∧ sock.name = n := by
  unfold abstractFind
  constructor
  · intro hfind
    exact h.isName_iff.1 (List.find?_some hfind)
  · rintro ⟨sock, hsock, hname⟩
    have hmem : p ∈ w.abstractHash ((memHash n).toNat % nameHashSize) := by
      rw [h.abstracts.mem_iff, abstractChain, hsock, ← hname, ← h.hash p sock hsock]
      rfl
    cases hfind : (w.abstractHash ((memHash n).toNat % nameHashSize)).find? (w.isName n) with
    | none =>
      rw [List.find?_eq_none] at hfind
      exact absurd (h.isName_iff.2 ⟨sock, hsock, hname⟩) (hfind p hmem)
    | some q =>
      obtain ⟨sock', hsock', hname'⟩ := h.isName_iff.1 (List.find?_some hfind)
      rw [h.distinct q p sock' sock hsock' hsock (hname'.trans hname.symm)]

lemma inode_of_inodeGetData {mount number : ℕ} (hfind : w.inodeGetData mount number = some p) :
    w.inode p ≠ none := by
  have hp := List.find?_some hfind
  unfold isInode at hp
  rw [Option.any_eq_true] at hp
  obtain ⟨inode, hinode, -⟩ := hp
  rw [hinode]
  exact Option.some_ne_none inode

/-! ### Releasing -/

lemma Tables.refcount_of_owner (h : w.Tables) (hk : w.owner k = some p) :
    ∃ n, w.refcount p = some n ∧ 0 < n := by
  obtain ⟨n, hn⟩ := Option.isSome_iff_exists.1 (h.store.live k p hk)
  exact ⟨n, hn, h.store.count_pos hk hn⟩

lemma Tables.releaseHeld_cases (h : w.Tables) (hk : w.owner k = some p) :
    (w.refcount p = some 1 ∧ w.releaseHeld k =
      { w with
        owner := update w.owner k none
        refcount := update w.refcount p none
        freed := p :: w.freed
        abstract := update w.abstract p none
        inode := update w.inode p none
        abstractHash := fun i => (w.abstractHash i).erase p
        inodesHash := fun i => (w.inodesHash i).erase p }) ∨
    ∃ n, w.refcount p = some n ∧ n ≠ 1 ∧ w.releaseHeld k =
      { w with
        owner := update w.owner k none
        refcount := update w.refcount p (some (n - 1)) } := by
  obtain ⟨n, hn, -⟩ := h.refcount_of_owner hk
  unfold releaseHeld release
  rw [hk]
  simp only [hn]
  by_cases hone : n = 1
  · rw [hone]
    exact .inl ⟨rfl, rfl⟩
  · refine .inr ⟨n, rfl, hone, ?_⟩
    split
    · rename_i heq
      exact absurd (Option.some.inj heq) hone
    · rename_i heq
      rw [Option.some.inj heq]
    · contradiction

lemma Tables.releaseHeld (h : w.Tables) (k : NameHolder) : (w.releaseHeld k).Tables := by
  cases hk : w.owner k with
  | none =>
    unfold UnixWorld.releaseHeld
    rw [hk]
    exact h
  | some p =>
    have hstore := h.store.unlink hk
    obtain ⟨hone, heq⟩ | ⟨n, hn, hone, heq⟩ := h.releaseHeld_cases hk
    · have hdrop : w.store.drop p = (update w.refcount p none, p :: w.freed) := by
        simp [RefStore.drop, UnixWorld.store, hone]
      rw [hdrop] at hstore
      rw [heq]
      have habstract : ∀ q sock, update w.abstract p none q = some sock →
          q ≠ p ∧ w.abstract q = some sock := by
        intro q sock hq
        by_cases hqp : q = p
        · rw [hqp, update_self] at hq
          cases hq
        · rw [update_of_ne hqp] at hq
          exact ⟨hqp, hq⟩
      refine ⟨hstore, h.strays, ?_, ?_, fun q sock hq => ?_, fun q q' sock sock' hq hq' => ?_,
        fun q hq => ?_, fun q hq => ?_, fun j q hj => ?_,
        h.single_of fun s q hq => owner_of_update_none hq⟩
      · show Buckets _ fun q => (update w.abstract p none q).map _
        rw [map_update]
        exact h.abstracts.remove p
      · show Buckets _ fun q => (update w.inode p none q).map _
        rw [map_update]
        exact h.inodes.remove p
      · exact h.hash q sock (habstract q sock hq).2
      · exact h.distinct q q' sock sock' (habstract q sock hq).2 (habstract q' sock' hq').2
      · simp only at hq ⊢
        by_cases hqp : q = p
        · rw [hqp, update_self, update_self]
          exact ⟨rfl, rfl⟩
        · rw [update_of_ne hqp] at hq ⊢
          rw [update_of_ne hqp]
          exact h.live q hq
      · simp only at hq ⊢
        by_cases hqp : q = p
        · rw [hqp, update_self]
        · rw [update_of_ne hqp] at hq ⊢
          exact h.kinds q hq
      · simp only at hj
        have hjk : j ≠ k := by
          rintro rfl
          rw [update_self] at hj
          cases hj
        rw [update_of_ne hjk] at hj
        have hqp : q ≠ p := by
          rintro rfl
          exact hjk (h.store.owner_unique hk hone hj)
        have hpoints := h.points j q hj
        cases j with
        | abstract s' => simpa [Points, update_of_ne hqp] using hpoints
        | inode s' => simpa [Points, update_of_ne hqp] using hpoints
        | call => simpa [Points, update_of_ne hqp] using hpoints
        | other i => simpa [Points, update_of_ne hqp] using hpoints
    · have hdrop : w.store.drop p = (update w.refcount p (some (n - 1)), w.freed) :=
        RefStore.drop_of_ne_one hn hone
      rw [hdrop] at hstore
      rw [heq]
      refine ⟨hstore, h.strays, h.abstracts, h.inodes, h.hash, h.distinct, fun q hq => ?_, h.kinds,
        fun j q hj => h.points j q (owner_of_update_none hj),
        h.single_of fun s q hq => owner_of_update_none hq⟩
      simp only at hq
      by_cases hqp : q = p
      · rw [hqp, update_self] at hq
        cases hq
      · rw [update_of_ne hqp] at hq
        exact h.live q hq

@[simp] lemma owner_releaseHeld (k : NameHolder) :
    (w.releaseHeld k).owner = update w.owner k none := by
  unfold releaseHeld
  split
  · unfold release
    split
    · rfl
    · rfl
    · rfl
  · rename_i hk
    rw [← hk, update_eq_self]

lemma releaseHeld_same (k : NameHolder) : (w.releaseHeld k).unixName = w.unixName ∧
    (w.releaseHeld k).hostBound = w.hostBound ∧ (w.releaseHeld k).isOpen = w.isOpen ∧
    (w.releaseHeld k).files = w.files := by
  unfold releaseHeld
  split
  · unfold release
    split
    · exact ⟨rfl, rfl, rfl, rfl⟩
    · exact ⟨rfl, rfl, rfl, rfl⟩
    · exact ⟨rfl, rfl, rfl, rfl⟩
  · exact ⟨rfl, rfl, rfl, rfl⟩

lemma Tables.abstract_releaseHeld (h : w.Tables) {j : NameHolder} {q : NamePtr} (hj : j ≠ k)
    (hq : w.owner j = some q) : (w.releaseHeld k).abstract q = w.abstract q := by
  cases hk : w.owner k with
  | none =>
    unfold UnixWorld.releaseHeld
    rw [hk]
  | some p =>
    obtain ⟨hone, heq⟩ | ⟨n, -, -, heq⟩ := h.releaseHeld_cases hk
    · have hqp : q ≠ p := by
        rintro rfl
        exact hj (h.store.owner_unique hk hone hq)
      rw [heq]
      exact update_of_ne hqp _ _
    · rw [heq]

lemma Tables.with (h : w.Tables) (files : ℕ × List UInt8 → Option SocketStat)
    (isOpen : SockId → Bool) (unixName : SockId → List UInt8) (hostBound : SockId → Bool) :
    Tables { w with
      files := files, isOpen := isOpen, unixName := unixName, hostBound := hostBound } := by
  refine ⟨h.store, h.strays, h.abstracts, h.inodes, h.hash, h.distinct, h.live, h.kinds,
    fun k p hk => ?_, h.single⟩
  have hp := h.points k p hk
  cases k with
  | abstract s' => exact hp
  | inode s' => exact hp
  | call => exact hp
  | other i => exact hp

/-! ### Taking -/

/-- What `malloc` has returned is new. -/
def New (w : UnixWorld) (ptr : Option NamePtr) : Prop :=
  ∀ p, ptr = some p → w.refcount p = none ∧ p ∉ w.freed

lemma Tables.inodeGet (h : w.Tables) (hk : w.owner k = none) (hkind : ∀ s, k ≠ .abstract s)
    (mount number : ℕ) {ptr : Option NamePtr} (hptr : w.New ptr) :
    (w.inodeGet k mount number ptr).1.Tables := by
  have hpoints : ∀ (w' : UnixWorld) p, w'.inode p ≠ none → w'.Points p k := by
    intro w' p hp
    cases k with
    | abstract s => exact absurd rfl (hkind s)
    | inode s => exact hp
    | call => exact hp
    | other i => exact hp
  unfold UnixWorld.inodeGet
  cases hfind : w.inodeGetData mount number with
  | some p =>
    simp only
    have hinode := inode_of_inodeGetData hfind
    have hlive : w.refcount p ≠ none := fun hdead => hinode (h.live p hdead).2
    obtain ⟨n, hn⟩ := Option.ne_none_iff_exists'.1 hlive
    have hlink := h.store.link hk hn
    rw [hn]
    refine ⟨hlink, h.strays, h.abstracts, h.inodes, h.hash, h.distinct, fun q hq => ?_, h.kinds,
      fun j q hj => ?_, h.single_of fun s q hq => ?_⟩
    · simp only at hq
      by_cases hqp : q = p
      · rw [hqp, Option.map_some, update_self] at hq
        cases hq
      · rw [update_of_ne hqp] at hq
        exact h.live q hq
    · simp only at hj
      by_cases hjk : j = k
      · rw [hjk, update_self] at hj
        obtain rfl := Option.some.inj hj
        rw [hjk]
        exact hpoints _ p hinode
      · rw [update_of_ne hjk] at hj
        exact h.points j q hj
    · simpa [update_of_ne (hkind s).symm] using hq
  | none =>
    cases ptr with
    | none => exact h
    | some p =>
      simp only
      obtain ⟨hdead, hfreed⟩ := hptr p rfl
      obtain ⟨habstract, hinode⟩ := h.live p hdead
      have hmake := h.store.make hk hdead hfreed
      refine ⟨hmake, h.strays, h.abstracts, ?_, h.hash, h.distinct, fun q hq => ?_,
        fun q hq => ?_, fun j q hj => ?_, h.single_of fun s q hq => ?_⟩
      · show Buckets _ fun q => (update w.inode p _ q).map _
        rw [map_update]
        refine h.inodes.push ?_ _
        rw [inodeChain, hinode]
        rfl
      · simp only at hq ⊢
        have hqp : q ≠ p := by
          rintro rfl
          rw [update_self] at hq
          cases hq
        rw [update_of_ne hqp] at hq ⊢
        exact h.live q hq
      · simp only at hq ⊢
        have hqp : q ≠ p := fun heq => hq (heq ▸ habstract)
        rw [update_of_ne hqp]
        exact h.kinds q hq
      · simp only at hj
        by_cases hjk : j = k
        · rw [hjk, update_self] at hj
          obtain rfl := Option.some.inj hj
          rw [hjk]
          refine hpoints _ p ?_
          simp
        · rw [update_of_ne hjk] at hj
          have hqp : q ≠ p := by
            rintro rfl
            exact h.store.not_owner hdead j hj
          have hj' := h.points j q hj
          cases j with
          | abstract s' => exact hj'
          | inode s' => simpa [Points, update_of_ne hqp] using hj'
          | call => simpa [Points, update_of_ne hqp] using hj'
          | other i => simpa [Points, update_of_ne hqp] using hj'
      · simpa [update_of_ne (hkind s).symm] using hq

lemma Tables.socketIdOf (h : w.Tables) (p : NamePtr) : (w.socketIdOf p).1.Tables := by
  unfold UnixWorld.socketIdOf
  split
  · exact h
  · rename_i inode hinode
    split_ifs
    · have hsome : ∀ q, update w.inode p (some { inode with socketId := w.nextId + 1 }) q = none ↔
          w.inode q = none := by
        intro q
        by_cases hqp : q = p
        · rw [hqp, update_self, hinode]
          simp
        · rw [update_of_ne hqp]
      refine ⟨h.store, h.strays, h.abstracts, ?_, h.hash, h.distinct, fun q hq => ?_,
        fun q hq => ?_, fun j q hj => ?_, h.single⟩
      · show Buckets _ fun q => (update w.inode p _ q).map _
        rw [map_update]
        have hsame : update w.inodeChain p (w.inodeChain p) = w.inodeChain := update_eq_self p _
        rw [inodeChain, hinode] at hsame
        exact hsame ▸ h.inodes
      · exact (h.live q hq).imp_right (hsome q).2
      · exact (hsome q).2 (h.kinds q hq)
      · have hj' := h.points j q hj
        cases j with
        | abstract s' => exact hj'
        | inode s' => exact fun hnone => hj' ((hsome q).1 hnone)
        | call => exact fun hnone => hj' ((hsome q).1 hnone)
        | other i => exact fun hnone => hj' ((hsome q).1 hnone)
    · exact h

structure SameNames (w w' : UnixWorld) : Prop where
  unixName : w'.unixName = w.unixName
  hostBound : w'.hostBound = w.hostBound
  isOpen : w'.isOpen = w.isOpen
  abstractOwner : ∀ s, w'.owner (.abstract s) = w.owner (.abstract s)
  inodeOwner : ∀ s, w'.owner (.inode s) = w.owner (.inode s)
  abstract : ∀ s p, w.owner (.abstract s) = some p → w'.abstract p = w.abstract p

lemma SameNames.rfl : w.SameNames w :=
  ⟨Eq.refl _, Eq.refl _, Eq.refl _, fun _ => Eq.refl _, fun _ => Eq.refl _, fun _ _ _ => Eq.refl _⟩

lemma SameNames.trans {w₁ w₂ : UnixWorld} (h : w.SameNames w₁) (h' : w₁.SameNames w₂) :
    w.SameNames w₂ where
  unixName := h'.unixName.trans h.unixName
  hostBound := h'.hostBound.trans h.hostBound
  isOpen := h'.isOpen.trans h.isOpen
  abstractOwner s := (h'.abstractOwner s).trans (h.abstractOwner s)
  inodeOwner s := (h'.inodeOwner s).trans (h.inodeOwner s)
  abstract s p hp := (h'.abstract s p ((h.abstractOwner s).trans hp)).trans (h.abstract s p hp)

lemma Recorded.congr (h : w.Recorded) (hs : w.SameNames w') : w'.Recorded := by
  refine ⟨fun s n hn => ?_, fun s p sock hp hsock => ?_, fun s hs' => ?_, fun s hs' => ?_⟩
  · rw [hs.abstractOwner]
    rw [hs.unixName] at hn
    exact h.named s n hn
  · rw [hs.abstractOwner] at hp
    rw [hs.abstract s p hp] at hsock
    rw [hs.unixName]
    exact h.name s p sock hp hsock
  · rw [hs.hostBound] at hs'
    rw [hs.abstractOwner, hs.inodeOwner, hs.unixName]
    exact h.bound s hs'
  · rw [hs.isOpen] at hs'
    rw [hs.hostBound]
    exact h.closed s hs'

lemma sameNames_inodeGet (hk : ∀ s, k ≠ .abstract s ∧ k ≠ .inode s) (mount number : ℕ)
    (ptr : Option NamePtr) : w.SameNames (w.inodeGet k mount number ptr).1 := by
  have howner : ∀ v s, update w.owner k v (.abstract s) = w.owner (.abstract s) ∧
      update w.owner k v (.inode s) = w.owner (.inode s) :=
    fun v s => ⟨update_of_ne (hk s).1.symm _ _, update_of_ne (hk s).2.symm _ _⟩
  unfold inodeGet
  split
  · exact ⟨rfl, rfl, rfl, fun s => (howner _ s).1, fun s => (howner _ s).2, fun _ _ _ => rfl⟩
  · exact SameNames.rfl
  · exact ⟨rfl, rfl, rfl, fun s => (howner _ s).1, fun s => (howner _ s).2, fun _ _ _ => rfl⟩

lemma sameNames_socketIdOf (p : NamePtr) : w.SameNames (w.socketIdOf p).1 ∧
    (w.socketIdOf p).1.owner = w.owner ∧ (w.socketIdOf p).1.files = w.files := by
  unfold socketIdOf
  split
  · exact ⟨SameNames.rfl, rfl, rfl⟩
  · split_ifs
    · exact ⟨⟨rfl, rfl, rfl, fun _ => rfl, fun _ => rfl, fun _ _ _ => rfl⟩, rfl, rfl⟩
    · exact ⟨SameNames.rfl, rfl, rfl⟩

lemma Tables.sameNames_releaseHeld (h : w.Tables) (hk : ∀ s, k ≠ .abstract s ∧ k ≠ .inode s) :
    w.SameNames (w.releaseHeld k) := by
  obtain ⟨hname, hbound, hopen, -⟩ := releaseHeld_same (w := w) k
  refine ⟨hname, hbound, hopen, fun s => ?_, fun s => ?_, fun s p hp => ?_⟩
  · rw [owner_releaseHeld, update_of_ne (hk s).1.symm]
  · rw [owner_releaseHeld, update_of_ne (hk s).2.symm]
  · exact h.abstract_releaseHeld (hk s).1.symm hp

lemma inodeGet_cases (mount number : ℕ) (ptr : Option NamePtr) :
    (w.inodeGetData mount number = none ∧ ptr = none ∧
      w.inodeGet k mount number ptr = (w, none)) ∨
    ∃ p, (w.inodeGet k mount number ptr).2 = some p ∧
      (w.inodeGet k mount number ptr).1.owner = update w.owner k (some p) ∧
      (w.inodeGet k mount number ptr).1.files = w.files := by
  unfold inodeGet
  cases hfind : w.inodeGetData mount number with
  | some p => exact .inr ⟨p, rfl, rfl, rfl⟩
  | none =>
    cases ptr with
    | none => exact .inl ⟨rfl, rfl, rfl⟩
    | some p => exact .inr ⟨p, rfl, rfl, rfl⟩

lemma Tables.move (h : w.Tables) (hp : w.owner .call = some p) (hs : w.owner (.inode s) = none) :
    Tables { w with owner := update (update w.owner (.inode s) (some p)) .call none } := by
  refine ⟨h.store.move hp hs, h.strays, h.abstracts, h.inodes, h.hash, h.distinct, h.live, h.kinds,
    fun j q hj => ?_, h.single_of fun s' q hq => by simpa using hq⟩
  have hj := owner_of_update_none hj
  by_cases hji : j = .inode s
  · rw [hji, update_self] at hj
    obtain rfl := Option.some.inj hj
    rw [hji]
    exact h.points .call p hp
  · rw [update_of_ne hji] at hj
    exact h.points j q hj

/-- A lookup of a file, and a `bind` that fails there, leave everything as it was. -/
structure Leaves (w w' : UnixWorld) : Prop where
  tables : w'.Tables
  idle : w'.owner .call = none
  names : w.SameNames w'
  files : w'.files = w.files

lemma Tables.socketInode_lookup (h : w.Tables) (hidle : w.owner .call = none) (mount : ℕ)
    (st : SocketStat) {ptr : Option NamePtr} (hptr : w.New ptr) :
    w.Leaves (w.socketInode mount st none ptr).1 := by
  have hget := h.inodeGet hidle (fun s => by simp) mount st.number hptr
  have hnames := sameNames_inodeGet (w := w) (k := .call) (fun s => by simp) mount st.number ptr
  unfold socketInode
  split_ifs
  · obtain ⟨-, -, heq⟩ | ⟨p, hp, howner, hfiles⟩ :=
      inodeGet_cases (w := w) (k := .call) mount st.number ptr
    · rw [heq]
      exact ⟨h, hidle, SameNames.rfl, rfl⟩
    · generalize w.inodeGet .call mount st.number ptr = r at hget hnames hp howner hfiles
      obtain ⟨w₁, p'⟩ := r
      obtain rfl := hp
      obtain ⟨hid, hidowner, hidfiles⟩ := sameNames_socketIdOf (w := w₁) p
      have htables := hget.socketIdOf p
      simp only
      refine ⟨htables.releaseHeld .call, ?_, (hnames.trans hid).trans
        (htables.sameNames_releaseHeld fun s => by simp), ?_⟩
      · rw [owner_releaseHeld, update_self]
      · rw [(releaseHeld_same .call).2.2.2, hidfiles, hfiles]
  · exact ⟨h, hidle, SameNames.rfl, rfl⟩

structure SameNamesBut (s : SockId) (w w' : UnixWorld) : Prop where
  unixName : w'.unixName = w.unixName
  hostBound : w'.hostBound = w.hostBound
  isOpen : w'.isOpen = w.isOpen
  abstractOwner : ∀ s', s' ≠ s → w'.owner (.abstract s') = w.owner (.abstract s')
  inodeOwner : ∀ s', s' ≠ s → w'.owner (.inode s') = w.owner (.inode s')
  abstract : ∀ s' p, w.owner (.abstract s') = some p → w'.abstract p = w.abstract p

lemma SameNames.but (h : w.SameNames w') (s : SockId) : w.SameNamesBut s w' :=
  ⟨h.unixName, h.hostBound, h.isOpen, fun s' _ => h.abstractOwner s', fun s' _ => h.inodeOwner s',
    h.abstract⟩

lemma Recorded.bind (h : w.Recorded) (hs : w.SameNamesBut s w') (hopen : w.isOpen s = true)
    {path : List UInt8} (hself : ∀ n, path = 0 :: n → w'.owner (.abstract s) ≠ none)
    (hname : ∀ p sock, w'.owner (.abstract s) = some p → w'.abstract p = some sock →
      path = 0 :: sock.name) :
    Recorded { w' with
      unixName := update w'.unixName s path, hostBound := update w'.hostBound s true } := by
  refine ⟨fun s' n hn => ?_, fun s' p sock hp hsock => ?_, fun s' hs' => ?_, fun s' hs' => ?_⟩
  · simp only at hn ⊢
    by_cases heq : s' = s
    · rw [heq, update_self] at hn
      rw [heq]
      exact hself n hn
    · rw [update_of_ne heq, hs.unixName] at hn
      rw [hs.abstractOwner s' heq]
      exact h.named s' n hn
  · simp only at hp hsock ⊢
    by_cases heq : s' = s
    · rw [heq] at hp
      rw [heq, update_self]
      exact hname p sock hp hsock
    · rw [hs.abstractOwner s' heq] at hp
      rw [hs.abstract s' p hp] at hsock
      rw [update_of_ne heq, hs.unixName]
      exact h.name s' p sock hp hsock
  · simp only at hs' ⊢
    have heq : s' ≠ s := by
      rintro rfl
      rw [update_self] at hs'
      cases hs'
    rw [update_of_ne heq, hs.hostBound] at hs'
    rw [update_of_ne heq, hs.abstractOwner s' heq, hs.inodeOwner s' heq, hs.unixName]
    exact h.bound s' hs'
  · simp only at hs' ⊢
    rw [hs.isOpen] at hs'
    have heq : s' ≠ s := by
      rintro rfl
      rw [hopen] at hs'
      cases hs'
    rw [update_of_ne heq, hs.hostBound]
    exact h.closed s' hs'

lemma Tables.socketInode_bind (h : w.Tables) (hidle : w.owner .call = none)
    (hs : w.owner (.inode s) = none) (mount number : ℕ) {ptr : Option NamePtr} (hptr : w.New ptr)
    (hmem : w.inodeGetData mount number ≠ none ∨ ptr ≠ none) :
    ∃ w' id, w.socketInode mount ⟨number, true⟩ (some s) ptr = (w', .ok id) ∧ w'.Tables ∧
      w'.owner .call = none ∧ w'.owner (.abstract s) = w.owner (.abstract s) ∧
      w.SameNamesBut s w' := by
  have hget := h.inodeGet hidle (fun s => by simp) mount number hptr
  have hnames := sameNames_inodeGet (w := w) (k := .call) (fun s => by simp) mount number ptr
  obtain ⟨hno, hnull, -⟩ | ⟨p, hp, howner, hfiles⟩ :=
    inodeGet_cases (w := w) (k := .call) mount number ptr
  · exact absurd hmem (by simp [hno, hnull])
  · unfold socketInode
    simp only [if_true]
    generalize w.inodeGet .call mount number ptr = r at hget hnames hp howner hfiles
    obtain ⟨w₁, p'⟩ := r
    obtain rfl := hp
    obtain ⟨hid, hidowner, -⟩ := sameNames_socketIdOf (w := w₁) p
    have hsame := hnames.trans hid
    have hcall : (w₁.socketIdOf p).1.owner .call = some p := by
      rw [hidowner, howner, update_self]
    refine ⟨_, _, rfl, (hget.socketIdOf p).move hcall ((hsame.inodeOwner s).trans hs), ?_, ?_,
      ⟨hsame.unixName, hsame.hostBound, hsame.isOpen, fun s' _ => ?_, fun s' hs' => ?_,
        hsame.abstract⟩⟩
    · simp
    · simpa using hsame.abstractOwner s
    · simpa using hsame.abstractOwner s'
    · simpa [hs'] using hsame.inodeOwner s'

lemma Tables.unixAbstractGet_bind (h : w.Tables) (hs : w.owner (.abstract s) = none)
    {name : List UInt8} (hfind : w.abstractFind name = none) (hnew : w.New (some p)) :
    ∃ w' id sock, w.unixAbstractGet name (some s) (some p) = (w', .ok id) ∧ w'.Tables ∧
      w'.owner .call = w.owner .call ∧ w'.owner (.abstract s) = some p ∧
      w'.abstract p = some sock ∧ sock.name = name ∧ w.SameNamesBut s w' := by
  obtain ⟨hdead, hfreed⟩ := hnew p rfl
  obtain ⟨habstract, hinode⟩ := h.live p hdead
  have hmake := h.store.make hs hdead hfreed
  unfold unixAbstractGet nextSocketId
  simp only [hfind]
  have hnone : ∀ q sock, w.abstract q = some sock → sock.name ≠ name := by
    intro q sock hq hname
    rw [h.abstractFind_eq_some.2 ⟨sock, hq, hname⟩] at hfind
    cases hfind
  refine ⟨_, _, _, rfl, ⟨hmake, h.strays, ?_, h.inodes, fun q sock hq => ?_,
    fun q q' sock sock' hq hq' hsame => ?_, fun q hq => ?_, fun q hq => ?_, fun j q hj => ?_,
    fun s₁ s₂ q h₁ h₂ => ?_⟩,
    by simp, by simp, update_self _ _ _, rfl,
    ⟨rfl, rfl, rfl, fun s' hs' => by simp [hs'], fun s' _ => by simp, fun s' q hq => ?_⟩⟩
  · show Buckets _ fun q => (update w.abstract p _ q).map _
    rw [map_update]
    refine h.abstracts.push ?_ _
    rw [abstractChain, habstract]
    rfl
  · simp only at hq
    by_cases hqp : q = p
    · rw [hqp, update_self] at hq
      obtain rfl := Option.some.inj hq
      rfl
    · rw [update_of_ne hqp] at hq
      exact h.hash q sock hq
  · simp only at hq hq'
    by_cases hqp : q = p
    · by_cases hqp' : q' = p
      · rw [hqp, hqp']
      · rw [hqp, update_self] at hq
        rw [update_of_ne hqp'] at hq'
        obtain rfl := Option.some.inj hq
        exact absurd hsame.symm (hnone q' sock' hq')
    · rw [update_of_ne hqp] at hq
      by_cases hqp' : q' = p
      · rw [hqp', update_self] at hq'
        obtain rfl := Option.some.inj hq'
        exact absurd hsame (hnone q sock hq)
      · rw [update_of_ne hqp'] at hq'
        exact h.distinct q q' sock sock' hq hq' hsame
  · simp only at hq ⊢
    have hqp : q ≠ p := by
      rintro rfl
      rw [update_self] at hq
      cases hq
    rw [update_of_ne hqp] at hq ⊢
    exact h.live q hq
  · simp only at hq ⊢
    by_cases hqp : q = p
    · rw [hqp]
      exact hinode
    · rw [update_of_ne hqp] at hq
      exact h.kinds q hq
  · simp only at hj
    by_cases hjs : j = .abstract s
    · rw [hjs, update_self] at hj
      obtain rfl := Option.some.inj hj
      rw [hjs]
      simp [Points]
    · rw [update_of_ne hjs] at hj
      have hqp : q ≠ p := by
        rintro rfl
        exact h.store.not_owner hdead j hj
      have hj' := h.points j q hj
      cases j with
      | abstract s' => simpa [Points, update_of_ne hqp] using hj'
      | inode s' => exact hj'
      | call => exact hj'
      | other i => exact hj'
  · simp only at h₁ h₂
    have hnew : ∀ s', s' ≠ s → update w.owner (.abstract s) (some p) (.abstract s') = some q →
        w.owner (.abstract s') = some q ∧ q ≠ p := by
      intro s' hs' hq
      rw [update_of_ne (by simpa using hs')] at hq
      refine ⟨hq, ?_⟩
      rintro rfl
      exact h.store.not_owner hdead _ hq
    by_cases hs₁ : s₁ = s
    · rw [hs₁, update_self] at h₁
      by_cases hs₂ : s₂ = s
      · exact hs₁.trans hs₂.symm
      · exact absurd (Option.some.inj h₁).symm (hnew s₂ hs₂ h₂).2
    · by_cases hs₂ : s₂ = s
      · rw [hs₂, update_self] at h₂
        exact absurd (Option.some.inj h₂).symm (hnew s₁ hs₁ h₁).2
      · exact h.single s₁ s₂ q (hnew s₁ hs₁ h₁).1 (hnew s₂ hs₂ h₂).1
  · have hqp : q ≠ p := by
      rintro rfl
      exact h.store.not_owner hdead _ hq
    exact update_of_ne hqp _ _

structure Inv (w : UnixWorld) : Prop where
  tables : w.Tables
  recorded : w.Recorded
  idle : w.owner .call = none

lemma Leaves.inv (h : w.Leaves w') (hinv : w.Inv) : w'.Inv :=
  ⟨h.tables, hinv.recorded.congr h.names, h.idle⟩

lemma Inv.leaves (h : w.Inv) : w.Leaves w := ⟨h.tables, h.idle, SameNames.rfl, rfl⟩

lemma Inv.lookup (h : w.Inv) (addr : SockAddr) {r : PathReply} (hptr : w.New r.ptr) :
    w.Leaves (w.sockaddrReadBind addr none r).1 := by
  cases addr with
  | refused err => exact h.leaves
  | inet => exact h.leaves
  | unix path =>
    have hgot : w.Leaves (w.unixNameGet path none r).1 := by
      unfold unixNameGet
      split_ifs
      · exact h.leaves
      · unfold unixAbstractGet
        split
        · exact h.leaves
        · exact h.leaves
        · exact h.leaves
        · exact h.leaves
        · contradiction
      · unfold unixSocketGet
        split
        · exact h.leaves
        · split
          · exact h.leaves
          · exact h.tables.socketInode_lookup h.idle _ _ hptr
          · contradiction
          · contradiction
    unfold sockaddrReadBind
    simp only
    generalize w.unixNameGet path none r = got at hgot
    obtain ⟨w₁, err | id⟩ := got
    · exact hgot
    · exact hgot

/-- The condition on the name of a `bind`: if the file is made, the rest of the lookup succeeds and
the host accepts; and if an abstract name is entered, the host accepts. -/
def NameClean (w : UnixWorld) (path : List UInt8) (r : PathReply) (err : Option ℤ) : Prop :=
  if path = [] then True
  else if path.head? = some 0 then
    w.abstractFind path.tail = none → r.ptr ≠ none → err = none
  else ∀ file number, r.path = .ok file → w.files file = none → r.mknod = .ok number →
    r.statAgain = none ∧ (w.inodeGetData file.1 number ≠ none ∨ r.ptr ≠ none) ∧ err = none

/-- What `bind` finds or makes of the name: nothing, with everything as it was, or the one reference
of the socket. -/
lemma Inv.unixNameGet_bind (h : w.Inv) {path : List UInt8} {r : PathReply} {err : Option ℤ}
    (hptr : w.New r.ptr) (hbound : err = none → w.hostBound s = false)
    (hc : w.NameClean path r err) :
    (∃ e, w.unixNameGet path (some s) r = (w, .error e)) ∨
    err = none ∧ ∃ w' id, w.unixNameGet path (some s) r = (w', .ok id) ∧ w'.Tables ∧
      w'.owner .call = none ∧ w.SameNamesBut s w' ∧
      (∀ n, path = 0 :: n → w'.owner (.abstract s) ≠ none) ∧
      ∀ p sock, w'.owner (.abstract s) = some p → w'.abstract p = some sock →
        path = 0 :: sock.name := by
  unfold unixNameGet
  unfold NameClean at hc
  by_cases hpath : path = []
  · rw [if_pos hpath]
    exact .inl ⟨_, rfl⟩
  rw [if_neg hpath] at hc ⊢
  by_cases habstract : path.head? = some 0
  · rw [if_pos habstract] at hc ⊢
    obtain ⟨name, rfl⟩ := List.head?_eq_some_iff.1 habstract
    rw [List.tail_cons] at hc ⊢
    cases hfind : w.abstractFind name with
    | some q => exact .inl ⟨unixEexist, by simp only [unixAbstractGet, hfind]⟩
    | none =>
      cases hp : r.ptr with
      | none => exact .inl ⟨unixEnomem, by simp only [unixAbstractGet, hfind]⟩
      | some p =>
        have herr := hc hfind (by simp [hp])
        obtain ⟨hs, -, -⟩ := h.recorded.bound s (hbound herr)
        obtain ⟨w', id, sock, heq, htables, hcall, howner, hsock, hname, hsame⟩ :=
          h.tables.unixAbstractGet_bind hs hfind (hp ▸ hptr)
        refine .inr ⟨herr, w', id, heq, htables, hcall.trans h.idle, hsame, fun n _ => ?_,
          fun q sock' hq hsock' => ?_⟩
        · rw [howner]
          exact Option.some_ne_none p
        · obtain rfl := Option.some.inj (howner.symm.trans hq)
          obtain rfl := Option.some.inj (hsock.symm.trans hsock')
          rw [hname]
  · rw [if_neg habstract] at hc ⊢
    have hnot : ∀ n, path ≠ 0 :: n := by
      rintro n rfl
      exact habstract rfl
    unfold unixSocketGet
    cases hfile : r.path with
    | error e => exact .inl ⟨e, rfl⟩
    | ok file =>
      simp only
      cases hstat : w.stat file r.stat with
      | ok st => exact .inl ⟨_, rfl⟩
      | error e =>
        simp only
        unfold mknod
        cases hmknod : r.mknod with
        | error e => exact .inl ⟨e, rfl⟩
        | ok number =>
          cases hthere : w.files file with
          | some st => exact .inl ⟨_, rfl⟩
          | none =>
            obtain ⟨hagain, hmem, herr⟩ := hc file number hfile hthere hmknod
            obtain ⟨habs, hs, -⟩ := h.recorded.bound s (hbound herr)
            let w₁ : UnixWorld := { w with files := update w.files file (some ⟨number, true⟩) }
            have hsame₁ : w.SameNames w₁ :=
              ⟨rfl, rfl, rfl, fun _ => rfl, fun _ => rfl, fun _ _ _ => rfl⟩
            have htables₁ : w₁.Tables := h.tables.with _ _ _ _
            obtain ⟨w', id, heq, htables, hcall, howner, hsame⟩ := htables₁.socketInode_bind
              (s := s) h.idle hs file.1 number hptr hmem
            have hst : w₁.stat file r.statAgain = .ok ⟨number, true⟩ := by
              simp [stat, hagain, w₁]
            refine .inr ⟨herr, w', id, ?_, htables, hcall, ?_, fun n hn => absurd hn (hnot n),
              fun p sock hp => ?_⟩
            · simp only
              rw [hst]
              exact heq
            · exact ⟨hsame.unixName.trans hsame₁.unixName, hsame.hostBound.trans hsame₁.hostBound,
                hsame.isOpen.trans hsame₁.isOpen, hsame.abstractOwner, hsame.inodeOwner,
                hsame.abstract⟩
            · rw [howner] at hp
              rw [show w₁.owner (.abstract s) = none from habs] at hp
              cases hp

lemma releaseHeld_of_none (hk : w.owner k = none) : w.releaseHeld k = w := by
  unfold releaseHeld
  rw [hk]

lemma Inv.releaseInode (h : w.Inv) (s : SockId) : (w.releaseHeld (.inode s)).Inv := by
  obtain ⟨hname, hbound, hopen, -⟩ := releaseHeld_same (w := w) (.inode s)
  have howner : ∀ s', (w.releaseHeld (.inode s)).owner (.abstract s') = w.owner (.abstract s') := by
    intro s'
    simp
  refine ⟨h.tables.releaseHeld _, ⟨fun s' n hn => ?_, fun s' p sock hp hsock => ?_,
    fun s' hs' => ?_, fun s' hs' => ?_⟩, ?_⟩
  · rw [howner]
    rw [hname] at hn
    exact h.recorded.named s' n hn
  · rw [howner] at hp
    rw [h.tables.abstract_releaseHeld (by simp) hp] at hsock
    rw [hname]
    exact h.recorded.name s' p sock hp hsock
  · rw [hbound] at hs'
    obtain ⟨habstract, hinode, hnone⟩ := h.recorded.bound s' hs'
    rw [howner, hname, owner_releaseHeld]
    refine ⟨habstract, ?_, hnone⟩
    by_cases heq : s' = s
    · rw [heq, update_self]
    · simpa [heq] using hinode
  · rw [hopen] at hs'
    rw [hbound]
    exact h.recorded.closed s' hs'
  · rw [owner_releaseHeld]
    simpa using h.idle

/-- A `bind` either records the name that the host has accepted or leaves everything as it was. -/
lemma Inv.sysBind (h : w.Inv) {addr : SockAddr} {r : PathReply} {err : Option ℤ}
    (hptr : w.New r.ptr) (hbound : err = none → w.hostBound s = false)
    (hc : w.isOpen s = true → match addr with
      | .refused _ => True
      | .inet => err = none ∨ w.owner (.abstract s) = none
      | .unix path => w.NameClean path r err) :
    (w.sysBind s addr r err).1.Inv ∧ ((∃ e, (w.sysBind s addr r err).2 = .error e) →
      (w.sysBind s addr r err).1.unixName = w.unixName ∧
        (w.sysBind s addr r err).1.files = w.files) := by
  unfold UnixWorld.sysBind
  by_cases hopen : w.isOpen s = true
  · rw [if_pos hopen]
    replace hc := hc hopen
    cases addr with
    | refused e => exact ⟨h, fun _ => ⟨rfl, rfl⟩⟩
    | inet =>
      cases err with
      | none =>
        have hbind := h.recorded.bind (SameNames.rfl.but s) hopen (h.recorded.named s)
          (h.recorded.name s)
        rw [update_eq_self] at hbind
        exact ⟨⟨h.tables.with _ _ _ _, hbind, h.idle⟩, fun _ => ⟨rfl, rfl⟩⟩
      | some e =>
        have habstract := hc.resolve_left (Option.some_ne_none e)
        have hnone : (w.releaseHeld (.inode s)).owner (.abstract s) = none := by
          simpa using habstract
        obtain ⟨hname, -, -, hfiles⟩ := releaseHeld_same (w := w) (.inode s)
        unfold sockaddrReadBind
        simp only [releaseHeld_of_none hnone]
        exact ⟨h.releaseInode s, fun _ => ⟨hname, hfiles⟩⟩
    | unix path =>
      unfold sockaddrReadBind
      obtain ⟨e, heq⟩ | ⟨rfl, w', id, heq, htables, hcall, hsame, hself, hname⟩ :=
        h.unixNameGet_bind hptr hbound hc
      · simp only [heq]
        exact ⟨h, fun _ => ⟨trivial, trivial⟩⟩
      · simp only [heq]
        refine ⟨⟨htables.with _ _ _ _, h.recorded.bind hsame hopen hself hname, hcall⟩,
          fun herr => ?_⟩
        obtain ⟨e, he⟩ := herr
        cases he
  · rw [if_neg hopen]
    exact ⟨h, fun _ => ⟨rfl, rfl⟩⟩

lemma Inv.sockClose (h : w.Inv) (s : SockId) : (w.sockClose s).Inv := by
  have htables₁ := h.tables.releaseHeld (.inode s)
  have htables₂ := htables₁.releaseHeld (.abstract s)
  obtain ⟨hname₁, hbound₁, hopen₁, -⟩ := releaseHeld_same (w := w) (.inode s)
  obtain ⟨hname₂, hbound₂, hopen₂, -⟩ :=
    releaseHeld_same (w := w.releaseHeld (.inode s)) (.abstract s)
  have howner : ((w.releaseHeld (.inode s)).releaseHeld (.abstract s)).owner =
      update (update w.owner (.inode s) none) (.abstract s) none := by
    rw [owner_releaseHeld, owner_releaseHeld]
  have habstract : ∀ s' p, s' ≠ s → w.owner (.abstract s') = some p →
      ((w.releaseHeld (.inode s)).releaseHeld (.abstract s)).abstract p = w.abstract p := by
    intro s' p hs' hp
    have hp₁ : (w.releaseHeld (.inode s)).owner (.abstract s') = some p := by
      rw [owner_releaseHeld]
      simpa using hp
    rw [htables₁.abstract_releaseHeld (by simpa using hs') hp₁,
      h.tables.abstract_releaseHeld (by simp) hp]
  unfold UnixWorld.sockClose
  generalize (w.releaseHeld (.inode s)).releaseHeld (.abstract s) = w₂ at *
  refine ⟨htables₂.with _ _ _ _, ⟨fun s' n hn => ?_, fun s' p sock hp hsock => ?_,
    fun s' hs' => ?_, fun s' hs' => ?_⟩, ?_⟩
  · simp only at hn ⊢
    by_cases heq : s' = s
    · rw [heq, update_self] at hn
      cases hn
    · rw [update_of_ne heq, hname₂, hname₁] at hn
      rw [howner]
      simpa [heq] using h.recorded.named s' n hn
  · simp only at hp hsock ⊢
    by_cases heq : s' = s
    · rw [heq, howner, update_self] at hp
      cases hp
    · rw [howner] at hp
      have hp' : w.owner (.abstract s') = some p := by simpa [heq] using hp
      rw [habstract s' p heq hp'] at hsock
      rw [update_of_ne heq, hname₂, hname₁]
      exact h.recorded.name s' p sock hp' hsock
  · simp only at hs' ⊢
    by_cases heq : s' = s
    · rw [heq, howner, update_self, update_self]
      simp
    · rw [update_of_ne heq, hbound₂, hbound₁] at hs'
      rw [update_of_ne heq, hname₂, hname₁, howner]
      simpa [heq] using h.recorded.bound s' hs'
  · simp only at hs' ⊢
    by_cases heq : s' = s
    · rw [heq, update_self]
    · rw [update_of_ne heq, hopen₂, hopen₁] at hs'
      rw [update_of_ne heq, hbound₂, hbound₁]
      exact h.recorded.closed s' hs'
  · simp only
    rw [howner]
    simpa using h.idle

end UnixWorld

/-- The condition on a call: a `bind` whose name is recorded is accepted by the host, and a socket
that has an abstract name is not bound to another kind of address in vain. -/
def UnixCall.Clean (w : UnixWorld) : UnixCall → Prop
  | .bind s addr r err => w.isOpen s = true → match addr with
    | .refused _ => True
    | .inet => err = none ∨ w.owner (.abstract s) = none
    | .unix path => w.NameClean path r err
  | _ => True

/-- A `bind` that fails leaves the recorded names and the files as they were. -/
def UnixCall.Restores (w : UnixWorld) : UnixCall → Prop
  | .bind s addr r err => (∃ e, (w.sysBind s addr r err).2 = .error e) →
    (w.sysBind s addr r err).1.unixName = w.unixName ∧ (w.sysBind s addr r err).1.files = w.files
  | _ => True

open UnixWorld in
lemma UnixWorld.Inv.step {w : UnixWorld} {call : UnixCall} (h : w.Inv) (hc : call.Clean w) :
    (unixStep w call).Inv ∧ (call.Given w = true → call.Restores w) := by
  have hnew : ∀ {ptr : Option NamePtr},
      (ptr.all fun p => (w.refcount p).isNone && !(w.freed.contains p)) = true → w.New ptr := by
    rintro _ hall p rfl
    simpa using hall
  unfold unixStep
  split_ifs with hgiven
  · cases call with
    | socket s =>
      have hs : w.isOpen s = false := by simpa [UnixCall.Given] using hgiven
      refine ⟨⟨h.tables.with _ _ _ _, ?_, h.idle⟩, fun _ => trivial⟩
      refine ⟨h.recorded.named, h.recorded.name, h.recorded.bound, fun s' hs' => ?_⟩
      simp only [UnixWorld.call] at hs' ⊢
      by_cases heq : s' = s
      · exact heq ▸ h.recorded.closed s hs
      · rw [update_of_ne heq] at hs'
        exact h.recorded.closed s' hs'
    | bind s addr r err =>
      simp only [UnixCall.Given, Bool.and_eq_true, Bool.or_eq_true] at hgiven
      obtain ⟨hinv, hrestores⟩ := h.sysBind (hnew hgiven.1) (fun herr => by
        simpa [herr] using hgiven.2) hc
      exact ⟨hinv, fun _ => hrestores⟩
    | lookup addr r =>
      exact ⟨(h.lookup addr (hnew hgiven)).inv h, fun _ => trivial⟩
    | close s => exact ⟨h.sockClose s, fun _ => trivial⟩
    | file file stat =>
      exact ⟨⟨h.tables.with _ _ _ _, h.recorded.congr ⟨rfl, rfl, rfl, fun _ => rfl, fun _ => rfl,
        fun _ _ _ => rfl⟩, h.idle⟩, fun _ => trivial⟩
    | inodeGet i mount number ptr =>
      simp only [UnixCall.Given, Bool.and_eq_true, Option.isNone_iff_eq_none] at hgiven
      refine ⟨⟨h.tables.inodeGet hgiven.1 (fun s => by simp) mount number (hnew hgiven.2),
        h.recorded.congr (sameNames_inodeGet (fun s => by simp) mount number ptr), ?_⟩,
        fun _ => trivial⟩
      obtain ⟨-, -, heq⟩ | ⟨p, -, howner, -⟩ :=
        inodeGet_cases (w := w) (k := .other i) mount number ptr
      · simp only [UnixWorld.call, heq]
        exact h.idle
      · simp only [UnixWorld.call, howner]
        simpa using h.idle
    | inodePut i =>
      refine ⟨⟨h.tables.releaseHeld _, h.recorded.congr (h.tables.sameNames_releaseHeld
        fun s => by simp), ?_⟩, fun _ => trivial⟩
      simp only [UnixWorld.call, owner_releaseHeld]
      simpa using h.idle
  · exact ⟨h, fun hg => absurd hg hgiven⟩

lemma UnixWorld.inv_init (files : ℕ × List UInt8 → Option SocketStat) :
    (UnixWorld.init files).Inv where
  tables := ⟨RefStore.Sound.empty, rfl, Buckets.empty, Buckets.empty,
    fun _ _ h => absurd h.symm (Option.some_ne_none _), fun _ _ _ _ h => absurd h.symm
      (Option.some_ne_none _), fun _ _ => ⟨rfl, rfl⟩, fun _ _ => rfl,
    fun _ _ h => absurd h.symm (Option.some_ne_none _),
    fun _ _ _ h => absurd h.symm (Option.some_ne_none _)⟩
  recorded := ⟨fun _ _ h => absurd h.symm (List.cons_ne_nil _ _),
    fun _ _ _ h => absurd h.symm (Option.some_ne_none _), fun _ _ => ⟨rfl, rfl, rfl⟩,
    fun _ _ => rfl⟩
  idle := rfl

/-- The table of abstract names has exactly the names of the open sockets, each of one socket; it
finds a name by its bytes and nothing else; and references are counted, so that each has been
released once when nothing holds it any more, and not before. -/
structure UnixWorld.NamesHeld (w : UnixWorld) : Prop where
  same : ∀ n n' p, w.abstractFind n = some p → w.abstractFind n' = some p → n = n'
  held : ∀ n, w.abstractFind n ≠ none ↔
    ∃ s, w.isOpen s = true ∧ w.hostBound s = true ∧ w.unixName s = 0 :: n
  table : ∀ i p, p ∈ w.abstractHash i → ∃ n, w.abstractFind n = some p
  once : ∀ s s' n, w.unixName s = 0 :: n → w.unixName s' = 0 :: n → s = s'
  strays : w.strays = []
  refcount_eq : ∀ p n, w.refcount p = some n → n = slotCount w.owner (· = p)
  live : ∀ k p, w.owner k = some p → (w.refcount p).isSome ∧ p ∉ w.freed
  freed_once : w.freed.Nodup
  freed_iff : ∀ p, (w.refcount p).isSome ∨ p ∈ w.freed →
    (p ∈ w.freed ↔ ∀ k, w.owner k ≠ some p)

lemma UnixWorld.Inv.entry {w : UnixWorld} (h : w.Inv) {s : SockId} {n : List UInt8}
    (hs : w.unixName s = 0 :: n) :
    ∃ p, w.owner (.abstract s) = some p ∧ w.abstractFind n = some p := by
  obtain ⟨p, hp⟩ := Option.ne_none_iff_exists'.1 (h.recorded.named s n hs)
  obtain ⟨sock, hsock⟩ := Option.ne_none_iff_exists'.1 (h.tables.points _ p hp)
  have hname := h.recorded.name s p sock hp hsock
  rw [hs, List.cons.injEq] at hname
  exact ⟨p, hp, h.tables.abstractFind_eq_some.2 ⟨sock, hsock, hname.2.symm⟩⟩

lemma UnixWorld.Inv.namesHeld {w : UnixWorld} (h : w.Inv) : w.NamesHeld where
  same n n' p hn hn' := by
    obtain ⟨sock, hsock, hname⟩ := h.tables.abstractFind_eq_some.1 hn
    obtain ⟨sock', hsock', hname'⟩ := h.tables.abstractFind_eq_some.1 hn'
    obtain rfl := Option.some.inj (hsock.symm.trans hsock')
    exact hname.symm.trans hname'
  held n := by
    constructor
    · intro hfind
      obtain ⟨p, hp⟩ := Option.ne_none_iff_exists'.1 hfind
      obtain ⟨sock, hsock, rfl⟩ := h.tables.abstractFind_eq_some.1 hp
      have habstract : w.abstract p ≠ none := hsock ▸ Option.some_ne_none sock
      have hlive : (w.refcount p).isSome := by
        by_contra hdead
        exact habstract (h.tables.live p (by simpa using hdead)).1
      -- an entry that is there has a holder, and only a socket holds one
      obtain ⟨k, hk⟩ : ∃ k, w.owner k = some p := by
        by_contra hno
        have hfreed := (h.tables.store.freed_iff (.inl hlive)).2 fun k hk => hno ⟨k, hk⟩
        have hdead : w.refcount p = none := h.tables.store.dead p hfreed
        rw [hdead] at hlive
        cases hlive
      have hpoints := h.tables.points k p hk
      have hinode := h.tables.kinds p habstract
      cases k with
      | abstract s =>
        have hname := h.recorded.name s p sock hk hsock
        have hbound : w.hostBound s = true := by
          by_contra hno
          rw [(h.recorded.bound s (by simpa using hno)).2.2] at hname
          cases hname
        refine ⟨s, ?_, hbound, hname⟩
        by_contra hclosed
        rw [h.recorded.closed s (by simpa using hclosed)] at hbound
        cases hbound
      | inode s => exact absurd hinode hpoints
      | call => exact absurd hinode hpoints
      | other i => exact absurd hinode hpoints
    · rintro ⟨s, -, -, hs⟩
      obtain ⟨p, -, hfind⟩ := h.entry hs
      rw [hfind]
      exact Option.some_ne_none p
  table i p hp := by
    rw [h.tables.abstracts.mem_iff, UnixWorld.abstractChain, Option.map_eq_some_iff] at hp
    obtain ⟨sock, hsock, -⟩ := hp
    exact ⟨sock.name, h.tables.abstractFind_eq_some.2 ⟨sock, hsock, rfl⟩⟩
  once s s' n hs hs' := by
    obtain ⟨p, hp, hfind⟩ := h.entry hs
    obtain ⟨p', hp', hfind'⟩ := h.entry hs'
    obtain rfl := Option.some.inj (hfind.symm.trans hfind')
    exact h.tables.single s s' p hp hp'
  strays := h.tables.strays
  refcount_eq p n hn := h.tables.store.count_eq p n hn
  live k p hk := by
    have hlive := h.tables.store.live k p hk
    refine ⟨hlive, fun hfreed => ?_⟩
    have hdead := h.tables.store.dead p hfreed
    rw [hdead] at hlive
    cases hlive
  freed_once := h.tables.store.nodup
  freed_iff p hp := h.tables.store.freed_iff hp

/-- In every run whose calls meet the condition, the table has exactly the names of the open
sockets, references are released once, and a `bind` that fails leaves names and files as they were.
-/
theorem unix_names_held {files : ℕ × List UInt8 → Option SocketStat} {calls : List UnixCall}
    (hcalls : RunAll unixStep (fun w call => call.Clean w) (UnixWorld.init files) calls) :
    (run unixStep (UnixWorld.init files) calls).NamesHeld ∧
      ∀ before call after, calls = before ++ call :: after →
        call.Given (run unixStep (UnixWorld.init files) before) = true →
        call.Restores (run unixStep (UnixWorld.init files) before) := by
  have hinv : ∀ {calls}, RunAll unixStep (fun w call => call.Clean w) (UnixWorld.init files) calls →
      (run unixStep (UnixWorld.init files) calls).Inv :=
    fun hcalls => run_invariant (P := UnixWorld.Inv) (fun _ _ hc h => (h.step hc).1) hcalls
      (UnixWorld.inv_init files)
  refine ⟨(hinv hcalls).namesHeld, ?_⟩
  rintro before call after rfl hgiven
  obtain ⟨hbefore, hcall, -⟩ := runAll_append.1 hcalls
  exact ((hinv hbefore).step hcall).2 hgiven

def noPath (ptr : NamePtr) : PathReply :=
  ⟨.error unixEnoent, none, .error unixEnoent, none, some ptr⟩

/-- The names have a NUL in them, and differ behind it. One of them is taken by another socket, and
becomes free again. -/
def bindTwice : List UnixCall :=
  [.socket 0, .bind 0 (.unix [0, 97, 0, 98]) (noPath 0) none, .socket 1,
    .bind 1 (.unix [0, 97, 0, 98]) (noPath 1) none, .lookup (.unix [0, 97, 0, 99]) (noPath 1),
    .close 0, .bind 1 (.unix [0, 97, 0, 98]) (noPath 1) none]

theorem unix_names_held_twice :
    (run unixStep (UnixWorld.init fun _ => none) bindTwice).NamesHeld ∧
      (run unixStep (UnixWorld.init fun _ => none) bindTwice).abstractFind [97, 0, 98] =
        some 1 := by
  refine ⟨(unix_names_held ?_).1, by decide⟩
  exact ⟨trivial, fun _ _ _ => rfl, trivial, fun _ h => absurd h (by decide), trivial, trivial,
    fun _ _ _ => rfl, trivial⟩

/-- The second `bind` of a socket, which the host refuses, loses the reference to the first name: it
is taken for ever. And a `bind` to a file that the host refuses leaves the file, and its path is
recorded. -/
theorem unix_names_leaked :
    (run unixStep (UnixWorld.init fun _ => none) [.socket 0,
        .bind 0 (.unix [0, 97]) (noPath 0) none, .bind 0 (.unix [0, 98]) (noPath 1) (some (-22)),
        .close 0]).abstractFind [97] = some 0 ∧
      (run unixStep (UnixWorld.init fun _ => none) [.socket 0,
        .bind 0 (.unix [47, 97]) ⟨.ok (0, [97]), none, .ok 5, none, some 0⟩
          (some (-1))]).unixName 0 = [47, 97] ∧
      ((run unixStep (UnixWorld.init fun _ => none) [.socket 0,
        .bind 0 (.unix [47, 97]) ⟨.ok (0, [97]), none, .ok 5, none, some 0⟩
          (some (-1))]).files (0, [97])).isSome ∧
      ¬ ∀ files calls, (run unixStep (UnixWorld.init files) calls).NamesHeld := by
  refine ⟨by decide, by decide, by decide, fun h => ?_⟩
  have hheld := (h (fun _ => none) [.socket 0, .bind 0 (.unix [0, 97]) (noPath 0) none,
    .bind 0 (.unix [0, 98]) (noPath 1) (some (-22)), .close 0]).held [97]
  obtain ⟨s, hopen, -⟩ := hheld.1 (by decide)
  cases s with
  | zero => exact absurd hopen (by decide)
  | succ s => exact absurd hopen Bool.false_ne_true

end ShellBox
