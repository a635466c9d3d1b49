import Vanadium.Proofs.OutsourcedMem
import Mathlib

/-!
# An outsourced memory is an array of pages

The host keeps every page the cache has no room for, and it answers what it
likes. As long as the calls return, the VM nevertheless sees a plain array:
`run_refines` says so for every list of accesses and every list of answers.

The invariant is `Consistent`. The trusted root is that of some leaf sequence
`leaf`; a valid slot holds the current page and the leaf it came from; and for
every page without a dirty slot, whatever the leaf opens to is the current
page. The last clause is about all the records that were ever hashed, so a
replay is covered: an old version of a page opens an old leaf, which is another
record, hence another hash.
-/

namespace Vanadium

open Lib

/-! ## What the VM does, and what it should see -/

/-- One use of the memory: the nonce the shared AES state has reached by then,
the page asked for, and the contents written through the reference. -/
structure Access where
  nonce : Vector U8 12
  page_index : U32
  writes : List Page

namespace OutsourcedMemory

variable {E : Type} [PageEvictionStrategy E] (dev : Device)

/-- The page the reference exposes, before the writes. -/
def access (a : Access) : Exec MemoryError (OutsourcedMemory E) Page := do
  Exec.modify fun m => { m with aes_ctr := { m.aes_ctr with nonce := a.nonce } }
  let slot ← get_page dev a.page_index
  let m ← Exec.get
  Exec.set (a.writes.foldl (fun m page => deref_mut m slot page) m)
  pure (deref m slot)

def run : List Access → Exec MemoryError (OutsourcedMemory E) (List Page)
  | [] => pure []
  | a :: as => do
      let page ← access dev a
      let pages ← run as
      pure (page :: pages)

end OutsourcedMemory

/-- An array of pages under the same accesses. -/
def arrayRun (mem : U32 → Page) : List Access → List Page
  | [] => []
  | a :: as =>
      mem a.page_index :: arrayRun
        (Function.update mem a.page_index (a.writes.getLastD (mem a.page_index))) as

/-! ## Leaves and what they open to -/

section
variable (H : Bytes → HashOutput 32) (S : Set Bytes) (key : AesKey)

/-- Leaf `i` is the hash of a record among the messages `S`, and the record
stands for `page`. -/
def Stored (leaf : ℕ → HashOutput 32) (i : U32) (page : Page) : Prop :=
  ∃ r : Record, recordMessage r ∈ S ∧ H (recordMessage r) = leaf i.toNat ∧
    openRecord key r = some page

variable {H S key}

theorem Stored.unique (hS : CollisionFree H S) {leaf : ℕ → HashOutput 32} {i : U32}
    {page page' : Page} (h : Stored H S key leaf i page)
    (h' : Stored H S key leaf i page') : page = page' := by
  obtain ⟨r, hr, hl, ho⟩ := h
  obtain ⟨r', hr', hl', ho'⟩ := h'
  obtain rfl := recordMessage_inj (hS hr hr' (hl.trans hl'.symm))
  exact Option.some.inj (ho.symm.trans ho')

theorem Stored.congr {leaf leaf' : ℕ → HashOutput 32} {i : U32} {page : Page}
    (heq : leaf i.toNat = leaf' i.toNat) (h : Stored H S key leaf i page) :
    Stored H S key leaf' i page := by
  obtain ⟨r, hr, hl, ho⟩ := h
  exact ⟨r, hr, hl.trans heq, ho⟩

variable (H S key)

/-- The page a leaf opens to, when it opens to one. -/
noncomputable def openLeaf (leaf : ℕ → HashOutput 32) (i : U32) : Page :=
  Classical.epsilon fun page => Stored H S key leaf i page

variable {H S key}

theorem Stored.openLeaf_eq (hS : CollisionFree H S) {leaf : ℕ → HashOutput 32} {i : U32}
    {page : Page} (h : Stored H S key leaf i page) : page = openLeaf H S key leaf i :=
  h.unique hS (Classical.epsilon_spec ⟨page, h⟩)

end

namespace OutsourcedMemory

section
variable (H : Bytes → HashOutput 32) (S : Set Bytes) (key : AesKey) (d : ℕ)
  (leaf₀ : ℕ → HashOutput 32)

/-- `m`, with the records behind the leaves `leaf`, holds the pages `cur`. -/
structure Consistent {E : Type} (leaf : ℕ → HashOutput 32) (cur : U32 → Page)
    (m : OutsourcedMemory E) : Prop where
  n_pages : n_pages_adjusted m.n_pages.toNat = 2 ^ d
  section_kind : m.section_kind ≠ .code
  writable : m.is_readonly = false
  aes_key : m.aes_ctr.key = key
  root : m.merkle_root = rootOf H leaf d
  tree : TreeIn H leaf d S
  /-- A valid slot holds the current page, and the leaf it was loaded from. -/
  slot : ∀ (j : ℕ) (c : CachedPage), m.cached_pages[j]? = some c → c.valid = true →
    c.idx.toNat < 2 ^ d ∧ c.page = cur c.idx ∧ c.page_hash = leaf c.idx.toNat ∧
      Stored H S key leaf₀ c.idx (openLeaf H S key leaf₀ c.idx)
  /-- No page is in two slots. -/
  unique : ∀ (j j' : ℕ) (c c' : CachedPage), m.cached_pages[j]? = some c → m.cached_pages[j']? = some c' →
    c.valid = true → c'.valid = true → c.idx = c'.idx → j = j'
  /-- A page that is not dirty is the one its leaf opens to. -/
  host : ∀ i : U32, i.toNat < 2 ^ d →
    (∀ page, Stored H S key leaf i page → page = cur i) ∨
      ∃ (j : ℕ) (c : CachedPage), m.cached_pages[j]? = some c ∧ c.valid = true ∧ c.modified = true ∧ c.idx = i
  /-- A page that was never asked for is still the initial one. -/
  initial : ∀ i : U32, i.toNat < 2 ^ d →
    Stored H S key leaf₀ i (openLeaf H S key leaf₀ i) ∨
      leaf i.toNat = leaf₀ i.toNat ∧ cur i = openLeaf H S key leaf₀ i

/-- The last accessed page is where the memory believes it to be. -/
def LastValid {E : Type} (m : OutsourcedMemory E) : Prop :=
  ∀ p s, m.last_accessed_page = some (p, s) →
    ∃ c, m.cached_pages[s]? = some c ∧ c.valid = true ∧ c.idx = p

end

variable {E : Type} {H : Bytes → HashOutput 32} {S : Set Bytes} {key : AesKey} {d : ℕ}
  {leaf₀ leaf : ℕ → HashOutput 32} {cur : U32 → Page} {m m' : OutsourcedMemory E}

theorem deref_eq {s : ℕ} {c : CachedPage} (hs : m.cached_pages[s]? = some c) :
    m.deref s = c.page := by
  rw [deref, List.getElem!_eq_getElem?_getD, hs, Option.getD_some]

theorem deref_mut_getElem? {s : ℕ} {c : CachedPage} (hs : m.cached_pages[s]? = some c)
    (page : Page) (j : ℕ) : (m.deref_mut s page).cached_pages[j]? =
      if s = j then some { c with page, modified := true } else m.cached_pages[j]? := by
  have hlt : s < m.cached_pages.length := (List.getElem?_eq_some_iff.mp hs).1
  have hbang : m.cached_pages[s]! = c := by
    rw [List.getElem!_eq_getElem?_getD, hs, Option.getD_some]
  rw [deref_mut, hbang, List.getElem?_set, if_pos hlt]

theorem LastValid.deref_mut {s : ℕ} {c : CachedPage} (hl : LastValid m)
    (hs : m.cached_pages[s]? = some c) (page : Page) : LastValid (m.deref_mut s page) := by
  intro p t hpt
  obtain ⟨b, hb, hv, hidx⟩ := hl p t hpt
  rw [deref_mut_getElem? hs]
  rcases eq_or_ne s t with rfl | hne
  · rw [hs] at hb
    cases hb
    exact ⟨_, if_pos rfl, hv, hidx⟩
  · exact ⟨b, by rw [if_neg hne, hb], hv, hidx⟩

namespace Consistent

/-- The clauses about the cache depend on nothing but the slots. -/
theorem congr (h : Consistent H S key d leaf₀ leaf cur m)
    (hc : m'.cached_pages = m.cached_pages) (hn : m'.n_pages = m.n_pages)
    (hk : m'.section_kind = m.section_kind) (hw : m'.is_readonly = m.is_readonly)
    (ha : m'.aes_ctr.key = m.aes_ctr.key) (hr : m'.merkle_root = m.merkle_root) :
    Consistent H S key d leaf₀ leaf cur m' where
  n_pages := by rw [hn]; exact h.n_pages
  section_kind := by rw [hk]; exact h.section_kind
  writable := by rw [hw]; exact h.writable
  aes_key := by rw [ha]; exact h.aes_key
  root := by rw [hr]; exact h.root
  tree := h.tree
  slot := by rw [hc]; exact h.slot
  unique := by rw [hc]; exact h.unique
  host := by rw [hc]; exact h.host
  initial := h.initial

theorem frame (h : Consistent H S key d leaf₀ leaf cur m) (hf : Frame m m')
    (hr : m'.merkle_root = m.merkle_root) : Consistent H S key d leaf₀ leaf cur m' :=
  h.congr hf.cached_pages hf.n_pages hf.section_kind hf.is_readonly hf.key hr

/-- Writing through the reference to a valid slot. -/
theorem deref_mut (h : Consistent H S key d leaf₀ leaf cur m) {s : ℕ} {c : CachedPage}
    (hs : m.cached_pages[s]? = some c) (hv : c.valid = true) (page : Page) :
    Consistent H S key d leaf₀ leaf (Function.update cur c.idx page)
      (m.deref_mut s page) := by
  have hget := deref_mut_getElem? hs page
  refine ⟨h.n_pages, h.section_kind, h.writable, h.aes_key, h.root, h.tree, ?_, ?_, ?_, ?_⟩
  · intro j c' hj hv'
    rw [hget] at hj
    split at hj
    · cases hj
      obtain ⟨h1, -, h3, h4⟩ := h.slot s c hs hv
      exact ⟨h1, by rw [Function.update_self], h3, h4⟩
    · next hne =>
        obtain ⟨h1, h2, h3, h4⟩ := h.slot j c' hj hv'
        refine ⟨h1, ?_, h3, h4⟩
        rw [Function.update_of_ne, h2]
        exact fun he => hne (h.unique s j c c' hs hj hv hv' he.symm)
  · intro j j' a b hj hj' hva hvb hidx
    rw [hget] at hj hj'
    split at hj
    · next h1 =>
        subst h1
        split at hj'
        · next h2 => exact h2
        · cases hj; exact h.unique s j' c b hs hj' hv hvb hidx
    · split at hj'
      · next h2 => subst h2; cases hj'; exact h.unique j s a c hj hs hva hv hidx
      · exact h.unique j j' a b hj hj' hva hvb hidx
  · intro i hi
    rcases eq_or_ne i c.idx with rfl | hne
    · exact Or.inr ⟨s, { c with page, modified := true }, by rw [hget, if_pos rfl], hv, rfl,
        rfl⟩
    · rw [Function.update_of_ne hne]
      rcases h.host i hi with h1 | ⟨j, b, hj, hvb, hm, rfl⟩
      · exact Or.inl h1
      · refine Or.inr ⟨j, b, ?_, hvb, hm, rfl⟩
        rw [hget, if_neg, hj]
        rintro rfl
        rw [hs] at hj
        cases hj
        exact hne rfl
  · intro i hi
    rcases eq_or_ne i c.idx with rfl | hne
    · exact Or.inl (h.slot s c hs hv).2.2.2
    · rw [Function.update_of_ne hne]
      exact h.initial i hi

/-- Giving up a slot, perhaps with a new leaf for its page, when the leaf opens
to that page. -/
theorem evict (h : Consistent H S key d leaf₀ leaf cur m) {s : ℕ} {c : CachedPage}
    (hs : m.cached_pages[s]? = some c) (hv : c.valid = true) {leaf' : ℕ → HashOutput 32}
    (heq : ∀ i, i ≠ c.idx.toNat → leaf' i = leaf i) (htree : TreeIn H leaf' d S)
    (hclean : ∀ page, Stored H S key leaf' c.idx page → page = cur c.idx) :
    Consistent H S key d leaf₀ leaf' cur
      { m with
        merkle_root := rootOf H leaf' d
        cached_pages := m.cached_pages.set s { c with valid := false } } := by
  have hget : ∀ {j b}, (m.cached_pages.set s { c with valid := false })[j]? = some b →
      b.valid = true → m.cached_pages[j]? = some b ∧ s ≠ j := by
    intro j b hj hv
    rw [List.getElem?_set] at hj
    split at hj
    · split at hj
      · cases hj; cases hv
      · cases hj
    · next hne => exact ⟨hj, hne⟩
  have hleaf : ∀ i : U32, i ≠ c.idx → leaf' i.toNat = leaf i.toNat := fun i hne =>
    heq _ fun he => hne (BitVec.eq_of_toNat_eq he)
  refine ⟨h.n_pages, h.section_kind, h.writable, h.aes_key, rfl, htree, ?_,
    fun j j' a b hj hj' hva hvb => h.unique j j' a b (hget hj hva).1 (hget hj' hvb).1 hva hvb,
    ?_, ?_⟩
  · intro j b hj hvb
    obtain ⟨hj, hne⟩ := hget hj hvb
    obtain ⟨h1, h2, h3, h4⟩ := h.slot j b hj hvb
    refine ⟨h1, h2, ?_, h4⟩
    rw [h3, hleaf b.idx]
    exact fun he => hne (h.unique s j c b hs hj hv hvb he.symm)
  · intro i hi
    rcases eq_or_ne i c.idx with rfl | hne
    · exact Or.inl hclean
    · rcases h.host i hi with h1 | ⟨j, b, hj, hvb, hm, rfl⟩
      · exact Or.inl fun page hp => h1 page (hp.congr (hleaf i hne))
      · refine Or.inr ⟨j, b, ?_, hvb, hm, rfl⟩
        rw [List.getElem?_set_ne, hj]
        rintro rfl
        rw [hs] at hj
        cases hj
        exact hne rfl
  · intro i hi
    rcases eq_or_ne i c.idx with rfl | hne
    · exact Or.inl (h.slot s c hs hv).2.2.2
    · rw [hleaf i hne]
      exact h.initial i hi

/-- Filling a free slot with a page its leaf opens to. -/
theorem fill (h : Consistent H S key d leaf₀ leaf cur m) {s : ℕ} {i : U32} {page : Page}
    (hi : i.toNat < 2 ^ d)
    (hfree : ∀ c, m.cached_pages[s]? = some c → c.valid = false)
    (hmiss : ∀ (j : ℕ) (c : CachedPage), m.cached_pages[j]? = some c → c.valid = true → c.idx ≠ i)
    (hpage : Stored H S key leaf i page) :
    Consistent H S key d leaf₀ leaf cur
      { m with
        cached_pages := m.cached_pages.set s
          { idx := i, page, page_hash := leaf i.toNat, valid := true, modified := false } }
      := by
  have hcur : page = cur i := by
    rcases h.host i hi with h1 | ⟨j, b, hj, hvb, -, rfl⟩
    · exact h1 page hpage
    · exact absurd rfl (hmiss j b hj hvb)
  have hget : ∀ {j b}, (m.cached_pages.set s
      { idx := i, page, page_hash := leaf i.toNat, valid := true, modified := false })[j]? =
        some b →
      s = j ∧ b = ⟨i, page, leaf i.toNat, true, false⟩ ∨
        s ≠ j ∧ m.cached_pages[j]? = some b := by
    intro j b hj
    rw [List.getElem?_set] at hj
    split at hj
    · next he =>
        split at hj
        · cases hj; exact Or.inl ⟨he, rfl⟩
        · cases hj
    · next hne => exact Or.inr ⟨hne, hj⟩
  refine ⟨h.n_pages, h.section_kind, h.writable, h.aes_key, h.root, h.tree, ?_, ?_, ?_,
    h.initial⟩
  · intro j b hj hv
    obtain ⟨-, rfl⟩ | ⟨-, hj⟩ := hget hj
    · refine ⟨hi, hcur, rfl, ?_⟩
      rcases h.initial i hi with h1 | ⟨hl, hc⟩
      · exact h1
      · rw [← hc, ← hcur]
        exact hpage.congr hl
    · exact h.slot j b hj hv
  · intro j j' a b hj hj' hva hvb hidx
    obtain ⟨rfl, rfl⟩ | ⟨-, hj⟩ := hget hj
    · obtain ⟨rfl, -⟩ | ⟨-, hj'⟩ := hget hj'
      · rfl
      · exact absurd hidx.symm (hmiss j' b hj' hvb)
    · obtain ⟨rfl, rfl⟩ | ⟨-, hj'⟩ := hget hj'
      · exact absurd hidx (hmiss j a hj hva)
      · exact h.unique j j' a b hj hj' hva hvb hidx
  · intro i' hi'
    rcases h.host i' hi' with h1 | ⟨j, b, hj, hvb, hm, rfl⟩
    · exact Or.inl h1
    · refine Or.inr ⟨j, b, ?_, hvb, hm, rfl⟩
      rw [List.getElem?_set_ne, hj]
      rintro rfl
      rw [hfree b hj] at hvb
      cases hvb

end Consistent

/-! ## The operations -/

/-- What a call never takes back. -/
structure Later (m m' : OutsourcedMemory E) : Prop where
  section_kind : m'.section_kind = m.section_kind
  digested : m.hasher.digested ⊆ m'.hasher.digested

theorem Later.refl (m : OutsourcedMemory E) : Later m m := ⟨rfl, List.Subset.refl _⟩

theorem Later.trans {m₁ m₂ m₃ : OutsourcedMemory E} (h : Later m₁ m₂) (h' : Later m₂ m₃) :
    Later m₁ m₃ :=
  ⟨h'.section_kind.trans h.section_kind, List.Subset.trans h.digested h'.digested⟩

variable {dev : Device}

theorem notify_ok {f : E → Option E} {u : Unit} (h : notify f m = .ok u m') :
    ∃ eviction_strategy, m' = { m with eviction_strategy } := by
  unfold notify at h
  rw [Exec.get_bind] at h
  obtain ⟨e, -, h⟩ := Exec.unwrap_bind_ok.mp h
  cases h
  exact ⟨e, rfl⟩

theorem get_cached_page_ref_ok {page_index : U32} {slot s : ℕ}
    (h : get_cached_page_ref page_index slot m = .ok s m') :
    s = slot ∧ m' = { m with last_accessed_page := some (page_index, slot) } := by
  unfold get_cached_page_ref at h
  rw [Exec.modify_bind, Exec.get_bind] at h
  obtain ⟨-, h⟩ := Exec.assert_bind_ok.mp h
  cases h
  exact ⟨rfl, rfl⟩

/-- A commit of a valid slot that returned, followed by freeing the slot. -/
theorem Consistent.commit (hS : CollisionFree dev.sha256 S)
    (hcons : Consistent dev.sha256 S key d leaf₀ leaf cur m) {s : ℕ} {c : CachedPage}
    {u : Unit} (hs : m.cached_pages[s]? = some c) (hv : c.valid = true)
    (h : commit_page_at dev s m = .ok u m') (hsub : ∀ x ∈ m'.hasher.digested, x ∈ S) :
    ∃ leaf', Consistent dev.sha256 S key d leaf₀ leaf' cur
      { m' with cached_pages := m'.cached_pages.set s { c with valid := false } } := by
  obtain ⟨c', hc', hf, r, hr, hopen, hasher, proof, v, hfeed, hver⟩ :=
    commit_page_at_ok dev h
  obtain rfl : c' = c := Option.some.inj (hc'.symm.trans hs)
  obtain ⟨hi, hpage, hhash, -⟩ := hcons.slot s c' hs hv
  rw [hcons.root, hcons.n_pages] at hfeed
  obtain ⟨-, hroot, htree⟩ := update_sound hS hcons.tree hi
    (by rw [hfeed]; exact hsub) (by rw [hfeed]; exact hver)
  have hself : Function.update leaf c'.idx.toNat (dev.sha256 (recordMessage r))
      c'.idx.toNat = dev.sha256 (recordMessage r) := Function.update_self ..
  have hstored : Stored dev.sha256 S key
      (Function.update leaf c'.idx.toNat (dev.sha256 (recordMessage r))) c'.idx c'.page :=
    ⟨r, hsub _ hr, hself.symm, by rw [← hcons.aes_key, hopen]⟩
  have hev := hcons.evict hs hv (fun i hne => Function.update_of_ne hne ..) htree
    (fun page hp => by rw [← hpage]; exact hp.unique hS hstored)
  exact ⟨_, hev.congr (by rw [hf.cached_pages]) hf.n_pages hf.section_kind hf.is_readonly
    hf.key hroot⟩

variable [PageEvictionStrategy E]

/-- An eviction commits a slot or finds it clean, and frees it. -/
theorem evict_page_cases {s : ℕ} (h : evict_page dev m = .ok s m') :
    ∃ (c : CachedPage) (m₁ : OutsourcedMemory E) (e e' : E), m.cached_pages[s]? = some c ∧
      m' = { m₁ with
        cached_pages := m₁.cached_pages.set s { c with valid := false }
        eviction_strategy := e' } ∧
      (m.is_readonly = false ∧
          commit_page_at dev s { m with eviction_strategy := e } = .ok () m₁ ∨
        m₁ = { m with eviction_strategy := e } ∧
          (m.is_readonly = true ∨ c.modified = false)) := by
  unfold evict_page at h
  rw [Exec.get_bind] at h
  obtain ⟨⟨i, e⟩, -, h⟩ := Exec.unwrap_bind_ok.mp h
  dsimp only at h
  rw [Exec.set_bind] at h
  obtain ⟨c, hc, h⟩ := Exec.unwrap_bind_ok.mp h
  obtain ⟨_, m₁, hcommit, h⟩ := Exec.bind_ok.mp h
  rw [Exec.modify_bind] at h
  obtain ⟨_, m₂, hnotify, h⟩ := Exec.bind_ok.mp h
  obtain ⟨e', rfl⟩ := notify_ok hnotify
  cases h
  refine ⟨c, m₁, e, e', hc, rfl, ?_⟩
  unfold commit_victim at hcommit
  rw [Exec.get_bind] at hcommit
  split at hcommit
  · next hcond =>
      rw [Bool.and_eq_true, Bool.not_eq_true'] at hcond
      exact Or.inl ⟨hcond.1, hcommit⟩
  · next hcond =>
      cases hcommit
      refine Or.inr ⟨rfl, ?_⟩
      simpa [or_iff_not_imp_left] using hcond

theorem evict_page_ok {s : ℕ} (h : evict_page dev m = .ok s m') :
    Later m m' ∧
      ∃ c, m.cached_pages[s]? = some c ∧
        m'.cached_pages = m.cached_pages.set s { c with valid := false } ∧
        (CollisionFree dev.sha256 S → (∀ x ∈ m'.hasher.digested, x ∈ S) →
          c.valid = true → Consistent dev.sha256 S key d leaf₀ leaf cur m →
          ∃ leaf', Consistent dev.sha256 S key d leaf₀ leaf' cur m') := by
  obtain ⟨c, m₁, e, e', hc, rfl, ⟨-, hcommit⟩ | ⟨rfl, hclean⟩⟩ := evict_page_cases h
  · obtain ⟨_, _, hf, _⟩ := commit_page_at_ok dev hcommit
    refine ⟨⟨hf.section_kind, hf.digested⟩, c, hc, congrArg (List.set · s _) hf.cached_pages, ?_⟩
    intro hS hsub hv hcons
    have hcons' : Consistent dev.sha256 S key d leaf₀ leaf cur
        { m with eviction_strategy := e } := hcons.congr rfl rfl rfl rfl rfl rfl
    obtain ⟨leaf', h'⟩ := hcons'.commit hS hc hv hcommit hsub
    exact ⟨leaf', h'.congr rfl rfl rfl rfl rfl rfl⟩
  · refine ⟨⟨rfl, List.Subset.refl _⟩, c, hc, rfl, fun hS hsub hv hcons => ⟨leaf, ?_⟩⟩
    have hmod : c.modified = false := by
      rcases hclean with hro | hmod
      · rw [hcons.writable] at hro; cases hro
      · exact hmod
    have hev := hcons.evict hc hv (fun i _ => rfl) hcons.tree fun page hp => by
      rcases hcons.host c.idx (hcons.slot s c hc hv).1 with h1 | ⟨j, b, hj, hvb, hm, hidx⟩
      · exact h1 page hp
      · -- the dirty slot with this index could only be this one
        obtain rfl := hcons.unique s j c b hc hj hv hvb hidx.symm
        rw [hc] at hj
        cases hj
        rw [hmod] at hm
        cases hm
    exact hev.congr rfl rfl rfl rfl rfl hcons.root

theorem load_into_cases {page_index : U32} {slot s : ℕ}
    (h : load_into dev page_index slot m = .ok s m') :
    s = slot ∧ ∃ page page_hash m₁ e, load_page dev page_index m = .ok (page, page_hash) m₁ ∧
      m' = { m₁ with
        cached_pages := m₁.cached_pages.set slot ⟨page_index, page, page_hash, true, false⟩
        eviction_strategy := e
        last_accessed_page := some (page_index, slot) } := by
  unfold load_into at h
  obtain ⟨⟨page, page_hash⟩, m₁, hload, h⟩ := Exec.bind_ok.mp h
  dsimp only at h
  rw [Exec.modify_bind] at h
  obtain ⟨_, m₂, hnotify, h⟩ := Exec.bind_ok.mp h
  obtain ⟨e, rfl⟩ := notify_ok hnotify
  obtain ⟨rfl, rfl⟩ := get_cached_page_ref_ok h
  exact ⟨rfl, page, page_hash, m₁, e, hload, rfl⟩

/-- Loading into a free slot a page that is in no slot. -/
theorem load_into_ok {page_index : U32} {slot s : ℕ}
    (hkind : m.section_kind ≠ .code)
    (h : load_into dev page_index slot m = .ok s m') :
    Later m m' ∧ s = slot ∧
      m'.last_accessed_page = some (page_index, slot) ∧
      (∃ page page_hash, m'.cached_pages = m.cached_pages.set slot
        ⟨page_index, page, page_hash, true, false⟩) ∧
      (∀ leaf, CollisionFree dev.sha256 S → (∀ x ∈ m'.hasher.digested, x ∈ S) →
        page_index.toNat < 2 ^ d →
        (∀ c, m.cached_pages[slot]? = some c → c.valid = false) →
        (∀ (j : ℕ) (c : CachedPage), m.cached_pages[j]? = some c → c.valid = true →
          c.idx ≠ page_index) →
        Consistent dev.sha256 S key d leaf₀ leaf cur m →
        Consistent dev.sha256 S key d leaf₀ leaf cur m') := by
  obtain ⟨rfl, page, page_hash, m₁, e, hload, rfl⟩ := load_into_cases h
  obtain ⟨hf, hroot, r, hr, hhash, hopen, hauth⟩ := load_page_cases dev hload
  refine ⟨⟨hf.section_kind, hf.digested⟩, rfl, rfl,
    ⟨page, page_hash, congrArg (List.set · s _) hf.cached_pages⟩, ?_⟩
  intro leaf hS hsub hi hfree hmiss hcons
  obtain ⟨hasher, proof, v, hfeed, hver⟩ := hauth.resolve_right fun htag => hkind htag.1
  rw [hcons.root] at hfeed
  have hadj : checked_next_power_of_two m.n_pages.toNat = 2 ^ d := hcons.n_pages
  rw [hadj] at hfeed
  have hleaf : page_hash = leaf page_index.toNat := inclusion_sound hS hcons.tree hi
    (by rw [hfeed]; exact hsub) (by rw [hfeed]; exact hver)
  have hstored : Stored dev.sha256 S key leaf page_index page :=
    ⟨r, hsub _ hr, by rw [← hhash, hleaf], by rw [← hcons.aes_key, hopen]⟩
  have hfill := hcons.fill hi hfree hmiss hstored
  exact hfill.congr (by rw [hf.cached_pages, hleaf]) hf.n_pages hf.section_kind
    hf.is_readonly hf.key hroot

/-- How a page came to be in slot `s`: it was there, it was loaded into a free
slot, or the slot was freed for it. -/
inductive Located (dev : Device) (m : OutsourcedMemory E) (page_index : U32) (s : ℕ)
    (m' : OutsourcedMemory E) : Prop
  | cached (eviction_strategy : E)
      (hm' : m' = { m with eviction_strategy, last_accessed_page := some (page_index, s) })
      (hs : m.last_accessed_page = some (page_index, s) ∨ ∃ c : CachedPage,
        m.cached_pages[s]? = some c ∧ c.valid = true ∧ c.idx = page_index)
  | free (c : CachedPage) (hc : m.cached_pages[s]? = some c) (hv : c.valid = false)
      (hmiss : ∀ (j : ℕ) (c : CachedPage), m.cached_pages[j]? = some c → c.valid = true →
        c.idx ≠ page_index)
      (hload : load_into dev page_index s m = .ok s m')
  | evicted (m₁ : OutsourcedMemory E)
      (hall : ∀ (j : ℕ) (c : CachedPage), m.cached_pages[j]? = some c → c.valid = true)
      (hmiss : ∀ (j : ℕ) (c : CachedPage), m.cached_pages[j]? = some c → c.valid = true →
        c.idx ≠ page_index)
      (hevict : evict_page dev m = .ok s m₁)
      (hload : load_into dev page_index s m₁ = .ok s m')

theorem get_page_cases {page_index : U32} {s : ℕ} (h : get_page dev page_index m = .ok s m') :
    Located dev m page_index s m' := by
  unfold get_page at h
  rw [Exec.get_bind] at h
  cases hfast : m.last_accessed_page.filter (fun last => page_index = last.1) with
  | some last =>
      simp only [hfast] at h
      obtain ⟨rfl, rfl⟩ := get_cached_page_ref_ok h
      obtain ⟨hsome, hp⟩ := Option.filter_eq_some_iff.mp hfast
      exact .cached m.eviction_strategy rfl (.inl (by rw [hsome, of_decide_eq_true hp]))
  | none =>
      simp only [hfast] at h
      cases hhit : m.cached_pages.findIdx? (fun c => c.valid && c.idx == page_index) with
      | some i =>
          simp only [hhit] at h
          obtain ⟨_, m₁, hnotify, h⟩ := Exec.bind_ok.mp h
          obtain ⟨e, rfl⟩ := notify_ok hnotify
          obtain ⟨rfl, rfl⟩ := get_cached_page_ref_ok h
          obtain ⟨hlt, hc, -⟩ := List.findIdx?_eq_some_iff_getElem.mp hhit
          rw [Bool.and_eq_true, beq_iff_eq] at hc
          exact .cached e rfl (.inr ⟨_, List.getElem?_eq_getElem hlt, hc⟩)
      | none =>
          simp only [hhit] at h
          have hmiss : ∀ (j : ℕ) (c : CachedPage), m.cached_pages[j]? = some c →
              c.valid = true → c.idx ≠ page_index := by
            intro j c hj hv hidx
            have := List.findIdx?_eq_none_iff.mp hhit c (List.mem_of_getElem? hj)
            rw [hv, hidx, beq_self_eq_true] at this
            cases this
          cases hfree : m.cached_pages.findIdx? (fun c => !c.valid) with
          | some slot =>
              simp only [hfree] at h
              obtain ⟨hlt, hc, -⟩ := List.findIdx?_eq_some_iff_getElem.mp hfree
              obtain ⟨rfl, -⟩ := load_into_cases h
              exact .free _ (List.getElem?_eq_getElem hlt) (by simpa using hc) hmiss h
          | none =>
              simp only [hfree] at h
              obtain ⟨slot, m₁, hevict, h⟩ := Exec.bind_ok.mp h
              obtain ⟨rfl, -⟩ := load_into_cases h
              refine .evicted m₁ (fun j c hj => ?_) hmiss hevict h
              simpa using List.findIdx?_eq_none_iff.mp hfree c (List.mem_of_getElem? hj)

omit [PageEvictionStrategy E] in
theorem LastValid.of_last {page_index : U32} {s : ℕ} {c : CachedPage}
    (hl : m.last_accessed_page = some (page_index, s)) (hc : m.cached_pages[s]? = some c)
    (hv : c.valid = true) (hidx : c.idx = page_index) : LastValid m := by
  intro p t hpt
  rw [hl] at hpt
  cases hpt
  exact ⟨c, hc, hv, hidx⟩

/-- A page asked for ends up in a valid slot. -/
theorem get_page_ok {page_index : U32} {s : ℕ} (hkind : m.section_kind ≠ .code)
    (h : get_page dev page_index m = .ok s m') :
    Later m m' ∧
      (CollisionFree dev.sha256 S → (∀ x ∈ m'.hasher.digested, x ∈ S) →
        page_index.toNat < 2 ^ d → LastValid m →
        Consistent dev.sha256 S key d leaf₀ leaf cur m →
        LastValid m' ∧ (∃ c, m'.cached_pages[s]? = some c ∧ c.valid = true ∧
          c.idx = page_index) ∧
        ∃ leaf', Consistent dev.sha256 S key d leaf₀ leaf' cur m') := by
  cases get_page_cases h with
  | cached e hm' hs =>
      subst hm'
      refine ⟨⟨rfl, List.Subset.refl _⟩, fun _ _ _ hl hcons => ?_⟩
      obtain ⟨c, hc, hv, hidx⟩ := hs.elim (hl page_index s) id
      exact ⟨.of_last rfl hc hv hidx, ⟨c, hc, hv, hidx⟩, leaf,
        hcons.congr rfl rfl rfl rfl rfl rfl⟩
  | free c hc hv hmiss hload =>
      obtain ⟨hlater, -, hl, ⟨page, ph, hpages⟩, hcons'⟩ := load_into_ok hkind hload
      refine ⟨hlater, fun hS hsub hi _ hcons => ?_⟩
      have hnew : m'.cached_pages[s]? = some ⟨page_index, page, ph, true, false⟩ := by
        rw [hpages, List.getElem?_set_self (List.getElem?_eq_some_iff.mp hc).1]
      refine ⟨.of_last hl hnew rfl rfl, ⟨_, hnew, rfl, rfl⟩, leaf,
        hcons' leaf hS hsub hi (fun c' hc' => ?_) hmiss hcons⟩
      rw [hc] at hc'
      cases hc'
      exact hv
  | evicted m₁ hall hmiss hevict hload =>
      obtain ⟨hlater₁, victim, hvictim, hpages₁, hcons₁⟩ := evict_page_ok hevict
      have hlt : s < m.cached_pages.length := (List.getElem?_eq_some_iff.mp hvictim).1
      obtain ⟨hlater, -, hl, ⟨page, ph, hpages⟩, hcons'⟩ :=
        load_into_ok (by rw [hlater₁.section_kind]; exact hkind) hload
      refine ⟨hlater₁.trans hlater, fun hS hsub hi _ hcons => ?_⟩
      have hnew : m'.cached_pages[s]? = some ⟨page_index, page, ph, true, false⟩ := by
        rw [hpages, List.getElem?_set_self (by rw [hpages₁]; simpa using hlt)]
      obtain ⟨leaf', hc₁⟩ := hcons₁ hS (fun x hx => hsub x (hlater.digested hx))
        (hall s victim hvictim) hcons
      refine ⟨.of_last hl hnew rfl rfl, ⟨_, hnew, rfl, rfl⟩, leaf',
        hcons' leaf' hS hsub hi ?_ ?_ hc₁⟩
      · intro c hc
        rw [hpages₁, List.getElem?_set_self hlt] at hc
        cases hc
        rfl
      · intro j c hj hv
        rw [hpages₁, List.getElem?_set] at hj
        split at hj
        · cases hj; cases hv
        · exact hmiss j c hj hv

omit [PageEvictionStrategy E] in
theorem writes_later (writes : List Page) (s : ℕ) :
    ∀ m : OutsourcedMemory E, Later m (writes.foldl (fun m page => m.deref_mut s page) m) := by
  induction writes with
  | nil => exact Later.refl
  | cons page writes ih =>
      intro m
      have hlater : Later m (m.deref_mut s page) := ⟨rfl, List.Subset.refl _⟩
      exact hlater.trans (ih _)

omit [PageEvictionStrategy E] in
/-- Writes through a reference: the last one counts. -/
theorem writes_ok (writes : List Page) :
    ∀ {m : OutsourcedMemory E} {cur : U32 → Page} {s : ℕ} {c : CachedPage},
      m.cached_pages[s]? = some c → c.valid = true → LastValid m →
      Consistent H S key d leaf₀ leaf cur m →
      LastValid (writes.foldl (fun m page => m.deref_mut s page) m) ∧
        Consistent H S key d leaf₀ leaf
          (Function.update cur c.idx (writes.getLastD (cur c.idx)))
          (writes.foldl (fun m page => m.deref_mut s page) m) := by
  induction writes with
  | nil =>
      intro m cur s c _ _ hl hcons
      rw [List.getLastD_nil, Function.update_eq_self]
      exact ⟨hl, hcons⟩
  | cons page writes ih =>
      intro m cur s c hs hv hl hcons
      have hget : (m.deref_mut s page).cached_pages[s]? =
          some { c with page, modified := true } := by
        rw [deref_mut_getElem? hs, if_pos rfl]
      have := ih hget hv (hl.deref_mut hs page) (hcons.deref_mut hs hv page)
      rwa [Function.update_self, Function.update_idem, ← List.getLastD_cons] at this

theorem access_ok {a : Access} {page : Page} (hkind : m.section_kind ≠ .code)
    (h : access dev a m = .ok page m') :
    Later m m' ∧
      (CollisionFree dev.sha256 S → (∀ x ∈ m'.hasher.digested, x ∈ S) →
        a.page_index.toNat < 2 ^ d → LastValid m →
        Consistent dev.sha256 S key d leaf₀ leaf cur m →
        page = cur a.page_index ∧
        Stored dev.sha256 S key leaf₀ a.page_index
          (openLeaf dev.sha256 S key leaf₀ a.page_index) ∧
        LastValid m' ∧ ∃ leaf', Consistent dev.sha256 S key d leaf₀ leaf'
          (Function.update cur a.page_index (a.writes.getLastD (cur a.page_index))) m') := by
  unfold access at h
  rw [Exec.modify_bind] at h
  obtain ⟨slot, m₁, hget, h⟩ := Exec.bind_ok.mp h
  rw [Exec.get_bind, Exec.set_bind] at h
  cases h
  have hkind' : ({ m with aes_ctr := { m.aes_ctr with nonce := a.nonce } } :
      OutsourcedMemory E).section_kind ≠ .code := hkind
  obtain ⟨hlater₁, hok⟩ := get_page_ok hkind' hget
  have hlater₂ := writes_later a.writes slot m₁
  have hlater : Later m m₁ := ⟨hlater₁.section_kind, hlater₁.digested⟩
  refine ⟨hlater.trans hlater₂, ?_⟩
  intro hS hsub hi hl hcons
  obtain ⟨hl₁, ⟨c, hc, hv, hidx⟩, leaf', hcons₁⟩ :=
    hok hS (fun x hx => hsub x (hlater₂.digested hx)) hi hl
      (hcons.congr rfl rfl rfl rfl rfl rfl)
  obtain ⟨-, hpage, -, hstored⟩ := hcons₁.slot slot c hc hv
  obtain ⟨hl₂, hcons₂⟩ := writes_ok a.writes hc hv hl₁ hcons₁
  rw [hidx] at hpage hstored hcons₂
  exact ⟨by rw [deref_eq hc, hpage], hstored, hl₂, leaf', hcons₂⟩

theorem run_ok {as : List Access} :
    ∀ (cur : U32 → Page) (leaf : ℕ → HashOutput 32) {m m' : OutsourcedMemory E}
      {pages : List Page}, m.section_kind ≠ .code → run dev as m = .ok pages m' →
      Later m m' ∧
        (CollisionFree dev.sha256 S → (∀ x ∈ m'.hasher.digested, x ∈ S) →
          (∀ a ∈ as, a.page_index.toNat < 2 ^ d) → LastValid m →
          Consistent dev.sha256 S key d leaf₀ leaf cur m →
          pages = arrayRun cur as ∧ ∀ a ∈ as, Stored dev.sha256 S key leaf₀ a.page_index
            (openLeaf dev.sha256 S key leaf₀ a.page_index)) := by
  induction as with
  | nil =>
      intro cur leaf m m' pages _ h
      cases h
      exact ⟨Later.refl m, fun _ _ _ _ _ => ⟨rfl, fun a ha => by cases ha⟩⟩
  | cons a as ih =>
      intro cur leaf m m' pages hkind h
      rw [run] at h
      obtain ⟨page, m₁, haccess, h⟩ := Exec.bind_ok.mp h
      obtain ⟨pages', m₂, hrun, h⟩ := Exec.bind_ok.mp h
      cases h
      obtain ⟨hlater₁, hok₁⟩ := access_ok hkind haccess
      have hkind₁ : m₁.section_kind ≠ .code := by rw [hlater₁.section_kind]; exact hkind
      have hlater₂ := (ih cur leaf hkind₁ hrun).1
      refine ⟨hlater₁.trans hlater₂, fun hS hsub hi hl hcons => ?_⟩
      obtain ⟨hpage, hstored, hl₁, leaf', hcons₁⟩ :=
        hok₁ hS (fun x hx => hsub x (hlater₂.digested hx)) (hi a List.mem_cons_self) hl hcons
      obtain ⟨hpages, hrest⟩ := (ih _ leaf' hkind₁ hrun).2 hS hsub
        (fun b hb => hi b (List.mem_cons_of_mem a hb)) hl₁ hcons₁
      refine ⟨by rw [arrayRun, hpage, hpages], fun b hb => ?_⟩
      rcases List.mem_cons.mp hb with rfl | hb
      · exact hstored
      · exact hrest b hb

/-! ## The section of a program -/

omit [PageEvictionStrategy E] in
/-- A fresh memory knows nothing but the root. -/
theorem Consistent.new (hS : CollisionFree H S) {comm : Comm} {max_pages_in_cache : ℕ}
    {section_kind : SectionKind} {n_pages : U32} {aes_ctr : AesCtr} {e : E}
    {vapp_hash : HashOutput 32} (hkind : section_kind ≠ .code)
    (hn : n_pages_adjusted n_pages.toNat = 2 ^ d) (htree : TreeIn H leaf₀ d S) :
    Consistent H S aes_ctr.key d leaf₀ leaf₀ (openLeaf H S aes_ctr.key leaf₀)
      (OutsourcedMemory.new comm max_pages_in_cache false section_kind n_pages
        (rootOf H leaf₀ d) aes_ctr e vapp_hash) := by
  have hslot : ∀ (j : ℕ) (c : CachedPage),
      (List.replicate max_pages_in_cache CachedPage.default)[j]? = some c →
      c.valid = false := by
    intro j c hj
    rw [List.getElem?_replicate] at hj
    split at hj
    · cases hj; rfl
    · cases hj
  refine ⟨hn, hkind, rfl, rfl, rfl, htree, ?_, ?_, ?_, fun i _ => Or.inr ⟨rfl, rfl⟩⟩
  · intro j c hj hv
    rw [hslot j c hj] at hv
    cases hv
  · intro j j' c c' hj _ hv
    rw [hslot j c hj] at hv
    cases hv
  · exact fun i _ => Or.inl fun page hp => hp.openLeaf_eq hS

end OutsourcedMemory

/-- A writable section is an array of pages. The leaves under the initial root
are arbitrary; `S` is any set of messages without collisions that contains
those of the initial tree and whatever the VM hashed. Whatever the host
answers, a run whose calls all returned exposed the pages of an array that
starts with what the initial leaves open to. -/
theorem outsourced_memory_refines_array {E : Type} [PageEvictionStrategy E] {dev : Device}
    {S : Set Bytes} {d : ℕ} {leaf : ℕ → HashOutput 32} {comm : Comm}
    {max_pages_in_cache : ℕ} {section_kind : SectionKind} {n_pages : U32} {aes_ctr : AesCtr}
    {eviction_strategy : E} {vapp_hash : HashOutput 32} {accesses : List Access}
    {pages : List Page} {m : OutsourcedMemory E}
    (hkind : section_kind ≠ .code)
    (hn : OutsourcedMemory.n_pages_adjusted n_pages.toNat = 2 ^ d)
    (hrange : ∀ a ∈ accesses, a.page_index.toNat < 2 ^ d)
    (hrun : OutsourcedMemory.run dev accesses
      (OutsourcedMemory.new comm max_pages_in_cache false section_kind n_pages
        (rootOf dev.sha256 leaf d) aes_ctr eviction_strategy vapp_hash) = .ok pages m)
    (hS : CollisionFree dev.sha256 S) (htree : TreeIn dev.sha256 leaf d S)
    (hhashed : ∀ x ∈ m.hasher.digested, x ∈ S) :
    ∃ init : U32 → Page, pages = arrayRun init accesses ∧
      ∀ a ∈ accesses, ∀ page, Stored dev.sha256 S aes_ctr.key leaf a.page_index page ↔
        page = init a.page_index := by
  obtain ⟨-, hok⟩ := OutsourcedMemory.run_ok _ leaf hkind hrun
  obtain ⟨hpages, hstored⟩ := hok hS hhashed hrange (fun p s h => by cases h)
    (OutsourcedMemory.Consistent.new hS hkind hn htree)
  refine ⟨_, hpages, fun a ha page => ⟨fun h => h.openLeaf_eq hS, ?_⟩⟩
  rintro rfl
  exact hstored a ha

/-! ## A concrete run

Two pages, one slot, SHA-256 and AES-128 under the key `00 01 .. 0f`. The first
page is overwritten, pushed out by the second, and fetched again. -/

namespace TwoPages

/-- The keystream of the nonce 0, by the last byte of the counter. -/
def aes : AesKey where
  encrypt_block counter := some (array ((ofHex (([
    0xc6a13b37878f5b826f4f8162a1c8d879, 0x7346139595c0b41e497bbde365f42d0a,
    0x49d68753999ba68ce3897a686081b09d, 0xb9ad2b2e346ac238505d365e9cb7fc56,
    0x3063b6df0a2cdbb0851251d2c669d1bf, 0x9b82998964728141405e23dd9f1dd01b,
    0xd45efc5268a9afeac1d229e7a1421662, 0xb9322f19c62b38e9bed82bd3e67b1319,
    0xa524c76df94fdd98f7d6550dd0b94a93, 0x6142645a1f33235e77ec0ffbea341608,
    0x6c498e34839c432cf0fc5e3caf94f42d, 0xb21b96c0e795029a6c2b96f3915c91d0,
    0x67a5e5bd18648f107136fc5fc5b4f606, 0xcb9c9b0fbf9e070e98f6036e8d7dc2cf,
    0x3215acd0e24cdfa7b4c3eb57e6283e64, 0xb972098e54cb97c2817be5807b64adbf] :
    List ℕ).getD counter[15].toNat 0)).toList) 16 16)

def page (b : U8) : Page := Vector.replicate PAGE_SIZE b

def nonce : Vector U8 12 := Vector.replicate 12 0

/-- The page of twos, encrypted. -/
def sealed : Page :=
  array (((AesCtr.new aes).decrypt nonce (page 2).toList).getD []) 0 PAGE_SIZE

def leaf0 : HashOutput 32 :=
  ofHex 0x04bd11c311f0107c20d95e65d9a593ee5c92c7cb53507e10b680ece3de7add1c

def leaf1 : HashOutput 32 :=
  ofHex 0xfb824c42612030ccad4b461bee0a847bf5f817827d2bfa654a66614484edd5e2

def leaf0' : HashOutput 32 :=
  ofHex 0x30784e22dfd63f73eb49246841ce584dd87a76c0fbdb47ccef9e5b1242617761

/-- What is hashed in the run. -/
def messages : List Bytes :=
  [recordMessage (none, page 0), recordMessage (none, page 1), nodeMessage leaf0 leaf1,
   recordMessage (some nonce, sealed), nodeMessage leaf0' leaf1]

/-- SHA-256 on these messages, which differ in the bytes 0, 1 and 14. -/
def sha256 (m : Bytes) : HashOutput 32 :=
  match m.getD 0 0, m.getD 1 0, m.getD 14 0 with
  | 0, 0, 0 => leaf0
  | 0, 0, _ => leaf1
  | 0, _, _ => leaf0'
  | _, 0x04, _ => ofHex 0xe157e8a2597bad0fac709e2f5037a5f30aeb4080aad332e37a2c066a71c661b8
  | _, _, _ => ofHex 0xac144f70211e5346c635c8254649695c97a3b211a53dff923f66ba3eb014f365

def device : Device where
  sha256 := sha256
  hmac_sha256 _ _ := none
  auth_key := Vector.replicate 32 0

def leaf (i : ℕ) : HashOutput 32 := if i = 0 then leaf0 else leaf1

/-- What an honest host answers to `GetPage`, `CommitPage`, `GetPage` and
`GetPage`. -/
def host : Comm where
  replies := [
    .ok ((page 0).toList ++ [1, 1, 0] ++ nonce.toList ++ [0] ++ leaf1.toList),
    .ok ([1, 1] ++ (device.sha256 (nodeMessage leaf0' leaf1)).toList ++ leaf1.toList),
    .ok ((page 1).toList ++ [1, 1, 0] ++ nonce.toList ++ [0] ++ leaf0'.toList),
    .ok (sealed.toList ++ [1, 1, 1] ++ nonce.toList ++ [0] ++ leaf1.toList)]

def accesses : List Access := [⟨nonce, 0, [page 2]⟩, ⟨nonce, 1, []⟩, ⟨nonce, 0, []⟩]

def run : Outcome MemoryError (OutsourcedMemory LruEvictionStrategy) (List Page) :=
  OutsourcedMemory.run device accesses
    (OutsourcedMemory.new host 1 false .data 2 (rootOf device.sha256 leaf 1)
      (AesCtr.new aes) (LruEvictionStrategy.new 1) (Vector.replicate 32 0))

/-- The run returns, and hashes nothing but the five messages. -/
def returns : Bool :=
  match run with
  | .ok _ m => m.hasher.digested.all fun x => messages.any fun y => y == x
  | _ => false

theorem collisionFree : CollisionFree device.sha256 {m | m ∈ messages} := by
  have h : (messages.map device.sha256).Nodup := by decide +kernel
  exact fun m hm m' hm' => List.inj_on_of_nodup_map h hm hm'

end TwoPages

theorem outsourced_memory_refines_array_two_pages :
    ∃ (pages : List Page) (m : OutsourcedMemory LruEvictionStrategy) (init : U32 → Page),
      TwoPages.run = .ok pages m ∧ pages = arrayRun init TwoPages.accesses := by
  have hret : TwoPages.returns = true := by decide +kernel
  unfold TwoPages.returns at hret
  split at hret
  · next pages m hrun =>
      obtain ⟨init, hpages, -⟩ := outsourced_memory_refines_array (d := 1)
        (S := {m | m ∈ TwoPages.messages}) (by decide) (by decide +kernel)
        (by decide +kernel) hrun TwoPages.collisionFree
        (fun p hp => by
          obtain ⟨k, i, hk, hi, rfl⟩ := hp
          obtain rfl : k = 0 := by omega
          obtain rfl : i = 0 := by simpa using hi
          decide +kernel)
        (fun x hx => by
          obtain ⟨e, he, heq⟩ := List.any_eq_true.mp (List.all_eq_true.mp hret x hx)
          exact beq_iff_eq.mp heq ▸ he)
      exact ⟨pages, m, init, hrun, hpages⟩
  · cases hret

end Vanadium
