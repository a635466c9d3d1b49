import Vanadium.Proofs.CodeSegment

/-!
# What a failed lookup leaves behind

The host can make any lookup fail, in the middle of an exchange. Until then the
memory has talked and hashed, and may have pushed a page out: that is all, and
none of it changes which pages the memory stands for. A reference to the page
pushed out may still be the last accessed one; its slot is free, but what is in
it is still that page.
-/

namespace Vanadium

open Lib

namespace OutsourcedMemory

variable {E : Type} {dev : Device} {m m' : OutsourcedMemory E}

/-! ## Failures -/

/-- Traffic with the host that did not end in a commit. -/
def Traffic (m m' : OutsourcedMemory E) : Prop :=
  Frame m m' ∧ m'.merkle_root = m.merkle_root

theorem Traffic.refl (m : OutsourcedMemory E) : Traffic m m := ⟨Frame.refl m, rfl⟩

theorem Traffic.trans {m₁ m₂ m₃ : OutsourcedMemory E} (h : Traffic m₁ m₂) (h' : Traffic m₂ m₃) :
    Traffic m₁ m₃ :=
  ⟨h.1.trans h'.1, h'.2.trans h.2⟩

theorem exchange_preserves (message : Bytes) :
    Exec.Preserves (Traffic m) (exchange message) := by
  refine fun s hs => ⟨fun data s' h => ?_, fun s' h => ?_⟩
  · obtain ⟨hf, hroot, -⟩ := exchange_ok h
    exact hs.trans ⟨hf, hroot⟩
  · obtain ⟨c, hc, rfl⟩ := Exec.zoom_fails.mp h
    refine hs.trans ⟨⟨rfl, rfl, rfl, rfl, rfl, rfl, rfl, ?_, List.Subset.refl _⟩, rfl⟩
    rcases hc with ⟨e, hc⟩ | hc <;> unfold interrupt at hc <;> split at hc
    · cases hc
    · cases hc
    · next heq => cases hc; rw [heq]; exact List.subset_cons_self _ _
    · cases hc; exact List.Subset.refl _
    · cases hc
    · cases hc

theorem with_hasher_preserves {α : Type} {f : Hasher → α × Hasher}
    (hf : ∀ hasher, hasher.digested ⊆ (f hasher).2.digested) :
    Exec.Preserves (Traffic m) (with_hasher f) := by
  refine fun s hs => ⟨fun a s' h => ?_, fun s' h => by rcases h with ⟨e, h⟩ | h <;> cases h⟩
  obtain ⟨-, rfl⟩ := with_hasher_ok h
  exact hs.trans ⟨with_hasher_frame (hf _), rfl⟩

theorem get_page_hash_digested (sha256 : Bytes → HashOutput 32) (hasher : Hasher) (data : Bytes)
    (nonce : Option (Vector U8 12)) :
    hasher.digested ⊆ (get_page_hash sha256 hasher data nonce).2.digested := by
  cases nonce <;> exact List.subset_cons_self _ _

theorem load_page_continue_preserves {n : ℕ} : ∀ (fuel k : ℕ)
    (v : MerkleInclusionProofVerifier 32),
    Exec.Preserves (Traffic m) (load_page.continue dev n v k fuel) := by
  intro fuel
  induction fuel with
  | zero =>
      intro k v
      rw [load_page.continue]
      split
      · exact .hang
      · exact .pure _
  | succ fuel ih =>
      intro k v
      rw [load_page.continue]
      split
      · exact (exchange_preserves _).bind fun _ => (Exec.Preserves.ofExcept _ _).bind fun _ =>
          (Exec.Preserves.reject _ _).bind fun _ => (with_hasher_preserves fun _ =>
            MerkleInclusionProofVerifier.feed_all_subset dev.sha256 _ _ _).bind fun _ => ih _ _
      · exact .pure _

theorem commit_page_at_continue_preserves {n : ℕ} : ∀ (fuel k : ℕ)
    (v : MerkleUpdateProofVerifier 32),
    Exec.Preserves (Traffic m) (commit_page_at.continue dev n v k fuel) := by
  intro fuel
  induction fuel with
  | zero =>
      intro k v
      rw [commit_page_at.continue]
      split
      · exact .hang
      · exact .pure _
  | succ fuel ih =>
      intro k v
      rw [commit_page_at.continue]
      split
      · exact (exchange_preserves _).bind fun _ => (Exec.Preserves.ofExcept _ _).bind fun _ =>
          (Exec.Preserves.reject _ _).bind fun _ => (with_hasher_preserves fun _ =>
            MerkleUpdateProofVerifier.feed_all_subset dev.sha256 _ _ _).bind fun _ => ih _ _
      · exact .pure _

/-- A load changes nothing but the traffic, whether it returns or fails. -/
theorem load_page_preserves (page_index : U32) :
    Exec.Preserves (Traffic m) (load_page dev page_index) := by
  refine Exec.Preserves.get.bind fun _ => (exchange_preserves _).bind fun _ =>
    (Exec.Preserves.ofExcept _ _).bind fun r => (with_hasher_preserves fun _ =>
      get_page_hash_digested _ _ _ _).bind fun _ => ?_
  split
  · refine (Exec.Preserves.reject _ _).bind fun _ => (with_hasher_preserves fun _ =>
      MerkleInclusionProofVerifier.feed_all_subset dev.sha256 _ _ _).bind fun _ =>
        Exec.Preserves.get.bind fun _ => (load_page_continue_preserves _ _ _).bind fun _ =>
          (Exec.Preserves.reject _ _).bind fun _ => ?_
    split
    · exact (Exec.Preserves.orElse _ _).bind fun _ => (Exec.Preserves.reject _ _).bind
        fun _ => .pure _
    · exact .pure _
  · exact (Exec.Preserves.reject _ _).bind fun _ => (Exec.Preserves.reject _ _).bind fun _ =>
      (Exec.Preserves.reject _ _).bind fun _ => (Exec.Preserves.reject _ _).bind fun _ =>
        (Exec.Preserves.orElse _ _).bind fun _ => (Exec.Preserves.reject _ _).bind
          fun _ => .pure _

/-- A commit that fails has not replaced the root. -/
theorem commit_page_at_fails {index : ℕ} (h : Exec.Fails (commit_page_at dev index) m m') :
    Traffic m m' := by
  refine Exec.FailsIn.bind .get (fun _ => ?_) (Traffic.refl m) h
  refine Exec.FailsIn.bind (Exec.Preserves.unwrap _) fun _ => ?_
  refine Exec.FailsIn.bind (Exec.Preserves.assert _) fun _ => ?_
  refine Exec.FailsIn.bind (Exec.Preserves.modify fun s hs => ?_) fun _ => ?_
  · exact hs.trans ⟨⟨rfl, rfl, rfl, rfl, rfl, rfl, rfl, List.Subset.refl _,
      List.Subset.refl _⟩, rfl⟩
  refine Exec.FailsIn.bind (Exec.Preserves.orElse _ _) fun _ => ?_
  refine Exec.FailsIn.bind (with_hasher_preserves fun _ => get_page_hash_digested _ _ _ _)
    fun _ => ?_
  refine Exec.FailsIn.bind (Exec.Preserves.assert _) fun _ => ?_
  refine Exec.FailsIn.bind (exchange_preserves _) fun _ => ?_
  refine Exec.FailsIn.bind (Exec.Preserves.ofExcept _ _) fun _ => ?_
  refine Exec.FailsIn.bind (Exec.Preserves.reject _ _) fun _ => ?_
  refine Exec.FailsIn.bind (Exec.Preserves.reject _ _) fun _ => ?_
  refine Exec.FailsIn.bind (with_hasher_preserves fun _ =>
    MerkleUpdateProofVerifier.feed_all_subset dev.sha256 _ _ _) fun _ => ?_
  refine Exec.FailsIn.bind .get fun _ => ?_
  refine Exec.FailsIn.bind (commit_page_at_continue_preserves _ _ _) fun _ => ?_
  exact (Exec.Preserves.reject _ _).failsIn.bind_last fun _ => .modify _

variable [PageEvictionStrategy E]

omit [PageEvictionStrategy E] in
theorem notify_infallible (f : E → Option E) : Exec.Infallible (notify f) :=
  Exec.Infallible.get.bind fun _ => (Exec.Infallible.unwrap _).bind fun _ => .set _

omit [PageEvictionStrategy E] in
theorem get_cached_page_ref_infallible (page_index : U32) (slot : ℕ) :
    Exec.Infallible (get_cached_page_ref (E := E) page_index slot) :=
  (Exec.Infallible.modify _).bind fun _ => Exec.Infallible.get.bind fun _ =>
    (Exec.Infallible.assert _).bind fun _ => .pure _

/-- An eviction fails in its commit. -/
theorem evict_page_fails (h : Exec.Fails (evict_page dev) m m') :
    ∃ eviction_strategy, Traffic { m with eviction_strategy } m' := by
  unfold evict_page at h
  obtain ⟨m₀, m₁, hget, h⟩ := (Exec.bind_fails.mp h).resolve_left (Exec.Infallible.get _ _)
  cases hget
  obtain ⟨⟨i, strategy⟩, m₁, hchoose, h⟩ :=
    (Exec.bind_fails.mp h).resolve_left (Exec.Infallible.unwrap _ _ _)
  obtain ⟨-, rfl⟩ := Exec.unwrap_ok.mp hchoose
  refine ⟨strategy, ?_⟩
  obtain ⟨_, m₂, hset, h⟩ := (Exec.bind_fails.mp h).resolve_left (Exec.Infallible.set _ _ _)
  cases hset
  refine Exec.FailsIn.bind (Exec.Preserves.unwrap _) (fun victim => ?_) (Traffic.refl _) h
  refine Exec.FailsIn.bind_last (fun t ht t' hcommit => ?_) fun _ =>
    (Exec.Infallible.modify _).bind fun _ => (notify_infallible _).bind fun _ => .pure _
  unfold commit_victim at hcommit
  obtain ⟨t₀, t₁, hget, hcommit⟩ :=
    (Exec.bind_fails.mp hcommit).resolve_left (Exec.Infallible.get _ _)
  cases hget
  split at hcommit
  · exact ht.trans (commit_page_at_fails hcommit)
  · exact absurd hcommit (Exec.Infallible.pure _ _ _)

omit [PageEvictionStrategy E] in
theorem load_page_fails {page_index : U32} (h : Exec.Fails (load_page dev page_index) m m') :
    Traffic m m' :=
  (load_page_preserves page_index).failsIn (Traffic.refl m) h

/-- Putting a page in its slot cannot fail once it is there. -/
theorem load_into_fails_load {page_index : U32} {slot : ℕ}
    (h : Exec.Fails (load_into dev page_index slot) m m') :
    Exec.Fails (load_page dev page_index) m m' := by
  rcases Exec.bind_fails.mp h with h | ⟨_, m₁, -, h⟩
  · exact h
  · refine absurd h (Exec.Infallible.bind (Exec.Infallible.modify _) (fun _ => ?_) _ _)
    exact (notify_infallible _).bind fun _ => get_cached_page_ref_infallible _ _

theorem load_into_fails {page_index : U32} {slot : ℕ}
    (h : Exec.Fails (load_into dev page_index slot) m m') : Traffic m m' :=
  load_page_fails (load_into_fails_load h)

/-- A lookup fails in traffic, or when the page should take the place of
another one that was pushed out for it. -/
theorem get_page_fails_cases {page_index : U32}
    (h : Exec.Fails (get_page dev page_index) m m') :
    (∃ eviction_strategy, Traffic { m with eviction_strategy } m') ∨
      ∃ s m₁, (∀ (j : ℕ) (c : CachedPage), m.cached_pages[j]? = some c →
          c.valid = true ∧ c.idx ≠ page_index) ∧
        evict_page dev m = .ok s m₁ ∧ Exec.Fails (load_page dev page_index) m₁ m' := by
  unfold get_page at h
  obtain ⟨m₀, m₁, hget, h⟩ := (Exec.bind_fails.mp h).resolve_left (Exec.Infallible.get _ _)
  cases hget
  cases hfast : m.last_accessed_page.filter (fun last => page_index = last.1) with
  | some last =>
      simp only [hfast] at h
      exact absurd h (get_cached_page_ref_infallible _ _ _ _)
  | none =>
      simp only [hfast] at h
      cases hhit : m.cached_pages.findIdx? (fun c => c.valid && c.idx == page_index) with
      | some i =>
          simp only [hhit] at h
          exact absurd h ((notify_infallible _).bind
            (fun _ => get_cached_page_ref_infallible _ _) _ _)
      | none =>
          simp only [hhit] at h
          cases hfree : m.cached_pages.findIdx? (fun c => !c.valid) with
          | some slot =>
              simp only [hfree] at h
              exact .inl ⟨m.eviction_strategy, load_into_fails h⟩
          | none =>
              simp only [hfree] at h
              rcases Exec.bind_fails.mp h with h | ⟨s, m₁, hevict, hload⟩
              · exact .inl (evict_page_fails h)
              · refine .inr ⟨s, m₁, fun j c hj => ?_, hevict, load_into_fails_load hload⟩
                have hmem := List.mem_of_getElem? hj
                have hv : c.valid = true := by
                  simpa using List.findIdx?_eq_none_iff.mp hfree c hmem
                refine ⟨hv, fun hidx => ?_⟩
                have hno := List.findIdx?_eq_none_iff.mp hhit c hmem
                rw [hv, hidx, beq_self_eq_true] at hno
                cases hno

theorem get_page_fails {page_index : U32} (h : Exec.Fails (get_page dev page_index) m m') :
    (∃ eviction_strategy, Traffic { m with eviction_strategy } m') ∨
      ∃ s m₁, (∀ (j : ℕ) (c : CachedPage), m.cached_pages[j]? = some c → c.valid = true) ∧
        evict_page dev m = .ok s m₁ ∧ Traffic m₁ m' := by
  rcases get_page_fails_cases h with h | ⟨s, m₁, hfull, hevict, hload⟩
  · exact .inl h
  · exact .inr ⟨s, m₁, fun j c hj => (hfull j c hj).1, hevict, load_page_fails hload⟩

/-! ## The pages a memory stands for -/

section
variable (dev : Device) (S : Set Bytes) (key : AesKey)

/-- `m` stands for the pages `cur` below `n`: a writable memory as
`Consistent` says, a read-only one as `Committed` does. -/
inductive Cached (n : ℕ) (cur : U32 → Page) (m : OutsourcedMemory E) : Prop
  | writable {d : ℕ} {leaf₀ leaf : ℕ → HashOutput 32} (hn : n = 2 ^ d)
      (h : Consistent dev.sha256 S key d leaf₀ leaf cur m)
  | readonly {d : ℕ} {leaf : ℕ → HashOutput 32} (hn : n = 2 ^ d)
      (htree : TreeIn dev.sha256 leaf d S) (hcur : cur = openLeaf dev.sha256 S key leaf)
      (h : Committed dev S key d leaf m)

/-- And so does what the last reference refers to, though its slot may be free.
All of it provided that what was hashed is in `S`. -/
structure Shows (n : ℕ) (cur : U32 → Page) (m : OutsourcedMemory E) : Prop where
  cached : (∀ x ∈ m.hasher.digested, x ∈ S) → Cached dev S key n cur m
  last : (∀ x ∈ m.hasher.digested, x ∈ S) → ∀ p s, m.last_accessed_page = some (p, s) →
    p.toNat < n → ∃ c, m.cached_pages[s]? = some c ∧ c.page = cur p

end

variable {S : Set Bytes} {key : AesKey} {n : ℕ} {cur : U32 → Page}

omit [PageEvictionStrategy E] in
/-- A fresh memory stands for what the leaves under its root open to. -/
theorem Shows.new_writable (hS : CollisionFree dev.sha256 S) {d : ℕ} {leaf : ℕ → HashOutput 32}
    {comm : Comm} {max_pages_in_cache : ℕ} {section_kind : SectionKind} {n_pages : U32}
    {aes_ctr : AesCtr} {e : E} {vapp_hash : HashOutput 32} (hkind : section_kind ≠ .code)
    (hn : n_pages_adjusted n_pages.toNat = 2 ^ d) (htree : TreeIn dev.sha256 leaf d S) :
    Shows dev S aes_ctr.key (2 ^ d) (openLeaf dev.sha256 S aes_ctr.key leaf)
      (OutsourcedMemory.new comm max_pages_in_cache false section_kind n_pages
        (rootOf dev.sha256 leaf d) aes_ctr e vapp_hash) :=
  ⟨fun _ => .writable rfl (Consistent.new hS hkind hn htree), fun _ _ _ h => by cases h⟩

omit [PageEvictionStrategy E] in
theorem Shows.of_committed {d : ℕ} {leaf : ℕ → HashOutput 32} (htree : TreeIn dev.sha256 leaf d S)
    (hlast : m.last_accessed_page = none) (h : Committed dev S key d leaf m) :
    Shows dev S key (2 ^ d) (openLeaf dev.sha256 S key leaf) m :=
  ⟨fun _ => .readonly rfl htree rfl h, fun _ p s hl => by rw [hlast] at hl; cases hl⟩

omit [PageEvictionStrategy E] in
theorem Cached.page (hS : CollisionFree dev.sha256 S)
    (hsub : ∀ x ∈ m.hasher.digested, x ∈ S) (h : Cached dev S key n cur m) {j : ℕ}
    {c : CachedPage} (hj : m.cached_pages[j]? = some c) (hv : c.valid = true)
    (hi : c.idx.toNat < n) : c.page = cur c.idx := by
  cases h with
  | writable hn h => exact (h.slot j c hj hv).2.1
  | readonly hn htree hcur h =>
      rw [hcur]
      exact (h.slot hsub j c hj hv (hn ▸ hi)).openLeaf_eq hS

omit [PageEvictionStrategy E] in
/-- The order of eviction and the last access do not matter. -/
theorem Cached.traffic (h : Cached dev S key n cur m) {e : E} {last : Option (U32 × ℕ)}
    (hf : Frame { m with eviction_strategy := e, last_accessed_page := last } m')
    (hroot : m'.merkle_root = m.merkle_root) : Cached dev S key n cur m' := by
  cases h with
  | writable hn h =>
      exact .writable hn (h.congr hf.cached_pages hf.n_pages hf.section_kind hf.is_readonly
        hf.key hroot)
  | readonly hn htree hcur h =>
      refine .readonly hn htree hcur (h.shrink ⟨rfl, hf.n_pages, hf.is_readonly,
        hf.section_kind, rfl, hf.key, hf.vapp_hash, hf.replies, hf.digested⟩ hroot
        fun j c hj _ => ?_)
      rw [← hj]
      exact congrArg (·[j]?) hf.cached_pages.symm

/-- An eviction from a full cache. -/
theorem Cached.evict (hS : CollisionFree dev.sha256 S) {s : ℕ}
    (hsub : ∀ x ∈ m'.hasher.digested, x ∈ S) (h : Cached dev S key n cur m)
    (hall : ∀ (j : ℕ) (c : CachedPage), m.cached_pages[j]? = some c → c.valid = true)
    (hevict : evict_page dev m = .ok s m') : Cached dev S key n cur m' := by
  cases h with
  | writable hn h =>
      obtain ⟨-, c, hc, -, hcons⟩ := evict_page_ok hevict
      obtain ⟨leaf', h'⟩ := hcons hS hsub (hall s c hc) h
      exact .writable hn h'
  | readonly hn htree hcur h => exact .readonly hn htree hcur (h.evict hevict).1

/-- The slot that is given up is free, and keeps its page. -/
theorem evict_page_slots {s : ℕ} (hevict : evict_page dev m = .ok s m') :
    m'.last_accessed_page = m.last_accessed_page ∧ m.hasher.digested ⊆ m'.hasher.digested ∧
      ∃ c : CachedPage, m.cached_pages[s]? = some c ∧
        m'.cached_pages = m.cached_pages.set s { c with valid := false } := by
  obtain ⟨c, m₁, e, e', hc, rfl, hcommit⟩ := evict_page_cases hevict
  have hf : Frame { m with eviction_strategy := e } m₁ := by
    rcases hcommit with ⟨-, hcommit⟩ | ⟨rfl, -⟩
    · obtain ⟨_, _, hf, _⟩ := commit_page_at_ok dev hcommit
      exact hf
    · exact Frame.refl _
  refine ⟨hf.last_accessed_page, hf.digested, c, hc, ?_⟩
  dsimp only
  rw [hf.cached_pages]

theorem Cached.load_into (hS : CollisionFree dev.sha256 S) {page_index : U32} {slot s : ℕ}
    (hsub : ∀ x ∈ m'.hasher.digested, x ∈ S) (h : Cached dev S key n cur m)
    (hi : page_index.toNat < n)
    (hfree : ∀ c, m.cached_pages[slot]? = some c → c.valid = false)
    (hmiss : ∀ (j : ℕ) (c : CachedPage), m.cached_pages[j]? = some c → c.valid = true →
      c.idx ≠ page_index)
    (hload : OutsourcedMemory.load_into dev page_index slot m = .ok s m') :
    Cached dev S key n cur m' := by
  cases h with
  | writable hn h =>
      obtain ⟨-, -, -, -, hcons⟩ := load_into_ok h.section_kind hload
      exact .writable hn (hcons _ hS hsub (hn ▸ hi) hfree hmiss h)
  | readonly hn htree hcur h =>
      exact .readonly hn htree hcur (h.load_into hS htree hload).1

/-- A lookup that returns hands out the page. -/
theorem Shows.get_page (hS : CollisionFree dev.sha256 S) {page_index : U32} {s : ℕ}
    (h : Shows dev S key n cur m) (hi : page_index.toNat < n)
    (hget : OutsourcedMemory.get_page dev page_index m = .ok s m') :
    Shows dev S key n cur m' ∧
      ((∀ x ∈ m'.hasher.digested, x ∈ S) → deref m' s = cur page_index) := by
  have hsub₀ := get_page_digested hget
  -- a page loaded is in its slot, and is the last one accessed
  have hfresh {m₁ : OutsourcedMemory E} (hsub : ∀ x ∈ m'.hasher.digested, x ∈ S)
      (h₁ : Cached dev S key n cur m₁) (hlt : s < m₁.cached_pages.length)
      (hfree : ∀ c, m₁.cached_pages[s]? = some c → c.valid = false)
      (hmiss : ∀ (j : ℕ) (c : CachedPage), m₁.cached_pages[j]? = some c → c.valid = true →
        c.idx ≠ page_index)
      (hload : OutsourcedMemory.load_into dev page_index s m₁ = .ok s m') :
      Cached dev S key n cur m' ∧ m'.last_accessed_page = some (page_index, s) ∧
        ∃ c, m'.cached_pages[s]? = some c ∧ c.page = cur page_index := by
    have h' := h₁.load_into hS hsub hi hfree hmiss hload
    obtain ⟨-, page, page_hash, m₂, e, hpage, rfl⟩ := load_into_cases hload
    obtain ⟨hf, -⟩ := load_page_cases dev hpage
    have hnew : (m₂.cached_pages.set s ⟨page_index, page, page_hash, true, false⟩)[s]? =
        some ⟨page_index, page, page_hash, true, false⟩ :=
      List.getElem?_set_self (by rw [hf.cached_pages]; exact hlt)
    exact ⟨h', rfl, _, hnew, h'.page hS hsub hnew rfl hi⟩
  have hfound (hsub : ∀ x ∈ m'.hasher.digested, x ∈ S) :
      Cached dev S key n cur m' ∧ m'.last_accessed_page = some (page_index, s) ∧
        ∃ c, m'.cached_pages[s]? = some c ∧ c.page = cur page_index := by
    have hsub' : ∀ x ∈ m.hasher.digested, x ∈ S := fun x hx => hsub x (hsub₀ hx)
    have hcached := h.cached hsub'
    cases get_page_cases hget with
    | cached e hm' hs =>
        subst hm'
        refine ⟨hcached.traffic (Frame.refl _) rfl, rfl, ?_⟩
        rcases hs with hlast | ⟨c, hc, hv, rfl⟩
        · exact h.last hsub' _ _ hlast hi
        · exact ⟨c, hc, hcached.page hS hsub' hc hv hi⟩
    | free c hc hv hmiss hload =>
        refine hfresh hsub hcached (List.getElem?_eq_some_iff.mp hc).1 (fun c' hc' => ?_) hmiss
          hload
        rw [hc] at hc'
        cases hc'
        exact hv
    | evicted m₁ hall hmiss hevict hload =>
        obtain ⟨-, -, c, hc, hslots⟩ := evict_page_slots hevict
        have hlt := (List.getElem?_eq_some_iff.mp hc).1
        refine hfresh hsub (hcached.evict hS (fun x hx => hsub x (load_into_digested hload hx))
          hall hevict) (by rw [hslots, List.length_set]; exact hlt) (fun c' hc' => ?_)
          (fun j b hj hv => ?_) hload
        · rw [hslots, List.getElem?_set_self hlt] at hc'
          cases hc'
          rfl
        · rw [hslots, List.getElem?_set] at hj
          split at hj
          · cases hj; cases hv
          · exact hmiss j b hj hv
  refine ⟨⟨fun hsub => (hfound hsub).1, fun hsub p t hl hp => ?_⟩, fun hsub => ?_⟩
  · obtain ⟨-, hlast, hslot⟩ := hfound hsub
    rw [hlast] at hl
    cases hl
    exact hslot
  · obtain ⟨-, -, c, hc, hpage⟩ := hfound hsub
    rw [deref_eq hc, hpage]

/-- A lookup that fails leaves the same pages. -/
theorem Shows.get_page_fails (hS : CollisionFree dev.sha256 S) {page_index : U32}
    (h : Shows dev S key n cur m)
    (hget : Exec.Fails (OutsourcedMemory.get_page dev page_index) m m') :
    Shows dev S key n cur m' := by
  rcases OutsourcedMemory.get_page_fails hget with ⟨e, hf, hroot⟩ | ⟨s, m₁, hall, hevict, hf, hroot⟩
  · have hf' : Frame { m with
        eviction_strategy := e, last_accessed_page := m.last_accessed_page } m' := hf
    have hpages : m'.cached_pages = m.cached_pages := hf.cached_pages
    have hlast : m'.last_accessed_page = m.last_accessed_page := hf.last_accessed_page
    have hsub₀ : m.hasher.digested ⊆ m'.hasher.digested := hf.digested
    refine ⟨fun hsub => (h.cached fun x hx => hsub x (hsub₀ hx)).traffic hf' hroot,
      fun hsub p t hl hp => ?_⟩
    rw [hlast] at hl
    rw [hpages]
    exact h.last (fun x hx => hsub x (hsub₀ hx)) p t hl hp
  · obtain ⟨hlast, hdigested, c, hc, hslots⟩ := evict_page_slots hevict
    have hsub₀ : m.hasher.digested ⊆ m'.hasher.digested :=
      List.Subset.trans hdigested hf.digested
    refine ⟨fun hsub => ?_, fun hsub p t hl hp => ?_⟩
    · have h₁ := (h.cached fun x hx => hsub x (hsub₀ hx)).evict hS
        (fun x hx => hsub x (hf.digested hx)) hall hevict
      have hf' : Frame { m₁ with
          eviction_strategy := m₁.eviction_strategy
          last_accessed_page := m₁.last_accessed_page } m' := hf
      exact h₁.traffic hf' hroot
    · rw [hf.last_accessed_page, hlast] at hl
      obtain ⟨b, hb, hpage⟩ := h.last (fun x hx => hsub x (hsub₀ hx)) p t hl hp
      rw [hf.cached_pages, hslots]
      by_cases hs : s = t
      · subst hs
        obtain rfl : c = b := Option.some.inj (hc.symm.trans hb)
        exact ⟨_, List.getElem?_set_self (List.getElem?_eq_some_iff.mp hc).1, hpage⟩
      · exact ⟨b, by rw [List.getElem?_set_ne hs, hb], hpage⟩

/-- A lookup that returns leaves the last reference valid. -/
theorem LastValid.get_page {page_index : U32} {s : ℕ} (hl : LastValid m)
    (hget : OutsourcedMemory.get_page dev page_index m = .ok s m') :
    LastValid m' ∧ m'.is_readonly = m.is_readonly ∧
      ∃ c, m'.cached_pages[s]? = some c ∧ c.valid = true ∧ c.idx = page_index := by
  have hfresh {m₁ : OutsourcedMemory E} (hlt : s < m₁.cached_pages.length)
      (hload : OutsourcedMemory.load_into dev page_index s m₁ = .ok s m') :
      LastValid m' ∧ m'.is_readonly = m₁.is_readonly ∧
        ∃ c, m'.cached_pages[s]? = some c ∧ c.valid = true ∧ c.idx = page_index := by
    obtain ⟨-, page, page_hash, m₂, e, hpage, rfl⟩ := load_into_cases hload
    obtain ⟨hf, -⟩ := load_page_cases dev hpage
    have hnew : (m₂.cached_pages.set s ⟨page_index, page, page_hash, true, false⟩)[s]? =
        some ⟨page_index, page, page_hash, true, false⟩ :=
      List.getElem?_set_self (by rw [hf.cached_pages]; exact hlt)
    exact ⟨.of_last rfl hnew rfl rfl, hf.is_readonly, _, hnew, rfl, rfl⟩
  cases get_page_cases hget with
  | cached e hm' hs =>
      subst hm'
      obtain ⟨c, hc, hv, hidx⟩ := hs.elim (hl page_index s) id
      exact ⟨.of_last rfl hc hv hidx, rfl, c, hc, hv, hidx⟩
  | free c hc hv hmiss hload => exact hfresh (List.getElem?_eq_some_iff.mp hc).1 hload
  | evicted m₁ hall hmiss hevict hload =>
      obtain ⟨-, -, c, hc, hslots⟩ := evict_page_slots hevict
      obtain ⟨hl', hro, hslot⟩ := hfresh (by
        rw [hslots, List.length_set]
        exact (List.getElem?_eq_some_iff.mp hc).1) hload
      refine ⟨hl', hro.trans ?_, hslot⟩
      obtain ⟨b, m₂, e, e', -, rfl, hcommit⟩ := evict_page_cases hevict
      rcases hcommit with ⟨-, hcommit⟩ | ⟨rfl, -⟩
      · obtain ⟨_, _, hf, _⟩ := commit_page_at_ok dev hcommit
        exact hf.is_readonly
      · rfl

omit [PageEvictionStrategy E] in
/-- A page of a writable memory is changed in its slot. -/
theorem Shows.write (hS : CollisionFree dev.sha256 S) {s : ℕ} {c : CachedPage}
    (h : Shows dev S key n cur m) (hl : LastValid m) (hw : m.is_readonly = false)
    (hc : m.cached_pages[s]? = some c) (hv : c.valid = true) (page : Page) :
    Shows dev S key n (Function.update cur c.idx page) (m.deref_mut s page) := by
  have hcached (hsub : ∀ x ∈ m.hasher.digested, x ∈ S) :
      Cached dev S key n (Function.update cur c.idx page) (m.deref_mut s page) := by
    cases h.cached hsub with
    | writable hn hcons => exact .writable hn (hcons.deref_mut hc hv _)
    | readonly hn htree hcur hcom =>
        have hro := hcom.readonly
        rw [hw] at hro
        cases hro
  refine ⟨hcached, fun hsub p t hlast hp => ?_⟩
  obtain ⟨b, hb, hvb, rfl⟩ := hl.deref_mut hc page p t hlast
  exact ⟨b, hb, (hcached hsub).page hS hsub hb hvb hp⟩

/-- A page of a writable memory is changed through the reference to it. -/
theorem Shows.deref_mut (hS : CollisionFree dev.sha256 S) {page_index : U32} {s : ℕ}
    (h : Shows dev S key n cur m) (hl : LastValid m) (hw : m.is_readonly = false)
    (hi : page_index.toNat < n) (hget : OutsourcedMemory.get_page dev page_index m = .ok s m')
    (f : Page → Page) :
    Shows dev S key n (Function.update cur page_index (f (cur page_index)))
      (m'.deref_mut s (f (m'.deref s))) := by
  obtain ⟨h', hpage⟩ := h.get_page hS hi hget
  obtain ⟨hl', hro, c, hc, hv, rfl⟩ := hl.get_page hget
  have hwritten := h'.write hS hl' (hro.trans hw) hc hv (f (m'.deref s))
  have heq (hsub : ∀ x ∈ m'.hasher.digested, x ∈ S) :
      Function.update cur c.idx (f (m'.deref s)) = Function.update cur c.idx (f (cur c.idx)) := by
    rw [hpage hsub]
  exact ⟨fun hsub => heq hsub ▸ hwritten.cached hsub,
    fun hsub => heq hsub ▸ hwritten.last hsub⟩

end OutsourcedMemory

end Vanadium
