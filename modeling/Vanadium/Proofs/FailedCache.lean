import Vanadium.Proofs.FailedLookup

/-!
# The cache after lookups that failed

A lookup can fail at any step, and the memory is used again afterwards. What
has to hold of the cache then is that no page is in two slots, and that the
page last accessed is where the memory remembers it to be: a second access to
it goes there without a look at the slot.

Almost every failure leaves both as they were. The exception is a page that
does not come after another was pushed out for it, when that other page was the
one last accessed. The memory then remembers a free slot. It still holds the
page pushed out, so what is read there is right; but the slot is the first to
be filled again, and nothing that is written there is committed.
-/

namespace Vanadium

open Lib

namespace OutsourcedMemory

/-! ## A cache in order -/

/-- No page is in two slots. -/
def OnePlace (slots : List CachedPage) : Prop :=
  ∀ (j j' : ℕ) (c c' : CachedPage), slots[j]? = some c → slots[j']? = some c' →
    c.valid = true → c'.valid = true → c.idx = c'.idx → j = j'

section
variable {slots : List CachedPage} {s : ℕ}

/-- A page that is in no slot gets one. -/
theorem OnePlace.set_new (h : OnePlace slots) {new : CachedPage}
    (hmiss : ∀ (j : ℕ) (c : CachedPage), slots[j]? = some c → c.valid = true →
      c.idx ≠ new.idx) : OnePlace (slots.set s new) := by
  intro j j' c c' hj hj' hv hv' hidx
  rw [List.getElem?_set] at hj hj'
  split at hj
  · next hs =>
      split at hj'
      · next hs' => rw [← hs, ← hs']
      · split at hj
        · cases hj
          exact absurd hidx.symm (hmiss j' c' hj' hv')
        · cases hj
  · split at hj'
    · split at hj'
      · cases hj'
        exact absurd hidx (hmiss j c hj hv)
      · cases hj'
    · exact h j j' c c' hj hj' hv hv' hidx

/-- A slot is given up. -/
theorem OnePlace.set_invalid (h : OnePlace slots) (c : CachedPage) :
    OnePlace (slots.set s { c with valid := false }) := by
  have hkept {j : ℕ} {b : CachedPage}
      (hj : (slots.set s { c with valid := false })[j]? = some b) (hv : b.valid = true) :
      slots[j]? = some b := by
    rw [List.getElem?_set] at hj
    split at hj
    · split at hj
      · cases hj
        cases hv
      · cases hj
    · exact hj
  intro j j' b b' hj hj' hv hv' hidx
  exact h j j' b b' (hkept hj hv) (hkept hj' hv') hv hv' hidx

end

variable {E : Type} {dev : Device} {m m' : OutsourcedMemory E}

structure CacheOk (m : OutsourcedMemory E) : Prop where
  last : LastValid m
  unique : OnePlace m.cached_pages

/-- It is about the slots and the last access only. -/
theorem CacheOk.congr (h : CacheOk m) (hslots : m'.cached_pages = m.cached_pages)
    (hlast : m'.last_accessed_page = m.last_accessed_page) : CacheOk m' := by
  refine ⟨fun p s hps => ?_, by rw [hslots]; exact h.unique⟩
  rw [hlast] at hps
  rw [hslots]
  exact h.last p s hps

theorem CacheOk.deref_mut (h : CacheOk m) {s : ℕ} {c : CachedPage}
    (hs : m.cached_pages[s]? = some c) (page : Page) : CacheOk (m.deref_mut s page) := by
  refine ⟨h.last.deref_mut hs page, fun j j' b b' hj hj' hv hv' hidx => ?_⟩
  have hkept {j : ℕ} {b : CachedPage} (hj : (m.deref_mut s page).cached_pages[j]? = some b) :
      ∃ b₀, m.cached_pages[j]? = some b₀ ∧ b₀.valid = b.valid ∧ b₀.idx = b.idx := by
    rw [deref_mut_getElem? hs] at hj
    split at hj
    · next heq =>
        cases hj
        exact ⟨c, heq ▸ hs, rfl, rfl⟩
    · exact ⟨b, hj, rfl, rfl⟩
  obtain ⟨c₁, h₁, hv₁, hi₁⟩ := hkept hj
  obtain ⟨c₂, h₂, hv₂, hi₂⟩ := hkept hj'
  exact h.unique j j' c₁ c₂ h₁ h₂ (hv₁.trans hv) (hv₂.trans hv') (by rw [hi₁, hi₂, hidx])

variable [PageEvictionStrategy E]

/-- A lookup that returns keeps the cache in order, and its page is in a slot. -/
theorem CacheOk.get_page {page_index : U32} {s : ℕ} (h : CacheOk m)
    (hget : OutsourcedMemory.get_page dev page_index m = .ok s m') :
    CacheOk m' ∧ ∃ c, m'.cached_pages[s]? = some c ∧ c.valid = true ∧ c.idx = page_index := by
  obtain ⟨hlast, -, hslot⟩ := h.last.get_page hget
  refine ⟨⟨hlast, ?_⟩, hslot⟩
  cases get_page_cases hget with
  | cached e hm' hs =>
      subst hm'
      exact h.unique
  | free c hc hv hmiss hload =>
      obtain ⟨-, page, page_hash, m₁, e, hpage, rfl⟩ := load_into_cases hload
      obtain ⟨hf, -⟩ := load_page_cases dev hpage
      show OnePlace (m₁.cached_pages.set s _)
      rw [hf.cached_pages]
      exact h.unique.set_new hmiss
  | evicted m₁ hall hmiss hevict hload =>
      obtain ⟨-, page, page_hash, m₂, e, hpage, rfl⟩ := load_into_cases hload
      obtain ⟨hf, -⟩ := load_page_cases dev hpage
      obtain ⟨-, -, c, -, hslots⟩ := evict_page_slots hevict
      show OnePlace (m₂.cached_pages.set s _)
      rw [hf.cached_pages, hslots, List.set_set]
      exact h.unique.set_new hmiss

/-! ## The failure that strands a reference -/

/-- The requested page is in no slot of a full cache, the page pushed out for it
is the one last accessed, and then the requested one does not come. -/
def Strands (dev : Device) (m : OutsourcedMemory E) (page_index : U32) : Prop :=
  (∀ (j : ℕ) (c : CachedPage), m.cached_pages[j]? = some c →
    c.valid = true ∧ c.idx ≠ page_index) ∧
  ∃ p s m₁ m₂, m.last_accessed_page = some (p, s) ∧ evict_page dev m = .ok s m₁ ∧
    Exec.Fails (load_page dev page_index) m₁ m₂

theorem get_page_full {page_index : U32} (hlast : LastValid m)
    (hfull : ∀ (j : ℕ) (c : CachedPage), m.cached_pages[j]? = some c →
      c.valid = true ∧ c.idx ≠ page_index) : get_page dev page_index m =
    (evict_page dev >>= fun slot => load_into dev page_index slot) m := by
  have hfast : m.last_accessed_page.filter (fun last => page_index = last.1) = none := by
    refine Option.filter_eq_none_iff.mpr fun ⟨p, s⟩ hps hp => ?_
    obtain ⟨c, hc, -, hidx⟩ := hlast p s hps
    exact (hfull s c hc).2 (hidx.trans (of_decide_eq_true hp).symm)
  have hhit : m.cached_pages.findIdx? (fun c => c.valid && c.idx == page_index) = none := by
    refine List.findIdx?_eq_none_iff.mpr fun c hc => ?_
    obtain ⟨j, hj⟩ := List.mem_iff_getElem?.mp hc
    rw [beq_eq_false_iff_ne.mpr (hfull j c hj).2, Bool.and_false]
  have hfree : m.cached_pages.findIdx? (fun c => !c.valid) = none := by
    refine List.findIdx?_eq_none_iff.mpr fun c hc => ?_
    obtain ⟨j, hj⟩ := List.mem_iff_getElem?.mp hc
    rw [(hfull j c hj).1]
    rfl
  unfold get_page
  rw [Exec.get_bind]
  simp only [hfast, hhit, hfree]

/-- That failure leaves the memory with a free slot for the last access. -/
theorem Strands.not_lastValid {page_index : U32} (hlast : LastValid m)
    (h : Strands dev m page_index) (hget : Exec.Fails (get_page dev page_index) m m') :
    ¬ LastValid m' := by
  obtain ⟨hfull, p, s, m₁, m₂, hps, hevict, hload⟩ := h
  unfold Exec.Fails at hget
  rw [get_page_full hlast hfull] at hget
  rcases Exec.bind_fails.mp hget with hget | ⟨s', m₁', hevict', hload'⟩
  · exact absurd hget (Exec.not_fails_ok hevict)
  rw [hevict] at hevict'
  cases hevict'
  obtain ⟨hf, -⟩ := load_into_fails hload'
  obtain ⟨hlast₁, -, c, hc, hslots⟩ := evict_page_slots hevict
  intro hvalid
  obtain ⟨b, hb, hv, -⟩ := hvalid p s (by rw [hf.last_accessed_page, hlast₁, hps])
  rw [hf.cached_pages, hslots, List.getElem?_set_self (List.getElem?_eq_some_iff.mp hc).1] at hb
  cases hb
  cases hv

/-- Every other failure leaves the cache in order. -/
theorem CacheOk.get_page_fails_iff {page_index : U32} (h : CacheOk m)
    (hget : Exec.Fails (OutsourcedMemory.get_page dev page_index) m m') :
    CacheOk m' ↔ ¬ Strands dev m page_index := by
  refine ⟨fun h' hs => hs.not_lastValid h.last hget h'.last, fun hs => ?_⟩
  rcases get_page_fails_cases hget with ⟨e, hf, -⟩ | ⟨s, m₁, hfull, hevict, hload⟩
  · exact h.congr hf.cached_pages hf.last_accessed_page
  · obtain ⟨hf, -⟩ := load_page_fails hload
    obtain ⟨hlast, -, c, hc, hslots⟩ := evict_page_slots hevict
    refine ⟨fun p t hpt => ?_, ?_⟩
    · rw [hf.last_accessed_page, hlast] at hpt
      have hne : s ≠ t := by
        rintro rfl
        exact hs ⟨hfull, p, s, m₁, m', hpt, hevict, hload⟩
      obtain ⟨b, hb, hv, hidx⟩ := h.last p t hpt
      exact ⟨b, by rw [hf.cached_pages, hslots, List.getElem?_set_ne hne, hb], hv, hidx⟩
    · rw [hf.cached_pages, hslots]
      exact h.unique.set_invalid c

/-! ## Sequences of calls -/

/-- The AES state is shared with another section, which may have used it. -/
def with_nonce (m : OutsourcedMemory E) (nonce : Vector U8 12) : OutsourcedMemory E :=
  { m with aes_ctr := { m.aes_ctr with nonce } }

/-- Calls of `get_page`, last first, from a memory `m₀` that holds the pages
`cur₀` to one that should hold `cur`. Those that return are followed by writes
through the reference, if the memory can be written to; those that fail had the
property `P` of the memory before and of the page. -/
inductive Calls (dev : Device) (P : OutsourcedMemory E → U32 → Prop) (m₀ : OutsourcedMemory E)
    (cur₀ : U32 → Page) : List U32 → OutsourcedMemory E → (U32 → Page) → Prop
  | start : Calls dev P m₀ cur₀ [] m₀ cur₀
  | returned {calls : List U32} {m m' : OutsourcedMemory E} {cur : U32 → Page}
      (h : Calls dev P m₀ cur₀ calls m cur) (nonce : Vector U8 12) {page_index : U32} {s : ℕ}
      (hget : get_page dev page_index (m.with_nonce nonce) = .ok s m') (writes : List Page)
      (hwrites : m.is_readonly = true → writes = []) :
      Calls dev P m₀ cur₀ (page_index :: calls)
        (writes.foldl (fun m page => m.deref_mut s page) m')
        (Function.update cur page_index (writes.getLastD (cur page_index)))
  | failed {calls : List U32} {m m' : OutsourcedMemory E} {cur : U32 → Page}
      (h : Calls dev P m₀ cur₀ calls m cur) (nonce : Vector U8 12) {page_index : U32}
      (hget : Exec.Fails (get_page dev page_index) (m.with_nonce nonce) m')
      (hP : P (m.with_nonce nonce) page_index) :
      Calls dev P m₀ cur₀ (page_index :: calls) m' cur

variable {S : Set Bytes} {key : AesKey} {n : ℕ} {cur : U32 → Page}

omit [PageEvictionStrategy E] in
theorem Shows.with_nonce (h : Shows dev S key n cur m) (nonce : Vector U8 12) :
    Shows dev S key n cur (m.with_nonce nonce) := by
  have hf : Frame { m with
      eviction_strategy := m.eviction_strategy
      last_accessed_page := m.last_accessed_page } (m.with_nonce nonce) :=
    ⟨rfl, rfl, rfl, rfl, rfl, rfl, rfl, List.Subset.refl _, List.Subset.refl _⟩
  exact ⟨fun hsub => (h.cached hsub).traffic hf rfl, h.last⟩

omit [PageEvictionStrategy E] in
/-- Writes through a reference to a valid slot: the last one counts. -/
theorem writes_inOrder (hS : CollisionFree dev.sha256 S) (writes : List Page) :
    ∀ {m : OutsourcedMemory E} {cur : U32 → Page} {s : ℕ} {c : CachedPage},
      m.cached_pages[s]? = some c → c.valid = true → (writes ≠ [] → m.is_readonly = false) →
      CacheOk m →
      CacheOk (writes.foldl (fun m page => m.deref_mut s page) m) ∧
        (Shows dev S key n cur m → Shows dev S key n
          (Function.update cur c.idx (writes.getLastD (cur c.idx)))
          (writes.foldl (fun m page => m.deref_mut s page) m)) := by
  induction writes with
  | nil =>
      intro m cur s c _ _ _ hok
      rw [List.getLastD_nil, Function.update_eq_self]
      exact ⟨hok, id⟩
  | cons page writes ih =>
      intro m cur s c hs hv hw hok
      have hget : (m.deref_mut s page).cached_pages[s]? =
          some { c with page, modified := true } := by
        rw [deref_mut_getElem? hs, if_pos rfl]
      have hro : m.is_readonly = false := hw (List.cons_ne_nil _ _)
      obtain ⟨hok', hshows⟩ := @ih (m.deref_mut s page) (Function.update cur c.idx page) s _ hget
        hv (fun _ => hro) (hok.deref_mut hs page)
      refine ⟨hok', fun h => ?_⟩
      have := hshows (h.write hS hok.last hro hs hv page)
      rwa [Function.update_self, Function.update_idem, ← List.getLastD_cons] at this

/-- What holds after every call. -/
theorem Calls.inOrder {P : OutsourcedMemory E → U32 → Prop} {m₀ : OutsourcedMemory E}
    {cur₀ : U32 → Page} {calls : List U32}
    (hP : ∀ m page_index, P m page_index → ¬ Strands dev m page_index)
    (hS : CollisionFree dev.sha256 S) (hok : CacheOk m₀) (hshows : Shows dev S key n cur₀ m₀)
    (h : Calls dev P m₀ cur₀ calls m cur) :
    CacheOk m ∧ ((∀ i ∈ calls, i.toNat < n) → Shows dev S key n cur m) := by
  induction h with
  | start => exact ⟨hok, fun _ => hshows⟩
  | @returned calls m m' cur h nonce page_index s hget writes hwrites ih =>
      obtain ⟨hok₁, hshows₁⟩ := ih
      have hok₂ : CacheOk (m.with_nonce nonce) := hok₁.congr rfl rfl
      obtain ⟨hok', c, hc, hv, rfl⟩ := hok₂.get_page hget
      have hro : m'.is_readonly = m.is_readonly := (hok₂.last.get_page hget).2.1
      have hw : writes ≠ [] → m'.is_readonly = false := by
        intro hne
        rw [hro, ← Bool.not_eq_true]
        exact fun htrue => hne (hwrites htrue)
      obtain ⟨hok'', hshows'⟩ := writes_inOrder hS writes hc hv hw hok'
      refine ⟨hok'', fun hrange => hshows' ?_⟩
      obtain ⟨hi, hrange⟩ := List.forall_mem_cons.mp hrange
      exact (((hshows₁ hrange).with_nonce nonce).get_page hS hi hget).1
  | @failed calls m m' cur h nonce page_index hget hfail ih =>
      obtain ⟨hok₁, hshows₁⟩ := ih
      have hok₂ : CacheOk (m.with_nonce nonce) := hok₁.congr rfl rfl
      refine ⟨(hok₂.get_page_fails_iff hget).mpr (hP _ _ hfail), fun hrange => ?_⟩
      obtain ⟨-, hrange⟩ := List.forall_mem_cons.mp hrange
      exact ((hshows₁ hrange).with_nonce nonce).get_page_fails hS hget

omit [PageEvictionStrategy E] in
/-- A fresh cache is empty. -/
theorem CacheOk.new {comm : Comm} {max_pages_in_cache : ℕ} {is_readonly : Bool}
    {section_kind : SectionKind} {n_pages : U32} {merkle_root : HashOutput 32} {aes_ctr : AesCtr}
    {eviction_strategy : E} {vapp_hash : HashOutput 32} :
    CacheOk (OutsourcedMemory.new comm max_pages_in_cache is_readonly section_kind n_pages
      merkle_root aes_ctr eviction_strategy vapp_hash) := by
  refine ⟨fun p s hps => (nomatch hps), fun j j' c c' hj _ hv _ _ => ?_⟩
  rw [OutsourcedMemory.new, List.getElem?_replicate] at hj
  split at hj
  · cases hj
    cases hv
  · cases hj

end OutsourcedMemory

/-- A memory that was made to hold the pages `cur₀`, and calls of which none
strands the last reference. The cache is then in order, whatever failed; and
what the next call returns is a valid slot with the page asked for, as the calls
so far have left it. A failure that does strand the reference leaves the cache
in disorder. -/
theorem cache_stays_in_order {E : Type} [PageEvictionStrategy E] {dev : Device} {S : Set Bytes}
    {key : AesKey} {n : ℕ} {comm : Comm} {max_pages_in_cache : ℕ} {is_readonly : Bool}
    {section_kind : SectionKind} {n_pages : U32} {merkle_root : HashOutput 32} {aes_ctr : AesCtr}
    {eviction_strategy : E} {vapp_hash : HashOutput 32} {cur₀ cur : U32 → Page}
    {calls : List U32} {m : OutsourcedMemory E} (hS : CollisionFree dev.sha256 S)
    (hshows : OutsourcedMemory.Shows dev S key n cur₀
      (OutsourcedMemory.new comm max_pages_in_cache is_readonly section_kind n_pages merkle_root
        aes_ctr eviction_strategy vapp_hash))
    (hcalls : OutsourcedMemory.Calls dev (fun m p => ¬ OutsourcedMemory.Strands dev m p)
      (OutsourcedMemory.new comm max_pages_in_cache is_readonly section_kind n_pages merkle_root
        aes_ctr eviction_strategy vapp_hash) cur₀ calls m cur) :
    m.LastValid ∧ OutsourcedMemory.OnePlace m.cached_pages ∧
      (∀ (nonce : Vector U8 12) (p : U32) (s : ℕ) (m' : OutsourcedMemory E),
        OutsourcedMemory.get_page dev p (m.with_nonce nonce) = .ok s m' →
        (∃ c, m'.cached_pages[s]? = some c ∧ c.valid = true ∧ c.idx = p) ∧
          ((∀ i ∈ p :: calls, i.toNat < n) → (∀ x ∈ m'.hasher.digested, x ∈ S) →
            m'.deref s = cur p)) ∧
      ∀ (nonce : Vector U8 12) (p : U32) (m' : OutsourcedMemory E),
        Exec.Fails (OutsourcedMemory.get_page dev p) (m.with_nonce nonce) m' →
        OutsourcedMemory.Strands dev (m.with_nonce nonce) p → ¬ m'.LastValid := by
  obtain ⟨hok, hcur⟩ := hcalls.inOrder (fun _ _ h => h) hS .new hshows
  have hnonce (nonce : Vector U8 12) : OutsourcedMemory.CacheOk (m.with_nonce nonce) :=
    hok.congr rfl rfl
  refine ⟨hok.last, hok.unique, fun nonce p s m' hget => ⟨?_, fun hrange hsub => ?_⟩,
    fun nonce p m' hget hs => hs.not_lastValid (hnonce nonce).last hget⟩
  · exact ((hnonce nonce).get_page hget).2
  · obtain ⟨hi, hrange⟩ := List.forall_mem_cons.mp hrange
    exact (((hcur hrange).with_nonce nonce).get_page hS hi hget).2 hsub

/-! ## A reference that is stranded

The code of a V-App of 25 pages, in the cache of 24 slots that the VM has for
code, under 2Q. The first 24 pages are loaded, and the first is used again: it
stays the oldest of its queue, and is pushed out for the last page, which the
host does not send. -/

namespace Stranded

def device : Device where
  sha256 _ := Vector.replicate 32 0
  hmac_sha256 _ _ := some (Vector.replicate 32 0)
  auth_key := Vector.replicate 32 0

/-- A page of zeros, with a tag. -/
def reply : Bytes :=
  List.replicate PAGE_SIZE 0 ++ [1, 1, 0] ++ List.replicate 12 0 ++ [1] ++ List.replicate 32 0

def host : Comm where
  replies := List.replicate 24 (.ok reply) ++ [.ok []]

def aes : AesKey where
  encrypt_block _ := none

def accesses : List Access :=
  (List.range 24 ++ [0]).map fun i => ⟨Vector.replicate 12 0, BitVec.ofNat 32 i, []⟩

def memory (e : TwoQEvictionStrategy) : OutsourcedMemory TwoQEvictionStrategy :=
  OutsourcedMemory.new host 24 true .code 25 (Vector.replicate 32 0) (AesCtr.new aes) e
    (Vector.replicate 32 0)

/-- The accesses return; the next page does not come; and the first page is
handed out once more, from a slot that is free. -/
def strands : Bool :=
  match TwoQEvictionStrategy.new 24 (24 / 4) (24 / 2) with
  | none => false
  | some e =>
      match OutsourcedMemory.run device accesses (memory e) with
      | .ok _ m =>
          match OutsourcedMemory.get_page device 24 m with
          | .err _ m' =>
              match OutsourcedMemory.get_page device 0 m' with
              | .ok s m'' => (m''.cached_pages[s]?.map CachedPage.valid) == some false
              | _ => false
          | _ => false
      | _ => false

end Stranded

theorem last_access_stranded : ∃ e pages m m' m'' error s c,
    TwoQEvictionStrategy.new 24 (24 / 4) (24 / 2) = some e ∧
    OutsourcedMemory.run Stranded.device Stranded.accesses (Stranded.memory e) = .ok pages m ∧
    OutsourcedMemory.get_page Stranded.device 24 m = .err error m' ∧ ¬ m'.LastValid ∧
    OutsourcedMemory.get_page Stranded.device 0 m' = .ok s m'' ∧
    m''.cached_pages[s]? = some c ∧ c.valid = false := by
  have hstrands : Stranded.strands = true := by decide +kernel
  unfold Stranded.strands at hstrands
  split at hstrands
  · cases hstrands
  rename_i e he
  split at hstrands
  on_goal 2 => cases hstrands
  rename_i pages m hrun
  split at hstrands
  on_goal 2 => cases hstrands
  rename_i error m' hfails
  split at hstrands
  on_goal 2 => cases hstrands
  rename_i s m'' hget
  obtain ⟨c, hc, hv⟩ := Option.map_eq_some_iff.mp (beq_iff_eq.mp hstrands)
  refine ⟨e, pages, m, m', m'', error, s, c, he, hrun, hfails, fun hvalid => ?_, hget, hc, hv⟩
  obtain ⟨-, -, b, hb, hvb, -⟩ := hvalid.get_page hget
  rw [hc] at hb
  cases hb
  rw [hv] at hvb
  cases hvb

/-- Two pages as committed, from a host that sends neither. -/
def silent : OutsourcedMemory LruEvictionStrategy :=
  OutsourcedMemory.new { TwoPages.host with replies := [.ok []] } 1 false .data 2
    (rootOf TwoPages.device.sha256 TwoPages.leaf 1) (AesCtr.new TwoPages.aes)
    (LruEvictionStrategy.new 1) (Vector.replicate 32 0)

def silent_fails : Bool :=
  match OutsourcedMemory.get_page TwoPages.device 0 silent with
  | .err _ _ => true
  | _ => false

theorem cache_stays_in_order_silent : ∃ m error,
    OutsourcedMemory.get_page TwoPages.device 0 silent = .err error m ∧ m.LastValid ∧
      OutsourcedMemory.OnePlace m.cached_pages := by
  have hfails : silent_fails = true := by decide +kernel
  unfold silent_fails at hfails
  split at hfails
  on_goal 2 => cases hfails
  rename_i error m hget
  have hfree : ¬ OutsourcedMemory.Strands TwoPages.device silent 0 := by
    rintro ⟨hfull, -⟩
    exact absurd (hfull 0 _ rfl).1 Bool.false_ne_true
  have htree : TreeIn TwoPages.device.sha256 TwoPages.leaf 1 {x | x ∈ TwoPages.messages} := by
    intro p hp
    obtain ⟨k, i, hk, hi, rfl⟩ := hp
    obtain rfl : k = 0 := by omega
    obtain rfl : i = 0 := by simpa using hi
    decide +kernel
  have hn : OutsourcedMemory.n_pages_adjusted (2 : U32).toNat = 2 ^ 1 := by decide +kernel
  have hshows : OutsourcedMemory.Shows _ _ _ _ _ silent :=
    .new_writable TwoPages.collisionFree (by decide : SectionKind.data ≠ .code) hn htree
  have hcalls (cur : U32 → Page) : OutsourcedMemory.Calls TwoPages.device
      (fun m p => ¬ OutsourcedMemory.Strands TwoPages.device m p) silent cur [0] m cur :=
    .failed .start silent.aes_ctr.nonce (.of_err hget) hfree
  obtain ⟨hlast, hplace, -⟩ := cache_stays_in_order TwoPages.collisionFree hshows (hcalls _)
  exact ⟨m, error, hget, hlast, hplace⟩

end Vanadium
