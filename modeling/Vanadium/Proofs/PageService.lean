import Vanadium.Proofs.PageDialogue
import Vanadium.Proofs.PageStore

/-!
# The honest client serves the pages

As long as the device's root is the root of the client's tree, and the slots
of the cache remember the leaves they were loaded from, every page the device
asks for is accepted, and so is every page it commits, with the new root. Both
keep that relation between the two, so it holds along every run.
-/

namespace Vanadium

open Lib Lib.Exec Dialogue

/-! ## Answering -/

namespace Client.VAppEngine

variable {sha256 : Bytes → HashOutput 32} {e e₁ e' : VAppEngine} {d d' : Dialogue}
  {next : StatusWord × Bytes}

/-- The client answers a request for a page, or a commit. -/
inductive Serves (sha256 : Bytes → HashOutput 32) (e : VAppEngine) : Dialogue → VAppEngine → Prop
  | getPage {message answer : Bytes} {rest : Dialogue} {e' : VAppEngine} (hne : message ≠ [])
      (hcode : ClientCommandCode.try_from (message.getD 0 0) = some .getPage)
      (h : ∀ next, Talks (process_get_page message) e (served ((message, answer) :: rest) next)
        next e') :
      Serves sha256 e ((message, answer) :: rest) e'
  | commitPage {message answer : Bytes} {rest : Dialogue} {e' : VAppEngine} (hne : message ≠ [])
      (hcode : ClientCommandCode.try_from (message.getD 0 0) = some .commitPage)
      (h : ∀ next, Talks (process_commit_page sha256 message) e
        (served ((message, answer) :: rest) next) next e') :
      Serves sha256 e ((message, answer) :: rest) e'

/-- The client answers one request after the other. -/
inductive ServesAll (sha256 : Bytes → HashOutput 32) :
    VAppEngine → Dialogue → VAppEngine → Prop
  | nil (e : VAppEngine) : ServesAll sha256 e [] e
  | cons {e e₁ e' : VAppEngine} {d d' : Dialogue} (h : Serves sha256 e d e₁)
      (h' : ServesAll sha256 e₁ d' e') : ServesAll sha256 e (d ++ d') e'

theorem Serves.all (h : Serves sha256 e d e') : ServesAll sha256 e d e' := by
  have := ServesAll.cons h (.nil e')
  rwa [List.append_nil] at this

theorem ServesAll.append (h : ServesAll sha256 e d e₁) (h' : ServesAll sha256 e₁ d' e') :
    ServesAll sha256 e (d ++ d') e' := by
  induction h with
  | nil e => exact h'
  | cons h _ ih =>
      rw [List.append_assoc]
      exact .cons h (ih h')

/-- What is not a request for the pager. -/
def Foreign (r : StatusWord × Bytes) : Prop :=
  r.1 ≠ .interruptedExecution ∨ r.2 = [] ∨ ∃ c, ClientCommandCode.try_from (r.2.getD 0 0) = some c ∧
    c ≠ .getPage ∧ c ≠ .commitPage

theorem process_page_requests_foreign {fuel : ℕ} (h : Foreign next) :
    Talks (process_page_requests sha256 (fuel + 1) next) e [] next e := by
  obtain ⟨status, result⟩ := next
  rw [process_page_requests]
  by_cases hstop : status ≠ .interruptedExecution ∨ result = []
  · rw [if_pos hstop]
    exact .pure _
  · rw [if_neg hstop]
    rw [not_or] at hstop
    obtain ⟨c, hc, hget, hcommit⟩ := (h.resolve_left hstop.1).resolve_left hstop.2
    refine .orElse_bind hc ?_
    cases c <;> first | exact absurd rfl hget | exact absurd rfl hcommit | exact .pure _

/-- The requests are served up to the message that is none. -/
theorem ServesAll.process_page_requests (h : ServesAll sha256 e d e') (hnext : Foreign next) :
    ∀ {fuel : ℕ}, d.length < fuel →
      Talks (process_page_requests sha256 fuel (heard d next)) e (served d next) next e' := by
  induction h with
  | nil e =>
      intro fuel hfuel
      obtain ⟨fuel, rfl⟩ : ∃ n, fuel = n + 1 := ⟨fuel - 1, by simp at hfuel; omega⟩
      exact process_page_requests_foreign hnext
  | cons h _ ih =>
      intro fuel hfuel
      rw [List.length_append] at hfuel
      rw [heard_append, served_append]
      obtain ⟨fuel, rfl⟩ : ∃ n, fuel = n + 1 := ⟨fuel - 1, by omega⟩
      cases h with
      | getPage hne hcode h =>
          rw [List.length_cons] at hfuel
          rw [heard, VAppEngine.process_page_requests, if_neg (by simp [hne])]
          exact .orElse_bind hcode ((h _).bind (ih (by omega)))
      | commitPage hne hcode h =>
          rw [List.length_cons] at hfuel
          rw [heard, VAppEngine.process_page_requests, if_neg (by simp [hne])]
          exact .orElse_bind hcode ((h _).bind (ih (by omega)))

theorem ServesAll.exchange_and_process (h : ServesAll sha256 e d e') (hnext : Foreign next)
    (answer : Bytes) :
    Talks (exchange_and_process_page_requests sha256 (apdu_continue answer)) e
      ((apdu_continue answer, some (heard d next)) :: served d next) next e' := by
  refine (exchange_talks answer (heard d next)).bind (.get_bind fun answers said => ?_)
  refine h.process_page_requests hnext ?_
  show _ < (List.map Prod.snd (served d next) ++ answers).length + 1
  rw [List.length_append, List.length_map, served_length]
  omega

end Client.VAppEngine

/-! ## What the client keeps -/

namespace Client.MemorySegment

variable {sha256 : Bytes → HashOutput 32} {seg : MemorySegment} {d : ℕ} {i : U32}

/-- The leaf of a serialized page is the hash of its record. -/
theorem leafOf_record {data : List Bytes} {k : ℕ} (hk : k < data.length) {r : Record}
    (hr : data[k] = get_serialized_page r.2.toList r.1) :
    leafOf sha256 data k = sha256 (recordMessage r) := by
  rw [leafOf_eq sha256 hk, hr]
  rfl

theorem isTree_of_built (hb : Built sha256 seg.content)
    (hsize : seg.content.data.length = 2 ^ d) :
    IsTree sha256 (leafOf sha256 seg.content.data) d seg.content.tree := by
  obtain ⟨d', hd', htree⟩ := hb.isTree
  obtain rfl : d = d' := Nat.pow_right_injective (Nat.le_refl 2) (hsize.symm.trans hd')
  exact htree

theorem get_page_eq (hb : Built sha256 seg.content) (hsize : seg.content.data.length = 2 ^ d)
    (hi : i.toNat < seg.content.data.length) : seg.get_page i =
      .ok (seg.content.data[i.toNat],
        siblings (hash_internal_node sha256) (leafOf sha256 seg.content.data) 0 d i.toNat) := by
  unfold MemorySegment.get_page MerkleAccumulator.get
  rw [List.getElem?_eq_getElem hi]
  simp only [prove_eq sha256 hsize (isTree_of_built hb hsize) (hsize ▸ hi)]

theorem store_page_eq (hb : Built sha256 seg.content) (hsize : seg.content.data.length = 2 ^ d)
    (hi : i.toNat < seg.content.data.length) {value : Bytes}
    (hvalue : value.length = 1 + 12 + PAGE_SIZE) :
    ∃ seg', seg.store_page sha256 i value = .ok ((siblings (hash_internal_node sha256)
        (leafOf sha256 seg.content.data) 0 d i.toNat, seg'.content.root), seg') ∧
      Built sha256 seg'.content ∧
      seg'.content.data = seg.content.data.set i.toNat value := by
  obtain ⟨content, hupdate, hdata, -⟩ := update_eq sha256 value hsize (isTree_of_built hb hsize)
    (hsize ▸ hi)
  refine ⟨{ content }, ?_, .update hb hupdate, hdata⟩
  unfold MemorySegment.store_page
  rw [if_neg (not_not.mpr hvalue), hupdate]

end Client.MemorySegment

/-! ## In sync -/

namespace OutsourcedMemory

open Client Client.VAppEngine

variable {E : Type} {dev : Device} {m m' : OutsourcedMemory E} {e e' : VAppEngine} {n d : ℕ}

/-- The pages the client keeps for the device's memory. -/
abbrev kept (m : OutsourcedMemory E) (e : VAppEngine) : List Bytes :=
  (e.segment m.section_kind).content.data

/-- The client has the tree of the device's root, and the device knows the leaves
of the pages in its cache. Code is neither encrypted nor committed, and a table of
tags for it is the one of its leaves. -/
structure InSync (dev : Device) (n d : ℕ) (m : OutsourcedMemory E) (e : VAppEngine) : Prop where
  n_pages : m.n_pages.toNat = n
  adjusted : n_pages_adjusted n = 2 ^ d
  aes : ∀ b, (m.aes_ctr.key.encrypt_block b).isSome
  built : Built dev.sha256 (e.segment m.section_kind).content
  size : (kept m e).length = 2 ^ d
  root : m.merkle_root = (e.segment m.section_kind).get_content_root
  record : ∀ x ∈ kept m e, ∃ r : Record, x = get_serialized_page r.2.toList r.1 ∧
    (m.section_kind = .code → r.1 = none)
  slot : ∀ (j : ℕ) (c : CachedPage), m.cached_pages[j]? = some c → c.valid = true →
    c.idx.toNat < 2 ^ d ∧ c.page_hash = leafOf dev.sha256 (kept m e) c.idx.toNat
  unique : ∀ (j j' : ℕ) (c c' : CachedPage), m.cached_pages[j]? = some c →
    m.cached_pages[j']? = some c' → c.valid = true → c'.valid = true → c.idx = c'.idx → j = j'
  readonly : m.section_kind = .code → m.is_readonly = true
  tags : m.section_kind = .code → ∀ code_hmacs, e.code_hmacs = some code_hmacs →
    ∀ i : U32, i.toNat < 2 ^ d → ∃ hmac, code_hmacs[i.toNat]? = some hmac ∧
      dev.compute_code_page_hmac (dev.get_vapp_auth_key m.vapp_hash) m.vapp_hash i
        (leafOf dev.sha256 (kept m e) i.toNat) = some hmac

namespace InSync

/-- A tree over the pages that 32 bits can count is not deep. -/
theorem depth_le (h : InSync dev n d m e) : d ≤ 32 := by
  have hd : d = Nat.clog 2 m.n_pages.toNat :=
    Nat.pow_right_injective (Nat.le_refl 2) (h.n_pages ▸ h.adjusted.symm)
  rw [hd]
  exact Nat.clog_le_of_le_pow m.n_pages.isLt.le

theorem root_eq (h : InSync dev n d m e) :
    m.merkle_root = rootOf dev.sha256 (leafOf dev.sha256 (kept m e)) d :=
  h.root.trans (MemorySegment.isTree_of_built h.built h.size).root_eq

/-- Every page the device asks for is accepted. -/
theorem load_page (h : InSync dev n d m e) {i : U32} (hi : i.toNat < 2 ^ d) :
    ∃ dialogue page hasher, Talks (load_page dev i) m (asked dialogue)
        (page, leafOf dev.sha256 (kept m e) i.toNat) { m with hasher } ∧
      Serves dev.sha256 e dialogue e := by
  have hlt : i.toNat < (kept m e).length := h.size ▸ hi
  obtain ⟨r, hr, hclear⟩ := h.record _ (List.getElem_mem hlt)
  have hget := MemorySegment.get_page_eq h.built h.size hlt
  rw [hr] at hget
  have hleaf := @MemorySegment.leafOf_record dev.sha256 _ _ hlt _ hr
  have hlen : (siblings (hash_internal_node dev.sha256) (leafOf dev.sha256 (kept m e)) 0 d
      i.toNat).length < 256 := by
    rw [siblings_length]
    have := h.depth_le
    omega
  have hcode : ∀ kind, ClientCommandCode.try_from
      ((GetPageMessage.serialize ⟨kind, i⟩).getD 0 0) = some .getPage := fun _ => rfl
  have hmerkle (hno : m.section_kind = .code → e.code_hmacs = none) :
      ∃ dialogue page hasher, Talks (OutsourcedMemory.load_page dev i) m (asked dialogue)
          (page, leafOf dev.sha256 (kept m e) i.toNat) { m with hasher } ∧
        Serves dev.sha256 e dialogue e := by
    obtain ⟨page, hopen⟩ := openRecord_total h.aes r
    obtain ⟨hasher, htalks⟩ := @load_page_talks E dev m i _ _ _ hlen hopen fun hasher => by
      have := @inclusion_complete _ dev.sha256 (leafOf dev.sha256 (kept m e)) _ _ hasher hi
      rw [← h.root_eq, hleaf] at this
      rw [show checked_next_power_of_two m.n_pages.toNat = 2 ^ d from h.n_pages ▸ h.adjusted]
      exact this
    rw [← hleaf] at htalks
    exact ⟨_, page, hasher, htalks, .getPage (by simp [GetPageMessage.serialize]) (hcode _)
      fun next => process_get_page_talks hget hlen hno⟩
  by_cases hkind : m.section_kind = .code
  · cases htable : e.code_hmacs with
    | none => exact hmerkle fun _ => htable
    | some code_hmacs =>
        obtain ⟨hmac, hmem, htag⟩ := h.tags hkind code_hmacs htable i hi
        obtain ⟨nonce, page⟩ := r
        obtain rfl : nonce = none := hclear hkind
        rw [hleaf] at htag
        obtain ⟨hasher, htalks⟩ := load_page_tagged_talks hkind htag
        rw [← hleaf] at htalks
        rw [hkind] at hget
        exact ⟨_, page, hasher, htalks, .getPage (by simp [GetPageMessage.serialize]) (hcode _)
          fun next => process_get_page_tagged_talks hget htable hmem⟩
  · exact hmerkle fun hc => absurd hc hkind

/-- What the device does with its cache between two exchanges. -/
theorem congr (h : InSync dev n d m e) (hn : m'.n_pages = m.n_pages)
    (hkey : m'.aes_ctr.key = m.aes_ctr.key) (hkind : m'.section_kind = m.section_kind)
    (hroot : m'.merkle_root = m.merkle_root) (hro : m'.is_readonly = m.is_readonly)
    (hvapp : m'.vapp_hash = m.vapp_hash)
    (hslot : ∀ (j : ℕ) (c : CachedPage), m'.cached_pages[j]? = some c → c.valid = true →
      c.idx.toNat < 2 ^ d ∧ c.page_hash = leafOf dev.sha256 (kept m e) c.idx.toNat)
    (hunique : ∀ (j j' : ℕ) (c c' : CachedPage), m'.cached_pages[j]? = some c →
      m'.cached_pages[j']? = some c' → c.valid = true → c'.valid = true → c.idx = c'.idx →
      j = j') :
    InSync dev n d m' e := by
  have hkept : kept m' e = kept m e := by rw [kept, kept, hkind]
  exact {
    n_pages := by rw [hn]; exact h.n_pages
    adjusted := h.adjusted
    aes := by rw [hkey]; exact h.aes
    built := by rw [hkind]; exact h.built
    size := by rw [hkept]; exact h.size
    root := by rw [hroot, hkind]; exact h.root
    record := by rw [hkept, hkind]; exact h.record
    slot := by rw [hkept]; exact hslot
    unique := hunique
    readonly := by rw [hkind, hro]; exact h.readonly
    tags := by rw [hkind, hvapp, hkept]; exact h.tags }

/-- As long as the slots stay what they are. -/
theorem same_cache (h : InSync dev n d m e) (hc : m'.cached_pages = m.cached_pages)
    (hn : m'.n_pages = m.n_pages)
    (hkey : m'.aes_ctr.key = m.aes_ctr.key) (hkind : m'.section_kind = m.section_kind)
    (hroot : m'.merkle_root = m.merkle_root) (hro : m'.is_readonly = m.is_readonly)
    (hvapp : m'.vapp_hash = m.vapp_hash) : InSync dev n d m' e :=
  h.congr hn hkey hkind hroot hro hvapp (by rw [hc]; exact h.slot) (by rw [hc]; exact h.unique)

theorem set_cases {l : List CachedPage} {s j : ℕ} {c b : CachedPage}
    (h : (l.set s c)[j]? = some b) : s = j ∧ b = c ∨ s ≠ j ∧ l[j]? = some b := by
  by_cases hjs : s = j
  · rw [List.getElem?_set, if_pos hjs] at h
    split at h
    · cases h
      exact .inl ⟨hjs, rfl⟩
    · cases h
  · rw [List.getElem?_set_ne hjs] at h
    exact .inr ⟨hjs, h⟩

/-- A slot that is freed, or written to. -/
theorem set_slot (h : InSync dev n d m e) {s : ℕ} {c c' : CachedPage}
    (hc : m.cached_pages[s]? = some c)
    (hsame : c'.valid = true → c.valid = true ∧ c'.idx = c.idx ∧ c'.page_hash = c.page_hash) :
    InSync dev n d { m with cached_pages := m.cached_pages.set s c' } e := by
  -- a valid slot after the change was valid before, with the same page
  have hback {j : ℕ} {b : CachedPage} (hj : (m.cached_pages.set s c')[j]? = some b)
      (hb : b.valid = true) : ∃ a, m.cached_pages[j]? = some a ∧ a.valid = true ∧
        b.idx = a.idx ∧ b.page_hash = a.page_hash := by
    rcases set_cases hj with ⟨rfl, rfl⟩ | ⟨-, hj⟩
    · exact ⟨c, hc, hsame hb⟩
    · exact ⟨b, hj, hb, rfl, rfl⟩
  refine h.congr rfl rfl rfl rfl rfl rfl (fun j b hj hb => ?_) fun j j' b b' hj hj' hb hb' hidx => ?_
  · obtain ⟨a, ha, hav, hai, hah⟩ := hback hj hb
    rw [hai, hah]
    exact h.slot j a ha hav
  · obtain ⟨a, ha, hav, hai, -⟩ := hback hj hb
    obtain ⟨a', ha', hav', hai', -⟩ := hback hj' hb'
    exact h.unique j j' a a' ha ha' hav hav' (by rw [← hai, ← hai', hidx])

/-- A page in no slot is loaded into a free one. -/
theorem fill (h : InSync dev n d m e) {s : ℕ} {c : CachedPage} (hi : c.idx.toNat < 2 ^ d)
    (hleaf : c.page_hash = leafOf dev.sha256 (kept m e) c.idx.toNat)
    (hmiss : ∀ (j : ℕ) (b : CachedPage), m.cached_pages[j]? = some b → b.valid = true →
      b.idx ≠ c.idx) :
    InSync dev n d { m with cached_pages := m.cached_pages.set s c } e := by
  refine h.congr rfl rfl rfl rfl rfl rfl (fun j b hj hb => ?_) fun j j' b b' hj hj' hb hb' hidx => ?_
  · rcases set_cases hj with ⟨rfl, rfl⟩ | ⟨-, hj⟩
    · exact ⟨hi, hleaf⟩
    · exact h.slot j b hj hb
  · rcases set_cases hj with ⟨rfl, rfl⟩ | ⟨-, hold⟩
    · rcases set_cases hj' with ⟨rfl, -⟩ | ⟨-, hold'⟩
      · rfl
      · exact absurd hidx.symm (hmiss j' b' hold' hb')
    · rcases set_cases hj' with ⟨rfl, rfl⟩ | ⟨-, hold'⟩
      · exact absurd hidx (hmiss j b hold hb)
      · exact h.unique j j' b b' hold hold' hb hb' hidx

/-- Every page of a section of more than one page that the device commits is
accepted, and both go on with the new root. -/
theorem commit_page_at (h : InSync dev n d m e) (hd : 0 < d) (hkind : m.section_kind ≠ .code)
    {s : ℕ} {c : CachedPage} (hc : m.cached_pages[s]? = some c) (hv : c.valid = true) :
    ∃ dialogue m' e', Talks (commit_page_at dev s) m (asked dialogue) () m' ∧
      Serves dev.sha256 e dialogue e' ∧ m'.cached_pages = m.cached_pages ∧
      m'.eviction_strategy = m.eviction_strategy ∧
      InSync dev n d { m' with cached_pages := m'.cached_pages.set s { c with valid := false } }
        e' := by
  obtain ⟨hidx, hhash⟩ := h.slot s c hc hv
  have hlt : c.idx.toNat < (kept m e).length := h.size ▸ hidx
  obtain ⟨payload, hpayload, hplen⟩ := AesCtr.process_with_counter_total h.aes c.page.toList
    (AesCtr.create_counter_block m.aes_ctr.nonce 0)
  rw [Vector.length_toList] at hplen
  obtain ⟨data, rfl⟩ : ∃ data : Page, payload = data.toList :=
    ⟨array payload 0 PAGE_SIZE, (array_toList_of_length hplen).symm⟩
  have henc : (m.aes_ctr.encrypt c.page.toList).1 = some (m.aes_ctr.nonce, data.toList) := by
    rw [AesCtr.encrypt, hpayload]
    rfl
  obtain ⟨r, hr⟩ : ∃ r : Record, r = (some m.aes_ctr.nonce, data) := ⟨_, rfl⟩
  obtain ⟨seg', hstore, hbuilt, hdata⟩ := MemorySegment.store_page_eq h.built h.size hlt
    (get_serialized_page_parts r).1
  have hleaves : leafOf dev.sha256 seg'.content.data =
      Function.update (leafOf dev.sha256 (kept m e)) c.idx.toNat (dev.sha256 (recordMessage r)) := by
    rw [hdata, leafOf_set dev.sha256 hlt]
    rfl
  have hsize : seg'.content.data.length = 2 ^ d := by
    rw [hdata, List.length_set]
    exact h.size
  have hroot : seg'.content.root = rootOf dev.sha256 (Function.update
      (leafOf dev.sha256 (kept m e)) c.idx.toNat (dev.sha256 (recordMessage r))) d := by
    rw [(MemorySegment.isTree_of_built hbuilt hsize).root_eq, hleaves]
  have hdepth := h.depth_le
  obtain ⟨hasher, htalks⟩ := @commit_page_at_talks E dev m s c _ _ seg'.content.root
    (siblings (hash_internal_node dev.sha256) (leafOf dev.sha256 (kept m e)) 0 d
      c.idx.toNat) hc hv henc (by rw [siblings_length]; omega) (by rw [siblings_length]; omega)
    fun hasher => by
      have := @update_complete _ dev.sha256 (leafOf dev.sha256 (kept m e)) _ _ hasher hidx (dev.sha256 (recordMessage r))
      rw [← h.root_eq, ← hroot, ← hhash, hr] at this
      rw [h.n_pages, h.adjusted]
      exact this
  refine ⟨_, _, e.set_segment seg' m.section_kind, htalks, .commitPage
    (by simp [CommitPageMessage.serialize]) rfl fun next => process_commit_page_talks hkind
    (by rw [hr] at hstore; exact hstore) (by rw [siblings_length]; omega), rfl, rfl, ?_⟩
  have hsegment : (e.set_segment seg' m.section_kind).segment m.section_kind = seg' := by
    cases m.section_kind <;> rfl
  -- the slot that is freed is the only one with the page whose leaf has changed
  have hslots {j : ℕ} {b : CachedPage} (hj : (m.cached_pages.set s
      { c with valid := false })[j]? = some b) (hb : b.valid = true) :
      s ≠ j ∧ m.cached_pages[j]? = some b := by
    rcases set_cases hj with ⟨-, rfl⟩ | hj
    · cases hb
    · exact hj
  exact {
    n_pages := h.n_pages
    adjusted := h.adjusted
    aes := h.aes
    built := by
      show Built _ (VAppEngine.segment _ m.section_kind).content
      rw [hsegment]
      exact hbuilt
    size := by
      show (VAppEngine.segment _ m.section_kind).content.data.length = _
      rw [hsegment]
      exact hsize
    root := by
      show _ = (VAppEngine.segment _ m.section_kind).get_content_root
      rw [hsegment]
      rfl
    record := by
      show ∀ x ∈ (VAppEngine.segment _ m.section_kind).content.data, _
      rw [hsegment, hdata]
      intro x hx
      rcases List.mem_or_eq_of_mem_set hx with hx | rfl
      · exact h.record x hx
      · exact ⟨r, rfl, fun hc => absurd hc hkind⟩
    slot := by
      intro j b hj hb
      obtain ⟨hne, hj⟩ := hslots hj hb
      obtain ⟨hi, hl⟩ := h.slot j b hj hb
      refine ⟨hi, ?_⟩
      show _ = leafOf _ (VAppEngine.segment _ m.section_kind).content.data _
      rw [hsegment, hleaves, Function.update_of_ne, hl]
      exact fun he => hne (h.unique s j c b hc hj hv hb (BitVec.eq_of_toNat_eq he.symm))
    unique := by
      intro j j' b b' hj hj' hb hb' he
      exact h.unique j j' b b' (hslots hj hb).2 (hslots hj' hb').2 hb hb' he
    readonly := h.readonly
    tags := fun hc => absurd hc hkind }

end InSync

/-! ## Runs -/

section
variable {α β : Type} {p : Exec MemoryError (OutsourcedMemory E) α}
  {P : α → OutsourcedMemory E → VAppEngine → Prop} {Q : β → OutsourcedMemory E → VAppEngine → Prop}

/-- The device runs `p` and the honest client answers: every exchange is accepted
and both come to an end, as `P` says, unless the eviction strategy panics between
two exchanges. -/
def Together (dev : Device) (p : Exec MemoryError (OutsourcedMemory E) α)
    (m : OutsourcedMemory E) (e : VAppEngine)
    (P : α → OutsourcedMemory E → VAppEngine → Prop) : Prop :=
  ∃ dialogue e', ServesAll dev.sha256 e dialogue e' ∧
    ((∃ a m', Talks p m (asked dialogue) a m' ∧ P a m' e') ∨
      Halts p m (asked dialogue))

namespace Together

theorem exchange {a : α} {m' : OutsourcedMemory E} {dialogue : Dialogue}
    (h : Talks p m (asked dialogue) a m') (hs : Serves dev.sha256 e dialogue e')
    (hP : P a m' e') : Together dev p m e P :=
  ⟨dialogue, e', hs.all, .inl ⟨a, m', h, hP⟩⟩

theorem quiet {a : α} {m' : OutsourcedMemory E} (h : Talks p m [] a m') (hP : P a m' e) :
    Together dev p m e P :=
  ⟨[], e, .nil e, .inl ⟨a, m', h, hP⟩⟩

theorem halts (h : ∀ replies sent, p (Line.put replies sent m) =
    .stop .panic (Line.put replies sent m)) : Together dev p m e P :=
  ⟨[], e, .nil e, .inr fun _ _ => ⟨m, h _ _⟩⟩

theorem bind {f : α → Exec MemoryError (OutsourcedMemory E) β} (hp : Together dev p m e P)
    (hf : ∀ a m' e', P a m' e' → Together dev (f a) m' e' Q) : Together dev (p >>= f) m e Q := by
  obtain ⟨d₁, e₁, hs₁, ⟨a, m₁, h₁, hP⟩ | hpanic⟩ := hp
  · obtain ⟨d₂, e₂, hs₂, ⟨b, m₂, h₂, hQ⟩ | hpanic⟩ := hf a m₁ e₁ hP
    · refine ⟨d₁ ++ d₂, e₂, hs₁.append hs₂, .inl ⟨b, m₂, ?_, hQ⟩⟩
      rw [asked_append]
      exact h₁.bind h₂
    · refine ⟨d₁ ++ d₂, e₂, hs₁.append hs₂, .inr ?_⟩
      rw [asked_append]
      exact h₁.bind_halts hpanic
  · exact ⟨d₁, e₁, hs₁, .inr hpanic.bind⟩

/-- A computation that first goes from `m` to `m'`, and then on as `p'`. -/
theorem congr {p' : Exec MemoryError (OutsourcedMemory E) α} {m' : OutsourcedMemory E}
    (h : Together dev p' m' e P)
    (hp : ∀ replies sent, p (Line.put replies sent m) = p' (Line.put replies sent m')) :
    Together dev p m e P := by
  obtain ⟨dialogue, e', hs, ⟨a, m'', ht, hP⟩ | hpanic⟩ := h
  · exact ⟨dialogue, e', hs, .inl ⟨a, m'', ht.congr hp, hP⟩⟩
  · refine ⟨dialogue, e', hs, .inr fun answers said => ?_⟩
    obtain ⟨s', hs'⟩ := hpanic answers said
    exact ⟨s', (hp _ _).trans hs'⟩

theorem pure {a : α} (h : P a m e) : Together dev (Pure.pure a) m e P := .quiet (.pure a) h

/-- What comes after a look at the state does not look at the line. -/
theorem get_bind {g : OutsourcedMemory E → Exec MemoryError (OutsourcedMemory E) α}
    (h : Together dev (g m) m e P) (hg : ∀ replies sent, g (Line.put replies sent m) = g m) :
    Together dev (Exec.get >>= g) m e P :=
  h.congr fun replies sent => congrFun (hg replies sent) _

theorem modify_bind {f : OutsourcedMemory E → OutsourcedMemory E}
    {g : Unit → Exec MemoryError (OutsourcedMemory E) α} (h : Together dev (g ()) (f m) e P)
    (hf : ∀ replies sent, f (Line.put replies sent m) = Line.put replies sent (f m)) :
    Together dev (Exec.modify f >>= g) m e P :=
  h.congr fun replies sent => congrArg (g ()) (hf replies sent)

theorem assert_bind {c : Prop} [Decidable c] {g : Unit → Exec MemoryError (OutsourcedMemory E) α}
    (h : c → Together dev (g ()) m e P) : Together dev (Exec.assert c >>= g) m e P := by
  by_cases hc : c
  · exact (h hc).congr fun _ _ => Exec.assert_bind_pos hc
  · refine .halts fun replies sent => Exec.bind_apply_stop ?_
    rw [Exec.assert, if_neg hc]
    rfl

theorem unwrap_bind {o : Option β} {f : β → Exec MemoryError (OutsourcedMemory E) α}
    (h : ∀ b, o = some b → Together dev (f b) m e P) :
    Together dev (Exec.unwrap o >>= f) m e P := by
  cases ho : o with
  | none => exact .halts fun _ _ => rfl
  | some b => exact (h b ho).congr fun _ _ => rfl

theorem mono {P' : α → OutsourcedMemory E → VAppEngine → Prop} (h : Together dev p m e P)
    (hP : ∀ a m' e', P a m' e' → P' a m' e') : Together dev p m e P' := by
  obtain ⟨dialogue, e', hs, ⟨a, m', ht, ha⟩ | hpanic⟩ := h
  · exact ⟨dialogue, e', hs, .inl ⟨a, m', ht, hP a m' e' ha⟩⟩
  · exact ⟨dialogue, e', hs, .inr hpanic⟩

end Together

end

namespace InSync

theorem notify (h : InSync dev n d m e) (f : E → Option E) :
    Together dev (notify f) m e fun _ m' e' => InSync dev n d m' e' ∧ e' = e ∧
      ∃ eviction_strategy, m' = { m with eviction_strategy } := by
  cases hf : f m.eviction_strategy with
  | none =>
      refine .halts fun replies sent => ?_
      rw [OutsourcedMemory.notify, Exec.get_bind]
      show Exec.bind (Exec.unwrap (f m.eviction_strategy)) _ _ = _
      rw [hf]
      rfl
  | some strategy =>
      refine @Together.quiet _ _ _ _ _ _ _ () { m with eviction_strategy := strategy }
        (fun replies sent => ?_)
        ⟨h.same_cache rfl rfl rfl rfl rfl rfl rfl, rfl, strategy, rfl⟩
      rw [OutsourcedMemory.notify, Exec.get_bind]
      show Exec.bind (Exec.unwrap (f m.eviction_strategy)) _ _ = _
      rw [hf]
      rfl

theorem get_cached_page_ref (h : InSync dev n d m e) (i : U32) (slot : ℕ) :
    Together dev (get_cached_page_ref i slot) m e fun s m' e' => InSync dev n d m' e' ∧
      s < m'.cached_pages.length :=
  .modify_bind (.get_bind (.assert_bind fun hlt => .pure
    ⟨h.same_cache rfl rfl rfl rfl rfl rfl rfl, hlt⟩) fun _ _ => rfl) fun _ _ => rfl

/-- Writing through a reference. -/
theorem writes (writes : List Page) (slot : ℕ) : ∀ {m : OutsourcedMemory E},
    InSync dev n d m e → slot < m.cached_pages.length →
    InSync dev n d (writes.foldl (fun m page => deref_mut m slot page) m) e := by
  induction writes with
  | nil => exact fun h _ => h
  | cons page writes ih =>
      intro m h hslot
      have hget : m.cached_pages[slot]? = some m.cached_pages[slot]! := by
        rw [List.getElem!_eq_getElem?_getD, List.getElem?_eq_getElem hslot, Option.getD_some]
      refine ih (h.set_slot hget fun hv => ⟨hv, rfl, rfl⟩) ?_
      show slot < (m.cached_pages.set _ _).length
      rw [List.length_set]
      exact hslot

variable [PageEvictionStrategy E]

theorem load_into (h : InSync dev n d m e) {i : U32} (hi : i.toNat < 2 ^ d) (slot : ℕ)
    (hmiss : ∀ (j : ℕ) (c : CachedPage), m.cached_pages[j]? = some c → c.valid = true →
      c.idx ≠ i) :
    Together dev (load_into dev i slot) m e fun s m' e' => InSync dev n d m' e' ∧
      s < m'.cached_pages.length := by
  obtain ⟨dialogue, page, hasher, htalks, hserves⟩ := h.load_page hi
  refine Together.bind (P := fun r m' e' => r = (page, leafOf dev.sha256 (kept m e) i.toNat) ∧
    m' = { m with hasher } ∧ e' = e) (.exchange htalks hserves ⟨rfl, rfl, rfl⟩) ?_
  rintro _ _ _ ⟨rfl, rfl, rfl⟩
  have hsync := @same_cache _ _ _ { m with hasher } _ _ _ h rfl rfl rfl rfl rfl rfl rfl
  have hfill := hsync.fill (s := slot)
    (c := ⟨i, page, leafOf dev.sha256 (kept m _) i.toNat, true, false⟩) hi rfl hmiss
  refine .modify_bind (Together.bind (hfill.notify _) ?_) fun _ _ => rfl
  rintro _ _ _ ⟨hsync', -, -⟩
  exact hsync'.get_cached_page_ref i slot

/-- With all slots taken by other pages, there is more than one page. -/
theorem evict_page (h : InSync dev n d m e) {i : U32} (hi : i.toNat < 2 ^ d)
    (hall : ∀ (j : ℕ) (c : CachedPage), m.cached_pages[j]? = some c → c.valid = true)
    (hmiss : ∀ (j : ℕ) (c : CachedPage), m.cached_pages[j]? = some c → c.valid = true →
      c.idx ≠ i) :
    Together dev (evict_page dev) m e fun _ m' e' => InSync dev n d m' e' ∧
      ∀ (j : ℕ) (c : CachedPage), m'.cached_pages[j]? = some c → c.valid = true → c.idx ≠ i := by
  cases hchoice : PageEvictionStrategy.choose_victim m.eviction_strategy with
  | none =>
      refine .halts fun replies sent => ?_
      rw [OutsourcedMemory.evict_page, Exec.get_bind]
      show Exec.bind (Exec.unwrap (PageEvictionStrategy.choose_victim m.eviction_strategy)) _ _ = _
      rw [hchoice]
      rfl
  | some choice =>
      obtain ⟨s, strategy⟩ := choice
      obtain ⟨m₁, hm₁⟩ : ∃ m₁, m₁ = { m with eviction_strategy := strategy } := ⟨_, rfl⟩
      have hsync : InSync dev n d m₁ e := by
        rw [hm₁]
        exact h.same_cache rfl rfl rfl rfl rfl rfl rfl
      have hcached : m₁.cached_pages = m.cached_pages := by rw [hm₁]
      suffices hrest : Together dev (do
          let victim ← Exec.unwrap m₁.cached_pages[s]?
          commit_victim dev s victim
          Exec.modify fun m => { m with
            cached_pages := m.cached_pages.set s { victim with valid := false } }
          OutsourcedMemory.notify fun e => PageEvictionStrategy.on_invalidate e s victim.idx
          pure s) m₁ e fun _ m' e' => InSync dev n d m' e' ∧ ∀ (j : ℕ) (c : CachedPage),
            m'.cached_pages[j]? = some c → c.valid = true → c.idx ≠ i by
        refine hrest.congr fun replies sent => ?_
        rw [OutsourcedMemory.evict_page, Exec.get_bind]
        show Exec.bind (Exec.unwrap (PageEvictionStrategy.choose_victim m.eviction_strategy)) _ _ = _
        rw [hchoice, hm₁]
        rfl
      refine .unwrap_bind fun victim hvictim => ?_
      rw [hcached] at hvictim
      have hvalid := hall s victim hvictim
      refine Together.bind (P := fun _ m' e' => m'.cached_pages = m.cached_pages ∧ InSync dev n d
        { m' with cached_pages := m'.cached_pages.set s { victim with valid := false } } e') ?_ ?_
      · refine .get_bind ?_ fun _ _ => rfl
        split
        · next hdirty =>
            rw [Bool.and_eq_true, Bool.not_eq_true'] at hdirty
            have hkind : m₁.section_kind ≠ .code := by
              intro hc
              rw [hsync.readonly hc] at hdirty
              cases hdirty.1
            have hd : 0 < d := by
              refine Nat.pos_of_ne_zero ?_
              rintro rfl
              have hv := (h.slot s victim hvictim hvalid).1
              exact hmiss s victim hvictim hvalid (BitVec.eq_of_toNat_eq (by omega))
            obtain ⟨dialogue, m', e', htalks, hserves, hc, -, hsync'⟩ :=
              hsync.commit_page_at hd hkind (hcached ▸ hvictim) hvalid
            exact .exchange htalks hserves ⟨hc.trans hcached, hsync'⟩
        · exact .pure ⟨hcached, hsync.set_slot (hcached ▸ hvictim) fun hv => by cases hv⟩
      · rintro _ m' e' ⟨hc, hsync'⟩
        refine .modify_bind (Together.bind (hsync'.notify _) ?_) fun _ _ => rfl
        rintro _ _ _ ⟨hsync'', rfl, strategy', rfl⟩
        refine .pure ⟨hsync'', fun j c hj hv => ?_⟩
        rcases set_cases hj with ⟨-, rfl⟩ | ⟨-, hj⟩
        · cases hv
        · exact hmiss j c (hc ▸ hj) hv

theorem get_page (h : InSync dev n d m e) {i : U32} (hi : i.toNat < 2 ^ d) :
    Together dev (get_page dev i) m e fun s m' e' => InSync dev n d m' e' ∧
      s < m'.cached_pages.length := by
  refine .get_bind ?_ fun _ _ => rfl
  cases hfast : m.last_accessed_page.filter (fun last => i = last.1) with
  | some last => exact h.get_cached_page_ref i last.2
  | none =>
      dsimp only
      cases hhit : m.cached_pages.findIdx? (fun c => c.valid && c.idx == i) with
      | some slot =>
          refine Together.bind (h.notify _) ?_
          rintro _ _ _ ⟨hsync, -, -⟩
          exact hsync.get_cached_page_ref i slot
      | none =>
          have hmiss : ∀ (j : ℕ) (c : CachedPage), m.cached_pages[j]? = some c →
              c.valid = true → c.idx ≠ i := by
            intro j c hj hv hidx
            have := List.findIdx?_eq_none_iff.mp hhit c (List.mem_of_getElem? hj)
            rw [hv, hidx, beq_self_eq_true] at this
            cases this
          dsimp only
          cases hfree : m.cached_pages.findIdx? (fun c => !c.valid) with
          | some slot => exact h.load_into hi slot hmiss
          | none =>
              refine Together.bind (h.evict_page hi (fun j c hj => ?_) hmiss) ?_
              · simpa using List.findIdx?_eq_none_iff.mp hfree c (List.mem_of_getElem? hj)
              · rintro slot _ _ ⟨hsync, hmiss'⟩
                exact hsync.load_into hi slot hmiss'

theorem access (h : InSync dev n d m e) {a : Access} (ha : a.page_index.toNat < 2 ^ d) :
    Together dev (access dev a) m e fun _ m' e' => InSync dev n d m' e' := by
  have hnonce := @same_cache _ _ _ { m with aes_ctr := { m.aes_ctr with nonce := a.nonce } } _ _ _ h
    rfl rfl rfl rfl rfl rfl rfl
  refine .modify_bind (Together.bind (hnonce.get_page ha) ?_) fun _ _ => rfl
  rintro slot m' e' ⟨hsync, hslot⟩
  -- the writes do not look at the line
  have hput (replies : List (Except InterruptError Bytes)) (sent : List Bytes) :
      ∀ (ps : List Page) (m : OutsourcedMemory E),
        ps.foldl (fun m page => deref_mut m slot page) (Line.put replies sent m) =
          Line.put replies sent (ps.foldl (fun m page => deref_mut m slot page) m) := by
    intro ps
    induction ps with
    | nil => exact fun _ => rfl
    | cons page ps ih => exact fun m => ih (deref_mut m slot page)
  refine @Together.congr _ _ _ _ _ _ _ (pure (deref m' slot)) _ (.pure (hsync.writes a.writes slot hslot))
    fun replies sent => ?_
  rw [Exec.get_bind, Exec.set_bind, hput]
  rfl

/-- Whatever the device does with its pages, the honest client's answers are
accepted. -/
theorem run {accesses : List Access} : ∀ {m : OutsourcedMemory E} {e : VAppEngine},
    InSync dev n d m e → (∀ a ∈ accesses, a.page_index.toNat < 2 ^ d) →
    Together dev (run dev accesses) m e fun _ m' e' => InSync dev n d m' e' := by
  induction accesses with
  | nil => exact fun h _ => .pure h
  | cons a as ih =>
      intro m e h hrange
      refine Together.bind (h.access (hrange a List.mem_cons_self)) fun page m' e' h' => ?_
      exact Together.bind (ih h' fun b hb => hrange b (List.mem_cons_of_mem a hb))
        fun pages m'' e'' h'' => .pure h''

end InSync

end OutsourcedMemory

end Vanadium
