import Vanadium.Proofs.ClientMemory
import Vanadium.Proofs.EcallKeeps
import Vanadium.Proofs.CpuStep
import Vanadium.Proofs.PageStore
import Vanadium.Vm.StartVapp

/-!
# The code that runs is the code that was committed

A fetch hands out the bytes of a cached page, and the cache of the code holds
pages that got past the verifiers: that is `Committed`, which says of a
read-only memory what `Consistent` says of a writable one. A lookup keeps it.
A write through a reference would break it, and nothing in the memory prevents
one; what has to be shown is that nobody writes.

Instructions do not: a store to the code is rejected. An ECALL may, if a
V-App asks for it. So the statement about runs is one about runs whose ECALLs
have no output pointer in the code, and the last section is a run with one.
-/

namespace Vanadium

open Lib

/-! ## Pages of a read-only memory -/

namespace OutsourcedMemory

variable {E : Type}

section
variable (dev : Device) (S : Set Bytes) (key : AesKey) (d : ℕ) (leaf : ℕ → HashOutput 32)

/-- Every cached page is what its leaf opens to, provided that all that was
hashed is in `S`. Tags the host may present are those of the leaves. -/
structure Committed (m : OutsourcedMemory E) : Prop where
  readonly : m.is_readonly = true
  n_pages : checked_next_power_of_two m.n_pages.toNat = 2 ^ d
  root : m.merkle_root = rootOf dev.sha256 leaf d
  aes_key : m.aes_ctr.key = key
  tagged : ∀ (i : U32) (h : HashOutput 32), i.toNat < 2 ^ d → TaggedAt dev m i h →
    h = leaf i.toNat
  slot : (∀ x ∈ m.hasher.digested, x ∈ S) →
    ∀ (j : ℕ) (c : CachedPage), m.cached_pages[j]? = some c → c.valid = true →
      c.idx.toNat < 2 ^ d → Stored dev.sha256 S key leaf c.idx c.page

end

variable {dev : Device} {S : Set Bytes} {key : AesKey} {d : ℕ} {leaf : ℕ → HashOutput 32}
  {m m' : OutsourcedMemory E}

theorem TaggedAt.of_frame (hf : Frame m m') {i : U32} {h : HashOutput 32}
    (ht : TaggedAt dev m' i h) : TaggedAt dev m i h := by
  obtain ⟨data, response, tag, hdata, hresponse, htag, hmac⟩ := ht
  rw [hf.vapp_hash] at hmac
  exact ⟨data, response, tag, hf.replies hdata, hresponse, htag, hmac⟩

/-- Slots may be given up. -/
theorem Committed.shrink (h : Committed dev S key d leaf m)
    (hf : Frame { m with
      cached_pages := m'.cached_pages
      last_accessed_page := m'.last_accessed_page } m')
    (hroot : m'.merkle_root = m.merkle_root)
    (hslots : ∀ (j : ℕ) (c : CachedPage), m'.cached_pages[j]? = some c → c.valid = true →
      m.cached_pages[j]? = some c) : Committed dev S key d leaf m' where
  readonly := hf.is_readonly.trans h.readonly
  n_pages := by rw [hf.n_pages]; exact h.n_pages
  root := hroot.trans h.root
  aes_key := hf.key.trans h.aes_key
  tagged i x hi ht := h.tagged i x hi (TaggedAt.of_frame hf ht)
  slot hsub j c hj hv := h.slot (fun x hx => hsub x (hf.digested hx)) j c (hslots j c hj hv) hv

variable [PageEvictionStrategy E]

/-- A read-only memory commits nothing. -/
theorem Committed.evict {s : ℕ} (h : Committed dev S key d leaf m)
    (hevict : evict_page dev m = .ok s m') :
    Committed dev S key d leaf m' ∧ m'.cached_pages.length = m.cached_pages.length := by
  obtain ⟨c, m₁, e, e', hc, rfl, ⟨hwritable, -⟩ | ⟨rfl, -⟩⟩ := evict_page_cases hevict
  · rw [h.readonly] at hwritable
    cases hwritable
  · refine ⟨h.shrink ⟨rfl, rfl, rfl, rfl, rfl, rfl, rfl, List.Subset.refl _,
      List.Subset.refl _⟩ rfl fun j b hj hv => ?_, List.length_set⟩
    dsimp only at hj
    rw [List.getElem?_set] at hj
    split at hj
    · split at hj
      · cases hj; cases hv
      · cases hj
    · exact hj

/-- A page that is loaded has the hash in its leaf: a Merkle branch says so by
soundness, a tag because tags are those of the leaves. -/
theorem Committed.load_into (hS : CollisionFree dev.sha256 S) (htree : TreeIn dev.sha256 leaf d S)
    {page_index : U32} {slot s : ℕ} (h : Committed dev S key d leaf m)
    (hload : load_into dev page_index slot m = .ok s m') :
    Committed dev S key d leaf m' ∧ m'.last_accessed_page = some (page_index, slot) ∧
      ∃ page page_hash, m'.cached_pages =
        m.cached_pages.set slot ⟨page_index, page, page_hash, true, false⟩ := by
  obtain ⟨rfl, page, page_hash, m₁, e, hpage, rfl⟩ := load_into_cases hload
  obtain ⟨hf, hroot, r, hr, hhash, hopen, hauth⟩ := load_page_cases dev hpage
  refine ⟨⟨hf.is_readonly.trans h.readonly, by rw [hf.n_pages]; exact h.n_pages,
    hroot.trans h.root, hf.key.trans h.aes_key,
    fun i x hi ht => h.tagged i x hi (TaggedAt.of_frame hf ht), ?_⟩, rfl, page, page_hash,
    congrArg (List.set · s _) hf.cached_pages⟩
  intro hsub j c hj hv hi
  dsimp only at hj hsub
  rw [hf.cached_pages, List.getElem?_set] at hj
  split at hj
  · split at hj
    · cases hj
      have hleaf : page_hash = leaf page_index.toNat := by
        rcases hauth with ⟨hasher, proof, v, hfeed, hver⟩ | ⟨-, htag⟩
        · rw [h.root, h.n_pages] at hfeed
          exact inclusion_sound hS htree hi (by rw [hfeed]; exact hsub)
            (by rw [hfeed]; exact hver)
        · exact h.tagged page_index page_hash hi htag
      exact ⟨r, hsub _ hr, by rw [← hhash, hleaf], by rw [← h.aes_key, hopen]⟩
    · cases hj
  · exact h.slot (fun x hx => hsub x (hf.digested hx)) j c hj hv hi

/-- A page asked for ends up in a valid slot. -/
theorem Committed.get_page (hS : CollisionFree dev.sha256 S)
    (htree : TreeIn dev.sha256 leaf d S) {page_index : U32} {s : ℕ}
    (h : Committed dev S key d leaf m) (hl : LastValid m)
    (hget : get_page dev page_index m = .ok s m') :
    Committed dev S key d leaf m' ∧ LastValid m' ∧
      ∃ c, m'.cached_pages[s]? = some c ∧ c.valid = true ∧ c.idx = page_index := by
  have hfresh {m₁ : OutsourcedMemory E} (hlt : s < m₁.cached_pages.length)
      (h₁ : Committed dev S key d leaf m₁)
      (hload : OutsourcedMemory.load_into dev page_index s m₁ = .ok s m') :
      Committed dev S key d leaf m' ∧ LastValid m' ∧
        ∃ c, m'.cached_pages[s]? = some c ∧ c.valid = true ∧ c.idx = page_index := by
    obtain ⟨hcommitted, hlast, page, page_hash, hpages⟩ := h₁.load_into hS htree hload
    have hnew : m'.cached_pages[s]? = some ⟨page_index, page, page_hash, true, false⟩ := by
      rw [hpages, List.getElem?_set_self hlt]
    exact ⟨hcommitted, .of_last hlast hnew rfl rfl, _, hnew, rfl, rfl⟩
  cases get_page_cases hget with
  | cached e hm' hs =>
      subst hm'
      obtain ⟨c, hc, hv, hidx⟩ := hs.elim (hl page_index s) id
      exact ⟨h.shrink ⟨rfl, rfl, rfl, rfl, rfl, rfl, rfl, List.Subset.refl _,
        List.Subset.refl _⟩ rfl fun _ _ hj _ => hj, .of_last rfl hc hv hidx, c, hc, hv, hidx⟩
  | free c hc hv hmiss hload =>
      exact hfresh (List.getElem?_eq_some_iff.mp hc).1 h hload
  | evicted m₁ hall hmiss hevict hload =>
      obtain ⟨h₁, hlen⟩ := h.evict hevict
      obtain ⟨victim, _, _, _, hvictim, -⟩ := evict_page_cases hevict
      exact hfresh (hlen ▸ (List.getElem?_eq_some_iff.mp hvictim).1) h₁ hload

theorem load_into_digested {page_index : U32} {slot s : ℕ}
    (h : load_into dev page_index slot m = .ok s m') :
    m.hasher.digested ⊆ m'.hasher.digested := by
  obtain ⟨rfl, page, page_hash, m₁, e, hpage, rfl⟩ := load_into_cases h
  exact (load_page_cases dev hpage).1.digested

theorem get_page_digested {page_index : U32} {s : ℕ}
    (h : OutsourcedMemory.get_page dev page_index m = .ok s m') :
    m.hasher.digested ⊆ m'.hasher.digested := by
  cases get_page_cases h with
  | cached e hm' hs => subst hm'; exact List.Subset.refl _
  | free c hc hv hmiss hload => exact load_into_digested hload
  | evicted m₁ hall hmiss hevict hload =>
      have hfirst : m.hasher.digested ⊆ m₁.hasher.digested := by
        obtain ⟨c, m₂, e, e', hc, rfl, ⟨-, hcommit⟩ | ⟨rfl, -⟩⟩ := evict_page_cases hevict
        · obtain ⟨_, _, hf, _⟩ := commit_page_at_ok dev hcommit
          exact hf.digested
        · exact List.Subset.refl _
      exact List.Subset.trans hfirst (load_into_digested hload)

end OutsourcedMemory

/-! ## What a fetch returns -/

namespace MemorySegment

variable {M : Type}

theorem ext_bounds {seg seg' : MemorySegment M} (hstart : seg.start_address = seg'.start_address)
    (hsize : seg.size = seg'.size) : seg = { seg' with paged_memory := seg.paged_memory } := by
  rw [← hstart, ← hsize]

/-- The byte at an address, when the pages of the segment are `pages`. -/
def byte_of (seg : MemorySegment M) (pages : U32 → Page) (a : U32) : U8 :=
  (pages (seg.page_index a)).toList.getD (seg.offset a) 0

def half_of (seg : MemorySegment M) (pages : U32 → Page) (a : U32) : BitVec 16 :=
  seg.byte_of pages (a + 1) ++ seg.byte_of pages a

/-- The instruction at an address. A word is fetched as such if it is aligned
and in the segment, and else by halves. -/
def inst_of (seg : MemorySegment M) (pages : U32 → Page) (pc : U32) : U32 :=
  if (pc.toNat % 4 = 0 ∧ seg.contains (pc + 3) = true) ∨
      seg.half_of pages pc &&& 0b11 = 0b11 then
    seg.half_of pages (pc + 2) ++ seg.half_of pages pc
  else 0#16 ++ seg.half_of pages pc

variable [PagedMemory M]

/-- A lookup of page `i` in a memory with `I` hands out `pages i`, provided that
`V` holds in the end; and `opened i` then holds. -/
structure Opens (I V : M → Prop) (n : ℕ) (pages : U32 → Page) (opened : U32 → Prop) :
    Prop where
  keeps (i : U32) : Exec.Keeps False I (PagedMemory.get_page i : Exec MemoryError M _)
  earlier (i : U32) {m m' : M} {r : PagedMemory.PageRef M} :
    PagedMemory.get_page i m = .ok r m' → V m' → V m
  page (i : U32) {m m' : M} {r : PagedMemory.PageRef M} :
    PagedMemory.get_page i m = .ok r m' → I m → V m' → i.toNat < n →
      PagedMemory.deref m' r = pages i ∧ opened i

variable {I V : M → Prop} {n : ℕ} {pages : U32 → Page} {opened : U32 → Prop}
  {seg seg' : MemorySegment M} {a w : U32}

/-- A load that returned found the bytes of the page. -/
theorem load_inv {α : Type} {k : ℕ} {f : Bytes → α} {v : α} (ho : Opens I V n pages opened)
    (ha : Natural a k) (hI : I seg.paged_memory) (hV : V seg'.paged_memory)
    (hn : (seg.page_index a).toNat < n)
    (h : (do
      let (page, offset) ← locate (M := M) a w
      let b ← read_page page offset k
      pure (f b)) seg = .ok v seg') :
    (∃ m', seg' = { seg with paged_memory := m' } ∧ I m') ∧ opened (seg.page_index a) ∧
      ∃ b : Bytes, v = f b ∧ ∀ j < k, b.getD j 0 = seg.byte_of pages (a + BitVec.ofNat 32 j) := by
  obtain ⟨⟨r, off⟩, seg₁, hloc, h⟩ := Exec.bind_ok.mp h
  dsimp only at h
  obtain ⟨hlo, -, -, rfl, m', hget, rfl⟩ := locate_inv hloc
  obtain ⟨b, seg₂, hread, h⟩ := Exec.bind_ok.mp h
  rw [read_page, Exec.get_bind] at hread
  obtain ⟨-, hread⟩ := Exec.assert_bind_ok.mp hread
  cases hread
  cases h
  obtain ⟨hpage, hopened⟩ := ho.page _ hget hI hV hn
  refine ⟨⟨m', rfl, (ho.keeps _ hI).ok hget⟩, hopened, _, rfl, fun j hj => ?_⟩
  obtain ⟨hidx, hoff, -⟩ := ha.same_page hlo hj
  rw [byte_of, hidx, hoff, hpage, List.getD_eq_getElem?_getD, List.getD_eq_getElem?_getD,
    List.getElem?_take_of_lt hj, List.getElem?_drop]

theorem read_u16_earlier {v : BitVec 16} (ho : Opens I V n pages opened)
    (h : read_u16 a seg = .ok v seg') (hV : V seg'.paged_memory) : V seg.paged_memory := by
  obtain ⟨⟨r, off⟩, seg₁, hloc, h⟩ := Exec.bind_ok.mp h
  obtain ⟨-, -, -, -, m', hget, rfl⟩ := locate_inv hloc
  obtain ⟨b, seg₂, hread, h⟩ := Exec.bind_ok.mp h
  obtain ⟨-, hread⟩ := Exec.assert_bind_ok.mp hread
  cases hread
  cases h
  exact ho.earlier _ hget hV

theorem read_u16_inv {v : BitVec 16} (ho : Opens I V n pages opened)
    (h : read_u16 a seg = .ok v seg') (hI : I seg.paged_memory) (hV : V seg'.paged_memory)
    (hn : (seg.page_index a).toNat < n) :
    (∃ m', seg' = { seg with paged_memory := m' } ∧ I m') ∧ opened (seg.page_index a) ∧
      v = seg.half_of pages a := by
  have halign : a.toNat % 2 = 0 := by
    obtain ⟨⟨r, off⟩, seg₁, hloc, -⟩ := Exec.bind_ok.mp h
    exact (locate_inv hloc).2.2.1
  obtain ⟨hseg, hopened, b, rfl, hb⟩ := load_inv ho ⟨.inr (.inl rfl), halign⟩ hI hV hn h
  refine ⟨hseg, hopened, ?_⟩
  have h0 := hb 0 (by decide)
  rw [BitVec.add_zero] at h0
  rw [h0, hb 1 (by decide)]
  rfl

theorem read_u32_inv {v : U32} (ho : Opens I V n pages opened)
    (h : read_u32 a seg = .ok v seg') (hI : I seg.paged_memory) (hV : V seg'.paged_memory)
    (hn : (seg.page_index a).toNat < n) :
    opened (seg.page_index a) ∧ seg.page_index (a + 2) = seg.page_index a ∧
      v = seg.half_of pages (a + 2) ++ seg.half_of pages a := by
  obtain ⟨⟨r, off⟩, seg₁, hloc, -⟩ := Exec.bind_ok.mp h
  obtain ⟨hlo, -, halign, -⟩ := locate_inv hloc
  have hnat : Natural a 4 := ⟨.inr (.inr rfl), halign⟩
  obtain ⟨-, hopened, b, rfl, hb⟩ := load_inv ho hnat hI hV hn h
  refine ⟨hopened, (hnat.same_page hlo (show 2 < 4 by decide)).1, ?_⟩
  have h0 := hb 0 (by decide)
  rw [BitVec.add_zero] at h0
  have h23 : a + 2 + 1 = a + 3 := by rw [BitVec.add_assoc]; rfl
  rw [h0, hb 1 (by decide), hb 2 (by decide), hb 3 (by decide), half_of, half_of, h23,
    BitVec.append_assoc]
  rfl

omit [PagedMemory M] in
/-- The bounds check of a section of a single byte lets the second half pass;
it is in the same page. -/
theorem half_page {b : U32} (hb : seg.contains b = true) (hab : a = b ∨ a = b + 2)
    (hlo : seg.start_address.toNat ≤ a.toNat)
    (hhi : a.toNat ≤ (seg.start_address + seg.size - 2).toNat) :
    seg.contains a = true ∨ seg.page_index a = seg.page_index b := by
  obtain ⟨hb₁, hb₂⟩ := contains_iff.mp hb
  have h2 : (2 : U32).toNat = 2 := rfl
  by_cases hend : 2 ≤ (seg.start_address + seg.size).toNat
  · have hsub : (seg.start_address + seg.size - 2).toNat =
        (seg.start_address + seg.size).toNat - 2 := by
      have := (seg.start_address + seg.size).isLt
      rw [BitVec.toNat_sub, h2]
      omega
    exact .inl (contains_iff.mpr ⟨hlo, by omega⟩)
  · right
    rcases hab with rfl | rfl
    · rfl
    · apply BitVec.eq_of_toNat_eq
      rw [page_index_toNat hlo, page_index_toNat hb₁, BitVec.toNat_add, h2]
      omega

end MemorySegment

namespace Cpu

open MemorySegment (Opens read_u16_earlier read_u16_inv read_u32_inv locate_inv half_page)

variable {M : Type} [PagedMemory M] {E : Type} {I V : M → Prop} {n : ℕ} {pages : U32 → Page}
  {opened : U32 → Prop} {cpu cpu' : Cpu M} {inst : U32}

omit [PagedMemory M] in
theorem append_low (hi lo : BitVec 16) : (hi ++ lo : U32).setWidth 16 = lo := by
  apply BitVec.eq_of_getLsbD_eq
  intro i hi
  simp only [BitVec.getLsbD_append, BitVec.getLsbD_setWidth]
  grind

/-- A fetch that returned found the instruction that is in the pages. -/
theorem fetch_inv (ho : Opens I V n pages opened) (hI : I cpu.code_seg.paged_memory)
    (hV : V cpu'.code_seg.paged_memory) (hin : cpu.code_seg.contains cpu.pc = true)
    (hpages : ∀ a, cpu.code_seg.contains a = true → (cpu.code_seg.page_index a).toNat < n)
    (h : (fetch_instruction : Exec (CpuError E) (Cpu M) U32) cpu = .ok inst cpu') :
    opened (cpu.code_seg.page_index cpu.pc) ∧
      (inst.setWidth 16 &&& 0b11 = 0b11#16 → opened (cpu.code_seg.page_index (cpu.pc + 2))) ∧
      inst = cpu.code_seg.inst_of pages cpu.pc := by
  rw [fetch_instruction, Exec.get_bind] at h
  rw [MemorySegment.inst_of]
  have hcode : cpu.segment .code_seg = cpu.code_seg := rfl
  split at h
  · next hword =>
      obtain ⟨seg', hread, rfl⟩ := Exec.zoom_ok.mp h
      rw [hcode] at hread
      obtain ⟨hopened, hpage, rfl⟩ := read_u32_inv ho hread hI hV (hpages _ hin)
      rw [if_pos (.inl hword)]
      exact ⟨hopened, fun _ => by rw [hpage]; exact hopened, rfl⟩
  · next hword =>
      rw [fetch_halves] at h
      obtain ⟨lo, cpu₁, hlo, h⟩ := Exec.bind_ok.mp h
      obtain ⟨seg₁, hread₁, rfl⟩ := Exec.zoom_ok.mp hlo
      rw [hcode] at hread₁
      split at h
      · next hsmall =>
          cases h
          obtain ⟨-, hopened, rfl⟩ := read_u16_inv ho hread₁ hI hV (hpages _ hin)
          rw [halves_word, append_low, if_neg (not_or.mpr ⟨hword, hsmall⟩)]
          exact ⟨hopened, fun hfull => absurd hfull hsmall, rfl⟩
      · next hfull =>
          obtain ⟨hi, cpu₂, hhi, h⟩ := Exec.bind_ok.mp h
          cases h
          obtain ⟨seg₂, hread₂, rfl⟩ := Exec.zoom_ok.mp hhi
          rw [segment_set_segment, if_pos rfl] at hread₂
          obtain ⟨⟨m₁, rfl, hI₁⟩, hopened, rfl⟩ :=
            read_u16_inv ho hread₁ hI (read_u16_earlier ho hread₂ hV) (hpages _ hin)
          obtain ⟨⟨r, off⟩, seg₃, hloc, -⟩ := Exec.bind_ok.mp hread₂
          obtain ⟨hstart, hend, -⟩ := locate_inv hloc
          have hn : (cpu.code_seg.page_index (cpu.pc + 2)).toNat < n := by
            rcases half_page hin (.inr rfl) hstart hend with hnext | hsame
            · exact hpages _ hnext
            · rw [hsame]
              exact hpages _ hin
          obtain ⟨-, hopened₂, rfl⟩ := read_u16_inv ho hread₂ hI₁ hV hn
          rw [halves_word, if_pos (.inr (not_not.mp hfull))]
          exact ⟨hopened, fun _ => hopened₂, rfl⟩

/-- A fetch changes the memory of the code and nothing else. -/
theorem fetch_frame (h : (fetch_instruction : Exec (CpuError E) (Cpu M) U32) cpu =
    .ok inst cpu') : ∃ seg', cpu' = cpu.set_segment .code_seg seg' := by
  rw [fetch_instruction, Exec.get_bind] at h
  split at h
  · obtain ⟨seg', -, rfl⟩ := Exec.zoom_ok.mp h
    exact ⟨seg', rfl⟩
  · rw [fetch_halves] at h
    obtain ⟨lo, cpu₁, hlo, h⟩ := Exec.bind_ok.mp h
    obtain ⟨seg₁, -, rfl⟩ := Exec.zoom_ok.mp hlo
    split at h
    · cases h
      exact ⟨seg₁, rfl⟩
    · obtain ⟨hi, cpu₂, hhi, h⟩ := Exec.bind_ok.mp h
      cases h
      obtain ⟨seg₂, -, rfl⟩ := Exec.zoom_ok.mp hhi
      exact ⟨seg₂, rfl⟩

/-! ## What a store may touch -/

/-- The bytes an operation writes when it returns. -/
def target (cpu : Cpu M) : Op → Option (U32 × ℕ)
  | .sb rs1 _ imm => some (cpu.reg rs1 + imm, 1)
  | .sh rs1 _ imm => some (cpu.reg rs1 + imm, 2)
  | .sw rs1 _ imm => some (cpu.reg rs1 + imm, 4)
  | .scW _ rs1 _ =>
      if cpu.reservation_addr = some (cpu.reg rs1) then some (cpu.reg rs1, 4) else none
  | .amoswapW _ rs1 _ | .amoaddW _ rs1 _ | .amoxorW _ rs1 _ | .amoandW _ rs1 _
  | .amoorW _ rs1 _ | .amominW _ rs1 _ | .amomaxW _ rs1 _ | .amominuW _ rs1 _
  | .amomaxuW _ rs1 _ => some (cpu.reg rs1, 4)
  | _ => none

/-- No data ends below address 4, where the bounds check of a store would wrap. -/
def Bounded (cpu : Cpu M) : Prop :=
  ∀ s ≠ Segment.code_seg, (cpu.segment s).start_address + (cpu.segment s).size = 0 ∨
    4 ≤ ((cpu.segment s).start_address + (cpu.segment s).size).toNat

omit [PagedMemory M] in
theorem Bounded.of_kept {I : Segment → M → Prop} (h : cpu.Bounded) (hk : Kept cpu I cpu') :
    cpu'.Bounded := by
  intro s hs
  rw [(hk s).start, (hk s).size]
  exact h s hs

omit [PagedMemory M] in
theorem owner_ne_code {s : Segment} {a : U32} (hs : s ≠ .code_seg)
    (h : (cpu.segment s).contains a = true) : cpu.owner a ≠ some .code_seg := by
  unfold owner
  cases s with
  | stack_seg =>
      have h' : cpu.stack_seg.contains a = true := h
      rw [if_pos h']
      decide
  | data_seg =>
      have h' : cpu.data_seg.contains a = true := h
      rw [if_pos h']
      split <;> decide
  | code_seg => exact absurd rfl hs

/-- All the bytes of a store that returned are in the segment it looked up. -/
theorem store_range {w : ℕ} {a : U32} {bytes : Bytes} {u : Unit} (hb : cpu.Bounded) (hw : w ≤ 4)
    (h : (write (do
        let (page, offset) ← MemorySegment.locate (M := M) a (BitVec.ofNat 32 w)
        MemorySegment.write_page page offset bytes) (BitVec.ofNat 32 w) a :
      Exec (CpuError E) (Cpu M) Unit) cpu = .ok u cpu') :
    ∀ k < w, cpu.owner (a + BitVec.ofNat 32 k) ≠ some .code_seg := by
  have hseg : ∀ s ≠ Segment.code_seg, ∀ {v : Unit} {cpu₁ : Cpu M},
      (cpu.segment s).contains a = true →
      (on_segment s (do
        let (page, offset) ← MemorySegment.locate (M := M) a (BitVec.ofNat 32 w)
        MemorySegment.write_page page offset bytes) : Exec (CpuError E) (Cpu M) Unit) cpu =
        .ok v cpu₁ →
      ∀ k < w, cpu.owner (a + BitVec.ofNat 32 k) ≠ some .code_seg := by
    intro s hs v cpu₁ hin hrun k hk
    obtain ⟨seg', hrun, -⟩ := Exec.zoom_ok.mp hrun
    obtain ⟨⟨r, off⟩, seg₁, hloc, -⟩ := Exec.bind_ok.mp hrun
    obtain ⟨hlo, hhi, -⟩ := locate_inv hloc
    obtain ⟨-, hlt⟩ := MemorySegment.contains_iff.mp hin
    refine owner_ne_code hs (MemorySegment.contains_iff.mpr ?_)
    have hend : 4 ≤ ((cpu.segment s).start_address + (cpu.segment s).size).toNat := by
      rcases hb s hs with h0 | h4
      · rw [h0] at hlt
        exact absurd hlt (Nat.not_lt_zero _)
      · exact h4
    have := ((cpu.segment s).start_address + (cpu.segment s).size).isLt
    rw [BitVec.toNat_sub, BitVec.toNat_ofNat] at hhi
    rw [BitVec.toNat_add, BitVec.toNat_ofNat]
    omega
  obtain ⟨v, cpu₁, hwrite, -⟩ := Exec.bind_ok.mp h
  rw [write_segment, Exec.get_bind] at hwrite
  split at hwrite
  · next hin => exact hseg .stack_seg (by decide) hin hwrite
  · split at hwrite
    · next hin => exact hseg .data_seg (by decide) hin hwrite
    · cases hwrite

omit [PagedMemory M] in
theorem store_inv {n v : U32} {rs1 rs2 : RegNum} {imm : I32}
    {put : U32 → U32 → Exec (CpuError E) (Cpu M) Unit}
    (h : store n rs1 rs2 imm put cpu = .ok v cpu') :
    put (cpu.reg rs1 + imm) (cpu.reg rs2) cpu = .ok () cpu' := by
  rw [store, Exec.get_bind] at h
  obtain ⟨u, cpu₁, hput, h⟩ := Exec.bind_ok.mp h
  cases h
  exact hput

/-- A store, SC.W or atomic operation that returned wrote no byte of the code. -/
theorem target_range {op : Op} {n v : U32} {a : U32} {w : ℕ} (hb : cpu.Bounded)
    (ht : cpu.target op = some (a, w))
    (h : (execute_op op n : Exec (CpuError E) (Cpu M) U32) cpu = .ok v cpu') :
    ∀ k < w, cpu.owner (a + BitVec.ofNat 32 k) ≠ some .code_seg := by
  have hamo {name : String} {rd rs1 rs2 : RegNum} {f : U32 → U32 → U32}
      (hrun : (amo n name rd rs1 rs2 f : Exec (CpuError E) (Cpu M) U32) cpu = .ok v cpu') :
      ∀ k < 4, cpu.owner (cpu.reg rs1 + BitVec.ofNat 32 k) ≠ some .code_seg := by
    rw [amo, Exec.get_bind] at hrun
    obtain ⟨-, hrun⟩ := Exec.reject_bind_ok.mp hrun
    obtain ⟨old, cpu₁, hread, hrun⟩ := Exec.bind_ok.mp hrun
    obtain ⟨u, cpu₂, hwrite, -⟩ := Exec.bind_ok.mp hrun
    have hk : Kept cpu (fun _ _ => True) cpu₁ :=
      (keeps_read_u32 .bounds _ fun s => ⟨rfl, rfl, trivial⟩).ok hread
    rw [← hk.owner]
    exact store_range (hb.of_kept hk) (by decide) hwrite
  cases op
  case sb =>
    obtain ⟨rfl, rfl⟩ := Prod.mk.inj (Option.some.inj ht)
    rw [execute_op] at h
    exact store_range hb (by decide) (store_inv h)
  case sh | sw =>
    obtain ⟨rfl, rfl⟩ := Prod.mk.inj (Option.some.inj ht)
    rw [execute_op] at h
    exact store_range hb (by decide) (Exec.reject_bind_ok.mp (store_inv h)).2
  case scW rd rs1 rs2 =>
    rw [execute_op, store_conditional, Exec.get_bind] at h
    obtain ⟨-, h⟩ := Exec.reject_bind_ok.mp h
    rw [target] at ht
    split at ht
    · next hres =>
        obtain ⟨rfl, rfl⟩ := Prod.mk.inj (Option.some.inj ht)
        rw [if_pos hres] at h
        obtain ⟨u, cpu₁, hwrite, -⟩ := Exec.bind_ok.mp h
        exact store_range hb (by decide) hwrite
    · cases ht
  case amoswapW | amoaddW | amoxorW | amoandW | amoorW | amominW | amomaxW | amominuW |
      amomaxuW =>
    obtain ⟨rfl, rfl⟩ := Prod.mk.inj (Option.some.inj ht)
    rw [execute_op] at h
    exact hamo h
  all_goals cases ht

end Cpu

/-! ## A turn of the loop -/

namespace CommEcallHandler

variable {M : Type} [PagedMemory M] {cpu₀ : Cpu M} {I : M → Prop}
  {s s' : CommEcallHandler × Cpu M}

/-- If the instruction to be executed is an ECALL, it has no output pointer in
the code. -/
def Clear (s : CommEcallHandler × Cpu M) : Prop :=
  ∀ inst cpu, (Cpu.fetch_instruction : Exec (CpuError CommEcallError) (Cpu M) U32) s.2 =
    .ok inst cpu → (decode inst).1 = .ecall →
    ∀ p ∈ s.1.outputs s.2.reg (s.2.reg T0).toNat, s.2.owner p ≠ some .code_seg

/-- The instruction of a turn that returned, and what executing it did. -/
theorem step_inv {ecall_handler : Option (Ecall M Unit)}
    (h : Cpu.step ecall_handler s = .ok () s') :
    ∃ inst cpu, (Cpu.fetch_instruction : Exec (CpuError CommEcallError) (Cpu M) U32) s.2 =
        .ok inst cpu ∧ Cpu.execute ecall_handler inst (s.1, cpu) = .ok () s' := by
  obtain ⟨inst, s₁, hfetch, h⟩ := Exec.bind_ok.mp h
  obtain ⟨cpu, hcpu, rfl⟩ := Exec.zoom_ok.mp hfetch
  exact ⟨inst, cpu, hcpu, h⟩

/-- A turn that returned fetched an instruction, and handled an ECALL or executed
any other operation. -/
theorem turn_inv {sdk : Sdk} (h : Cpu.step (some (handle_ecall sdk)) s = .ok () s') :
    ∃ inst cpu, (Cpu.fetch_instruction : Exec (CpuError CommEcallError) (Cpu M) U32) s.2 =
        .ok inst cpu ∧
      ((decode inst).1 = .ecall ∧
          (∃ s₁, handle_code sdk s.2.reg (s.2.reg T0).toNat (s.1, cpu) = .ok () s₁ ∧
            s' = (s₁.1, s₁.2.advance (decode inst).2)) ∨
        (decode inst).1 ≠ .ecall ∧
          ∃ v cpu₁, (Cpu.execute_op (decode inst).1 (decode inst).2 :
              Exec (CpuError CommEcallError) (Cpu M) U32) cpu = .ok v cpu₁ ∧
            s' = (s.1, cpu₁.advance v)) := by
  obtain ⟨inst, cpu, hfetch, h⟩ := step_inv h
  obtain ⟨seg, hcpu⟩ := Cpu.fetch_frame hfetch
  have hreg : cpu.reg = s.2.reg := by rw [hcpu]; rfl
  refine ⟨inst, cpu, hfetch, ?_⟩
  cases hdec : decode inst with
  | mk op n =>
      by_cases hop : op = .ecall
      · rw [Cpu.execute, hdec, hop] at h
        obtain ⟨_, s₂, hecall, h⟩ := Exec.bind_ok.mp h
        rw [Cpu.execute_ecall] at hecall
        obtain ⟨s₃, hcode, rfl⟩ := Exec.zoom_ok.mp hecall
        obtain ⟨cpu', hadv, rfl⟩ := Exec.zoom_ok.mp h
        cases hadv
        rw [handle_ecall, Exec.get_bind] at hcode
        dsimp only [id] at hcode
        rw [hreg] at hcode
        exact .inl ⟨hop, s₂, hcode, rfl⟩
      · rw [Cpu.execute_eq hdec hop] at h
        obtain ⟨cpu', hrun, rfl⟩ := Exec.zoom_ok.mp h
        obtain ⟨v, cpu₁, harm, hadv⟩ := Exec.bind_ok.mp hrun
        cases hadv
        exact .inr ⟨hop, v, cpu₁, harm, rfl⟩

/-- The memory of the code keeps what lookups keep. -/
theorem step_spares
    (hget : ∀ i, Exec.Keeps False I (PagedMemory.get_page i : Exec MemoryError M _))
    {sdk : Sdk} (hclear : Clear s) (h : Cpu.step (some (handle_ecall sdk)) s = .ok () s')
    (hs : Spared cpu₀ (fun seg m => seg = .code_seg → I m) s) :
    Spared cpu₀ (fun seg m => seg = .code_seg → I m) s' := by
  have hmem := Cpu.MemoryKept.code hget
  obtain ⟨inst, cpu, hfetch, h⟩ := turn_inv h
  have hs₁ : Cpu.Kept cpu₀ (fun seg m => seg = .code_seg → I m) cpu :=
    (Cpu.keeps_fetch hmem hs).ok hfetch
  rcases h with ⟨hop, s₁, hcode, rfl⟩ | ⟨-, v, cpu₁, hrun, rfl⟩
  · have hs₂ : Spared cpu₀ (fun seg m => seg = .code_seg → I m) (s.1, cpu) := hs₁
    refine Cpu.Kept.of_segments ?_ fun seg => Cpu.advance_segment s₁.2 _ seg
    refine (handle_code_keepsAt hmem False.elim (fun p hp seg hseg => ?_) hs₂).ok hcode
    rw [← Cpu.Kept.owner hs] at hseg
    refine hmem.overwrite seg fun he => ?_
    exact hclear inst cpu hfetch hop p hp (by rw [hseg, he])
  · exact Cpu.Kept.of_segments ((Cpu.keeps_execute_op hmem _ _ hs₁).ok hrun)
      fun seg => Cpu.advance_segment cpu₁ v seg

/-- A store, SC.W or atomic operation whose turn returned wrote no byte of the
code. -/
theorem step_target {ecall_handler : Option (Ecall M Unit)} {inst : U32} {cpu : Cpu M} {a : U32}
    {w : ℕ} (hb : s.2.Bounded) (h : Cpu.step ecall_handler s = .ok () s')
    (hfetch : (Cpu.fetch_instruction : Exec (CpuError CommEcallError) (Cpu M) U32) s.2 =
      .ok inst cpu) (ht : s.2.target (decode inst).1 = some (a, w)) :
    ∀ k < w, s.2.owner (a + BitVec.ofNat 32 k) ≠ some .code_seg := by
  obtain ⟨inst', cpu', hfetch', h⟩ := step_inv h
  obtain ⟨rfl, rfl⟩ := Outcome.ok.inj (hfetch.symm.trans hfetch')
  have hk : Cpu.Kept s.2 (fun _ _ => True) cpu :=
    (Cpu.keeps_fetch .bounds fun _ => ⟨rfl, rfl, trivial⟩).ok hfetch
  obtain ⟨seg, hcpu⟩ := Cpu.fetch_frame hfetch
  have ht' : cpu.target (decode inst).1 = some (a, w) := by rw [← ht, hcpu]; rfl
  cases hdec : decode inst with
  | mk op n =>
      rw [hdec] at ht'
      have hop : op ≠ .ecall := by rintro rfl; cases ht'
      rw [Cpu.execute_eq hdec hop] at h
      obtain ⟨cpu₁, hrun, -⟩ := Exec.zoom_ok.mp h
      obtain ⟨v, cpu₂, hrun, -⟩ := Exec.bind_ok.mp hrun
      rw [← hk.owner]
      exact Cpu.target_range (hb.of_kept hk) ht' hrun

/-- What an ECALL writes through a pointer stays in the pointer's segment. -/
theorem write_guest_range {ptr : GuestPointer} {buffer : Bytes} {u : Unit}
    (hlen : buffer.length < 2 ^ 32) (hptr : s.2.owner ptr ≠ some .code_seg)
    (h : write_guest ptr buffer s = .ok u s') :
    ∀ k < buffer.length, s.2.owner (ptr + BitVec.ofNat 32 k) ≠ some .code_seg := by
  intro k hk
  obtain ⟨seg, s₁, hseg, h⟩ := Exec.bind_ok.mp h
  obtain ⟨cpu, hlookup, rfl⟩ := Exec.zoom_ok.mp hseg
  obtain ⟨howner, rfl⟩ := Cpu.get_segment_owner hlookup
  obtain ⟨m, hwrite, -⟩ := Exec.zoom_ok.mp h
  obtain ⟨_, m₁, hcheck, -⟩ := Exec.bind_ok.mp hwrite
  rw [MemorySegment.check_range, Exec.get_bind] at hcheck
  obtain ⟨hover, hcheck⟩ := Exec.reject_bind_ok.mp hcheck
  obtain ⟨hrange, -⟩ := Exec.reject_ok.mp hcheck
  have hne : seg ≠ .code_seg := fun he => hptr (by rw [howner, he])
  refine Cpu.owner_ne_code hne (MemorySegment.contains_iff.mpr ?_)
  obtain ⟨hlo, -⟩ := MemorySegment.contains_iff.mp (Cpu.contains_of_owner howner)
  rw [not_or] at hrange
  have hend := BitVec.not_lt.mp hrange.2
  rw [BitVec.toNat_ofNat] at hover
  have hend' : (ptr + BitVec.ofNat 32 buffer.length).toNat ≤
    ((s.2.segment seg).start_address + (s.2.segment seg).size).toNat := hend
  rw [BitVec.toNat_add, BitVec.toNat_ofNat] at hend' ⊢
  omega

end CommEcallHandler

/-! ## Runs -/

namespace Manifest

theorem validate_entrypoint {m : Manifest} (h : m.validate.isOk = true) :
    m.code_start ≤ m.entrypoint ∧ m.entrypoint < m.code_end := by
  by_contra hne
  have hcond : m.entrypoint < m.code_start ∨ m.entrypoint ≥ m.code_end := by
    rw [not_and_or, BitVec.not_le, BitVec.not_lt] at hne
    exact hne
  unfold validate at h
  simp only [if_pos hcond] at h
  repeat' split at h
  all_goals cases h

end Manifest

namespace handler_start_vapp

variable {dev : Device} {world : Surroundings} {manifest : Manifest}
  {s₀ : CommEcallHandler × Cpu VappMemory}

theorem segment_inv {start end_ : U32} {mem : VappMemory} {seg : MemorySegment VappMemory}
    (h : segment start end_ mem = some seg) : seg = ⟨start, end_ - start, mem⟩ := by
  unfold segment MemorySegment.new at h
  split at h
  · cases h
  · split at h
    · cases h
    · split at h
      · cases h
      · cases h; rfl

theorem start_inv (h : start dev world manifest = some s₀) :
    manifest.code_start < manifest.code_end ∧
      (∃ two_q, s₀.2.code_seg = ⟨manifest.code_start, manifest.code_end - manifest.code_start,
        section_mem world world.code_replies world.n_code_cache_pages true .code
          manifest.n_code_pages manifest.code_merkle_root (.twoQ two_q)
          (manifest.get_vapp_hash dev.sha256)⟩) ∧
      s₀.2.data_seg.start_address + s₀.2.data_seg.size = manifest.data_end ∧
      s₀.2.stack_seg.start_address + s₀.2.stack_seg.size = manifest.stack_end := by
  obtain ⟨_, hvalid, h⟩ := Option.bind_eq_some_iff.mp h
  obtain ⟨_, -, h⟩ := Option.bind_eq_some_iff.mp h
  obtain ⟨two_q, -, h⟩ := Option.bind_eq_some_iff.mp h
  obtain ⟨code_seg, hcode, h⟩ := Option.bind_eq_some_iff.mp h
  obtain ⟨data_seg, hdata, h⟩ := Option.bind_eq_some_iff.mp h
  obtain ⟨stack_seg, hstack, h⟩ := Option.bind_eq_some_iff.mp h
  cases h
  obtain rfl := segment_inv hcode
  obtain rfl := segment_inv hdata
  obtain rfl := segment_inv hstack
  have hvalid : manifest.validate.isOk = true := by
    by_contra hne
    rw [guard, if_neg hne] at hvalid
    cases hvalid
  obtain ⟨hlo, hhi⟩ := Manifest.validate_entrypoint hvalid
  have hend (start end_ : U32) : start + (end_ - start) = end_ := by
    rw [BitVec.add_comm, BitVec.sub_add_cancel]
  exact ⟨Nat.lt_of_le_of_lt hlo hhi, ⟨two_q, rfl⟩, hend _ _, hend _ _⟩

section
variable {S : Set Bytes} {d : ℕ} {leaf : ℕ → HashOutput 32}

/-- The memory of the code, before anything was fetched. -/
theorem committed_new {two_q : TwoQEvictionStrategy}
    (hd : checked_next_power_of_two manifest.n_code_pages.toNat = 2 ^ d)
    (hroot : manifest.code_merkle_root = rootOf dev.sha256 leaf d)
    (htags : ∀ (data : Bytes) (response : GetPageResponse) (tag : HashOutput 32) (i : U32)
      (h : HashOutput 32), .ok data ∈ world.code_replies.replies →
      GetPageResponse.deserialize data = .ok response → tag ∈ response.proof →
      i.toNat < 2 ^ d → dev.compute_code_page_hmac
        (dev.get_vapp_auth_key (manifest.get_vapp_hash dev.sha256))
        (manifest.get_vapp_hash dev.sha256) i h = some tag → h = leaf i.toNat) :
    OutsourcedMemory.Committed dev S world.aes_key d leaf
      (section_mem world world.code_replies world.n_code_cache_pages true .code
        manifest.n_code_pages manifest.code_merkle_root (.twoQ two_q)
        (manifest.get_vapp_hash dev.sha256)) where
  readonly := rfl
  n_pages := hd
  root := hroot
  aes_key := rfl
  tagged := by
    rintro i h hi ⟨data, response, tag, hdata, hresponse, htag, hmac⟩
    exact htags data response tag i h hdata hresponse htag hi hmac
  slot := by
    intro _ j c hj hv
    have hj' : (List.replicate world.n_code_cache_pages CachedPage.default)[j]? = some c := hj
    rw [List.getElem?_replicate] at hj'
    split at hj'
    · cases hj'; cases hv
    · cases hj'

/-- Lookups in a memory of the code hand out what the leaves open to. -/
theorem opens (hS : CollisionFree dev.sha256 S) (htree : TreeIn dev.sha256 leaf d S)
    (key : AesKey) :
    @MemorySegment.Opens VappMemory (OutsourcedMemory.pagedMemory dev)
      (fun m => OutsourcedMemory.Committed dev S key d leaf m ∧ m.LastValid)
      (fun m => ∀ x ∈ m.hasher.digested, x ∈ S) (2 ^ d) (openLeaf dev.sha256 S key leaf)
      (fun i => Stored dev.sha256 S key leaf i (openLeaf dev.sha256 S key leaf i)) := by
  let := OutsourcedMemory.pagedMemory (E := BoxedStrategy) dev
  refine ⟨fun i m hm => ⟨fun r m' h => ?_, fun _ _ _ hq => hq.elim⟩,
    fun i m m' r h hV x hx => ?_, fun i m m' r h hm hV hi => ?_⟩
  · obtain ⟨hm', hl', -⟩ := hm.1.get_page hS htree hm.2 h
    exact ⟨hm', hl'⟩
  · exact hV x (OutsourcedMemory.get_page_digested h hx)
  · obtain ⟨hm', -, c, hc, hv, rfl⟩ := hm.1.get_page hS htree hm.2 h
    have hstored := hm'.slot hV r c hc hv hi
    have hpage := hstored.openLeaf_eq hS
    refine ⟨?_, hpage ▸ hstored⟩
    rw [← hpage]
    exact OutsourcedMemory.deref_eq hc

end

end handler_start_vapp

open handler_start_vapp in
/-- In a run whose ECALLs have no output pointer in the code, the code never
changes. There are pages, the only ones the leaves under the manifest's root
open to, and a fetch that returns an instruction returns the one that is in
them, whatever was evicted and loaded again, and whatever the host answered.
Nothing that returns has written a byte of the code. `htags` says that HMAC is
unforgeable: the host has no tags but those of the committed hashes. -/
theorem code_segment_immutable {dev : Device} {sdk : Sdk} {world : Surroundings}
    {manifest : Manifest} {s₀ : CommEcallHandler × Cpu VappMemory} {S : Set Bytes} {d : ℕ}
    {leaf : ℕ → HashOutput 32} (hstart : start dev world manifest = some s₀)
    (hd : checked_next_power_of_two manifest.n_code_pages.toNat = 2 ^ d)
    (hroot : manifest.code_merkle_root = rootOf dev.sha256 leaf d)
    (hS : CollisionFree dev.sha256 S) (htree : TreeIn dev.sha256 leaf d S)
    (htags : ∀ (data : Bytes) (response : GetPageResponse) (tag : HashOutput 32) (i : U32)
      (h : HashOutput 32), .ok data ∈ world.code_replies.replies →
      GetPageResponse.deserialize data = .ok response → tag ∈ response.proof →
      i.toNat < 2 ^ d → dev.compute_code_page_hmac
        (dev.get_vapp_auth_key (manifest.get_vapp_hash dev.sha256))
        (manifest.get_vapp_hash dev.sha256) i h = some tag → h = leaf i.toNat)
    (hdata : manifest.data_end = 0 ∨ 4 ≤ manifest.data_end.toNat)
    (hstack : manifest.stack_end = 0 ∨ 4 ≤ manifest.stack_end.toNat) :
    letI := OutsourcedMemory.pagedMemory (E := BoxedStrategy) dev
    ∃ code : U32 → Page,
      (∀ i page, Stored dev.sha256 S world.aes_key leaf i page → page = code i) ∧
      ∀ s, Exec.Reaches (turn dev sdk) CommEcallHandler.Clear s₀ s →
        (∀ inst cpu, s.2.code_seg.contains s.2.pc = true →
          (Cpu.fetch_instruction : Exec (CpuError CommEcallError) (Cpu VappMemory) U32) s.2 =
            .ok inst cpu →
          (∀ x ∈ cpu.code_seg.paged_memory.hasher.digested, x ∈ S) →
          inst = s₀.2.code_seg.inst_of code s.2.pc ∧
            Stored dev.sha256 S world.aes_key leaf (s₀.2.code_seg.page_index s.2.pc)
              (code (s₀.2.code_seg.page_index s.2.pc)) ∧
            (inst.setWidth 16 &&& 0b11 = 0b11#16 →
              Stored dev.sha256 S world.aes_key leaf (s₀.2.code_seg.page_index (s.2.pc + 2))
                (code (s₀.2.code_seg.page_index (s.2.pc + 2))))) ∧
        (∀ inst cpu s' a w, turn dev sdk s = .ok () s' →
          (Cpu.fetch_instruction : Exec (CpuError CommEcallError) (Cpu VappMemory) U32) s.2 =
            .ok inst cpu → s.2.target (decode inst).1 = some (a, w) →
          ∀ k < w, s.2.owner (a + BitVec.ofNat 32 k) ≠ some .code_seg) ∧
        (∀ (ptr : GuestPointer) (buffer : Bytes) s', buffer.length < 2 ^ 32 →
          s.2.owner ptr ≠ some .code_seg → CommEcallHandler.write_guest ptr buffer s = .ok () s' →
          ∀ k < buffer.length, s.2.owner (ptr + BitVec.ofNat 32 k) ≠ some .code_seg) := by
  let := OutsourcedMemory.pagedMemory (E := BoxedStrategy) dev
  obtain ⟨hne, ⟨two_q, hcode⟩, hdata_end, hstack_end⟩ := start_inv hstart
  have ho := opens hS htree world.aes_key
  have hkept : ∀ s, Exec.Reaches (turn dev sdk) CommEcallHandler.Clear s₀ s →
      CommEcallHandler.Spared s₀.2 (fun seg m => seg = .code_seg →
        OutsourcedMemory.Committed dev S world.aes_key d leaf m ∧ m.LastValid) s := by
    intro s hs
    refine hs.invariant ?_ fun t t' hclear ht hturn =>
      CommEcallHandler.step_spares ho.keeps hclear hturn ht
    intro seg
    refine ⟨rfl, rfl, ?_⟩
    rintro rfl
    show OutsourcedMemory.Committed dev S world.aes_key d leaf s₀.2.code_seg.paged_memory ∧
      s₀.2.code_seg.paged_memory.LastValid
    rw [hcode]
    exact ⟨committed_new hd hroot htags, fun p t h => by cases h⟩
  have hpages : ∀ a, s₀.2.code_seg.contains a = true →
      (s₀.2.code_seg.page_index a).toNat < 2 ^ d := by
    intro a ha
    obtain ⟨hlo, hhi⟩ := MemorySegment.contains_iff.mp ha
    have hn := Manifest.n_pages_toNat hne
    have hle := le_checked_next_power_of_two manifest.n_code_pages.toNat
    rw [hd, Manifest.n_code_pages, hn] at hle
    have hend : s₀.2.code_seg.start_address + s₀.2.code_seg.size = manifest.code_end := by
      rw [hcode, BitVec.add_comm, BitVec.sub_add_cancel]
    have hst : s₀.2.code_seg.start_address = manifest.code_start := by rw [hcode]
    rw [hend] at hhi
    rw [hst] at hlo
    rw [MemorySegment.page_index_toNat (by rw [hst]; exact hlo), hst]
    omega
  have hbounded : s₀.2.Bounded := by
    rintro (_ | _ | _) hs
    · rw [← hstack_end] at hstack; exact hstack
    · rw [← hdata_end] at hdata; exact hdata
    · exact absurd rfl hs
  refine ⟨openLeaf dev.sha256 S world.aes_key leaf, fun i page h => h.openLeaf_eq hS,
    fun s hs => ⟨fun inst cpu hpc hfetch hsub => ?_, ?_, ?_⟩⟩
  · obtain ⟨hstart_eq, hsize_eq, hmem⟩ := hkept s hs .code_seg
    have hseg : s.2.code_seg = { s₀.2.code_seg with paged_memory := s.2.code_seg.paged_memory } :=
      MemorySegment.ext_bounds hstart_eq hsize_eq
    have hin (a : U32) : s.2.code_seg.contains a = s₀.2.code_seg.contains a := by rw [hseg]; rfl
    have hidx (a : U32) : s.2.code_seg.page_index a = s₀.2.code_seg.page_index a := by
      rw [hseg]; rfl
    obtain ⟨hopened, hopened₂, hinst⟩ := Cpu.fetch_inv ho (hmem rfl) hsub hpc
      (fun a ha => by rw [hidx]; exact hpages a (by rw [← hin]; exact ha)) hfetch
    rw [hidx] at hopened hopened₂
    refine ⟨?_, hopened, hopened₂⟩
    rw [hinst, hseg]
    rfl
  · intro inst cpu s' a w hturn hfetch ht
    exact CommEcallHandler.step_target (hbounded.of_kept (hkept s hs)) hturn hfetch ht
  · intro ptr buffer s' hlen hptr hwrite
    exact CommEcallHandler.write_guest_range hlen hptr hwrite

/-! ## A run that changes the code

The V-App asks for a message and gives the address of its first instruction as
the buffer. -/

namespace SelfWriting

/-- `addi x5, x0, 3`, `addi x11, x0, 4`, `ecall`, `jal x0, -12`. -/
def page : Page :=
  array [0x93, 0x02, 0x30, 0x00, 0x93, 0x05, 0x40, 0x00, 0x73, 0x00, 0x00, 0x00, 0x6f, 0xf0,
    0x5f, 0xff] 0 PAGE_SIZE

def leaf : HashOutput 32 :=
  ofHex 0xeef5febddd02ec15bb43b7404cf919ab4312fbf59b83f4a21c9986283798c185

def manifest : Manifest where
  manifest_version := 1
  vapp_name := "a"
  vapp_version := "1"
  entrypoint := 0
  code_start := 0
  code_end := 0x100
  code_merkle_root := leaf
  data_start := 0x1000
  data_end := 0x1100
  data_merkle_root := Vector.replicate 32 0
  stack_start := 0x2000
  stack_end := 0x2100
  stack_merkle_root := Vector.replicate 32 0
  n_storage_slots := 0

/-- SHA-256 on the page and on the manifest, which differ in the fourth byte. -/
def sha256 (m : Bytes) : HashOutput 32 :=
  if m.getD 3 0 = 0 then leaf
  else ofHex 0x2b33deaa945bf24f9d02aca39da00d16b14a5dea252f027bc72000d6752bc8d3

def device : Device where
  sha256 := sha256
  hmac_sha256 _ _ := none
  auth_key := Vector.replicate 32 0

def sdk : Sdk where
  os := .stax
  heap := 0
  math_modm _ _ := none
  math_addm _ _ _ := none
  math_subm _ _ _ := none
  math_multm _ _ _ := none
  math_invprimem _ _ := none
  math_powm _ _ _ := none
  sizeof_ripemd160 := 0
  sizeof_sha256 := 0
  sizeof_sha512 := 0
  sizeof_sha3 := 0
  hash_init_ex _ _ _ := none
  hash_update _ _ := none
  hash_final _ := none
  derive_node_bip32 _ := (Vector.replicate 32 0, Vector.replicate 32 0)
  generate_public_key _ := none
  sha256 := sha256
  ripemd160 _ := Vector.replicate 20 0
  slip21_seed := Vector.replicate 32 0
  hmac_sha512 _ _ := Vector.replicate 64 0
  ecfp_add_point _ _ := .error
  ecfp_scalar_mult _ _ := .error
  rng _ _ := []
  ecdsa_sign _ _ := none
  ecdsa_verify _ _ _ := false
  ecschnorr_sign _ _ _ _ := none
  ecschnorr_verify _ _ _ _ := false

/-- The page is asked for once. The message is `addi x5, x0, 4`. -/
def world : Surroundings where
  code_replies := { replies := [.ok (page.toList ++ List.replicate 16 0)] }
  data_replies := { replies := [] }
  stack_replies := { replies := [] }
  replies := { replies := [.ok [0, 0, 0, 4, 0x93, 0x02, 0x40, 0x00]] }
  aes_key := { encrypt_block := fun _ => none }
  n_code_cache_pages := 4
  n_data_cache_pages := 4
  n_stack_cache_pages := 4
  storage := [some {
    vapp_hash := manifest.get_vapp_hash sha256
    storage_slots := Vector.replicate 4 (Vector.replicate STORAGE_SLOT_SIZE 0) }]
  last_event := none
  events := []

/-- What is fetched next, from where, and what was hashed until then. -/
def fetched (s : CommEcallHandler × Cpu VappMemory) : Option (U32 × U32 × List Bytes) :=
  letI := OutsourcedMemory.pagedMemory (E := BoxedStrategy) device
  match (Cpu.fetch_instruction : Exec (CpuError CommEcallError) (Cpu VappMemory) U32) s.2 with
  | .ok inst cpu => some (s.2.pc, inst, cpu.code_seg.paged_memory.hasher.digested)
  | _ => none

/-- The fetch after `n` turns. -/
def observed (n : ℕ) : Option (U32 × U32 × List Bytes) := do
  let s₀ ← handler_start_vapp.start device world manifest
  let s ← Exec.turns (handler_start_vapp.turn device sdk) n s₀
  fetched s

theorem fetched_some {s : CommEcallHandler × Cpu VappMemory} {pc inst : U32}
    {digested : List Bytes} (h : fetched s = some (pc, inst, digested)) :
    letI := OutsourcedMemory.pagedMemory (E := BoxedStrategy) device
    s.2.pc = pc ∧ ∃ cpu, (Cpu.fetch_instruction :
      Exec (CpuError CommEcallError) (Cpu VappMemory) U32) s.2 = .ok inst cpu ∧
        cpu.code_seg.paged_memory.hasher.digested = digested := by
  unfold fetched at h
  split at h
  · next i cpu hfetch =>
      cases h
      exact ⟨rfl, cpu, hfetch, rfl⟩
  · cases h

theorem observed_some {n : ℕ} {o : U32 × U32 × List Bytes} (h : observed n = some o) :
    ∃ s₀ s, handler_start_vapp.start device world manifest = some s₀ ∧
      Exec.turns (handler_start_vapp.turn device sdk) n s₀ = some s ∧ fetched s = some o := by
  simp only [observed, Option.bind_eq_bind, Option.bind_eq_some_iff] at h
  obtain ⟨s₀, hstart, s, hturns, h⟩ := h
  exact ⟨s₀, s, hstart, hturns, h⟩

def messages : Set Bytes := {recordMessage (none, page)}

theorem observed_first :
    observed 0 = some (0, 0x00300293, [recordMessage (none, page)]) := by decide +kernel

end SelfWriting

/-- Before the program overwrites itself: the committed page has the instruction
that is fetched first. -/
theorem code_segment_immutable_addi : ∃ (s₀ : CommEcallHandler × Cpu VappMemory)
    (code : U32 → Page),
    handler_start_vapp.start SelfWriting.device SelfWriting.world SelfWriting.manifest = some s₀ ∧
      s₀.2.code_seg.inst_of code 0 = 0x00300293 := by
  obtain ⟨s₀, s, hstart, hturns, hfetched⟩ := SelfWriting.observed_some SelfWriting.observed_first
  cases hturns
  obtain ⟨hpc, cpu, hfetch, hdigested⟩ := SelfWriting.fetched_some hfetched
  obtain ⟨code, -, hruns⟩ := @code_segment_immutable SelfWriting.device SelfWriting.sdk
    SelfWriting.world SelfWriting.manifest s₀ SelfWriting.messages 0 (fun _ => SelfWriting.leaf)
    hstart (by decide +kernel) rfl (Set.injOn_singleton _ _)
    (fun p hp => by obtain ⟨k, i, hk, -⟩ := hp; exact absurd hk (Nat.not_lt_zero _))
    (fun data response tag i h _ _ _ _ hmac => by cases hmac) (by decide) (by decide)
  have hin : s₀.2.code_seg.contains s₀.2.pc = true := by
    obtain ⟨-, ⟨two_q, hcode⟩, -⟩ := handler_start_vapp.start_inv hstart
    rw [hpc, hcode]
    rfl
  obtain ⟨hinst, -⟩ := (hruns s₀ .start).1 _ cpu hin hfetch fun x hx => by
    rw [hdigested] at hx
    exact List.mem_singleton.mp hx
  rw [hpc] at hinst
  exact ⟨s₀, code, hstart, hinst.symm⟩

/-- After four turns the same address has another instruction. -/
theorem code_segment_rewritten :
    letI := OutsourcedMemory.pagedMemory (E := BoxedStrategy) SelfWriting.device
    ∃ (s₀ s : CommEcallHandler × Cpu VappMemory) (inst inst' : U32) (cpu cpu' : Cpu VappMemory),
      handler_start_vapp.start SelfWriting.device SelfWriting.world SelfWriting.manifest =
        some s₀ ∧
      Exec.Reaches (handler_start_vapp.turn SelfWriting.device SelfWriting.sdk)
        (fun _ => True) s₀ s ∧
      s.2.pc = s₀.2.pc ∧
      (Cpu.fetch_instruction : Exec (CpuError CommEcallError) (Cpu VappMemory) U32) s₀.2 =
        .ok inst cpu ∧
      (Cpu.fetch_instruction : Exec (CpuError CommEcallError) (Cpu VappMemory) U32) s.2 =
        .ok inst' cpu' ∧
      inst ≠ inst' := by
  obtain ⟨s₀, s₁, hstart, hturns, hfetched⟩ :=
    SelfWriting.observed_some SelfWriting.observed_first
  cases hturns
  obtain ⟨hpc, cpu, hfetch, -⟩ := SelfWriting.fetched_some hfetched
  have hlast : SelfWriting.observed 4 =
      some (0, 0x00400293, [recordMessage (none, SelfWriting.page)]) := by decide +kernel
  obtain ⟨t₀, t, hstart', hturns, hfetched⟩ := SelfWriting.observed_some hlast
  obtain rfl := Option.some.inj (hstart.symm.trans hstart')
  obtain ⟨hpc', cpu', hfetch', -⟩ := SelfWriting.fetched_some hfetched
  exact ⟨s₀, t, _, _, cpu, cpu', hstart, .of_turns hturns, hpc'.trans hpc.symm, hfetch, hfetch',
    by decide⟩

end Vanadium
