import Vanadium.Proofs.EcallKeeps

/-!
# Which values of a V-App make the VM panic

Twenty-seven of the thirty ECALLs check what they are given: `unguarded` lists
the others. Each of those panics in one place, and only there: a digest longer
than the buffer it is copied from, a key with nowhere to go, and a list of pairs
announced to be larger than memory. `Guarded` says that none of the three is
the case, and `handle_ecall_panics_iff` that nothing else has to be.

Lookups of pages are the memory's business. That they do not panic is assumed
here, and so is that a write leaves a memory of which that can still be said.
-/

namespace Vanadium

open Lib

namespace Deserializer

/-- A page that is parsed whole panics in its list of pairs or nowhere. -/
theorem full_page_panics_iff {heap : ℕ} {slice : Bytes} :
    Exec.Panics (page heap).full slice ↔ ∃ n rest, announced slice = .ok n rest ∧
      ¬ Fits heap n.toNat SIZE_OF_TAG_VALUE := by
  have hrest (p : Ux.Page) (rest : Bytes) : ¬ Exec.Panics (do
      let rest ← Exec.get
      Exec.reject (rest ≠ []) "extra bytes remaining after deserialization"
      pure p : Deserializer Ux.Page) rest := by
    have hkeeps : Exec.Keeps True (fun _ => True) (do
        let rest ← Exec.get
        Exec.reject (rest ≠ []) "extra bytes remaining after deserialization"
        pure p : Deserializer Ux.Page) :=
      Exec.Keeps.get.bind fun _ => (Exec.Keeps.reject _ _).bind fun _ => .pure _
    exact (hkeeps trivial).not_panics
  rw [full, Exec.panics_bind_left fun p rest _ => hrest p rest]
  constructor
  · intro hpanics
    by_contra hne
    refine (page_keepsAt fun _ n rest hn => ?_).not_panics hpanics
    by_contra hfits
    exact hne ⟨n, rest, hn, hfits⟩
  · rintro ⟨n, rest, hn, hfits⟩
    exact page_panics hn hfits

end Deserializer

namespace CommEcallHandler

variable {M : Type} [PagedMemory M]

/-- Looking up a page of such a memory does not panic, now and later. -/
structure Calm (I : M → Prop) : Prop where
  get_page (i : U32) : Exec.Keeps True I (PagedMemory.get_page i : Exec MemoryError M _)
  deref_mut : Overwritable I

variable {I : M → Prop}

theorem Calm.memoryKept (h : Calm I) : Cpu.MemoryKept True fun _ => I where
  get_page _ i := h.get_page i
  overwrite _ _ := h.deref_mut

theorem Calm.mayWrite (h : Calm I) (cpu : Cpu M) (ptr : GuestPointer) :
    MayWrite cpu (fun _ => I) ptr := fun _ _ => h.deref_mut

/-- Where the values a V-App passes to an ECALL are not checked, they are such
that nothing goes wrong. -/
structure Guarded (sdk : Sdk) (s : CommEcallHandler × Cpu M) : Prop where
  /-- A digest is not longer than 64 bytes. -/
  digest : (s.2.reg T0).toNat = ECALL_HASH_DIGEST →
    ∀ ctx_size, get_size_from_id sdk (s.2.reg A0) = .ok ctx_size →
      ∀ ctx s₁, read_guest (s.2.reg A1) ctx_size s = .ok ctx s₁ →
        ∀ digest, sdk.hash_final ctx = some digest →
          ∀ len, get_digest_len_from_id (s.2.reg A0) = .ok len → len ≤ 64
  /-- A SLIP-21 node can be written to where it is wanted. -/
  node : (s.2.reg T0).toNat = ECALL_DERIVE_SLIP21_KEY → ¬ (s.2.reg A1).toNat > 256 →
    ∀ labels s₁, read_guest (s.2.reg A0) (s.2.reg A1).toNat s = .ok labels s₁ →
      ∀ slices, parse_labels (s.2.reg A1).toNat labels [] = some slices →
        ∀ e s₂, ¬ write_guest (s.2.reg A2) (get_custom_slip21_node sdk slices).toList s₁ =
          .err e s₂
  /-- The pairs a page announces can be allocated. -/
  page : (s.2.reg T0).toNat = ECALL_SHOW_PAGE → ¬ (s.2.reg A1).toNat > MAX_UX_PAGE_LEN →
    ∀ page s₁, read_guest (s.2.reg A0) (s.2.reg A1).toNat s = .ok page s₁ →
      ∀ n rest, Deserializer.announced page = .ok n rest →
        Deserializer.Fits sdk.heap n.toNat Deserializer.SIZE_OF_TAG_VALUE

section
variable {sdk : Sdk} {s : CommEcallHandler × Cpu M} (hmem : Calm I)
  (hs : Spared s.2 (fun _ => I) s)
include hmem hs

theorem read_guest_calm (ptr : GuestPointer) (len : ℕ) :
    Exec.KeepsAt True (Steady s.2 (fun _ => I) s.2.reservation_addr) (read_guest ptr len) s :=
  keeps_read_guest hmem.memoryKept ptr len ⟨hs, rfl⟩

theorem hash_digest_panics_iff (hash_identifier : U32) (ctx digest : GuestPointer) :
    Exec.Panics (handle_hash_digest sdk hash_identifier ctx digest) s ↔
      ∃ ctx_size, get_size_from_id sdk hash_identifier = .ok ctx_size ∧
        ∃ ctx_local s₁, read_guest ctx ctx_size s = .ok ctx_local s₁ ∧
          ∃ digest_local, sdk.hash_final ctx_local = some digest_local ∧
            ∃ len, get_digest_len_from_id hash_identifier = .ok len ∧ ¬ len ≤ 64 := by
  rw [handle_hash_digest, Exec.panics_ofExcept_bind]
  refine exists_congr fun ctx_size => and_congr_right fun _ => ?_
  have hread := read_guest_calm hmem hs ctx ctx_size
  rw [Exec.panics_bind_of_not hread.not_panics]
  refine exists_congr fun ctx_local => exists_congr fun s₁ => and_congr_right fun hrun => ?_
  rw [Exec.panics_orElse_bind]
  refine exists_congr fun digest_local => and_congr_right fun _ => ?_
  rw [Exec.panics_ofExcept_bind]
  refine exists_congr fun len => and_congr_right fun _ => Exec.panics_assert_bind ?_
  exact (keeps_write_guest hmem.memoryKept (hmem.mayWrite _ _) _ (hread.ok hrun)).not_panics

omit [PagedMemory M] hmem hs in
theorem unwrap_ok_panics_iff {α : Type} {m : Ecall M α} (h : ¬ Exec.Panics m s) :
    Exec.Panics (unwrap_ok m) s ↔ ∃ e s', m s = .err e s' := by
  unfold Exec.Panics unwrap_ok
  cases hrun : m s with
  | ok a s' => simp
  | err e s' => simp
  | stop w s' =>
      refine ⟨?_, by simp⟩
      rintro ⟨_, hstop⟩
      exact absurd ⟨_, hrun.trans hstop⟩ h

theorem slip21_panics_iff (labels : GuestPointer) (labels_len : ℕ) (out : GuestPointer) :
    Exec.Panics (handle_derive_slip21_node sdk labels labels_len out) s ↔
      ¬ labels_len > 256 ∧ ∃ labels_local s₁, read_guest labels labels_len s =
        .ok labels_local s₁ ∧ ∃ slices, parse_labels labels_len labels_local [] = some slices ∧
          ∃ e s₂, write_guest out (get_custom_slip21_node sdk slices).toList s₁ = .err e s₂ := by
  rw [handle_derive_slip21_node, Exec.panics_reject_bind]
  refine and_congr_right fun _ => ?_
  have hread := read_guest_calm hmem hs labels labels_len
  rw [Exec.panics_bind_of_not hread.not_panics]
  refine exists_congr fun labels_local => exists_congr fun s₁ => and_congr_right fun hrun => ?_
  rw [Exec.panics_orElse_bind]
  refine exists_congr fun slices => and_congr_right fun _ => ?_
  rw [Exec.panics_bind_left fun _ _ _ => (Exec.Keeps.pure (I := fun _ => True) _ trivial).not_panics]
  refine unwrap_ok_panics_iff ?_
  exact (keeps_write_guest hmem.memoryKept (hmem.mayWrite _ _) _ (hread.ok hrun)).not_panics

theorem show_page_panics_iff (page_ptr : GuestPointer) (page_len : ℕ) :
    Exec.Panics (handle_show_page sdk page_ptr page_len) s ↔
      ¬ page_len > MAX_UX_PAGE_LEN ∧ ∃ page s₁, read_guest page_ptr page_len s = .ok page s₁ ∧
        ∃ n rest, Deserializer.announced page = .ok n rest ∧
          ¬ Deserializer.Fits sdk.heap n.toNat Deserializer.SIZE_OF_TAG_VALUE := by
  rw [handle_show_page, Exec.panics_reject_bind]
  refine and_congr_right fun _ => ?_
  rw [Exec.panics_bind_of_not (read_guest_calm hmem hs page_ptr page_len).not_panics]
  refine exists_congr fun page => exists_congr fun s₁ => and_congr_right fun _ => ?_
  have hdraw (p : Ux.Page) (s' : CommEcallHandler × Cpu M) :
      ¬ Exec.Panics (do
        on_ux (UxHandler.show_page sdk.os p)
        pure 1 : Ecall M U32) s' := by
    have hkeeps : Exec.Keeps True (Steady s'.2 (fun _ _ => True) s'.2.reservation_addr) (do
        on_ux (UxHandler.show_page sdk.os p)
        pure 1 : Ecall M U32) :=
      (keeps_on_ux (UxHandler.keeps_show_page _ _)).bind fun _ => .pure _
    exact (hkeeps ⟨fun _ => ⟨rfl, rfl, trivial⟩, rfl⟩).not_panics
  rw [Exec.panics_bind_left fun p s' _ => hdraw p s', deserialize_full, Exec.panics_zoom]
  exact Deserializer.full_page_panics_iff

omit [PagedMemory M] hmem hs in
theorem set_A0_calm (value : U32) : ¬ Exec.Panics (set_A0 value : Ecall M Unit) s := by
  rintro ⟨_, h⟩
  cases h

theorem hash_digest_calm_iff (a : RegNum → U32) :
    ¬ Exec.Panics (handle_code sdk a ECALL_HASH_DIGEST) s ↔
      ∀ ctx_size, get_size_from_id sdk (a A0) = .ok ctx_size →
        ∀ ctx s₁, read_guest (a A1) ctx_size s = .ok ctx s₁ →
          ∀ digest, sdk.hash_final ctx = some digest →
            ∀ len, get_digest_len_from_id (a A0) = .ok len → len ≤ 64 := by
  have hpanics : Exec.Panics (handle_code sdk a ECALL_HASH_DIGEST) s ↔
      Exec.Panics (handle_hash_digest sdk (a A0) (a A1) (a A2)) s := Exec.panics_zoom
  rw [hpanics, hash_digest_panics_iff hmem hs]
  simp only [not_exists, not_and, not_not]

theorem slip21_calm_iff (a : RegNum → U32) :
    ¬ Exec.Panics (handle_code sdk a ECALL_DERIVE_SLIP21_KEY) s ↔
      (¬ (a A1).toNat > 256 →
        ∀ labels s₁, read_guest (a A0) (a A1).toNat s = .ok labels s₁ →
          ∀ slices, parse_labels (a A1).toNat labels [] = some slices →
            ∀ e s₂, ¬ write_guest (a A2) (get_custom_slip21_node sdk slices).toList s₁ =
              .err e s₂) := by
  have hpanics : Exec.Panics (handle_code sdk a ECALL_DERIVE_SLIP21_KEY) s ↔
      Exec.Panics (handle_derive_slip21_node sdk (a A0) (a A1).toNat (a A2)) s :=
    Exec.panics_bind_left fun _ _ _ => set_A0_calm _
  rw [hpanics, slip21_panics_iff hmem hs]
  simp only [not_exists, not_and]

theorem show_page_calm_iff (a : RegNum → U32) :
    ¬ Exec.Panics (handle_code sdk a ECALL_SHOW_PAGE) s ↔
      (¬ (a A1).toNat > MAX_UX_PAGE_LEN →
        ∀ page s₁, read_guest (a A0) (a A1).toNat s = .ok page s₁ →
          ∀ n rest, Deserializer.announced page = .ok n rest →
            Deserializer.Fits sdk.heap n.toNat Deserializer.SIZE_OF_TAG_VALUE) := by
  have hpanics : Exec.Panics (handle_code sdk a ECALL_SHOW_PAGE) s ↔
      Exec.Panics (handle_show_page sdk (a A0) (a A1).toNat) s := by
    refine (Exec.panics_bind_left fun _ _ _ => set_A0_calm _).trans
      (Exec.panics_bind_left fun _ _ _ => ?_)
    rintro ⟨_, h⟩
    cases h
  rw [hpanics, show_page_panics_iff hmem hs]
  simp only [not_exists, not_and, not_not]

/-- The other twenty-seven. -/
theorem handle_code_calm {ecall_code : ℕ} (a : RegNum → U32) (h : ecall_code ∉ unguarded) :
    ¬ Exec.Panics (handle_code sdk a ecall_code) s :=
  (handle_code_keepsAt hmem.memoryKept (fun _ => h) (fun _ _ => hmem.mayWrite _ _) hs).not_panics

end

/-- Pages in a vector are looked up without further ado. -/
theorem calm_vec : Calm fun _ : VecMemory => True where
  get_page i m _ := by
    refine ⟨fun _ _ _ => trivial, fun w m' h _ => ?_⟩
    unfold PagedMemory.get_page instPagedMemoryVecMemory at h
    dsimp only at h
    split at h <;> cases h
  deref_mut _ _ _ _ := trivial

namespace Unwritable

def handler : CommEcallHandler where
  comm := { replies := [] }
  ux_handler := UxHandler.new none
  vapp_hash := Vector.replicate 32 0
  n_storage_slots := 0
  storage := []
  events := []
  n_random := 0

def cpu : Cpu VecMemory :=
  Cpu.new 0 ⟨0x1000, 0x100, VecMemory.new 1⟩ ⟨0x2000, 0x100, VecMemory.new 1⟩
    ⟨0x3000, 0x100, VecMemory.new 1⟩

/-- The labels are none, and so is the memory at `out`. -/
def derive (out : U32) : CommEcallHandler × Cpu VecMemory :=
  (handler, ((cpu.set_reg T0 132).set_reg A0 0x2000).set_reg A2 out)

end Unwritable

end CommEcallHandler

end Vanadium
