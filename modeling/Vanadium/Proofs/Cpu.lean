import Vanadium.Proofs.CpuArith
import Vanadium.Proofs.Segments

/-!
# The processor executes RV32IMAC

One turn of the VM's loop — fetch, decode, execute — against the meaning of
the instruction that stands at the program counter. `Represents` relates the
processor to the reference machine. Between the arm of an operation and the end
of `execute` the register `x0` may hold anything; `Tracks` is what holds there.

The three segments are seen as one memory: a byte belongs to the first of the
stack, the data and the code segment that contains it. Instructions are
fetched from the code segment whoever else claims its addresses, so the
instruction memory is kept apart.
-/

namespace Vanadium

open Lib Rv32

namespace Cpu

variable {M : Type} {E : Type} {H : Type}

/-! ## The memory the segments make up -/

/-- The segment a byte belongs to. -/
def owner (cpu : Cpu M) (a : U32) : Option Segment :=
  if cpu.stack_seg.contains a then some .stack_seg
  else if cpu.data_seg.contains a then some .data_seg
  else if cpu.code_seg.contains a then some .code_seg
  else none

/-- The bytes from `a` to `a + w - 1` are in one segment, and not in the code if
they are to be written. -/
def Accessible (cpu : Cpu M) (writes : Bool) (a : U32) (w : ℕ) : Prop :=
  ∃ s, (writes = true → s ≠ .code_seg) ∧
    ∀ k < w, cpu.owner (a + BitVec.ofNat 32 k) = some s

theorem contains_of_owner {cpu : Cpu M} {a : U32} {s : Segment} (h : cpu.owner a = some s) :
    (cpu.segment s).contains a = true := by
  unfold owner at h
  split at h
  · next hs => cases h; exact hs
  · split at h
    · next hd => cases h; exact hd
    · split at h
      · next hc => cases h; exact hc
      · cases h

/-- Replace the memory under a segment. -/
def set_memory (cpu : Cpu M) (s : Segment) (m : M) : Cpu M :=
  cpu.set_segment s { cpu.segment s with paged_memory := m }

section
variable (cpu : Cpu M) (s : Segment) (m : M)

@[simp] theorem set_memory_pc : (cpu.set_memory s m).pc = cpu.pc := by cases s <;> rfl

@[simp] theorem set_memory_reg (r : RegNum) : (cpu.set_memory s m).reg r = cpu.reg r := by
  cases s <;> rfl

@[simp] theorem set_memory_reservation :
    (cpu.set_memory s m).reservation_addr = cpu.reservation_addr := by
  cases s <;> rfl

@[simp] theorem set_memory_owner : (cpu.set_memory s m).owner = cpu.owner := by
  cases s <;> rfl

theorem set_memory_segment (t : Segment) : (cpu.set_memory s m).segment t =
    if t = s then { cpu.segment s with paged_memory := m } else cpu.segment t := by
  cases s <;> cases t <;> rfl

end

section
variable (cpu : Cpu M) (r : RegNum) (v : U32)

@[simp] theorem set_reg_pc : (cpu.set_reg r v).pc = cpu.pc := rfl

@[simp] theorem set_reg_segment (s : Segment) :
    (cpu.set_reg r v).segment s = cpu.segment s := by
  cases s <;> rfl

@[simp] theorem set_reg_owner : (cpu.set_reg r v).owner = cpu.owner := rfl

@[simp] theorem set_reg_reservation :
    (cpu.set_reg r v).reservation_addr = cpu.reservation_addr := rfl

theorem reg_set_reg (s : RegNum) :
    (cpu.set_reg r v).reg s = if s = r then v else cpu.reg s := by
  unfold reg set_reg
  rw [Vector.getElem_set]
  split
  · next h => rw [if_pos (BitVec.eq_of_toNat_eq h.symm)]
  · next h => rw [if_neg fun he => h (by rw [he])]

end

/-! ## Stores and the reservation -/

theorem saturating_sub_toNat (a b : U32) : (saturating_sub a b).toNat = a.toNat - b.toNat := by
  unfold saturating_sub
  split
  · next h => exact BitVec.toNat_sub_of_le h
  · next h =>
      have : ¬ b.toNat ≤ a.toNat := h
      rw [show (0 : U32).toNat = 0 from rfl]
      omega

/-- The two saturating differences say whether the store and the word meet. -/
theorem invalidates_iff (a r : U32) {w : ℕ} (hw : 0 < w) (hw' : w < 2 ^ 32) :
    (saturating_sub a r < 4 ∧ saturating_sub r a < BitVec.ofNat 32 w) ↔
      Machine.overlaps a w r := by
  have hlt : (BitVec.ofNat 32 w).toNat = w := by
    rw [BitVec.toNat_ofNat, Nat.mod_eq_of_lt hw']
  rw [BitVec.lt_def, BitVec.lt_def, saturating_sub_toNat, saturating_sub_toNat, hlt,
    show (4 : U32).toNat = 4 from rfl]
  constructor
  · intro ⟨h1, h2⟩
    exact ⟨r.toNat - a.toNat, h2, a.toNat - r.toNat, h1, by omega⟩
  · intro ⟨i, hi, j, hj, h⟩
    omega

theorem invalidate_reservation (cpu : Cpu M) (a : U32) {w : ℕ} (hw : 0 < w)
    (hw' : w < 2 ^ 32) :
    (cpu.invalidate a (BitVec.ofNat 32 w)).reservation_addr =
      cpu.reservation_addr.filter fun r => ¬ Machine.overlaps a w r := by
  unfold invalidate
  cases hr : cpu.reservation_addr with
  | none => simp [hr]
  | some r =>
      simp only [invalidates_iff a r hw hw']
      split
      · next ho => rw [Option.filter_some, if_neg (by simp [ho])]
      · next ho => rw [hr, Option.filter_some, if_pos (by simp [ho])]

section
variable (cpu : Cpu M) (a w : U32)

@[simp] theorem invalidate_pc : (cpu.invalidate a w).pc = cpu.pc := by
  unfold invalidate
  split
  · split <;> rfl
  · rfl

@[simp] theorem invalidate_reg (r : RegNum) : (cpu.invalidate a w).reg r = cpu.reg r := by
  unfold invalidate
  split
  · split <;> rfl
  · rfl

@[simp] theorem invalidate_segment (s : Segment) :
    (cpu.invalidate a w).segment s = cpu.segment s := by
  unfold invalidate
  split
  · split
    · cases s <;> rfl
    · rfl
  · rfl

@[simp] theorem invalidate_owner : (cpu.invalidate a w).owner = cpu.owner := by
  unfold invalidate
  split
  · split <;> rfl
  · rfl

end

variable [PagedMemory M] [LawfulPagedMemory M]

/-- The processor and the machine agree on everything but the program counter
and `x0`. -/
structure Tracks (imem : Word → Byte) (cpu : Cpu M) (m : Machine) : Prop where
  reg : ∀ r ≠ 0, cpu.reg r = m.reg r
  reserved : cpu.reservation_addr = m.reserved
  memory : ∃ view : Segment → Word → Byte, view .code_seg = imem ∧
    (∀ s, (cpu.segment s).Holds (view s)) ∧
    ∀ s a, cpu.owner a = some s → view s a = m.mem a
  writable : ∀ s ≠ .code_seg, (cpu.segment s).Writable

structure Represents (imem : Word → Byte) (cpu : Cpu M) (m : Machine) : Prop
    extends Tracks imem cpu m where
  zero : cpu.reg 0 = 0
  pc : cpu.pc = m.pc
  even : m.pc.toNat % 2 = 0

variable {imem : Word → Byte} {cpu : Cpu M} {m : Machine}

theorem Represents.all_reg (h : Represents imem cpu m) (r : RegNum) : cpu.reg r = m.reg r := by
  by_cases hr : r = 0
  · rw [hr, h.zero, Machine.reg_zero]
  · exact h.reg r hr

theorem Tracks.set_reg (h : Tracks imem cpu m) (r : RegNum) (v : U32) :
    Tracks imem (cpu.set_reg r v) (m.setReg r v) where
  reg s hs := by
    rw [reg_set_reg, Machine.reg_setReg, if_neg hs]
    split
    · rfl
    · exact h.reg s hs
  reserved := h.reserved
  memory := by
    obtain ⟨view, hcode, hholds, hmem⟩ := h.memory
    exact ⟨view, hcode, fun s => by rw [set_reg_segment]; exact hholds s, hmem⟩
  writable s hs := by
    rw [set_reg_segment]
    exact h.writable s hs

theorem Tracks.reserve (h : Tracks imem cpu m) (r : Option U32) :
    Tracks imem { cpu with reservation_addr := r } { m with reserved := r } where
  reg := h.reg
  reserved := rfl
  memory := by
    obtain ⟨view, hcode, hholds, hmem⟩ := h.memory
    refine ⟨view, hcode, fun s => ?_, hmem⟩
    have := hholds s
    cases s <;> exact this
  writable s hs := by
    have := h.writable s hs
    cases s <;> exact this

theorem Tracks.cpu_pc (h : Tracks imem cpu m) (pc : U32) : Tracks imem { cpu with pc } m where
  reg := h.reg
  reserved := h.reserved
  memory := by
    obtain ⟨view, hcode, hholds, hmem⟩ := h.memory
    refine ⟨view, hcode, fun s => ?_, hmem⟩
    have := hholds s
    cases s <;> exact this
  writable s hs := by
    have := h.writable s hs
    cases s <;> exact this

theorem Tracks.with_pc (h : Tracks imem cpu m) (pc : Word) :
    Tracks imem cpu { m with pc } :=
  ⟨h.reg, h.reserved, h.memory, h.writable⟩

/-! ## Loads and stores -/

/-- A load returns what the bytes of the one memory give. -/
theorem read_ok {α : Type} {access : Exec MemoryError (MemorySegment M) α} {v : α} {a : U32}
    {w : ℕ} (h : Tracks imem cpu m) (hw : 0 < w) {s : Segment}
    (hs : ∀ k < w, cpu.owner (a + BitVec.ofNat 32 k) = some s)
    (hacc : ∀ mem, (cpu.segment s).Holds mem → (cpu.segment s).Spans a w →
      (∀ k < w, mem (a + BitVec.ofNat 32 k) = m.mem (a + BitVec.ofNat 32 k)) →
        MemorySegment.Reads (cpu.segment s) mem access v) :
    ∃ m', (read access a : Exec (CpuError E) (Cpu M) α) cpu = .ok v (cpu.set_memory s m') ∧
      Tracks imem (cpu.set_memory s m') m := by
  obtain ⟨view, hcode, hholds, hmem⟩ := h.memory
  obtain ⟨m', hrun, hm', hwr'⟩ := hacc (view s) (hholds s)
    (fun k hk => contains_of_owner (hs k hk)) (fun k hk => hmem s _ (hs k hk))
  have hseg : (on_segment s access : Exec (CpuError E) (Cpu M) α) cpu =
      .ok v (cpu.set_memory s m') := Exec.zoom_ok.mpr ⟨_, hrun, rfl⟩
  refine ⟨m', ?_, fun r hr => by simpa using h.reg r hr, by simpa using h.reserved,
    ⟨view, hcode, fun t => ?_, fun t b hb => hmem t b (by simpa using hb)⟩, fun t ht => ?_⟩
  · have ha := hs 0 hw
    rw [BitVec.add_zero] at ha
    unfold owner at ha
    rw [read, Exec.get_bind]
    split at ha
    · next hc => cases ha; rw [if_pos hc]; exact hseg
    · next hc =>
        rw [if_neg hc]
        split at ha
        · next hd => cases ha; rw [if_pos hd]; exact hseg
        · next hd =>
            rw [if_neg hd]
            split at ha
            · next he => cases ha; rw [if_pos he]; exact hseg
            · cases ha
  · rw [set_memory_segment]
    split
    · next he => rw [he]; exact hm'
    · exact hholds t
  · rw [set_memory_segment]
    split
    · next he => exact hwr' (h.writable s (he ▸ ht))
    · exact h.writable t ht

/-- A store changes the bytes it names, in the segment they belong to. -/
theorem write_ok {access : Exec MemoryError (MemorySegment M) Unit} {a : U32} {w : ℕ}
    (bytes : List Byte) (hlen : bytes.length = w) (h : Tracks imem cpu m) (hw : 0 < w)
    (hw' : w < 2 ^ 32) {s : Segment} (hcode : s ≠ .code_seg)
    (hs : ∀ k < w, cpu.owner (a + BitVec.ofNat 32 k) = some s)
    (hacc : ∀ mem, (cpu.segment s).Holds mem → (cpu.segment s).Writable →
      (cpu.segment s).Spans a w → MemorySegment.Writes (cpu.segment s)
        (fun b => bytes.getD (b - a).toNat (mem b)) access) :
    ∃ cpu', (write access (BitVec.ofNat 32 w) a :
        Exec (CpuError E) (Cpu M) Unit) cpu = .ok () cpu' ∧
      Tracks imem cpu' (m.store a bytes) ∧ cpu'.pc = cpu.pc ∧ cpu'.owner = cpu.owner ∧
        ∀ r, cpu'.reg r = cpu.reg r := by
  subst hlen
  obtain ⟨view, hview, hholds, hmem⟩ := h.memory
  obtain ⟨m', hrun, hm', hwr'⟩ := hacc (view s) (hholds s) (h.writable s hcode)
    (fun k hk => contains_of_owner (hs k hk))
  have hseg : (on_segment s access : Exec (CpuError E) (Cpu M) Unit) cpu =
      .ok () (cpu.set_memory s m') := Exec.zoom_ok.mpr ⟨_, hrun, rfl⟩
  have hwrite : (write_segment access a : Exec (CpuError E) (Cpu M) Unit) cpu =
      .ok () (cpu.set_memory s m') := by
    have ha := hs 0 hw
    rw [BitVec.add_zero] at ha
    unfold owner at ha
    rw [write_segment, Exec.get_bind]
    split at ha
    · next hc => cases ha; rw [if_pos hc]; exact hseg
    · next hc =>
        rw [if_neg hc]
        split at ha
        · next hd => cases ha; rw [if_pos hd]; exact hseg
        · split at ha
          · cases ha; exact absurd rfl hcode
          · cases ha
  refine ⟨(cpu.set_memory s m').invalidate a (BitVec.ofNat 32 bytes.length), ?_, ?_,
    by simp, by simp, by simp⟩
  · rw [write, Exec.bind_apply_ok hwrite]
    rfl
  · refine ⟨fun r hr => ?_, ?_, ⟨fun t => if t = s then
      (fun b => bytes.getD (b - a).toNat (view s b)) else view t, ?_, fun t => ?_,
      fun t b hb => ?_⟩, fun t ht => ?_⟩
    · rw [invalidate_reg, set_memory_reg]
      exact h.reg r hr
    · rw [invalidate_reservation _ _ hw hw', set_memory_reservation, h.reserved]
      rfl
    · exact (if_neg (Ne.symm hcode)).trans hview
    · dsimp only
      rw [invalidate_segment, set_memory_segment]
      by_cases he : t = s
      · rw [if_pos he, if_pos he]
        exact hm'
      · rw [if_neg he, if_neg he]
        exact hholds t
    · dsimp only
      rw [invalidate_owner, set_memory_owner] at hb
      by_cases he : t = s
      · subst he
        rw [if_pos rfl, hmem t b hb]
        rfl
      · -- a byte of another segment is not one that was written
        have hfar : bytes.length ≤ (b - a).toNat := by
          by_contra hnear
          have hk : b = a + BitVec.ofNat 32 (b - a).toNat := by
            rw [BitVec.ofNat_toNat, BitVec.setWidth_eq, BitVec.add_comm, BitVec.sub_add_cancel]
          rw [hk, hs _ (by omega)] at hb
          exact he (Option.some.inj hb).symm
        rw [if_neg he, hmem t b hb]
        show m.mem b = bytes.getD (b - a).toNat (m.mem b)
        rw [List.getD_eq_getElem?_getD, List.getElem?_eq_none hfar, Option.getD_none]
    · rw [invalidate_segment, set_memory_segment]
      split
      · exact hwr'
      · exact h.writable t ht

/-! ## The widths -/

section
variable {a : U32} {s : Segment}

theorem read_u8_ok (h : Tracks imem cpu m)
    (hs : ∀ k < 1, cpu.owner (a + BitVec.ofNat 32 k) = some s) :
    ∃ m', (read_u8 a : Exec (CpuError E) (Cpu M) U8) cpu =
      .ok (m.mem a) (cpu.set_memory s m') ∧ Tracks imem (cpu.set_memory s m') m := by
  refine read_ok h (by decide) hs fun mem hm hspan hmem => ?_
  have h0 := hmem 0 (by decide)
  rw [BitVec.add_zero] at h0
  rw [← h0]
  exact MemorySegment.read_u8_ok hm hspan

theorem read_u16_ok (h : Tracks imem cpu m) (ha : aligned a 2)
    (hs : ∀ k < 2, cpu.owner (a + BitVec.ofNat 32 k) = some s) :
    ∃ m', (read_u16 a : Exec (CpuError E) (Cpu M) (BitVec 16)) cpu =
      .ok (m.load16 a) (cpu.set_memory s m') ∧ Tracks imem (cpu.set_memory s m') m := by
  refine read_ok h (by decide) hs fun mem hm hspan hmem => ?_
  have h0 := hmem 0 (by decide)
  have h1 : mem (a + 1) = m.mem (a + 1) := hmem 1 (by decide)
  rw [BitVec.add_zero] at h0
  rw [Machine.load16, ← h0, ← h1]
  exact MemorySegment.read_u16_ok hm ha hspan

theorem read_u32_ok (h : Tracks imem cpu m) (ha : aligned a 4)
    (hs : ∀ k < 4, cpu.owner (a + BitVec.ofNat 32 k) = some s) :
    ∃ m', (read_u32 a : Exec (CpuError E) (Cpu M) U32) cpu =
      .ok (m.load32 a) (cpu.set_memory s m') ∧ Tracks imem (cpu.set_memory s m') m := by
  refine read_ok h (by decide) hs fun mem hm hspan hmem => ?_
  have h0 := hmem 0 (by decide)
  have h1 : mem (a + 1) = m.mem (a + 1) := hmem 1 (by decide)
  have h2 : mem (a + 2) = m.mem (a + 2) := hmem 2 (by decide)
  have h3 : mem (a + 3) = m.mem (a + 3) := hmem 3 (by decide)
  rw [BitVec.add_zero] at h0
  rw [Machine.load32, ← h0, ← h1, ← h2, ← h3]
  exact MemorySegment.read_u32_ok hm ha hspan

theorem write_u32_ok (h : Tracks imem cpu m) (ha : aligned a 4) (hcode : s ≠ .code_seg)
    (hs : ∀ k < 4, cpu.owner (a + BitVec.ofNat 32 k) = some s) (v : U32) :
    ∃ cpu', (write_u32 a v : Exec (CpuError E) (Cpu M) Unit) cpu = .ok () cpu' ∧
      Tracks imem cpu' (m.store a (wordBytes v)) ∧ cpu'.pc = cpu.pc ∧
        cpu'.owner = cpu.owner ∧ ∀ r, cpu'.reg r = cpu.reg r :=
  write_ok (wordBytes v) rfl h (by decide) (by decide) hcode hs fun _ hm hwr hspan =>
    MemorySegment.write_u32_ok hm hwr ha hspan v

end

/-! ## The arms -/

/-- An arm ran to its end and left what the machine `m'` has. -/
def Completes (imem : Word → Byte) (cpu : Cpu M) (m' : Machine)
    (arm : Exec (CpuError E) (Cpu M) U32) : Prop :=
  ∃ pc_inc cpu', arm cpu = .ok pc_inc cpu' ∧ Tracks imem cpu' m' ∧
    cpu'.pc + pc_inc = m'.pc ∧ cpu'.owner = cpu.owner

/-- An arm was refused, and nothing has changed. -/
def Refuses (cpu : Cpu M) (arm : Exec (CpuError E) (Cpu M) U32) : Prop :=
  ∃ msg, arm cpu = .err (.genericError msg) cpu

section
variable (h : Represents imem cpu m) (n : ℕ) (d a b : RegNum)
include h

theorem set_reg_completes (v : U32) (w : Word) (hv : v = w) :
    Completes imem cpu ((m.setReg d w).next n) (do
      Exec.modify fun cpu => cpu.set_reg d v
      pure (BitVec.ofNat 32 n) : Exec (CpuError E) (Cpu M) U32) := by
  subst hv
  refine ⟨_, cpu.set_reg d v, rfl, (h.toTracks.set_reg d v).with_pc _, ?_, rfl⟩
  rw [set_reg_pc, h.pc]
  rfl

theorem alu_completes (f : U32 → U32 → U32) :
    Completes imem cpu ((m.setReg d (f (m.reg a) (m.reg b))).next n)
      (alu (BitVec.ofNat 32 n) d a b f : Exec (CpuError E) (Cpu M) U32) := by
  rw [← h.all_reg a, ← h.all_reg b]
  refine ⟨_, cpu.set_reg d _, rfl, (h.toTracks.set_reg d _).with_pc _, ?_, rfl⟩
  rw [set_reg_pc, h.pc]
  rfl

theorem alu_imm_completes (imm : I32) (f : U32 → I32 → U32) :
    Completes imem cpu ((m.setReg d (f (m.reg a) imm)).next n)
      (alu_imm (BitVec.ofNat 32 n) d a imm f : Exec (CpuError E) (Cpu M) U32) := by
  rw [← h.all_reg a]
  refine ⟨_, cpu.set_reg d _, rfl, (h.toTracks.set_reg d _).with_pc _, ?_, rfl⟩
  rw [set_reg_pc, h.pc]
  rfl

theorem branch_completes (imm : I32) (c : U32 → U32 → Bool) :
    Completes imem cpu (if c (m.reg a) (m.reg b) then { m with pc := m.pc + imm } else m.next n)
      (branch (BitVec.ofNat 32 n) a b imm c : Exec (CpuError E) (Cpu M) U32) := by
  rw [← h.all_reg a, ← h.all_reg b, ← h.pc]
  refine ⟨_, cpu, rfl, ?_, ?_, rfl⟩
  · split <;> exact h.toTracks.with_pc _
  · split
    · rfl
    · rw [h.pc]
      rfl

end

/-! ### Loads -/

theorem load_value_ok (f : LoadOp) {a : U32} {s : Segment} (h : Tracks imem cpu m)
    (ha : aligned a f.width)
    (hs : ∀ k < f.width, cpu.owner (a + BitVec.ofNat 32 k) = some s) :
    ∃ m', (load_value f a : Exec (CpuError E) (Cpu M) U32) cpu =
      .ok (f.eval m a) (cpu.set_memory s m') ∧ Tracks imem (cpu.set_memory s m') m := by
  cases f with
  | lb | lbu =>
      obtain ⟨m', hread, hm'⟩ := read_u8_ok h hs
      exact ⟨m', Exec.bind_apply_ok hread, hm'⟩
  | lh | lhu =>
      obtain ⟨m', hread, hm'⟩ := read_u16_ok h ha hs
      exact ⟨m', (reject_unaligned_bind (k := 1) (by decide) ha).trans
        (Exec.bind_apply_ok hread), hm'⟩
  | lw =>
      obtain ⟨m', hread, hm'⟩ := read_u32_ok h ha hs
      exact ⟨m', (reject_unaligned_bind (k := 2) (by decide) ha).trans hread, hm'⟩

/-! ### Stores -/

/-- The bytes a store of the low part of a word writes. -/
theorem low_bytes (v : U32) : [v.setWidth 8] = (wordBytes v).take 1 ∧
    [(v.setWidth 16).extractLsb' 0 8, (v.setWidth 16).extractLsb' 8 8] =
      (wordBytes v).take 2 := by
  have h0 : (v.setWidth 16).extractLsb' 0 8 = v.extractLsb' 0 8 := by
    ext i hi
    simp [show i < 16 by omega]
  have h1 : (v.setWidth 16).extractLsb' 8 8 = v.extractLsb' 8 8 := by
    ext i hi
    simp [show 8 + i < 16 by omega]
  exact ⟨rfl, by rw [h0, h1]; rfl⟩

theorem store_value_ok (f : StoreOp) {a : U32} {s : Segment} (h : Tracks imem cpu m)
    (ha : aligned a f.width) (hcode : s ≠ .code_seg)
    (hs : ∀ k < f.width, cpu.owner (a + BitVec.ofNat 32 k) = some s) (v : U32) :
    ∃ cpu', (store_value f a v : Exec (CpuError E) (Cpu M) Unit) cpu = .ok () cpu' ∧
      Tracks imem cpu' (m.store a ((wordBytes v).take f.width)) ∧ cpu'.pc = cpu.pc ∧
        cpu'.owner = cpu.owner ∧ ∀ r, cpu'.reg r = cpu.reg r := by
  cases f with
  | sb =>
      refine write_ok _ rfl h (by decide) (by decide) hcode hs fun _ hm hwr hspan => ?_
      show MemorySegment.Writes _ _ (MemorySegment.write_u8 a (v.setWidth 8))
      rw [StoreOp.width, ← (low_bytes v).1]
      exact MemorySegment.write_u8_ok hm hwr hspan _
  | sh =>
      obtain ⟨cpu', hrun, hrest⟩ := write_ok (w := 2) ((wordBytes v).take 2) rfl h
        (by decide) (by decide) hcode hs fun _ hm hwr hspan => by
          rw [← (low_bytes v).2]
          exact MemorySegment.write_u16_ok hm hwr ha hspan _
      exact ⟨cpu', (reject_unaligned_bind (k := 1) (by decide) ha).trans hrun, hrest⟩
  | sw =>
      obtain ⟨cpu', hrun, hrest⟩ := write_u32_ok h ha hcode hs v
      exact ⟨cpu', (reject_unaligned_bind (k := 2) (by decide) ha).trans hrun, hrest⟩

section
variable (h : Represents imem cpu m) (n : ℕ) (d a b : RegNum)
include h

theorem load_completes (f : LoadOp) (offset : BitVec 12)
    (ha : aligned (m.address a offset) f.width)
    (hacc : cpu.Accessible false (m.address a offset) f.width) :
    Completes imem cpu ((m.setReg d (f.eval m (m.address a offset))).next n)
      (load (BitVec.ofNat 32 n) d a (offset.signExtend 32) (load_value f) :
        Exec (CpuError E) (Cpu M) U32) := by
  obtain ⟨s, -, hs⟩ := hacc
  obtain ⟨m', hval, hm'⟩ := load_value_ok f h.toTracks ha hs
  refine ⟨BitVec.ofNat 32 n, (cpu.set_memory s m').set_reg d _, ?_, (hm'.set_reg d _).with_pc _, ?_, by simp⟩
  · rw [load, Exec.get_bind, h.all_reg a]
    exact Exec.bind_apply_ok hval
  · rw [set_reg_pc, set_memory_pc, h.pc]
    rfl

theorem store_completes (f : StoreOp) (offset : BitVec 12)
    (ha : aligned (m.address a offset) f.width)
    (hacc : cpu.Accessible true (m.address a offset) f.width) :
    Completes imem cpu
      ((m.store (m.address a offset) ((wordBytes (m.reg b)).take f.width)).next n)
      (store (BitVec.ofNat 32 n) a b (offset.signExtend 32) (store_value f) :
        Exec (CpuError E) (Cpu M) U32) := by
  obtain ⟨s, hcode, hs⟩ := hacc
  obtain ⟨cpu', hput, hm', hpc, howner, -⟩ :=
    store_value_ok f h.toTracks ha (hcode rfl) hs (m.reg b)
  refine ⟨BitVec.ofNat 32 n, cpu', ?_, hm'.with_pc _, ?_, howner⟩
  · rw [store, Exec.get_bind, h.all_reg a, h.all_reg b]
    exact Exec.bind_apply_ok hput
  · rw [hpc, h.pc]
    rfl

theorem load_reserved_completes (ha : aligned (m.reg a) 4)
    (hacc : cpu.Accessible false (m.reg a) 4) :
    Completes imem cpu
      ({ m.setReg d (m.load32 (m.reg a)) with reserved := some (m.reg a) }.next n)
      (load_reserved (BitVec.ofNat 32 n) d a : Exec (CpuError E) (Cpu M) U32) := by
  obtain ⟨s, -, hs⟩ := hacc
  obtain ⟨m', hread, hm'⟩ := read_u32_ok h.toTracks ha hs
  refine ⟨BitVec.ofNat 32 n, { (cpu.set_memory s m').set_reg d _ with
      reservation_addr := some (m.reg a) }, ?_,
    ((hm'.set_reg d _).reserve _).with_pc _, ?_, ?_⟩
  · rw [load_reserved, Exec.get_bind, h.all_reg a]
    exact (reject_unaligned_bind (k := 2) (by decide) ha).trans (Exec.bind_apply_ok hread)
  · show (cpu.set_memory s m').pc + _ = _
    rw [set_memory_pc, h.pc]
    rfl
  · exact set_memory_owner cpu s m'

theorem store_conditional_fails (ha : aligned (m.reg a) 4)
    (hres : m.reserved ≠ some (m.reg a)) :
    Completes imem cpu ({ m.setReg d 1 with reserved := none }.next n)
      (store_conditional (BitVec.ofNat 32 n) d a b : Exec (CpuError E) (Cpu M) U32) := by
  refine ⟨BitVec.ofNat 32 n, { cpu.set_reg d 1 with reservation_addr := none }, ?_,
    ((h.toTracks.set_reg d 1).reserve none).with_pc _, ?_, rfl⟩
  · rw [store_conditional, Exec.get_bind, h.all_reg a]
    refine (reject_unaligned_bind (k := 2) (by decide) ha).trans ?_
    rw [h.reserved, if_neg hres]
    rfl
  · show cpu.pc + _ = _
    rw [h.pc]
    rfl

theorem store_conditional_succeeds (ha : aligned (m.reg a) 4)
    (hres : m.reserved = some (m.reg a)) (hacc : cpu.Accessible true (m.reg a) 4) :
    Completes imem cpu
      ({ (m.store (m.reg a) (wordBytes (m.reg b))).setReg d 0 with reserved := none }.next n)
      (store_conditional (BitVec.ofNat 32 n) d a b : Exec (CpuError E) (Cpu M) U32) := by
  obtain ⟨s, hcode, hs⟩ := hacc
  obtain ⟨cpu', hput, hm', hpc, howner, -⟩ :=
    write_u32_ok h.toTracks ha (hcode rfl) hs (m.reg b)
  refine ⟨BitVec.ofNat 32 n, { cpu'.set_reg d 0 with reservation_addr := none }, ?_,
    ((hm'.set_reg d 0).reserve none).with_pc _, ?_, howner⟩
  · rw [store_conditional, Exec.get_bind, h.all_reg a, h.all_reg b]
    refine (reject_unaligned_bind (k := 2) (by decide) ha).trans ?_
    rw [h.reserved, if_pos hres]
    exact Exec.bind_apply_ok hput
  · show cpu'.pc + _ = _
    rw [hpc, h.pc]
    rfl

theorem amo_completes (name : String) (f : U32 → U32 → U32) (ha : aligned (m.reg a) 4)
    (hacc : cpu.Accessible true (m.reg a) 4) :
    Completes imem cpu
      (((m.store (m.reg a) (wordBytes (f (m.load32 (m.reg a)) (m.reg b)))).setReg d
        (m.load32 (m.reg a))).next n)
      (amo (BitVec.ofNat 32 n) name d a b f : Exec (CpuError E) (Cpu M) U32) := by
  obtain ⟨s, hcode, hs⟩ := hacc
  obtain ⟨m', hread, hm'⟩ := read_u32_ok h.toTracks ha hs
  obtain ⟨cpu', hput, hstore, hpc, howner, -⟩ :=
    write_u32_ok hm' ha (hcode rfl) (by rw [set_memory_owner]; exact hs)
      (f (m.load32 (m.reg a)) (m.reg b))
  refine ⟨BitVec.ofNat 32 n, cpu'.set_reg d _, ?_, (hstore.set_reg d _).with_pc _, ?_, ?_⟩
  · rw [amo, Exec.get_bind, h.all_reg a, h.all_reg b]
    refine (reject_unaligned_bind (k := 2) (by decide) ha).trans ?_
    rw [Exec.bind_apply_ok hread]
    exact Exec.bind_apply_ok hput
  · show cpu'.pc + _ = _
    rw [hpc, set_memory_pc, h.pc]
    rfl
  · rw [set_reg_owner, howner, set_memory_owner]

end

/-- The lowest bit of a jump's target is cleared. -/
theorem clear_low (a : U32) : a &&& ~~~1 = a.extractLsb' 1 31 ++ 0#1 := by
  apply BitVec.eq_of_getLsbD_eq
  intro i hi
  rw [BitVec.getLsbD_append, BitVec.getLsbD_and, BitVec.getLsbD_not]
  cases i with
  | zero => simp
  | succ i =>
      simp [hi, Nat.add_comm 1 i, show i < 31 by omega]

/-- Every operation does what the instruction it was decoded from means. -/
theorem execute_op_ok {op : Op} {i : Instr} (h : Represents imem cpu m) (hd : Denotes op i)
    (hi : i ≠ .ecall) (n : ℕ)
    (hacc : ∀ writes a w, i.access m = some (writes, a, w) → cpu.Accessible writes a w) :
    match exec i n m with
    | .ok m' => Completes imem cpu m'
        (execute_op op (BitVec.ofNat 32 n) : Exec (CpuError E) (Cpu M) U32)
    | .error _ => Refuses cpu
        (execute_op op (BitVec.ofNat 32 n) : Exec (CpuError E) (Cpu M) U32) := by
  cases i with
  | lui d imm =>
      cases hd
      refine ⟨_, cpu.set_reg d _, rfl, (h.toTracks.set_reg d _).with_pc _, ?_, rfl⟩
      rw [set_reg_pc, h.pc]
      rfl
  | auipc d imm =>
      cases hd
      refine ⟨_, cpu.set_reg d _, rfl, ?_, ?_, rfl⟩
      · rw [h.pc]
        exact (h.toTracks.set_reg d _).with_pc _
      · rw [set_reg_pc, h.pc]
        rfl
  | jal d offset =>
      cases hd
      refine ⟨_, cpu.set_reg d _, rfl, ?_, ?_, rfl⟩
      · rw [h.pc]
        exact (h.toTracks.set_reg d _).with_pc _
      · rw [set_reg_pc, h.pc]
  | jalr d a offset =>
      cases hd
      refine ⟨0, { cpu.set_reg d (m.pc + BitVec.ofNat 32 n) with
          pc := (cpu.reg a + offset.signExtend 32) &&& ~~~1 }, ?_,
        ((h.toTracks.set_reg d _).cpu_pc _).with_pc _, ?_, rfl⟩
      · rw [← h.pc]
        rfl
      · refine (BitVec.add_zero _).trans ?_
        dsimp only
        rw [h.all_reg, clear_low]
        rfl
  | branch c a b offset =>
      cases hd
      have hb := branch_completes (E := E) h n a b ((offset ++ 0#1).signExtend 32) c.holds
      rw [execute_branchOp]
      simp only [exec]
      split at hb
      · next hc => rw [if_pos hc]; exact hb
      · next hc => rw [if_neg hc]; exact hb
  | load f d a offset =>
      cases hd
      rw [execute_loadOp]
      by_cases ha : aligned (m.address a offset) f.width
      · rw [exec, if_pos ha]
        exact load_completes h n d a f offset ha (hacc _ _ _ rfl)
      · rw [exec, if_neg ha]
        obtain ⟨msg, hval⟩ := load_value_err (E := E) cpu f ha
        refine ⟨msg, ?_⟩
        rw [load, Exec.get_bind, h.all_reg]
        exact Exec.bind_apply_err hval
  | store f a b offset =>
      cases hd
      rw [execute_storeOp]
      by_cases ha : aligned (m.address a offset) f.width
      · rw [exec, if_pos ha]
        exact store_completes h n a b f offset ha (hacc _ _ _ rfl)
      · rw [exec, if_neg ha]
        obtain ⟨msg, hput⟩ := store_value_err (E := E) cpu f (m.reg b) ha
        refine ⟨msg, ?_⟩
        rw [store, Exec.get_bind, h.all_reg, h.all_reg]
        exact Exec.bind_apply_err hput
  | opImm f d a imm =>
      cases hd
      rw [execute_immOp]
      exact alu_imm_completes h n d a _ _
  | shiftImm f d a shamt =>
      obtain ⟨imm, himm, rfl⟩ := hd
      rw [execute_shiftOp _ _ _ f imm shamt himm]
      exact alu_imm_completes h n d a _ _
  | alu f d a b =>
      cases hd
      rw [execute_aluOp]
      exact alu_completes h n d a b _
  | fence =>
      cases hd
      refine ⟨_, cpu, rfl, h.toTracks.with_pc _, ?_, rfl⟩
      rw [h.pc]
      rfl
  | ecall => exact absurd rfl hi
  | ebreak =>
      cases hd
      exact ⟨_, rfl⟩
  | lr aq rl d a =>
      cases hd
      by_cases ha : aligned (m.reg a) 4
      · rw [exec, if_pos ha]
        exact load_reserved_completes h n d a ha (hacc _ _ _ rfl)
      · rw [exec, if_neg ha]
        refine ⟨"Unaligned LR.W address", ?_⟩
        rw [execute_op, load_reserved, Exec.get_bind, h.all_reg]
        exact reject_unaligned_bind_err (k := 2) (by decide) ha
  | sc aq rl d a b =>
      cases hd
      by_cases ha : aligned (m.reg a) 4
      · rw [exec, if_pos ha]
        by_cases hres : m.reserved = some (m.reg a)
        · rw [if_pos hres]
          exact store_conditional_succeeds h n d a b ha hres (hacc _ _ _ (if_pos hres))
        · rw [if_neg hres]
          exact store_conditional_fails h n d a b ha hres
      · rw [exec, if_neg ha]
        refine ⟨"Unaligned SC.W address", ?_⟩
        rw [execute_op, store_conditional, Exec.get_bind, h.all_reg]
        exact reject_unaligned_bind_err (k := 2) (by decide) ha
  | amo f aq rl d a b =>
      cases hd
      rw [execute_amoOp]
      by_cases ha : aligned (m.reg a) 4
      · rw [exec, if_pos ha]
        exact amo_completes h n d a b _ _ ha (hacc _ _ _ rfl)
      · rw [exec, if_neg ha]
        refine ⟨"Unaligned " ++ amoName f ++ " address", ?_⟩
        rw [amo, Exec.get_bind, h.all_reg]
        exact reject_unaligned_bind_err (k := 2) (by decide) ha

end Cpu

end Vanadium
