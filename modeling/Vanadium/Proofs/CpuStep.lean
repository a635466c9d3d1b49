import Mathlib
import Vanadium.Proofs.Cpu

/-!
# One turn of the loop

The fetch, whichever way it reads, and with it the whole turn.
-/

namespace Vanadium

open Lib Rv32

namespace Cpu

variable {M E H : Type} {imem : Word → Byte} {cpu : Cpu M} {m : Machine}

/-- The instruction memory holds the encoding `e` at the program counter. -/
def Fetches (imem : Word → Byte) (cpu : Cpu M) (e : Encoding) : Prop :=
  ∀ k < e.size, cpu.code_seg.contains (cpu.pc + BitVec.ofNat 32 k) = true ∧
    imem (cpu.pc + BitVec.ofNat 32 k) = e.bytes.getD k 0

theorem Fetches.full {i : Instr} (hf : Fetches imem cpu (.full i)) :
    imem cpu.pc = i.encode.extractLsb' 0 8 ∧
      imem (cpu.pc + 1) = i.encode.extractLsb' 8 8 ∧
      imem (cpu.pc + 2) = i.encode.extractLsb' 16 8 ∧
      imem (cpu.pc + 3) = i.encode.extractLsb' 24 8 := by
  have hsize : (Encoding.full i).size = 4 := rfl
  have h0 := (hf 0 (by rw [hsize]; decide)).2
  rw [BitVec.add_zero] at h0
  exact ⟨h0, (hf 1 (by rw [hsize]; decide)).2, (hf 2 (by rw [hsize]; decide)).2,
    (hf 3 (by rw [hsize]; decide)).2⟩

theorem Fetches.compressed {c : CInstr} (hf : Fetches imem cpu (.compressed c)) :
    imem cpu.pc = c.encode.extractLsb' 0 8 ∧ imem (cpu.pc + 1) = c.encode.extractLsb' 8 8 := by
  have hsize : (Encoding.compressed c).size = 2 := rfl
  have h0 := (hf 0 (by rw [hsize]; decide)).2
  rw [BitVec.add_zero] at h0
  exact ⟨h0, (hf 1 (by rw [hsize]; decide)).2⟩

/-! ## Fetch -/

theorem bytes_word (w : U32) : w.extractLsb' 24 8 ++ w.extractLsb' 16 8 ++
    w.extractLsb' 8 8 ++ w.extractLsb' 0 8 = w := by
  apply BitVec.eq_of_getLsbD_eq
  intro i hi
  simp only [BitVec.getLsbD_append, BitVec.getLsbD_extractLsb']
  grind

theorem bytes_half (w : BitVec 16) : w.extractLsb' 8 8 ++ w.extractLsb' 0 8 = w := by
  apply BitVec.eq_of_getLsbD_eq
  intro i hi
  simp only [BitVec.getLsbD_append, BitVec.getLsbD_extractLsb']
  grind

/-- The upper half of a word is no part of its lower one. -/
theorem low_half (a b c d : Byte) : (a ++ b ++ c ++ d).setWidth 16 = c ++ d := by
  apply BitVec.eq_of_getLsbD_eq
  intro i hi
  simp only [BitVec.getLsbD_append, BitVec.getLsbD_setWidth]
  grind

theorem halves_word (hi lo : BitVec 16) :
    hi.setWidth 32 <<< 16 ||| lo.setWidth 32 = hi ++ lo := by
  apply BitVec.eq_of_getLsbD_eq
  intro i hi
  simp only [BitVec.getLsbD_append, BitVec.getLsbD_or, BitVec.getLsbD_shiftLeft,
    BitVec.getLsbD_setWidth]
  grind

theorem halves_low (w : BitVec 16) :
    ((0#16).setWidth 32 <<< 16 ||| w.setWidth 32).setWidth 16 = w := by
  apply BitVec.eq_of_getLsbD_eq
  intro i hi
  simp only [BitVec.getLsbD_setWidth, BitVec.getLsbD_or, BitVec.getLsbD_shiftLeft]
  grind

theorem halves_full (w : U32) : (w.extractLsb' 24 8 ++ w.extractLsb' 16 8) ++
    (w.extractLsb' 8 8 ++ w.extractLsb' 0 8) = w := by
  apply BitVec.eq_of_getLsbD_eq
  intro i hi
  simp only [BitVec.getLsbD_append, BitVec.getLsbD_extractLsb']
  grind

/-- The lower half says that there is an upper one. -/
theorem full_low (i : Instr) :
    (i.encode.extractLsb' 8 8 ++ i.encode.extractLsb' 0 8 : BitVec 16) &&& 0b11 = 0b11 := by
  have hlow : (i.encode.extractLsb' 8 8 ++ i.encode.extractLsb' 0 8 : BitVec 16) =
      i.encode.setWidth 16 := by
    apply BitVec.eq_of_getLsbD_eq
    intro i hi
    simp only [BitVec.getLsbD_append, BitVec.getLsbD_extractLsb', BitVec.getLsbD_setWidth]
    grind
  calc _ = (i.encode &&& 0x3).setWidth 16 := by rw [hlow, BitVec.setWidth_and]; rfl
    _ = 0b11 := by rw [encode_low]; rfl

theorem even_add {a b : U32} (ha : a.toNat % 2 = 0) (hb : b.toNat % 2 = 0) :
    (a + b).toNat % 2 = 0 := by
  rw [BitVec.toNat_add]
  omega

/-- What the fetched word says about the encoding it was fetched from. -/
def Fetched (inst : U32) : Encoding → Prop
  | .full i => inst = i.encode
  | .compressed c => inst.setWidth 16 = c.encode

/-- The machine a processor over vectors of pages stands for. -/
def machine (cpu : Cpu VecMemory) : Machine where
  pc := cpu.pc
  x := cpu.reg
  mem a := (cpu.owner a).elim 0 fun s => (cpu.segment s).bytes a
  reserved := cpu.reservation_addr

/-- It does stand for it: all the relation asks for is that `x0` is zero, that
the program counter is even and that no page is missing. -/
theorem represents_machine {cpu : Cpu VecMemory} (hzero : cpu.reg 0 = 0)
    (heven : cpu.pc.toNat % 2 = 0) (hback : ∀ s, (cpu.segment s).Backed) :
    Represents cpu.code_seg.bytes cpu cpu.machine where
  reg r hr := (if_neg hr).symm
  reserved := rfl
  memory := ⟨fun s => (cpu.segment s).bytes, rfl, fun s => (hback s).holds, fun s a hs => by
    show _ = (cpu.owner a).elim 0 fun s => (cpu.segment s).bytes a
    rw [hs]
    rfl⟩
  writable _ _ := trivial
  zero := hzero
  pc := rfl
  even := heven

variable [PagedMemory M] [LawfulPagedMemory M]

theorem Represents.set_code (h : Represents imem cpu m) {m' : M}
    (hm' : ({ cpu.code_seg with paged_memory := m' } : MemorySegment M).Holds imem) :
    Represents imem (cpu.set_memory .code_seg m') m where
  reg := h.reg
  reserved := h.reserved
  memory := by
    obtain ⟨view, hcode, hholds, hmem⟩ := h.memory
    refine ⟨view, hcode, fun t => ?_, hmem⟩
    rw [set_memory_segment]
    split
    · next he => rw [he, hcode]; exact hm'
    · exact hholds t
  writable t ht := by
    rw [set_memory_segment, if_neg ht]
    exact h.writable t ht
  zero := h.zero
  pc := h.pc
  even := h.even

theorem Represents.code (h : Represents imem cpu m) : cpu.code_seg.Holds imem := by
  obtain ⟨view, hcode, hholds, -⟩ := h.memory
  rw [← hcode]
  exact hholds .code_seg

theorem on_code_ok {α : Type} {access : Exec MemoryError (MemorySegment M) α} {v : α}
    (h : Represents imem cpu m)
    (hread : MemorySegment.Reads cpu.code_seg imem access v) :
    ∃ m', (on_segment .code_seg access : Exec (CpuError E) (Cpu M) α) cpu =
      .ok v (cpu.set_memory .code_seg m') ∧
        Represents imem (cpu.set_memory .code_seg m') m := by
  obtain ⟨m', hrun, hm', -⟩ := hread
  exact ⟨m', Exec.zoom_ok.mpr ⟨_, hrun, rfl⟩, h.set_code hm'⟩

/-- One word at once, where it is aligned and inside the segment. -/
theorem fetch_word_ok {e : Encoding} (h : Represents imem cpu m) (hf : Fetches imem cpu e)
    (ha : cpu.pc.toNat % 4 = 0) (hin : cpu.code_seg.contains (cpu.pc + 3) = true) :
    ∃ inst m', (on_segment .code_seg (MemorySegment.read_u32 cpu.pc) :
        Exec (CpuError E) (Cpu M) U32) cpu =
      .ok inst (cpu.set_memory .code_seg m') ∧ Fetched inst e ∧
        Represents imem (cpu.set_memory .code_seg m') m := by
  have hnat : MemorySegment.Natural cpu.pc 4 := ⟨.inr (.inr rfl), ha⟩
  have h0 : cpu.code_seg.contains (cpu.pc + BitVec.ofNat 32 0) = true :=
    (hf 0 (by have := e.two_le_size; omega)).1
  have hspan : cpu.code_seg.Spans cpu.pc 4 := by
    intro k hk
    have hlo := MemorySegment.contains_iff.mp h0
    have hhi := MemorySegment.contains_iff.mp
      (show cpu.code_seg.contains (cpu.pc + BitVec.ofNat 32 3) = true from hin)
    rw [MemorySegment.contains_iff]
    rw [hnat.toNat_add (by decide)] at hlo hhi
    rw [hnat.toNat_add hk]
    omega
  obtain ⟨m', hrun, hrep⟩ :=
    on_code_ok (E := E) h (MemorySegment.read_u32_ok h.code ha hspan)
  refine ⟨_, m', hrun, ?_, hrep⟩
  cases e with
  | full i =>
      obtain ⟨b0, b1, b2, b3⟩ := hf.full
      rw [b0, b1, b2, b3]
      exact bytes_word _
  | compressed c =>
      obtain ⟨b0, b1⟩ := hf.compressed
      rw [b0, b1]
      exact (low_half _ _ _ _).trans (bytes_half _)

/-- In two halves, or one. -/
theorem fetch_halves_ok {e : Encoding} (h : Represents imem cpu m) (hf : Fetches imem cpu e) :
    ∃ inst m', (fetch_halves cpu.pc : Exec (CpuError E) (Cpu M) U32) cpu =
      .ok inst (cpu.set_memory .code_seg m') ∧ Fetched inst e ∧
        Represents imem (cpu.set_memory .code_seg m') m := by
  have heven : cpu.pc.toNat % 2 = 0 := by rw [h.pc]; exact h.even
  have hspan : cpu.code_seg.Spans cpu.pc 2 := fun k hk =>
    (hf k (hk.trans_le e.two_le_size)).1
  obtain ⟨m₁, hlo, hrep₁⟩ :=
    on_code_ok (E := E) h (MemorySegment.read_u16_ok h.code heven hspan)
  rw [fetch_halves, Exec.bind_apply_ok hlo]
  cases e with
  | full i =>
      obtain ⟨b0, b1, b2, b3⟩ := hf.full
      have hnext : cpu.pc + 2 + 1 = cpu.pc + 3 := BitVec.add_assoc _ _ _
      rw [b0, b1, if_neg (not_not_intro (full_low i))]
      have heven₂ : (cpu.pc + 2).toNat % 2 = 0 := even_add heven rfl
      have hspan₂ : (cpu.set_memory .code_seg m₁).code_seg.Spans (cpu.pc + 2) 2 := by
        intro k hk
        rw [BitVec.add_assoc, show (2 : U32) + BitVec.ofNat 32 k = BitVec.ofNat 32 (2 + k) from
          (BitVec.ofNat_add 2 k).symm]
        exact (hf (2 + k) (show 2 + k < 4 by omega)).1
      obtain ⟨m₂, hhi, hrep₂⟩ :=
        on_code_ok (E := E) hrep₁ (MemorySegment.read_u16_ok hrep₁.code heven₂ hspan₂)
      rw [Exec.bind_apply_ok hhi]
      refine ⟨_, m₂, rfl, ?_, hrep₂⟩
      rw [hnext, b3, b2, halves_word]
      exact halves_full i.encode
  | compressed c =>
      obtain ⟨b0, b1⟩ := hf.compressed
      rw [b0, b1, bytes_half, if_pos (compressed_low c)]
      refine ⟨_, m₁, rfl, ?_, hrep₁⟩
      exact halves_low c.encode

theorem fetch_ok {e : Encoding} (h : Represents imem cpu m) (hf : Fetches imem cpu e) :
    ∃ inst m', (fetch_instruction : Exec (CpuError E) (Cpu M) U32) cpu =
      .ok inst (cpu.set_memory .code_seg m') ∧ Fetched inst e ∧
        Represents imem (cpu.set_memory .code_seg m') m := by
  rw [fetch_instruction, Exec.get_bind]
  split
  · next hc => exact fetch_word_ok h hf hc.1 hc.2
  · exact fetch_halves_ok h hf

/-! ## One turn of the loop -/

theorem even_ofNat {n : ℕ} (hn : n % 2 = 0) : (BitVec.ofNat 32 n).toNat % 2 = 0 := by
  rw [BitVec.toNat_ofNat]
  omega

theorem even_iff (a : U32) : a.toNat % 2 = 0 ↔ a.getLsbD 0 = false := by
  rw [BitVec.getLsbD, Nat.testBit_zero, decide_eq_false_iff_not]
  omega

/-- The offset of a jump is a number of half-words. -/
theorem even_offset {w : ℕ} (x : BitVec w) :
    ((x ++ 0#1).signExtend 32 : U32).toNat % 2 = 0 := by
  rw [even_iff, BitVec.getLsbD_signExtend, BitVec.getLsbD_append]
  simp

/-- The program counter stays at an even address. -/
theorem exec_even {i : Instr} {n : ℕ} (hn : n % 2 = 0) (h : m.pc.toNat % 2 = 0) {m' : Machine}
    (hexec : exec i n m = .ok m') : m'.pc.toNat % 2 = 0 := by
  have hnext : (m.pc + BitVec.ofNat 32 n).toNat % 2 = 0 := even_add h (even_ofNat hn)
  cases i with
  | jal d offset =>
      cases hexec
      exact even_add h (even_offset offset)
  | jalr d a offset =>
      cases hexec
      rw [even_iff, BitVec.getLsbD_append]
      simp
  | branch c a b offset =>
      rw [exec] at hexec
      split at hexec
      · cases hexec
        exact even_add h (even_offset offset)
      · cases hexec
        exact hnext
  | ecall | ebreak => cases hexec
  | load | store | lr | amo =>
      simp only [exec] at hexec
      split at hexec
      · cases hexec
        exact hnext
      · cases hexec
  | sc =>
      simp only [exec] at hexec
      split at hexec
      · split at hexec
        · cases hexec
          exact hnext
        · cases hexec
          exact hnext
      · cases hexec
  | _ =>
      cases hexec
      exact hnext

theorem size_even (e : Encoding) : e.size % 2 = 0 := by
  cases e with
  | full i => exact (by decide : 4 % 2 = 0)
  | compressed c => exact (by decide : 2 % 2 = 0)

/-- An instruction that is no ECALL is not decoded into one. -/
theorem ne_ecall_of_denotes {op : Op} {i : Instr} (hd : Denotes op i) (hi : i ≠ .ecall) :
    op ≠ .ecall := by
  rintro rfl
  cases i with
  | ecall => exact hi rfl
  | shiftImm f d a shamt =>
      obtain ⟨imm, -, hop⟩ := hd
      cases f <;> cases hop
  | branch f | load f | store f | opImm f | alu f | amo f => cases f <;> cases hd
  | lui | auipc | jal | jalr | fence | ebreak | lr | sc => cases hd

omit [LawfulPagedMemory M] in
/-- What `execute` does with any other operation. -/
theorem execute_eq {ecall_handler : Option (Exec E (H × Cpu M) Unit)} {inst : U32} {op : Op}
    {n : U32} (hdec : decode inst = (op, n)) (hop : op ≠ .ecall) :
    execute ecall_handler inst = on_cpu (do
      let pc_inc ← execute_op op n
      Exec.modify (advance pc_inc)) := by
  rw [execute, hdec]
  split
  · next he => cases he; exact absurd rfl hop
  · next he => cases he; rfl

/-- `x0` is hardwired to zero. -/
theorem Tracks.zero_reg {m' : Machine} (h : Tracks imem cpu m') :
    Tracks imem (cpu.set_reg 0 0) m' where
  reg r hr := by
    rw [reg_set_reg, if_neg hr]
    exact h.reg r hr
  reserved := h.reserved
  memory := (h.set_reg 0 0).memory
  writable := (h.set_reg 0 0).writable

/-- The end of `execute` makes the machine of an arm that has run to its end. -/
theorem Tracks.advance {m' : Machine} {pc_inc : U32} (h : Tracks imem cpu m')
    (hpc : cpu.pc + pc_inc = m'.pc) (heven : m'.pc.toNat % 2 = 0) :
    Represents imem (cpu.advance pc_inc) m' where
  toTracks := (h.zero_reg.cpu_pc _)
  zero := by
    show (cpu.set_reg 0 0).reg 0 = 0
    rw [reg_set_reg, if_pos rfl]
  pc := hpc
  even := heven

/-- A turn on an instruction that is no ECALL has the effect of the reference
semantics on the registers, the program counter, the memory and the
reservation; where that raises an exception, the turn is an error and has no
effect. -/
theorem step_refines_rv32 {ecall_handler : Option (Exec E (H × Cpu M) Unit)} {handler : H}
    {e : Encoding} (h : Represents imem cpu m) (hlegal : e.Legal) (hecall : e.instr ≠ .ecall)
    (hfetch : Fetches imem cpu e)
    (haccess : ∀ writes a w, e.instr.access m = some (writes, a, w) →
      cpu.Accessible writes a w) :
    match exec e.instr e.size m with
    | .ok m' => ∃ cpu', step ecall_handler (handler, cpu) = .ok () (handler, cpu') ∧
        Represents imem cpu' m' ∧ cpu'.owner = cpu.owner
    | .error _ => ∃ msg cpu', step ecall_handler (handler, cpu) =
        .err (.genericError msg) (handler, cpu') ∧ Represents imem cpu' m := by
  obtain ⟨inst, m₁, hrun, hinst, hrep⟩ := fetch_ok (E := E) h hfetch
  obtain ⟨op, hdec, hd⟩ : ∃ op, decode inst = (op, BitVec.ofNat 32 e.size) ∧
      Denotes op e.instr := by
    cases e with
    | full i =>
        cases hinst
        exact decode_full i
    | compressed c => exact decode_half hlegal hinst
  have hfetched : (on_cpu fetch_instruction : Exec (CpuError E) (H × Cpu M) U32) (handler, cpu) =
      .ok inst (handler, cpu.set_memory .code_seg m₁) := Exec.zoom_ok.mpr ⟨_, hrun, rfl⟩
  rw [step, Exec.bind_apply_ok hfetched, execute_eq hdec (ne_ecall_of_denotes hd hecall)]
  have hop := execute_op_ok (E := E) hrep hd hecall e.size fun writes a w ha => by
    obtain ⟨s, hs⟩ := haccess writes a w ha
    exact ⟨s, by rw [set_memory_owner]; exact hs⟩
  cases hexec : exec e.instr e.size m with
  | ok m' =>
      rw [hexec] at hop
      obtain ⟨pc_inc, cpu', harm, htracks, hpc, howner⟩ := hop
      refine ⟨cpu'.advance pc_inc, ?_, htracks.advance hpc (exec_even (size_even e) h.even hexec),
        howner.trans (set_memory_owner ..)⟩
      refine Exec.zoom_ok.mpr ⟨_, Exec.bind_apply_ok harm, rfl⟩
  | error trap =>
      rw [hexec] at hop
      obtain ⟨msg, harm⟩ := hop
      refine ⟨msg, _, ?_, hrep⟩
      rw [on_cpu, Exec.zoom, Exec.bind_apply_err harm]
      rfl

/-- A store that begins in one page of the code and ends in the next. -/
def straddling : Cpu VecMemory where
  pc := 0x1fe
  regs := ((Vector.replicate 32 0).set 1 7).set 2 0x1004
  code_seg := {
    start_address := 0x100
    size := 0x200
    paged_memory := { pages := [
      array (List.replicate 254 0 ++ [0x23, 0x20]) 0 PAGE_SIZE,
      array [0x11, 0x00] 0 PAGE_SIZE] } }
  data_seg := { start_address := 0x1000, size := 0x100, paged_memory := VecMemory.new 1 }
  stack_seg := { start_address := 0x2000, size := 0x100, paged_memory := VecMemory.new 1 }
  reservation_addr := some 0x1004

theorem step_refines_rv32_straddling : ∃ cpu',
    step (none : Option (Exec Unit (Unit × Cpu VecMemory) Unit)) ((), straddling) =
      .ok () ((), cpu') ∧
    Represents straddling.code_seg.bytes cpu'
      ((straddling.machine.store 0x1004 [7, 0, 0, 0]).next 4) ∧
    cpu'.owner = straddling.owner := by
  have hback : ∀ s, (straddling.segment s).Backed := by
    intro s
    apply MemorySegment.Backed.of_size <;> cases s <;> decide
  have hfetch : Fetches straddling.code_seg.bytes straddling (.full (.store .sw 2 1 0)) := by
    intro k hk
    have : k < 4 := hk
    interval_cases k <;> decide +kernel
  exact step_refines_rv32 (e := .full (.store .sw 2 1 0)) (represents_machine rfl rfl hback) trivial (by decide) hfetch
    fun writes a w ha => by
      cases ha
      refine ⟨.data_seg, fun _ => by decide, fun k hk => ?_⟩
      have : k < 4 := hk
      interval_cases k <;> decide

end Cpu

end Vanadium
