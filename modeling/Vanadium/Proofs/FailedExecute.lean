import Vanadium.Proofs.PageView

/-!
# A failed instruction changes nothing

An operation may fail in several places, but each does its one irrevocable
thing last: a register is set, or a page written, when all that can fail is
over. What happens before are lookups, and a lookup leaves a memory that stands
for the same bytes, even one that fails.

So the proof is a walk over the families of operations with two rules: what
comes before the last fallible step keeps the processor as it was, and what
comes after it does not fail.
-/

namespace Vanadium

open Lib

variable {M : Type} [PagedMemory M] [PageView M]

namespace Cpu

variable {E H : Type} {cpu cpu' cpu₁ : Cpu M} {a : U32}

/-- The program counter, the registers, the reservation, and what the segments
show are those of `cpu`. -/
structure Unchanged (cpu cpu' : Cpu M) : Prop where
  pc : cpu'.pc = cpu.pc
  regs : cpu'.regs = cpu.regs
  reservation_addr : cpu'.reservation_addr = cpu.reservation_addr
  segments : ∀ s, (cpu.segment s).Same (cpu'.segment s)

theorem Unchanged.refl (cpu : Cpu M) : Unchanged cpu cpu := ⟨rfl, rfl, rfl, fun _ => .refl _⟩

theorem Unchanged.set_segment (h : Unchanged cpu cpu') {s : Segment} {seg : MemorySegment M}
    (hseg : (cpu'.segment s).Same seg) : Unchanged cpu (cpu'.set_segment s seg) := by
  refine ⟨?_, ?_, ?_, fun t => ?_⟩
  · rw [← h.pc]; cases s <;> rfl
  · rw [← h.regs]; cases s <;> rfl
  · rw [← h.reservation_addr]; cases s <;> rfl
  · rw [segment_set_segment]
    split
    · next hts => rw [hts]; exact (h.segments s).trans hseg
    · exact h.segments t

/-! ## Loads and stores -/

theorem on_segment_fails {α : Type} {s : Segment} {access : Exec MemoryError (MemorySegment M) α}
    (haccess : ∀ seg : MemorySegment M, seg.contains a = true → Exec.FailsIn seg.Same access)
    (hcpu : Unchanged cpu cpu₁) (hin : (cpu₁.segment s).contains a = true)
    (h : Exec.Fails (on_segment (E := E) s access) cpu₁ cpu') : Unchanged cpu cpu' := by
  obtain ⟨seg', hseg, rfl⟩ := Exec.zoom_fails.mp h
  exact hcpu.set_segment (haccess _ hin (.refl _) hseg)

theorem read_preserves {α : Type} {access : Exec MemoryError (MemorySegment M) α}
    (haccess : ∀ seg : MemorySegment M, seg.contains a = true → Exec.Preserves seg.Same access) :
    Exec.Preserves (Unchanged cpu) (read access a : Exec (CpuError E) (Cpu M) α) := by
  have hseg {s : Segment} {cpu₁ : Cpu M} (hcpu : Unchanged cpu cpu₁)
      (hin : (cpu₁.segment s).contains a = true) :
      Exec.PreservesAt (Unchanged cpu) (on_segment (E := E) s access) cpu₁ := by
    refine ⟨fun v cpu' h => ?_, fun cpu' h =>
      on_segment_fails (fun seg hin => (haccess seg hin).failsIn) hcpu hin h⟩
    obtain ⟨seg', hrun, rfl⟩ := Exec.zoom_ok.mp h
    exact hcpu.set_segment ((haccess _ hin (.refl _)).ok hrun)
  refine .get_bind fun cpu₁ hcpu => ?_
  split
  · next hin => exact hseg (s := .stack_seg) hcpu hin
  split
  · next hin => exact hseg (s := .data_seg) hcpu hin
  split
  · next hin => exact hseg (s := .code_seg) hcpu hin
  · exact Exec.Preserves.throw _ hcpu

theorem write_failsIn {access : Exec MemoryError (MemorySegment M) Unit} {w : U32}
    (haccess : ∀ seg : MemorySegment M, seg.contains a = true → Exec.FailsIn seg.Same access) :
    Exec.FailsIn (Unchanged cpu) (write access w a : Exec (CpuError E) (Cpu M) Unit) := by
  refine Exec.FailsIn.bind_last (fun cpu₁ hcpu cpu' h => ?_) fun _ => .modify _
  obtain ⟨cpu₀, cpu₂, hget, h⟩ := (Exec.bind_fails.mp h).resolve_left (Exec.Infallible.get _ _)
  cases hget
  split at h
  · next hin => exact on_segment_fails (s := .stack_seg) haccess hcpu hin h
  split at h
  · next hin => exact on_segment_fails (s := .data_seg) haccess hcpu hin h
  · exact (Exec.Preserves.throw _ hcpu).fails h

theorem read_u8_preserves :
    Exec.Preserves (Unchanged cpu) (read_u8 a : Exec (CpuError E) (Cpu M) U8) :=
  read_preserves fun _ hin => MemorySegment.read_u8_preserves hin

theorem read_u16_preserves :
    Exec.Preserves (Unchanged cpu) (read_u16 a : Exec (CpuError E) (Cpu M) (BitVec 16)) :=
  read_preserves fun _ hin => MemorySegment.read_u16_preserves hin

theorem read_u32_preserves :
    Exec.Preserves (Unchanged cpu) (read_u32 a : Exec (CpuError E) (Cpu M) U32) :=
  read_preserves fun _ hin => MemorySegment.read_u32_preserves hin

theorem write_u8_failsIn (v : U8) :
    Exec.FailsIn (Unchanged cpu) (write_u8 a v : Exec (CpuError E) (Cpu M) Unit) :=
  write_failsIn fun _ hin => MemorySegment.write_u8_failsIn hin v

theorem write_u16_failsIn (v : BitVec 16) :
    Exec.FailsIn (Unchanged cpu) (write_u16 a v : Exec (CpuError E) (Cpu M) Unit) :=
  write_failsIn fun _ hin => MemorySegment.write_u16_failsIn hin v

theorem write_u32_failsIn (v : U32) :
    Exec.FailsIn (Unchanged cpu) (write_u32 a v : Exec (CpuError E) (Cpu M) Unit) :=
  write_failsIn fun _ hin => MemorySegment.write_u32_failsIn hin v

/-! ## The operations -/

section
variable (n : U32)

omit [PagedMemory M] [PageView M] in
theorem alu_infallible (rd rs1 rs2 : RegNum) (f : U32 → U32 → U32) :
    Exec.Infallible (alu n rd rs1 rs2 f : Exec (CpuError E) (Cpu M) U32) :=
  (Exec.Infallible.modify _).bind fun _ => .pure _

omit [PagedMemory M] [PageView M] in
theorem alu_imm_infallible (rd rs1 : RegNum) (imm : I32) (f : U32 → I32 → U32) :
    Exec.Infallible (alu_imm n rd rs1 imm f : Exec (CpuError E) (Cpu M) U32) :=
  (Exec.Infallible.modify _).bind fun _ => .pure _

omit [PagedMemory M] [PageView M] in
theorem branch_infallible (rs1 rs2 : RegNum) (imm : I32) (taken : U32 → U32 → Bool) :
    Exec.Infallible (branch n rs1 rs2 imm taken : Exec (CpuError E) (Cpu M) U32) :=
  Exec.Infallible.get.bind fun _ => .pure _

theorem load_failsIn (rd rs1 : RegNum) (imm : I32)
    {value : U32 → Exec (CpuError E) (Cpu M) U32}
    (hvalue : ∀ addr, Exec.Preserves (Unchanged cpu) (value addr)) :
    Exec.FailsIn (Unchanged cpu) (load n rd rs1 imm value) :=
  Exec.FailsIn.bind .get fun _ => (hvalue _).failsIn.bind_last fun _ =>
    (Exec.Infallible.modify _).bind fun _ => .pure _

theorem store_failsIn (rs1 rs2 : RegNum) (imm : I32)
    {put : U32 → U32 → Exec (CpuError E) (Cpu M) Unit}
    (hput : ∀ addr v, Exec.FailsIn (Unchanged cpu) (put addr v)) :
    Exec.FailsIn (Unchanged cpu) (store n rs1 rs2 imm put) :=
  Exec.FailsIn.bind .get fun _ => (hput _ _).bind_last fun _ => .pure _

theorem reject_unaligned_preserves (addr mask : U32) (msg : String) :
    Exec.Preserves (Unchanged cpu)
      (reject_unaligned addr mask msg : Exec (CpuError E) (Cpu M) Unit) :=
  .reject _ _

theorem load_reserved_failsIn (rd rs1 : RegNum) :
    Exec.FailsIn (Unchanged cpu) (load_reserved n rd rs1 : Exec (CpuError E) (Cpu M) U32) :=
  Exec.FailsIn.bind .get fun _ => Exec.FailsIn.bind (reject_unaligned_preserves _ _ _) fun _ =>
    read_u32_preserves.failsIn.bind_last fun _ =>
      (Exec.Infallible.modify _).bind fun _ => .pure _

/-- Whether the reservation is consumed is decided when the store is done. -/
theorem store_conditional_failsIn (rd rs1 rs2 : RegNum) :
    Exec.FailsIn (Unchanged cpu)
      (store_conditional n rd rs1 rs2 : Exec (CpuError E) (Cpu M) U32) := by
  refine Exec.FailsIn.bind .get fun _ =>
    Exec.FailsIn.bind (reject_unaligned_preserves _ _ _) fun _ => ?_
  split
  · exact (write_u32_failsIn _).bind_last fun _ =>
      (Exec.Infallible.modify _).bind fun _ => .pure _
  · exact ((Exec.Infallible.modify _).bind fun _ => .pure _).failsIn

/-- Between the load and the store nothing is set, and after the store nothing
fails. -/
theorem amo_failsIn (name : String) (rd rs1 rs2 : RegNum) (f : U32 → U32 → U32) :
    Exec.FailsIn (Unchanged cpu)
      (amo n name rd rs1 rs2 f : Exec (CpuError E) (Cpu M) U32) :=
  Exec.FailsIn.bind .get fun _ => Exec.FailsIn.bind (reject_unaligned_preserves _ _ _) fun _ =>
    Exec.FailsIn.bind read_u32_preserves fun _ => (write_u32_failsIn _).bind_last fun _ =>
      (Exec.Infallible.modify _).bind fun _ => .pure _

theorem execute_op_failsIn (op : Op) :
    Exec.FailsIn (Unchanged cpu) (execute_op op n : Exec (CpuError E) (Cpu M) U32) := by
  cases op <;> rw [execute_op]
  case lb | lbu => exact load_failsIn _ _ _ _ fun _ => read_u8_preserves.bind fun _ => .pure _
  case lh | lhu =>
    exact load_failsIn _ _ _ _ fun _ => (reject_unaligned_preserves _ _ _).bind fun _ =>
      read_u16_preserves.bind fun _ => .pure _
  case lw =>
    exact load_failsIn _ _ _ _ fun _ => (reject_unaligned_preserves _ _ _).bind fun _ =>
      read_u32_preserves
  case sb => exact store_failsIn _ _ _ _ fun _ _ => write_u8_failsIn _
  case sh =>
    exact store_failsIn _ _ _ _ fun _ _ =>
      Exec.FailsIn.bind (reject_unaligned_preserves _ _ _) fun _ => write_u16_failsIn _
  case sw =>
    exact store_failsIn _ _ _ _ fun _ _ =>
      Exec.FailsIn.bind (reject_unaligned_preserves _ _ _) fun _ => write_u32_failsIn _
  case lrW => exact load_reserved_failsIn _ _ _
  case scW => exact store_conditional_failsIn _ _ _ _
  case auipc | jal | jalr | lui =>
    exact ((Exec.Infallible.modify _).bind fun _ => .pure _).failsIn
  case fence => exact (Exec.Infallible.pure _).failsIn
  case ecall | «break» | unknown => exact (Exec.Preserves.throw _).failsIn
  case beq | bne | blt | bge | bltu | bgeu => exact (branch_infallible _ _ _ _ _).failsIn
  case amoswapW | amoaddW | amoxorW | amoandW | amoorW | amominW | amomaxW | amominuW |
      amomaxuW => exact amo_failsIn _ _ _ _ _ _
  case addi | andi | ori | slli | slti | sltiu | srli | srai | xori =>
    exact (alu_imm_infallible _ _ _ _ _).failsIn
  all_goals exact (alu_infallible _ _ _ _ _).failsIn

end

/-! ## Execution -/

/-- The ECALL handler is not run, and the program counter moves last. -/
theorem execute_err {ecall_handler : Option (Exec E (H × Cpu M) Unit)} {inst : U32}
    {s s' : H × Cpu M} {e : CpuError E} (hop : (decode inst).1 ≠ .ecall)
    (h : execute ecall_handler inst s = .err e s') : s'.1 = s.1 ∧ Unchanged s.2 s'.2 := by
  cases hdec : decode inst with
  | mk op n =>
      rw [hdec] at hop
      rw [execute_eq hdec hop] at h
      obtain ⟨e', cpu', hrun, -, rfl⟩ := Exec.zoom_err.mp h
      exact ⟨rfl, (execute_op_failsIn _ _).bind_last (fun _ => .modify _) (.refl _) (.of_err hrun)⟩

omit [PagedMemory M] [PageView M] in
theorem advance_reg_zero (pc_inc : U32) (cpu : Cpu M) : (advance pc_inc cpu).reg 0 = 0 :=
  Vector.getElem_set_self ..

omit [PageView M] in
/-- Whatever was executed, an ECALL included, `x0` is cleared after it. -/
theorem execute_reg_zero {ecall_handler : Option (Exec E (H × Cpu M) Unit)} {inst : U32}
    {s s' : H × Cpu M} {u : Unit} (h : execute ecall_handler inst s = .ok u s') :
    s'.2.reg 0 = 0 := by
  cases hdec : decode inst with
  | mk op n =>
      by_cases hop : op = .ecall
      · rw [execute, hdec, hop] at h
        obtain ⟨_, t, -, hadvance⟩ := Exec.bind_ok.mp h
        obtain ⟨cpu', hrun, rfl⟩ := Exec.zoom_ok.mp hadvance
        cases hrun
        exact advance_reg_zero ..
      · rw [execute_eq hdec hop] at h
        obtain ⟨cpu', hrun, rfl⟩ := Exec.zoom_ok.mp h
        obtain ⟨pc_inc, cpu₁, -, hadvance⟩ := Exec.bind_ok.mp hrun
        cases hadvance
        exact advance_reg_zero ..

omit [PageView M] in
theorem step_reg_zero {ecall_handler : Option (Exec E (H × Cpu M) Unit)} {s s' : H × Cpu M}
    {u : Unit} (h : step ecall_handler s = .ok u s') : s'.2.reg 0 = 0 := by
  obtain ⟨inst, t, -, hexecute⟩ := Exec.bind_ok.mp h
  exact execute_reg_zero hexecute

end Cpu

namespace handler_start_vapp

/-- The stack pointer is the one register set at the start. -/
theorem start_reg_zero {dev : Device} {world : Surroundings} {manifest : Manifest}
    {s₀ : CommEcallHandler × Cpu VappMemory} (h : start dev world manifest = some s₀) :
    s₀.2.reg 0 = 0 := by
  simp only [start, Option.bind_eq_bind, Option.bind_eq_some_iff] at h
  obtain ⟨-, -, -, -, _, -, _, -, _, -, _, -, h⟩ := h
  cases h
  rfl

theorem reaches_reg_zero {dev : Device} {sdk : Sdk} {s₀ s : CommEcallHandler × Cpu VappMemory}
    (h₀ : s₀.2.reg 0 = 0) (h : Exec.Reaches (turn dev sdk) (fun _ => True) s₀ s) :
    s.2.reg 0 = 0 :=
  h.invariant (I := fun s => s.2.reg 0 = 0) h₀ fun _ _ _ _ hturn =>
    @Cpu.step_reg_zero _ (OutsourcedMemory.pagedMemory dev) _ _ _ _ _ _ hturn

end handler_start_vapp

/-- An operation other than ECALL that fails leaves the program counter, the
registers, the reservation and the contents of the segments as they were; and
`x0` is 0 whenever the loop of the VM comes around. -/
theorem execute_err_unchanged {M E H : Type} [PagedMemory M] [PageView M] :
    (∀ (ecall_handler : Option (Exec E (H × Cpu M) Unit)) (inst : U32) (handler : H)
        (cpu : Cpu M) (e : CpuError E) (s' : H × Cpu M), (decode inst).1 ≠ .ecall →
        Cpu.execute ecall_handler inst (handler, cpu) = .err e s' →
        s'.1 = handler ∧ Cpu.Unchanged cpu s'.2) ∧
      ∀ (dev : Device) (sdk : Sdk) (world : Surroundings) (manifest : Manifest)
        (s₀ s : CommEcallHandler × Cpu VappMemory),
        handler_start_vapp.start dev world manifest = some s₀ →
        Exec.Reaches (handler_start_vapp.turn dev sdk) (fun _ => True) s₀ s → s.2.reg 0 = 0 :=
  ⟨fun _ _ _ _ _ _ hop herr => Cpu.execute_err hop herr, fun _ _ _ _ _ _ hstart hreach =>
    handler_start_vapp.reaches_reg_zero (handler_start_vapp.start_reg_zero hstart) hreach⟩

/-- `amoadd.w x5, x6, (x7)` with the address of the code in `x7`: the load goes
through, the store does not. Beside it, a start of the VM. -/
theorem execute_err_unchanged_amo :
    (∃ e s', Cpu.execute (none : Option (Exec Unit (Unit × Cpu VecMemory) Unit)) 0x63a2af
        ((), { Cpu.straddling with regs := (Vector.replicate 32 0).set 7 0x100 }) = .err e s' ∧
      s'.1 = () ∧
      Cpu.Unchanged { Cpu.straddling with regs := (Vector.replicate 32 0).set 7 0x100 } s'.2) ∧
    ∃ s₀ : CommEcallHandler × Cpu VappMemory,
      handler_start_vapp.start SelfWriting.device SelfWriting.world SelfWriting.manifest =
        some s₀ ∧ s₀.2.reg 0 = 0 := by
  obtain ⟨herr, hzero⟩ := @execute_err_unchanged VecMemory Unit Unit _ _
  constructor
  · have hrun : ∃ e s', Cpu.execute (none : Option (Exec Unit (Unit × Cpu VecMemory) Unit)) 0x63a2af
        ((), { Cpu.straddling with regs := (Vector.replicate 32 0).set 7 0x100 }) = .err e s' :=
      ⟨_, _, rfl⟩
    obtain ⟨e, s', hrun⟩ := hrun
    exact ⟨e, s', hrun, herr _ _ _ _ _ _ (by decide) hrun⟩
  · obtain ⟨s₀, _, hstart, -, -⟩ := SelfWriting.observed_some SelfWriting.observed_first
    exact ⟨s₀, hstart, hzero _ SelfWriting.sdk _ _ _ _ hstart .start⟩

end Vanadium
