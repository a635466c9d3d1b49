import Vanadium.Proofs.Cpu

/-!
# What memory keeps, the processor keeps

The processor reaches a segment's memory in two ways: it looks up a page, and it
writes through a reference. So what the memory of a segment keeps under both is
kept by every load, store and fetch; and where lookups do not panic, nothing
that works on their result does.

A segment that is not written need not keep anything when it is, and stores
never reach the code. That is why overwriting is asked of a segment separately.
-/

namespace Vanadium

open Lib

variable {M : Type} {quiet : Prop}

/-- What is written through a reference leaves `I`. -/
def Overwritable [PagedMemory M] (I : M → Prop) : Prop :=
  ∀ m r page, I m → I (PagedMemory.deref_mut m r page)

namespace MemorySegment

/-- A segment with its bounds, over a memory with `I`. -/
structure Fixed (start size : U32) (I : M → Prop) (seg : MemorySegment M) : Prop where
  start : seg.start_address = start
  size : seg.size = size
  memory : I seg.paged_memory

variable [PagedMemory M] {start size : U32} {I : M → Prop}

omit [PagedMemory M] in
theorem offset_lt (seg : MemorySegment M) (a : U32) : seg.offset a < PAGE_SIZE := by
  rw [offset, BitVec.toNat_umod, PAGE_SIZE_toNat]
  exact Nat.mod_lt _ (by decide)

theorem keeps_read_page {page : PagedMemory.PageRef M} {offset n : ℕ}
    (h : offset + n ≤ PAGE_SIZE) :
    Exec.Keeps quiet (Fixed start size I) (read_page page offset n) :=
  Exec.Keeps.get.bind fun _ => (Exec.Keeps.assert fun _ => h).bind fun _ => .pure _

theorem keeps_write_page (hmut : Overwritable I) {page : PagedMemory.PageRef M} {offset : ℕ}
    {bytes : Bytes} (h : offset + bytes.length ≤ PAGE_SIZE) :
    Exec.Keeps quiet (Fixed start size I) (write_page page offset bytes) := by
  intro seg hseg
  constructor
  · intro u seg' hrun
    rw [write_page, Exec.get_bind] at hrun
    obtain ⟨-, hrun⟩ := Exec.assert_bind_ok.mp hrun
    cases hrun
    exact ⟨hseg.start, hseg.size, hmut _ _ _ hseg.memory⟩
  · intro w seg' hrun _
    rw [write_page, Exec.get_bind, Exec.assert_bind_pos h] at hrun
    cases hrun

omit [PagedMemory M] in
theorem keeps_check_range (address : U32) (len : ℕ) :
    Exec.Keeps quiet (Fixed start size I) (check_range (M := M) address len) :=
  Exec.Keeps.get.bind fun _ => (Exec.Keeps.reject _ _).bind fun _ => .reject _ _

section
variable (hget : ∀ i, Exec.Keeps quiet I (PagedMemory.get_page i : Exec MemoryError M _))
include hget

theorem keeps_get_page (i : U32) :
    Exec.Keeps quiet (Fixed start size I) (get_page (M := M) i) :=
  (hget i).zoom (fun _ h => h.memory) fun _ _ h hm => ⟨h.start, h.size, hm⟩

/-- An access that was located stays in its page. -/
theorem keeps_locate_bind {α : Type} {n : ℕ} (hn : n = 1 ∨ n = 2 ∨ n = 4) (address : U32)
    {f : PagedMemory.PageRef M × ℕ → Exec MemoryError (MemorySegment M) α}
    (hf : ∀ r offset, offset + n ≤ PAGE_SIZE →
      Exec.Keeps quiet (Fixed start size I) (f (r, offset))) :
    Exec.Keeps quiet (Fixed start size I)
      (locate (M := M) address (BitVec.ofNat 32 n) >>= f) := by
  refine Exec.Keeps.bind_of (P := fun p => p.2 + n ≤ PAGE_SIZE) ?_ ?_ fun p => hf p.1 p.2
  · exact Exec.Keeps.get.bind fun _ => (Exec.Keeps.reject _ _).bind fun _ =>
      (Exec.Keeps.reject _ _).bind fun _ => (keeps_get_page hget _).bind fun _ => .pure _
  · rintro seg ⟨r, offset⟩ seg' hrun -
    obtain ⟨hle, -, halign, rfl, -⟩ := locate_inv hrun
    have hpos : 0 < n := by rcases hn with rfl | rfl | rfl <;> decide
    have hwidth : (BitVec.ofNat 32 n).toNat = n := by rcases hn with rfl | rfl | rfl <;> rfl
    rw [hwidth] at halign
    exact (Natural.same_page ⟨hn, halign⟩ hle hpos).2.2

/-- The three loads are a lookup, a read and a function of the bytes. -/
theorem keeps_load {α : Type} {n : ℕ} (hn : n = 1 ∨ n = 2 ∨ n = 4) (address : U32)
    (f : Bytes → α) :
    Exec.Keeps quiet (Fixed start size I) (do
      let (page, offset) ← locate (M := M) address (BitVec.ofNat 32 n)
      let b ← read_page page offset n
      pure (f b)) :=
  keeps_locate_bind hget hn address fun _ _ h => (keeps_read_page h).bind fun _ => .pure _

theorem keeps_read_u8 (address : U32) :
    Exec.Keeps quiet (Fixed start size I) (read_u8 (M := M) address) :=
  keeps_load hget (.inl rfl) address _

theorem keeps_read_u16 (address : U32) :
    Exec.Keeps quiet (Fixed start size I) (read_u16 (M := M) address) :=
  keeps_load hget (.inr (.inl rfl)) address _

theorem keeps_read_u32 (address : U32) :
    Exec.Keeps quiet (Fixed start size I) (read_u32 (M := M) address) :=
  keeps_load hget (.inr (.inr rfl)) address _

/-- And the three stores a lookup and a write. -/
theorem keeps_store (hmut : Overwritable I) {n : ℕ} (hn : n = 1 ∨ n = 2 ∨ n = 4)
    (address : U32) {bytes : Bytes} (hb : bytes.length = n) :
    Exec.Keeps quiet (Fixed start size I) (do
      let (page, offset) ← locate (M := M) address (BitVec.ofNat 32 n)
      write_page page offset bytes) :=
  keeps_locate_bind hget hn address fun _ _ h => keeps_write_page hmut (by rw [hb]; exact h)

theorem keeps_read_buffer (address : U32) (len : ℕ) :
    Exec.Keeps quiet (Fixed start size I) (read_buffer (M := M) address len) := by
  refine (keeps_check_range address len).bind fun _ => ?_
  have hloop : ∀ (fuel : ℕ) (a : U32) (remaining : ℕ) (buffer : Bytes),
      Exec.Keeps quiet (Fixed start size I)
        (read_buffer.loop (M := M) fuel a remaining buffer) := by
    intro fuel
    induction fuel with
    | zero => exact fun _ _ _ => .pure _
    | succ fuel ih =>
        intro a remaining buffer
        rw [read_buffer.loop]
        split
        · exact .pure _
        · refine Exec.Keeps.get.bind fun seg => (keeps_get_page hget _).bind fun _ => ?_
          have hoff := seg.offset_lt a
          exact (keeps_read_page (by omega)).bind fun _ => ih _ _ _
  exact hloop _ _ _ _

theorem keeps_write_buffer (hmut : Overwritable I) (address : U32) (buffer : Bytes) :
    Exec.Keeps quiet (Fixed start size I) (write_buffer (M := M) address buffer) := by
  refine (keeps_check_range address _).bind fun _ => ?_
  have hloop : ∀ (fuel : ℕ) (a : U32) (buffer : Bytes),
      Exec.Keeps quiet (Fixed start size I) (write_buffer.loop (M := M) fuel a buffer) := by
    intro fuel
    induction fuel with
    | zero => exact fun _ _ => .pure _
    | succ fuel ih =>
        intro a buffer
        rw [write_buffer.loop]
        split
        · exact .pure _
        · refine Exec.Keeps.get.bind fun seg => (keeps_get_page hget _).bind fun _ => ?_
          have hoff := seg.offset_lt a
          exact (keeps_write_page hmut (by rw [List.length_take]; omega)).bind fun _ => ih _ _
  exact hloop _ _ _

end

end MemorySegment

/-! ## The processor -/

namespace Cpu

variable {E : Type} {cpu₀ : Cpu M} {I : Segment → M → Prop}

/-- Every segment has the bounds it has in `cpu₀`, and a memory with its `I`. -/
def Kept (cpu₀ : Cpu M) (I : Segment → M → Prop) (cpu : Cpu M) : Prop :=
  ∀ s, (cpu.segment s).Fixed (cpu₀.segment s).start_address (cpu₀.segment s).size (I s)

theorem segment_set_segment (cpu : Cpu M) (s t : Segment) (seg : MemorySegment M) :
    (cpu.set_segment s seg).segment t = if t = s then seg else cpu.segment t := by
  cases s <;> cases t <;> rfl

theorem set_segment_reservation (cpu : Cpu M) (s : Segment) (seg : MemorySegment M) :
    (cpu.set_segment s seg).reservation_addr = cpu.reservation_addr := by
  cases s <;> rfl

theorem Kept.set_segment {cpu : Cpu M} (h : Kept cpu₀ I cpu) {s : Segment}
    {seg : MemorySegment M}
    (hseg : seg.Fixed (cpu₀.segment s).start_address (cpu₀.segment s).size (I s)) :
    Kept cpu₀ I (cpu.set_segment s seg) := by
  intro t
  rw [segment_set_segment]
  split
  · next he => rw [he]; exact hseg
  · exact h t

theorem Kept.contains {cpu : Cpu M} (h : Kept cpu₀ I cpu) (s : Segment) (a : U32) :
    (cpu.segment s).contains a = (cpu₀.segment s).contains a := by
  rw [MemorySegment.contains, MemorySegment.contains, (h s).start, (h s).size]

theorem Kept.owner {cpu : Cpu M} (h : Kept cpu₀ I cpu) : cpu.owner = cpu₀.owner := by
  funext a
  have hstack : cpu.stack_seg.contains a = cpu₀.stack_seg.contains a := h.contains .stack_seg a
  have hdata : cpu.data_seg.contains a = cpu₀.data_seg.contains a := h.contains .data_seg a
  have hcode : cpu.code_seg.contains a = cpu₀.code_seg.contains a := h.contains .code_seg a
  rw [Cpu.owner, Cpu.owner, hstack, hdata, hcode]

theorem Kept.of_segments {cpu cpu' : Cpu M} (h : Kept cpu₀ I cpu)
    (hs : ∀ s, cpu'.segment s = cpu.segment s) : Kept cpu₀ I cpu' := by
  intro s
  rw [hs s]
  exact h s

/-- The segment of an address is the one it belongs to. -/
theorem get_segment_owner {a : U32} {s : Segment} {cpu cpu' : Cpu M}
    (h : (get_segment a : Exec (CpuError E) (Cpu M) Segment) cpu = .ok s cpu') :
    cpu.owner a = some s ∧ cpu' = cpu := by
  rw [get_segment, Exec.get_bind] at h
  unfold Cpu.owner
  split at h
  · next hc => cases h; exact ⟨if_pos hc, rfl⟩
  · next hc =>
      rw [if_neg hc]
      split at h
      · next hd => cases h; exact ⟨if_pos hd, rfl⟩
      · next hd =>
          rw [if_neg hd]
          split at h
          · next he => cases h; exact ⟨if_pos he, rfl⟩
          · cases h

/-- Looking for the segment of an address changes nothing and does not panic. -/
theorem keeps_get_segment (a : U32) {J : Cpu M → Prop} :
    Exec.Keeps quiet J (get_segment a : Exec (CpuError E) (Cpu M) Segment) := by
  refine Exec.Keeps.get.bind fun cpu => ?_
  split
  · exact .pure _
  · split
    · exact .pure _
    · split
      · exact .pure _
      · exact .throw _

theorem keeps_on_segment {α : Type} {s : Segment}
    {access : Exec MemoryError (MemorySegment M) α}
    (h : ∀ start size, Exec.Keeps quiet (MemorySegment.Fixed start size (I s)) access) :
    Exec.Keeps quiet (Kept cpu₀ I)
      (on_segment s access : Exec (CpuError E) (Cpu M) α) :=
  (h _ _).zoom (fun _ hk => hk s) fun _ _ hk hseg => hk.set_segment hseg

theorem keeps_read {α : Type} {access : Exec MemoryError (MemorySegment M) α} (a : U32)
    (h : ∀ s start size, Exec.Keeps quiet (MemorySegment.Fixed start size (I s)) access) :
    Exec.Keeps quiet (Kept cpu₀ I) (read access a : Exec (CpuError E) (Cpu M) α) := by
  refine Exec.Keeps.get.bind fun cpu => ?_
  split
  · exact keeps_on_segment (h _)
  · split
    · exact keeps_on_segment (h _)
    · split
      · exact keeps_on_segment (h _)
      · exact .throw _

theorem invalidate_kept {cpu : Cpu M} (h : Kept cpu₀ I cpu) (a w : U32) :
    Kept cpu₀ I (cpu.invalidate a w) :=
  h.of_segments fun s => invalidate_segment cpu a w s

theorem keeps_write {access : Exec MemoryError (MemorySegment M) Unit} (w a : U32)
    (h : ∀ s ≠ Segment.code_seg, ∀ start size,
      Exec.Keeps quiet (MemorySegment.Fixed start size (I s)) access) :
    Exec.Keeps quiet (Kept cpu₀ I) (write access w a : Exec (CpuError E) (Cpu M) Unit) := by
  refine Exec.Keeps.bind (Exec.Keeps.get.bind fun cpu => ?_)
    fun _ => .modify fun _ hk => invalidate_kept hk a w
  split
  · exact keeps_on_segment (h .stack_seg (by decide))
  · split
    · exact keeps_on_segment (h .data_seg (by decide))
    · exact .throw _

/-! ## The operations -/

theorem keeps_modify {f : Cpu M → Cpu M} (hf : ∀ cpu s, (f cpu).segment s = cpu.segment s) :
    Exec.Keeps quiet (Kept cpu₀ I) (Exec.modify f : Exec (CpuError E) (Cpu M) Unit) :=
  .modify fun cpu h => h.of_segments (hf cpu)

theorem advance_segment (cpu : Cpu M) (pc_inc : U32) (s : Segment) :
    (cpu.advance pc_inc).segment s = cpu.segment s := by
  cases s <;> rfl

/-- The arms that set a register and return. -/
theorem keeps_set_reg {f : Cpu M → Cpu M} (v : U32)
    (hf : ∀ cpu s, (f cpu).segment s = cpu.segment s) :
    Exec.Keeps quiet (Kept cpu₀ I) (do
      Exec.modify f
      pure v : Exec (CpuError E) (Cpu M) U32) :=
  (keeps_modify hf).bind fun _ => .pure v

theorem keeps_alu (n : U32) (rd rs1 rs2 : RegNum) (f : U32 → U32 → U32) :
    Exec.Keeps quiet (Kept cpu₀ I) (alu n rd rs1 rs2 f : Exec (CpuError E) (Cpu M) U32) :=
  keeps_set_reg n fun _ _ => set_reg_segment ..

theorem keeps_alu_imm (n : U32) (rd rs1 : RegNum) (imm : I32) (f : U32 → I32 → U32) :
    Exec.Keeps quiet (Kept cpu₀ I) (alu_imm n rd rs1 imm f : Exec (CpuError E) (Cpu M) U32) :=
  keeps_set_reg n fun _ _ => set_reg_segment ..

theorem keeps_branch (n : U32) (rs1 rs2 : RegNum) (imm : I32) (taken : U32 → U32 → Bool) :
    Exec.Keeps quiet (Kept cpu₀ I) (branch n rs1 rs2 imm taken : Exec (CpuError E) (Cpu M) U32) :=
  Exec.Keeps.get.bind fun _ => .pure _

theorem keeps_load (n : U32) (rd rs1 : RegNum) (imm : I32)
    {value : U32 → Exec (CpuError E) (Cpu M) U32}
    (h : ∀ addr, Exec.Keeps quiet (Kept cpu₀ I) (value addr)) :
    Exec.Keeps quiet (Kept cpu₀ I) (load n rd rs1 imm value) :=
  Exec.Keeps.get.bind fun _ => (h _).bind fun _ =>
    keeps_set_reg n fun _ _ => set_reg_segment ..

theorem keeps_store (n : U32) (rs1 rs2 : RegNum) (imm : I32)
    {put : U32 → U32 → Exec (CpuError E) (Cpu M) Unit}
    (h : ∀ addr value, Exec.Keeps quiet (Kept cpu₀ I) (put addr value)) :
    Exec.Keeps quiet (Kept cpu₀ I) (store n rs1 rs2 imm put) :=
  Exec.Keeps.get.bind fun _ => (h _ _).bind fun _ => .pure n

theorem keeps_reject_unaligned (addr mask : U32) (msg : String) :
    Exec.Keeps quiet (Kept cpu₀ I) (reject_unaligned addr mask msg : Exec (CpuError E) (Cpu M) Unit) :=
  .reject _ _

variable [PagedMemory M]

/-- Lookups keep the memory of a segment as it should be, and so do stores,
which never go to the code. -/
structure MemoryKept (quiet : Prop) (I : Segment → M → Prop) : Prop where
  get_page (s : Segment) (i : U32) :
    Exec.Keeps quiet (I s) (PagedMemory.get_page i : Exec MemoryError M _)
  overwrite : ∀ s ≠ Segment.code_seg, Overwritable (I s)

/-- What lookups in the code keep. -/
theorem MemoryKept.code {J : M → Prop}
    (hget : ∀ i, Exec.Keeps False J (PagedMemory.get_page i : Exec MemoryError M _)) :
    MemoryKept False (fun s m => s = Segment.code_seg → J m) where
  get_page _ i _ hm := ⟨fun _ _ h hs => (hget i (hm hs)).ok h, fun _ _ _ hq => hq.elim⟩
  overwrite _ hs _ _ _ _ he := absurd he hs

theorem MemoryKept.bounds : MemoryKept (M := M) False fun _ _ => True where
  get_page _ _ _ _ := ⟨fun _ _ _ => trivial, fun _ _ _ hq => hq.elim⟩
  overwrite _ _ _ _ _ _ := trivial

section
variable (hmem : MemoryKept quiet I)
include hmem

theorem keeps_write_u8 (a : U32) (v : U8) :
    Exec.Keeps quiet (Kept cpu₀ I) (write_u8 a v : Exec (CpuError E) (Cpu M) Unit) :=
  keeps_write 1 a fun s hs _ _ =>
    MemorySegment.keeps_store (hmem.get_page s) (hmem.overwrite s hs) (.inl rfl) a rfl

theorem keeps_write_u16 (a : U32) (v : BitVec 16) :
    Exec.Keeps quiet (Kept cpu₀ I) (write_u16 a v : Exec (CpuError E) (Cpu M) Unit) :=
  keeps_write 2 a fun s hs _ _ =>
    MemorySegment.keeps_store (hmem.get_page s) (hmem.overwrite s hs) (.inr (.inl rfl)) a rfl

theorem keeps_write_u32 (a v : U32) :
    Exec.Keeps quiet (Kept cpu₀ I) (write_u32 a v : Exec (CpuError E) (Cpu M) Unit) :=
  keeps_write 4 a fun s hs _ _ =>
    MemorySegment.keeps_store (hmem.get_page s) (hmem.overwrite s hs) (.inr (.inr rfl)) a rfl

theorem keeps_read_u8 (a : U32) :
    Exec.Keeps quiet (Kept cpu₀ I) (read_u8 a : Exec (CpuError E) (Cpu M) U8) :=
  keeps_read a fun s _ _ => MemorySegment.keeps_read_u8 (hmem.get_page s) a

theorem keeps_read_u16 (a : U32) :
    Exec.Keeps quiet (Kept cpu₀ I) (read_u16 a : Exec (CpuError E) (Cpu M) (BitVec 16)) :=
  keeps_read a fun s _ _ => MemorySegment.keeps_read_u16 (hmem.get_page s) a

theorem keeps_read_u32 (a : U32) :
    Exec.Keeps quiet (Kept cpu₀ I) (read_u32 a : Exec (CpuError E) (Cpu M) U32) :=
  keeps_read a fun s _ _ => MemorySegment.keeps_read_u32 (hmem.get_page s) a

theorem keeps_load_reserved (n : U32) (rd rs1 : RegNum) :
    Exec.Keeps quiet (Kept cpu₀ I) (load_reserved n rd rs1 : Exec (CpuError E) (Cpu M) U32) :=
  Exec.Keeps.get.bind fun _ => (keeps_reject_unaligned _ _ _).bind fun _ =>
    (keeps_read_u32 hmem _).bind fun _ => keeps_set_reg n fun _ s => by cases s <;> rfl

theorem keeps_store_conditional (n : U32) (rd rs1 rs2 : RegNum) :
    Exec.Keeps quiet (Kept cpu₀ I)
      (store_conditional n rd rs1 rs2 : Exec (CpuError E) (Cpu M) U32) := by
  refine Exec.Keeps.get.bind fun _ => (keeps_reject_unaligned _ _ _).bind fun _ => ?_
  split
  · exact (keeps_write_u32 hmem _ _).bind fun _ => keeps_set_reg n fun _ s => by cases s <;> rfl
  · exact keeps_set_reg n fun _ s => by cases s <;> rfl

theorem keeps_amo (n : U32) (name : String) (rd rs1 rs2 : RegNum) (f : U32 → U32 → U32) :
    Exec.Keeps quiet (Kept cpu₀ I) (amo n name rd rs1 rs2 f : Exec (CpuError E) (Cpu M) U32) :=
  Exec.Keeps.get.bind fun _ => (keeps_reject_unaligned _ _ _).bind fun _ =>
    (keeps_read_u32 hmem _).bind fun _ => (keeps_write_u32 hmem _ _).bind fun _ =>
      keeps_set_reg n fun _ _ => set_reg_segment ..

theorem keeps_execute_op (op : Op) (n : U32) :
    Exec.Keeps quiet (Kept cpu₀ I) (execute_op op n : Exec (CpuError E) (Cpu M) U32) := by
  cases op <;> rw [execute_op]
  case lb | lbu => exact keeps_load _ _ _ _ fun _ => (keeps_read_u8 hmem _).bind fun _ => .pure _
  case lh | lhu =>
    exact keeps_load _ _ _ _ fun _ => (keeps_reject_unaligned _ _ _).bind fun _ =>
      (keeps_read_u16 hmem _).bind fun _ => .pure _
  case lw =>
    exact keeps_load _ _ _ _ fun _ => (keeps_reject_unaligned _ _ _).bind fun _ =>
      keeps_read_u32 hmem _
  case sb => exact keeps_store _ _ _ _ fun _ _ => keeps_write_u8 hmem _ _
  case sh =>
    exact keeps_store _ _ _ _ fun _ _ => (keeps_reject_unaligned _ _ _).bind fun _ =>
      keeps_write_u16 hmem _ _
  case sw =>
    exact keeps_store _ _ _ _ fun _ _ => (keeps_reject_unaligned _ _ _).bind fun _ =>
      keeps_write_u32 hmem _ _
  case lrW => exact keeps_load_reserved hmem _ _ _
  case scW => exact keeps_store_conditional hmem _ _ _ _
  case jalr => exact keeps_set_reg _ fun _ s => by cases s <;> rfl
  case auipc | jal | lui => exact keeps_set_reg _ fun _ _ => set_reg_segment ..
  case fence => exact .pure _
  case ecall | «break» | unknown => exact .throw _
  case beq | bne | blt | bge | bltu | bgeu => exact keeps_branch _ _ _ _ _
  case amoswapW | amoaddW | amoxorW | amoandW | amoorW | amominW | amomaxW | amominuW |
      amomaxuW => exact keeps_amo hmem _ _ _ _ _ _
  case addi | andi | ori | slli | slti | sltiu | srli | srai | xori =>
    exact keeps_alu_imm _ _ _ _ _
  all_goals exact keeps_alu _ _ _ _ _

theorem keeps_fetch_halves (pc : U32) :
    Exec.Keeps quiet (Kept cpu₀ I) (fetch_halves pc : Exec (CpuError E) (Cpu M) U32) := by
  have hread (a : U32) : Exec.Keeps quiet (Kept cpu₀ I)
      (on_segment .code_seg (MemorySegment.read_u16 a) : Exec (CpuError E) (Cpu M) _) :=
    keeps_on_segment fun _ _ => MemorySegment.keeps_read_u16 (hmem.get_page _) a
  refine (hread pc).bind fun lo => ?_
  split
  · exact .pure _
  · exact (hread _).bind fun _ => .pure _

theorem keeps_fetch :
    Exec.Keeps quiet (Kept cpu₀ I) (fetch_instruction : Exec (CpuError E) (Cpu M) U32) := by
  refine Exec.Keeps.get.bind fun cpu => ?_
  split
  · exact keeps_on_segment fun _ _ =>
      MemorySegment.keeps_read_u32 (hmem.get_page _) _
  · exact keeps_fetch_halves hmem _

end

end Cpu

end Vanadium
