import Vanadium.Common.Memory
import Vanadium.Common.Riscv.Decode

/-!
# The processor

The second half of `common/src/vm.rs`: the registers and the three segments,
the loads and stores that look for the segment of an address, the fetch of an
instruction and its execution.

The operations of `execute` come in families; what the members of a family
share is one definition, and each arm of the match gives it its own operands.
-/

namespace Vanadium

open Lib

structure Cpu (M : Type) where
  pc : U32
  regs : Vector U32 32
  code_seg : MemorySegment M
  data_seg : MemorySegment M
  stack_seg : MemorySegment M
  /-- The address reserved by `LR.W`. -/
  reservation_addr : Option U32

inductive CpuError (E : Type) where
  | ecallError (e : E)
  | memoryError (e : MemoryError)
  | genericError (msg : String)
  deriving DecidableEq, Repr

/-- `u32::saturating_sub`. -/
def saturating_sub (a b : U32) : U32 := if b ≤ a then a - b else 0

namespace Cpu

variable {M : Type}

def new (entrypoint : U32) (code_seg data_seg stack_seg : MemorySegment M) : Cpu M where
  pc := entrypoint
  regs := Vector.replicate 32 0
  code_seg := code_seg
  data_seg := data_seg
  stack_seg := stack_seg
  reservation_addr := none

/-- `self.regs[r]` -/
def reg (cpu : Cpu M) (r : RegNum) : U32 := cpu.regs[r.toNat]

/-- `self.regs[r] = v` -/
def set_reg (cpu : Cpu M) (r : RegNum) (v : U32) : Cpu M :=
  { cpu with regs := cpu.regs.set r.toNat v }

/-- One of the three segments. -/
inductive Segment where
  | stack_seg
  | data_seg
  | code_seg
  deriving DecidableEq, Repr

def segment (cpu : Cpu M) : Segment → MemorySegment M
  | .stack_seg => cpu.stack_seg
  | .data_seg => cpu.data_seg
  | .code_seg => cpu.code_seg

def set_segment (cpu : Cpu M) (s : Segment) (seg : MemorySegment M) : Cpu M :=
  match s with
  | .stack_seg => { cpu with stack_seg := seg }
  | .data_seg => { cpu with data_seg := seg }
  | .code_seg => { cpu with code_seg := seg }

variable {E : Type}

/-- Use a segment through the reference `get_segment` returns, or as a field. -/
def on_segment {α : Type} (s : Segment) (access : Exec MemoryError (MemorySegment M) α) :
    Exec (CpuError E) (Cpu M) α :=
  Exec.zoom (fun cpu => cpu.segment s) (fun seg cpu => cpu.set_segment s seg)
    .memoryError access

def get_segment (address : U32) : Exec (CpuError E) (Cpu M) Segment := do
  let cpu ← Exec.get
  if cpu.stack_seg.contains address then pure .stack_seg
  else if cpu.data_seg.contains address then pure .data_seg
  else if cpu.code_seg.contains address then pure .code_seg
  else Exec.throw (.memoryError .addressOutOfBounds)

/-! ## Loads and stores -/

/-- `read_u8`, `read_u16` and `read_u32` differ in what they do with the segment. -/
def read {α : Type} (access : Exec MemoryError (MemorySegment M) α) (address : U32) :
    Exec (CpuError E) (Cpu M) α := do
  let cpu ← Exec.get
  if cpu.stack_seg.contains address then on_segment .stack_seg access
  else if cpu.data_seg.contains address then on_segment .data_seg access
  else if cpu.code_seg.contains address then on_segment .code_seg access
  else Exec.throw (.memoryError .addressOutOfBounds)

/-- There are no stores to the code segment. -/
def write_segment (access : Exec MemoryError (MemorySegment M) Unit) (address : U32) :
    Exec (CpuError E) (Cpu M) Unit := do
  let cpu ← Exec.get
  if cpu.stack_seg.contains address then on_segment .stack_seg access
  else if cpu.data_seg.contains address then on_segment .data_seg access
  else Exec.throw (.memoryError .addressOutOfBounds)

/-- A store of `width` bytes invalidates the reservation if it touches the
reserved 4-byte word. -/
def invalidate (address width : U32) (cpu : Cpu M) : Cpu M :=
  match cpu.reservation_addr with
  | some res =>
      if saturating_sub address res < 4 ∧ saturating_sub res address < width then
        { cpu with reservation_addr := none }
      else cpu
  | none => cpu

def write (access : Exec MemoryError (MemorySegment M) Unit) (width address : U32) :
    Exec (CpuError E) (Cpu M) Unit := do
  write_segment access address
  Exec.modify (invalidate address width)

variable [PagedMemory M]

def read_u8 (address : U32) : Exec (CpuError E) (Cpu M) U8 :=
  read (MemorySegment.read_u8 address) address

def read_u16 (address : U32) : Exec (CpuError E) (Cpu M) (BitVec 16) :=
  read (MemorySegment.read_u16 address) address

def read_u32 (address : U32) : Exec (CpuError E) (Cpu M) U32 :=
  read (MemorySegment.read_u32 address) address

def write_u8 (address : U32) (value : U8) : Exec (CpuError E) (Cpu M) Unit :=
  write (MemorySegment.write_u8 address value) 1 address

def write_u16 (address : U32) (value : BitVec 16) : Exec (CpuError E) (Cpu M) Unit :=
  write (MemorySegment.write_u16 address value) 2 address

def write_u32 (address value : U32) : Exec (CpuError E) (Cpu M) Unit :=
  write (MemorySegment.write_u32 address value) 4 address

/-! ## Fetch -/

/-- Two halves, the second one only if the first does not say that the
instruction is compressed. -/
def fetch_halves (pc : U32) : Exec (CpuError E) (Cpu M) U32 := do
  let inst_lo ← on_segment .code_seg (MemorySegment.read_u16 pc)
  if inst_lo &&& 0b11 ≠ 0b11 then
    pure ((0#16).setWidth 32 <<< 16 ||| inst_lo.setWidth 32)
  else do
    let inst_hi ← on_segment .code_seg (MemorySegment.read_u16 (pc + 2))
    pure (inst_hi.setWidth 32 <<< 16 ||| inst_lo.setWidth 32)

def fetch_instruction : Exec (CpuError E) (Cpu M) U32 := do
  let cpu ← Exec.get
  if cpu.pc.toNat % 4 = 0 ∧ cpu.code_seg.contains (cpu.pc + 3) then
    on_segment .code_seg (MemorySegment.read_u32 cpu.pc)
  else fetch_halves cpu.pc

/-! ## Execution

An arm of the match returns the increment of the program counter. -/

/-- `c as u32` -/
def as_u32 (c : Bool) : U32 := if c then 1 else 0

/-- `i32::wrapping_div`. -/
def wrapping_div (a b : I32) : I32 := a.sdiv b

/-- `i32::wrapping_rem`. -/
def wrapping_rem (a b : I32) : I32 := a.srem b

/-- `core::cmp::min` and `max` on `i32` and on `u32`. -/
def i32_min (a b : I32) : I32 := if a.sle b then a else b
def i32_max (a b : I32) : I32 := if a.sle b then b else a
def u32_min (a b : U32) : U32 := if a ≤ b then a else b
def u32_max (a b : U32) : U32 := if a ≤ b then b else a

def reject_unaligned (addr mask : U32) (msg : String) : Exec (CpuError E) (Cpu M) Unit :=
  Exec.reject (addr &&& mask ≠ 0) (.genericError msg)

/-- `self.regs[rd] = f(self.regs[rs1], self.regs[rs2])` -/
def alu (inst_size : U32) (rd rs1 rs2 : RegNum) (f : U32 → U32 → U32) :
    Exec (CpuError E) (Cpu M) U32 := do
  Exec.modify fun cpu => cpu.set_reg rd (f (cpu.reg rs1) (cpu.reg rs2))
  pure inst_size

/-- `self.regs[rd] = f(self.regs[rs1], imm)` -/
def alu_imm (inst_size : U32) (rd rs1 : RegNum) (imm : I32) (f : U32 → I32 → U32) :
    Exec (CpuError E) (Cpu M) U32 := do
  Exec.modify fun cpu => cpu.set_reg rd (f (cpu.reg rs1) imm)
  pure inst_size

def branch (inst_size : U32) (rs1 rs2 : RegNum) (imm : I32) (taken : U32 → U32 → Bool) :
    Exec (CpuError E) (Cpu M) U32 := do
  let cpu ← Exec.get
  pure (if taken (cpu.reg rs1) (cpu.reg rs2) then imm else inst_size)

def load (inst_size : U32) (rd rs1 : RegNum) (imm : I32)
    (value : U32 → Exec (CpuError E) (Cpu M) U32) : Exec (CpuError E) (Cpu M) U32 := do
  let cpu ← Exec.get
  let value ← value (cpu.reg rs1 + imm)
  Exec.modify fun cpu => cpu.set_reg rd value
  pure inst_size

def store (inst_size : U32) (rs1 rs2 : RegNum) (imm : I32)
    (put : U32 → U32 → Exec (CpuError E) (Cpu M) Unit) : Exec (CpuError E) (Cpu M) U32 := do
  let cpu ← Exec.get
  put (cpu.reg rs1 + imm) (cpu.reg rs2)
  pure inst_size

def load_reserved (inst_size : U32) (rd rs1 : RegNum) : Exec (CpuError E) (Cpu M) U32 := do
  let cpu ← Exec.get
  let addr := cpu.reg rs1
  reject_unaligned addr 3 "Unaligned LR.W address"
  let value ← read_u32 addr
  Exec.modify fun cpu => { cpu.set_reg rd value with reservation_addr := some addr }
  pure inst_size

def store_conditional (inst_size : U32) (rd rs1 rs2 : RegNum) :
    Exec (CpuError E) (Cpu M) U32 := do
  let cpu ← Exec.get
  let addr := cpu.reg rs1
  reject_unaligned addr 3 "Unaligned SC.W address"
  if cpu.reservation_addr = some addr then do
    write_u32 addr (cpu.reg rs2)
    Exec.modify fun cpu => { cpu.set_reg rd 0 with reservation_addr := none }
    pure inst_size
  else do
    Exec.modify fun cpu => { cpu.set_reg rd 1 with reservation_addr := none }
    pure inst_size

/-- The atomic read-modify-write operations. -/
def amo (inst_size : U32) (name : String) (rd rs1 rs2 : RegNum) (f : U32 → U32 → U32) :
    Exec (CpuError E) (Cpu M) U32 := do
  let cpu ← Exec.get
  let addr := cpu.reg rs1
  reject_unaligned addr 3 ("Unaligned " ++ name ++ " address")
  let old ← read_u32 addr
  write_u32 addr (f old (cpu.reg rs2))
  Exec.modify fun cpu => cpu.set_reg rd old
  pure inst_size

/-- The match of `execute`, where there is no handler for `Ecall`. -/
def execute_op (op : Op) (inst_size : U32) : Exec (CpuError E) (Cpu M) U32 :=
  match op with
  | .add rd rs1 rs2 => alu inst_size rd rs1 rs2 fun a b => a + b
  | .sub rd rs1 rs2 => alu inst_size rd rs1 rs2 fun a b => a - b
  | .sll rd rs1 rs2 => alu inst_size rd rs1 rs2 fun a b => a <<< (b &&& 0x1f)
  | .slt rd rs1 rs2 => alu inst_size rd rs1 rs2 fun a b => as_u32 (a.slt b)
  | .sltu rd rs1 rs2 => alu inst_size rd rs1 rs2 fun a b => as_u32 (a < b)
  | .xor rd rs1 rs2 => alu inst_size rd rs1 rs2 fun a b => a ^^^ b
  | .srl rd rs1 rs2 => alu inst_size rd rs1 rs2 fun a b => a >>> (b &&& 0x1f)
  | .sra rd rs1 rs2 => alu inst_size rd rs1 rs2 fun a b => a.sshiftRight' (b &&& 0x1f)
  | .or rd rs1 rs2 => alu inst_size rd rs1 rs2 fun a b => a ||| b
  | .and rd rs1 rs2 => alu inst_size rd rs1 rs2 fun a b => a &&& b
  | .mul rd rs1 rs2 => alu inst_size rd rs1 rs2 fun a b => a * b
  | .mulh rd rs1 rs2 => alu inst_size rd rs1 rs2 fun a b =>
      ((a.signExtend 64 * b.signExtend 64).sshiftRight 32).setWidth 32
  | .mulhsu rd rs1 rs2 => alu inst_size rd rs1 rs2 fun a b =>
      let a : BitVec 128 := (a.signExtend 64).signExtend 128
      let b : BitVec 128 := (b.setWidth 64).setWidth 128
      ((a * b).sshiftRight 32).setWidth 32
  | .mulhu rd rs1 rs2 => alu inst_size rd rs1 rs2 fun a b =>
      ((a.setWidth 64 * b.setWidth 64 : BitVec 64) >>> 32).setWidth 32
  | .div rd rs1 rs2 => alu inst_size rd rs1 rs2 fun a b =>
      if b = 0 then BitVec.allOnes 32 else wrapping_div a b
  | .divu rd rs1 rs2 => alu inst_size rd rs1 rs2 fun a b =>
      if b = 0 then BitVec.allOnes 32 else a / b
  | .rem rd rs1 rs2 => alu inst_size rd rs1 rs2 fun a b =>
      if b = 0 then a else wrapping_rem a b
  | .remu rd rs1 rs2 => alu inst_size rd rs1 rs2 fun a b => if b = 0 then a else a % b
  | .addi rd rs1 imm => alu_imm inst_size rd rs1 imm fun a imm => a + imm
  | .andi rd rs1 imm => alu_imm inst_size rd rs1 imm fun a imm => a &&& imm
  | .auipc rd imm => do
      Exec.modify fun cpu => cpu.set_reg rd (cpu.pc + imm)
      pure inst_size
  | .beq rs1 rs2 imm => branch inst_size rs1 rs2 imm fun a b => a == b
  | .bne rs1 rs2 imm => branch inst_size rs1 rs2 imm fun a b => a != b
  | .blt rs1 rs2 imm => branch inst_size rs1 rs2 imm fun a b => a.slt b
  | .bge rs1 rs2 imm => branch inst_size rs1 rs2 imm fun a b => b.sle a
  | .bltu rs1 rs2 imm => branch inst_size rs1 rs2 imm fun a b => a < b
  | .bgeu rs1 rs2 imm => branch inst_size rs1 rs2 imm fun a b => b ≤ a
  | .jal rd imm => do
      Exec.modify fun cpu => cpu.set_reg rd (cpu.pc + inst_size)
      pure imm
  | .jalr rd rs1 imm => do
      Exec.modify fun cpu =>
        let new_pc := (cpu.reg rs1 + imm) &&& ~~~1
        { cpu.set_reg rd (cpu.pc + inst_size) with pc := new_pc }
      pure 0
  | .lb rd rs1 imm => load inst_size rd rs1 imm fun addr => do
      let value ← read_u8 addr
      pure (value.signExtend 32)
  | .lh rd rs1 imm => load inst_size rd rs1 imm fun addr => do
      reject_unaligned addr 1 "Unaligned 16-bit read"
      let value ← read_u16 addr
      pure (value.signExtend 32)
  | .lw rd rs1 imm => load inst_size rd rs1 imm fun addr => do
      reject_unaligned addr 3 "Unaligned 32-bit read"
      read_u32 addr
  | .lbu rd rs1 imm => load inst_size rd rs1 imm fun addr => do
      let value ← read_u8 addr
      pure (value.setWidth 32)
  | .lhu rd rs1 imm => load inst_size rd rs1 imm fun addr => do
      reject_unaligned addr 1 "Unaligned 16-bit read"
      let value ← read_u16 addr
      pure (value.setWidth 32)
  | .lui rd imm => do
      Exec.modify fun cpu => cpu.set_reg rd imm
      pure inst_size
  | .ori rd rs1 imm => alu_imm inst_size rd rs1 imm fun a imm => a ||| imm
  | .sb rs1 rs2 imm => store inst_size rs1 rs2 imm fun addr value =>
      write_u8 addr (value.setWidth 8)
  | .sh rs1 rs2 imm => store inst_size rs1 rs2 imm fun addr value => do
      reject_unaligned addr 1 "Unaligned 16-bit write"
      write_u16 addr (value.setWidth 16)
  | .sw rs1 rs2 imm => store inst_size rs1 rs2 imm fun addr value => do
      reject_unaligned addr 3 "Unaligned 32-bit write"
      write_u32 addr value
  | .slli rd rs1 imm => alu_imm inst_size rd rs1 imm fun a imm => a <<< (imm &&& 0x1f)
  | .slti rd rs1 imm => alu_imm inst_size rd rs1 imm fun a imm => as_u32 (a.slt imm)
  | .sltiu rd rs1 imm => alu_imm inst_size rd rs1 imm fun a imm => as_u32 (a < imm)
  | .srli rd rs1 imm => alu_imm inst_size rd rs1 imm fun a imm => a >>> (imm &&& 0x1f)
  | .srai rd rs1 imm => alu_imm inst_size rd rs1 imm fun a imm =>
      a.sshiftRight' (imm &&& 0x1f)
  | .xori rd rs1 imm => alu_imm inst_size rd rs1 imm fun a imm => a ^^^ imm
  | .lrW rd rs1 => load_reserved inst_size rd rs1
  | .scW rd rs1 rs2 => store_conditional inst_size rd rs1 rs2
  | .amoswapW rd rs1 rs2 => amo inst_size "AMOSWAP.W" rd rs1 rs2 fun _ v => v
  | .amoaddW rd rs1 rs2 => amo inst_size "AMOADD.W" rd rs1 rs2 fun old v => old + v
  | .amoxorW rd rs1 rs2 => amo inst_size "AMOXOR.W" rd rs1 rs2 fun old v => old ^^^ v
  | .amoandW rd rs1 rs2 => amo inst_size "AMOAND.W" rd rs1 rs2 fun old v => old &&& v
  | .amoorW rd rs1 rs2 => amo inst_size "AMOOR.W" rd rs1 rs2 fun old v => old ||| v
  | .amominW rd rs1 rs2 => amo inst_size "AMOMIN.W" rd rs1 rs2 i32_min
  | .amomaxW rd rs1 rs2 => amo inst_size "AMOMAX.W" rd rs1 rs2 i32_max
  | .amominuW rd rs1 rs2 => amo inst_size "AMOMINU.W" rd rs1 rs2 u32_min
  | .amomaxuW rd rs1 rs2 => amo inst_size "AMOMAXU.W" rd rs1 rs2 u32_max
  | .fence => pure inst_size
  | .ecall => Exec.throw (.genericError "No ECALL handler")
  | .break => Exec.throw (.genericError "BREAK instruction is not supported")
  | .unknown => Exec.throw (.genericError "Unknown instruction")

/-- `self.pc = self.pc.wrapping_add(pc_inc); self.regs[0] = 0;` -/
def advance (pc_inc : U32) (cpu : Cpu M) : Cpu M :=
  { cpu.set_reg 0 0 with pc := cpu.pc + pc_inc }

variable {H : Type}

/-- The processor beside the state of the ECALL handler, which runs on both. -/
def on_cpu {α : Type} (m : Exec (CpuError E) (Cpu M) α) :
    Exec (CpuError E) (H × Cpu M) α :=
  Exec.zoom Prod.snd (fun cpu s => (s.1, cpu)) id m

/-- The arm of `Ecall`. -/
def execute_ecall (ecall_handler : Option (Exec E (H × Cpu M) Unit)) :
    Exec (CpuError E) (H × Cpu M) Unit :=
  match ecall_handler with
  | some handle_ecall => Exec.zoom id (fun s _ => s) .ecallError handle_ecall
  | none => Exec.throw (.genericError "No ECALL handler")

def execute (ecall_handler : Option (Exec E (H × Cpu M) Unit)) (inst : U32) :
    Exec (CpuError E) (H × Cpu M) Unit :=
  match decode inst with
  | (.ecall, inst_size) => do
      execute_ecall ecall_handler
      on_cpu (Exec.modify (advance inst_size))
  | (op, inst_size) => on_cpu do
      let pc_inc ← execute_op op inst_size
      Exec.modify (advance pc_inc)

/-- One turn of the VM's loop: `fetch_instruction`, then `execute`. -/
def step (ecall_handler : Option (Exec E (H × Cpu M) Unit)) :
    Exec (CpuError E) (H × Cpu M) Unit := do
  let inst ← on_cpu fetch_instruction
  execute ecall_handler inst

end Cpu

end Vanadium
