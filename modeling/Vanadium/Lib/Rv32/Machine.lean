import Vanadium.Lib.Rv32.Instr

/-!
# What an RV32IMAC instruction does

The meaning of the instructions as the unprivileged manual gives it, on a hart
with byte-addressed memory. Arithmetic is stated on the integers a register
stands for, signed or unsigned; a load or a store is made of its bytes.

A misaligned access of more than one byte and the two environment instructions
raise an exception and change nothing. The reservation of a load-reserved is
the aligned word it read. Any store of this hart that touches a byte of it
drops it, and so does every store-conditional, whether it succeeds or not.
-/

namespace Vanadium.Lib.Rv32

/-- The state of a hart. -/
structure Machine where
  pc : Word
  /-- The registers; what stands at zero is never read. -/
  x : Reg → Word
  mem : Word → Byte
  /-- The word reserved by `lr.w`. -/
  reserved : Option Word

/-- Why an instruction did not complete. -/
inductive Trap where
  | breakpoint
  | environmentCall
  | misalignedLoad
  | misalignedStore
  deriving DecidableEq, Repr

namespace Machine

/-- `x0` reads as zero. -/
def reg (m : Machine) (r : Reg) : Word := if r = 0 then 0 else m.x r

def setReg (m : Machine) (r : Reg) (v : Word) : Machine :=
  { m with x := fun s => if s = r then v else m.x s }

/-- The address operand of a load or a store. -/
def address (m : Machine) (base : Reg) (offset : BitVec 12) : Word :=
  m.reg base + offset.signExtend 32

def load16 (m : Machine) (a : Word) : BitVec 16 := m.mem (a + 1) ++ m.mem a

def load32 (m : Machine) (a : Word) : Word :=
  m.mem (a + 3) ++ m.mem (a + 2) ++ m.mem (a + 1) ++ m.mem a

/-- Do the bytes from `a` to `a + n - 1` and those of the word at `r` meet? -/
def overlaps (a : Word) (n : Nat) (r : Word) : Prop :=
  ∃ i < n, ∃ j < 4, a.toNat + i = r.toNat + j

instance (a : Word) (n : Nat) (r : Word) : Decidable (overlaps a n r) :=
  inferInstanceAs (Decidable (∃ i < n, ∃ j < 4, a.toNat + i = r.toNat + j))

/-- Store bytes from address `a` on. -/
def store (m : Machine) (a : Word) (bytes : List Byte) : Machine :=
  { m with
    mem := fun b => bytes.getD (b - a).toNat (m.mem b)
    reserved := m.reserved.filter fun r => ¬ overlaps a bytes.length r }

/-- Go on `n` bytes further. -/
def next (m : Machine) (n : Nat) : Machine := { m with pc := m.pc + BitVec.ofNat 32 n }

section
variable (m : Machine) (r s : Reg) (v : Word)

@[simp] theorem reg_zero : m.reg 0 = 0 := rfl

@[simp] theorem setReg_pc : (m.setReg r v).pc = m.pc := rfl

@[simp] theorem setReg_mem : (m.setReg r v).mem = m.mem := rfl

@[simp] theorem setReg_reserved : (m.setReg r v).reserved = m.reserved := rfl

theorem reg_setReg : (m.setReg r v).reg s =
    if s = 0 then 0 else if s = r then v else m.reg s := by
  unfold reg setReg
  split <;> rfl

end

end Machine

/-! ## Arithmetic -/

/-- The value of a comparison. -/
def ofBool (b : Bool) : Word := if b then 1 else 0

def AluOp.eval (op : AluOp) (a b : Word) : Word :=
  match op with
  | .add => a + b
  | .sub => a - b
  | .sll => a <<< (b.toNat % 32)
  | .slt => ofBool (a.toInt < b.toInt)
  | .sltu => ofBool (a.toNat < b.toNat)
  | .xor => a ^^^ b
  | .srl => a >>> (b.toNat % 32)
  | .sra => a.sshiftRight (b.toNat % 32)
  | .or => a ||| b
  | .and => a &&& b
  | .mul => BitVec.ofInt 32 (a.toInt * b.toInt)
  | .mulh => BitVec.ofInt 32 (a.toInt * b.toInt / 2 ^ 32)
  | .mulhsu => BitVec.ofInt 32 (a.toInt * b.toNat / 2 ^ 32)
  | .mulhu => BitVec.ofNat 32 (a.toNat * b.toNat / 2 ^ 32)
  | .div =>
      if b = 0 then -1
      else if a.toInt = -2 ^ 31 ∧ b.toInt = -1 then a
      else BitVec.ofInt 32 (a.toInt.tdiv b.toInt)
  | .divu => if b = 0 then BitVec.ofNat 32 (2 ^ 32 - 1) else BitVec.ofNat 32 (a.toNat / b.toNat)
  | .rem =>
      if b = 0 then a
      else if a.toInt = -2 ^ 31 ∧ b.toInt = -1 then 0
      else BitVec.ofInt 32 (a.toInt.tmod b.toInt)
  | .remu => if b = 0 then a else BitVec.ofNat 32 (a.toNat % b.toNat)

/-- The immediate is sign-extended, for the unsigned comparison as well. -/
def ImmOp.eval (op : ImmOp) (a : Word) (imm : BitVec 12) : Word :=
  let b := imm.signExtend 32
  match op with
  | .addi => a + b
  | .slti => ofBool (a.toInt < b.toInt)
  | .sltiu => ofBool (a.toNat < b.toNat)
  | .xori => a ^^^ b
  | .ori => a ||| b
  | .andi => a &&& b

def ShiftOp.eval (op : ShiftOp) (a : Word) (shamt : BitVec 5) : Word :=
  match op with
  | .slli => a <<< shamt.toNat
  | .srli => a >>> shamt.toNat
  | .srai => a.sshiftRight shamt.toNat

def Cond.holds (c : Cond) (a b : Word) : Bool :=
  match c with
  | .eq => a = b
  | .ne => a ≠ b
  | .lt => a.toInt < b.toInt
  | .ge => b.toInt ≤ a.toInt
  | .ltu => a.toNat < b.toNat
  | .geu => b.toNat ≤ a.toNat

/-- What an atomic operation leaves in memory. -/
def AmoOp.eval (op : AmoOp) (old v : Word) : Word :=
  match op with
  | .swap => v
  | .add => old + v
  | .xor => old ^^^ v
  | .and => old &&& v
  | .or => old ||| v
  | .min => if old.toInt ≤ v.toInt then old else v
  | .max => if v.toInt ≤ old.toInt then old else v
  | .minu => if old.toNat ≤ v.toNat then old else v
  | .maxu => if v.toNat ≤ old.toNat then old else v

/-! ## Memory -/

/-- The width of an access in bytes. -/
def LoadOp.width : LoadOp → Nat
  | .lb | .lbu => 1
  | .lh | .lhu => 2
  | .lw => 4

def LoadOp.eval (op : LoadOp) (m : Machine) (a : Word) : Word :=
  match op with
  | .lb => (m.mem a).signExtend 32
  | .lh => (m.load16 a).signExtend 32
  | .lw => m.load32 a
  | .lbu => (m.mem a).setWidth 32
  | .lhu => (m.load16 a).setWidth 32

/-- The bytes of a word, the least significant one first. -/
def wordBytes (v : Word) : List Byte :=
  [v.extractLsb' 0 8, v.extractLsb' 8 8, v.extractLsb' 16 8, v.extractLsb' 24 8]

def StoreOp.width : StoreOp → Nat
  | .sb => 1
  | .sh => 2
  | .sw => 4

def aligned (a : Word) (width : Nat) : Prop := a.toNat % width = 0

instance (a : Word) (width : Nat) : Decidable (aligned a width) :=
  inferInstanceAs (Decidable (a.toNat % width = 0))

/-! ## One instruction -/

/-- Execute an instruction that takes `n` bytes. -/
def exec (i : Instr) (n : Nat) (m : Machine) : Except Trap Machine :=
  match i with
  | .lui rd imm => .ok ((m.setReg rd (imm.setWidth 32 <<< 12)).next n)
  | .auipc rd imm => .ok ((m.setReg rd (m.pc + imm.setWidth 32 <<< 12)).next n)
  | .jal rd offset =>
      .ok { m.setReg rd (m.pc + BitVec.ofNat 32 n) with
        pc := m.pc + (offset ++ 0#1).signExtend 32 }
  | .jalr rd rs1 offset =>
      .ok { m.setReg rd (m.pc + BitVec.ofNat 32 n) with
        pc := (m.address rs1 offset).extractLsb' 1 31 ++ 0#1 }
  | .branch c rs1 rs2 offset =>
      if c.holds (m.reg rs1) (m.reg rs2) then
        .ok { m with pc := m.pc + (offset ++ 0#1).signExtend 32 }
      else .ok (m.next n)
  | .load op rd rs1 offset =>
      let a := m.address rs1 offset
      if aligned a op.width then .ok ((m.setReg rd (op.eval m a)).next n)
      else .error .misalignedLoad
  | .store op rs1 rs2 offset =>
      let a := m.address rs1 offset
      if aligned a op.width then
        .ok ((m.store a ((wordBytes (m.reg rs2)).take op.width)).next n)
      else .error .misalignedStore
  | .opImm op rd rs1 imm => .ok ((m.setReg rd (op.eval (m.reg rs1) imm)).next n)
  | .shiftImm op rd rs1 shamt => .ok ((m.setReg rd (op.eval (m.reg rs1) shamt)).next n)
  | .alu op rd rs1 rs2 => .ok ((m.setReg rd (op.eval (m.reg rs1) (m.reg rs2))).next n)
  | .fence .. => .ok (m.next n)
  | .ecall => .error .environmentCall
  | .ebreak => .error .breakpoint
  | .lr _ _ rd rs1 =>
      let a := m.reg rs1
      if aligned a 4 then
        .ok ({ m.setReg rd (m.load32 a) with reserved := some a }.next n)
      else .error .misalignedLoad
  | .sc _ _ rd rs1 rs2 =>
      let a := m.reg rs1
      if aligned a 4 then
        if m.reserved = some a then
          .ok ({ (m.store a (wordBytes (m.reg rs2))).setReg rd 0 with reserved := none }.next n)
        else .ok ({ m.setReg rd 1 with reserved := none }.next n)
      else .error .misalignedStore
  | .amo op _ _ rd rs1 rs2 =>
      let a := m.reg rs1
      if aligned a 4 then
        let old := m.load32 a
        .ok (((m.store a (wordBytes (op.eval old (m.reg rs2)))).setReg rd old).next n)
      else .error .misalignedStore

/-- The bytes an instruction reads or writes: whether it writes, from where on,
and how many. -/
def Instr.access (i : Instr) (m : Machine) : Option (Bool × Word × Nat) :=
  match i with
  | .load op _ rs1 offset => some (false, m.address rs1 offset, op.width)
  | .store op rs1 _ offset => some (true, m.address rs1 offset, op.width)
  | .lr _ _ _ rs1 => some (false, m.reg rs1, 4)
  | .sc _ _ _ rs1 _ => if m.reserved = some (m.reg rs1) then some (true, m.reg rs1, 4) else none
  | .amo _ _ _ _ rs1 _ => some (true, m.reg rs1, 4)
  | _ => none

end Vanadium.Lib.Rv32
