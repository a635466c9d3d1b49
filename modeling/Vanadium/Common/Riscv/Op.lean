import Vanadium.Common.ClientCommands

/-!
# Decoded operations

The model of `common/src/riscv/op.rs`. A register number is a `u8` there that
never leaves the range of a five-bit field; here it is that field. An `i32` is
the machine word that represents it.
-/

namespace Vanadium

/-- `i32`, in two's complement. -/
abbrev I32 := BitVec 32

/-- A register number. -/
abbrev RegNum := BitVec 5

inductive Op where
  | unknown
  | add (rd rs1 rs2 : RegNum)
  | sub (rd rs1 rs2 : RegNum)
  | sll (rd rs1 rs2 : RegNum)
  | slt (rd rs1 rs2 : RegNum)
  | sltu (rd rs1 rs2 : RegNum)
  | xor (rd rs1 rs2 : RegNum)
  | srl (rd rs1 rs2 : RegNum)
  | sra (rd rs1 rs2 : RegNum)
  | or (rd rs1 rs2 : RegNum)
  | and (rd rs1 rs2 : RegNum)
  | mul (rd rs1 rs2 : RegNum)
  | mulh (rd rs1 rs2 : RegNum)
  | mulhsu (rd rs1 rs2 : RegNum)
  | mulhu (rd rs1 rs2 : RegNum)
  | div (rd rs1 rs2 : RegNum)
  | divu (rd rs1 rs2 : RegNum)
  | rem (rd rs1 rs2 : RegNum)
  | remu (rd rs1 rs2 : RegNum)
  | addi (rd rs1 : RegNum) (imm : I32)
  | andi (rd rs1 : RegNum) (imm : I32)
  | auipc (rd : RegNum) (imm : I32)
  | beq (rs1 rs2 : RegNum) (imm : I32)
  | bne (rs1 rs2 : RegNum) (imm : I32)
  | blt (rs1 rs2 : RegNum) (imm : I32)
  | bge (rs1 rs2 : RegNum) (imm : I32)
  | bltu (rs1 rs2 : RegNum) (imm : I32)
  | bgeu (rs1 rs2 : RegNum) (imm : I32)
  | jal (rd : RegNum) (imm : I32)
  | jalr (rd rs1 : RegNum) (imm : I32)
  | lb (rd rs1 : RegNum) (imm : I32)
  | lh (rd rs1 : RegNum) (imm : I32)
  | lw (rd rs1 : RegNum) (imm : I32)
  | lbu (rd rs1 : RegNum) (imm : I32)
  | lhu (rd rs1 : RegNum) (imm : I32)
  | lui (rd : RegNum) (imm : I32)
  | ori (rd rs1 : RegNum) (imm : I32)
  | sb (rs1 rs2 : RegNum) (imm : I32)
  | sh (rs1 rs2 : RegNum) (imm : I32)
  | sw (rs1 rs2 : RegNum) (imm : I32)
  | slli (rd rs1 : RegNum) (imm : I32)
  | slti (rd rs1 : RegNum) (imm : I32)
  | sltiu (rd rs1 : RegNum) (imm : I32)
  | srli (rd rs1 : RegNum) (imm : I32)
  | srai (rd rs1 : RegNum) (imm : I32)
  | xori (rd rs1 : RegNum) (imm : I32)
  | lrW (rd rs1 : RegNum)
  | scW (rd rs1 rs2 : RegNum)
  | amoswapW (rd rs1 rs2 : RegNum)
  | amoaddW (rd rs1 rs2 : RegNum)
  | amoxorW (rd rs1 rs2 : RegNum)
  | amoandW (rd rs1 rs2 : RegNum)
  | amoorW (rd rs1 rs2 : RegNum)
  | amominW (rd rs1 rs2 : RegNum)
  | amomaxW (rd rs1 rs2 : RegNum)
  | amominuW (rd rs1 rs2 : RegNum)
  | amomaxuW (rd rs1 rs2 : RegNum)
  | fence
  | ecall
  | break
  deriving DecidableEq, Repr

end Vanadium
