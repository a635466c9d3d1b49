import Mathlib

/-!
# The instructions of RV32IMAC and their encodings

The instruction set of the RISC-V unprivileged manual for a 32-bit machine with
the extensions M, A and C, written in the direction of the manual's tables: an
instruction is a value whose fields have the width the manual gives them, and
its encoding lays those fields out. What is not the encoding of an instruction
is reserved, or belongs to an extension that is not there.

Offsets that are multiples of two or four are kept without their low zeros, so
that every value of a field is one the encoding can hold.
-/

namespace Vanadium.Lib.Rv32

abbrev Byte := BitVec 8

abbrev Word := BitVec 32

/-- A register number. -/
abbrev Reg := BitVec 5

/-- A register number of the three-bit fields: `x8` to `x15`. -/
def creg (r : BitVec 3) : Reg := 8 + r.setWidth 5

/-- Register-register operations. -/
inductive AluOp where
  | add | sub | sll | slt | sltu | xor | srl | sra | or | and
  | mul | mulh | mulhsu | mulhu | div | divu | rem | remu
  deriving DecidableEq, Repr

/-- Register-immediate operations. -/
inductive ImmOp where
  | addi | slti | sltiu | xori | ori | andi
  deriving DecidableEq, Repr

inductive ShiftOp where
  | slli | srli | srai
  deriving DecidableEq, Repr

inductive Cond where
  | eq | ne | lt | ge | ltu | geu
  deriving DecidableEq, Repr

inductive LoadOp where
  | lb | lh | lw | lbu | lhu
  deriving DecidableEq, Repr

inductive StoreOp where
  | sb | sh | sw
  deriving DecidableEq, Repr

inductive AmoOp where
  | swap | add | xor | and | or | min | max | minu | maxu
  deriving DecidableEq, Repr

inductive Instr where
  | lui (rd : Reg) (imm : BitVec 20)
  | auipc (rd : Reg) (imm : BitVec 20)
  | jal (rd : Reg) (offset : BitVec 20)
  | jalr (rd rs1 : Reg) (offset : BitVec 12)
  | branch (c : Cond) (rs1 rs2 : Reg) (offset : BitVec 12)
  | load (op : LoadOp) (rd rs1 : Reg) (offset : BitVec 12)
  | store (op : StoreOp) (rs1 rs2 : Reg) (offset : BitVec 12)
  | opImm (op : ImmOp) (rd rs1 : Reg) (imm : BitVec 12)
  | shiftImm (op : ShiftOp) (rd rs1 : Reg) (shamt : BitVec 5)
  | alu (op : AluOp) (rd rs1 rs2 : Reg)
  | fence (fm : BitVec 4) (pred succ : BitVec 4) (rd rs1 : Reg)
  | ecall
  | ebreak
  | lr (aq rl : Bool) (rd rs1 : Reg)
  | sc (aq rl : Bool) (rd rs1 rs2 : Reg)
  | amo (op : AmoOp) (aq rl : Bool) (rd rs1 rs2 : Reg)
  deriving DecidableEq, Repr

/-! ## 32-bit encodings -/

/-- The value with the given bits, the most significant one first. -/
def bits {w : Nat} (l : List Bool) : BitVec w := (BitVec.ofBoolListBE l).setWidth w

/-- The fields of a 32-bit encoding, from the most significant one down. -/
def word (funct7 : BitVec 7) (rs2 rs1 : BitVec 5) (funct3 : BitVec 3) (rd : BitVec 5)
    (opcode : BitVec 7) : Word :=
  funct7 ++ rs2 ++ rs1 ++ funct3 ++ rd ++ opcode

section
variable {w : Nat} (l : List Bool)

@[simp] theorem getLsbD_bits (i : Nat) : (bits l : BitVec w).getLsbD i =
    (decide (i < w) && (decide (i < l.length) && l.getD (l.length - 1 - i) false)) := by
  rw [bits, BitVec.getLsbD_setWidth, BitVec.getLsbD_ofBoolListBE]

@[simp] theorem getElem_bits (i : Nat) (h : i < w) : (bits l : BitVec w)[i] =
    (decide (i < l.length) && l.getD (l.length - 1 - i) false) := by
  rw [← BitVec.getLsbD_eq_getElem, getLsbD_bits, decide_eq_true h, Bool.true_and]

end

section
variable (funct7 : BitVec 7) (rs2 rs1 : BitVec 5) (funct3 : BitVec 3) (rd : BitVec 5)
  (opcode : BitVec 7)

@[simp] theorem getLsbD_word (i : Nat) :
    (word funct7 rs2 rs1 funct3 rd opcode).getLsbD i =
      if i < 7 then opcode.getLsbD i
      else if i < 12 then rd.getLsbD (i - 7)
      else if i < 15 then funct3.getLsbD (i - 12)
      else if i < 20 then rs1.getLsbD (i - 15)
      else if i < 25 then rs2.getLsbD (i - 20)
      else funct7.getLsbD (i - 25) := by
  show (funct7 ++ rs2 ++ rs1 ++ funct3 ++ rd ++ opcode).getLsbD i = _
  simp only [BitVec.getLsbD_append]
  grind

@[simp] theorem getElem_word (i : Nat) (h : i < 32) :
    (word funct7 rs2 rs1 funct3 rd opcode)[i] =
      if i < 7 then opcode.getLsbD i
      else if i < 12 then rd.getLsbD (i - 7)
      else if i < 15 then funct3.getLsbD (i - 12)
      else if i < 20 then rs1.getLsbD (i - 15)
      else if i < 25 then rs2.getLsbD (i - 20)
      else funct7.getLsbD (i - 25) := by
  rw [← getLsbD_word, BitVec.getLsbD_eq_getElem]

@[simp] theorem msb_word :
    (word funct7 rs2 rs1 funct3 rd opcode).msb = funct7.getLsbD 6 := by
  simp [BitVec.msb_eq_getLsbD_last]

end

/-- `imm[11:0] rs1 funct3 rd opcode`. -/
def iType (imm : BitVec 12) (rs1 : Reg) (funct3 : BitVec 3) (rd : Reg)
    (opcode : BitVec 7) : Word :=
  word (imm.extractLsb' 5 7) (imm.extractLsb' 0 5) rs1 funct3 rd opcode

/-- `imm[11:5] rs2 rs1 funct3 imm[4:0] opcode`. -/
def sType (imm : BitVec 12) (rs2 rs1 : Reg) (funct3 : BitVec 3)
    (opcode : BitVec 7) : Word :=
  word (imm.extractLsb' 5 7) rs2 rs1 funct3 (imm.extractLsb' 0 5) opcode

/-- `imm[12|10:5] rs2 rs1 funct3 imm[4:1|11] opcode`. -/
def bType (imm : BitVec 13) (rs2 rs1 : Reg) (funct3 : BitVec 3)
    (opcode : BitVec 7) : Word :=
  word (bits [imm[12], imm[10], imm[9], imm[8], imm[7], imm[6], imm[5]]) rs2 rs1 funct3
    (bits [imm[4], imm[3], imm[2], imm[1], imm[11]]) opcode

/-- `imm[31:12] rd opcode`. -/
def uType (imm : BitVec 20) (rd : Reg) (opcode : BitVec 7) : Word :=
  word (imm.extractLsb' 13 7) (imm.extractLsb' 8 5) (imm.extractLsb' 3 5)
    (imm.extractLsb' 0 3) rd opcode

/-- `imm[20|10:1|11|19:12] rd opcode`. -/
def jType (imm : BitVec 21) (rd : Reg) (opcode : BitVec 7) : Word :=
  word (bits [imm[20], imm[10], imm[9], imm[8], imm[7], imm[6], imm[5]])
    (bits [imm[4], imm[3], imm[2], imm[1], imm[11]])
    (imm.extractLsb' 15 5) (imm.extractLsb' 12 3) rd opcode

/-- `funct5 aq rl rs2 rs1 width rd AMO`. -/
def aType (funct5 : BitVec 5) (aq rl : Bool) (rs2 rs1 rd : Reg) : Word :=
  word (bits [funct5[4], funct5[3], funct5[2], funct5[1], funct5[0], aq, rl]) rs2 rs1
    0b010 rd 0b0101111

def AluOp.funct : AluOp → BitVec 7 × BitVec 3
  | .add => (0b0000000, 0b000)
  | .sub => (0b0100000, 0b000)
  | .sll => (0b0000000, 0b001)
  | .slt => (0b0000000, 0b010)
  | .sltu => (0b0000000, 0b011)
  | .xor => (0b0000000, 0b100)
  | .srl => (0b0000000, 0b101)
  | .sra => (0b0100000, 0b101)
  | .or => (0b0000000, 0b110)
  | .and => (0b0000000, 0b111)
  | .mul => (0b0000001, 0b000)
  | .mulh => (0b0000001, 0b001)
  | .mulhsu => (0b0000001, 0b010)
  | .mulhu => (0b0000001, 0b011)
  | .div => (0b0000001, 0b100)
  | .divu => (0b0000001, 0b101)
  | .rem => (0b0000001, 0b110)
  | .remu => (0b0000001, 0b111)

def ImmOp.funct3 : ImmOp → BitVec 3
  | .addi => 0b000
  | .slti => 0b010
  | .sltiu => 0b011
  | .xori => 0b100
  | .ori => 0b110
  | .andi => 0b111

def ShiftOp.funct : ShiftOp → BitVec 7 × BitVec 3
  | .slli => (0b0000000, 0b001)
  | .srli => (0b0000000, 0b101)
  | .srai => (0b0100000, 0b101)

def Cond.funct3 : Cond → BitVec 3
  | .eq => 0b000
  | .ne => 0b001
  | .lt => 0b100
  | .ge => 0b101
  | .ltu => 0b110
  | .geu => 0b111

def LoadOp.funct3 : LoadOp → BitVec 3
  | .lb => 0b000
  | .lh => 0b001
  | .lw => 0b010
  | .lbu => 0b100
  | .lhu => 0b101

def StoreOp.funct3 : StoreOp → BitVec 3
  | .sb => 0b000
  | .sh => 0b001
  | .sw => 0b010

def AmoOp.funct5 : AmoOp → BitVec 5
  | .swap => 0b00001
  | .add => 0b00000
  | .xor => 0b00100
  | .and => 0b01100
  | .or => 0b01000
  | .min => 0b10000
  | .max => 0b10100
  | .minu => 0b11000
  | .maxu => 0b11100

def Instr.encode : Instr → Word
  | .lui rd imm => uType imm rd 0b0110111
  | .auipc rd imm => uType imm rd 0b0010111
  | .jal rd offset => jType (offset ++ 0#1) rd 0b1101111
  | .jalr rd rs1 offset => iType offset rs1 0b000 rd 0b1100111
  | .branch c rs1 rs2 offset => bType (offset ++ 0#1) rs2 rs1 c.funct3 0b1100011
  | .load op rd rs1 offset => iType offset rs1 op.funct3 rd 0b0000011
  | .store op rs1 rs2 offset => sType offset rs2 rs1 op.funct3 0b0100011
  | .opImm op rd rs1 imm => iType imm rs1 op.funct3 rd 0b0010011
  | .shiftImm op rd rs1 shamt => word op.funct.1 shamt rs1 op.funct.2 rd 0b0010011
  | .alu op rd rs1 rs2 => word op.funct.1 rs2 rs1 op.funct.2 rd 0b0110011
  | .fence fm pred succ rd rs1 => iType (fm ++ pred ++ succ) rs1 0b000 rd 0b0001111
  | .ecall => iType 0 0 0b000 0 0b1110011
  | .ebreak => iType 1 0 0b000 0 0b1110011
  | .lr aq rl rd rs1 => aType 0b00010 aq rl 0 rs1 rd
  | .sc aq rl rd rs1 rs2 => aType 0b00011 aq rl rs2 rs1 rd
  | .amo op aq rl rd rs1 rs2 => aType op.funct5 aq rl rs2 rs1 rd

/-! ## 16-bit encodings -/

/-- The compressed instructions. `r'` names a three-bit register field. -/
inductive CInstr where
  | addi4spn (rd' : BitVec 3) (nzuimm : BitVec 8)
  | lw (rd' rs1' : BitVec 3) (uimm : BitVec 5)
  | sw (rs1' rs2' : BitVec 3) (uimm : BitVec 5)
  | nop
  | addi (rd : Reg) (nzimm : BitVec 6)
  | jal (offset : BitVec 11)
  | li (rd : Reg) (imm : BitVec 6)
  | addi16sp (nzimm : BitVec 6)
  | lui (rd : Reg) (nzimm : BitVec 6)
  | srli (rd' : BitVec 3) (shamt : BitVec 5)
  | srai (rd' : BitVec 3) (shamt : BitVec 5)
  | andi (rd' : BitVec 3) (imm : BitVec 6)
  | sub (rd' rs2' : BitVec 3)
  | xor (rd' rs2' : BitVec 3)
  | or (rd' rs2' : BitVec 3)
  | and (rd' rs2' : BitVec 3)
  | j (offset : BitVec 11)
  | beqz (rs1' : BitVec 3) (offset : BitVec 8)
  | bnez (rs1' : BitVec 3) (offset : BitVec 8)
  | slli (rd : Reg) (shamt : BitVec 5)
  | lwsp (rd : Reg) (uimm : BitVec 6)
  | jr (rs1 : Reg)
  | mv (rd rs2 : Reg)
  | ebreak
  | jalr (rs1 : Reg)
  | add (rd rs2 : Reg)
  | swsp (rs2 : Reg) (uimm : BitVec 6)
  deriving DecidableEq, Repr

/-- The encodings that are neither reserved nor hints. -/
def CInstr.Legal : CInstr → Prop
  | .addi4spn _ nzuimm => nzuimm ≠ 0
  | .addi rd nzimm => rd ≠ 0 ∧ nzimm ≠ 0
  | .li rd _ => rd ≠ 0
  | .addi16sp nzimm => nzimm ≠ 0
  | .lui rd nzimm => rd ≠ 0 ∧ rd ≠ 2 ∧ nzimm ≠ 0
  | .srli _ shamt | .srai _ shamt => shamt ≠ 0
  | .slli rd shamt => rd ≠ 0 ∧ shamt ≠ 0
  | .lwsp rd _ => rd ≠ 0
  | .jr rs1 | .jalr rs1 => rs1 ≠ 0
  | .mv rd rs2 | .add rd rs2 => rd ≠ 0 ∧ rs2 ≠ 0
  | _ => True

/-- The fields of a 16-bit encoding, cut wherever most of the formats are. -/
def half (funct3 : BitVec 3) (b12 : BitVec 1) (b11_10 : BitVec 2) (b9_7 : BitVec 3)
    (b6_5 : BitVec 2) (b4_2 : BitVec 3) (op : BitVec 2) : BitVec 16 :=
  funct3 ++ b12 ++ b11_10 ++ b9_7 ++ b6_5 ++ b4_2 ++ op

section
variable (funct3 : BitVec 3) (b12 : BitVec 1) (b11_10 : BitVec 2) (b9_7 : BitVec 3)
  (b6_5 : BitVec 2) (b4_2 : BitVec 3) (op : BitVec 2)

@[simp] theorem getLsbD_half (i : Nat) :
    (half funct3 b12 b11_10 b9_7 b6_5 b4_2 op).getLsbD i =
      if i < 2 then op.getLsbD i
      else if i < 5 then b4_2.getLsbD (i - 2)
      else if i < 7 then b6_5.getLsbD (i - 5)
      else if i < 10 then b9_7.getLsbD (i - 7)
      else if i < 12 then b11_10.getLsbD (i - 10)
      else if i < 13 then b12.getLsbD (i - 12)
      else funct3.getLsbD (i - 13) := by
  show (funct3 ++ b12 ++ b11_10 ++ b9_7 ++ b6_5 ++ b4_2 ++ op).getLsbD i = _
  simp only [BitVec.getLsbD_append]
  grind

@[simp] theorem getElem_half (i : Nat) (h : i < 16) :
    (half funct3 b12 b11_10 b9_7 b6_5 b4_2 op)[i] =
      if i < 2 then op.getLsbD i
      else if i < 5 then b4_2.getLsbD (i - 2)
      else if i < 7 then b6_5.getLsbD (i - 5)
      else if i < 10 then b9_7.getLsbD (i - 7)
      else if i < 12 then b11_10.getLsbD (i - 10)
      else if i < 13 then b12.getLsbD (i - 12)
      else funct3.getLsbD (i - 13) := by
  rw [← getLsbD_half, BitVec.getLsbD_eq_getElem]

end

/-- `funct4 rd/rs1 rs2 op`. -/
def crType (funct3 : BitVec 3) (b12 : BitVec 1) (rd rs2 : Reg) (op : BitVec 2) :
    BitVec 16 :=
  half funct3 b12 (rd.extractLsb' 3 2) (rd.extractLsb' 0 3) (rs2.extractLsb' 3 2)
    (rs2.extractLsb' 0 3) op

/-- `funct3 imm[5] rd/rs1 imm[4:0] op`. -/
def ciType (funct3 : BitVec 3) (imm : BitVec 6) (rd : Reg) (op : BitVec 2) : BitVec 16 :=
  crType funct3 (imm.extractLsb' 5 1) rd (imm.extractLsb' 0 5) op

/-- `100 imm[5] funct2 rd'/rs1' imm[4:0] op`. -/
def cbAluType (imm : BitVec 6) (funct2 : BitVec 2) (rd' : BitVec 3) : BitVec 16 :=
  half 0b100 (imm.extractLsb' 5 1) funct2 rd' (imm.extractLsb' 3 2)
    (imm.extractLsb' 0 3) 0b01

/-- `funct6 rd'/rs1' funct2 rs2' op`. -/
def caType (b11_10 : BitVec 2) (rd' : BitVec 3) (funct2 : BitVec 2) (rs2' : BitVec 3) :
    BitVec 16 :=
  half 0b100 0 b11_10 rd' funct2 rs2' 0b01

/-- `funct3 uimm[5:3] rs1' uimm[2|6] rd' op`. -/
def clType (funct3 : BitVec 3) (uimm : BitVec 7) (rs1' rd' : BitVec 3) : BitVec 16 :=
  half funct3 (uimm.extractLsb' 5 1) (uimm.extractLsb' 3 2) rs1'
    (bits [uimm[2], uimm[6]]) rd' 0b00

/-- `funct3 imm[8|4:3] rs1' imm[7:6|2:1|5] op`. -/
def cbType (funct3 : BitVec 3) (imm : BitVec 9) (rs1' : BitVec 3) : BitVec 16 :=
  half funct3 (imm.extractLsb' 8 1) (imm.extractLsb' 3 2) rs1' (imm.extractLsb' 6 2)
    (bits [imm[2], imm[1], imm[5]]) 0b01

/-- `funct3 imm[11|4|9:8|10|6|7|3:1|5] op`. -/
def cjType (funct3 : BitVec 3) (imm : BitVec 12) : BitVec 16 :=
  half funct3 (imm.extractLsb' 11 1) (bits [imm[4], imm[9]])
    (bits [imm[8], imm[10], imm[6]]) (bits [imm[7], imm[3]])
    (bits [imm[2], imm[1], imm[5]]) 0b01

/-- `000 nzuimm[5:4|9:6|2|3] rd' 00`. -/
def addi4spnType (imm : BitVec 10) (rd' : BitVec 3) : BitVec 16 :=
  half 0b000 (imm.extractLsb' 5 1) (bits [imm[4], imm[9]]) (imm.extractLsb' 6 3)
    (bits [imm[2], imm[3]]) rd' 0b00

/-- `011 nzimm[9] 2 nzimm[4|6|8:7|5] 01`. -/
def addi16spType (imm : BitVec 10) : BitVec 16 :=
  crType 0b011 (imm.extractLsb' 9 1) 2 (bits [imm[4], imm[6], imm[8], imm[7], imm[5]]) 0b01

/-- `010 uimm[5] rd uimm[4:2|7:6] 10`. -/
def lwspType (imm : BitVec 8) (rd : Reg) : BitVec 16 :=
  crType 0b010 (imm.extractLsb' 5 1) rd (bits [imm[4], imm[3], imm[2], imm[7], imm[6]]) 0b10

/-- `110 uimm[5:2|7:6] rs2 10`. -/
def swspType (imm : BitVec 8) (rs2 : Reg) : BitVec 16 :=
  crType 0b110 (imm.extractLsb' 5 1) (bits [imm[4], imm[3], imm[2], imm[7], imm[6]]) rs2 0b10

def CInstr.encode : CInstr → BitVec 16
  | .addi4spn rd' nzuimm => addi4spnType (nzuimm ++ 0#2) rd'
  | .lw rd' rs1' uimm => clType 0b010 (uimm ++ 0#2) rs1' rd'
  | .sw rs1' rs2' uimm => clType 0b110 (uimm ++ 0#2) rs1' rs2'
  | .nop => ciType 0b000 0 0 0b01
  | .addi rd nzimm => ciType 0b000 nzimm rd 0b01
  | .jal offset => cjType 0b001 (offset ++ 0#1)
  | .li rd imm => ciType 0b010 imm rd 0b01
  | .addi16sp nzimm => addi16spType (nzimm ++ 0#4)
  | .lui rd nzimm => ciType 0b011 nzimm rd 0b01
  | .srli rd' shamt => cbAluType (shamt.setWidth 6) 0b00 rd'
  | .srai rd' shamt => cbAluType (shamt.setWidth 6) 0b01 rd'
  | .andi rd' imm => cbAluType imm 0b10 rd'
  | .sub rd' rs2' => caType 0b11 rd' 0b00 rs2'
  | .xor rd' rs2' => caType 0b11 rd' 0b01 rs2'
  | .or rd' rs2' => caType 0b11 rd' 0b10 rs2'
  | .and rd' rs2' => caType 0b11 rd' 0b11 rs2'
  | .j offset => cjType 0b101 (offset ++ 0#1)
  | .beqz rs1' offset => cbType 0b110 (offset ++ 0#1) rs1'
  | .bnez rs1' offset => cbType 0b111 (offset ++ 0#1) rs1'
  | .slli rd shamt => ciType 0b000 (shamt.setWidth 6) rd 0b10
  | .lwsp rd uimm => lwspType (uimm ++ 0#2) rd
  | .jr rs1 => crType 0b100 0 rs1 0 0b10
  | .mv rd rs2 => crType 0b100 0 rd rs2 0b10
  | .ebreak => crType 0b100 1 0 0 0b10
  | .jalr rs1 => crType 0b100 1 rs1 0 0b10
  | .add rd rs2 => crType 0b100 1 rd rs2 0b10
  | .swsp rs2 uimm => swspType (uimm ++ 0#2) rs2

/-- The 32-bit instruction a compressed one stands for. -/
def CInstr.expand : CInstr → Instr
  | .addi4spn rd' nzuimm => .opImm .addi (creg rd') 2 ((nzuimm ++ 0#2).setWidth 12)
  | .lw rd' rs1' uimm => .load .lw (creg rd') (creg rs1') ((uimm ++ 0#2).setWidth 12)
  | .sw rs1' rs2' uimm => .store .sw (creg rs1') (creg rs2') ((uimm ++ 0#2).setWidth 12)
  | .nop => .opImm .addi 0 0 0
  | .addi rd nzimm => .opImm .addi rd rd (nzimm.signExtend 12)
  | .jal offset => .jal 1 (offset.signExtend 20)
  | .li rd imm => .opImm .addi rd 0 (imm.signExtend 12)
  | .addi16sp nzimm => .opImm .addi 2 2 ((nzimm ++ 0#4).signExtend 12)
  | .lui rd nzimm => .lui rd (nzimm.signExtend 20)
  | .srli rd' shamt => .shiftImm .srli (creg rd') (creg rd') shamt
  | .srai rd' shamt => .shiftImm .srai (creg rd') (creg rd') shamt
  | .andi rd' imm => .opImm .andi (creg rd') (creg rd') (imm.signExtend 12)
  | .sub rd' rs2' => .alu .sub (creg rd') (creg rd') (creg rs2')
  | .xor rd' rs2' => .alu .xor (creg rd') (creg rd') (creg rs2')
  | .or rd' rs2' => .alu .or (creg rd') (creg rd') (creg rs2')
  | .and rd' rs2' => .alu .and (creg rd') (creg rd') (creg rs2')
  | .j offset => .jal 0 (offset.signExtend 20)
  | .beqz rs1' offset => .branch .eq (creg rs1') 0 (offset.signExtend 12)
  | .bnez rs1' offset => .branch .ne (creg rs1') 0 (offset.signExtend 12)
  | .slli rd shamt => .shiftImm .slli rd rd shamt
  | .lwsp rd uimm => .load .lw rd 2 ((uimm ++ 0#2).setWidth 12)
  | .jr rs1 => .jalr 0 rs1 0
  | .mv rd rs2 => .alu .add rd 0 rs2
  | .ebreak => .ebreak
  | .jalr rs1 => .jalr 1 rs1 0
  | .add rd rs2 => .alu .add rd rd rs2
  | .swsp rs2 uimm => .store .sw 2 rs2 ((uimm ++ 0#2).setWidth 12)

/-! ## Encodings in memory -/

/-- An instruction as it stands in memory, in four bytes or in two. -/
inductive Encoding where
  | full (i : Instr)
  | compressed (c : CInstr)
  deriving DecidableEq, Repr

namespace Encoding

def Legal : Encoding → Prop
  | .full _ => True
  | .compressed c => c.Legal

def instr : Encoding → Instr
  | .full i => i
  | .compressed c => c.expand

/-- How far the next instruction is. -/
def size : Encoding → Nat
  | .full _ => 4
  | .compressed _ => 2

theorem two_le_size (e : Encoding) : 2 ≤ e.size := by
  cases e with
  | full i => exact (by decide : 2 ≤ 4)
  | compressed c => exact Nat.le_refl 2

/-- Little-endian. -/
def bytes : Encoding → List Byte
  | .full i =>
      let w := i.encode
      [w.extractLsb' 0 8, w.extractLsb' 8 8, w.extractLsb' 16 8, w.extractLsb' 24 8]
  | .compressed c =>
      let w := c.encode
      [w.extractLsb' 0 8, w.extractLsb' 8 8]

end Encoding

end Vanadium.Lib.Rv32
