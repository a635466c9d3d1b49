import Vanadium.Common.Riscv.Op

/-!
# The instruction decoder

The model of `common/src/riscv/decode.rs`: masks, shifts and the nested matches
as they stand there. A shift right of an `i32` is arithmetic.
-/

namespace Vanadium

def rd (inst : U32) : RegNum := ((inst >>> 7) &&& 0b11111).setWidth 5

def rs1 (inst : U32) : RegNum := ((inst >>> 15) &&& 0b11111).setWidth 5

def rs2 (inst : U32) : RegNum := ((inst >>> 20) &&& 0b11111).setWidth 5

def b_imm (inst : U32) : I32 :=
  (inst &&& 0b10000000_00000000_00000000_00000000).sshiftRight 19
    ||| (inst &&& 0b00000000_00000000_00000000_10000000) <<< 4
    ||| (inst &&& 0b01111110_00000000_00000000_00000000).sshiftRight 20
    ||| (inst &&& 0b00000000_00000000_00001111_00000000).sshiftRight 7

def i_imm (inst : U32) : I32 := inst.sshiftRight 20

def j_imm (inst : U32) : I32 :=
  (inst &&& 0b10000000_00000000_00000000_00000000).sshiftRight 11
    ||| (inst &&& 0b00000000_00001111_11110000_00000000).sshiftRight 0
    ||| (inst &&& 0b00000000_00010000_00000000_00000000).sshiftRight 9
    ||| (inst &&& 0b01111111_11100000_00000000_00000000).sshiftRight 20

def s_imm (inst : U32) : I32 :=
  (inst &&& 0b11111110_00000000_00000000_00000000).sshiftRight 20
    ||| (inst &&& 0b00000000_00000000_00001111_10000000).sshiftRight 7

def u_imm (inst : U32) : I32 := inst &&& 0xfffff000

/-! ## Compressed instructions -/

namespace rv32c

/-- `u16` -/
abbrev U16 := BitVec 16

def c_rd (inst : U16) : RegNum := ((inst >>> 7) &&& 0b11111).setWidth 5

def c_rds (inst : U16) : RegNum := 8 + ((inst >>> 2) &&& 0b111).setWidth 5

def c_rs1 (inst : U16) : RegNum := ((inst >>> 7) &&& 0b11111).setWidth 5

def c_rs2 (inst : U16) : RegNum := ((inst >>> 2) &&& 0b11111).setWidth 5

def c_rs1s (inst : U16) : RegNum := 8 + ((inst >>> 7) &&& 0b111).setWidth 5

def c_rs2s (inst : U16) : RegNum := 8 + ((inst >>> 2) &&& 0b111).setWidth 5

def c_funct3 (inst : U16) : U16 := (inst >>> 13) &&& 0b111

/-- `x as i32` -/
def i32 (x : U16) : I32 := x.setWidth 32

def ci_imm (inst : U16) : I32 :=
  (i32 (inst &&& 0b00010000_00000000) <<< 19).sshiftRight 26
    ||| (i32 (inst &&& 0b00000000_01111100)).sshiftRight 2

def ci_addi16sp_imm (inst : U16) : I32 :=
  (i32 (inst &&& 0b00010000_00000000) <<< 19).sshiftRight 22
    ||| i32 (inst &&& 0b00000000_00011000) <<< 4
    ||| i32 (inst &&& 0b00000000_00100000) <<< 1
    ||| i32 (inst &&& 0b00000000_00000100) <<< 3
    ||| (i32 (inst &&& 0b00000000_01000000)).sshiftRight 2

def ci_lwsp_imm (inst : U16) : I32 :=
  i32 (inst &&& 0b00000000_00001100) <<< 4
    ||| (i32 (inst &&& 0b00010000_00000000)).sshiftRight 7
    ||| (i32 (inst &&& 0b00000000_01110000)).sshiftRight 2

def css_swsp_imm (inst : U16) : I32 :=
  (i32 (inst &&& 0b00000001_10000000)).sshiftRight 1
    ||| (i32 (inst &&& 0b00011110_00000000)).sshiftRight 7

def ciw_addi4spn_imm (inst : U16) : U16 :=
  (inst &&& 0b00011000_00000000) >>> 7
    ||| (inst &&& 0b00000111_10000000) >>> 1
    ||| (inst &&& 0b00000000_01000000) >>> 4
    ||| (inst &&& 0b00000000_00100000) >>> 2

def cl_lw_offset (inst : U16) : I32 :=
  i32 (inst &&& 0b00000000_00100000) <<< 1
    ||| (i32 (inst &&& 0b00011100_00000000)).sshiftRight 7
    ||| (i32 (inst &&& 0b00000000_01000000)).sshiftRight 4

def cs_sw_offset (inst : U16) : I32 := cl_lw_offset inst

def cb_imm (inst : U16) : I32 :=
  (i32 (inst &&& 0b00010000_00000000) <<< 19).sshiftRight 23
    ||| i32 (inst &&& 0b00000000_01100000) <<< 1
    ||| i32 (inst &&& 0b00000000_00000100) <<< 3
    ||| (i32 (inst &&& 0b00001100_00000000)).sshiftRight 7
    ||| (i32 (inst &&& 0b00000000_00011000)).sshiftRight 2

def cj_imm (inst : U16) : I32 :=
  (i32 (inst &&& 0b00010000_00000000) <<< 19).sshiftRight 20
    ||| i32 (inst &&& 0b00000001_00000000) <<< 2
    ||| (i32 (inst &&& 0b00000110_00000000)).sshiftRight 1
    ||| i32 (inst &&& 0b00000000_01000000) <<< 1
    ||| (i32 (inst &&& 0b00000000_10000000)).sshiftRight 1
    ||| i32 (inst &&& 0b00000000_00000100) <<< 3
    ||| (i32 (inst &&& 0b00001000_00000000)).sshiftRight 7
    ||| (i32 (inst &&& 0b00000000_00111000)).sshiftRight 2

/-- The source matches on bit fields and marks what a field cannot be as
`unreachable!()`; these arms are the last ones of their matches here. -/
def decode_compressed (inst : U16) : Op :=
  match inst &&& 0b11 with
  | 0b00 =>
      -- Quadrant 0
      match c_funct3 inst with
      | 0b000 =>
          let imm := i32 (ciw_addi4spn_imm inst)
          if imm = 0 then .unknown else .addi (c_rds inst) 2 imm
      | 0b010 => .lw (c_rds inst) (c_rs1s inst) (cl_lw_offset inst)
      | 0b110 => .sw (c_rs1s inst) (c_rs2s inst) (cs_sw_offset inst)
      | _ => .unknown
  | 0b01 =>
      -- Quadrant 1
      match c_funct3 inst with
      | 0b000 => .addi (c_rd inst) (c_rd inst) (ci_imm inst)
      | 0b001 => .jal 1 (cj_imm inst)
      | 0b010 => .addi (c_rd inst) 0 (ci_imm inst)
      | 0b011 =>
          match c_rd inst with
          | 2 =>
              let imm := ci_addi16sp_imm inst
              if imm = 0 then .unknown else .addi 2 2 imm
          | _ => .lui (c_rd inst) (ci_imm inst <<< 12)
      | 0b100 =>
          match (inst >>> 10) &&& 0b11 with
          | 0b00 => .srli (c_rs1s inst) (c_rs1s inst) (ci_imm inst &&& 31)
          | 0b01 => .srai (c_rs1s inst) (c_rs1s inst) (ci_imm inst &&& 31)
          | 0b10 => .andi (c_rs1s inst) (c_rs1s inst) (ci_imm inst)
          | _ =>
              match inst &&& 0x1000 with
              | 0 =>
                  match (inst >>> 5) &&& 0b11 with
                  | 0b00 => .sub (c_rs1s inst) (c_rs1s inst) (c_rs2s inst)
                  | 0b01 => .xor (c_rs1s inst) (c_rs1s inst) (c_rs2s inst)
                  | 0b10 => .or (c_rs1s inst) (c_rs1s inst) (c_rs2s inst)
                  | _ => .and (c_rs1s inst) (c_rs1s inst) (c_rs2s inst)
              | _ => .unknown
      | 0b101 => .jal 0 (cj_imm inst)
      | 0b110 => .beq (c_rs1s inst) 0 (cb_imm inst)
      | 0b111 => .bne (c_rs1s inst) 0 (cb_imm inst)
      | _ => .unknown
  | 0b10 =>
      -- Quadrant 2
      match c_funct3 inst with
      | 0b000 =>
          match c_rd inst with
          | 0 => .unknown
          | _ => .slli (c_rd inst) (c_rd inst) (ci_imm inst &&& 31)
      | 0b010 =>
          match c_rd inst with
          | 0 => .unknown
          | _ => .lw (c_rd inst) 2 (ci_lwsp_imm inst)
      | 0b100 =>
          match (inst >>> 12) &&& 1 with
          | 0 =>
              match c_rs2 inst with
              | 0 =>
                  match c_rs1 inst with
                  | 0 => .unknown
                  | _ => .jalr 0 (c_rs1 inst) 0
              | _ => .add (c_rd inst) 0 (c_rs2 inst)
          | _ =>
              match c_rs2 inst with
              | 0 =>
                  match c_rs1 inst with
                  | 0 => .break
                  | _ => .jalr 1 (c_rs1 inst) 0
              | _ => .add (c_rd inst) (c_rd inst) (c_rs2 inst)
      | 0b110 => .sw 2 (c_rs2 inst) (css_swsp_imm inst)
      | _ => .unknown
  | _ => .unknown

end rv32c

/-! ## 32-bit instructions -/

def decode_uncompressed (inst : U32) : Op :=
  match inst &&& 0x0000007f with
  | 0x00000037 => .lui (rd inst) (u_imm inst)
  | 0x00000017 => .auipc (rd inst) (u_imm inst)
  | 0x0000006f => .jal (rd inst) (j_imm inst)
  | 0x00000067 =>
      match inst &&& 0x0000707f with
      | 0x00000067 => .jalr (rd inst) (rs1 inst) (i_imm inst)
      | _ => .unknown
  | 0x00000063 =>
      match inst &&& 0x0000707f with
      | 0x00000063 => .beq (rs1 inst) (rs2 inst) (b_imm inst)
      | 0x00001063 => .bne (rs1 inst) (rs2 inst) (b_imm inst)
      | 0x00004063 => .blt (rs1 inst) (rs2 inst) (b_imm inst)
      | 0x00005063 => .bge (rs1 inst) (rs2 inst) (b_imm inst)
      | 0x00006063 => .bltu (rs1 inst) (rs2 inst) (b_imm inst)
      | 0x00007063 => .bgeu (rs1 inst) (rs2 inst) (b_imm inst)
      | _ => .unknown
  | 0x00000003 =>
      match inst &&& 0x0000707f with
      | 0x00000003 => .lb (rd inst) (rs1 inst) (i_imm inst)
      | 0x00001003 => .lh (rd inst) (rs1 inst) (i_imm inst)
      | 0x00002003 => .lw (rd inst) (rs1 inst) (i_imm inst)
      | 0x00004003 => .lbu (rd inst) (rs1 inst) (i_imm inst)
      | 0x00005003 => .lhu (rd inst) (rs1 inst) (i_imm inst)
      | _ => .unknown
  | 0x00000023 =>
      match inst &&& 0x0000707f with
      | 0x00000023 => .sb (rs1 inst) (rs2 inst) (s_imm inst)
      | 0x00001023 => .sh (rs1 inst) (rs2 inst) (s_imm inst)
      | 0x00002023 => .sw (rs1 inst) (rs2 inst) (s_imm inst)
      | _ => .unknown
  | 0x00000013 =>
      match inst &&& 0x0000707f with
      | 0x00000013 => .addi (rd inst) (rs1 inst) (i_imm inst)
      | 0x00002013 => .slti (rd inst) (rs1 inst) (i_imm inst)
      | 0x00003013 => .sltiu (rd inst) (rs1 inst) (i_imm inst)
      | 0x00004013 => .xori (rd inst) (rs1 inst) (i_imm inst)
      | 0x00006013 => .ori (rd inst) (rs1 inst) (i_imm inst)
      | 0x00007013 => .andi (rd inst) (rs1 inst) (i_imm inst)
      | 0x00001013 =>
          match inst &&& 0xfe00707f with
          | 0x00001013 => .slli (rd inst) (rs1 inst) (i_imm inst)
          | _ => .unknown
      | 0x00005013 =>
          match inst &&& 0xfe00707f with
          | 0x00005013 => .srli (rd inst) (rs1 inst) (i_imm inst)
          | 0x40005013 => .srai (rd inst) (rs1 inst) (i_imm inst)
          | _ => .unknown
      | _ => .unknown
  | 0x00000033 =>
      match inst &&& 0xfe00707f with
      | 0x00000033 => .add (rd inst) (rs1 inst) (rs2 inst)
      | 0x40000033 => .sub (rd inst) (rs1 inst) (rs2 inst)
      | 0x00001033 => .sll (rd inst) (rs1 inst) (rs2 inst)
      | 0x00002033 => .slt (rd inst) (rs1 inst) (rs2 inst)
      | 0x00003033 => .sltu (rd inst) (rs1 inst) (rs2 inst)
      | 0x00004033 => .xor (rd inst) (rs1 inst) (rs2 inst)
      | 0x00005033 => .srl (rd inst) (rs1 inst) (rs2 inst)
      | 0x40005033 => .sra (rd inst) (rs1 inst) (rs2 inst)
      | 0x00006033 => .or (rd inst) (rs1 inst) (rs2 inst)
      | 0x00007033 => .and (rd inst) (rs1 inst) (rs2 inst)
      | 0x02000033 => .mul (rd inst) (rs1 inst) (rs2 inst)
      | 0x02001033 => .mulh (rd inst) (rs1 inst) (rs2 inst)
      | 0x02002033 => .mulhsu (rd inst) (rs1 inst) (rs2 inst)
      | 0x02003033 => .mulhu (rd inst) (rs1 inst) (rs2 inst)
      | 0x02004033 => .div (rd inst) (rs1 inst) (rs2 inst)
      | 0x02005033 => .divu (rd inst) (rs1 inst) (rs2 inst)
      | 0x02006033 => .rem (rd inst) (rs1 inst) (rs2 inst)
      | 0x02007033 => .remu (rd inst) (rs1 inst) (rs2 inst)
      | _ => .unknown
  | 0x0000002f =>
      match inst &&& 0x0000707f with
      | 0x0000202f =>
          match inst &&& 0xf800707f with
          | 0x1000202f => if rs2 inst = 0 then .lrW (rd inst) (rs1 inst) else .unknown
          | 0x1800202f => .scW (rd inst) (rs1 inst) (rs2 inst)
          | 0x0800202f => .amoswapW (rd inst) (rs1 inst) (rs2 inst)
          | 0x0000202f => .amoaddW (rd inst) (rs1 inst) (rs2 inst)
          | 0x2000202f => .amoxorW (rd inst) (rs1 inst) (rs2 inst)
          | 0x6000202f => .amoandW (rd inst) (rs1 inst) (rs2 inst)
          | 0x4000202f => .amoorW (rd inst) (rs1 inst) (rs2 inst)
          | 0x8000202f => .amominW (rd inst) (rs1 inst) (rs2 inst)
          | 0xa000202f => .amomaxW (rd inst) (rs1 inst) (rs2 inst)
          | 0xc000202f => .amominuW (rd inst) (rs1 inst) (rs2 inst)
          | 0xe000202f => .amomaxuW (rd inst) (rs1 inst) (rs2 inst)
          | _ => .unknown
      | _ => .unknown
  | 0x0000000f =>
      match inst &&& 0x0000707f with
      | 0x0000000f => .fence
      | _ => .unknown
  | 0x00000073 =>
      match inst &&& 0xffffffff with
      | 0x00000073 => .ecall
      | 0x00100073 => .break
      | _ => .unknown
  | _ => .unknown

def decode (inst : U32) : Op × U32 :=
  if inst &&& 0x3 ≠ 0x3 then (rv32c.decode_compressed (inst.setWidth 16), 2)
  else (decode_uncompressed inst, 4)

end Vanadium
