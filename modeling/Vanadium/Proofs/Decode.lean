import Vanadium.Common.Riscv.Decode
import Vanadium.Lib.Rv32.Instr
import Mathlib

/-!
# The decoder reads the manual's encodings

For every instruction of the manual's tables, what the decoder makes of its
encoding is that instruction. The masks and shifts of the source are compared
with the fields of the encoding bit by bit; once they are evaluated, the nested
matches see constants.
-/

namespace Vanadium

open Lib Rv32

/-! ## Fields of a 32-bit encoding -/

section
variable (funct7 : BitVec 7) (b a : BitVec 5) (funct3 : BitVec 3) (d : BitVec 5)
  (opcode : BitVec 7)

theorem mask_opcode : word funct7 b a funct3 d opcode &&& 0x7f = word 0 0 0 0 0 opcode := by
  ext i hi
  interval_cases i <;> simp

theorem mask_funct3 :
    word funct7 b a funct3 d opcode &&& 0x707f = word 0 0 0 funct3 0 opcode := by
  ext i hi
  interval_cases i <;> simp

theorem mask_funct7 :
    word funct7 b a funct3 d opcode &&& 0xfe00707f = word funct7 0 0 funct3 0 opcode := by
  ext i hi
  interval_cases i <;> simp

theorem mask_funct5 : word funct7 b a funct3 d opcode &&& 0xf800707f =
    word (funct7 &&& 0b1111100) 0 0 funct3 0 opcode := by
  ext i hi
  interval_cases i <;> simp

theorem rd_word : rd (word funct7 b a funct3 d opcode) = d := by
  unfold rd
  ext i hi
  interval_cases i <;> simp

theorem rs1_word : rs1 (word funct7 b a funct3 d opcode) = a := by
  unfold rs1
  ext i hi
  interval_cases i <;> simp

theorem rs2_word : rs2 (word funct7 b a funct3 d opcode) = b := by
  unfold rs2
  ext i hi
  interval_cases i <;> simp

theorem i_imm_iType (imm : BitVec 12) : i_imm (iType imm a funct3 d opcode) = imm.signExtend 32 := by
  unfold i_imm iType
  ext i hi
  interval_cases i <;>
    simp [BitVec.getElem_signExtend, BitVec.getElem_sshiftRight, BitVec.msb_eq_getLsbD_last]

/-- Only the low five bits of the shift amount are the shift amount. -/
theorem i_imm_shamt : i_imm (word funct7 b a funct3 d opcode) &&& 0x1f = b.setWidth 32 := by
  unfold i_imm
  ext i hi
  interval_cases i <;> simp [BitVec.getElem_sshiftRight]

theorem s_imm_sType (imm : BitVec 12) : s_imm (sType imm b a funct3 opcode) = imm.signExtend 32 := by
  unfold s_imm sType
  ext i hi
  interval_cases i <;>
    simp [BitVec.getElem_signExtend, BitVec.getElem_sshiftRight, BitVec.msb_eq_getLsbD_last]

theorem b_imm_bType (imm : BitVec 13) (h : imm[0] = false) :
    b_imm (bType imm b a funct3 opcode) = imm.signExtend 32 := by
  unfold b_imm bType
  ext i hi
  interval_cases i <;>
    simp [BitVec.getElem_signExtend, BitVec.getElem_sshiftRight, BitVec.msb_eq_getLsbD_last, h]

theorem u_imm_uType (imm : BitVec 20) :
    u_imm (uType imm d opcode) = imm.setWidth 32 <<< 12 := by
  unfold u_imm uType
  ext i hi
  interval_cases i <;> simp

theorem j_imm_jType (imm : BitVec 21) (h : imm[0] = false) :
    j_imm (jType imm d opcode) = imm.signExtend 32 := by
  unfold j_imm jType
  ext i hi
  interval_cases i <;>
    simp [BitVec.getElem_signExtend, BitVec.getElem_sshiftRight, BitVec.msb_eq_getLsbD_last, h]

end

/-! ## Fields of a 16-bit encoding -/

namespace rv32c

section
variable (funct3 : BitVec 3) (b12 : BitVec 1) (b11_10 : BitVec 2) (b9_7 : BitVec 3)
  (b6_5 : BitVec 2) (b4_2 : BitVec 3) (op : BitVec 2)

theorem mask_quadrant : half funct3 b12 b11_10 b9_7 b6_5 b4_2 op &&& 0b11 =
    op.setWidth 16 := by
  ext i hi
  interval_cases i <;> simp

theorem c_funct3_half : c_funct3 (half funct3 b12 b11_10 b9_7 b6_5 b4_2 op) =
    funct3.setWidth 16 := by
  unfold c_funct3
  ext i hi
  interval_cases i <;> simp

theorem funct2_half : (half funct3 b12 b11_10 b9_7 b6_5 b4_2 op >>> 10) &&& 0b11 =
    b11_10.setWidth 16 := by
  ext i hi
  interval_cases i <;> simp

theorem mask_b12 : half funct3 b12 b11_10 b9_7 b6_5 b4_2 op &&& 0x1000 =
    half 0 b12 0 0 0 0 0 := by
  ext i hi
  interval_cases i <;> simp

theorem b12_half : (half funct3 b12 b11_10 b9_7 b6_5 b4_2 op >>> 12) &&& 1 =
    b12.setWidth 16 := by
  ext i hi
  interval_cases i <;> simp

theorem b6_5_half : (half funct3 b12 b11_10 b9_7 b6_5 b4_2 op >>> 5) &&& 0b11 =
    b6_5.setWidth 16 := by
  ext i hi
  interval_cases i <;> simp

theorem c_rs1s_half : c_rs1s (half funct3 b12 b11_10 b9_7 b6_5 b4_2 op) = creg b9_7 := by
  unfold c_rs1s creg
  congr 1
  ext i hi
  interval_cases i <;> simp

theorem c_rs2s_half : c_rs2s (half funct3 b12 b11_10 b9_7 b6_5 b4_2 op) = creg b4_2 := by
  unfold c_rs2s creg
  congr 1
  ext i hi
  interval_cases i <;> simp

theorem c_rds_half : c_rds (half funct3 b12 b11_10 b9_7 b6_5 b4_2 op) = creg b4_2 :=
  c_rs2s_half funct3 b12 b11_10 b9_7 b6_5 b4_2 op

end

section
variable (funct3 : BitVec 3) (b12 : BitVec 1) (rd rs2 : Reg) (op : BitVec 2)

theorem c_rd_crType : c_rd (crType funct3 b12 rd rs2 op) = rd := by
  unfold c_rd crType
  ext i hi
  interval_cases i <;> simp

theorem c_rs1_crType : c_rs1 (crType funct3 b12 rd rs2 op) = rd :=
  c_rd_crType funct3 b12 rd rs2 op

theorem c_rs2_crType : c_rs2 (crType funct3 b12 rd rs2 op) = rs2 := by
  unfold c_rs2 crType
  ext i hi
  interval_cases i <;> simp

theorem ci_imm_ciType (imm : BitVec 6) : ci_imm (ciType funct3 imm rd op) =
    imm.signExtend 32 := by
  unfold ci_imm ciType crType i32
  ext i hi
  simp only [BitVec.getElem_or, BitVec.getElem_sshiftRight, BitVec.getElem_shiftLeft,
    BitVec.getElem_signExtend, BitVec.msb_eq_getLsbD_last, BitVec.getElem_setWidth,
    BitVec.getLsbD_setWidth, BitVec.getLsbD_and, BitVec.getLsbD_shiftLeft, getLsbD_half,
    BitVec.getLsbD_extractLsb']
  interval_cases i <;> simp

end

theorem ci_imm_cbAluType (imm : BitVec 6) (funct2 : BitVec 2) (rd' : BitVec 3) :
    ci_imm (cbAluType imm funct2 rd') = imm.signExtend 32 := by
  unfold ci_imm cbAluType i32
  ext i hi
  simp only [BitVec.getElem_or, BitVec.getElem_sshiftRight, BitVec.getElem_shiftLeft,
    BitVec.getElem_signExtend, BitVec.msb_eq_getLsbD_last, BitVec.getElem_setWidth,
    BitVec.getLsbD_setWidth, BitVec.getLsbD_and, BitVec.getLsbD_shiftLeft, getLsbD_half,
    BitVec.getLsbD_extractLsb']
  interval_cases i <;> simp

theorem ciw_addi4spn_imm_addi4spnType (imm : BitVec 10) (rd' : BitVec 3)
    (h0 : imm[0] = false) (h1 : imm[1] = false) :
    i32 (ciw_addi4spn_imm (addi4spnType imm rd')) = imm.setWidth 32 := by
  unfold ciw_addi4spn_imm addi4spnType i32
  ext i hi
  interval_cases i <;> simp [h0, h1]

theorem ci_addi16sp_imm_addi16spType (imm : BitVec 10) (h0 : imm.getLsbD 0 = false)
    (h1 : imm.getLsbD 1 = false) (h2 : imm.getLsbD 2 = false) (h3 : imm.getLsbD 3 = false) :
    ci_addi16sp_imm (addi16spType imm) = imm.signExtend 32 := by
  unfold ci_addi16sp_imm addi16spType crType i32
  ext i hi
  simp only [BitVec.getElem_or, BitVec.getElem_sshiftRight, BitVec.getElem_shiftLeft,
    BitVec.getElem_signExtend, BitVec.msb_eq_getLsbD_last, BitVec.getElem_setWidth,
    BitVec.getLsbD_setWidth, BitVec.getLsbD_and, BitVec.getLsbD_shiftLeft, getLsbD_half,
    BitVec.getLsbD_extractLsb']
  have g0 : imm[0] = false := by rw [← BitVec.getLsbD_eq_getElem]; exact h0
  have g1 : imm[1] = false := by rw [← BitVec.getLsbD_eq_getElem]; exact h1
  have g2 : imm[2] = false := by rw [← BitVec.getLsbD_eq_getElem]; exact h2
  have g3 : imm[3] = false := by rw [← BitVec.getLsbD_eq_getElem]; exact h3
  interval_cases i <;> simp [g0, g1, g2, g3]

theorem ci_lwsp_imm_lwspType (imm : BitVec 8) (rd : Reg) (h0 : imm[0] = false)
    (h1 : imm[1] = false) : ci_lwsp_imm (lwspType imm rd) = imm.setWidth 32 := by
  unfold ci_lwsp_imm lwspType crType i32
  ext i hi
  simp only [BitVec.getElem_or, BitVec.getElem_sshiftRight, BitVec.getElem_shiftLeft,
    BitVec.msb_eq_getLsbD_last, BitVec.getElem_setWidth, BitVec.getLsbD_setWidth,
    BitVec.getLsbD_and, getLsbD_half, BitVec.getLsbD_extractLsb']
  interval_cases i <;> simp [h0, h1]

theorem css_swsp_imm_swspType (imm : BitVec 8) (rs2 : Reg) (h0 : imm[0] = false)
    (h1 : imm[1] = false) : css_swsp_imm (swspType imm rs2) = imm.setWidth 32 := by
  unfold css_swsp_imm swspType crType i32
  ext i hi
  simp only [BitVec.getElem_or, BitVec.getElem_sshiftRight,
    BitVec.msb_eq_getLsbD_last, BitVec.getElem_setWidth, BitVec.getLsbD_setWidth,
    BitVec.getLsbD_and, getLsbD_half, BitVec.getLsbD_extractLsb']
  interval_cases i <;> simp [h0, h1]

theorem cl_lw_offset_clType (funct3 : BitVec 3) (imm : BitVec 7) (rs1' rd' : BitVec 3)
    (h0 : imm[0] = false) (h1 : imm[1] = false) :
    cl_lw_offset (clType funct3 imm rs1' rd') = imm.setWidth 32 := by
  unfold cl_lw_offset clType i32
  ext i hi
  simp only [BitVec.getElem_or, BitVec.getElem_sshiftRight, BitVec.getElem_shiftLeft,
    BitVec.msb_eq_getLsbD_last, BitVec.getElem_setWidth, BitVec.getLsbD_setWidth,
    BitVec.getLsbD_and, getLsbD_half, BitVec.getLsbD_extractLsb']
  interval_cases i <;> simp [h0, h1]

theorem cb_imm_cbType (funct3 : BitVec 3) (imm : BitVec 9) (rs1' : BitVec 3)
    (h : imm[0] = false) : cb_imm (cbType funct3 imm rs1') = imm.signExtend 32 := by
  unfold cb_imm cbType i32
  ext i hi
  simp only [BitVec.getElem_or, BitVec.getElem_sshiftRight, BitVec.getElem_shiftLeft,
    BitVec.getElem_signExtend, BitVec.msb_eq_getLsbD_last, BitVec.getElem_setWidth,
    BitVec.getLsbD_setWidth, BitVec.getLsbD_and, BitVec.getLsbD_shiftLeft, getLsbD_half,
    BitVec.getLsbD_extractLsb']
  interval_cases i <;> simp [h]

theorem cj_imm_cjType (funct3 : BitVec 3) (imm : BitVec 12) (h : imm[0] = false) :
    cj_imm (cjType funct3 imm) = imm.signExtend 32 := by
  unfold cj_imm cjType i32
  ext i hi
  simp only [BitVec.getElem_or, BitVec.getElem_sshiftRight, BitVec.getElem_shiftLeft,
    BitVec.getElem_signExtend, BitVec.msb_eq_getLsbD_last, BitVec.getElem_setWidth,
    BitVec.getLsbD_setWidth, BitVec.getLsbD_and, BitVec.getLsbD_shiftLeft, getLsbD_half,
    BitVec.getLsbD_extractLsb']
  interval_cases i <;> simp [h]

end rv32c

/-! ## Operations -/

def aluOp : AluOp → RegNum → RegNum → RegNum → Op
  | .add => .add
  | .sub => .sub
  | .sll => .sll
  | .slt => .slt
  | .sltu => .sltu
  | .xor => .xor
  | .srl => .srl
  | .sra => .sra
  | .or => .or
  | .and => .and
  | .mul => .mul
  | .mulh => .mulh
  | .mulhsu => .mulhsu
  | .mulhu => .mulhu
  | .div => .div
  | .divu => .divu
  | .rem => .rem
  | .remu => .remu

def immOp : ImmOp → RegNum → RegNum → I32 → Op
  | .addi => .addi
  | .slti => .slti
  | .sltiu => .sltiu
  | .xori => .xori
  | .ori => .ori
  | .andi => .andi

def shiftOp : ShiftOp → RegNum → RegNum → I32 → Op
  | .slli => .slli
  | .srli => .srli
  | .srai => .srai

def branchOp : Cond → RegNum → RegNum → I32 → Op
  | .eq => .beq
  | .ne => .bne
  | .lt => .blt
  | .ge => .bge
  | .ltu => .bltu
  | .geu => .bgeu

def loadOp : LoadOp → RegNum → RegNum → I32 → Op
  | .lb => .lb
  | .lh => .lh
  | .lw => .lw
  | .lbu => .lbu
  | .lhu => .lhu

def storeOp : StoreOp → RegNum → RegNum → I32 → Op
  | .sb => .sb
  | .sh => .sh
  | .sw => .sw

def amoOp : AmoOp → RegNum → RegNum → RegNum → Op
  | .swap => .amoswapW
  | .add => .amoaddW
  | .xor => .amoxorW
  | .and => .amoandW
  | .or => .amoorW
  | .min => .amominW
  | .max => .amomaxW
  | .minu => .amominuW
  | .maxu => .amomaxuW

/-- `op` is a decoded form of the instruction. The bits above a shift amount
are left in place by the decoder. -/
def Denotes (op : Op) : Instr → Prop
  | .lui d imm => op = .lui d (imm.setWidth 32 <<< 12)
  | .auipc d imm => op = .auipc d (imm.setWidth 32 <<< 12)
  | .jal d offset => op = .jal d ((offset ++ 0#1).signExtend 32)
  | .jalr d a offset => op = .jalr d a (offset.signExtend 32)
  | .branch c a b offset => op = branchOp c a b ((offset ++ 0#1).signExtend 32)
  | .load f d a offset => op = loadOp f d a (offset.signExtend 32)
  | .store f a b offset => op = storeOp f a b (offset.signExtend 32)
  | .opImm f d a imm => op = immOp f d a (imm.signExtend 32)
  | .shiftImm f d a shamt =>
      ∃ imm : I32, imm &&& 0x1f = shamt.setWidth 32 ∧ op = shiftOp f d a imm
  | .alu f d a b => op = aluOp f d a b
  | .fence .. => op = .fence
  | .ecall => op = .ecall
  | .ebreak => op = .break
  | .lr _ _ d a => op = .lrW d a
  | .sc _ _ d a b => op = .scW d a b
  | .amo f _ _ d a b => op = amoOp f d a b

theorem mask_aType (funct5 : BitVec 5) (aq rl : Bool) (b a d : Reg) :
    aType funct5 aq rl b a d &&& (0xf800707f : U32) =
      word (bits [funct5.getLsbD 4, funct5.getLsbD 3, funct5.getLsbD 2, funct5.getLsbD 1,
        funct5.getLsbD 0, false, false])
        0 0 0b010 0 0b0101111 := by
  rw [aType, mask_funct5]
  congr 1
  ext i hi
  interval_cases i <;> simp

theorem decode_uncompressed_encode (i : Instr) : Denotes (decode_uncompressed i.encode) i := by
  have h0 : ∀ {n : Nat} (x : BitVec n), (x ++ 0#1).getLsbD 0 = false := fun x => by
    rw [BitVec.getLsbD_append]
    rfl
  cases i with
  | lui d imm =>
      show decode_uncompressed (uType imm d _) = _
      rw [← u_imm_uType d 0b0110111 imm]
      simp only [decode_uncompressed, uType, mask_opcode, rd_word]
      rfl
  | auipc d imm =>
      show decode_uncompressed (uType imm d _) = _
      rw [← u_imm_uType d 0b0010111 imm]
      simp only [decode_uncompressed, uType, mask_opcode, rd_word]
      rfl
  | jal d offset =>
      show decode_uncompressed (jType _ d _) = _
      rw [← j_imm_jType d 0b1101111 _ (h0 offset)]
      simp only [decode_uncompressed, jType, mask_opcode, rd_word]
      rfl
  | jalr d a offset =>
      show decode_uncompressed (iType offset a _ d _) = _
      rw [← i_imm_iType a 0b000 d 0b1100111 offset]
      simp only [decode_uncompressed, iType, mask_opcode, mask_funct3, rd_word, rs1_word]
      rfl
  | branch c a b offset =>
      show decode_uncompressed (bType _ b a c.funct3 _) = _
      rw [← b_imm_bType b a c.funct3 0b1100011 _ (h0 offset)]
      simp only [decode_uncompressed, bType, mask_opcode, mask_funct3, rs1_word, rs2_word]
      cases c <;> rfl
  | load f d a offset =>
      show decode_uncompressed (iType offset a f.funct3 d _) = _
      rw [← i_imm_iType a f.funct3 d 0b0000011 offset]
      simp only [decode_uncompressed, iType, mask_opcode, mask_funct3, rd_word, rs1_word]
      cases f <;> rfl
  | store f a b offset =>
      show decode_uncompressed (sType offset b a f.funct3 _) = _
      rw [← s_imm_sType b a f.funct3 0b0100011 offset]
      simp only [decode_uncompressed, sType, mask_opcode, mask_funct3, rs1_word, rs2_word]
      cases f <;> rfl
  | opImm f d a imm =>
      show decode_uncompressed (iType imm a f.funct3 d _) = _
      rw [← i_imm_iType a f.funct3 d 0b0010011 imm]
      simp only [decode_uncompressed, iType, mask_opcode, mask_funct3, rd_word, rs1_word]
      cases f <;> rfl
  | shiftImm f d a shamt =>
      refine ⟨_, i_imm_shamt f.funct.1 shamt a f.funct.2 d 0b0010011, ?_⟩
      show decode_uncompressed (word f.funct.1 shamt a f.funct.2 d _) = _
      simp only [decode_uncompressed, mask_opcode, mask_funct3, mask_funct7, rd_word, rs1_word]
      cases f <;> rfl
  | alu f d a b =>
      show decode_uncompressed (word f.funct.1 b a f.funct.2 d _) = _
      simp only [decode_uncompressed, mask_opcode, mask_funct7, rd_word, rs1_word, rs2_word]
      cases f <;> rfl
  | fence fm pred succ d a =>
      show decode_uncompressed (iType _ a _ d _) = _
      simp only [decode_uncompressed, iType, mask_opcode, mask_funct3]
      rfl
  | ecall => rfl
  | ebreak => rfl
  | lr aq rl d a =>
      show decode_uncompressed (aType _ aq rl 0 a d) = _
      simp only [decode_uncompressed, mask_aType]
      simp only [aType, mask_opcode, mask_funct3, rd_word, rs1_word, rs2_word]
      rfl
  | sc aq rl d a b =>
      show decode_uncompressed (aType _ aq rl b a d) = _
      simp only [decode_uncompressed, mask_aType]
      simp only [aType, mask_opcode, mask_funct3, rd_word, rs1_word, rs2_word]
      rfl
  | amo f aq rl d a b =>
      show decode_uncompressed (aType f.funct5 aq rl b a d) = _
      simp only [decode_uncompressed, mask_aType]
      simp only [aType, mask_opcode, mask_funct3, rd_word, rs1_word, rs2_word]
      cases f <;> rfl

/-! ## Expansions -/

section
variable {n : Nat}

theorem low_append (k : Nat) (x : BitVec n) {i : Nat} (h : i < k) :
    (x ++ 0#k).getLsbD i = false := by
  rw [BitVec.getLsbD_append, if_pos h, BitVec.getLsbD_zero]

/-- An unsigned immediate is a signed one with room for the sign. -/
theorem signExtend_setWidth (x : BitVec n) {m : Nat} (h : n < m) :
    (x.setWidth m).signExtend 32 = x.setWidth 32 := by
  have hmsb : (x.setWidth m).msb = false := by
    rw [BitVec.msb_setWidth, BitVec.getLsbD_of_ge x _ (by omega), Bool.and_false]
  rw [BitVec.signExtend_eq_setWidth_of_msb_false hmsb, BitVec.setWidth_setWidth (by omega)]

theorem signExtend_append (x : BitVec n) {m k : Nat} (h : n ≤ m) (hn : 0 < n) :
    (x.signExtend m ++ 0#k).signExtend 32 = (x ++ 0#k).signExtend 32 := by
  apply BitVec.eq_of_getLsbD_eq
  intro i hi
  simp only [BitVec.getLsbD_signExtend, BitVec.getLsbD_append, BitVec.msb_append,
    BitVec.msb_signExtend]
  split <;> split <;> grind

theorem signExtend_signExtend (x : BitVec n) {m : Nat} (h : n ≤ m) (hn : 0 < n) :
    (x.signExtend m).signExtend 32 = x.signExtend 32 := by
  apply BitVec.eq_of_getLsbD_eq
  intro i hi
  simp only [BitVec.getLsbD_signExtend, BitVec.msb_signExtend]
  split <;> split <;> grind

end

theorem signExtend_shift (x : BitVec 6) :
    (x.signExtend 20).setWidth 32 <<< 12 = x.signExtend 32 <<< 12 := by
  revert x
  decide

theorem shamt_signExtend (x : BitVec 5) :
    ((x.setWidth 6).signExtend 32 &&& 31 : I32) &&& 0x1f = x.setWidth 32 := by
  revert x
  decide

theorem nzuimm_ne_zero (x : BitVec 8) (h : x ≠ 0) : (x ++ 0#2).setWidth 32 ≠ 0#32 := by
  revert x
  decide

theorem nzimm_ne_zero (x : BitVec 6) (h : x ≠ 0) : (x ++ 0#4).signExtend 32 ≠ 0#32 := by
  revert x
  decide

/-- The encodings the decoder reads as their instruction: it tells the hints from
the instructions in one place only, shifts of `x0`. -/
def Readable : CInstr → Prop
  | .addi4spn _ nzuimm => nzuimm ≠ 0
  | .addi16sp nzimm => nzimm ≠ 0
  | .lui rd _ => rd ≠ 2
  | .slli rd _ | .lwsp rd _ => rd ≠ 0
  | .jr rs1 | .jalr rs1 => rs1 ≠ 0
  | .mv _ rs2 | .add _ rs2 => rs2 ≠ 0
  | _ => True

theorem Readable.of_legal {c : CInstr} (h : c.Legal) : Readable c := by
  cases c with
  | lui => exact h.2.1
  | slli => exact h.1
  | mv | add => exact h.2
  | addi4spn | addi16sp | lwsp | jr | jalr => exact h
  | _ => trivial

open rv32c in
theorem decode_compressed_readable (c : CInstr) (h : Readable c) :
    Denotes (decode_compressed c.encode) c.expand := by
  cases c with
  | addi4spn rd' nzuimm =>
      have himm := ciw_addi4spn_imm_addi4spnType (nzuimm ++ 0#2) rd'
        (low_append 2 nzuimm (by decide)) (low_append 2 nzuimm (by decide))
      have hne := nzuimm_ne_zero nzuimm h
      rw [← himm] at hne
      show decode_compressed (addi4spnType (nzuimm ++ 0#2) rd') = .addi _ 2 _
      rw [signExtend_setWidth _ (by decide), ← himm]
      simp only [decode_compressed, addi4spnType, mask_quadrant, c_funct3_half, c_rds_half,
        BitVec.reduceSetWidth]
      exact if_neg hne
  | lw rd' rs1' uimm =>
      show decode_compressed (clType 0b010 (uimm ++ 0#2) rs1' rd') = .lw _ _ _
      rw [signExtend_setWidth _ (by decide), ← cl_lw_offset_clType 0b010 _ rs1' rd'
        (low_append 2 uimm (by decide)) (low_append 2 uimm (by decide))]
      simp only [decode_compressed, clType, mask_quadrant, c_funct3_half, c_rds_half,
        c_rs1s_half, BitVec.reduceSetWidth]
  | sw rs1' rs2' uimm =>
      show decode_compressed (clType 0b110 (uimm ++ 0#2) rs1' rs2') = .sw _ _ _
      rw [signExtend_setWidth _ (by decide), ← cl_lw_offset_clType 0b110 _ rs1' rs2'
        (low_append 2 uimm (by decide)) (low_append 2 uimm (by decide))]
      simp only [decode_compressed, clType, mask_quadrant, c_funct3_half, c_rs2s_half,
        c_rs1s_half, cs_sw_offset, BitVec.reduceSetWidth]
  | nop => rfl
  | addi rd nzimm =>
      show decode_compressed (ciType 0b000 nzimm rd 0b01) = .addi _ _ _
      rw [signExtend_signExtend _ (by decide) (by decide), ← ci_imm_ciType 0b000 rd 0b01]
      simp only [decode_compressed, ciType, c_rd_crType]
      simp only [crType, mask_quadrant, c_funct3_half, BitVec.reduceSetWidth]
  | jal offset =>
      show decode_compressed (cjType 0b001 (offset ++ 0#1)) = .jal _ _
      rw [signExtend_append _ (by decide) (by decide), ← cj_imm_cjType 0b001 _
        (low_append 1 offset (by decide))]
      simp only [decode_compressed, cjType, mask_quadrant, c_funct3_half,
        BitVec.reduceSetWidth]
  | li rd imm =>
      show decode_compressed (ciType 0b010 imm rd 0b01) = .addi _ _ _
      rw [signExtend_signExtend _ (by decide) (by decide), ← ci_imm_ciType 0b010 rd 0b01]
      simp only [decode_compressed, ciType, c_rd_crType]
      simp only [crType, mask_quadrant, c_funct3_half, BitVec.reduceSetWidth]
  | addi16sp nzimm =>
      have himm := ci_addi16sp_imm_addi16spType (nzimm ++ 0#4)
        (low_append 4 nzimm (by decide)) (low_append 4 nzimm (by decide))
        (low_append 4 nzimm (by decide)) (low_append 4 nzimm (by decide))
      have hne := nzimm_ne_zero nzimm h
      rw [← himm] at hne
      show decode_compressed (addi16spType (nzimm ++ 0#4)) = .addi 2 2 _
      rw [signExtend_signExtend _ (by decide) (by decide), ← himm]
      simp only [decode_compressed, addi16spType, c_rd_crType]
      simp only [crType, mask_quadrant, c_funct3_half, BitVec.reduceSetWidth]
      exact if_neg hne
  | lui rd nzimm =>
      show decode_compressed (ciType 0b011 nzimm rd 0b01) = .lui _ _
      rw [signExtend_shift, ← ci_imm_ciType 0b011 rd 0b01]
      simp only [decode_compressed, ciType, c_rd_crType]
      simp only [crType, mask_quadrant, c_funct3_half, BitVec.reduceSetWidth]
      split
      · exact absurd rfl h
      · rfl
  | srli rd' shamt =>
      refine ⟨_, shamt_signExtend shamt, ?_⟩
      show decode_compressed (cbAluType (shamt.setWidth 6) 0b00 rd') = .srli _ _ _
      rw [← ci_imm_cbAluType _ 0b00 rd']
      simp only [decode_compressed, cbAluType, mask_quadrant, c_funct3_half, c_rs1s_half,
        funct2_half, BitVec.reduceSetWidth]
  | srai rd' shamt =>
      refine ⟨_, shamt_signExtend shamt, ?_⟩
      show decode_compressed (cbAluType (shamt.setWidth 6) 0b01 rd') = .srai _ _ _
      rw [← ci_imm_cbAluType _ 0b01 rd']
      simp only [decode_compressed, cbAluType, mask_quadrant, c_funct3_half, c_rs1s_half,
        funct2_half, BitVec.reduceSetWidth]
  | andi rd' imm =>
      show decode_compressed (cbAluType imm 0b10 rd') = .andi _ _ _
      rw [signExtend_signExtend _ (by decide) (by decide), ← ci_imm_cbAluType _ 0b10 rd']
      simp only [decode_compressed, cbAluType, mask_quadrant, c_funct3_half, c_rs1s_half,
        funct2_half, BitVec.reduceSetWidth]
  | sub rd' rs2' | xor rd' rs2' | or rd' rs2' | and rd' rs2' =>
      simp only [Denotes, CInstr.encode, CInstr.expand, aluOp, caType, decode_compressed,
        mask_quadrant, c_funct3_half, c_rs1s_half, c_rs2s_half, funct2_half, b6_5_half,
        mask_b12, BitVec.reduceSetWidth]
      rfl
  | j offset =>
      show decode_compressed (cjType 0b101 (offset ++ 0#1)) = .jal _ _
      rw [signExtend_append _ (by decide) (by decide), ← cj_imm_cjType 0b101 _
        (low_append 1 offset (by decide))]
      simp only [decode_compressed, cjType, mask_quadrant, c_funct3_half,
        BitVec.reduceSetWidth]
  | beqz rs1' offset =>
      show decode_compressed (cbType 0b110 (offset ++ 0#1) rs1') = .beq _ _ _
      rw [signExtend_append _ (by decide) (by decide), ← cb_imm_cbType 0b110 _ rs1'
        (low_append 1 offset (by decide))]
      simp only [decode_compressed, cbType, mask_quadrant, c_funct3_half, c_rs1s_half,
        BitVec.reduceSetWidth]
  | bnez rs1' offset =>
      show decode_compressed (cbType 0b111 (offset ++ 0#1) rs1') = .bne _ _ _
      rw [signExtend_append _ (by decide) (by decide), ← cb_imm_cbType 0b111 _ rs1'
        (low_append 1 offset (by decide))]
      simp only [decode_compressed, cbType, mask_quadrant, c_funct3_half, c_rs1s_half,
        BitVec.reduceSetWidth]
  | slli rd shamt =>
      refine ⟨_, shamt_signExtend shamt, ?_⟩
      show decode_compressed (ciType 0b000 (shamt.setWidth 6) rd 0b10) = .slli _ _ _
      rw [← ci_imm_ciType 0b000 rd 0b10]
      simp only [decode_compressed, ciType, c_rd_crType]
      simp only [crType, mask_quadrant, c_funct3_half, BitVec.reduceSetWidth]
      split
      · exact absurd rfl h
      · rfl
  | lwsp rd uimm =>
      show decode_compressed (lwspType (uimm ++ 0#2) rd) = .lw _ _ _
      rw [signExtend_setWidth _ (by decide), ← ci_lwsp_imm_lwspType _ rd
        (low_append 2 uimm (by decide)) (low_append 2 uimm (by decide))]
      simp only [decode_compressed, lwspType, c_rd_crType]
      simp only [crType, mask_quadrant, c_funct3_half, BitVec.reduceSetWidth]
      split
      · exact absurd rfl h
      · rfl
  | jr rs1 =>
      show decode_compressed (crType 0b100 0 rs1 0 0b10) = .jalr 0 rs1 0
      simp only [decode_compressed, c_rd_crType, c_rs1_crType, c_rs2_crType]
      simp only [crType, mask_quadrant, c_funct3_half, b12_half, BitVec.reduceSetWidth]
      show (match rs1 with | 0#5 => Op.unknown | _ => .jalr 0 rs1 0) = _
      split
      · exact absurd rfl h
      · rfl
  | mv rd rs2 =>
      show decode_compressed (crType 0b100 0 rd rs2 0b10) = .add rd 0 rs2
      simp only [decode_compressed, c_rd_crType, c_rs1_crType, c_rs2_crType]
      simp only [crType, mask_quadrant, c_funct3_half, b12_half, BitVec.reduceSetWidth]
      split
      · exact absurd rfl h
      · rfl
  | ebreak => rfl
  | jalr rs1 =>
      show decode_compressed (crType 0b100 1 rs1 0 0b10) = .jalr 1 rs1 0
      simp only [decode_compressed, c_rd_crType, c_rs1_crType, c_rs2_crType]
      simp only [crType, mask_quadrant, c_funct3_half, b12_half, BitVec.reduceSetWidth]
      show (match rs1 with | 0#5 => Op.break | _ => .jalr 1 rs1 0) = _
      split
      · exact absurd rfl h
      · rfl
  | add rd rs2 =>
      show decode_compressed (crType 0b100 1 rd rs2 0b10) = .add rd rd rs2
      simp only [decode_compressed, c_rd_crType, c_rs1_crType, c_rs2_crType]
      simp only [crType, mask_quadrant, c_funct3_half, b12_half, BitVec.reduceSetWidth]
      show (match rs2 with | 0#5 => _ | _ => Op.add rd rd rs2) = _
      split
      · exact absurd rfl h
      · rfl
  | swsp rs2 uimm =>
      show decode_compressed (swspType (uimm ++ 0#2) rs2) = .sw _ _ _
      rw [signExtend_setWidth _ (by decide), ← css_swsp_imm_swspType _ rs2
        (low_append 2 uimm (by decide)) (low_append 2 uimm (by decide))]
      simp only [decode_compressed, swspType, c_rs2_crType]
      simp only [crType, mask_quadrant, c_funct3_half, BitVec.reduceSetWidth]

/-! ## Words as they are fetched -/

theorem encode_low (i : Instr) : i.encode &&& 0x3 = 0x3 := by
  have hlow : ∀ funct7 b a funct3 d opcode,
      word funct7 b a funct3 d opcode &&& 0x3 = (opcode &&& 0x3).setWidth 32 := by
    intro funct7 b a funct3 d opcode
    ext i hi
    interval_cases i <;> simp
  cases i <;> exact hlow _ _ _ _ _ _

theorem compressed_low (c : CInstr) : c.encode &&& 0b11 ≠ 0b11 := by
  cases c <;> exact (rv32c.mask_quadrant _ _ _ _ _ _ _).trans_ne (by decide)

theorem decode_full (i : Instr) : ∃ op, decode i.encode = (op, 4) ∧ Denotes op i :=
  ⟨_, if_neg (not_not_intro (encode_low i)), decode_uncompressed_encode i⟩

/-- The upper half of the word does not matter. -/
theorem decode_readable {c : CInstr} (hc : Readable c) {inst : U32}
    (h : inst.setWidth 16 = c.encode) : ∃ op, decode inst = (op, 2) ∧ Denotes op c.expand := by
  have hlow : inst &&& 0x3 ≠ 0x3 := by
    intro hthree
    apply compressed_low c
    rw [← h]
    calc inst.setWidth 16 &&& 0b11 = (inst &&& 0x3).setWidth 16 := by
          rw [BitVec.setWidth_and]; rfl
      _ = 0b11 := by rw [hthree]; rfl
  refine ⟨_, if_pos hlow, ?_⟩
  rw [h]
  exact decode_compressed_readable c hc

theorem decode_half {c : CInstr} (hc : c.Legal) {inst : U32}
    (h : inst.setWidth 16 = c.encode) : ∃ op, decode inst = (op, 2) ∧ Denotes op c.expand :=
  decode_readable (.of_legal hc) h

end Vanadium
