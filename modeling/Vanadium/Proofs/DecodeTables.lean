import Vanadium.Common.Cpu
import Vanadium.Lib.Rv32.Tables
import Vanadium.Proofs.Decode

/-!
# The decoder against the tables

What the decoder makes of a word that is not the encoding of an instruction.
Of the 32-bit words it refuses exactly those that the tables leave out. Of the
16-bit words it takes some reserved ones for instructions, and refuses one kind
of hint.
-/

namespace Vanadium

open Lib Rv32

/-! ## 32-bit words -/

section
variable {w : U32} {funct7 : BitVec 7} {funct3 : BitVec 3} {opcode : BitVec 7}

theorem of_opcode (h : w &&& 0x7f = word 0 0 0 0 0 opcode) :
    ∃ funct7 b a funct3 d, w = word funct7 b a funct3 d opcode := by
  obtain ⟨funct7, b, a, funct3, d, op, rfl⟩ := word_fields w
  have hop := congrArg (BitVec.extractLsb' 0 7) ((mask_opcode ..).symm.trans h)
  rw [word_opcode, word_opcode] at hop
  exact ⟨funct7, b, a, funct3, d, by rw [hop]⟩

theorem of_funct3 (h : w &&& 0x707f = word 0 0 0 funct3 0 opcode) :
    ∃ funct7 b a d, w = word funct7 b a funct3 d opcode := by
  obtain ⟨funct7, b, a, f3, d, op, rfl⟩ := word_fields w
  have hmask := (mask_funct3 ..).symm.trans h
  have hop := congrArg (BitVec.extractLsb' 0 7) hmask
  have hf3 := congrArg (BitVec.extractLsb' 12 3) hmask
  rw [word_opcode, word_opcode] at hop
  rw [word_funct3, word_funct3] at hf3
  exact ⟨funct7, b, a, d, by rw [hop, hf3]⟩

theorem of_funct7 (h : w &&& 0xfe00707f = word funct7 0 0 funct3 0 opcode) :
    ∃ b a d, w = word funct7 b a funct3 d opcode := by
  obtain ⟨f7, b, a, f3, d, op, rfl⟩ := word_fields w
  have hmask := (mask_funct7 ..).symm.trans h
  have hop := congrArg (BitVec.extractLsb' 0 7) hmask
  have hf3 := congrArg (BitVec.extractLsb' 12 3) hmask
  have hf7 := congrArg (BitVec.extractLsb' 25 7) hmask
  rw [word_opcode, word_opcode] at hop
  rw [word_funct3, word_funct3] at hf3
  rw [word_funct7, word_funct7] at hf7
  exact ⟨b, a, d, by rw [hop, hf3, hf7]⟩

/-- The upper five bits of `funct7` are the function of an atomic operation. -/
theorem of_funct5 (funct5 : BitVec 5)
    (h : w &&& 0xf800707f = word (funct5 ++ 0#2) 0 0 0b010 0 0b0101111) :
    ∃ aq rl b a d, w = aType funct5 aq rl b a d := by
  obtain ⟨f7, b, a, f3, d, op, rfl⟩ := word_fields w
  have hmask := (mask_funct5 ..).symm.trans h
  have hop := congrArg (BitVec.extractLsb' 0 7) hmask
  have hf3 := congrArg (BitVec.extractLsb' 12 3) hmask
  have hf7 := congrArg (BitVec.extractLsb' 25 7) hmask
  rw [word_opcode, word_opcode] at hop
  rw [word_funct3, word_funct3] at hf3
  rw [word_funct7, word_funct7] at hf7
  have hbits : ∀ i < 5, f7.getLsbD (i + 2) = funct5.getLsbD i := by
    intro i hi
    have hbit := congrArg (fun x => x.getLsbD (i + 2)) hf7
    rw [BitVec.getLsbD_and, BitVec.getLsbD_append, if_neg (by omega), Nat.add_sub_cancel] at hbit
    have hone : (0b1111100 : BitVec 7).getLsbD (i + 2) = true := by
      interval_cases i <;> rfl
    rwa [hone, Bool.and_true] at hbit
  obtain ⟨aq, rl, ha⟩ := aType_fields f7 b a d funct5 hbits
  exact ⟨aq, rl, b, a, d, by rw [ha, hop, hf3]⟩

end

/-- A 32-bit word with a meaning. -/
def Full (w : U32) : Prop := ∃ i : Instr, i.encode = w

section
variable {w : U32}

theorem full_upper (h : w &&& 0x7f = word 0 0 0 0 0 0b0110111) : Full w := by
  obtain ⟨funct7, b, a, funct3, d, rfl⟩ := of_opcode h
  obtain ⟨imm, himm⟩ := uType_fields funct7 b a funct3 d 0b0110111
  exact ⟨.lui d imm, himm⟩

theorem full_auipc (h : w &&& 0x7f = word 0 0 0 0 0 0b0010111) : Full w := by
  obtain ⟨funct7, b, a, funct3, d, rfl⟩ := of_opcode h
  obtain ⟨imm, himm⟩ := uType_fields funct7 b a funct3 d 0b0010111
  exact ⟨.auipc d imm, himm⟩

theorem full_jal (h : w &&& 0x7f = word 0 0 0 0 0 0b1101111) : Full w := by
  obtain ⟨funct7, b, a, funct3, d, rfl⟩ := of_opcode h
  obtain ⟨offset, hoffset⟩ := jType_fields funct7 b a funct3 d 0b1101111
  exact ⟨.jal d offset, hoffset⟩

theorem full_jalr (h : w &&& 0x707f = word 0 0 0 0b000 0 0b1100111) : Full w := by
  obtain ⟨funct7, b, a, d, rfl⟩ := of_funct3 h
  obtain ⟨offset, hoffset⟩ := iType_fields funct7 b a 0b000 d 0b1100111
  exact ⟨.jalr d a offset, hoffset⟩

theorem full_branch (c : Cond) (h : w &&& 0x707f = word 0 0 0 c.funct3 0 0b1100011) : Full w := by
  obtain ⟨funct7, b, a, d, rfl⟩ := of_funct3 h
  obtain ⟨offset, hoffset⟩ := bType_fields funct7 b a c.funct3 d 0b1100011
  exact ⟨.branch c a b offset, hoffset⟩

theorem full_load (f : LoadOp) (h : w &&& 0x707f = word 0 0 0 f.funct3 0 0b0000011) : Full w := by
  obtain ⟨funct7, b, a, d, rfl⟩ := of_funct3 h
  obtain ⟨offset, hoffset⟩ := iType_fields funct7 b a f.funct3 d 0b0000011
  exact ⟨.load f d a offset, hoffset⟩

theorem full_store (f : StoreOp) (h : w &&& 0x707f = word 0 0 0 f.funct3 0 0b0100011) :
    Full w := by
  obtain ⟨funct7, b, a, d, rfl⟩ := of_funct3 h
  obtain ⟨offset, hoffset⟩ := sType_fields funct7 b a f.funct3 d 0b0100011
  exact ⟨.store f a b offset, hoffset⟩

theorem full_imm (f : ImmOp) (h : w &&& 0x707f = word 0 0 0 f.funct3 0 0b0010011) : Full w := by
  obtain ⟨funct7, b, a, d, rfl⟩ := of_funct3 h
  obtain ⟨imm, himm⟩ := iType_fields funct7 b a f.funct3 d 0b0010011
  exact ⟨.opImm f d a imm, himm⟩

theorem full_shift (f : ShiftOp)
    (h : w &&& 0xfe00707f = word f.funct.1 0 0 f.funct.2 0 0b0010011) : Full w := by
  obtain ⟨b, a, d, rfl⟩ := of_funct7 h
  exact ⟨.shiftImm f d a b, rfl⟩

theorem full_alu (f : AluOp)
    (h : w &&& 0xfe00707f = word f.funct.1 0 0 f.funct.2 0 0b0110011) : Full w := by
  obtain ⟨b, a, d, rfl⟩ := of_funct7 h
  exact ⟨.alu f d a b, rfl⟩

theorem full_lr (h : w &&& 0xf800707f = word (0b00010#5 ++ 0#2) 0 0 0b010 0 0b0101111)
    (hb : rs2 w = 0) : Full w := by
  obtain ⟨aq, rl, b, a, d, rfl⟩ := of_funct5 0b00010 h
  obtain rfl : b = 0 := (rs2_word ..).symm.trans hb
  exact ⟨.lr aq rl d a, rfl⟩

theorem full_sc (h : w &&& 0xf800707f = word (0b00011#5 ++ 0#2) 0 0 0b010 0 0b0101111) :
    Full w := by
  obtain ⟨aq, rl, b, a, d, rfl⟩ := of_funct5 0b00011 h
  exact ⟨.sc aq rl d a b, rfl⟩

theorem full_amo (f : AmoOp)
    (h : w &&& 0xf800707f = word (f.funct5 ++ 0#2) 0 0 0b010 0 0b0101111) : Full w := by
  obtain ⟨aq, rl, b, a, d, rfl⟩ := of_funct5 f.funct5 h
  exact ⟨.amo f aq rl d a b, rfl⟩

theorem full_fence (h : w &&& 0x707f = word 0 0 0 0b000 0 0b0001111) : Full w := by
  obtain ⟨funct7, b, a, d, rfl⟩ := of_funct3 h
  obtain ⟨imm, himm⟩ := iType_fields funct7 b a 0b000 d 0b0001111
  refine ⟨.fence (imm.extractLsb' 8 4) (imm.extractLsb' 4 4) (imm.extractLsb' 0 4) d a, ?_⟩
  rw [← himm, Instr.encode]
  congr 1
  ext i hi
  simp only [BitVec.getElem_append, BitVec.getElem_extractLsb']
  grind

end

/-- What is not the encoding of an instruction is unknown. -/
theorem decode_uncompressed_total (w : U32) : decode_uncompressed w = .unknown ∨ Full w := by
  unfold decode_uncompressed
  split
  · next h => exact .inr (full_upper h)
  · next h => exact .inr (full_auipc h)
  · next h => exact .inr (full_jal h)
  · split
    · next h => exact .inr (full_jalr h)
    · exact .inl rfl
  · split
    · next h => exact .inr (full_branch .eq h)
    · next h => exact .inr (full_branch .ne h)
    · next h => exact .inr (full_branch .lt h)
    · next h => exact .inr (full_branch .ge h)
    · next h => exact .inr (full_branch .ltu h)
    · next h => exact .inr (full_branch .geu h)
    · exact .inl rfl
  · split
    · next h => exact .inr (full_load .lb h)
    · next h => exact .inr (full_load .lh h)
    · next h => exact .inr (full_load .lw h)
    · next h => exact .inr (full_load .lbu h)
    · next h => exact .inr (full_load .lhu h)
    · exact .inl rfl
  · split
    · next h => exact .inr (full_store .sb h)
    · next h => exact .inr (full_store .sh h)
    · next h => exact .inr (full_store .sw h)
    · exact .inl rfl
  · split
    · next h => exact .inr (full_imm .addi h)
    · next h => exact .inr (full_imm .slti h)
    · next h => exact .inr (full_imm .sltiu h)
    · next h => exact .inr (full_imm .xori h)
    · next h => exact .inr (full_imm .ori h)
    · next h => exact .inr (full_imm .andi h)
    · split
      · next h => exact .inr (full_shift .slli h)
      · exact .inl rfl
    · split
      · next h => exact .inr (full_shift .srli h)
      · next h => exact .inr (full_shift .srai h)
      · exact .inl rfl
    · exact .inl rfl
  · split
    · next h => exact .inr (full_alu .add h)
    · next h => exact .inr (full_alu .sub h)
    · next h => exact .inr (full_alu .sll h)
    · next h => exact .inr (full_alu .slt h)
    · next h => exact .inr (full_alu .sltu h)
    · next h => exact .inr (full_alu .xor h)
    · next h => exact .inr (full_alu .srl h)
    · next h => exact .inr (full_alu .sra h)
    · next h => exact .inr (full_alu .or h)
    · next h => exact .inr (full_alu .and h)
    · next h => exact .inr (full_alu .mul h)
    · next h => exact .inr (full_alu .mulh h)
    · next h => exact .inr (full_alu .mulhsu h)
    · next h => exact .inr (full_alu .mulhu h)
    · next h => exact .inr (full_alu .div h)
    · next h => exact .inr (full_alu .divu h)
    · next h => exact .inr (full_alu .rem h)
    · next h => exact .inr (full_alu .remu h)
    · exact .inl rfl
  · split
    · split
      · next h =>
          split
          · next hb => exact .inr (full_lr h hb)
          · exact .inl rfl
      · next h => exact .inr (full_sc h)
      · next h => exact .inr (full_amo .swap h)
      · next h => exact .inr (full_amo .add h)
      · next h => exact .inr (full_amo .xor h)
      · next h => exact .inr (full_amo .and h)
      · next h => exact .inr (full_amo .or h)
      · next h => exact .inr (full_amo .min h)
      · next h => exact .inr (full_amo .max h)
      · next h => exact .inr (full_amo .minu h)
      · next h => exact .inr (full_amo .maxu h)
      · exact .inl rfl
    · exact .inl rfl
  · split
    · next h => exact .inr (full_fence h)
    · exact .inl rfl
  · split
    · next h => exact .inr ⟨.ecall, ((BitVec.and_allOnes ..).symm.trans h).symm⟩
    · next h => exact .inr ⟨.ebreak, ((BitVec.and_allOnes ..).symm.trans h).symm⟩
    · exact .inl rfl
  · exact .inl rfl

/-! ## 16-bit words -/

/-- The 16-bit words the decoder makes something of that the tables do not say. -/
inductive Misread : BitVec 16 → Prop
  /-- `C.LUI` with a zero immediate is reserved. -/
  | lui (rd : Reg) : rd ≠ 2 → Misread (ciType 0b011 0 rd 0b01)
  /-- `C.SRLI` and `C.SRAI` by 32 or more are reserved. -/
  | shift (imm : BitVec 6) (funct2 : BitVec 2) (rd' : BitVec 3) : imm.getLsbD 5 = true →
      funct2 = 0b00 ∨ funct2 = 0b01 → Misread (cbAluType imm funct2 rd')
  /-- So is `C.SLLI`. -/
  | slli (imm : BitVec 6) (rd : Reg) : imm.getLsbD 5 = true → rd ≠ 0 →
      Misread (ciType 0b000 imm rd 0b10)
  /-- `C.SLLI` of `x0` is a hint. -/
  | hint (shamt : BitVec 5) : Misread (ciType 0b000 (shamt.setWidth 6) 0 0b10)

/-- A 16-bit word with a meaning. -/
def Half (h : BitVec 16) : Prop := ∃ c : CInstr, (c.Legal ∨ c.Hint) ∧ c.encode = h

section
variable {h : BitVec 16} {funct3 : BitVec 3} {op : BitVec 2}

open rv32c

theorem of_quadrant (hq : h &&& 0b11 = op.setWidth 16) (hf : c_funct3 h = funct3.setWidth 16) :
    ∃ b12 b11_10 b9_7 b6_5 b4_2, h = half funct3 b12 b11_10 b9_7 b6_5 b4_2 op := by
  obtain ⟨f3, b12, b11_10, b9_7, b6_5, b4_2, op', rfl⟩ := half_fields h
  have hop := congrArg (BitVec.setWidth 2) ((mask_quadrant ..).symm.trans hq)
  have hf3 := congrArg (BitVec.setWidth 3) ((c_funct3_half ..).symm.trans hf)
  rw [BitVec.setWidth_setWidth_of_le _ (by omega), BitVec.setWidth_setWidth_of_le _ (by omega),
    BitVec.setWidth_eq, BitVec.setWidth_eq] at hop hf3
  exact ⟨b12, b11_10, b9_7, b6_5, b4_2, by rw [hop, hf3]⟩

theorem of_registers (hq : h &&& 0b11 = op.setWidth 16) (hf : c_funct3 h = funct3.setWidth 16) :
    ∃ b12, h = crType funct3 b12 (c_rd h) (c_rs2 h) op := by
  obtain ⟨b12, b11_10, b9_7, b6_5, b4_2, rfl⟩ := of_quadrant hq hf
  obtain ⟨rd, rs2, hr⟩ := crType_fields funct3 b12 b11_10 b9_7 b6_5 b4_2 op
  rw [← hr, c_rd_crType, c_rs2_crType]
  exact ⟨b12, rfl⟩

theorem of_immediate (hq : h &&& 0b11 = op.setWidth 16) (hf : c_funct3 h = funct3.setWidth 16) :
    ∃ imm, h = ciType funct3 imm (c_rd h) op := by
  obtain ⟨b12, hr⟩ := of_registers hq hf
  obtain ⟨imm, -, himm⟩ := ciType_fields funct3 b12 op (c_rd h) (c_rs2 h)
  exact ⟨imm, hr.trans himm.symm⟩

/-! One lemma for each instruction the decoder can find. -/

theorem half_addi4spn (hq : h &&& 0b11 = (0b00 : BitVec 2).setWidth 16)
    (hf : c_funct3 h = (0b000 : BitVec 3).setWidth 16) (hne : i32 (ciw_addi4spn_imm h) ≠ 0) : Half h := by
  obtain ⟨b12, b11_10, b9_7, b6_5, b4_2, rfl⟩ := of_quadrant hq hf
  obtain ⟨nzuimm, himm⟩ := addi4spnType_fields b12 b11_10 b9_7 b6_5 b4_2
  refine ⟨.addi4spn b4_2 nzuimm, .inl fun hzero => hne ?_, himm⟩
  rw [← himm, ciw_addi4spn_imm_addi4spnType _ _ (low_append 2 nzuimm (by decide))
    (low_append 2 nzuimm (by decide)), hzero]
  rfl

theorem half_lw (hq : h &&& 0b11 = (0b00 : BitVec 2).setWidth 16)
    (hf : c_funct3 h = (0b010 : BitVec 3).setWidth 16) : Half h := by
  obtain ⟨b12, b11_10, b9_7, b6_5, b4_2, rfl⟩ := of_quadrant hq hf
  obtain ⟨uimm, himm⟩ := clType_fields 0b010 b12 b11_10 b9_7 b6_5 b4_2
  exact ⟨.lw b4_2 b9_7 uimm, .inl trivial, himm⟩

theorem half_sw (hq : h &&& 0b11 = (0b00 : BitVec 2).setWidth 16)
    (hf : c_funct3 h = (0b110 : BitVec 3).setWidth 16) : Half h := by
  obtain ⟨b12, b11_10, b9_7, b6_5, b4_2, rfl⟩ := of_quadrant hq hf
  obtain ⟨uimm, himm⟩ := clType_fields 0b110 b12 b11_10 b9_7 b6_5 b4_2
  exact ⟨.sw b9_7 b4_2 uimm, .inl trivial, himm⟩

theorem half_addi (hq : h &&& 0b11 = (0b01 : BitVec 2).setWidth 16)
    (hf : c_funct3 h = (0b000 : BitVec 3).setWidth 16) : Half h := by
  obtain ⟨imm, himm⟩ := of_immediate hq hf
  by_cases hrd : c_rd h = 0
  · by_cases hzero : imm = 0
    · exact ⟨.nop, .inl trivial, by rw [himm, hrd, hzero]; rfl⟩
    · exact ⟨.addi (c_rd h) imm, .inr (.inl ⟨hrd, hzero⟩), himm.symm⟩
  · by_cases hzero : imm = 0
    · exact ⟨.addi (c_rd h) imm, .inr (.inr ⟨hrd, hzero⟩), himm.symm⟩
    · exact ⟨.addi (c_rd h) imm, .inl ⟨hrd, hzero⟩, himm.symm⟩

theorem half_jump (funct3 : BitVec 3) (c : BitVec 11 → CInstr) (hq : h &&& 0b11 = (0b01 : BitVec 2).setWidth 16)
    (hf : c_funct3 h = funct3.setWidth 16) (hlegal : ∀ offset, (c offset).Legal)
    (hc : ∀ offset, (c offset).encode = cjType funct3 (offset ++ 0#1)) : Half h := by
  obtain ⟨b12, b11_10, b9_7, b6_5, b4_2, rfl⟩ := of_quadrant hq hf
  obtain ⟨offset, hoffset⟩ := cjType_fields funct3 b12 b11_10 b9_7 b6_5 b4_2
  exact ⟨c offset, .inl (hlegal offset), (hc offset).trans hoffset⟩

theorem half_branch (funct3 : BitVec 3) (c : BitVec 3 → BitVec 8 → CInstr)
    (hq : h &&& 0b11 = (0b01 : BitVec 2).setWidth 16)
    (hf : c_funct3 h = funct3.setWidth 16) (hlegal : ∀ rs1' offset, (c rs1' offset).Legal)
    (hc : ∀ rs1' offset, (c rs1' offset).encode = cbType funct3 (offset ++ 0#1) rs1') :
    Half h := by
  obtain ⟨b12, b11_10, b9_7, b6_5, b4_2, rfl⟩ := of_quadrant hq hf
  obtain ⟨offset, hoffset⟩ := cbType_fields funct3 b12 b11_10 b9_7 b6_5 b4_2
  exact ⟨c b9_7 offset, .inl (hlegal b9_7 offset), (hc b9_7 offset).trans hoffset⟩

theorem half_li (hq : h &&& 0b11 = (0b01 : BitVec 2).setWidth 16)
    (hf : c_funct3 h = (0b010 : BitVec 3).setWidth 16) : Half h := by
  obtain ⟨imm, himm⟩ := of_immediate hq hf
  by_cases hrd : c_rd h = 0
  · exact ⟨.li (c_rd h) imm, .inr hrd, himm.symm⟩
  · exact ⟨.li (c_rd h) imm, .inl hrd, himm.symm⟩

theorem half_addi16sp (hq : h &&& 0b11 = (0b01 : BitVec 2).setWidth 16)
    (hf : c_funct3 h = (0b011 : BitVec 3).setWidth 16) (hrd : c_rd h = 2) (hne : ci_addi16sp_imm h ≠ 0) :
    Half h := by
  obtain ⟨b12, hr⟩ := of_registers hq hf
  obtain ⟨nzimm, himm⟩ := addi16spType_fields b12 (c_rs2 h)
  rw [hrd] at hr
  refine ⟨.addi16sp nzimm, .inl fun hzero => hne ?_, himm.trans hr.symm⟩
  rw [hr, ← himm, ci_addi16sp_imm_addi16spType _ (low_append 4 nzimm (by decide))
    (low_append 4 nzimm (by decide)) (low_append 4 nzimm (by decide))
    (low_append 4 nzimm (by decide)), hzero]
  rfl

theorem half_lui (hq : h &&& 0b11 = (0b01 : BitVec 2).setWidth 16)
    (hf : c_funct3 h = (0b011 : BitVec 3).setWidth 16) (hrd : c_rd h ≠ 2) : Half h ∨ Misread h := by
  obtain ⟨imm, himm⟩ := of_immediate hq hf
  by_cases hzero : imm = 0
  · refine .inr ?_
    rw [himm, hzero]
    exact .lui _ hrd
  · by_cases hz : c_rd h = 0
    · exact .inl ⟨.lui (c_rd h) imm, .inr ⟨hz, hzero⟩, himm.symm⟩
    · exact .inl ⟨.lui (c_rd h) imm, .inl ⟨hz, hrd, hzero⟩, himm.symm⟩

/-- The fields of an operation on a register of the three-bit fields. -/
theorem of_alu (hq : h &&& 0b11 = (0b01 : BitVec 2).setWidth 16)
    (hf : c_funct3 h = (0b100 : BitVec 3).setWidth 16) {funct2 : BitVec 2}
    (h2 : (h >>> 10) &&& 0b11 = funct2.setWidth 16) :
    ∃ b12 b9_7 b6_5 b4_2, h = half 0b100 b12 funct2 b9_7 b6_5 b4_2 0b01 := by
  obtain ⟨b12, b11_10, b9_7, b6_5, b4_2, rfl⟩ := of_quadrant hq hf
  have hf2 := congrArg (BitVec.setWidth 2) ((funct2_half ..).symm.trans h2)
  rw [BitVec.setWidth_setWidth_of_le _ (by omega), BitVec.setWidth_setWidth_of_le _ (by omega),
    BitVec.setWidth_eq, BitVec.setWidth_eq] at hf2
  exact ⟨b12, b9_7, b6_5, b4_2, by rw [hf2]⟩

theorem half_shift (funct2 : BitVec 2) (c : BitVec 3 → BitVec 5 → CInstr)
    (hq : h &&& 0b11 = (0b01 : BitVec 2).setWidth 16)
    (hf : c_funct3 h = (0b100 : BitVec 3).setWidth 16)
    (h2 : (h >>> 10) &&& 0b11 = funct2.setWidth 16) (hfunct : funct2 = 0b00 ∨ funct2 = 0b01)
    (hc : ∀ rd' shamt, ((c rd' shamt).Legal ∨ (c rd' shamt).Hint) ∧
      (c rd' shamt).encode = cbAluType (shamt.setWidth 6) funct2 rd') : Half h ∨ Misread h := by
  obtain ⟨b12, b9_7, b6_5, b4_2, rfl⟩ := of_alu hq hf h2
  obtain ⟨imm, -, himm⟩ := cbAluType_fields b12 funct2 b9_7 b6_5 b4_2
  rw [← himm]
  by_cases hwide : imm.getLsbD 5 = true
  · exact .inr (.shift imm funct2 b9_7 hwide hfunct)
  · obtain ⟨shamt, rfl⟩ := shamt_fields imm (by simpa using hwide)
    exact .inl ⟨c b9_7 shamt, (hc b9_7 shamt).1, (hc b9_7 shamt).2⟩

theorem half_andi (hq : h &&& 0b11 = (0b01 : BitVec 2).setWidth 16)
    (hf : c_funct3 h = (0b100 : BitVec 3).setWidth 16)
    (h2 : (h >>> 10) &&& 0b11 = (0b10 : BitVec 2).setWidth 16) : Half h := by
  obtain ⟨b12, b9_7, b6_5, b4_2, rfl⟩ := of_alu hq hf h2
  obtain ⟨imm, -, himm⟩ := cbAluType_fields b12 0b10 b9_7 b6_5 b4_2
  exact ⟨.andi b9_7 imm, .inl trivial, himm⟩

theorem half_slli (hq : h &&& 0b11 = (0b10 : BitVec 2).setWidth 16)
    (hf : c_funct3 h = (0b000 : BitVec 3).setWidth 16) (hrd : c_rd h ≠ 0) :
    Half h ∨ Misread h := by
  obtain ⟨imm, himm⟩ := of_immediate hq hf
  rw [himm]
  by_cases hwide : imm.getLsbD 5 = true
  · exact .inr (.slli imm _ hwide hrd)
  · obtain ⟨shamt, rfl⟩ := shamt_fields imm (by simpa using hwide)
    refine .inl ⟨.slli (c_rd h) shamt, ?_, rfl⟩
    by_cases hzero : shamt = 0
    · exact .inr (.inr hzero)
    · exact .inl ⟨hrd, hzero⟩

theorem half_lwsp (hq : h &&& 0b11 = (0b10 : BitVec 2).setWidth 16)
    (hf : c_funct3 h = (0b010 : BitVec 3).setWidth 16) (hrd : c_rd h ≠ 0) : Half h := by
  obtain ⟨b12, hr⟩ := of_registers hq hf
  obtain ⟨uimm, himm⟩ := lwspType_fields b12 (c_rd h) (c_rs2 h)
  exact ⟨.lwsp (c_rd h) uimm, .inl hrd, himm.trans hr.symm⟩

theorem half_swsp (hq : h &&& 0b11 = (0b10 : BitVec 2).setWidth 16)
    (hf : c_funct3 h = (0b110 : BitVec 3).setWidth 16) : Half h := by
  obtain ⟨b12, hr⟩ := of_registers hq hf
  obtain ⟨uimm, himm⟩ := swspType_fields b12 (c_rd h) (c_rs2 h)
  exact ⟨.swsp (c_rs2 h) uimm, .inl trivial, himm.trans hr.symm⟩

/-- The moves, sums and jumps, which bit 12 tells apart. -/
theorem of_move (hq : h &&& 0b11 = (0b10 : BitVec 2).setWidth 16)
    (hf : c_funct3 h = (0b100 : BitVec 3).setWidth 16) :
    h = crType 0b100 (((h >>> 12) &&& 1).setWidth 1) (c_rd h) (c_rs2 h) 0b10 := by
  obtain ⟨b12, hr⟩ := of_registers hq hf
  rw [hr, c_rd_crType, c_rs2_crType]
  congr 1
  rw [crType, b12_half, BitVec.setWidth_setWidth_of_le _ (by omega), BitVec.setWidth_eq]

end

theorem one_bit : ∀ x : BitVec 1, x = 0 ∨ x = 1 := by decide

theorem two_bits : ∀ x : BitVec 2, x = 0 ∨ x = 1 ∨ x = 2 ∨ x = 3 := by decide

/-- The arithmetic on two registers of the three-bit fields. -/
theorem half_ca {h : BitVec 16} (hq : h &&& 0b11 = (0b01 : BitVec 2).setWidth 16)
    (hf : rv32c.c_funct3 h = (0b100 : BitVec 3).setWidth 16)
    (h2 : (h >>> 10) &&& 0b11 = (0b11 : BitVec 2).setWidth 16) (h12 : h &&& 0x1000 = 0) :
    Half h := by
  obtain ⟨b12, b9_7, b6_5, b4_2, rfl⟩ := of_alu hq hf h2
  have hb12 : b12 = 0 := by
    have hbit := congrArg (fun x => x.getLsbD 12) ((rv32c.mask_b12 ..).symm.trans h12)
    ext i hi
    obtain rfl : i = 0 := by omega
    simpa using hbit
  subst hb12
  obtain rfl | rfl | rfl | rfl := two_bits b6_5
  · exact ⟨.sub b9_7 b4_2, .inl trivial, rfl⟩
  · exact ⟨.xor b9_7 b4_2, .inl trivial, rfl⟩
  · exact ⟨.or b9_7 b4_2, .inl trivial, rfl⟩
  · exact ⟨.and b9_7 b4_2, .inl trivial, rfl⟩

open rv32c in
theorem decode_compressed_total (h : BitVec 16) :
    decode_compressed h = .unknown ∨ Half h ∨ Misread h := by
  unfold decode_compressed
  split
  · next hq =>
      split
      · next hf =>
          dsimp only
          split
          · exact .inl rfl
          · next hne => exact .inr (.inl (half_addi4spn hq hf hne))
      · next hf => exact .inr (.inl (half_lw hq hf))
      · next hf => exact .inr (.inl (half_sw hq hf))
      · exact .inl rfl
  · next hq =>
      split
      · next hf => exact .inr (.inl (half_addi hq hf))
      · next hf =>
          exact .inr (.inl (half_jump 0b001 .jal hq hf (fun _ => trivial) fun _ => rfl))
      · next hf => exact .inr (.inl (half_li hq hf))
      · next hf =>
          split
          · next hrd =>
              dsimp only
              split
              · exact .inl rfl
              · next hne => exact .inr (.inl (half_addi16sp hq hf hrd hne))
          · next hrd => exact .inr (half_lui hq hf hrd)
      · next hf =>
          split
          · next h2 =>
              refine .inr (half_shift 0b00 .srli hq hf h2 (.inl rfl) fun rd' shamt => ⟨?_, rfl⟩)
              exact (em (shamt = 0)).symm
          · next h2 =>
              refine .inr (half_shift 0b01 .srai hq hf h2 (.inr rfl) fun rd' shamt => ⟨?_, rfl⟩)
              exact (em (shamt = 0)).symm
          · next h2 => exact .inr (.inl (half_andi hq hf h2))
          · next h0 h1 h2 =>
              have h3 : (h >>> 10) &&& 0b11 = (0b11 : BitVec 2).setWidth 16 := by
                obtain ⟨_, _, b11_10, _, _, _, _, rfl⟩ := half_fields h
                rw [funct2_half] at h0 h1 h2 ⊢
                obtain rfl | rfl | rfl | rfl := two_bits b11_10
                · exact absurd rfl h0
                · exact absurd rfl h1
                · exact absurd rfl h2
                · rfl
              split
              · next h12 => exact .inr (.inl (half_ca hq hf h3 h12))
              · exact .inl rfl
      · next hf =>
          exact .inr (.inl (half_jump 0b101 .j hq hf (fun _ => trivial) fun _ => rfl))
      · next hf =>
          exact .inr (.inl (half_branch 0b110 .beqz hq hf (fun _ _ => trivial) fun _ _ => rfl))
      · next hf =>
          exact .inr (.inl (half_branch 0b111 .bnez hq hf (fun _ _ => trivial) fun _ _ => rfl))
      · exact .inl rfl
  · next hq =>
      split
      · next hf =>
          split
          · exact .inl rfl
          · next hrd => exact .inr (half_slli hq hf hrd)
      · next hf =>
          split
          · exact .inl rfl
          · next hrd => exact .inr (.inl (half_lwsp hq hf hrd))
      · next hf =>
          have hmove := of_move hq hf
          split
          · next h12 =>
              rw [h12] at hmove
              split
              · next hrs2 =>
                  rw [hrs2] at hmove
                  split
                  · exact .inl rfl
                  · next hrs1 => exact .inr (.inl ⟨.jr (c_rd h), .inl hrs1, hmove.symm⟩)
              · next hrs2 =>
                  refine .inr (.inl ⟨.mv (c_rd h) (c_rs2 h), ?_, hmove.symm⟩)
                  by_cases hrd : c_rd h = 0
                  · exact .inr ⟨hrd, hrs2⟩
                  · exact .inl ⟨hrd, hrs2⟩
          · next h12 =>
              have hone : (h >>> 12) &&& 1 = (1 : BitVec 1).setWidth 16 := by
                obtain ⟨_, b12, _, _, _, _, _, rfl⟩ := half_fields h
                rw [b12_half] at h12 ⊢
                obtain rfl | rfl := one_bit b12
                · exact absurd rfl h12
                · rfl
              rw [hone] at hmove
              split
              · next hrs2 =>
                  rw [hrs2] at hmove
                  split
                  · next hrs1 =>
                      have hrd : c_rd h = 0 := hrs1
                      rw [hrd] at hmove
                      exact .inr (.inl ⟨.ebreak, .inl trivial, hmove.symm⟩)
                  · next hrs1 => exact .inr (.inl ⟨.jalr (c_rd h), .inl hrs1, hmove.symm⟩)
              · next hrs2 =>
                  refine .inr (.inl ⟨.add (c_rd h) (c_rs2 h), ?_, hmove.symm⟩)
                  by_cases hrd : c_rd h = 0
                  · exact .inr ⟨hrd, hrs2⟩
                  · exact .inl ⟨hrd, hrs2⟩
      · next hf => exact .inr (.inl (half_swsp hq hf))
      · exact .inl rfl
  · exact .inl rfl

/-! ## Hints -/

/-- The operation advances the program counter and does nothing else. `x0` is zero
whenever an instruction begins. -/
def Op.Inert (op : Op) : Prop :=
  ∀ (M E : Type) [PagedMemory M] (cpu : Cpu M) (size : U32), cpu.reg 0 = 0 →
    (Cpu.execute_op (E := E) op size >>= fun pc_inc => Exec.modify (Cpu.advance pc_inc)) cpu =
      .ok () { cpu with pc := cpu.pc + size }

theorem set_reg_self {M : Type} (cpu : Cpu M) (r : RegNum) : cpu.set_reg r (cpu.reg r) = cpu := by
  simp [Cpu.set_reg, Cpu.reg]

/-- To write `x0`, or to write what is there, is to write nothing. -/
theorem Op.Inert.of_set {op : Op} (r : RegNum) (value : ∀ {M : Type}, Cpu M → U32)
    (hop : ∀ {M E : Type} [PagedMemory M] (size : U32), Cpu.execute_op (M := M) (E := E) op size =
      (Exec.modify (fun cpu => cpu.set_reg r (value cpu)) >>= fun _ => pure size))
    (hr : r = 0 ∨ ∀ {M : Type} (cpu : Cpu M), value cpu = cpu.reg r) : op.Inert := by
  intro M E _ cpu size hzero
  have hself : cpu.set_reg 0 0 = cpu := by
    have := set_reg_self cpu 0
    rwa [hzero] at this
  have hset : (cpu.set_reg r (value cpu)).set_reg 0 0 = cpu := by
    rcases hr with rfl | hvalue
    · rw [← hself]
      simp [Cpu.set_reg]
    · rw [hvalue, set_reg_self, hself]
  rw [hop, Exec.bind_bind, Exec.modify_bind, Exec.pure_bind', Exec.modify_apply, Cpu.advance, hset]
  rfl

theorem readable_or {c : CInstr} (h : c.Legal ∨ c.Hint) :
    Readable c ∨ ∃ shamt, c = .slli 0 shamt := by
  rcases h with h | h
  · exact .inl (.of_legal h)
  · cases c with
    | lui rd nzimm =>
        refine .inl fun htwo => ?_
        rw [h.1] at htwo
        exact absurd htwo (by decide)
    | slli rd shamt =>
        by_cases hrd : rd = 0
        · exact .inr ⟨shamt, by rw [hrd]⟩
        · exact .inl hrd
    | mv | add => exact .inl h.2
    | addi | li | srli | srai => exact .inl trivial
    | _ => exact h.elim

/-- A hint that is read as the instruction it looks like does nothing. -/
theorem inert_of_hint {c : CInstr} (h : c.Hint) {op : Op} (hop : Denotes op c.expand)
    (hread : Readable c) : op.Inert := by
  cases c with
  | addi rd nzimm =>
      obtain rfl : op = .addi rd rd ((nzimm.signExtend 12).signExtend 32) := hop
      refine Op.Inert.of_set rd (fun cpu => cpu.reg rd + (nzimm.signExtend 12).signExtend 32)
        (fun _ => rfl) ?_
      rcases h with ⟨hrd, -⟩ | ⟨-, hzero⟩
      · exact .inl hrd
      · refine .inr fun cpu => ?_
        rw [hzero]
        exact BitVec.add_zero _
  | li rd imm =>
      obtain rfl : op = .addi rd 0 ((imm.signExtend 12).signExtend 32) := hop
      exact Op.Inert.of_set rd (fun cpu => cpu.reg 0 + (imm.signExtend 12).signExtend 32) (fun _ => rfl)
        (.inl h)
  | lui rd nzimm =>
      obtain rfl : op = .lui rd ((nzimm.signExtend 20).setWidth 32 <<< 12) := hop
      exact Op.Inert.of_set rd (fun _ => (nzimm.signExtend 20).setWidth 32 <<< 12) (fun _ => rfl)
        (.inl h.1)
  | srli rd' shamt =>
      obtain ⟨imm, himm, rfl⟩ := hop
      refine Op.Inert.of_set (creg rd') (fun cpu => cpu.reg (creg rd') >>> (imm &&& 0x1f))
        (fun _ => rfl) (.inr fun cpu => ?_)
      rw [himm, show shamt = 0 from h]
      exact BitVec.ushiftRight_zero _
  | srai rd' shamt =>
      obtain ⟨imm, himm, rfl⟩ := hop
      refine Op.Inert.of_set (creg rd') (fun cpu => (cpu.reg (creg rd')).sshiftRight' (imm &&& 0x1f))
        (fun _ => rfl) (.inr fun cpu => ?_)
      rw [himm, show shamt = 0 from h]
      exact BitVec.sshiftRight_zero
  | slli rd shamt =>
      obtain ⟨imm, himm, rfl⟩ := hop
      refine Op.Inert.of_set rd (fun cpu => cpu.reg rd <<< (imm &&& 0x1f)) (fun _ => rfl)
        (.inr fun cpu => ?_)
      rw [himm, show shamt = 0 from h.resolve_left hread]
      exact BitVec.shiftLeft_zero _
  | mv rd rs2 =>
      obtain rfl : op = .add rd 0 rs2 := hop
      exact Op.Inert.of_set rd (fun cpu => cpu.reg 0 + cpu.reg rs2) (fun _ => rfl) (.inl h.1)
  | add rd rs2 =>
      obtain rfl : op = .add rd rd rs2 := hop
      exact Op.Inert.of_set rd (fun cpu => cpu.reg rd + cpu.reg rs2) (fun _ => rfl) (.inl h.1)
  | _ => exact h.elim

/-! ## What is misread -/

/-- Which instruction an operation can stand for. -/
theorem denotes_lui {c : CInstr} {d : RegNum} {imm : I32} (h : Denotes (.lui d imm) c.expand) :
    ∃ nzimm, c = .lui d nzimm ∧ imm = (nzimm.signExtend 20).setWidth 32 <<< 12 := by
  cases c with
  | lui rd nzimm =>
      injection h with hd himm
      exact ⟨nzimm, by rw [hd], himm⟩
  | srli | srai | slli => obtain ⟨_, _, h⟩ := h; exact Op.noConfusion h
  | _ => exact Op.noConfusion h

theorem denotes_srli {c : CInstr} {d a : RegNum} {imm : I32}
    (h : Denotes (.srli d a imm) c.expand) : ∃ rd' shamt, c = .srli rd' shamt := by
  cases c with
  | srli rd' shamt => exact ⟨rd', shamt, rfl⟩
  | srai | slli => obtain ⟨_, _, h⟩ := h; exact Op.noConfusion h
  | _ => exact Op.noConfusion h

theorem denotes_srai {c : CInstr} {d a : RegNum} {imm : I32}
    (h : Denotes (.srai d a imm) c.expand) : ∃ rd' shamt, c = .srai rd' shamt := by
  cases c with
  | srai rd' shamt => exact ⟨rd', shamt, rfl⟩
  | srli | slli => obtain ⟨_, _, h⟩ := h; exact Op.noConfusion h
  | _ => exact Op.noConfusion h

theorem denotes_slli {c : CInstr} {d a : RegNum} {imm : I32}
    (h : Denotes (.slli d a imm) c.expand) : ∃ rd shamt, c = .slli rd shamt := by
  cases c with
  | slli rd shamt => exact ⟨rd, shamt, rfl⟩
  | srli | srai => obtain ⟨_, _, h⟩ := h; exact Op.noConfusion h
  | _ => exact Op.noConfusion h

section
open rv32c

theorem decode_lui_zero {rd : Reg} (h : rd ≠ 2) :
    decode_compressed (ciType 0b011 0 rd 0b01) = .lui rd 0 := by
  have hdenotes := decode_compressed_readable (.lui rd 0) h
  exact hdenotes

theorem decode_shift_right (imm : BitVec 6) (rd' : BitVec 3) :
    (∃ imm', decode_compressed (cbAluType imm 0b00 rd') = .srli (creg rd') (creg rd') imm') ∧
      ∃ imm', decode_compressed (cbAluType imm 0b01 rd') = .srai (creg rd') (creg rd') imm' := by
  simp only [decode_compressed, cbAluType, mask_quadrant, c_funct3_half, c_rs1s_half,
    funct2_half, BitVec.reduceSetWidth]
  exact ⟨⟨_, rfl⟩, ⟨_, rfl⟩⟩

theorem decode_slli (imm : BitVec 6) {rd : Reg} (h : rd ≠ 0) :
    ∃ imm', decode_compressed (ciType 0b000 imm rd 0b10) = .slli rd rd imm' := by
  simp only [decode_compressed, ciType, c_rd_crType]
  simp only [crType, mask_quadrant, c_funct3_half, BitVec.reduceSetWidth]
  split
  · exact absurd rfl h
  · exact ⟨_, rfl⟩

theorem decode_slli_zero (imm : BitVec 6) :
    decode_compressed (ciType 0b000 imm 0 0b10) = .unknown := by
  simp only [decode_compressed, ciType, c_rd_crType]
  simp only [crType, mask_quadrant, c_funct3_half, BitVec.reduceSetWidth]
  rfl

/-- What a word with a meaning is decoded to. -/
theorem denotes_of_half {c : CInstr} (h : c.Legal ∨ c.Hint)
    (hop : decode_compressed c.encode ≠ .unknown) :
    Denotes (decode_compressed c.encode) c.expand := by
  rcases readable_or h with hread | ⟨shamt, rfl⟩
  · exact decode_compressed_readable c hread
  · exact absurd (decode_slli_zero _) hop

theorem lui_imm_ne_zero : ∀ x : BitVec 6, x ≠ 0 →
    (x.signExtend 20).setWidth 32 <<< 12 ≠ 0#32 := by
  decide

/-- Bit 12 is the upper bit of the immediate. -/
theorem ciType_bit12 (funct3 : BitVec 3) (imm : BitVec 6) (rd : Reg) (op : BitVec 2) :
    (ciType funct3 imm rd op).getLsbD 12 = imm.getLsbD 5 := by
  simp [ciType, crType]

theorem cbAluType_bit12 (imm : BitVec 6) (funct2 : BitVec 2) (rd' : BitVec 3) :
    (cbAluType imm funct2 rd').getLsbD 12 = imm.getLsbD 5 := by
  simp [cbAluType]

theorem shamt_bit5 (shamt : BitVec 5) : (shamt.setWidth 6).getLsbD 5 = false := by
  simp

/-- A reserved word that is misread is decoded to an operation. -/
theorem Misread.reserved {h : BitVec 16} (hm : Misread h) :
    (∃ shamt : BitVec 5, h = ciType 0b000 (shamt.setWidth 6) 0 0b10) ∨
      (¬ Half h ∧ decode_compressed h ≠ .unknown) := by
  cases hm with
  | lui rd hrd =>
      refine .inr ⟨fun ⟨c, hc, henc⟩ => ?_, by rw [decode_lui_zero hrd]; exact Op.noConfusion⟩
      have hop := denotes_of_half hc (by rw [henc, decode_lui_zero hrd]; exact Op.noConfusion)
      rw [henc, decode_lui_zero hrd] at hop
      obtain ⟨nzimm, rfl, himm⟩ := denotes_lui hop
      have hne : nzimm ≠ 0 := by
        rcases hc with hc | hc
        · exact hc.2.2
        · exact hc.2
      exact lui_imm_ne_zero nzimm hne himm.symm
  | shift imm funct2 rd' hwide hfunct =>
      -- an encoding of a shift has a zero in bit 12
      have hbit {funct2 : BitVec 2} {s : BitVec 5} {r : BitVec 3}
          (henc : cbAluType (s.setWidth 6) funct2 r = cbAluType imm funct2 rd') : False := by
        have hbit := congrArg (fun x => x.getLsbD 12) henc
        rw [cbAluType_bit12, cbAluType_bit12, shamt_bit5, hwide] at hbit
        exact Bool.noConfusion hbit
      rcases hfunct with rfl | rfl
      · obtain ⟨imm', hdec⟩ := (decode_shift_right imm rd').1
        refine .inr ⟨fun ⟨c, hc, henc⟩ => ?_, by rw [hdec]; exact Op.noConfusion⟩
        have hop := denotes_of_half hc (by rw [henc, hdec]; exact Op.noConfusion)
        rw [henc, hdec] at hop
        obtain ⟨r, s, rfl⟩ := denotes_srli hop
        exact hbit henc
      · obtain ⟨imm', hdec⟩ := (decode_shift_right imm rd').2
        refine .inr ⟨fun ⟨c, hc, henc⟩ => ?_, by rw [hdec]; exact Op.noConfusion⟩
        have hop := denotes_of_half hc (by rw [henc, hdec]; exact Op.noConfusion)
        rw [henc, hdec] at hop
        obtain ⟨r, s, rfl⟩ := denotes_srai hop
        exact hbit henc
  | slli imm rd hwide hrd =>
      obtain ⟨imm', hdec⟩ := decode_slli imm hrd
      refine .inr ⟨fun ⟨c, hc, henc⟩ => ?_, by rw [hdec]; exact Op.noConfusion⟩
      have hop := denotes_of_half hc (by rw [henc, hdec]; exact Op.noConfusion)
      rw [henc, hdec] at hop
      obtain ⟨r, s, rfl⟩ := denotes_slli hop
      have hbit := congrArg (fun x => x.getLsbD 12) henc
      rw [CInstr.encode, ciType_bit12, ciType_bit12, shamt_bit5, hwide] at hbit
      exact Bool.noConfusion hbit
  | hint shamt => exact .inl ⟨shamt, rfl⟩

end

/-! ## Words as they are fetched -/

/-- The classification of the tables: how long the instruction is, which operation
a defined encoding is, that a hint does nothing, and that everything else is
unknown. -/
structure Classifies (w : U32) (op : Op) (size : U32) : Prop where
  size : size = if w &&& 0x3 = 0x3 then 4 else 2
  full : ∀ i : Instr, i.encode = w → Denotes op i
  compressed : ∀ c : CInstr, c.Legal → c.encode = w.setWidth 16 → Denotes op c.expand
  hint : ∀ c : CInstr, c.Hint → c.encode = w.setWidth 16 → op.Inert
  reserved : ¬ Full w → ¬ Half (w.setWidth 16) → op = .unknown

theorem low_half (w : U32) : w.setWidth 16 &&& 0b11 = (w &&& 0x3).setWidth 16 := by
  rw [BitVec.setWidth_and]
  rfl

theorem low_of_half {w : U32} {c : CInstr} (h : c.encode = w.setWidth 16) :
    w &&& 0x3 ≠ 0x3 := by
  intro hthree
  apply compressed_low c
  rw [h, low_half, hthree]
  rfl

theorem decode_two {w : U32} (h : w &&& 0x3 ≠ 0x3) :
    decode w = (rv32c.decode_compressed (w.setWidth 16), 2) := if_pos h

theorem decode_four {w : U32} (h : w &&& 0x3 = 0x3) : decode w = (decode_uncompressed w, 4) :=
  if_neg (not_not_intro h)

/-- An unknown operation stops the program, and so it is not inert. -/
theorem not_inert_unknown : ¬ Op.unknown.Inert := by
  intro h
  let seg : MemorySegment VecMemory := ⟨0, 0, ⟨[]⟩⟩
  have hrun := h VecMemory Unit (Cpu.new 0 seg seg seg) 0 (by simp [Cpu.reg, Cpu.new])
  cases hrun

theorem Misread.low {h : BitVec 16} (hm : Misread h) : h &&& 0b11 ≠ 0b11 := by
  cases hm with
  | lui | slli | hint | shift => exact (rv32c.mask_quadrant _ _ _ _ _ _ _).trans_ne (by decide)

/-- The decoder classifies a word as the tables do if and only if it is not one of
the words that are misread. -/
theorem decode_classifies_iff (w : U32) : Classifies w (decode w).1 (decode w).2 ↔
    ¬ Misread (w.setWidth 16) := by
  constructor
  · intro h hm
    have hlow : w &&& 0x3 ≠ 0x3 := by
      intro hthree
      apply hm.low
      rw [low_half, hthree]
      rfl
    rw [decode_two hlow] at h
    rcases hm.reserved with ⟨shamt, hhint⟩ | ⟨hhalf, hne⟩
    · have hinert := h.hint (.slli 0 shamt) (.inl rfl) hhint.symm
      rw [hhint, decode_slli_zero] at hinert
      exact not_inert_unknown hinert
    · refine hne (h.reserved (fun ⟨i, hi⟩ => hlow ?_) hhalf)
      rw [← hi, encode_low]
  · intro hm
    by_cases hlow : w &&& 0x3 = 0x3
    · rw [decode_four hlow]
      exact {
        size := (if_pos hlow).symm
        full := fun i hi => by rw [← hi]; exact decode_uncompressed_encode i
        compressed := fun c _ henc => absurd hlow (low_of_half henc)
        hint := fun c _ henc => absurd hlow (low_of_half henc)
        reserved := fun hfull _ => (decode_uncompressed_total w).resolve_right hfull }
    · rw [decode_two hlow]
      exact {
        size := (if_neg hlow).symm
        full := fun i hi => absurd (by rw [← hi, encode_low]) hlow
        compressed := fun c hc henc => by
          rw [← henc]
          exact decode_compressed_readable c (.of_legal hc)
        hint := fun c hc henc => by
          rcases readable_or (.inr hc) with hread | ⟨shamt, rfl⟩
          · rw [← henc]
            exact inert_of_hint hc (decode_compressed_readable c hread) hread
          · rw [← henc] at hm
            exact absurd (.hint shamt) hm
        reserved := fun _ hhalf =>
          (decode_compressed_total _).resolve_right (not_or.mpr ⟨hhalf, hm⟩) }

/-- `c.lui x1, 0` and `c.srli x8, 32` are reserved and decoded to operations, and the
hint `c.slli x0, 1` is unknown. -/
theorem decode_reserved_and_hint :
    (decode 0x6081 = (.lui 1 0, 2) ∧ ¬ Full 0x6081 ∧ ¬ Half 0x6081) ∧
      (decode 0x9001 = (.srli 8 8 0, 2) ∧ ¬ Full 0x9001 ∧ ¬ Half 0x9001) ∧
        decode 0x0006 = (.unknown, 2) ∧ (CInstr.slli 0 1).Hint ∧
          (CInstr.slli 0 1).encode = 0x0006 := by
  have hfull {w : U32} (h : w &&& 0x3 ≠ 0x3) : ¬ Full w := by
    rintro ⟨i, hi⟩
    exact h (by rw [← hi, encode_low])
  have hlui : Misread 0x6081 := .lui 1 (by decide)
  have hsrli : Misread 0x9001 := .shift 0b100000 0b00 0 rfl (.inl rfl)
  refine ⟨⟨rfl, hfull (by decide), (hlui.reserved.resolve_left ?_).1⟩,
    ⟨rfl, hfull (by decide), (hsrli.reserved.resolve_left ?_).1⟩, rfl, .inl rfl, rfl⟩
  · decide
  · decide

end Vanadium
