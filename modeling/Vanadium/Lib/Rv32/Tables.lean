import Vanadium.Lib.Rv32.Instr

/-!
# The words of the tables

The other direction of the encodings: a word is cut into its fields, and a word
with the opcode and the function fields of an instruction is the encoding of
that instruction with the operands found in the rest. The compressed
encodings have hints besides the instructions, which say something to the
implementation and do nothing; what is neither is reserved.
-/

namespace Vanadium.Lib.Rv32

/-- The encodings set aside for hints. -/
def CInstr.Hint : CInstr → Prop
  | .addi rd nzimm => (rd = 0 ∧ nzimm ≠ 0) ∨ (rd ≠ 0 ∧ nzimm = 0)
  | .li rd _ => rd = 0
  | .lui rd nzimm => rd = 0 ∧ nzimm ≠ 0
  | .srli _ shamt | .srai _ shamt => shamt = 0
  | .slli rd shamt => rd = 0 ∨ shamt = 0
  | .mv rd rs2 | .add rd rs2 => rd = 0 ∧ rs2 ≠ 0
  | _ => False

/-! ## 32-bit words -/

/-- A multiple of a power of two is another number followed by zeros. -/
theorem append_zeros {n k : Nat} (x : BitVec (n + k)) (h : ∀ i < k, x.getLsbD i = false) :
    ∃ y : BitVec n, x = y ++ 0#k := by
  refine ⟨x.extractLsb' k n, ?_⟩
  apply BitVec.eq_of_getLsbD_eq
  intro i hi
  rw [BitVec.getLsbD_append, BitVec.getLsbD_extractLsb']
  split
  · next hlow => rw [h i hlow, BitVec.getLsbD_zero]
  · next hhigh =>
      rw [show k + (i - k) = i by omega, decide_eq_true (by omega : i - k < n), Bool.true_and]

theorem append_zero {n : Nat} (x : BitVec (n + 1)) (h : x.getLsbD 0 = false) :
    ∃ y : BitVec n, x = y ++ 0#1 :=
  append_zeros x fun i hi => by rw [Nat.lt_one_iff.mp hi, h]

theorem word_fields (w : Word) : ∃ funct7 b a funct3 d opcode,
    w = word funct7 b a funct3 d opcode := by
  refine ⟨w.extractLsb' 25 7, w.extractLsb' 20 5, w.extractLsb' 15 5, w.extractLsb' 12 3,
    w.extractLsb' 7 5, w.extractLsb' 0 7, ?_⟩
  ext i hi
  interval_cases i <;> simp

section
variable (funct7 : BitVec 7) (b a : BitVec 5) (funct3 : BitVec 3) (d : BitVec 5)
  (opcode : BitVec 7)

theorem word_opcode : (word funct7 b a funct3 d opcode).extractLsb' 0 7 = opcode := by
  ext i hi
  interval_cases i <;> simp

theorem word_funct3 : (word funct7 b a funct3 d opcode).extractLsb' 12 3 = funct3 := by
  ext i hi
  interval_cases i <;> simp

theorem word_funct7 : (word funct7 b a funct3 d opcode).extractLsb' 25 7 = funct7 := by
  ext i hi
  interval_cases i <;> simp

theorem iType_fields : ∃ imm : BitVec 12, iType imm a funct3 d opcode =
    word funct7 b a funct3 d opcode := by
  refine ⟨bits [funct7[6], funct7[5], funct7[4], funct7[3], funct7[2], funct7[1], funct7[0],
    b[4], b[3], b[2], b[1], b[0]], ?_⟩
  rw [iType]
  congr 1
  · ext i hi; interval_cases i <;> simp
  · ext i hi; interval_cases i <;> simp

theorem sType_fields : ∃ imm : BitVec 12, sType imm b a funct3 opcode =
    word funct7 b a funct3 d opcode := by
  refine ⟨bits [funct7[6], funct7[5], funct7[4], funct7[3], funct7[2], funct7[1], funct7[0],
    d[4], d[3], d[2], d[1], d[0]], ?_⟩
  rw [sType]
  congr 1
  · ext i hi; interval_cases i <;> simp
  · ext i hi; interval_cases i <;> simp

theorem bType_even : ∃ imm : BitVec 13, imm.getLsbD 0 = false ∧
    bType imm b a funct3 opcode = word funct7 b a funct3 d opcode := by
  refine ⟨bits [funct7[6], d[0], funct7[5], funct7[4], funct7[3], funct7[2], funct7[1],
    funct7[0], d[4], d[3], d[2], d[1], false], by simp, ?_⟩
  rw [bType]
  congr 1
  · ext i hi; interval_cases i <;> simp
  · ext i hi; interval_cases i <;> simp

theorem bType_fields : ∃ offset : BitVec 12, bType (offset ++ 0#1) b a funct3 opcode =
    word funct7 b a funct3 d opcode := by
  obtain ⟨imm, hlow, himm⟩ := bType_even funct7 b a funct3 d opcode
  obtain ⟨offset, rfl⟩ := append_zero imm hlow
  exact ⟨offset, himm⟩

theorem uType_fields : ∃ imm : BitVec 20, uType imm d opcode =
    word funct7 b a funct3 d opcode := by
  refine ⟨bits [funct7[6], funct7[5], funct7[4], funct7[3], funct7[2], funct7[1], funct7[0],
    b[4], b[3], b[2], b[1], b[0], a[4], a[3], a[2], a[1], a[0],
    funct3[2], funct3[1], funct3[0]], ?_⟩
  rw [uType]
  congr 1
  · ext i hi; interval_cases i <;> simp
  · ext i hi; interval_cases i <;> simp
  · ext i hi; interval_cases i <;> simp
  · ext i hi; interval_cases i <;> simp

theorem jType_even : ∃ imm : BitVec 21, imm.getLsbD 0 = false ∧
    jType imm d opcode = word funct7 b a funct3 d opcode := by
  refine ⟨bits [funct7[6], a[4], a[3], a[2], a[1], a[0], funct3[2], funct3[1], funct3[0],
    b[0], funct7[5], funct7[4], funct7[3], funct7[2], funct7[1], funct7[0],
    b[4], b[3], b[2], b[1], false], by simp, ?_⟩
  rw [jType]
  congr 1
  · ext i hi; interval_cases i <;> simp
  · ext i hi; interval_cases i <;> simp
  · ext i hi; interval_cases i <;> simp
  · ext i hi; interval_cases i <;> simp

theorem jType_fields : ∃ offset : BitVec 20, jType (offset ++ 0#1) d opcode =
    word funct7 b a funct3 d opcode := by
  obtain ⟨imm, hlow, himm⟩ := jType_even funct7 b a funct3 d opcode
  obtain ⟨offset, rfl⟩ := append_zero imm hlow
  exact ⟨offset, himm⟩

theorem aType_fields (funct5 : BitVec 5) (hf : ∀ i < 5, funct7.getLsbD (i + 2) = funct5.getLsbD i) :
    ∃ aq rl, aType funct5 aq rl b a d = word funct7 b a 0b010 d 0b0101111 := by
  refine ⟨funct7[1], funct7[0], ?_⟩
  have h0 := hf 0 (by omega)
  have h1 := hf 1 (by omega)
  have h2 := hf 2 (by omega)
  have h3 := hf 3 (by omega)
  have h4 := hf 4 (by omega)
  rw [aType]
  congr 1
  ext i hi; interval_cases i <;> simp_all

end

/-! ## 16-bit words -/

theorem half_fields (h : BitVec 16) : ∃ funct3 b12 b11_10 b9_7 b6_5 b4_2 op,
    h = half funct3 b12 b11_10 b9_7 b6_5 b4_2 op := by
  refine ⟨h.extractLsb' 13 3, h.extractLsb' 12 1, h.extractLsb' 10 2, h.extractLsb' 7 3,
    h.extractLsb' 5 2, h.extractLsb' 2 3, h.extractLsb' 0 2, ?_⟩
  ext i hi
  interval_cases i <;> simp

section
variable (funct3 : BitVec 3) (b12 : BitVec 1) (b11_10 : BitVec 2) (b9_7 : BitVec 3)
  (b6_5 : BitVec 2) (b4_2 : BitVec 3) (op : BitVec 2)

theorem half_funct3 : (half funct3 b12 b11_10 b9_7 b6_5 b4_2 op).extractLsb' 13 3 = funct3 := by
  ext i hi
  interval_cases i <;> simp

theorem half_op : (half funct3 b12 b11_10 b9_7 b6_5 b4_2 op).extractLsb' 0 2 = op := by
  ext i hi
  interval_cases i <;> simp

theorem crType_fields : ∃ rd rs2, crType funct3 b12 rd rs2 op =
    half funct3 b12 b11_10 b9_7 b6_5 b4_2 op := by
  refine ⟨bits [b11_10[1], b11_10[0], b9_7[2], b9_7[1], b9_7[0]],
    bits [b6_5[1], b6_5[0], b4_2[2], b4_2[1], b4_2[0]], ?_⟩
  rw [crType]
  congr 1
  · ext i hi; interval_cases i <;> simp
  · ext i hi; interval_cases i <;> simp
  · ext i hi; interval_cases i <;> simp
  · ext i hi; interval_cases i <;> simp

/-- The immediate of a register format, whose second operand it is. -/
theorem ciType_fields (rd rs2 : Reg) : ∃ imm : BitVec 6, imm.getLsbD 5 = b12.getLsbD 0 ∧
    ciType funct3 imm rd op = crType funct3 b12 rd rs2 op := by
  refine ⟨bits [b12[0], rs2[4], rs2[3], rs2[2], rs2[1], rs2[0]], by simp, ?_⟩
  rw [ciType]
  congr 1
  · ext i hi; interval_cases i; simp
  · ext i hi; interval_cases i <;> simp

theorem cbAluType_fields : ∃ imm : BitVec 6, imm.getLsbD 5 = b12.getLsbD 0 ∧
    cbAluType imm b11_10 b9_7 = half 0b100 b12 b11_10 b9_7 b6_5 b4_2 0b01 := by
  refine ⟨bits [b12[0], b6_5[1], b6_5[0], b4_2[2], b4_2[1], b4_2[0]], by simp, ?_⟩
  rw [cbAluType]
  congr 1
  · ext i hi; interval_cases i; simp
  · ext i hi; interval_cases i <;> simp
  · ext i hi; interval_cases i <;> simp

/-- Shift amounts have five bits. -/
theorem shamt_fields (imm : BitVec 6) (h : imm.getLsbD 5 = false) :
    ∃ shamt : BitVec 5, imm = shamt.setWidth 6 := by
  refine ⟨imm.setWidth 5, ?_⟩
  ext i hi
  interval_cases i <;> simp_all

theorem clType_even : ∃ uimm : BitVec 7, (∀ i < 2, uimm.getLsbD i = false) ∧
    clType funct3 uimm b9_7 b4_2 = half funct3 b12 b11_10 b9_7 b6_5 b4_2 0b00 := by
  refine ⟨bits [b6_5[0], b12[0], b11_10[1], b11_10[0], b6_5[1], false, false], ?_, ?_⟩
  · intro i hi; interval_cases i <;> simp
  rw [clType]
  congr 1
  · ext i hi; interval_cases i; simp
  · ext i hi; interval_cases i <;> simp
  · ext i hi; interval_cases i <;> simp

theorem clType_fields : ∃ uimm : BitVec 5, clType funct3 (uimm ++ 0#2) b9_7 b4_2 =
    half funct3 b12 b11_10 b9_7 b6_5 b4_2 0b00 := by
  obtain ⟨imm, hlow, himm⟩ := clType_even funct3 b12 b11_10 b9_7 b6_5 b4_2
  obtain ⟨uimm, rfl⟩ := append_zeros (k := 2) imm hlow
  exact ⟨uimm, himm⟩

theorem cbType_even : ∃ imm : BitVec 9, imm.getLsbD 0 = false ∧
    cbType funct3 imm b9_7 = half funct3 b12 b11_10 b9_7 b6_5 b4_2 0b01 := by
  refine ⟨bits [b12[0], b6_5[1], b6_5[0], b4_2[0], b11_10[1], b11_10[0], b4_2[2], b4_2[1],
    false], by simp, ?_⟩
  rw [cbType]
  congr 1
  · ext i hi; interval_cases i; simp
  · ext i hi; interval_cases i <;> simp
  · ext i hi; interval_cases i <;> simp
  · ext i hi; interval_cases i <;> simp

theorem cbType_fields : ∃ offset : BitVec 8, cbType funct3 (offset ++ 0#1) b9_7 =
    half funct3 b12 b11_10 b9_7 b6_5 b4_2 0b01 := by
  obtain ⟨imm, hlow, himm⟩ := cbType_even funct3 b12 b11_10 b9_7 b6_5 b4_2
  obtain ⟨offset, rfl⟩ := append_zero imm hlow
  exact ⟨offset, himm⟩

theorem cjType_even : ∃ imm : BitVec 12, imm.getLsbD 0 = false ∧
    cjType funct3 imm = half funct3 b12 b11_10 b9_7 b6_5 b4_2 0b01 := by
  refine ⟨bits [b12[0], b9_7[1], b11_10[0], b9_7[2], b6_5[1], b9_7[0], b4_2[0], b11_10[1],
    b6_5[0], b4_2[2], b4_2[1], false], by simp, ?_⟩
  rw [cjType]
  congr 1
  · ext i hi; interval_cases i; simp
  · ext i hi; interval_cases i <;> simp
  · ext i hi; interval_cases i <;> simp
  · ext i hi; interval_cases i <;> simp
  · ext i hi; interval_cases i <;> simp

theorem cjType_fields : ∃ offset : BitVec 11, cjType funct3 (offset ++ 0#1) =
    half funct3 b12 b11_10 b9_7 b6_5 b4_2 0b01 := by
  obtain ⟨imm, hlow, himm⟩ := cjType_even funct3 b12 b11_10 b9_7 b6_5 b4_2
  obtain ⟨offset, rfl⟩ := append_zero imm hlow
  exact ⟨offset, himm⟩

theorem addi4spnType_even : ∃ imm : BitVec 10, (∀ i < 2, imm.getLsbD i = false) ∧
    addi4spnType imm b4_2 = half 0b000 b12 b11_10 b9_7 b6_5 b4_2 0b00 := by
  refine ⟨bits [b11_10[0], b9_7[2], b9_7[1], b9_7[0], b12[0], b11_10[1], b6_5[0], b6_5[1],
    false, false], ?_, ?_⟩
  · intro i hi; interval_cases i <;> simp
  rw [addi4spnType]
  congr 1
  · ext i hi; interval_cases i; simp
  · ext i hi; interval_cases i <;> simp
  · ext i hi; interval_cases i <;> simp
  · ext i hi; interval_cases i <;> simp

theorem addi4spnType_fields : ∃ nzuimm : BitVec 8, addi4spnType (nzuimm ++ 0#2) b4_2 =
    half 0b000 b12 b11_10 b9_7 b6_5 b4_2 0b00 := by
  obtain ⟨imm, hlow, himm⟩ := addi4spnType_even b12 b11_10 b9_7 b6_5 b4_2
  obtain ⟨nzuimm, rfl⟩ := append_zeros (k := 2) imm hlow
  exact ⟨nzuimm, himm⟩

end

section
variable (b12 : BitVec 1) (rd rs2 : Reg)

theorem addi16spType_even : ∃ imm : BitVec 10, (∀ i < 4, imm.getLsbD i = false) ∧
    addi16spType imm = crType 0b011 b12 2 rs2 0b01 := by
  refine ⟨bits [b12[0], rs2[2], rs2[1], rs2[3], rs2[0], rs2[4], false, false, false, false],
    ?_, ?_⟩
  · intro i hi; interval_cases i <;> simp
  rw [addi16spType]
  congr 1
  · ext i hi; interval_cases i; simp
  · ext i hi; interval_cases i <;> simp

theorem addi16spType_fields : ∃ nzimm : BitVec 6, addi16spType (nzimm ++ 0#4) =
    crType 0b011 b12 2 rs2 0b01 := by
  obtain ⟨imm, hlow, himm⟩ := addi16spType_even b12 rs2
  obtain ⟨nzimm, rfl⟩ := append_zeros (k := 4) imm hlow
  exact ⟨nzimm, himm⟩

theorem lwspType_even : ∃ imm : BitVec 8, (∀ i < 2, imm.getLsbD i = false) ∧
    lwspType imm rd = crType 0b010 b12 rd rs2 0b10 := by
  refine ⟨bits [rs2[1], rs2[0], b12[0], rs2[4], rs2[3], rs2[2], false, false], ?_, ?_⟩
  · intro i hi; interval_cases i <;> simp
  rw [lwspType]
  congr 1
  · ext i hi; interval_cases i; simp
  · ext i hi; interval_cases i <;> simp

theorem lwspType_fields : ∃ uimm : BitVec 6, lwspType (uimm ++ 0#2) rd =
    crType 0b010 b12 rd rs2 0b10 := by
  obtain ⟨imm, hlow, himm⟩ := lwspType_even b12 rd rs2
  obtain ⟨uimm, rfl⟩ := append_zeros (k := 2) imm hlow
  exact ⟨uimm, himm⟩

theorem swspType_even : ∃ imm : BitVec 8, (∀ i < 2, imm.getLsbD i = false) ∧
    swspType imm rs2 = crType 0b110 b12 rd rs2 0b10 := by
  refine ⟨bits [rd[1], rd[0], b12[0], rd[4], rd[3], rd[2], false, false], ?_, ?_⟩
  · intro i hi; interval_cases i <;> simp
  rw [swspType]
  congr 1
  · ext i hi; interval_cases i; simp
  · ext i hi; interval_cases i <;> simp

theorem swspType_fields : ∃ uimm : BitVec 6, swspType (uimm ++ 0#2) rs2 =
    crType 0b110 b12 rd rs2 0b10 := by
  obtain ⟨imm, hlow, himm⟩ := swspType_even b12 rd rs2
  obtain ⟨uimm, rfl⟩ := append_zeros (k := 2) imm hlow
  exact ⟨uimm, himm⟩

end

end Vanadium.Lib.Rv32
