import Vanadium.Common.Cpu
import Vanadium.Proofs.Decode
import Vanadium.Lib.Rv32.Machine
import Mathlib

/-!
# The arithmetic of the processor

The source computes with machine words of several widths, the manual with the
integers they stand for. Each family of operations is, arm by arm, what the
manual says.
-/

namespace Vanadium

open Lib Rv32

namespace Cpu

/-! ## Products, quotients and shifts -/

theorem shift_amount (b : U32) : (b &&& 0x1f).toNat = b.toNat % 32 := by
  rw [BitVec.toNat_and]
  exact Nat.and_two_pow_sub_one_eq_mod b.toNat 5

theorem setWidth_eq_ofInt {v : Nat} (x : BitVec v) (h : 32 ≤ v) :
    x.setWidth 32 = BitVec.ofInt 32 x.toInt := by
  apply BitVec.eq_of_toInt_eq
  rw [BitVec.toInt_setWidth, BitVec.toInt_ofInt, BitVec.toInt_eq_toNat_bmod,
    Int.bmod_bmod_of_dvd (Nat.pow_dvd_pow 2 h)]

/-- The upper part of a product that fits. -/
theorem mul_high {v : Nat} (x y : BitVec v) (h : 32 ≤ v)
    (hlo : -2 ^ (v - 1) ≤ x.toInt * y.toInt) (hhi : x.toInt * y.toInt < 2 ^ (v - 1)) :
    ((x * y).sshiftRight 32).setWidth 32 = BitVec.ofInt 32 (x.toInt * y.toInt / 2 ^ 32) := by
  have hmul : (x * y).toInt = x.toInt * y.toInt := by
    rw [BitVec.toInt_mul, ← BitVec.toInt_ofInt, BitVec.toInt_ofInt_eq_self (by omega) hlo hhi]
  rw [setWidth_eq_ofInt _ h, BitVec.toInt_sshiftRight, hmul, Int.shiftRight_eq_div_pow]
  rfl

theorem mul_bound {x y B C : ℤ} (hx : |x| ≤ B) (hy : |y| ≤ C) : |x * y| ≤ B * C := by
  rw [abs_mul]
  exact mul_le_mul hx hy (abs_nonneg y) ((abs_nonneg x).trans hx)

theorem abs_toInt_le (a : U32) : |a.toInt| ≤ 2 ^ 31 :=
  abs_le.mpr ⟨a.le_toInt, a.toInt_lt.le⟩

theorem mulh_eval (a b : U32) :
    ((a.signExtend 64 * b.signExtend 64).sshiftRight 32).setWidth 32 =
      BitVec.ofInt 32 (a.toInt * b.toInt / 2 ^ 32) := by
  have ha : (a.signExtend 64).toInt = a.toInt := BitVec.toInt_signExtend_of_le (by decide)
  have hb : (b.signExtend 64).toInt = b.toInt := BitVec.toInt_signExtend_of_le (by decide)
  obtain ⟨hlo, hhi⟩ := abs_le.mp (mul_bound (abs_toInt_le a) (abs_toInt_le b))
  rw [mul_high _ _ (by decide), ha, hb]
  · rw [ha, hb]
    exact le_trans (by decide) hlo
  · rw [ha, hb]
    exact hhi.trans_lt (by decide)

theorem mulhsu_eval (a b : U32) :
    (((a.signExtend 64).signExtend 128 * (b.setWidth 64).setWidth 128 :
      BitVec 128).sshiftRight 32).setWidth 32 =
        BitVec.ofInt 32 (a.toInt * b.toNat / 2 ^ 32) := by
  have ha : ((a.signExtend 64).signExtend 128).toInt = a.toInt := by
    rw [BitVec.toInt_signExtend_of_le (by decide), BitVec.toInt_signExtend_of_le (by decide)]
  have hb : ((b.setWidth 64).setWidth 128).toInt = b.toNat := by
    have := b.isLt
    have hb : ((b.setWidth 64).setWidth 128).toNat = b.toNat := by
      rw [BitVec.toNat_setWidth_of_le (by decide), BitVec.toNat_setWidth_of_le (by decide)]
    rw [BitVec.toInt_eq_toNat_of_lt (by omega), hb]
  have hnat : |(b.toNat : ℤ)| ≤ 2 ^ 32 := by
    have := b.isLt
    rw [Nat.abs_cast]
    omega
  obtain ⟨hlo, hhi⟩ := abs_le.mp (mul_bound (abs_toInt_le a) hnat)
  rw [mul_high _ _ (by decide), ha, hb]
  · rw [ha, hb]
    exact le_trans (by decide) hlo
  · rw [ha, hb]
    exact hhi.trans_lt (by decide)

theorem mulhu_eval (a b : U32) :
    ((a.setWidth 64 * b.setWidth 64 : BitVec 64) >>> 32).setWidth 32 =
      BitVec.ofNat 32 (a.toNat * b.toNat / 2 ^ 32) := by
  have ha := a.isLt
  have hb := b.isLt
  have hlt : a.toNat * b.toNat < 2 ^ 64 :=
    (Nat.mul_lt_mul_of_lt_of_lt ha hb).trans_le (by decide)
  apply BitVec.eq_of_toNat_eq
  rw [BitVec.toNat_setWidth, BitVec.toNat_ushiftRight, BitVec.toNat_mul,
    BitVec.toNat_setWidth_of_le (by decide), BitVec.toNat_setWidth_of_le (by decide),
    BitVec.toNat_ofNat, Nat.shiftRight_eq_div_pow, Nat.mod_eq_of_lt hlt]

theorem overflows_iff (a b : U32) :
    (a = BitVec.intMin 32 ∧ b = -1#32) ↔ a.toInt = -2 ^ 31 ∧ b.toInt = -1 := by
  rw [← BitVec.toInt_inj, ← BitVec.toInt_inj]
  rfl

theorem wrapping_div_eval (a b : U32) : wrapping_div a b =
    if a.toInt = -2 ^ 31 ∧ b.toInt = -1 then a
    else BitVec.ofInt 32 (a.toInt.tdiv b.toInt) := by
  unfold wrapping_div
  split
  · next h =>
      obtain ⟨rfl, rfl⟩ := (overflows_iff a b).mpr h
      exact BitVec.intMin_sdiv_neg_one
  · next h =>
      rw [← overflows_iff, not_and_or] at h
      rw [← BitVec.toInt_sdiv_of_ne_or_ne a b h, BitVec.ofInt_toInt]

theorem wrapping_rem_eval (a b : U32) : wrapping_rem a b =
    if a.toInt = -2 ^ 31 ∧ b.toInt = -1 then 0
    else BitVec.ofInt 32 (a.toInt.tmod b.toInt) := by
  unfold wrapping_rem
  split
  · next h =>
      obtain ⟨rfl, rfl⟩ := (overflows_iff a b).mpr h
      rfl
  · next h => rw [← BitVec.toInt_srem, BitVec.ofInt_toInt]

/-! ## The families -/

section
variable {M E : Type} [PagedMemory M] (n : U32) (d a b : RegNum)

theorem execute_aluOp (f : AluOp) :
    (execute_op (aluOp f d a b) n : Exec (CpuError E) (Cpu M) U32) = alu n d a b f.eval := by
  cases f <;> simp only [aluOp, execute_op] <;> congr 1 <;> funext x y
  case sll | srl | sra =>
      simp only [AluOp.eval, ← shift_amount]
      rfl
  case mul =>
      show x * y = BitVec.ofInt 32 (x.toInt * y.toInt)
      rw [BitVec.ofInt_mul, BitVec.ofInt_toInt, BitVec.ofInt_toInt]
  case mulh => exact mulh_eval x y
  case mulhsu => exact mulhsu_eval x y
  case mulhu => exact mulhu_eval x y
  case div =>
      rw [wrapping_div_eval]
      rfl
  case divu =>
      simp only [AluOp.eval]
      rw [← BitVec.toNat_udiv, BitVec.ofNat_toNat, BitVec.setWidth_eq]
      rfl
  case rem =>
      rw [wrapping_rem_eval]
      rfl
  case remu =>
      simp only [AluOp.eval]
      rw [← BitVec.toNat_umod, BitVec.ofNat_toNat, BitVec.setWidth_eq]

theorem execute_immOp (f : ImmOp) (imm : BitVec 12) :
    (execute_op (immOp f d a (imm.signExtend 32)) n : Exec (CpuError E) (Cpu M) U32) =
      alu_imm n d a (imm.signExtend 32) fun x _ => f.eval x imm := by
  cases f with
  | slti =>
      simp only [immOp, execute_op, alu_imm, ImmOp.eval, BitVec.slt_eq_decide]
      rfl
  | sltiu =>
      simp only [immOp, execute_op, alu_imm, ImmOp.eval, BitVec.lt_def]
      rfl
  | addi | xori | ori | andi =>
      simp only [immOp, execute_op]
      rfl

theorem execute_shiftOp (f : ShiftOp) (imm : I32) (shamt : BitVec 5)
    (h : imm &&& 0x1f = shamt.setWidth 32) :
    (execute_op (shiftOp f d a imm) n : Exec (CpuError E) (Cpu M) U32) =
      alu_imm n d a imm fun x _ => f.eval x shamt := by
  have hs : shamt.toNat = (imm &&& 0x1f).toNat := by
    rw [h, BitVec.toNat_setWidth_of_le (by decide)]
  cases f <;> simp only [shiftOp, execute_op, ShiftOp.eval, hs] <;> rfl

theorem execute_branchOp (c : Cond) (imm : I32) :
    (execute_op (branchOp c a b imm) n : Exec (CpuError E) (Cpu M) U32) =
      branch n a b imm c.holds := by
  cases c with
  | ne =>
      simp only [branchOp, execute_op]
      congr 1
      funext x y
      by_cases h : x = y <;> simp [Cond.holds, h]
  | eq | lt | ge | ltu | geu =>
      simp only [branchOp, execute_op]
      congr 1

/-- What the message about an unaligned address calls the operation. -/
def amoName : AmoOp → String
  | .swap => "AMOSWAP.W"
  | .add => "AMOADD.W"
  | .xor => "AMOXOR.W"
  | .and => "AMOAND.W"
  | .or => "AMOOR.W"
  | .min => "AMOMIN.W"
  | .max => "AMOMAX.W"
  | .minu => "AMOMINU.W"
  | .maxu => "AMOMAXU.W"

theorem i32_min_eval (x y : U32) : i32_min x y = AmoOp.min.eval x y := by
  simp only [i32_min, AmoOp.eval, BitVec.sle_eq_decide, decide_eq_true_eq]

/-- Of two equal values it does not matter which one is taken. -/
theorem i32_max_eval (x y : U32) : i32_max x y = AmoOp.max.eval x y := by
  simp only [i32_max, AmoOp.eval, BitVec.sle_eq_decide, decide_eq_true_eq]
  split <;> split
  · next h h' => exact BitVec.toInt_inj.mp (Int.le_antisymm h' h)
  · rfl
  · rfl
  · next h h' => exact absurd (Int.le_total x.toInt y.toInt) (by simp [h, h'])

theorem u32_max_eval (x y : U32) : u32_max x y = AmoOp.maxu.eval x y := by
  simp only [u32_max, AmoOp.eval, BitVec.le_def]
  split <;> split
  · next h h' => exact BitVec.eq_of_toNat_eq (Nat.le_antisymm h' h)
  · rfl
  · rfl
  · next h h' => exact absurd (Nat.le_total x.toNat y.toNat) (by simp [h, h'])

theorem execute_amoOp (f : AmoOp) :
    (execute_op (amoOp f d a b) n : Exec (CpuError E) (Cpu M) U32) =
      amo n (amoName f) d a b f.eval := by
  cases f <;> simp only [amoOp, execute_op, amoName] <;> congr 1 <;> funext x y
  case min => exact i32_min_eval x y
  case max => exact i32_max_eval x y
  case maxu => exact u32_max_eval x y

end

/-! ## Addresses -/

section
variable {M E : Type} {cpu : Cpu M}

/-- The test for a misaligned address. -/
theorem mask_eq_zero_iff (a : U32) (k : ℕ) (hk : k < 32) :
    a &&& BitVec.ofNat 32 (2 ^ k - 1) = 0 ↔ aligned a (2 ^ k) := by
  have h1 : 2 ^ k < 2 ^ 32 := Nat.pow_lt_pow_right (by decide) hk
  rw [← BitVec.toNat_inj, BitVec.toNat_and, BitVec.toNat_ofNat,
    Nat.mod_eq_of_lt (by omega), Nat.and_two_pow_sub_one_eq_mod]
  rfl

theorem reject_unaligned_bind {α : Type} {a : U32} {k : ℕ} (hk : k < 32) {msg : String}
    {g : Unit → Exec (CpuError E) (Cpu M) α} (h : aligned a (2 ^ k)) :
    (reject_unaligned a (BitVec.ofNat 32 (2 ^ k - 1)) msg >>= g) cpu = g () cpu :=
  Exec.reject_bind_neg (not_not_intro ((mask_eq_zero_iff a k hk).mpr h))

theorem reject_unaligned_bind_err {α : Type} {a : U32} {k : ℕ} (hk : k < 32) {msg : String}
    {g : Unit → Exec (CpuError E) (Cpu M) α} (h : ¬ aligned a (2 ^ k)) :
    (reject_unaligned a (BitVec.ofNat 32 (2 ^ k - 1)) msg >>= g) cpu =
      .err (.genericError msg) cpu := by
  refine Exec.bind_apply_err ?_
  rw [reject_unaligned, Exec.reject, if_pos (mt (mask_eq_zero_iff a k hk).mp h)]
  rfl

variable [PagedMemory M]

/-- What the loads do at the address. -/
def load_value : LoadOp → U32 → Exec (CpuError E) (Cpu M) U32
  | .lb, addr => do
      let value ← read_u8 addr
      pure (value.signExtend 32)
  | .lh, addr => do
      reject_unaligned addr 1 "Unaligned 16-bit read"
      let value ← read_u16 addr
      pure (value.signExtend 32)
  | .lw, addr => do
      reject_unaligned addr 3 "Unaligned 32-bit read"
      read_u32 addr
  | .lbu, addr => do
      let value ← read_u8 addr
      pure (value.setWidth 32)
  | .lhu, addr => do
      reject_unaligned addr 1 "Unaligned 16-bit read"
      let value ← read_u16 addr
      pure (value.setWidth 32)

theorem execute_loadOp (n : U32) (f : LoadOp) (d a : RegNum) (imm : I32) :
    (execute_op (loadOp f d a imm) n : Exec (CpuError E) (Cpu M) U32) =
      load n d a imm (load_value f) := by
  cases f <;> simp only [loadOp, execute_op] <;> rfl

theorem load_value_err (cpu : Cpu M) (f : LoadOp) {a : U32} (ha : ¬ aligned a f.width) :
    ∃ msg, (load_value f a : Exec (CpuError E) (Cpu M) U32) cpu =
      .err (.genericError msg) cpu := by
  cases f with
  | lb | lbu => exact absurd (Nat.mod_one _) ha
  | lh | lhu => exact ⟨_, reject_unaligned_bind_err (k := 1) (by decide) ha⟩
  | lw => exact ⟨_, reject_unaligned_bind_err (k := 2) (by decide) ha⟩

/-- What the stores do at the address. -/
def store_value : StoreOp → U32 → U32 → Exec (CpuError E) (Cpu M) Unit
  | .sb, addr, value => write_u8 addr (value.setWidth 8)
  | .sh, addr, value => do
      reject_unaligned addr 1 "Unaligned 16-bit write"
      write_u16 addr (value.setWidth 16)
  | .sw, addr, value => do
      reject_unaligned addr 3 "Unaligned 32-bit write"
      write_u32 addr value

theorem execute_storeOp (n : U32) (f : StoreOp) (a b : RegNum) (imm : I32) :
    (execute_op (storeOp f a b imm) n : Exec (CpuError E) (Cpu M) U32) =
      store n a b imm (store_value f) := by
  cases f <;> simp only [storeOp, execute_op] <;> rfl

theorem store_value_err (cpu : Cpu M) (f : StoreOp) {a : U32} (v : U32) (ha : ¬ aligned a f.width) :
    ∃ msg, (store_value f a v : Exec (CpuError E) (Cpu M) Unit) cpu =
      .err (.genericError msg) cpu := by
  cases f with
  | sb => exact absurd (Nat.mod_one _) ha
  | sh => exact ⟨_, reject_unaligned_bind_err (k := 1) (by decide) ha⟩
  | sw => exact ⟨_, reject_unaligned_bind_err (k := 2) (by decide) ha⟩

end

end Cpu

end Vanadium
