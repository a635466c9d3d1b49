import Vanadium.Common.Codec
import Vanadium.Lib.Exec
import Vanadium.Lib.LittleEndian

/-!
# Big numbers

The model of `app-sdk/src/bignum.rs`: the additions and subtractions of `BigNum`, and
`BigNumMod`, whose operations are calls to the VM. A number is a big-endian array of
bytes, and the loops go from its last byte to its first, with a carry or a borrow between
them.

The intermediate values of the additions are `u16`; those of the subtractions are
`i16`, and lie between -256 and 255.
-/

namespace Vanadium.AppSdk

structure BigNum (N : ℕ) where
  buffer : Vector U8 N
  deriving DecidableEq

namespace BigNum

variable {N : ℕ}

def add.loop (a b : Vector U8 N) : (i : ℕ) → i ≤ N → BitVec 16 → Vector U8 N → Vector U8 N
  | 0, _, _, result => result
  | i + 1, _, carry, result =>
      let s := a[i].setWidth 16 + b[i].setWidth 16 + carry
      add.loop a b i (by omega) (s >>> 8) (result.set i (s.setWidth 8))

/-- `&a + &b` -/
def add (a b : BigNum N) : BigNum N where
  buffer := add.loop a.buffer b.buffer N le_rfl 0 (Vector.replicate N 0)

/-- `a + &b` -/
def add_owned (a b : BigNum N) : BigNum N := add a b

/-- `&a + b` -/
def add_other_owned (a b : BigNum N) : BigNum N := add a b

/-- `a + b` -/
def add_both_owned (a b : BigNum N) : BigNum N := add a b

def add_assign.loop (b : Vector U8 N) : (i : ℕ) → i ≤ N → BitVec 16 → Vector U8 N → Vector U8 N
  | 0, _, _, buffer => buffer
  | i + 1, _, carry, buffer =>
      let sum := buffer[i].setWidth 16 + b[i].setWidth 16 + carry
      add_assign.loop b i (by omega) (sum >>> 8) (buffer.set i (sum.setWidth 8))

/-- `a += &b` -/
def add_assign (a b : BigNum N) : BigNum N where
  buffer := add_assign.loop b.buffer N le_rfl 0 a.buffer

def sub.loop (a b : Vector U8 N) : (i : ℕ) → i ≤ N → ℤ → Vector U8 N → Vector U8 N
  | 0, _, _, result => result
  | i + 1, _, borrow, result =>
      let diff : ℤ := a[i].toNat - b[i].toNat - borrow
      if diff ≥ 0 then sub.loop a b i (by omega) 0 (result.set i (BitVec.ofInt 8 diff))
      else sub.loop a b i (by omega) 1 (result.set i (BitVec.ofInt 8 (diff + 256)))

/-- `&a - &b` -/
def sub (a b : BigNum N) : BigNum N where
  buffer := sub.loop a.buffer b.buffer N le_rfl 0 (Vector.replicate N 0)

/-- `a - &b` -/
def sub_owned (a b : BigNum N) : BigNum N := sub a b

/-- `&a - b` -/
def sub_other_owned (a b : BigNum N) : BigNum N := sub a b

/-- `a - b` -/
def sub_both_owned (a b : BigNum N) : BigNum N := sub a b

def sub_assign.loop (b : Vector U8 N) : (i : ℕ) → i ≤ N → ℤ → Vector U8 N → Vector U8 N
  | 0, _, _, buffer => buffer
  | i + 1, _, borrow, buffer =>
      let diff : ℤ := buffer[i].toNat - b[i].toNat - borrow
      if diff ≥ 0 then sub_assign.loop b i (by omega) 0 (buffer.set i (BitVec.ofInt 8 diff))
      else sub_assign.loop b i (by omega) 1 (buffer.set i (BitVec.ofInt 8 (diff + 256)))

/-- `a -= &b` -/
def sub_assign (a b : BigNum N) : BigNum N where
  buffer := sub_assign.loop b.buffer N le_rfl 0 a.buffer

end BigNum

/-! ## Modulo another number -/

/-- The calls to the VM: the operands, and the modulus last. One that fails answers `none`. -/
structure BigNumEcalls where
  bn_modm : {N : ℕ} → Vector U8 N → Vector U8 N → Option (Vector U8 N)
  bn_addm : {N : ℕ} → Vector U8 N → Vector U8 N → Vector U8 N → Option (Vector U8 N)
  bn_subm : {N : ℕ} → Vector U8 N → Vector U8 N → Vector U8 N → Option (Vector U8 N)
  bn_multm : {N : ℕ} → Vector U8 N → Vector U8 N → Vector U8 N → Option (Vector U8 N)

def MAX_BIGNUMBER_SIZE : ℕ := 64

structure BigNumMod {N : ℕ} (M : Vector U8 N) where
  buffer : Vector U8 N
  deriving DecidableEq

namespace BigNumMod

open Lib

variable {ε σ : Type} {N : ℕ} {M : Vector U8 N} (ecalls : BigNumEcalls)

def from_be_bytes (buffer : Vector U8 N) : Exec ε σ (BigNumMod M) := do
  Exec.assert (N ≤ MAX_BIGNUMBER_SIZE)
  let buffer ← Exec.unwrap (ecalls.bn_modm buffer M)
  pure ⟨buffer⟩

def from_be_bytes_noreduce (buffer : Vector U8 N) : Exec ε σ (BigNumMod M) := do
  Exec.assert (N ≤ MAX_BIGNUMBER_SIZE)
  pure ⟨buffer⟩

def from_u32 (value : U32) : Exec ε σ (BigNumMod M) := do
  Exec.assert (N ≤ MAX_BIGNUMBER_SIZE)
  Exec.assert (4 < N)
  let buffer := Vector.ofFn fun i : Fin N =>
    if i.val < N - 4 then 0 else (to_be_bytes value).getD (i.val - (N - 4)) 0
  let buffer ← Exec.unwrap (ecalls.bn_modm buffer M)
  pure ⟨buffer⟩

def to_be_bytes (a : BigNumMod M) : Vector U8 N := a.buffer

/-- `&a + &b` -/
def add (a b : BigNumMod M) : Exec ε σ (BigNumMod M) := do
  let result ← Exec.unwrap (ecalls.bn_addm a.buffer b.buffer M)
  from_be_bytes_noreduce result

/-- `a += &b` -/
def add_assign (a b : BigNumMod M) : Exec ε σ (BigNumMod M) := do
  let buffer ← Exec.unwrap (ecalls.bn_addm a.buffer b.buffer M)
  pure ⟨buffer⟩

/-- `&a - &b` -/
def sub (a b : BigNumMod M) : Exec ε σ (BigNumMod M) := do
  let result ← Exec.unwrap (ecalls.bn_subm a.buffer b.buffer M)
  from_be_bytes_noreduce result

/-- `&a * &b` -/
def mul (a b : BigNumMod M) : Exec ε σ (BigNumMod M) := do
  let result ← Exec.unwrap (ecalls.bn_multm a.buffer b.buffer M)
  from_be_bytes_noreduce result

/-- `-&a` -/
def neg (a : BigNumMod M) : Exec ε σ (BigNumMod M) := do
  let zero ← from_u32 ecalls 0
  sub ecalls zero a

end BigNumMod

end Vanadium.AppSdk
