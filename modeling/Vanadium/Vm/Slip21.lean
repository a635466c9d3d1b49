import Vanadium.Vm.Ecall

/-!
# Labels, as the VM reads them

The loop of `handle_derive_slip21_node` in `vm/src/handlers/lib/ecall.rs` over its
array of 256 bytes, with the accesses to the array as they are: an index or a range
that is not in it is a panic. The handler itself takes the labels off a list.
-/

namespace Vanadium.CommEcallHandler

open Lib

variable {σ : Type}

/-- `&bytes[first..last]` -/
def slice (bytes : Bytes) (first last : Nat) : Exec CommEcallError σ Bytes :=
  Exec.unwrap
    (if first ≤ last ∧ last ≤ bytes.length then some ((bytes.drop first).take (last - first))
      else none)

def label_slices.loop (labels_local : Vector U8 256) (labels_len : Nat) :
    Nat → Nat → List Bytes → Exec CommEcallError σ (List Bytes)
  | 0, _, _ => Exec.stop .hang
  | fuel + 1, offset, slices =>
      if offset < labels_len then do
        let label_len ← Exec.unwrap labels_local.toList[offset]?
        let offset := offset + 1
        Exec.reject (offset + label_len.toNat > labels_len)
          (.invalidParameters "Invalid labels format")
        let label ← slice labels_local.toList offset (offset + label_len.toNat)
        label_slices.loop labels_local labels_len fuel (offset + label_len.toNat)
          (slices ++ [label])
      else pure slices

/-- The offset grows in every turn. -/
def label_slices (labels_local : Vector U8 256) (labels_len : Nat) :
    Exec CommEcallError σ (List Bytes) :=
  label_slices.loop labels_local labels_len (labels_len + 1) 0 []

end Vanadium.CommEcallHandler
