import Vanadium.Common.Memory

/-!
# Labels, as a V-App encodes them

The model of the encoder in `derive_slip21_key` of `app-sdk/src/slip21.rs`. A
V-App runs on 32 bits: sums of lengths wrap, and no vector is longer than
`isize::MAX`. `none` stands for a panic.
-/

namespace Vanadium.Slip21

open Lib

def ISIZE_MAX : Nat := 2 ^ 31 - 1

/-- The lengths of the labels, each with its prefix. -/
def encoded_length (labels : List Bytes) : Nat :=
  (labels.map fun label => label.length + 1).sum % 2 ^ 32

/-- Write the length prefix, followed by the label. -/
def push_label (encoded_labels label : Bytes) : Option Bytes :=
  let encoded := encoded_labels ++ [BitVec.ofNat 8 label.length] ++ label
  if encoded.length > ISIZE_MAX then none else some encoded

def encode_labels.loop : List Bytes → Bytes → Option Bytes
  | [], encoded_labels => some encoded_labels
  | label :: labels, encoded_labels =>
      if label.length > 252 then none
      else do
        let encoded_labels ← push_label encoded_labels label
        loop labels encoded_labels

def encode_labels (labels : List Bytes) : Option Bytes :=
  if encoded_length labels > 256 then none else encode_labels.loop labels []

end Vanadium.Slip21
