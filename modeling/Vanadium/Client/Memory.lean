import Vanadium.Common.Manifest

/-!
# The memory segments of the client

The model of `client-sdk/src/memory.rs`: a segment of the V-App's file, cut
into pages, padded to a power of two of them, under a `MerkleAccumulator`.
-/

namespace Vanadium.Client

variable (sha256 : Bytes → HashOutput 32)

/-- The content of a leaf: a flag and a nonce, or 13 zero bytes, and the page. -/
def get_serialized_page (data : Bytes) (nonce : Option (Vector U8 12)) : Bytes :=
  (match nonce with
    | some nonce => 0x01 :: nonce.toList
    | none => List.replicate 13 0x00) ++ data

inductive MemorySegmentError where
  | pageNotFound
  | invalidPageSize
  | accumulatorError (e : AccumulatorError)
  deriving DecidableEq, Repr

structure MemorySegment where
  content : MerkleAccumulator Bytes 32

namespace MemorySegment

/-- `&data[i..j]`, which panics out of range. -/
def slice (data : Bytes) (i j : Nat) : Option Bytes :=
  if i ≤ j ∧ j ≤ data.length then some ((data.drop i).take (j - i)) else none

/-- The pages from `current_addr` on, zero bytes around what the data does not
cover. A turn of the loop copies at least one byte, so there are no more turns
than bytes. -/
def pages (start end_ : U32) (data : Bytes) : Nat → U32 → Option (List Bytes)
  | 0, current_addr => if current_addr ≥ end_ then some [] else none
  | fuel + 1, current_addr =>
      if current_addr ≥ end_ then some []
      else
        let page_start_addr := page_start current_addr
        let page_end_addr := page_start_addr + BitVec.ofNat 32 PAGE_SIZE
        let content_end_addr := if page_end_addr ≤ end_ then page_end_addr else end_
        match slice data (current_addr - start).toNat (content_end_addr - start).toNat with
        | none => none
        | some content =>
            let page_content :=
              List.replicate (current_addr - page_start_addr).toNat 0 ++ content ++
                List.replicate (page_end_addr - content_end_addr).toNat 0
            (pages start end_ data fuel page_end_addr).map
              (get_serialized_page page_content none :: ·)

def empty_page : Bytes := get_serialized_page (List.replicate PAGE_SIZE 0) none

/-- `None` is a panic. -/
def new (start : U32) (data : Bytes) : Option MemorySegment := do
  let end_ := start + BitVec.ofNat 32 data.length
  let pages ← pages start end_ data data.length start
  let target_len := checked_next_power_of_two pages.length
  let content ← MerkleAccumulator.new sha256
    (pages ++ List.replicate (target_len - pages.length) empty_page)
  pure { content }

def get_page (seg : MemorySegment) (page_index : U32) :
    Except MemorySegmentError (Bytes × List (HashOutput 32)) :=
  match seg.content.get page_index.toNat with
  | none => .error .pageNotFound
  | some content =>
      match seg.content.prove page_index.toNat with
      | .error e => .error (.accumulatorError e)
      | .ok proof => .ok (content, proof)

/-- The proof is that of the page that was there before. -/
def store_page (seg : MemorySegment) (page_index : U32) (content : Bytes) :
    Except MemorySegmentError ((List (HashOutput 32) × HashOutput 32) × MemorySegment) :=
  if content.length ≠ 1 + 12 + PAGE_SIZE then .error .invalidPageSize
  else
    match seg.content.update sha256 page_index.toNat content with
    | .error e => .error (.accumulatorError e)
    | .ok (proof, content) => .ok (proof, { content })

def get_content_root (seg : MemorySegment) : HashOutput 32 := seg.content.root

end MemorySegment

end Vanadium.Client
