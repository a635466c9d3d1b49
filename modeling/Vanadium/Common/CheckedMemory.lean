import Vanadium.Common.Memory

/-!
# Segments in a build with overflow checks

The address arithmetic of `common/src/vm.rs` once more, as a build does it that
checks for overflow: a sum or a difference outside `u32` is a panic. The
accesses of one, two and four bytes compute addresses in `locate` only.
-/

namespace Vanadium

open Lib

namespace MemorySegment.Checked

variable {M : Type}

def plus (x y : U32) : Exec MemoryError (MemorySegment M) U32 := do
  Exec.assert (x.toNat + y.toNat < 2 ^ 32)
  pure (x + y)

def minus (x y : U32) : Exec MemoryError (MemorySegment M) U32 := do
  Exec.assert (y.toNat ≤ x.toNat)
  pure (x - y)

/-- The second comparison is made only if the first one holds. -/
def contains (address : U32) : Exec MemoryError (MemorySegment M) Bool := do
  let seg ← Exec.get
  if address < seg.start_address then pure false
  else do
    let end_address ← plus seg.start_address seg.size
    pure (address < end_address)

variable [PagedMemory M]

def locate (address width : U32) :
    Exec MemoryError (MemorySegment M) (PagedMemory.PageRef M × Nat) := do
  let seg ← Exec.get
  Exec.reject (address < seg.start_address) .addressOutOfBounds
  let end_address ← plus seg.start_address seg.size
  let last ← minus end_address width
  Exec.reject (address > last) .addressOutOfBounds
  Exec.reject (address.toNat % width.toNat ≠ 0) .unalignedAddress
  let relative_address ← minus address (page_start seg.start_address)
  let page ← get_page (relative_address / BitVec.ofNat 32 PAGE_SIZE)
  pure (page, (relative_address % BitVec.ofNat 32 PAGE_SIZE).toNat)

def check_range (address : U32) (len : Nat) : Exec MemoryError (MemorySegment M) Unit := do
  let seg ← Exec.get
  let len := BitVec.ofNat 32 len
  Exec.reject (address.toNat + len.toNat ≥ 2 ^ 32) .overflow
  Exec.reject (address < seg.start_address) .addressOutOfBounds
  let end_address ← plus seg.start_address seg.size
  Exec.reject (address + len > end_address) .addressOutOfBounds

def read_buffer.loop : Nat → U32 → Nat → Bytes → Exec MemoryError (MemorySegment M) Bytes
  | 0, _, _, buffer => pure buffer
  | fuel + 1, current_address, remaining, buffer =>
      if remaining = 0 then pure buffer
      else do
        let seg ← Exec.get
        let relative_address ← minus current_address (page_start seg.start_address)
        let offset := (relative_address % BitVec.ofNat 32 PAGE_SIZE).toNat
        let bytes_to_read := min (PAGE_SIZE - offset) remaining
        let page ← get_page (relative_address / BitVec.ofNat 32 PAGE_SIZE)
        let bytes ← read_page page offset bytes_to_read
        let next_address ← plus current_address (BitVec.ofNat 32 bytes_to_read)
        read_buffer.loop fuel next_address (remaining - bytes_to_read) (buffer ++ bytes)

def read_buffer (address : U32) (len : Nat) : Exec MemoryError (MemorySegment M) Bytes := do
  check_range address len
  read_buffer.loop len address len []

def write_buffer.loop : Nat → U32 → Bytes → Exec MemoryError (MemorySegment M) Unit
  | 0, _, _ => pure ()
  | fuel + 1, current_address, buffer =>
      if buffer.length = 0 then pure ()
      else do
        let seg ← Exec.get
        let relative_address ← minus current_address (page_start seg.start_address)
        let offset := (relative_address % BitVec.ofNat 32 PAGE_SIZE).toNat
        let bytes_to_write := min (PAGE_SIZE - offset) buffer.length
        let page ← get_page (relative_address / BitVec.ofNat 32 PAGE_SIZE)
        write_page page offset (buffer.take bytes_to_write)
        let next_address ← plus current_address (BitVec.ofNat 32 bytes_to_write)
        write_buffer.loop fuel next_address (buffer.drop bytes_to_write)

def write_buffer (address : U32) (buffer : Bytes) :
    Exec MemoryError (MemorySegment M) Unit := do
  check_range address buffer.length
  write_buffer.loop buffer.length address buffer

end MemorySegment.Checked

end Vanadium
