import Vanadium.Common.ClientCommands
import Vanadium.Lib.Exec

/-!
# Paged memory and memory segments

The first half of `common/src/vm.rs`. A paged memory hands out references to
its pages; a reference is read with `deref` and written with `deref_mut`, and
both act on the memory's current state. A segment is a range of addresses over
such a memory.

Address arithmetic is that of `u32` in a release build: it wraps, except where
the source asks for `checked_add`.
-/

namespace Vanadium

open Lib

inductive MemoryError where
  | pageNotFound
  | addressOutOfBounds
  | unalignedAddress
  | zeroSize
  | startAddressNotAligned
  | overflow
  | genericError (msg : String)
  deriving DecidableEq, Repr

class PagedMemory (M : Type) where
  PageRef : Type
  get_page : U32 → Exec MemoryError M PageRef
  deref : M → PageRef → Page
  deref_mut : M → PageRef → Page → M

/-! ## Pages in a vector -/

structure VecMemory where
  pages : List Page

def VecMemory.new (n_pages : Nat) : VecMemory :=
  { pages := List.replicate n_pages (Vector.replicate PAGE_SIZE 0) }

instance : PagedMemory VecMemory where
  PageRef := Nat
  get_page page_index := fun m =>
    if page_index.toNat < m.pages.length then .ok page_index.toNat m
    else .err .pageNotFound m
  deref m i := m.pages.getD i (Vector.replicate PAGE_SIZE 0)
  deref_mut m i page := { pages := m.pages.set i page }

/-! ## Segments -/

/-- `page_start`: the address of the page containing `address`. -/
def page_start (address : U32) : U32 := address &&& ~~~(BitVec.ofNat 32 PAGE_SIZE - 1)

theorem page_start_eq (a : U32) : page_start a = (a >>> 8) <<< 8 := by
  have h : (~~~(BitVec.ofNat 32 PAGE_SIZE - 1) : U32) = 0xFFFFFF00#32 := by decide
  rw [page_start, h]
  ext i hi
  have hmask : (4294967040#32)[i] = decide (8 ≤ i) := by
    revert i; decide
  by_cases h8 : 8 ≤ i
  · simp [hmask, h8, show ¬ i < 8 by omega, show 8 + (i - 8) = i by omega,
      BitVec.getLsbD_eq_getElem hi]
  · simp [hmask, h8, show i < 8 by omega]

theorem page_start_toNat (a : U32) : (page_start a).toNat = a.toNat / 256 * 256 := by
  have := a.isLt
  rw [page_start_eq, BitVec.toNat_shiftLeft, BitVec.toNat_ushiftRight,
    Nat.shiftRight_eq_div_pow, Nat.shiftLeft_eq]
  omega

theorem PAGE_SIZE_toNat : (BitVec.ofNat 32 PAGE_SIZE).toNat = 256 := rfl

/-- A range of addresses over a paged memory. -/
structure MemorySegment (M : Type) where
  start_address : U32
  size : U32
  paged_memory : M

namespace MemorySegment

variable {M : Type}

def new (start_address size : U32) (paged_memory : M) :
    Except MemoryError (MemorySegment M) :=
  if size = 0 then .error .zeroSize
  else if start_address.toNat % 2 ≠ 0 then .error .startAddressNotAligned
  else if start_address.toNat + (size - 1).toNat ≥ 2 ^ 32 then .error .overflow
  else .ok { start_address, size, paged_memory }

def contains (seg : MemorySegment M) (address : U32) : Bool :=
  address ≥ seg.start_address && address < seg.start_address + seg.size

/-- The page of an address and the offset in it. -/
def page_index (seg : MemorySegment M) (address : U32) : U32 :=
  (address - page_start seg.start_address) / BitVec.ofNat 32 PAGE_SIZE

def offset (seg : MemorySegment M) (address : U32) : Nat :=
  ((address - page_start seg.start_address) % BitVec.ofNat 32 PAGE_SIZE).toNat

variable [PagedMemory M]

/-- `self.paged_memory.get_page(..)?` -/
def get_page (page_index : U32) :
    Exec MemoryError (MemorySegment M) (PagedMemory.PageRef M) :=
  Exec.zoom paged_memory (fun m seg => { seg with paged_memory := m }) id
    (PagedMemory.get_page page_index)

/-- The bytes `offset`, `offset + 1`, .. of a page; an index past the end of the
page is a panic. -/
def read_page (page : PagedMemory.PageRef M) (offset n : Nat) :
    Exec MemoryError (MemorySegment M) Bytes := do
  let seg ← Exec.get
  Exec.assert (offset + n ≤ PAGE_SIZE)
  pure (((PagedMemory.deref seg.paged_memory page).toList.drop offset).take n)

def write_page (page : PagedMemory.PageRef M) (offset : Nat) (bytes : Bytes) :
    Exec MemoryError (MemorySegment M) Unit := do
  let seg ← Exec.get
  Exec.assert (offset + bytes.length ≤ PAGE_SIZE)
  let old := (PagedMemory.deref seg.paged_memory page).toList
  let new := old.take offset ++ bytes ++ old.drop (offset + bytes.length)
  Exec.set { seg with
    paged_memory := PagedMemory.deref_mut seg.paged_memory page (array new 0 PAGE_SIZE) }

/-- The checks and the page lookup shared by the accesses of `width` bytes. -/
def locate (address : U32) (width : U32) :
    Exec MemoryError (MemorySegment M) (PagedMemory.PageRef M × Nat) := do
  let seg ← Exec.get
  Exec.reject (address < seg.start_address ∨
    address > seg.start_address + seg.size - width) .addressOutOfBounds
  Exec.reject (address.toNat % width.toNat ≠ 0) .unalignedAddress
  let page ← get_page (seg.page_index address)
  pure (page, seg.offset address)

def read_u8 (address : U32) : Exec MemoryError (MemorySegment M) U8 := do
  let (page, offset) ← locate address 1
  let b ← read_page page offset 1
  pure (b.getD 0 0)

/-- Little-endian. -/
def read_u16 (address : U32) : Exec MemoryError (MemorySegment M) (BitVec 16) := do
  let (page, offset) ← locate address 2
  let b ← read_page page offset 2
  pure (b.getD 1 0 ++ b.getD 0 0)

def read_u32 (address : U32) : Exec MemoryError (MemorySegment M) U32 := do
  let (page, offset) ← locate address 4
  let b ← read_page page offset 4
  pure (b.getD 3 0 ++ b.getD 2 0 ++ b.getD 1 0 ++ b.getD 0 0)

def write_u8 (address : U32) (value : U8) : Exec MemoryError (MemorySegment M) Unit := do
  let (page, offset) ← locate address 1
  write_page page offset [value]

def write_u16 (address : U32) (value : BitVec 16) :
    Exec MemoryError (MemorySegment M) Unit := do
  let (page, offset) ← locate address 2
  write_page page offset [value.extractLsb' 0 8, value.extractLsb' 8 8]

def write_u32 (address : U32) (value : U32) :
    Exec MemoryError (MemorySegment M) Unit := do
  let (page, offset) ← locate address 4
  write_page page offset [value.extractLsb' 0 8, value.extractLsb' 8 8,
    value.extractLsb' 16 8, value.extractLsb' 24 8]

/-- The bounds check of `read_buffer` and `write_buffer`: the end address is
computed with `checked_add`, the segment's own end is not. -/
def check_range (address : U32) (len : Nat) : Exec MemoryError (MemorySegment M) Unit := do
  let seg ← Exec.get
  let len := BitVec.ofNat 32 len
  Exec.reject (address.toNat + len.toNat ≥ 2 ^ 32) .overflow
  let end_address := address + len
  Exec.reject (address < seg.start_address ∨
    end_address > seg.start_address + seg.size) .addressOutOfBounds

/-- The loop of `read_buffer`: one iteration a page. Every iteration reads at
least one byte, so `remaining` of them are enough. -/
def read_buffer.loop : Nat → U32 → Nat → Bytes → Exec MemoryError (MemorySegment M) Bytes
  | 0, _, _, buffer => pure buffer
  | fuel + 1, current_address, remaining, buffer =>
      if remaining = 0 then pure buffer
      else do
        let seg ← Exec.get
        let offset := seg.offset current_address
        let bytes_to_read := min (PAGE_SIZE - offset) remaining
        let page ← get_page (seg.page_index current_address)
        let bytes ← read_page page offset bytes_to_read
        read_buffer.loop fuel (current_address + BitVec.ofNat 32 bytes_to_read)
          (remaining - bytes_to_read) (buffer ++ bytes)

def read_buffer (address : U32) (len : Nat) : Exec MemoryError (MemorySegment M) Bytes := do
  check_range address len
  read_buffer.loop len address len []

def write_buffer.loop : Nat → U32 → Bytes → Exec MemoryError (MemorySegment M) Unit
  | 0, _, _ => pure ()
  | fuel + 1, current_address, buffer =>
      if buffer.length = 0 then pure ()
      else do
        let seg ← Exec.get
        let offset := seg.offset current_address
        let bytes_to_write := min (PAGE_SIZE - offset) buffer.length
        let page ← get_page (seg.page_index current_address)
        write_page page offset (buffer.take bytes_to_write)
        write_buffer.loop fuel (current_address + BitVec.ofNat 32 bytes_to_write)
          (buffer.drop bytes_to_write)

def write_buffer (address : U32) (buffer : Bytes) :
    Exec MemoryError (MemorySegment M) Unit := do
  check_range address buffer.length
  write_buffer.loop buffer.length address buffer

end MemorySegment

end Vanadium
