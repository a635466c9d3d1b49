import Vanadium.Common.Memory

/-!
# The manifest of a V-App

The model of `common/src/manifest.rs`. Its (de)serialisation is derived code
of the `postcard` crate and is a parameter where it is used.
-/

namespace Vanadium

def APP_NAME_MAX_LEN : Nat := 32

def APP_VERSION_MAX_LEN : Nat := 32

def MAX_STORAGE_SLOTS : U32 := 4

structure Manifest where
  manifest_version : U32
  vapp_name : String
  vapp_version : String
  entrypoint : U32
  code_start : U32
  code_end : U32
  code_merkle_root : HashOutput 32
  data_start : U32
  data_end : U32
  data_merkle_root : HashOutput 32
  stack_start : U32
  stack_end : U32
  stack_merkle_root : HashOutput 32
  n_storage_slots : U32

/-- `char::is_ascii_graphic`. -/
def is_ascii_graphic (c : Char) : Bool := 0x21 ≤ c.toNat && c.toNat ≤ 0x7e

/-- `str::as_bytes`. -/
def as_bytes (s : String) : Bytes := s.toUTF8.data.toList.map (·.toBitVec)

namespace Manifest

/-- Only printable ASCII characters, and no space at either end. -/
def validate_text (field text : String) : Except String Unit := do
  if !text.toList.all (fun c => is_ascii_graphic c || c == ' ') then
    .error (field ++ " contains non-printable ASCII characters")
  else .ok ()

def validate_spaces (field text : String) : Except String Unit := do
  if text.toList.head? == some ' ' || text.toList.getLast? == some ' ' then
    .error (field ++ " must not start or end with a space")
  else .ok ()

def validate (m : Manifest) : Except String Unit := do
  if (as_bytes m.vapp_name).length > APP_NAME_MAX_LEN then
    .error "vapp_name is too long"
  if (as_bytes m.vapp_version).length > APP_VERSION_MAX_LEN then
    .error "vapp_version is too long"
  if m.entrypoint < m.code_start ∨ m.entrypoint ≥ m.code_end then
    .error "entrypoint must be within the code section"
  if m.entrypoint.toNat % 2 ≠ 0 then
    .error "entrypoint must be 2-byte aligned"
  validate_text "vapp_name" m.vapp_name
  validate_text "vapp_version" m.vapp_version
  validate_spaces "vapp_name" m.vapp_name
  validate_spaces "vapp_version" m.vapp_version
  if m.n_storage_slots > MAX_STORAGE_SLOTS then
    .error "n_storage_slots exceeds maximum allowed"

def n_pages (start end_ : U32) : U32 :=
  1 + (page_start (end_ - 1) - page_start start) / BitVec.ofNat 32 PAGE_SIZE

def n_code_pages (m : Manifest) : U32 := n_pages m.code_start m.code_end

def n_data_pages (m : Manifest) : U32 := n_pages m.data_start m.data_end

def n_stack_pages (m : Manifest) : U32 := n_pages m.stack_start m.stack_end

/-- What `get_vapp_hash` hashes: every field, the texts with a length byte. -/
def hashed (m : Manifest) : Bytes :=
  to_be_bytes m.manifest_version ++
    [BitVec.ofNat 8 (as_bytes m.vapp_name).length] ++ as_bytes m.vapp_name ++
    [BitVec.ofNat 8 (as_bytes m.vapp_version).length] ++ as_bytes m.vapp_version ++
    to_be_bytes m.entrypoint ++
    to_be_bytes m.code_start ++ to_be_bytes m.code_end ++ m.code_merkle_root.toList ++
    to_be_bytes m.data_start ++ to_be_bytes m.data_end ++ m.data_merkle_root.toList ++
    to_be_bytes m.stack_start ++ to_be_bytes m.stack_end ++ m.stack_merkle_root.toList ++
    to_be_bytes m.n_storage_slots

def get_vapp_hash (sha256 : Bytes → HashOutput 32) (m : Manifest) : HashOutput 32 :=
  sha256 m.hashed

end Manifest

end Vanadium
