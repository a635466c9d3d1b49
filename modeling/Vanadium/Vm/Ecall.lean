import Vanadium.Common.Codec
import Vanadium.Common.Cpu
import Vanadium.Common.Manifest
import Vanadium.Vm.UxHandler

/-!
# ECALLs

The model of `vm/src/handlers/lib/ecall.rs`, with `slip21.rs` and the part of
the V-App store in `vapp.rs` that the two storage ECALLs use. The cryptography
and the drawing are the Ledger SDK's; they are functions of `Sdk` on bytes, and
a status that is not `CX_OK` is `none`. A `usize` of the device has 32 bits.

Nearly every ECALL copies its inputs from the V-App's memory, computes, and
copies the result back, each time to or from the segment its pointer is in.
-/

namespace Vanadium

open Lib

/-- A pointer in the V-App's address space. -/
abbrev GuestPointer := U32

/-- The result of an operation on points. -/
inductive EcResult where
  | point (W : Bytes)
  | infinite
  | error
  deriving Inhabited

/-- What the ECALLs take from the SDK. -/
structure Sdk where
  os : TargetOs
  /-- The largest block the allocator has left. -/
  heap : Nat
  math_modm : Bytes → Bytes → Option Bytes
  math_addm : Bytes → Bytes → Bytes → Option Bytes
  math_subm : Bytes → Bytes → Bytes → Option Bytes
  math_multm : Bytes → Bytes → Bytes → Option Bytes
  math_invprimem : Bytes → Bytes → Option Bytes
  math_powm : Bytes → Bytes → Bytes → Option Bytes
  sizeof_ripemd160 : Nat
  sizeof_sha256 : Nat
  sizeof_sha512 : Nat
  sizeof_sha3 : Nat
  /-- The context, the algorithm and the output size. -/
  hash_init_ex : Bytes → U8 → Nat → Option Bytes
  hash_update : Bytes → Bytes → Option Bytes
  /-- The digest, in a buffer of 64 bytes. -/
  hash_final : Bytes → Option (Vector U8 64)
  derive_node_bip32 : List U32 → HashOutput 32 × HashOutput 32
  /-- The public key of a private key, and the length reported for it. -/
  generate_public_key : HashOutput 32 → Option (Nat × Vector U8 65)
  sha256 : Bytes → HashOutput 32
  ripemd160 : Bytes → Vector U8 20
  slip21_seed : HashOutput 32
  hmac_sha512 : Bytes → Bytes → Vector U8 64
  ecfp_add_point : Bytes → Bytes → EcResult
  ecfp_scalar_mult : Bytes → Bytes → EcResult
  /-- The `n`-th call of the random number generator. -/
  rng : Nat → Nat → Bytes
  ecdsa_sign : Bytes → Bytes → Option (Nat × Vector U8 72)
  ecdsa_verify : Bytes → Bytes → Bytes → Bool
  /-- The key, the mode, the message, and the buffer that holds the entropy. -/
  ecschnorr_sign : Bytes → U32 → Bytes → Vector U8 64 → Option (Nat × Vector U8 64)
  ecschnorr_verify : Bytes → U32 → Bytes → Bytes → Bool
  deriving Inhabited

/-! ## The state of the handler -/

abbrev STORAGE_SLOT_SIZE : Nat := 32

abbrev StorageSlot := Vector U8 STORAGE_SLOT_SIZE

/-- An entry of the V-App store. -/
structure VAppEntry where
  vapp_hash : HashOutput 32
  storage_slots : Vector StorageSlot 4

/-- An event of the device's event loop. -/
inductive DeviceEvent where
  | ticker
  | touch (token index : U8)
  | button (button_event : Nat)
  deriving DecidableEq, Repr

/-- The handler, and what it uses of the rest of the device: the line to the
host, the V-App store, the events still to come and the random numbers drawn. -/
structure CommEcallHandler where
  comm : Comm
  ux_handler : UxHandler
  vapp_hash : HashOutput 32
  n_storage_slots : U32
  storage : List (Option VAppEntry)
  events : List DeviceEvent
  n_random : Nat

namespace CommEcallHandler

variable {M : Type}

/-- The handler and the processor it works on. -/
abbrev Ecall (M α : Type) := Exec CommEcallError (CommEcallHandler × Cpu M) α

variable {α : Type}

def on_handler (m : Exec CommEcallError CommEcallHandler α) : Ecall M α :=
  Exec.zoom Prod.fst (fun h s => (h, s.2)) id m

/-- `.map_err(|_| e)` -/
def map_err (e : CommEcallError) (m : Ecall M α) : Ecall M α :=
  Exec.zoom id (fun s _ => s) (fun _ => e) m

/-- `interrupt(resp)?` -/
def exchange (message : Bytes) : Ecall M Bytes :=
  on_handler (Exec.zoom comm (fun comm h => { h with comm }) .interruptError
    (interrupt message))

/-- `cpu.get_segment::<E>(ptr)?` -/
def get_segment (ptr : GuestPointer) : Ecall M Cpu.Segment :=
  Exec.zoom Prod.snd (fun cpu s => (s.1, cpu))
    (fun _ => .cpuError "MemoryError(AddressOutOfBounds)")
    (Cpu.get_segment ptr : Exec (CpuError CommEcallError) (Cpu M) Cpu.Segment)

def on_segment (seg : Cpu.Segment) (access : Exec MemoryError (MemorySegment M) α) :
    Ecall M α :=
  Exec.zoom (fun s => s.2.segment seg) (fun m s => (s.1, s.2.set_segment seg m))
    .memoryError access

variable [PagedMemory M]

/-- `cpu.get_segment::<E>(ptr)?.read_buffer(ptr, ..)?` -/
def read_guest (ptr : GuestPointer) (len : Nat) : Ecall M Bytes := do
  let seg ← get_segment ptr
  on_segment seg (MemorySegment.read_buffer ptr len)

/-- `cpu.get_segment::<E>(ptr)?.write_buffer(ptr, ..)?` -/
def write_guest (ptr : GuestPointer) (buffer : Bytes) : Ecall M Unit := do
  let seg ← get_segment ptr
  on_segment seg (MemorySegment.write_buffer ptr buffer)

/-! ## Buffers to and from the host -/

/-- The loop of `handle_send_buffer`: 249 bytes in the first message, 254 in
every other one. -/
def handle_send_buffer.loop (seg : Cpu.Segment) (message : Nat → Bytes → Bytes)
    (max_chunk : Nat) : Nat → U32 → Nat → Ecall M Unit
  | 0, _, _ => pure ()
  | fuel + 1, g_ptr, size =>
      if size = 0 then pure ()
      else do
        let copy_size := min size max_chunk
        let buffer ← on_segment seg (MemorySegment.read_buffer g_ptr copy_size)
        let _ ← exchange (message size buffer)
        handle_send_buffer.loop seg (fun _ data => SendBufferContinuedMessage.serialize data)
          (255 - 1) fuel (g_ptr + BitVec.ofNat 32 copy_size) (size - copy_size)

/-- The pointer of an empty buffer is not read. -/
def handle_send_buffer (buffer : GuestPointer) (size : Nat) (buffer_type : BufferType) :
    Ecall M Unit :=
  let first := fun size data => SendBufferMessage.serialize
    { buffer_type, total_size := BitVec.ofNat 32 size, data }
  if size = 0 then do
    let _ ← exchange (first size [])
    pure ()
  else do
    Exec.reject (buffer.toNat + size ≥ 2 ^ 32) .overflow
    let seg ← get_segment buffer
    handle_send_buffer.loop seg first (255 - 6) size buffer size

def handle_panic (buffer : GuestPointer) (size : Nat) : Ecall M Unit :=
  handle_send_buffer buffer size .panic

def handle_xsend (buffer : GuestPointer) (size : Nat) : Ecall M Unit :=
  handle_send_buffer buffer size .vAppMessage

def handle_print (buffer : GuestPointer) (size : Nat) : Ecall M Unit :=
  handle_send_buffer buffer size .print

/-- The first chunk says how much there is, every other one how much is left. -/
def handle_xrecv.expect (remaining_length : Option U32) (max_size : U32) (announced : U32) :
    Ecall M U32 :=
  match remaining_length with
  | none => do
      Exec.reject (announced > max_size) (.invalidResponse "Received data is too large")
      pure announced
  | some remaining => do
      Exec.reject (remaining ≠ announced) (.invalidResponse "Mismatching remaining length")
      pure remaining

/-- A chunk is written before its length is checked. -/
def handle_xrecv.loop (seg : Cpu.Segment) (max_size : U32) :
    Nat → Option U32 → U32 → Nat → Ecall M Nat
  | 0, _, _, _ => Exec.stop .hang
  | fuel + 1, remaining_length, g_ptr, total_received =>
      if remaining_length = some 0 then pure total_received
      else do
        let raw_data ← exchange ReceiveBufferMessage.serialize
        let response ← Exec.ofExcept .messageDeserializationError
          (ReceiveBufferResponse.deserialize raw_data)
        let curr_remaining ←
          handle_xrecv.expect remaining_length max_size response.remaining_length
        on_segment seg (MemorySegment.write_buffer g_ptr response.content)
        let chunk_len := BitVec.ofNat 32 response.content.length
        Exec.reject (chunk_len > curr_remaining)
          (.invalidResponse "Chunk exceeds declared remaining length")
        handle_xrecv.loop seg max_size fuel (some (curr_remaining - chunk_len))
          (g_ptr + chunk_len) (total_received + response.content.length)

/-- An iteration consumes an answer of the host, so the answers there are left
are fuel enough. -/
def handle_xrecv (buffer : GuestPointer) (max_size : U32) : Ecall M Nat := do
  let seg ← get_segment buffer
  let s ← Exec.get
  handle_xrecv.loop seg max_size (s.1.comm.replies.length + 1) none buffer 0

/-! ## Storage -/

/-- `VAppStore::find_by_hash` -/
def find_by_hash (storage : List (Option VAppEntry)) (vapp_hash : HashOutput 32) : Option Nat :=
  storage.findIdx? fun entry => entry.any fun e => e.vapp_hash == vapp_hash

/-- `VAppStore::get_entry` -/
def get_entry (storage : List (Option VAppEntry)) (index : Nat) : Option VAppEntry :=
  storage.getD index none

def handle_storage_read (slot_index : U32) (buffer : GuestPointer) (buffer_size : Nat) :
    Ecall M U32 := do
  let (h, _) ← Exec.get
  if buffer_size ≠ STORAGE_SLOT_SIZE then pure 0
  else if slot_index ≥ h.n_storage_slots ∨ slot_index ≥ MAX_STORAGE_SLOTS then pure 0
  else
    match find_by_hash h.storage h.vapp_hash with
    | none => pure 0
    | some vapp_index => do
        let entry ← Exec.orElse (get_entry h.storage vapp_index)
          (.genericError "VApp entry not found")
        let slot_data ← Exec.unwrap entry.storage_slots[slot_index.toNat]?
        write_guest buffer slot_data.toList
        pure 1

def handle_storage_write (slot_index : U32) (buffer : GuestPointer) (buffer_size : Nat) :
    Ecall M U32 := do
  let (h, _) ← Exec.get
  if buffer_size ≠ STORAGE_SLOT_SIZE then pure 0
  else if slot_index ≥ h.n_storage_slots ∨ slot_index ≥ MAX_STORAGE_SLOTS then pure 0
  else
    match find_by_hash h.storage h.vapp_hash with
    | none => pure 0
    | some vapp_index => do
        let slot_data ← read_guest buffer STORAGE_SLOT_SIZE
        let entry ← Exec.orElse (get_entry h.storage vapp_index)
          (.genericError "VApp entry not found")
        let entry := { entry with
          storage_slots :=
            entry.storage_slots.setIfInBounds slot_index.toNat
              (array slot_data 0 STORAGE_SLOT_SIZE) }
        on_handler (Exec.modify fun h =>
          { h with storage := h.storage.set vapp_index (some entry) })
        pure 1

/-! ## Big numbers -/

def MAX_BIGNUMBER_SIZE : Nat := 64

def handle_bn_modm (sdk : Sdk) (r n : GuestPointer) (len : Nat) (m : GuestPointer)
    (m_len : Nat) : Ecall M Unit := do
  Exec.reject (len > MAX_BIGNUMBER_SIZE ∨ m_len > MAX_BIGNUMBER_SIZE)
    (.invalidParameters "len or m_len is too large")
  let r_local ← read_guest n len
  let m_local ← read_guest m m_len
  let r_local ← Exec.orElse (sdk.math_modm r_local m_local) (.genericError "modm failed")
  write_guest r r_local

/-- The three operations on two numbers and a modulus of the same length. -/
def bn_binary (op : Bytes → Bytes → Bytes → Option Bytes) (failed : String)
    (r a b m : GuestPointer) (len : Nat) : Ecall M Unit := do
  Exec.reject (len > MAX_BIGNUMBER_SIZE) (.invalidParameters "len is too large")
  let a_local ← read_guest a len
  let b_local ← read_guest b len
  let m_local ← read_guest m len
  let r_local ← Exec.orElse (op a_local b_local m_local) (.genericError failed)
  write_guest r r_local

def handle_bn_addm (sdk : Sdk) (r a b m : GuestPointer) (len : Nat) : Ecall M Unit :=
  bn_binary sdk.math_addm "addm failed" r a b m len

def handle_bn_subm (sdk : Sdk) (r a b m : GuestPointer) (len : Nat) : Ecall M Unit :=
  bn_binary sdk.math_subm "subm failed" r a b m len

def handle_bn_multm (sdk : Sdk) (r a b m : GuestPointer) (len : Nat) : Ecall M Unit :=
  bn_binary sdk.math_multm "multm failed" r a b m len

def handle_bn_modinv_prime (sdk : Sdk) (r a p : GuestPointer) (len : Nat) : Ecall M Unit := do
  Exec.reject (len > MAX_BIGNUMBER_SIZE) (.invalidParameters "len is too large")
  let a_local ← read_guest a len
  let p_local ← read_guest p len
  let r_local ← Exec.orElse (sdk.math_invprimem a_local p_local)
    (.genericError "modinv failed")
  write_guest r r_local

def handle_bn_powm (sdk : Sdk) (r a e : GuestPointer) (len_e : Nat) (m : GuestPointer)
    (len : Nat) : Ecall M Unit := do
  Exec.reject (len_e > MAX_BIGNUMBER_SIZE) (.invalidParameters "len_e is too large")
  Exec.reject (len > MAX_BIGNUMBER_SIZE) (.invalidParameters "len is too large")
  let a_local ← read_guest a len
  let e_local ← read_guest e len_e
  let m_local ← read_guest m len
  let r_local ← Exec.orElse (sdk.math_powm a_local e_local m_local)
    (.genericError "addm failed")
  write_guest r r_local

/-! ## Hashes -/

def CX_RIPEMD160 : U8 := 1
def CX_SHA256 : U8 := 3
def CX_SHA512 : U8 := 5
def CX_KECCAK : U8 := 6
def CX_SHA3 : U8 := 7

/-- `(hash_identifier >> 16) as u8` -/
def hash_id (hash_identifier : U32) : U8 := (hash_identifier >>> 16).setWidth 8

/-- `(hash_identifier & 0xFFFF) as usize` -/
def output_size (hash_identifier : U32) : Nat := (hash_identifier &&& 0xFFFF).toNat

def get_size_from_id (sdk : Sdk) (hash_identifier : U32) : Except LedgerHashContextError Nat :=
  if hash_identifier >>> 16 = 0 then .error .invalidHashId
  else if hash_id hash_identifier = CX_RIPEMD160 then .ok sdk.sizeof_ripemd160
  else if hash_id hash_identifier = CX_SHA256 then .ok sdk.sizeof_sha256
  else if hash_id hash_identifier = CX_SHA512 then .ok sdk.sizeof_sha512
  else if hash_id hash_identifier = CX_KECCAK ∨ hash_id hash_identifier = CX_SHA3 then
    .ok sdk.sizeof_sha3
  else .error .unsupportedHashId

/-- The output size of the first three algorithms is not looked at. -/
def get_digest_len_from_id (hash_identifier : U32) : Except LedgerHashContextError Nat :=
  if hash_identifier >>> 16 = 0 then .error .invalidHashId
  else if hash_id hash_identifier = CX_RIPEMD160 ∨ hash_id hash_identifier = CX_SHA256 ∨
      hash_id hash_identifier = CX_SHA512 then
    .ok (output_size hash_identifier)
  else if hash_id hash_identifier = CX_KECCAK ∨ hash_id hash_identifier = CX_SHA3 then
    if output_size hash_identifier ∈ [28, 32, 48, 64] then .ok (output_size hash_identifier)
    else .error .invalidHashId
  else .error .unsupportedHashId

def handle_hash_init (sdk : Sdk) (hash_identifier : U32) (ctx : GuestPointer) :
    Ecall M Unit := do
  let ctx_size ← Exec.ofExcept .hashError (get_size_from_id sdk hash_identifier)
  let ctx_local ← read_guest ctx ctx_size
  let ctx_local ← Exec.orElse
    (sdk.hash_init_ex ctx_local (hash_id hash_identifier) (output_size hash_identifier))
    (.genericError "hash init failed")
  write_guest ctx ctx_local

/-- The data is hashed in chunks of 256 bytes. -/
def handle_hash_update.loop (sdk : Sdk) (seg_of_data : Cpu.Segment) :
    Nat → Bytes → U32 → Nat → Ecall M Bytes
  | 0, ctx_local, _, _ => pure ctx_local
  | fuel + 1, ctx_local, data_ptr, data_remaining =>
      if data_remaining = 0 then pure ctx_local
      else do
        let copy_size := min data_remaining 256
        let data_local ← on_segment seg_of_data (MemorySegment.read_buffer data_ptr copy_size)
        let ctx_local ← Exec.orElse (sdk.hash_update ctx_local data_local)
          (.genericError "hash update failed")
        handle_hash_update.loop sdk seg_of_data fuel ctx_local
          (data_ptr + BitVec.ofNat 32 copy_size) (data_remaining - copy_size)

def handle_hash_update (sdk : Sdk) (hash_identifier : U32) (ctx data : GuestPointer)
    (data_len : Nat) : Ecall M Unit := do
  let ctx_size ← Exec.ofExcept .hashError (get_size_from_id sdk hash_identifier)
  if data_len = 0 then pure ()
  else do
    let ctx_local ← read_guest ctx ctx_size
    let seg_of_data ← get_segment data
    let ctx_local ← handle_hash_update.loop sdk seg_of_data data_len ctx_local data data_len
    write_guest ctx ctx_local

/-- A digest longer than the local buffer is a panic. -/
def handle_hash_digest (sdk : Sdk) (hash_identifier : U32) (ctx digest : GuestPointer) :
    Ecall M Unit := do
  let ctx_size ← Exec.ofExcept .hashError (get_size_from_id sdk hash_identifier)
  let ctx_local ← read_guest ctx ctx_size
  let digest_local ← Exec.orElse (sdk.hash_final ctx_local) (.genericError "hash final failed")
  let digest_len ← Exec.ofExcept .hashError (get_digest_len_from_id hash_identifier)
  Exec.assert (digest_len ≤ 64)
  write_guest digest (digest_local.toList.take digest_len)

/-! ## Keys -/

def SECP256K1 : U32 := 0x21

def MAX_BIP32_PATH : Nat := 16

def reject_curve (curve : U32) : Ecall M Unit :=
  Exec.reject (curve ≠ SECP256K1) (.invalidParameters "Unsupported curve")

/-- `u32::from_le_bytes`, for each four bytes. -/
def path_from_bytes (raw : Bytes) (path_len : Nat) : List U32 :=
  (List.range path_len).map fun i =>
    raw.getD (4 * i + 3) 0 ++ raw.getD (4 * i + 2) 0 ++ raw.getD (4 * i + 1) 0 ++
      raw.getD (4 * i) 0

/-- The pointer of an empty path is not read. -/
def read_path (path : GuestPointer) (path_len : Nat) : Ecall M Bytes :=
  if path_len > 0 then read_guest path (path_len * 4) else pure []

def handle_derive_hd_node (sdk : Sdk) (curve : U32) (path : GuestPointer) (path_len : Nat)
    (private_key chain_code : GuestPointer) : Ecall M Unit := do
  reject_curve curve
  Exec.reject (path_len > MAX_BIP32_PATH) (.invalidParameters "path_len is too large")
  let path_local_raw ← read_path path path_len
  let (private_key_local, chain_code_local) :=
    sdk.derive_node_bip32 (path_from_bytes path_local_raw path_len)
  write_guest private_key private_key_local.toList
  write_guest chain_code chain_code_local.toList

def handle_get_master_fingerprint (sdk : Sdk) (curve : U32) : Ecall M U32 := do
  reject_curve curve
  let (private_key_local, _) := sdk.derive_node_bip32 []
  let (W_len, W) ← Exec.orElse (sdk.generate_public_key private_key_local)
    (.genericError "Failed to generate key pair")
  Exec.reject (W_len ≠ 65) (.genericError "Invalid public key length")
  let sha256hash := sdk.sha256 ([2 + W[64] % 2] ++ (W.toList.drop 1).take 32)
  let rip := sdk.ripemd160 sha256hash.toList
  pure (from_be_bytes rip[0] rip[1] rip[2] rip[3])

def SLIP21_MAGIC : Bytes := as_bytes "Symmetric key seed"

def derive_child_node (sdk : Sdk) (cur_node : Vector U8 64) (label : Bytes) : Vector U8 64 :=
  sdk.hmac_sha512 (cur_node.toList.take 32) ([0] ++ label)

def get_custom_slip21_node (sdk : Sdk) (path : List Bytes) : Vector U8 64 :=
  path.foldl (derive_child_node sdk) (sdk.hmac_sha512 SLIP21_MAGIC sdk.slip21_seed.toList)

/-- Each label is preceded by its length, which has to fit. -/
def parse_labels : Nat → Bytes → List Bytes → Option (List Bytes)
  | 0, _, slices => some slices
  | _ + 1, [], slices => some slices
  | fuel + 1, label_len :: rest, slices =>
      if label_len.toNat > rest.length then none
      else parse_labels fuel (rest.drop label_len.toNat)
        (slices ++ [rest.take label_len.toNat])

/-- `.unwrap()` -/
def unwrap_ok (m : Ecall M α) : Ecall M α := fun s =>
  match m s with
  | .err _ s' => .stop .panic s'
  | r => r

/-- The result is written with `unwrap`s. -/
def handle_derive_slip21_node (sdk : Sdk) (labels : GuestPointer) (labels_len : Nat)
    (out : GuestPointer) : Ecall M U32 := do
  Exec.reject (labels_len > 256) (.invalidParameters "labels_len is too large")
  let labels_local ← read_guest labels labels_len
  let slices ← Exec.orElse (parse_labels labels_len labels_local [])
    (.invalidParameters "Invalid labels format")
  let out_node := get_custom_slip21_node sdk slices
  unwrap_ok (write_guest out out_node.toList)
  pure 1

/-! ## Points -/

def infinity : Bytes := List.replicate 65 0

/-- The representation of the result of an operation on points. -/
def point_result (failed : String) : EcResult → Ecall M Bytes
  | .point W => pure W
  | .infinite => pure infinity
  | .error => Exec.throw (.genericError failed)

/-- A point whose first byte is 0 is the point at infinity. -/
def add_points (sdk : Sdk) (p q : Bytes) : EcResult :=
  let p_is_infinity := p.getD 0 0 == 0
  let q_is_infinity := q.getD 0 0 == 0
  if p_is_infinity && q_is_infinity then .infinite
  else if p_is_infinity then .point q
  else if q_is_infinity then .point p
  else sdk.ecfp_add_point p q

def handle_ecfp_add_point (sdk : Sdk) (curve : U32) (r p q : GuestPointer) : Ecall M U32 := do
  reject_curve curve
  let p_local ← read_guest p 65
  let q_local ← read_guest q 65
  let r_local ← point_result "add_point failed" (add_points sdk p_local q_local)
  write_guest r r_local
  pure 1

def handle_ecfp_scalar_mult (sdk : Sdk) (curve : U32) (r p k : GuestPointer) (k_len : Nat) :
    Ecall M U32 := do
  reject_curve curve
  Exec.reject (k_len > 32) (.invalidParameters "k_len is too large")
  let r_local ← read_guest p 65
  if r_local.getD 0 0 = 0 then do
    write_guest r r_local
    pure 1
  else do
    let k_local ← read_guest k k_len
    let r_local ← point_result "scalar_mult failed"
      (if k_local.all (· == 0) then .infinite else sdk.ecfp_scalar_mult r_local k_local)
    write_guest r r_local
    pure 1

def handle_get_random_bytes (sdk : Sdk) (buffer : GuestPointer) (size : Nat) :
    Ecall M U32 :=
  if size = 0 then pure 1
  else do
    Exec.reject (size > 256) (.invalidParameters "size is too large, must be <= 256")
    Exec.reject (buffer.toNat + size ≥ 2 ^ 32) .overflow
    let seg ← get_segment buffer
    let (h, _) ← Exec.get
    on_handler (Exec.modify fun h => { h with n_random := h.n_random + 1 })
    on_segment seg (MemorySegment.write_buffer buffer (sdk.rng h.n_random size))
    pure 1

/-! ## Signatures -/

def RFC6979 : U32 := 0x600

def BIP340 : U32 := 0

def HASH_ID_SHA256 : U32 := 3

def handle_ecdsa_sign (sdk : Sdk) (curve mode hash_id : U32)
    (privkey msg_hash signature : GuestPointer) : Ecall M Nat := do
  reject_curve curve
  Exec.reject (mode ≠ RFC6979)
    (.invalidParameters "Invalid or unsupported ecdsa signing mode")
  Exec.reject (hash_id ≠ HASH_ID_SHA256) (.invalidParameters "Invalid or unsupported hash id")
  let privkey_local ← read_guest privkey 32
  let msg_hash_local ← read_guest msg_hash 32
  let (signature_len, signature_local) ← Exec.orElse
    (sdk.ecdsa_sign privkey_local msg_hash_local)
    (.genericError "cx_ecdsa_sign_no_throw failed")
  Exec.reject (signature_len > 72) (.genericError "Signature length exceeds buffer size")
  write_guest signature (signature_local.toList.take signature_len)
  pure signature_len

def handle_ecdsa_verify (sdk : Sdk) (curve : U32) (pubkey msg_hash signature : GuestPointer)
    (signature_len : Nat) : Ecall M U32 := do
  reject_curve curve
  Exec.reject (signature_len > 72) (.invalidParameters "signature_len is too large")
  let pubkey_local ← read_guest pubkey 65
  let msg_hash_local ← read_guest msg_hash 32
  let signature_local ← read_guest signature signature_len
  pure (Cpu.as_u32 (sdk.ecdsa_verify pubkey_local msg_hash_local signature_local))

def CX_RND_TRNG : U32 := 0x400

def CX_RND_PROVIDED : U32 := 0x800

/-- The entropy, if there is any, is passed in the buffer of the signature. -/
def read_entropy (mode : U32) (entropy : GuestPointer) : Ecall M (U32 × Vector U8 64) :=
  if entropy = 0 then pure (mode ||| CX_RND_TRNG, Vector.replicate 64 0)
  else do
    let data ← read_guest entropy 32
    pure (mode ||| CX_RND_PROVIDED, array data 0 64)

def handle_schnorr_sign (sdk : Sdk) (curve mode hash_id : U32) (privkey msg : GuestPointer)
    (msg_len : Nat) (signature entropy : GuestPointer) : Ecall M Nat := do
  reject_curve curve
  Exec.reject (mode ≠ BIP340)
    (.invalidParameters "Invalid or unsupported schnorr signing mode")
  Exec.reject (msg_len > 128) (.invalidParameters "msg_len is too large")
  Exec.reject (hash_id ≠ HASH_ID_SHA256) (.invalidParameters "Invalid or unsupported hash id")
  let privkey_local ← read_guest privkey 32
  let msg_local ← read_guest msg msg_len
  let (mode, signature_local) ← read_entropy mode entropy
  let (signature_len, signature_local) ← Exec.orElse
    (sdk.ecschnorr_sign privkey_local mode msg_local signature_local)
    (.genericError "cx_schnorr_sign_no_throw failed")
  Exec.reject (signature_len ≠ 64) (.genericError
    "cx_schnorr_sign_no_throw returned a signature of unexpected length")
  write_guest signature (signature_local.toList.take signature_len)
  pure signature_len

def handle_schnorr_verify (sdk : Sdk) (curve mode hash_id : U32) (pubkey msg : GuestPointer)
    (msg_len : Nat) (signature : GuestPointer) (signature_len : Nat) : Ecall M U32 := do
  reject_curve curve
  Exec.reject (mode ≠ BIP340)
    (.invalidParameters "Invalid or unsupported schnorr signing mode")
  Exec.reject (msg_len > 128) (.invalidParameters "msg_len is too large")
  Exec.reject (hash_id ≠ HASH_ID_SHA256) (.invalidParameters "Invalid or unsupported hash id")
  Exec.reject (signature_len ≠ 64) (.invalidParameters "Invalid signature length")
  let pubkey_local ← read_guest pubkey 65
  let msg_local ← read_guest msg msg_len
  let signature_local ← read_guest signature 64
  pure (Cpu.as_u32 (sdk.ecschnorr_verify pubkey_local mode msg_local signature_local))

/-! ## Events and screens -/

/-- The SDK runs the callback of an event before the event loop sees it. -/
def dispatch (ux : UxHandler) : DeviceEvent → UxHandler
  | .ticker => ux
  | .touch token index => ux.layout_touch_callback token index
  | .button button_event => ux.step_button_callback button_event

/-- Consume events up to the next ticker. -/
def wait_for_ticker : List DeviceEvent → UxHandler → Option (List DeviceEvent × UxHandler)
  | [], _ => none
  | .ticker :: events, ux => some (events, ux)
  | event :: events, ux => wait_for_ticker events (dispatch ux event)

/-- The stored event if there is one, else the next ticker. -/
def handle_get_event (event_data_ptr : GuestPointer) : Ecall M U32 := do
  let (h, _) ← Exec.get
  let (event, ux_handler) := h.ux_handler.get_last_event
  on_handler (Exec.set { h with ux_handler })
  match event with
  | some (event_code, event_data) => do
      write_guest event_data_ptr event_data.toList
      pure event_code.toU32
  | none =>
      match wait_for_ticker h.events ux_handler with
      | some (events, ux_handler) => do
          on_handler (Exec.set { h with events, ux_handler })
          pure EventCode.ticker.toU32
      | none => Exec.stop .hang

def MAX_UX_PAGE_LEN : Nat := 512

def MAX_UX_STEP_LEN : Nat := 512

def on_ux (m : Exec CommEcallError UxHandler α) : Ecall M α :=
  on_handler (Exec.zoom ux_handler (fun ux_handler h => { h with ux_handler }) id m)

/-- `T::deserialize_full(..).map_err(|_| ..)?` -/
def deserialize_full (value : Deserializer α) (bytes : Bytes) (failed : String) : Ecall M α :=
  Exec.zoom (fun _ => bytes) (fun _ s => s) (fun _ => .invalidParameters failed)
    value.full

def handle_show_page (sdk : Sdk) (page_ptr : GuestPointer) (page_len : Nat) : Ecall M U32 := do
  Exec.reject (page_len > MAX_UX_PAGE_LEN) (.invalidParameters "page_len is too large")
  let page_local ← read_guest page_ptr page_len
  let page ← deserialize_full (Deserializer.page sdk.heap) page_local
    "Failed to deserialize page"
  on_ux (UxHandler.show_page sdk.os page)
  pure 1

def handle_show_step (sdk : Sdk) (step_ptr : GuestPointer) (step_len : Nat) : Ecall M U32 := do
  Exec.reject (step_len > MAX_UX_STEP_LEN) (.invalidParameters "step_len is too large")
  let step_local ← read_guest step_ptr step_len
  let step ← deserialize_full Deserializer.step step_local "Failed to deserialize step"
  on_ux (UxHandler.show_step sdk.os step)
  pure 1

def VENDOR_ID : BitVec 16 := 0x2C97

def PRODUCT_ID : TargetOs → BitVec 16
  | .nanox => 0x40
  | .nanosplus => 0x50
  | .stax => 0x60
  | .flex => 0x70
  | .apex_p => 0x80

def SCREEN_SIZE : TargetOs → BitVec 16 × BitVec 16
  | .nanox | .nanosplus => (128, 64)
  | .stax => (400, 672)
  | .flex => (480, 600)
  | .apex_p => (300, 400)

def pack_u16 (high low : BitVec 16) : U32 := high.setWidth 32 <<< 16 ||| low.setWidth 32

def handle_get_device_property (sdk : Sdk) (property : U32) : Ecall M U32 :=
  match property.toNat with
  | 0x01 => pure (pack_u16 VENDOR_ID (PRODUCT_ID sdk.os))
  | 0x02 => pure (pack_u16 (SCREEN_SIZE sdk.os).1 (SCREEN_SIZE sdk.os).2)
  | 0x03 => pure 0
  | _ => Exec.throw (.invalidParameters "Unknown device property")

/-! ## The dispatcher -/

/-- The argument registers `A0` to `A7`, and `T0` for the code of the ECALL. -/
def T0 : RegNum := 5
def A0 : RegNum := 10
def A1 : RegNum := 11
def A2 : RegNum := 12
def A3 : RegNum := 13
def A4 : RegNum := 14
def A5 : RegNum := 15
def A6 : RegNum := 16
def A7 : RegNum := 17

/-! The codes of `common/src/ecall_constants.rs`. -/

@[match_pattern] abbrev ECALL_FATAL : Nat := 1
@[match_pattern] abbrev ECALL_XSEND : Nat := 2
@[match_pattern] abbrev ECALL_XRECV : Nat := 3
@[match_pattern] abbrev ECALL_EXIT : Nat := 4
@[match_pattern] abbrev ECALL_PRINT : Nat := 5
@[match_pattern] abbrev ECALL_GET_EVENT : Nat := 10
@[match_pattern] abbrev ECALL_GET_DEVICE_PROPERTY : Nat := 15
@[match_pattern] abbrev ECALL_STORAGE_READ : Nat := 20
@[match_pattern] abbrev ECALL_STORAGE_WRITE : Nat := 21
@[match_pattern] abbrev ECALL_MODM : Nat := 110
@[match_pattern] abbrev ECALL_ADDM : Nat := 111
@[match_pattern] abbrev ECALL_SUBM : Nat := 112
@[match_pattern] abbrev ECALL_MULTM : Nat := 113
@[match_pattern] abbrev ECALL_POWM : Nat := 114
@[match_pattern] abbrev ECALL_MODINV_PRIME : Nat := 115
@[match_pattern] abbrev ECALL_DERIVE_HD_NODE : Nat := 130
@[match_pattern] abbrev ECALL_GET_MASTER_FINGERPRINT : Nat := 131
@[match_pattern] abbrev ECALL_DERIVE_SLIP21_KEY : Nat := 132
@[match_pattern] abbrev ECALL_HASH_INIT : Nat := 150
@[match_pattern] abbrev ECALL_HASH_UPDATE : Nat := 151
@[match_pattern] abbrev ECALL_HASH_DIGEST : Nat := 152
@[match_pattern] abbrev ECALL_ECFP_ADD_POINT : Nat := 160
@[match_pattern] abbrev ECALL_ECFP_SCALAR_MULT : Nat := 161
@[match_pattern] abbrev ECALL_GET_RANDOM_BYTES : Nat := 170
@[match_pattern] abbrev ECALL_ECDSA_SIGN : Nat := 180
@[match_pattern] abbrev ECALL_ECDSA_VERIFY : Nat := 181
@[match_pattern] abbrev ECALL_SCHNORR_SIGN : Nat := 182
@[match_pattern] abbrev ECALL_SCHNORR_VERIFY : Nat := 183
@[match_pattern] abbrev ECALL_SHOW_PAGE : Nat := 192
@[match_pattern] abbrev ECALL_SHOW_STEP : Nat := 193

/-- `reg!(A0) = value` -/
def set_A0 (value : U32) : Ecall M Unit :=
  Exec.modify fun s => (s.1, s.2.set_reg A0 value)

/-- Put what a handler returns into `A0`. -/
def ret (m : Ecall M U32) : Ecall M Unit := do
  let value ← m
  set_A0 value

/-- A handler that returns nothing leaves 1. -/
def ret_one (m : Ecall M Unit) : Ecall M Unit := do
  m
  set_A0 1

def ret_len (m : Ecall M Nat) : Ecall M Unit := do
  let len ← m
  set_A0 (BitVec.ofNat 32 len)

/-- What an ECALL does, by its code. -/
def handle_code (sdk : Sdk) (a : RegNum → U32) (ecall_code : Nat) : Ecall M Unit :=
  match ecall_code with
  | ECALL_EXIT => Exec.throw (.exit (a A0))
  | ECALL_FATAL => do
      map_err (.genericError "xsend failed") (handle_panic (a A0) (a A1).toNat)
      Exec.throw .panic
  | ECALL_XSEND => map_err (.genericError "xsend failed") (handle_xsend (a A0) (a A1).toNat)
  | ECALL_XRECV => ret_len (map_err (.genericError "xrecv failed") (handle_xrecv (a A0) (a A1)))
  | ECALL_PRINT => ret_one (map_err (.genericError "print failed")
      (handle_print (a A0) (a A1).toNat))
  | ECALL_GET_EVENT => ret (handle_get_event (a A0))
  | ECALL_STORAGE_READ => ret (handle_storage_read (a A0) (a A1) (a A2).toNat)
  | ECALL_STORAGE_WRITE => ret (handle_storage_write (a A0) (a A1) (a A2).toNat)
  | ECALL_SHOW_PAGE => ret_one do
      let _ ← handle_show_page sdk (a A0) (a A1).toNat
  | ECALL_SHOW_STEP => ret_one (map_err (.genericError "show_step failed") do
      let _ ← handle_show_step sdk (a A0) (a A1).toNat)
  | ECALL_GET_DEVICE_PROPERTY => ret (map_err (.genericError "get_device_property failed")
      (handle_get_device_property sdk (a A0)))
  | ECALL_MODM => ret_one (handle_bn_modm sdk (a A0) (a A1) (a A2).toNat (a A3) (a A4).toNat)
  | ECALL_ADDM => ret_one (handle_bn_addm sdk (a A0) (a A1) (a A2) (a A3) (a A4).toNat)
  | ECALL_SUBM => ret_one (map_err (.genericError "bn_subm failed")
      (handle_bn_subm sdk (a A0) (a A1) (a A2) (a A3) (a A4).toNat))
  | ECALL_MULTM => ret_one (handle_bn_multm sdk (a A0) (a A1) (a A2) (a A3) (a A4).toNat)
  | ECALL_MODINV_PRIME => ret_one (handle_bn_modinv_prime sdk (a A0) (a A1) (a A2) (a A3).toNat)
  | ECALL_POWM => ret_one (handle_bn_powm sdk (a A0) (a A1) (a A2) (a A3).toNat (a A4) (a A5).toNat)
  | ECALL_HASH_INIT => map_err (.genericError "hash_init failed")
      (handle_hash_init sdk (a A0) (a A1))
  | ECALL_HASH_UPDATE => map_err (.genericError "hash_update failed")
      (handle_hash_update sdk (a A0) (a A1) (a A2) (a A3).toNat)
  | ECALL_HASH_DIGEST => map_err (.genericError "hash_digest failed")
      (handle_hash_digest sdk (a A0) (a A1) (a A2))
  | ECALL_DERIVE_HD_NODE => ret_one
      (handle_derive_hd_node sdk (a A0) (a A1) (a A2).toNat (a A3) (a A4))
  | ECALL_GET_MASTER_FINGERPRINT => ret (handle_get_master_fingerprint sdk (a A0))
  | ECALL_DERIVE_SLIP21_KEY => ret (handle_derive_slip21_node sdk (a A0) (a A1).toNat (a A2))
  | ECALL_ECFP_ADD_POINT => ret (handle_ecfp_add_point sdk (a A0) (a A1) (a A2) (a A3))
  | ECALL_ECFP_SCALAR_MULT => ret
      (handle_ecfp_scalar_mult sdk (a A0) (a A1) (a A2) (a A3) (a A4).toNat)
  | ECALL_GET_RANDOM_BYTES => ret (handle_get_random_bytes sdk (a A0) (a A1).toNat)
  | ECALL_ECDSA_SIGN => ret_len (handle_ecdsa_sign sdk (a A0) (a A1) (a A2) (a A3) (a A4) (a A5))
  | ECALL_ECDSA_VERIFY => ret (handle_ecdsa_verify sdk (a A0) (a A1) (a A2) (a A3) (a A4).toNat)
  | ECALL_SCHNORR_SIGN => ret_len
      (handle_schnorr_sign sdk (a A0) (a A1) (a A2) (a A3) (a A4) (a A5).toNat (a A6) (a A7))
  | ECALL_SCHNORR_VERIFY => ret (handle_schnorr_verify sdk (a A0) (a A1) (a A2) (a A3) (a A4)
      (a A5).toNat (a A6) (a A7).toNat)
  | _ => Exec.throw .unhandledEcall

def handle_ecall (sdk : Sdk) : Ecall M Unit := do
  let (_, cpu) ← Exec.get
  handle_code sdk cpu.reg (cpu.reg T0).toNat

end CommEcallHandler

end Vanadium
