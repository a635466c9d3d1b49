import Vanadium.Common.ClientCommands
import Vanadium.Lib.Exec

/-!
# Reading messages with an index into them

The deserialisers of `common/src/client_commands.rs` once more, as they touch
the bytes. Indexing a slice out of its range is a panic, and here it is one:
the message is the state of a computation, which `byte` and its relatives read
and leave alone. What they answer where no index is out of range is the
`deserialize` of each message.
-/

namespace Vanadium

open Lib

/-- A computation on the bytes of a message. -/
abbrev MessageReader (α : Type) := Exec MessageDeserializationError Bytes α

namespace MessageReader

/-- `data[i]` -/
def byte (i : Nat) : MessageReader U8 := do
  let data ← Exec.get
  Exec.unwrap data[i]?

/-- `&data[off..off + n]` as an array. -/
def array_at (off n : Nat) : MessageReader (Vector U8 n) := do
  let data ← Exec.get
  Exec.assert (off + n ≤ data.length)
  pure (array data off n)

/-- `count` arrays of 32 bytes from offset `off` on, without a copy. -/
def arrays_at (off count : Nat) : MessageReader (List (HashOutput 32)) := do
  let data ← Exec.get
  Exec.assert (off + 32 * count ≤ data.length)
  pure (arrays32 data off count)

/-- `&data[off..]` -/
def rest_from (off : Nat) : MessageReader Bytes := do
  let data ← Exec.get
  Exec.assert (off ≤ data.length)
  pure (data.drop off)

/-- `u32::from_be_bytes` of the four bytes from offset `off` on. -/
def u32_at (off : Nat) : MessageReader U32 := do
  let a ← byte off
  let b ← byte (off + 1)
  let c ← byte (off + 2)
  let d ← byte (off + 3)
  pure (from_be_bytes a b c d)

/-- The command code, which has to be the message's own. -/
def command_code (expected : ClientCommandCode) : MessageReader Unit := do
  let code ← byte 0
  let command_code ← Exec.orElse (ClientCommandCode.try_from code) .invalidClientCommandCode
  Exec.reject (command_code ≠ expected) .mismatchingClientCommandCode

def section_byte : MessageReader SectionKind := do
  let kind ← byte 1
  Exec.orElse (SectionKind.try_from kind) .invalidSectionKind

/-- The whole digests from offset `off` to the end. -/
def digests_from (off : Nat) : MessageReader (List (HashOutput 32)) := do
  let data ← Exec.get
  let proof_len := data.length - off
  Exec.reject (proof_len % 32 ≠ 0) .invalidDataLength
  arrays_at off (proof_len / 32)

/-- The nonce is read only if the page is encrypted. -/
def nonce_at (is_encrypted : Bool) (off : Nat) : MessageReader (Vector U8 12) :=
  if is_encrypted then array_at off 12 else pure (Vector.replicate 12 0)

end MessageReader

open MessageReader

/-! ## Pages -/

def GetPageMessage.read : MessageReader GetPageMessage := do
  let data ← Exec.get
  Exec.reject (data.length ≠ 6) .invalidDataLength
  command_code .getPage
  let section_kind ← section_byte
  let page_index ← u32_at 2
  pure { section_kind, page_index }

def GetPageResponse.read : MessageReader GetPageResponse := do
  let data ← Exec.get
  Exec.reject (data.length < PAGE_SIZE + 1 + 1 + 1 + 12 + 1) .invalidDataLength
  let page_data ← array_at 0 PAGE_SIZE
  let n ← byte PAGE_SIZE
  let t ← byte (PAGE_SIZE + 1)
  let flag ← byte (PAGE_SIZE + 2)
  let is_encrypted := flag == 1
  let nonce ← nonce_at is_encrypted (PAGE_SIZE + 3)
  let pk_byte ← byte (PAGE_SIZE + 15)
  let proof_kind ← Exec.orElse (PageProofKind.try_from pk_byte) .invalidPageProofKind
  let proof_len := data.length - (PAGE_SIZE + 1 + 1 + 1 + 12 + 1)
  Exec.reject (proof_len % 32 ≠ 0) .invalidDataLength
  let slice_len := proof_len / 32
  Exec.reject (t.toNat ≠ slice_len) .invalidDataLength
  let proof ← arrays_at (PAGE_SIZE + 1 + 1 + 1 + 12 + 1) slice_len
  pure { page_data, is_encrypted, nonce, n, t, proof_kind, proof }

/-- `GetPageProofContinuedMessage`, `CommitPageProofContinuedMessage` and
`ReceiveBufferMessage`. -/
def read_bare (expected : ClientCommandCode) : MessageReader Unit := do
  let data ← Exec.get
  Exec.reject (data.length ≠ 1) .invalidDataLength
  command_code expected

/-- `GetPageProofContinuedResponse` and `CommitPageProofContinuedResponse`. -/
def ProofContinuedResponse.read : MessageReader ProofContinuedResponse := do
  let data ← Exec.get
  Exec.reject (data.length < 1) .invalidDataLength
  let t ← byte 0
  let proof ← digests_from 1
  pure { t, proof }

def CommitPageMessage.read : MessageReader CommitPageMessage := do
  let data ← Exec.get
  Exec.reject (data.length ≠ 1 + 1 + 4 + 1 + 12 + PAGE_SIZE) .invalidDataLength
  command_code .commitPage
  let section_kind ← section_byte
  let page_index ← u32_at 2
  let flag ← byte 6
  let is_encrypted := flag == 1
  let nonce ← nonce_at is_encrypted 7
  let data ← array_at (1 + 1 + 4 + 1 + 12) PAGE_SIZE
  pure { section_kind, page_index, is_encrypted, nonce, data }

def CommitPageProofResponse.read : MessageReader CommitPageProofResponse := do
  let data ← Exec.get
  Exec.reject (data.length < 2 + 32) .invalidDataLength
  let n ← byte 0
  let t ← byte 1
  let new_root ← array_at 2 32
  let proof ← digests_from (2 + 32)
  pure { n, t, new_root, proof }

/-! ## Buffers -/

/-- The code is read before anything is known about the length. -/
def SendBufferMessage.read : MessageReader SendBufferMessage := do
  let data ← Exec.get
  let code ← byte 0
  let command_code ← Exec.orElse (ClientCommandCode.try_from code) .invalidClientCommandCode
  Exec.reject (command_code ≠ .sendBuffer ∨ data.length < 6) .mismatchingClientCommandCode
  let type_byte ← byte 1
  let buffer_type ← Exec.orElse (BufferType.try_from type_byte) .invalidBufferType
  let total_size ← u32_at 2
  let data ← rest_from 6
  Exec.reject (data.length > total_size.toNat) .invalidDataLength
  pure { buffer_type, total_size, data }

def SendBufferContinuedMessage.read : MessageReader Bytes := do
  let data ← Exec.get
  Exec.reject (data.length < 1) .invalidDataLength
  command_code .sendBufferContinued
  rest_from 1

def ReceiveBufferResponse.read : MessageReader ReceiveBufferResponse := do
  let data ← Exec.get
  Exec.reject (data.length < 4) .invalidDataLength
  let remaining_length ← u32_at 0
  Exec.reject (data.length - 4 > remaining_length.toNat) .invalidDataLength
  let content ← rest_from 4
  pure { remaining_length, content }

/-! ## Code page hashes -/

def GetCodePageHashes.read : MessageReader GetCodePageHashes := do
  let data ← Exec.get
  Exec.reject (data.length < 1 + 4) .invalidDataLength
  command_code .getCodePageHashes
  let n_prev_batch_pages ← u32_at 1
  let prev_batch_enc_hmacs ← digests_from 5
  pure { n_prev_batch_pages, prev_batch_enc_hmacs }

def GetCodePageHashesResponse.read : MessageReader GetCodePageHashesResponse := do
  let data ← Exec.get
  Exec.reject (data.length < 4) .invalidDataLength
  let n_code_pages ← u32_at 0
  let hashes_len := data.length - 4
  Exec.reject (hashes_len % 32 ≠ 0) .invalidDataLength
  let slice_len := hashes_len / 32
  Exec.reject (slice_len ≠ n_code_pages.toNat) .invalidDataLength
  let code_page_hashes ← arrays_at 4 slice_len
  pure { n_code_pages, code_page_hashes }

/-! ## All of them -/

inductive MessageKind where
  | getPage
  | getPageResponse
  | getPageProofContinued
  | getPageProofContinuedResponse
  | commitPage
  | commitPageProofResponse
  | commitPageProofContinued
  | commitPageProofContinuedResponse
  | sendBuffer
  | sendBufferContinued
  | receiveBuffer
  | receiveBufferResponse
  | getCodePageHashes
  | getCodePageHashesResponse
  deriving DecidableEq, Repr

namespace MessageKind

/-- The type of the messages of a kind, less the command code, which `new` sets. -/
def Value : MessageKind → Type
  | .getPage => GetPageMessage
  | .getPageResponse => GetPageResponse
  | .getPageProofContinued => Unit
  | .getPageProofContinuedResponse => ProofContinuedResponse
  | .commitPage => CommitPageMessage
  | .commitPageProofResponse => CommitPageProofResponse
  | .commitPageProofContinued => Unit
  | .commitPageProofContinuedResponse => ProofContinuedResponse
  | .sendBuffer => SendBufferMessage
  | .sendBufferContinued => Bytes
  | .receiveBuffer => Unit
  | .receiveBufferResponse => ReceiveBufferResponse
  | .getCodePageHashes => GetCodePageHashes
  | .getCodePageHashesResponse => GetCodePageHashesResponse

def serialize : (kind : MessageKind) → kind.Value → Bytes
  | .getPage => GetPageMessage.serialize
  | .getPageResponse => GetPageResponse.serialize
  | .getPageProofContinued => fun _ => GetPageProofContinuedMessage.serialize
  | .getPageProofContinuedResponse => ProofContinuedResponse.serialize
  | .commitPage => CommitPageMessage.serialize
  | .commitPageProofResponse => CommitPageProofResponse.serialize
  | .commitPageProofContinued => fun _ => CommitPageProofContinuedMessage.serialize
  | .commitPageProofContinuedResponse => ProofContinuedResponse.serialize
  | .sendBuffer => SendBufferMessage.serialize
  | .sendBufferContinued => SendBufferContinuedMessage.serialize
  | .receiveBuffer => fun _ => ReceiveBufferMessage.serialize
  | .receiveBufferResponse => ReceiveBufferResponse.serialize
  | .getCodePageHashes => GetCodePageHashes.serialize
  | .getCodePageHashesResponse => GetCodePageHashesResponse.serialize

def read : (kind : MessageKind) → MessageReader kind.Value
  | .getPage => GetPageMessage.read
  | .getPageResponse => GetPageResponse.read
  | .getPageProofContinued => read_bare .getPageProofContinued
  | .getPageProofContinuedResponse => ProofContinuedResponse.read
  | .commitPage => CommitPageMessage.read
  | .commitPageProofResponse => CommitPageProofResponse.read
  | .commitPageProofContinued => read_bare .commitPageProofContinued
  | .commitPageProofContinuedResponse => ProofContinuedResponse.read
  | .sendBuffer => SendBufferMessage.read
  | .sendBufferContinued => SendBufferContinuedMessage.read
  | .receiveBuffer => read_bare .receiveBuffer
  | .receiveBufferResponse => ReceiveBufferResponse.read
  | .getCodePageHashes => GetCodePageHashes.read
  | .getCodePageHashesResponse => GetCodePageHashesResponse.read

/-- The command code of a message of the VM; a response of the host has none. -/
def code : MessageKind → Option ClientCommandCode
  | .getPage => some .getPage
  | .getPageProofContinued => some .getPageProofContinued
  | .commitPage => some .commitPage
  | .commitPageProofContinued => some .commitPageProofContinued
  | .sendBuffer => some .sendBuffer
  | .sendBufferContinued => some .sendBufferContinued
  | .receiveBuffer => some .receiveBuffer
  | .getCodePageHashes => some .getCodePageHashes
  | _ => none

end MessageKind

end Vanadium
