import Vanadium.Common.Accumulator
import Mathlib

/-!
# Messages between the VM and the host

The model of `common/src/client_commands.rs`: the messages the VM sends while
a command is interrupted, and the host's responses. Serialisation is the
concatenation of what `serialize_with` emits. Deserialisation reads the bytes
at the offsets of the source; `array` is the slice-to-array conversion, total
because its callers have checked the length.
-/

namespace Vanadium

/-- A 32-bit machine word (`u32`). -/
abbrev U32 := BitVec 32

/-- `u32::to_be_bytes`. -/
def to_be_bytes (x : U32) : Bytes :=
  [x.extractLsb' 24 8, x.extractLsb' 16 8, x.extractLsb' 8 8, x.extractLsb' 0 8]

/-- `u32::from_be_bytes`. -/
def from_be_bytes (a b c d : U8) : U32 := a ++ b ++ c ++ d

/-- `data[off..off + n]` as an array. -/
def array (data : Bytes) (off n : Nat) : Vector U8 n :=
  ⟨((data.drop off).takeD n 0).toArray, by rw [List.size_toArray, List.takeD_length]⟩

theorem array_toList_of_length {n : Nat} {l : Bytes} (h : l.length = n) :
    (array l 0 n).toList = l := by
  show (l.drop 0).takeD n 0 = l
  rw [List.drop_zero, List.takeD_eq_take _ (Nat.le_of_eq h.symm), ← h, List.take_length]

theorem array_toList {n : Nat} (v : Vector U8 n) : array v.toList 0 n = v :=
  Vector.toList_inj.mp (array_toList_of_length Vector.length_toList)

/-- `count` consecutive 32-byte arrays from offset `off` on. -/
def arrays32 (data : Bytes) (off count : Nat) : List (HashOutput 32) :=
  (List.range count).map fun k => array data (off + 32 * k) 32

def flatten32 (l : List (HashOutput 32)) : Bytes := l.flatMap Vector.toList

abbrev PAGE_SIZE : Nat := 256

def MAX_APDU_DATA_SIZE : Nat := 590

/-- The bytes of one page. -/
abbrev Page := Vector U8 PAGE_SIZE

inductive MessageDeserializationError where
  | invalidClientCommandCode
  | mismatchingClientCommandCode
  | invalidSectionKind
  | invalidPageProofKind
  | invalidDataLength
  | unexpectedCommandCode
  | invalidBufferType
  deriving DecidableEq, Repr

inductive ClientCommandCode where
  | getPage
  | getPageProofContinued
  | commitPage
  | commitPageProofContinued
  | sendBuffer
  | sendBufferContinued
  | receiveBuffer
  | getCodePageHashes
  deriving DecidableEq, Repr

def ClientCommandCode.toU8 : ClientCommandCode → U8
  | .getPage => 0
  | .getPageProofContinued => 1
  | .commitPage => 2
  | .commitPageProofContinued => 3
  | .sendBuffer => 4
  | .sendBufferContinued => 5
  | .receiveBuffer => 6
  | .getCodePageHashes => 7

def ClientCommandCode.try_from (value : U8) : Option ClientCommandCode :=
  match value.toNat with
  | 0 => some .getPage
  | 1 => some .getPageProofContinued
  | 2 => some .commitPage
  | 3 => some .commitPageProofContinued
  | 4 => some .sendBuffer
  | 5 => some .sendBufferContinued
  | 6 => some .receiveBuffer
  | 7 => some .getCodePageHashes
  | _ => none

inductive SectionKind where
  | code
  | data
  | stack
  deriving DecidableEq, Repr

def SectionKind.toU8 : SectionKind → U8
  | .code => 0
  | .data => 1
  | .stack => 2

def SectionKind.try_from (value : U8) : Option SectionKind :=
  match value.toNat with
  | 0 => some .code
  | 1 => some .data
  | 2 => some .stack
  | _ => none

inductive PageProofKind where
  | merkle
  | hmac
  deriving DecidableEq, Repr

def PageProofKind.toU8 : PageProofKind → U8
  | .merkle => 0
  | .hmac => 1

def PageProofKind.try_from (value : U8) : Option PageProofKind :=
  match value.toNat with
  | 0 => some .merkle
  | 1 => some .hmac
  | _ => none

inductive BufferType where
  | vAppMessage
  | panic
  | print
  deriving DecidableEq, Repr

def BufferType.toU8 : BufferType → U8
  | .vAppMessage => 0
  | .panic => 1
  | .print => 2

def BufferType.try_from (value : U8) : Option BufferType :=
  match value.toNat with
  | 0 => some .vAppMessage
  | 1 => some .panic
  | 2 => some .print
  | _ => none

/-- What the deserialisers of the VM's messages begin with. -/
def check_command_code (data : Bytes) (expected : ClientCommandCode) :
    Except MessageDeserializationError Unit :=
  match ClientCommandCode.try_from (data.getD 0 0) with
  | none => .error .invalidClientCommandCode
  | some command_code =>
      if command_code ≠ expected then .error .mismatchingClientCommandCode else .ok ()

/-! ## Pages -/

structure GetPageMessage where
  section_kind : SectionKind
  page_index : U32

def GetPageMessage.serialize (m : GetPageMessage) : Bytes :=
  [ClientCommandCode.getPage.toU8] ++ [m.section_kind.toU8] ++ to_be_bytes m.page_index

def GetPageMessage.deserialize (data : Bytes) :
    Except MessageDeserializationError GetPageMessage :=
  if data.length ≠ 6 then .error .invalidDataLength
  else do
    check_command_code data .getPage
    match SectionKind.try_from (data.getD 1 0) with
    | none => .error .invalidSectionKind
    | some section_kind =>
        .ok { section_kind, page_index :=
          from_be_bytes (data.getD 2 0) (data.getD 3 0) (data.getD 4 0) (data.getD 5 0) }

structure GetPageResponse where
  page_data : Page
  is_encrypted : Bool
  nonce : Vector U8 12
  n : U8
  t : U8
  proof_kind : PageProofKind
  proof : List (HashOutput 32)

def GetPageResponse.max_proof_size : Nat :=
  (MAX_APDU_DATA_SIZE - PAGE_SIZE - 1 - 1 - 1 - 12 - 1) / 32

def GetPageResponse.serialize (r : GetPageResponse) : Bytes :=
  r.page_data.toList ++ [r.n] ++ [r.t] ++ [if r.is_encrypted then 1 else 0] ++
    r.nonce.toList ++ [r.proof_kind.toU8] ++ flatten32 r.proof

/-- The nonce is read only if the page is encrypted, and the number of proof
elements present has to be the one announced. -/
def GetPageResponse.deserialize (data : Bytes) :
    Except MessageDeserializationError GetPageResponse :=
  if data.length < PAGE_SIZE + 1 + 1 + 1 + 12 + 1 then .error .invalidDataLength
  else
    let n := data.getD PAGE_SIZE 0
    let t := data.getD (PAGE_SIZE + 1) 0
    let is_encrypted := data.getD (PAGE_SIZE + 2) 0 == 1
    let nonce :=
      if is_encrypted then array data (PAGE_SIZE + 3) 12 else Vector.replicate 12 0
    match PageProofKind.try_from (data.getD (PAGE_SIZE + 15) 0) with
    | none => .error .invalidPageProofKind
    | some proof_kind =>
        let proof_len := data.length - (PAGE_SIZE + 1 + 1 + 1 + 12 + 1)
        if proof_len % 32 ≠ 0 then .error .invalidDataLength
        else
          let slice_len := proof_len / 32
          if t.toNat ≠ slice_len then .error .invalidDataLength
          else
            .ok { page_data := array data 0 PAGE_SIZE, is_encrypted, nonce, n, t,
                  proof_kind
                  proof := arrays32 data (PAGE_SIZE + 1 + 1 + 1 + 12 + 1) slice_len }

/-- `GetPageProofContinuedMessage`, which has no fields. -/
def GetPageProofContinuedMessage.serialize : Bytes :=
  [ClientCommandCode.getPageProofContinued.toU8]

/-- `GetPageProofContinuedMessage`, `CommitPageProofContinuedMessage` and
`ReceiveBufferMessage` are their command code. -/
def deserialize_bare (expected : ClientCommandCode) (data : Bytes) :
    Except MessageDeserializationError Unit :=
  if data.length ≠ 1 then .error .invalidDataLength else check_command_code data expected

def GetPageProofContinuedMessage.deserialize :
    Bytes → Except MessageDeserializationError Unit :=
  deserialize_bare .getPageProofContinued

/-- `GetPageProofContinuedResponse` and `CommitPageProofContinuedResponse`,
which have the same two fields. -/
structure ProofContinuedResponse where
  t : U8
  proof : List (HashOutput 32)

def ProofContinuedResponse.max_proof_size : Nat := (MAX_APDU_DATA_SIZE - 1) / 32

def ProofContinuedResponse.serialize (r : ProofContinuedResponse) : Bytes :=
  [r.t] ++ flatten32 r.proof

def ProofContinuedResponse.deserialize (data : Bytes) :
    Except MessageDeserializationError ProofContinuedResponse :=
  if data.length < 1 then .error .invalidDataLength
  else
    let t := data.getD 0 0
    let proof_len := data.length - 1
    if proof_len % 32 ≠ 0 then .error .invalidDataLength
    else .ok { t, proof := arrays32 data 1 (proof_len / 32) }

def GetPageProofContinuedResponse.deserialize :
    Bytes → Except MessageDeserializationError ProofContinuedResponse :=
  ProofContinuedResponse.deserialize

def CommitPageProofContinuedResponse.deserialize :
    Bytes → Except MessageDeserializationError ProofContinuedResponse :=
  ProofContinuedResponse.deserialize

structure CommitPageMessage where
  section_kind : SectionKind
  page_index : U32
  is_encrypted : Bool
  nonce : Vector U8 12
  data : Page

def CommitPageMessage.serialize (m : CommitPageMessage) : Bytes :=
  [ClientCommandCode.commitPage.toU8] ++ [m.section_kind.toU8] ++
    to_be_bytes m.page_index ++
    (if m.is_encrypted then [1] ++ m.nonce.toList else List.replicate 13 0) ++
    m.data.toList

def CommitPageMessage.deserialize (data : Bytes) :
    Except MessageDeserializationError CommitPageMessage :=
  if data.length ≠ 1 + 1 + 4 + 1 + 12 + PAGE_SIZE then .error .invalidDataLength
  else do
    check_command_code data .commitPage
    match SectionKind.try_from (data.getD 1 0) with
    | none => .error .invalidSectionKind
    | some section_kind =>
        let is_encrypted := data.getD 6 0 == 1
        .ok {
          section_kind
          page_index :=
            from_be_bytes (data.getD 2 0) (data.getD 3 0) (data.getD 4 0) (data.getD 5 0)
          is_encrypted
          nonce := if is_encrypted then array data 7 12 else Vector.replicate 12 0
          data := array data (1 + 1 + 4 + 1 + 12) PAGE_SIZE }

structure CommitPageProofResponse where
  n : U8
  t : U8
  new_root : HashOutput 32
  proof : List (HashOutput 32)

def CommitPageProofResponse.max_proof_size : Nat := (MAX_APDU_DATA_SIZE - 2 - 32) / 32

def CommitPageProofResponse.serialize (r : CommitPageProofResponse) : Bytes :=
  [r.n] ++ [r.t] ++ r.new_root.toList ++ flatten32 r.proof

def CommitPageProofResponse.deserialize (data : Bytes) :
    Except MessageDeserializationError CommitPageProofResponse :=
  if data.length < 2 + 32 then .error .invalidDataLength
  else
    let proof_len := data.length - (2 + 32)
    if proof_len % 32 ≠ 0 then .error .invalidDataLength
    else
      .ok { n := data.getD 0 0, t := data.getD 1 0, new_root := array data 2 32
            proof := arrays32 data (2 + 32) (proof_len / 32) }

def CommitPageProofContinuedMessage.serialize : Bytes :=
  [ClientCommandCode.commitPageProofContinued.toU8]

def CommitPageProofContinuedMessage.deserialize :
    Bytes → Except MessageDeserializationError Unit :=
  deserialize_bare .commitPageProofContinued

/-! ## Buffers -/

structure SendBufferMessage where
  buffer_type : BufferType
  total_size : U32
  data : Bytes

def SendBufferMessage.serialize (m : SendBufferMessage) : Bytes :=
  [ClientCommandCode.sendBuffer.toU8] ++ [m.buffer_type.toU8] ++
    to_be_bytes m.total_size ++ m.data

/-- `data[0]` is read before the length is checked; callers have found it. -/
def SendBufferMessage.deserialize (data : Bytes) :
    Except MessageDeserializationError SendBufferMessage :=
  match ClientCommandCode.try_from (data.getD 0 0) with
  | none => .error .invalidClientCommandCode
  | some command_code =>
      if command_code ≠ .sendBuffer ∨ data.length < 6 then .error .mismatchingClientCommandCode
      else
        match BufferType.try_from (data.getD 1 0) with
        | none => .error .invalidBufferType
        | some buffer_type =>
            let total_size :=
              from_be_bytes (data.getD 2 0) (data.getD 3 0) (data.getD 4 0) (data.getD 5 0)
            let data := data.drop 6
            if data.length > total_size.toNat then .error .invalidDataLength
            else .ok { buffer_type, total_size, data }

def SendBufferContinuedMessage.serialize (data : Bytes) : Bytes :=
  [ClientCommandCode.sendBufferContinued.toU8] ++ data

def SendBufferContinuedMessage.deserialize (data : Bytes) :
    Except MessageDeserializationError Bytes :=
  if data.length < 1 then .error .invalidDataLength
  else do
    check_command_code data .sendBufferContinued
    .ok (data.drop 1)

def ReceiveBufferMessage.serialize : Bytes := [ClientCommandCode.receiveBuffer.toU8]

def ReceiveBufferMessage.deserialize : Bytes → Except MessageDeserializationError Unit :=
  deserialize_bare .receiveBuffer

structure ReceiveBufferResponse where
  remaining_length : U32
  content : Bytes

def ReceiveBufferResponse.max_chunk_size : Nat := MAX_APDU_DATA_SIZE - 4

def ReceiveBufferResponse.serialize (r : ReceiveBufferResponse) : Bytes :=
  to_be_bytes r.remaining_length ++ r.content

def ReceiveBufferResponse.deserialize (data : Bytes) :
    Except MessageDeserializationError ReceiveBufferResponse :=
  if data.length < 4 then .error .invalidDataLength
  else
    let remaining_length :=
      from_be_bytes (data.getD 0 0) (data.getD 1 0) (data.getD 2 0) (data.getD 3 0)
    if data.length - 4 > remaining_length.toNat then .error .invalidDataLength
    else .ok { remaining_length, content := data.drop 4 }

/-! ## Code page hashes -/

structure GetCodePageHashes where
  n_prev_batch_pages : U32
  prev_batch_enc_hmacs : List (HashOutput 32)

def GetCodePageHashes.max_hashes : Nat := (MAX_APDU_DATA_SIZE - 4 - 1) / 32

def GetCodePageHashes.serialize (m : GetCodePageHashes) : Bytes :=
  [ClientCommandCode.getCodePageHashes.toU8] ++ to_be_bytes m.n_prev_batch_pages ++
    flatten32 m.prev_batch_enc_hmacs

def GetCodePageHashes.deserialize (data : Bytes) :
    Except MessageDeserializationError GetCodePageHashes :=
  if data.length < 1 + 4 then .error .invalidDataLength
  else
    match ClientCommandCode.try_from (data.getD 0 0) with
    | none => .error .invalidClientCommandCode
    | some command_code =>
        if command_code ≠ .getCodePageHashes then .error .mismatchingClientCommandCode
        else
          let n_prev_batch_pages :=
            from_be_bytes (data.getD 1 0) (data.getD 2 0) (data.getD 3 0) (data.getD 4 0)
          let hmacs_len := data.length - 5
          if hmacs_len % 32 ≠ 0 then .error .invalidDataLength
          else
            .ok { n_prev_batch_pages
                  prev_batch_enc_hmacs := arrays32 data 5 (hmacs_len / 32) }

structure GetCodePageHashesResponse where
  n_code_pages : U32
  code_page_hashes : List (HashOutput 32)

def GetCodePageHashesResponse.max_hashes : Nat := GetCodePageHashes.max_hashes

def GetCodePageHashesResponse.serialize (m : GetCodePageHashesResponse) : Bytes :=
  to_be_bytes m.n_code_pages ++ flatten32 m.code_page_hashes

def GetCodePageHashesResponse.deserialize (data : Bytes) :
    Except MessageDeserializationError GetCodePageHashesResponse :=
  if data.length < 4 then .error .invalidDataLength
  else
    let n_code_pages :=
      from_be_bytes (data.getD 0 0) (data.getD 1 0) (data.getD 2 0) (data.getD 3 0)
    let hashes_len := data.length - 4
    if hashes_len % 32 ≠ 0 then .error .invalidDataLength
    else
      let slice_len := hashes_len / 32
      if slice_len ≠ n_code_pages.toNat then .error .invalidDataLength
      else .ok { n_code_pages, code_page_hashes := arrays32 data 4 slice_len }

end Vanadium
