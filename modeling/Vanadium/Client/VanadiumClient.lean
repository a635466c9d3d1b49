import Vanadium.Client.PreloadVapp
import Vanadium.Common.Codec

/-!
# The engine of the client

The model of `VAppEngine` in `client-sdk/src/vanadium_client.rs`, which serves
a running V-App: pages out of the client's segments, and buffers from and to
whoever talks to the V-App. The device is the `Transport` of `PreloadVapp`. Every
turn of a loop that waits for the device consumes one of its answers, so the
answers there are left are fuel enough.
-/

namespace Vanadium.Client

open Lib

/-- What the source boxes as a `dyn Error`. -/
inductive BoxedError where
  | memorySegment (e : MemorySegmentError)
  | messageDeserialization (e : MessageDeserializationError)
  | other (msg : String)
  deriving DecidableEq, Repr

inductive VAppEngineError where
  | invalidCommandCode
  | transportError (e : String)
  | accessViolation
  | interruptedExecutionExpected
  | responseError (msg : String)
  | vmRuntimeError
  | vAppPanic
  | genericError (e : BoxedError)
  deriving DecidableEq, Repr

inductive VAppResponse where
  | message (buf : Bytes)
  | panic (msg : String)
  | exited (status : U32)

structure VAppEngine where
  code_seg : MemorySegment
  data_seg : MemorySegment
  stack_seg : MemorySegment
  transport : Transport
  /-- What the writer answers to a buffer: nothing, or its error. -/
  print_writer : Bytes → Option String
  /-- What has been written to it. -/
  printed : Bytes
  pending_receive_buffer : Option Bytes
  current_status : StatusWord
  current_result : Bytes
  code_hmacs : Option (List (HashOutput 32))

namespace VAppEngine

def segment (e : VAppEngine) : SectionKind → MemorySegment
  | .code => e.code_seg
  | .data => e.data_seg
  | .stack => e.stack_seg

def set_segment (e : VAppEngine) (seg : MemorySegment) : SectionKind → VAppEngine
  | .code => { e with code_seg := seg }
  | .data => { e with data_seg := seg }
  | .stack => { e with stack_seg := seg }

abbrev Engine := Exec VAppEngineError VAppEngine

/-- `self.transport.exchange(apdu)` -/
def exchange (apdu : APDUCommand) : Engine (StatusWord × Bytes) :=
  Exec.zoom transport (fun transport e => { e with transport }) .transportError
    (Client.exchange apdu)

/-- `M::deserialize(data)?` -/
def parse {α : Type} (r : Except MessageDeserializationError α) : Engine α :=
  Exec.ofExcept (fun e => .genericError (.messageDeserialization e)) r

/-- The serialized page and its proof, or what else the segment returns. -/
def from_segment {α : Type} (r : Except MemorySegmentError α) : Engine α :=
  Exec.ofExcept (fun e => .genericError (.memorySegment e)) r

/-! ## Pages -/

/-- The loops that send the rest of a proof. `last` is returned when there is no
rest; `deserialize` is that of the request the device makes in between. -/
def send_proof (deserialize : Bytes → Except MessageDeserializationError Unit)
    (proof : List (HashOutput 32)) (last : StatusWord × Bytes) :
    Nat → Nat → Engine (StatusWord × Bytes)
  | 0, _ => pure last
  | fuel + 1, offset =>
      if offset < proof.length then do
        let remaining := proof.length - offset
        let t := min remaining ProofContinuedResponse.max_proof_size
        let (new_status, new_result) ← exchange (apdu_continue (ProofContinuedResponse.serialize
          { t := BitVec.ofNat 8 t, proof := (proof.drop offset).take t }))
        let offset := offset + t
        if offset ≥ proof.length then pure (new_status, new_result)
        else do
          Exec.reject (new_status ≠ .interruptedExecution) .interruptedExecutionExpected
          parse (deserialize new_result)
          send_proof deserialize proof last fuel offset
      else pure last

/-- The page with its HMAC, for a page of code if there are HMACs. -/
def process_get_page.with_hmac (code_hmacs : List (HashOutput 32)) (page_index : U32)
    (is_encrypted : Bool) (nonce : Vector U8 12) (page_data : Page) :
    Engine (StatusWord × Bytes) := do
  Exec.reject (is_encrypted = true) (.responseError "Code pages should not be encrypted")
  Exec.reject (nonce ≠ Vector.replicate 12 0)
    (.responseError "Code pages should have a null nonce")
  let hmac ← Exec.orElse code_hmacs[page_index.toNat]?
    (.responseError "Missing code-page HMAC")
  exchange (apdu_continue (GetPageResponse.serialize
    { page_data, is_encrypted, nonce, n := 1, t := 1, proof_kind := .hmac, proof := [hmac] }))

/-- The page with its Merkle proof, in as many messages as it takes. -/
def process_get_page.with_proof (proof : List (HashOutput 32)) (is_encrypted : Bool)
    (nonce : Vector U8 12) (page_data : Page) : Engine (StatusWord × Bytes) := do
  let n := BitVec.ofNat 8 proof.length
  let t := BitVec.ofNat 8 (min proof.length GetPageResponse.max_proof_size)
  let (status, result) ← exchange (apdu_continue (GetPageResponse.serialize
    { page_data, is_encrypted, nonce, n, t, proof_kind := .merkle, proof := proof.take t.toNat }))
  if t < n then do
    Exec.reject (status ≠ .interruptedExecution ∨ result = []) .interruptedExecutionExpected
    parse (GetPageProofContinuedMessage.deserialize result)
    send_proof GetPageProofContinuedMessage.deserialize proof (status, result) proof.length t.toNat
  else pure (status, result)

def process_get_page (command : Bytes) : Engine (StatusWord × Bytes) := do
  let msg ← parse (GetPageMessage.deserialize command)
  let e ← Exec.get
  let (serialized_page, proof) ←
    from_segment ((e.segment msg.section_kind).get_page msg.page_index)
  Exec.assert (serialized_page.length = 1 + 12 + PAGE_SIZE)
  let is_encrypted := serialized_page.getD 0 0 != 0
  let nonce := array serialized_page 1 12
  let page_data := array serialized_page 13 PAGE_SIZE
  match msg.section_kind, e.code_hmacs with
  | .code, some code_hmacs =>
      process_get_page.with_hmac code_hmacs msg.page_index is_encrypted nonce page_data
  | _, _ => process_get_page.with_proof proof is_encrypted nonce page_data

variable (sha256 : Bytes → HashOutput 32)

def process_commit_page (command : Bytes) : Engine (StatusWord × Bytes) := do
  let msg ← parse (CommitPageMessage.deserialize command)
  let e ← Exec.get
  Exec.reject (msg.section_kind = .code) .accessViolation
  Exec.assert (msg.is_encrypted = true)
  let serialized_page := [1] ++ msg.nonce.toList ++ msg.data.toList
  let ((proof, new_root), seg) ← from_segment
    ((e.segment msg.section_kind).store_page sha256 msg.page_index serialized_page)
  Exec.set (e.set_segment seg msg.section_kind)
  let n := BitVec.ofNat 8 proof.length
  let t := BitVec.ofNat 8 (min proof.length CommitPageProofResponse.max_proof_size)
  let (status, result) ← exchange (apdu_continue (CommitPageProofResponse.serialize
    { n, t, new_root, proof := proof.take t.toNat }))
  if t < n ∧ status = .interruptedExecution ∧ result ≠ [] then do
    parse (CommitPageProofContinuedMessage.deserialize result)
    send_proof CommitPageProofContinuedMessage.deserialize proof (status, result) proof.length
      t.toNat
  else pure (status, result)

/-- Serve the page requests that come, up to what is none. -/
def process_page_requests : Nat → StatusWord × Bytes → Engine (StatusWord × Bytes)
  | 0, _ => Exec.stop .hang
  | fuel + 1, (status, result) =>
      if status ≠ .interruptedExecution ∨ result = [] then pure (status, result)
      else do
        let client_command_code ← Exec.orElse (ClientCommandCode.try_from (result.getD 0 0))
          .invalidCommandCode
        match client_command_code with
        | .getPage => do
            let r ← process_get_page result
            process_page_requests fuel r
        | .commitPage => do
            let r ← process_commit_page sha256 result
            process_page_requests fuel r
        | _ => pure (status, result)

def exchange_and_process_page_requests (apdu : APDUCommand) : Engine (StatusWord × Bytes) := do
  let r ← exchange apdu
  let e ← Exec.get
  process_page_requests sha256 (e.transport.answers.length + 1) r

/-! ## Buffers -/

def process_send_buffer_generic.loop : Nat → U32 → Bytes → Engine Bytes
  | 0, _, _ => Exec.stop .hang
  | fuel + 1, remaining_len, buf =>
      if remaining_len > 0 then do
        let (status, result) ← exchange_and_process_page_requests sha256 (apdu_continue [])
        Exec.reject (status ≠ .interruptedExecution) .interruptedExecutionExpected
        Exec.reject (result = []) (.responseError "Empty response")
        let data ← parse (SendBufferContinuedMessage.deserialize result)
        Exec.reject (data.length > remaining_len.toNat)
          (.responseError "Received total_size does not match expected")
        process_send_buffer_generic.loop fuel (remaining_len - BitVec.ofNat 32 data.length)
          (buf ++ data)
      else pure buf

def process_send_buffer_generic (command : Bytes) : Engine (BufferType × Bytes) := do
  let msg ← parse (SendBufferMessage.deserialize command)
  Exec.reject (msg.data.length > msg.total_size.toNat)
    (.responseError "Received data length exceeds expected remaining length")
  let e ← Exec.get
  let buf ← process_send_buffer_generic.loop sha256 (e.transport.answers.length + 1)
    (msg.total_size - BitVec.ofNat 32 msg.data.length) msg.data
  pure (msg.buffer_type, buf)

/-- What becomes of a buffer: a message or a panic is handed on, what is printed
is written. -/
def deliver (buf : Bytes) : BufferType → Engine (Option VAppResponse)
  | .vAppMessage => pure (some (.message buf))
  | .panic => do
      let panic_message ← Exec.orElse (Deserializer.from_utf8 buf)
        (.genericError (.other "invalid utf-8"))
      pure (some (.panic panic_message))
  | .print => do
      let e ← Exec.get
      match e.print_writer buf with
      | some msg => Exec.throw (.genericError (.other msg))
      | none => do
          Exec.set { e with printed := e.printed ++ buf }
          pure none

/-- `self.current_status = status; self.current_result = result;` -/
def set_current (r : StatusWord × Bytes) : Engine Unit :=
  Exec.modify fun e => { e with current_status := r.1, current_result := r.2 }

def process_send_buffer (command : Bytes) : Engine (Option VAppResponse) := do
  let (buffer_type, buf) ← process_send_buffer_generic sha256 command
  let response ← deliver buf buffer_type
  let r ← exchange_and_process_page_requests sha256 (apdu_continue [])
  set_current r
  pure response

/-- A message is asked for once per chunk, and the last answer is the device's
next request. -/
def process_receive_buffer.loop (bytes : Bytes) : Nat → U32 → Nat → Engine (StatusWord × Bytes)
  | 0, _, _ => Exec.stop .hang
  | fuel + 1, remaining_len, offset => do
      let chunk_len := min remaining_len.toNat ReceiveBufferResponse.max_chunk_size
      let data := ReceiveBufferResponse.serialize
        { remaining_length := remaining_len, content := (bytes.drop offset).take chunk_len }
      let (status, result) ← exchange_and_process_page_requests sha256 (apdu_continue data)
      let remaining_len := remaining_len - BitVec.ofNat 32 chunk_len
      if remaining_len = 0 then pure (status, result)
      else do
        Exec.reject (status ≠ .interruptedExecution) .interruptedExecutionExpected
        Exec.reject (result = []) (.responseError "Empty response")
        parse (ReceiveBufferMessage.deserialize result)
        process_receive_buffer.loop bytes fuel remaining_len (offset + chunk_len)

/-- With nothing to send, the answer is an empty buffer. -/
def process_receive_buffer (command : Bytes) : Engine (StatusWord × Bytes) := do
  parse (ReceiveBufferMessage.deserialize command)
  let e ← Exec.get
  Exec.set { e with pending_receive_buffer := none }
  match e.pending_receive_buffer with
  | some bytes =>
      process_receive_buffer.loop sha256 bytes (bytes.length + 1) (BitVec.ofNat 32 bytes.length) 0
  | none =>
      exchange_and_process_page_requests sha256 (apdu_continue
        (ReceiveBufferResponse.serialize { remaining_length := 0, content := [] }))

/-! ## A step -/

def step : Engine (Option VAppResponse) := do
  let e ← Exec.get
  if e.current_status = .ok then do
    Exec.reject (e.current_result.length ≠ 4)
      (.responseError "The V-App should return a 4-byte exit code")
    let b := fun i => e.current_result.getD i 0
    pure (some (.exited (from_be_bytes (b 0) (b 1) (b 2) (b 3))))
  else do
    Exec.reject (e.current_status = .vmRuntimeError) .vmRuntimeError
    Exec.reject (e.current_status = .vAppPanic) .vAppPanic
    Exec.reject (e.current_status ≠ .interruptedExecution) .interruptedExecutionExpected
    Exec.reject (e.current_result = []) (.responseError "empty command")
    let client_command_code ← Exec.orElse (ClientCommandCode.try_from (e.current_result.getD 0 0))
      .invalidCommandCode
    match client_command_code with
    | .getPage => do
        let r ← process_get_page e.current_result
        set_current r
        pure none
    | .commitPage => do
        let r ← process_commit_page sha256 e.current_result
        set_current r
        pure none
    | .sendBuffer => process_send_buffer sha256 e.current_result
    | .receiveBuffer => do
        let r ← process_receive_buffer sha256 e.current_result
        set_current r
        pure none
    | .sendBufferContinued | .getPageProofContinued | .commitPageProofContinued
    | .getCodePageHashes => Exec.throw (.responseError "Unexpected command")

end VAppEngine

end Vanadium.Client
