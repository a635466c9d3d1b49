import Vanadium.Client.Memory
import Vanadium.Lib.Exec
import Vanadium.Vm.Crypto

/-!
# The client's side of preloading

The model of `preload_vapp` in `client-sdk/src/vanadium_client.rs`. The device
is a list of answers, as the host is for the VM: an answer is a status word
with data, or a failure of the transport. The serialisation of the manifest is
the parameter `to_allocvec`.
-/

namespace Vanadium.Client

open Lib

inductive StatusWord where
  | deny
  | storeFull
  | incorrectData
  | notSupported
  | wrongP1P2
  | wrongDataLength
  | insNotSupported
  | claNotSupported
  | badState
  | signatureFail
  | ok
  | interruptedExecution
  | vmRuntimeError
  | vAppPanic
  | unknown
  deriving DecidableEq, Repr

structure APDUCommand where
  cla : U8
  ins : U8
  p1 : U8
  p2 : U8
  data : Bytes
  deriving DecidableEq, Repr

def apdu_continue (data : Bytes) : APDUCommand :=
  { cla := 0xE0, ins := 0xff, p1 := 0, p2 := 0, data }

def apdu_preload_vapp (serialized_manifest : Bytes) : APDUCommand :=
  { cla := 0xE0, ins := 4, p1 := 0, p2 := 0, data := serialized_manifest }

/-- The answers the device still has to give, and the commands it has been
sent, latest first. -/
structure Transport where
  answers : List (Option (StatusWord × Bytes))
  sent : List APDUCommand := []

def exchange (apdu : APDUCommand) : Exec String Transport (StatusWord × Bytes) := fun t =>
  let sent := apdu :: t.sent
  match t.answers with
  | [] => .stop .hang { t with sent }
  | some answer :: answers => .ok answer { answers, sent }
  | none :: answers => .err "exchange failed" { answers, sent }

namespace preload_vapp

variable (sha256 : Bytes → HashOutput 32)

/-- `leaf_hash = SHA256(0x00 || serialized_page)`, page by page. -/
def leaf_hashes (code_seg : MemorySegment) : List Nat →
    Exec String Transport (List (HashOutput 32))
  | [] => pure []
  | i :: is => do
      let (serialized_page, _) ← Exec.ofExcept (fun _ => "failed to get code page")
        (code_seg.get_page (BitVec.ofNat 32 i))
      let rest ← leaf_hashes code_seg is
      pure (sha256 ([0x00] ++ serialized_page) :: rest)

/-- Send the batches until the device answers with the key. -/
def loop (n_code_pages_rounded : Nat) (leaf_hashes : List (HashOutput 32)) :
    Nat → Nat → List (HashOutput 32) →
    Exec String Transport (HashOutput 32 × List (HashOutput 32))
  | 0, _, _ => Exec.stop .hang
  | fuel + 1, offset, all_encrypted_hmacs => do
      let batch_size := min GetCodePageHashesResponse.max_hashes
        (n_code_pages_rounded - offset)
      let response := GetCodePageHashesResponse.serialize
        { n_code_pages := BitVec.ofNat 32 batch_size
          code_page_hashes := (leaf_hashes.drop offset).take batch_size }
      let (status, result) ← exchange (apdu_continue response)
      let offset := offset + batch_size
      if status = .ok then
        Exec.reject (result.length ≠ 32) "expected a 32-byte decryption key in response"
        pure (array result 0 32, all_encrypted_hmacs)
      else
        Exec.reject (status ≠ .interruptedExecution)
          "unexpected status word during preload"
        Exec.reject (result = []) "empty response from VM"
        let command_code ← Exec.orElse (ClientCommandCode.try_from (result.getD 0 0))
          "invalid command code"
        Exec.reject (command_code ≠ .getCodePageHashes)
          "unexpected command code during preload"
        let msg ← Exec.ofExcept (fun _ => "failed to parse GetCodePageHashes")
          (GetCodePageHashes.deserialize result)
        loop n_code_pages_rounded leaf_hashes fuel offset
          (all_encrypted_hmacs ++ msg.prev_batch_enc_hmacs)

/-- `hmac_i = encrypted_hmac_i XOR SHA256("VND_HMAC_MASK" || ephemeral_sk || be32(i))`. -/
def decrypt (ephemeral_sk : HashOutput 32) (i : Nat) (encrypted_hmac : HashOutput 32) :
    HashOutput 32 :=
  let page_sk_i := sha256 (TAG_PAGE_HMAC_MASK ++ ephemeral_sk.toList ++
    to_be_bytes (BitVec.ofNat 32 i))
  xor32 encrypted_hmac page_sk_i

end preload_vapp

/-- The code segment of the V-App's file. -/
structure Segment where
  data : Bytes
  start : U32
  end_ : U32

open preload_vapp in
def preload_vapp (sha256 : Bytes → HashOutput 32) (to_allocvec : Manifest → Option Bytes)
    (manifest : Manifest) (code_segment : Segment) :
    Exec String Transport (List (HashOutput 32)) := do
  let serialized_manifest ← Exec.orElse (to_allocvec manifest)
    "manifest serialization failed"
  let code_seg ← Exec.unwrap
    (MemorySegment.new sha256 code_segment.start code_segment.data)
  let n_code_pages_rounded := checked_next_power_of_two manifest.n_code_pages.toNat
  let leaf_hashes ← leaf_hashes sha256 code_seg (List.range n_code_pages_rounded)
  let (status, result) ← exchange (apdu_preload_vapp serialized_manifest)
  Exec.reject (status ≠ .interruptedExecution)
    "expected InterruptedExecution from preload APDU"
  let _ ← Exec.ofExcept (fun _ => "failed to parse initial GetCodePageHashes")
    (GetCodePageHashes.deserialize result)
  let t ← Exec.get
  let (ephemeral_sk, all_encrypted_hmacs) ← loop n_code_pages_rounded leaf_hashes
    (t.answers.length + 1) 0 []
  Exec.reject (all_encrypted_hmacs.length ≠ n_code_pages_rounded)
    "number of encrypted HMACs does not match number of code pages"
  pure (all_encrypted_hmacs.mapIdx (decrypt sha256 ephemeral_sk))

end Vanadium.Client
