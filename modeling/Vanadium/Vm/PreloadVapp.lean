import Vanadium.Common.Manifest
import Vanadium.Vm.OutsourcedMem

/-!
# Preloading the code of a V-App

The model of `vm/src/handlers/preload_vapp.rs`. The host sends the hashes of
all the code pages, in batches of its own choice; for each it gets back an
HMAC, masked with a key that is released only if the hashes were those of the
manifest.

The random number generator of the device is the parameter `ephemeral_sk`, and
the `postcard` parser is the parameter `take_from_bytes`.
-/

namespace Vanadium

open Lib

/-- The status words of the modelled handlers. -/
inductive AppSW where
  | incorrectData
  deriving DecidableEq, Repr

namespace handler_preload_vapp

variable (dev : Device) (app_auth_key vapp_hash ephemeral_sk : HashOutput 32)

/-- The variables of the loop over the batches. -/
structure Progress where
  n_page_hashes_received : Nat
  root_computer : MerkleAccumulatorRootComputer 32

/-- Send a message and wait for the host's next batch. -/
def exchange (message : GetCodePageHashes) : Exec AppSW Comm Bytes :=
  Exec.zoom id (fun c _ => c) (fun _ => .incorrectData) (interrupt message.serialize)

/-- The masked HMAC of one page hash. -/
def encrypted_hmac (i : U32) (page_hash : HashOutput 32) : Option (HashOutput 32) :=
  (dev.compute_code_page_hmac app_auth_key vapp_hash i page_hash).map fun hmac =>
    xor32 hmac (dev.compute_page_hmac_mask ephemeral_sk i)

/-- The loop over the hashes of a batch. -/
def process_batch : List (HashOutput 32) → Progress → List (HashOutput 32) →
    Exec AppSW Comm (Progress × List (HashOutput 32))
  | [], p, response_data => pure (p, response_data)
  | page_hash_i :: rest, p, response_data => do
      let i := BitVec.ofNat 32 p.n_page_hashes_received
      let encrypted_hmac_i ← Exec.orElse
        (encrypted_hmac dev app_auth_key vapp_hash ephemeral_sk i page_hash_i) .incorrectData
      let root_computer ← Exec.unwrap (p.root_computer.feed dev.sha256 page_hash_i)
      process_batch rest
        { n_page_hashes_received := p.n_page_hashes_received + 1, root_computer }
        (response_data ++ [encrypted_hmac_i])

/-- The loop over the batches, from the data of the host's last command. An
iteration consumes a reply, so the replies there are at its start are fuel
enough. -/
def loop (n_code_pages_rounded : Nat) : Nat → Progress → Bytes → Exec AppSW Comm Progress
  | 0, _, _ => Exec.stop .hang
  | fuel + 1, p, data => do
      let batch ← Exec.ofExcept (fun _ => .incorrectData)
        (GetCodePageHashesResponse.deserialize data)
      if batch.n_code_pages = 0 then pure p
      else
        Exec.reject
          (p.n_page_hashes_received + batch.n_code_pages.toNat > n_code_pages_rounded)
          .incorrectData
        let (p, response_data) ← process_batch dev app_auth_key vapp_hash ephemeral_sk
          batch.code_page_hashes p []
        let data ← exchange
          { n_prev_batch_pages := BitVec.ofNat 32 p.n_page_hashes_received
            prev_batch_enc_hmacs := response_data }
        loop n_code_pages_rounded fuel p data

end handler_preload_vapp

open handler_preload_vapp in
/-- The handler of the preload command: the key, or a status word. -/
def handler_preload_vapp (dev : Device)
    (take_from_bytes : Bytes → Option (Manifest × Bytes)) (ephemeral_sk : HashOutput 32)
    (data_raw : Bytes) : Exec AppSW Comm (HashOutput 32) := do
  let (manifest, rest) ← Exec.orElse (take_from_bytes data_raw) .incorrectData
  Exec.reject (rest.length ≠ 0) .incorrectData
  Exec.ofExcept (fun _ => .incorrectData) manifest.validate
  let vapp_hash := manifest.get_vapp_hash dev.sha256
  let app_auth_key := dev.get_vapp_auth_key vapp_hash
  let c ← Exec.get
  let data ← exchange { n_prev_batch_pages := 0, prev_batch_enc_hmacs := [] }
  let n_code_pages_rounded :=
    OutsourcedMemory.n_pages_adjusted manifest.n_code_pages.toNat
  let root_computer ← Exec.unwrap (MerkleAccumulatorRootComputer.new n_code_pages_rounded)
  let p ← loop dev app_auth_key vapp_hash ephemeral_sk n_code_pages_rounded
    c.replies.length { n_page_hashes_received := 0, root_computer } data
  Exec.reject (p.n_page_hashes_received ≠ n_code_pages_rounded) .incorrectData
  let computed_root ← Exec.unwrap p.root_computer.root
  Exec.reject (computed_root ≠ manifest.code_merkle_root) .incorrectData
  pure ephemeral_sk

end Vanadium
