import Vanadium.Common.ClientCommands
import Vanadium.Lib.Exec

/-!
# The device's primitives and its line to the host

The model of `vm/src/aes.rs`, `vm/src/auth.rs` and `vm/src/io.rs`. The
primitives themselves come from the Ledger SDK and are parameters: SHA-256 and
HMAC-SHA-256 are functions of `Device`, and an AES key is its block function.

The host is a list of answers. Quantifying over lists covers every host,
however it reacts to what it is sent, since a run consumes its answers in
order; a host that stops answering is a list that ends.
-/

namespace Vanadium

open Lib

/-- What the VM takes from the SDK, and the authentication key in its flash. -/
structure Device where
  sha256 : Bytes → HashOutput 32
  /-- `HmacSha256::new(key)`, `update(msg)`, `finalize()`; may fail. -/
  hmac_sha256 : Bytes → Bytes → Option (HashOutput 32)
  auth_key : HashOutput 32

/-! ## AES-CTR -/

/-- A key, as its `cx_aes_enc_block`. -/
structure AesKey where
  encrypt_block : Vector U8 16 → Option (Vector U8 16)

/-- A key and the nonce of the next message. -/
structure AesCtr where
  key : AesKey
  nonce : Vector U8 12

namespace AesCtr

def new (key : AesKey) : AesCtr := { key, nonce := Vector.replicate 12 0 }

/-- Add one to a big-endian counter, given least significant byte first. -/
def increment_be_slice.go : Bytes → Bytes
  | [] => []
  | b :: rest => if b + 1 ≠ 0 then (b + 1) :: rest else (b + 1) :: go rest

def increment_be_slice {n : Nat} (counter : Vector U8 n) : Vector U8 n :=
  array (increment_be_slice.go counter.toList.reverse).reverse 0 n

/-- The loop over the 16-byte chunks of the input; the last one may be
partial. -/
def process_with_counter.loop (key : AesKey) :
    Nat → Bytes → Vector U8 16 → Bytes → Option Bytes
  | 0, _, _, output => some output
  | blocks + 1, input, counter, output =>
      match key.encrypt_block counter with
      | none => none
      | some keystream =>
          let chunk := input.take 16
          let output := output ++ List.zipWith (· ^^^ ·) chunk keystream.toList
          process_with_counter.loop key blocks (input.drop 16)
            (increment_be_slice counter) output

def process_with_counter (key : AesKey) (input : Bytes) (counter : Vector U8 16) :
    Option Bytes :=
  if input.isEmpty then some []
  else process_with_counter.loop key ((input.length + 15) / 16) input counter []

def create_counter_block (nonce : Vector U8 12) (initial_counter : U32) :
    Vector U8 16 :=
  array (nonce.toList ++ to_be_bytes initial_counter) 0 16

/-- The nonce moves on whether or not the encryption succeeds. -/
def encrypt (aes : AesCtr) (plaintext : Bytes) :
    Option (Vector U8 12 × Bytes) × AesCtr :=
  let counter_block := create_counter_block aes.nonce 0
  ((process_with_counter aes.key plaintext counter_block).map fun c => (aes.nonce, c),
    { aes with nonce := increment_be_slice aes.nonce })

def decrypt (aes : AesCtr) (nonce : Vector U8 12) (ciphertext : Bytes) : Option Bytes :=
  process_with_counter aes.key ciphertext (create_counter_block nonce 0)

end AesCtr

/-! ## Authentication -/

def TAG_APP_AUTH_KEY : Bytes :=  -- "VND_APP_AUTH_KEY"
  [0x56, 0x4e, 0x44, 0x5f, 0x41, 0x50, 0x50, 0x5f, 0x41, 0x55, 0x54, 0x48, 0x5f, 0x4b,
   0x45, 0x59]

def TAG_PAGE_HMAC : Bytes :=  -- "VND_PAGE_TAG"
  [0x56, 0x4e, 0x44, 0x5f, 0x50, 0x41, 0x47, 0x45, 0x5f, 0x54, 0x41, 0x47]

def TAG_PAGE_HMAC_MASK : Bytes :=  -- "VND_HMAC_MASK"
  [0x56, 0x4e, 0x44, 0x5f, 0x48, 0x4d, 0x41, 0x43, 0x5f, 0x4d, 0x41, 0x53, 0x4b]

namespace Device

variable (dev : Device)

/-- `SHA256(SHA256(tag) || auth_key || buffer)`. -/
def tagged_hash (tag buffer : Bytes) : HashOutput 32 :=
  dev.sha256 ((dev.sha256 tag).toList ++ dev.auth_key.toList ++ buffer)

def get_vapp_auth_key (vapp_hash : HashOutput 32) : HashOutput 32 :=
  dev.tagged_hash TAG_APP_AUTH_KEY vapp_hash.toList

def compute_code_page_hmac (app_auth_key vapp_hash : HashOutput 32) (page_index : U32)
    (page_hash : HashOutput 32) : Option (HashOutput 32) :=
  dev.hmac_sha256 app_auth_key.toList
    (TAG_PAGE_HMAC ++ vapp_hash.toList ++ to_be_bytes page_index ++ page_hash.toList)

def compute_page_hmac_mask (ephemeral_sk : HashOutput 32) (page_index : U32) :
    HashOutput 32 :=
  dev.sha256 (TAG_PAGE_HMAC_MASK ++ ephemeral_sk.toList ++ to_be_bytes page_index)

end Device

/-! ## The host -/

inductive InterruptError where
  | invalidResponse
  | unsupportedInstruction
  | wrongParameters
  deriving DecidableEq, Repr

def InterruptError.as_str : InterruptError → String
  | .invalidResponse => "Invalid response"
  | .unsupportedInstruction => "INS not supported"
  | .wrongParameters => "Wrong P1/P2"

/-- Byte by byte. -/
def xor32 (a b : HashOutput 32) : HashOutput 32 := Vector.ofFn fun j => a[j] ^^^ b[j]

/-- The answers the host still has to give, and what it has been sent, latest
first. An answer is the data of a `Continue` command, or the reason why the
command that came is not one. -/
structure Comm where
  replies : List (Except InterruptError Bytes)
  sent : List Bytes := []

/-- Send a message and wait for the next command. -/
def interrupt (message : Bytes) : Exec InterruptError Comm Bytes := fun c =>
  let sent := message :: c.sent
  match c.replies with
  | [] => .stop .hang { c with sent }
  | .ok data :: replies => .ok data { replies, sent }
  | .error e :: replies => .err e { replies, sent }

end Vanadium
