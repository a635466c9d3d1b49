import Vanadium.Bitcoin.Registration
import Vanadium.Proofs.WalletPolicy

/-!
# What a registration is of

The bytes hashed for a registration say what is registered and under which name.
Accounts and identity keys differ in the first byte. The length in front of the
name of an identity key is cut off at one byte, and does not need to be there:
what follows the name has a fixed width, so the whole length gives it away.
-/

namespace Vanadium.Bitcoin

open Lib Bip388

section
variable {X : Type} [Xpub X]

theorem Name.eq_of_bytes {name name' : Name} (h : name.bytes = name'.bytes) : name = name' := by
  cases name
  cases name'
  cases as_bytes_inj h
  rfl

theorem xpub_encode_injective (h : ∀ x : X, Xpub.decode (Xpub.encode x).toList = some x) :
    Function.Injective (Xpub.encode : X → Vector U8 78) := by
  intro x y hxy
  have hdecode := h x
  rw [hxy, h y] at hdecode
  exact (Option.some.inj hdecode).symm

theorem account_preimage_inj (hxpub : Function.Injective (Xpub.encode : X → Vector U8 78))
    {w w' : WalletPolicy X} {name name' : Name}
    (h : account_preimage w name = account_preimage w' name') : name = name' ∧ w = w' := by
  unfold account_preimage account_serialize at h
  simp only [List.append_assoc, List.append_cancel_left_eq] at h
  rw [← List.append_assoc, ← List.append_assoc (VarInt.consensus_encode name'.bytes.length)] at h
  obtain ⟨hname, hrest⟩ := delimited_var_bytes name.in_memory name'.in_memory h
  rw [List.append_cancel_left_eq] at hrest
  refine ⟨Name.eq_of_bytes hname, ?_⟩
  exact (WalletPolicy.delimited_serialize hxpub).injOn trivial trivial hrest

theorem identity_preimage_inj {k k' : IdentityKey} {name name' : Name}
    (h : identity_preimage k name = identity_preimage k' name') : name = name' ∧ k = k' := by
  have hlen := congrArg List.length h
  unfold identity_preimage at h hlen
  simp only [List.length_append, List.length_singleton, Vector.length_toList] at hlen
  obtain ⟨hfront, hkey⟩ := List.append_inj h (by simp; omega)
  obtain ⟨-, hname⟩ := List.append_inj hfront (by simp)
  cases k
  cases k'
  cases Vector.toList_inj.mp hkey
  exact ⟨Name.eq_of_bytes hname, rfl⟩

/-- No text is hashed for both kinds of objects. -/
theorem preimages_differ (w : WalletPolicy X) (k : IdentityKey) (name name' : Name) :
    account_preimage w name ≠ identity_preimage k name' := by
  intro h
  have hhead := congrArg List.head? h
  simp [account_preimage, identity_preimage, ACCOUNT_MAGIC, IDENTITY_KEY_MAGIC] at hhead

namespace Registerable

theorem preimage_inj (hxpub : Function.Injective (Xpub.encode : X → Vector U8 78))
    {name name' : Name} {object object' : Registerable X}
    (h : object.preimage name = object'.preimage name') : name = name' ∧ object = object' := by
  cases object with
  | account w =>
      cases object' with
      | account w' =>
          obtain ⟨rfl, rfl⟩ := account_preimage_inj hxpub h
          exact ⟨rfl, rfl⟩
      | identity k' => exact absurd h (preimages_differ w k' name name')
  | identity k =>
      cases object' with
      | account w' => exact absurd h.symm (preimages_differ w' k name' name)
      | identity k' =>
          obtain ⟨rfl, rfl⟩ := identity_preimage_inj h
          exact ⟨rfl, rfl⟩

/-- A registration is of one object under one name, and so is a proof of it. The
hash is assumed to be free of collisions on the two texts in question, and the
tags to be unforgeable from one of the two identifiers to the other. -/
theorem registration_binds (hxpub : ∀ x : X, Xpub.decode (Xpub.encode x).toList = some x)
    (name name' : Name) (object object' : Registerable X) :
    (object.preimage name = object'.preimage name' → name = name' ∧ object = object') ∧
      ∀ (sha256 : Bytes → Vector U8 32) (hmac : Vector U8 32 → Vector U8 32),
        (sha256 (object.preimage name) = sha256 (object'.preimage name') →
          object.preimage name = object'.preimage name') →
        (hmac (object.registration_id sha256 name) = hmac (object'.registration_id sha256 name') →
          object.registration_id sha256 name = object'.registration_id sha256 name') →
        object'.accepts sha256 hmac name' (object.proof_of_registration sha256 hmac name) →
          name = name' ∧ object = object' := by
  have hinj := xpub_encode_injective hxpub
  refine ⟨preimage_inj hinj, ?_⟩
  intro sha256 hmac hhash htag haccepts
  exact preimage_inj hinj (hhash (htag haccepts))

/-- A key is its encoding, of a version and everything else. -/
local instance : Xpub (Vector U8 78) where
  encode := id
  decode bytes := if bytes.length = 78 then some (array bytes 0 78) else none

/-- The name is 300 bytes long, and the byte for its length says 44. -/
theorem registration_binds_long_name :
    let name : Name := ⟨"".pushn 'a' 300, by decide +kernel⟩
    let key : IdentityKey := ⟨Vector.replicate 33 2⟩
    name = ⟨"".pushn 'a' 300, by decide +kernel⟩ ∧
      (identity key : Registerable (Vector U8 78)) = identity ⟨(Vector.replicate 33 3).map (· - 1)⟩ :=
  (registration_binds (by intro x; simp [Xpub.decode, Xpub.encode, array_toList]) _ _ _ _).1
    (by decide +kernel)

end Registerable

end

end Vanadium.Bitcoin
