import Vanadium.Lib.PowerCut
import Vanadium.Vm.Ecall

/-!
# The V-App store

The model of `nvm.rs` and `vapp.rs` of `vm/src`, of the command in `register_vapp.rs` that
registers a V-App, and of what the ECALL for storage writes does to the store.

An operation on flash is given by the writes that it makes, one after the other, so that
the power can be lost between any two of them; where the source panics there is nothing.
A flag is one byte, which is written or not. The value is larger: while it is written, any
value can be there.
-/

namespace Vanadium

open Lib

/-! ## Lazy storage -/

def STORAGE_VALID : U8 := 0xa5

structure LazyStorage (T : Type) where
  flag : U8
  value : T

namespace LazyStorage

variable {T : Type}

/-- `AlignedStorage::update`, of one of the fields. -/
inductive Write (T : Type) where
  | flag (flag : U8)
  | value (value : T)

def write (storage : LazyStorage T) : Write T → LazyStorage T
  | .flag flag => { storage with flag }
  | .value value => { storage with value }

/-- What can be written when the power is lost. -/
inductive Torn : Write T → Write T → Prop where
  | value (value value' : T) : Torn (.value value) (.value value')

def new (zeroed : T) : LazyStorage T := ⟨0, zeroed⟩

def is_initialized (storage : LazyStorage T) : Bool := storage.flag == STORAGE_VALID

/-- `initialize` -/
def initialize_with (storage : LazyStorage T) (value : T) : Option (List (Write T)) :=
  if storage.is_initialized then none else some [.value value, .flag STORAGE_VALID]

def get_ref (storage : LazyStorage T) : Option T :=
  if storage.is_initialized then some storage.value else none

def update (storage : LazyStorage T) (value : T) : Option (List (Write T)) :=
  if storage.is_initialized then some [.flag 0, .value value, .flag STORAGE_VALID] else none

def clear (zeroed : T) : List (Write T) := [.flag 0, .value zeroed]

end LazyStorage

/-! ## Entries -/

def MAX_REGISTERED_VAPPS : ℕ := 32

/-- An entry of the store, with the texts that the ECALLs do not read. -/
structure RegisteredVApp extends VAppEntry where
  vapp_name : Vector U8 APP_NAME_MAX_LEN
  vapp_version : Vector U8 APP_VERSION_MAX_LEN

namespace RegisteredVApp

def empty : RegisteredVApp where
  vapp_hash := Vector.replicate 32 0
  vapp_name := Vector.replicate _ 0
  vapp_version := Vector.replicate _ 0
  storage_slots := Vector.replicate _ (Vector.replicate _ 0)

/-- Up to the first zero byte. -/
def text {n : ℕ} (bytes : Vector U8 n) : String :=
  (Deserializer.from_utf8 (bytes.toList.takeWhile (· ≠ 0))).getD ""

def get_app_name (entry : RegisteredVApp) : String := text entry.vapp_name

def get_app_version (entry : RegisteredVApp) : String := text entry.vapp_version

end RegisteredVApp

inductive VAppStoreError where
  | storeFull
  | nameTooLong
  | versionTooLong
  deriving DecidableEq, Repr

/-! ## The store -/

abbrev VAppStore := Fin MAX_REGISTERED_VAPPS → LazyStorage RegisteredVApp

namespace VAppStore

/-- A write to one of the entries. -/
abbrev Write := Fin MAX_REGISTERED_VAPPS × LazyStorage.Write RegisteredVApp

def write (w : Write) (storage : VAppStore) : VAppStore :=
  Function.update storage w.1 ((storage w.1).write w.2)

def Torn (w w' : Write) : Prop := w.1 = w'.1 ∧ LazyStorage.Torn w.2 w'.2

/-- The device as it is shipped. -/
def new : VAppStore := fun _ => .new .empty

def find_by_hash (storage : VAppStore) (vapp_hash : HashOutput 32) :
    Option (Fin MAX_REGISTERED_VAPPS) :=
  (List.finRange _).find? fun i =>
    (storage i).is_initialized && (storage i).value.vapp_hash == vapp_hash

def find_by_name (storage : VAppStore) (vapp_name : String) :
    Option (Fin MAX_REGISTERED_VAPPS) :=
  (List.finRange _).find? fun i =>
    (storage i).is_initialized && (storage i).value.get_app_name == vapp_name

def is_registered (storage : VAppStore) (vapp_hash : HashOutput 32) : Bool :=
  (storage.find_by_hash vapp_hash).isSome

/-- The entry that is made for a manifest. -/
def new_entry (sha256 : Bytes → HashOutput 32) (manifest : Manifest) : RegisteredVApp :=
  { RegisteredVApp.empty with
    vapp_hash := manifest.get_vapp_hash sha256
    vapp_name := array (as_bytes manifest.vapp_name) 0 _
    vapp_version := array (as_bytes manifest.vapp_version) 0 _ }

def register (sha256 : Bytes → HashOutput 32) (storage : VAppStore) (manifest : Manifest) :
    Option (Except VAppStoreError (List Write)) :=
  if (as_bytes manifest.vapp_name).length > APP_NAME_MAX_LEN then some (.error .nameTooLong)
  else if (as_bytes manifest.vapp_version).length > APP_VERSION_MAX_LEN then
    some (.error .versionTooLong)
  else
    let entry := new_entry sha256 manifest
    match storage.find_by_name manifest.vapp_name with
    | some existing_index =>
        ((storage existing_index).update entry).map fun ws => .ok (ws.map (existing_index, ·))
    | none =>
        match (List.finRange _).find? fun i => !(storage i).is_initialized with
        | some i => ((storage i).initialize_with entry).map fun ws => .ok (ws.map (i, ·))
        | none => some (.error .storeFull)

/-- Whether there was an entry, and what is written. -/
def unregister (storage : VAppStore) (index : ℕ) : Bool × List Write :=
  if h : index < MAX_REGISTERED_VAPPS then
    if (storage ⟨index, h⟩).is_initialized then
      (true, (LazyStorage.clear .empty).map (⟨index, h⟩, ·))
    else (false, [])
  else (false, [])

def count (storage : VAppStore) : ℕ :=
  ((List.finRange _).filter fun i => (storage i).is_initialized).length

def get_entry (storage : VAppStore) (index : ℕ) : Option RegisteredVApp :=
  if h : index < MAX_REGISTERED_VAPPS then (storage ⟨index, h⟩).get_ref else none

def uninstall_all (storage : VAppStore) : List Write :=
  (List.finRange _).flatMap fun i =>
    if (storage i).is_initialized then (LazyStorage.clear .empty).map (i, ·) else []

/-! ## What is done to it -/

/-- The status words with which the registration is refused. -/
inductive RegisterSW where
  | incorrectData
  | deny
  | storeFull
  deriving DecidableEq, Repr

/-- `handler_register_vapp`, from the manifest on, with the user's answer. -/
def handler_register_vapp (sha256 : Bytes → HashOutput 32) (storage : VAppStore)
    (manifest : Manifest) (approved : Bool) : Option (Except RegisterSW (List Write)) :=
  match manifest.validate with
  | .error _ => some (.error .incorrectData)
  | .ok () =>
      if !approved then some (.error .deny)
      else
        (storage.register sha256 manifest).map fun result =>
          result.mapError fun
            | .storeFull => .storeFull
            | .nameTooLong | .versionTooLong => .incorrectData

/-- `handle_storage_write`, from the data on; the V-App has the given hash. -/
def storage_write (storage : VAppStore) (vapp_hash : HashOutput 32) (n_storage_slots : U32)
    (slot_index : U32) (slot_data : StorageSlot) : Option (List Write) :=
  if slot_index ≥ n_storage_slots ∨ slot_index ≥ MAX_STORAGE_SLOTS then some []
  else
    match storage.find_by_hash vapp_hash with
    | none => some []
    | some vapp_index =>
        match storage.get_entry vapp_index with
        | none => some []
        | some entry =>
            let entry := { entry with
              storage_slots := entry.storage_slots.setIfInBounds slot_index.toNat slot_data }
            ((storage vapp_index).update entry).map fun ws => ws.map (vapp_index, ·)

inductive Op where
  | register (manifest : Manifest) (approved : Bool)
  | unregister (index : ℕ)
  | uninstall_all
  | storage_write (vapp_hash : HashOutput 32) (n_storage_slots slot_index : U32)
      (slot_data : StorageSlot)

def Op.writes (sha256 : Bytes → HashOutput 32) (storage : VAppStore) : Op → Option (List Write)
  | .register manifest approved =>
      (storage.handler_register_vapp sha256 manifest approved).map fun result =>
        result.toOption.getD []
  | .unregister index => some (storage.unregister index).2
  | .uninstall_all => some storage.uninstall_all
  | .storage_write vapp_hash n_storage_slots slot_index slot_data =>
      storage.storage_write vapp_hash n_storage_slots slot_index slot_data

/-- The operations of a history, each of which may have been cut off, and what is there after
them. -/
inductive Run (sha256 : Bytes → HashOutput 32) : List Op → VAppStore → Prop where
  | nil : Run sha256 [] new
  | snoc {ops : List Op} {storage storage' : VAppStore} {op : Op} {ws : List Write}
      (run : Run sha256 ops storage) (hwrites : op.writes sha256 storage = some ws)
      (hleaves : PowerCut.Leaves write Torn ws storage storage') :
      Run sha256 (ops ++ [op]) storage'

end VAppStore

end Vanadium
