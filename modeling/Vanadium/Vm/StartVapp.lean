import Vanadium.Common.Manifest
import Vanadium.Vm.Ecall
import Vanadium.Vm.OutsourcedMem

/-!
# Running a V-App

The model of `vm/src/handlers/start_vapp.rs`: how the processor and its three
memories are set up from the manifest. The loop is `Cpu.step` with the ECALL
handler; any error ends it.

The memories and the handler talk to the host over one line. Here each has the
answers to its own exchanges, which come in an order of their own and are
arbitrary anyway.
-/

namespace Vanadium

open Lib

/-- `Box<dyn PageEvictionStrategy>` -/
inductive BoxedStrategy where
  | lru (e : LruEvictionStrategy)
  | twoQ (e : TwoQEvictionStrategy)

instance : PageEvictionStrategy BoxedStrategy where
  on_access
    | .lru e, slot, page_index => (PageEvictionStrategy.on_access e slot page_index).map .lru
    | .twoQ e, slot, page_index => (PageEvictionStrategy.on_access e slot page_index).map .twoQ
  on_load
    | .lru e, slot, page_index => (PageEvictionStrategy.on_load e slot page_index).map .lru
    | .twoQ e, slot, page_index => (PageEvictionStrategy.on_load e slot page_index).map .twoQ
  choose_victim
    | .lru e => (PageEvictionStrategy.choose_victim e).map fun r => (r.1, .lru r.2)
    | .twoQ e => (PageEvictionStrategy.choose_victim e).map fun r => (r.1, .twoQ r.2)
  on_invalidate
    | .lru e, slot, page_index => (PageEvictionStrategy.on_invalidate e slot page_index).map .lru
    | .twoQ e, slot, page_index =>
        (PageEvictionStrategy.on_invalidate e slot page_index).map .twoQ

abbrev VappMemory := OutsourcedMemory BoxedStrategy

/-- What a V-App finds on the device: the host's answers, the random key of the
page encryption, the sizes of the caches, the V-App store, and the user. -/
structure Surroundings where
  code_replies : Comm
  data_replies : Comm
  stack_replies : Comm
  replies : Comm
  aes_key : AesKey
  n_code_cache_pages : Nat
  n_data_cache_pages : Nat
  n_stack_cache_pages : Nat
  storage : List (Option VAppEntry)
  last_event : Option (EventCode × EventData)
  events : List DeviceEvent

namespace handler_start_vapp

variable (dev : Device)

/-- `OutsourcedMemory::new` with the arguments that differ between sections. -/
def section_mem (world : Surroundings) (comm : Comm) (max_pages_in_cache : Nat)
    (is_readonly : Bool) (section_kind : SectionKind) (n_pages : U32)
    (merkle_root : HashOutput 32) (eviction_strategy : BoxedStrategy)
    (vapp_hash : HashOutput 32) : VappMemory :=
  OutsourcedMemory.new comm max_pages_in_cache is_readonly section_kind n_pages merkle_root
    (AesCtr.new world.aes_key) eviction_strategy vapp_hash

/-- A segment of the manifest; `MemorySegment::new` is unwrapped. -/
def segment (start end_ : U32) (mem : VappMemory) : Option (MemorySegment VappMemory) :=
  (MemorySegment.new start (end_ - start) mem).toOption

/-- The state in which the loop starts; `none` where the handler returns an error
or panics before. -/
def start (world : Surroundings) (manifest : Manifest) :
    Option (CommEcallHandler × Cpu VappMemory) := do
  guard (manifest.validate.isOk = true)
  let vapp_hash := manifest.get_vapp_hash dev.sha256
  guard ((CommEcallHandler.find_by_hash world.storage vapp_hash).isSome = true)
  let n_code := world.n_code_cache_pages
  let two_q ← TwoQEvictionStrategy.new n_code (n_code / 4) (n_code / 2)
  let code_seg ← segment manifest.code_start manifest.code_end
    (section_mem world world.code_replies n_code true .code manifest.n_code_pages
      manifest.code_merkle_root (.twoQ two_q) vapp_hash)
  let data_seg ← segment manifest.data_start manifest.data_end
    (section_mem world world.data_replies world.n_data_cache_pages false .data
      manifest.n_data_pages manifest.data_merkle_root
      (.lru (LruEvictionStrategy.new world.n_data_cache_pages)) vapp_hash)
  let stack_seg ← segment manifest.stack_start manifest.stack_end
    (section_mem world world.stack_replies world.n_stack_cache_pages false .stack
      manifest.n_stack_pages manifest.stack_merkle_root
      (.lru (LruEvictionStrategy.new world.n_stack_cache_pages)) vapp_hash)
  let cpu := Cpu.new manifest.entrypoint code_seg data_seg stack_seg
  let handler : CommEcallHandler := {
    comm := world.replies
    ux_handler := UxHandler.new world.last_event
    vapp_hash
    n_storage_slots := manifest.n_storage_slots
    storage := world.storage
    events := world.events
    n_random := 0 }
  some (handler, cpu.set_reg 2 ((manifest.stack_end - 4) &&& ~~~3))

/-- A turn of the loop. -/
def turn (sdk : Sdk) : Exec (CpuError CommEcallError) (CommEcallHandler × Cpu VappMemory) Unit :=
  letI := OutsourcedMemory.pagedMemory (E := BoxedStrategy) dev
  Cpu.step (some (CommEcallHandler.handle_ecall sdk))

end handler_start_vapp

end Vanadium
