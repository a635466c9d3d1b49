import Vanadium.Common.ClientCommands

/-!
# Page eviction strategies

The model of `vm/src/handlers/lib/evict.rs`. A strategy is an object with four
methods; an index out of bounds, or the `unreachable!` of the 2Q strategy, is
`none`.
-/

namespace Vanadium

class PageEvictionStrategy (E : Type) where
  on_access : E → Nat → U32 → Option E
  on_load : E → Nat → U32 → Option E
  choose_victim : E → Option (Nat × E)
  on_invalidate : E → Nat → U32 → Option E

def u32_max : U32 := BitVec.allOnes 32

/-- The index of the first smallest of the given times, among those strictly
below `u32::MAX`. -/
def oldest (times : List (Option U32)) : Option Nat :=
  (times.zipIdx.foldl (fun (best : U32 × Option Nat) e =>
    match e.1 with
    | some time => if time < best.1 then (time, some e.2) else best
    | none => best) (u32_max, none)).2

/-! ## LRU -/

structure LruEvictionStrategy where
  usage_counters : List U32
  global_counter : U32

namespace LruEvictionStrategy

def new (num_slots : Nat) : LruEvictionStrategy :=
  { usage_counters := List.replicate num_slots 0, global_counter := 0 }

def touch (e : LruEvictionStrategy) (slot_index : Nat) : Option LruEvictionStrategy :=
  let global_counter := e.global_counter + 1
  if slot_index < e.usage_counters.length then
    some { usage_counters := e.usage_counters.set slot_index global_counter
           global_counter }
  else none

def choose_victim (e : LruEvictionStrategy) : Nat :=
  (oldest (e.usage_counters.map some)).getD 0

instance : PageEvictionStrategy LruEvictionStrategy where
  on_access e slot_index _ := e.touch slot_index
  on_load e slot_index _ := e.touch slot_index
  choose_victim e := some (e.choose_victim, e)
  on_invalidate e slot_index _ :=
    if slot_index < e.usage_counters.length then
      some { e with usage_counters := e.usage_counters.set slot_index 0 }
    else none

end LruEvictionStrategy

/-! ## 2Q -/

inductive PageState where
  | free
  | a1 (time : U32)
  | am (time : U32)
  deriving DecidableEq, Repr

structure TwoQEvictionStrategy where
  states : List PageState
  global_counter : U32
  a1_max_size : Nat
  a1_size : Nat
  a1out : List U32
  a1out_max_size : Nat

namespace TwoQEvictionStrategy

/-- `None` is the panic on an A1 queue as large as the cache. -/
def new (num_slots a1_max_size a1out_max_size : Nat) : Option TwoQEvictionStrategy :=
  if a1_max_size ≥ num_slots then none
  else
    some { states := List.replicate num_slots .free, global_counter := 0, a1_max_size
           a1_size := 0, a1out := [], a1out_max_size }

def on_access (e : TwoQEvictionStrategy) (slot_index : Nat) :
    Option TwoQEvictionStrategy :=
  let e : TwoQEvictionStrategy := { e with global_counter := e.global_counter + 1 }
  match e.states[slot_index]? with
  | none => none
  | some (.am _) => some { e with states := e.states.set slot_index (.am e.global_counter) }
  | some _ => some e

def on_load (e : TwoQEvictionStrategy) (slot_index : Nat) (page_index : U32) :
    Option TwoQEvictionStrategy :=
  let e : TwoQEvictionStrategy := { e with global_counter := e.global_counter + 1 }
  if slot_index < e.states.length then
    match e.a1out.findIdx? (· == page_index) with
    | some pos =>
        some { e with
          a1out := e.a1out.eraseIdx pos
          states := e.states.set slot_index (.am e.global_counter) }
    | none =>
        some { e with
          states := e.states.set slot_index (.a1 e.global_counter)
          a1_size := e.a1_size + 1 }
  else none

def a1_time : PageState → Option U32
  | .a1 time => some time
  | _ => none

def am_time : PageState → Option U32
  | .am time => some time
  | _ => none

def choose_victim (e : TwoQEvictionStrategy) : Option Nat :=
  if e.a1_size ≥ e.a1_max_size then some ((oldest (e.states.map a1_time)).getD 0)
  else
    match oldest (e.states.map am_time) with
    | some victim_index => some victim_index
    | none => oldest (e.states.map a1_time)

def on_invalidate (e : TwoQEvictionStrategy) (slot_index : Nat) (page_index : U32) :
    Option TwoQEvictionStrategy :=
  match e.states[slot_index]? with
  | none => none
  | some (.a1 _) =>
      if e.a1_size = 0 then none
      else
        let a1out := if e.a1out.length = e.a1out_max_size then e.a1out.tail else e.a1out
        some { e with
          a1_size := e.a1_size - 1
          a1out := a1out ++ [page_index]
          states := e.states.set slot_index .free }
  | some _ => some { e with states := e.states.set slot_index .free }

instance : PageEvictionStrategy TwoQEvictionStrategy where
  on_access e slot_index _ := e.on_access slot_index
  on_load e slot_index page_index := e.on_load slot_index page_index
  choose_victim e := e.choose_victim.map fun i => (i, e)
  on_invalidate e slot_index page_index := e.on_invalidate slot_index page_index

end TwoQEvictionStrategy

end Vanadium
