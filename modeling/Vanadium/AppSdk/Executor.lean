import Mathlib

/-!
# The executor of background tasks

The model of `executor.rs` in `app-sdk`, and of the task handles in `app.rs` there.

What the futures do is not modelled: while one is polled it may do anything the library
lets it do, and so may the root future between two rounds. The library itself is a
machine. Its stack holds the calls that have not returned: the loops of `poll_once`,
each with the list that it has taken, and the loops in which a handle waits to be dropped
or to be taken. A future that is polled runs on top of the loop that polls it. An action
is one thing that the code on top does; it takes the machine to its next state, and some
events are observed.

A task is known by its number, in the order in which they are spawned. Of the value of a
task only whether it is there is kept.
-/

namespace Vanadium.AppSdk.Executor

/-- What a handle shares with its task. -/
structure Shared where
  /-- `result.is_some()` -/
  result : Bool
  cancelled : Bool
  /-- `Rc::strong_count(&cancelled)` -/
  strong_count : ℕ
  deriving DecidableEq, Repr

/-- Where the loop of `poll_tasks` is: at its head, in a poll of the future, or, if that was
cancelled, in dropping the inner future. -/
inductive Phase where
  | head
  | polling
  | dropping
  deriving DecidableEq, Repr

inductive Frame where
  | poll_tasks (tasks : List ℕ) (i : ℕ) (phase : Phase)
  /-- `TaskHandle::drop` -/
  | drop (id : ℕ)
  /-- `TaskHandle::take` -/
  | take (id : ℕ)
  deriving DecidableEq, Repr

/-- The list that a loop has taken. -/
def Frame.tasks : Frame → List ℕ
  | .poll_tasks tasks _ _ => tasks
  | _ => []

structure Machine where
  /-- `GLOBAL_EXECUTOR` -/
  tasks : List ℕ
  stack : List Frame
  /-- How many tasks have been spawned. -/
  spawned : ℕ
  shared : ℕ → Option Shared
  /-- The handles that were neither dropped nor taken. -/
  handles : List ℕ

inductive Action where
  | spawn
  | spawn_task
  | poll_once
  | drop (id : ℕ)
  | take (id : ℕ)
  /-- The future that is polled has ended. -/
  | ready
  | pending
  /-- A loop of the library goes on. -/
  | turn
  deriving DecidableEq, Repr

inductive Event where
  | spawned (id : ℕ)
  /-- A round has begun, inside of so many others. -/
  | began (depth : ℕ)
  | ended (depth : ℕ)
  | polled (id : ℕ)
  /-- The inner future is polled. -/
  | advanced (id : ℕ)
  | completed (id : ℕ)
  | cancelled (id : ℕ)
  /-- The handle is gone: its drop, or `take`, has returned. -/
  | dropped (id : ℕ)
  deriving DecidableEq, Repr

/-- `Vec::swap_remove` -/
def swap_remove {α : Type} (l : List α) (i : ℕ) : List α :=
  match l.getLast? with
  | some last => (l.set i last).dropLast
  | none => []

namespace Machine

def new : Machine := ⟨[], [], 0, fun _ => none, []⟩

/-- How many rounds have not ended. -/
def depth (stack : List Frame) : ℕ :=
  match stack with
  | [] => 0
  | .poll_tasks .. :: rest => depth rest + 1
  | .drop _ :: rest => depth rest
  | .take _ :: rest => depth rest

/-- It is the root future or a task that runs, not a loop of the library. -/
def in_future (m : Machine) : Bool :=
  match m.stack with
  | [] => true
  | .poll_tasks _ _ phase :: _ => phase ≠ .head
  | _ => false

def is_cancelled (m : Machine) (id : ℕ) : Bool := (m.shared id).any (·.cancelled)

def has_result (m : Machine) (id : ℕ) : Bool := (m.shared id).any (·.result)

def strong_count (m : Machine) (id : ℕ) : ℕ := ((m.shared id).map (·.strong_count)).getD 0

def update (m : Machine) (id : ℕ) (f : Shared → Shared) : ℕ → Option Shared :=
  Function.update m.shared id ((m.shared id).map f)

/-- `GLOBAL_EXECUTOR.0.borrow_mut().tasks.push(..)` -/
def push (m : Machine) : Machine × List Event :=
  ({ m with tasks := m.tasks ++ [m.spawned], spawned := m.spawned + 1 }, [.spawned m.spawned])

/-- `App::spawn_task`: one strong reference is the handle's, the other the future's. -/
def spawn_task (m : Machine) : Machine × List Event :=
  let (m', events) := m.push
  ({ m' with
      shared := Function.update m.shared m.spawned (some ⟨false, false, 2⟩)
      handles := m.spawned :: m.handles }, events)

/-- The list is taken out of the executor. -/
def poll_once (m : Machine) : Machine × List Event :=
  ({ m with tasks := [], stack := .poll_tasks m.tasks 0 .head :: m.stack },
    [.began (depth m.stack)])

/-- What is left of the list goes back, after what was spawned meanwhile. -/
def finish (m : Machine) (tasks : List ℕ) (rest : List Frame) : Machine × List Event :=
  ({ m with tasks := if m.tasks.isEmpty then tasks else m.tasks ++ tasks, stack := rest },
    [.ended (depth rest)])

/-- The future at `i` has ended, by itself or because it was cancelled. -/
def complete (m : Machine) (tasks : List ℕ) (i id : ℕ) (f : Shared → Shared)
    (rest : List Frame) : Machine × List Event :=
  ({ m with
      stack := .poll_tasks (swap_remove tasks i) i .head :: rest
      shared := m.update id fun s => { f s with strong_count := s.strong_count - 1 } },
    [.completed id])

def step (m : Machine) : Action → Option (Machine × List Event)
  | .spawn => if m.in_future then some m.push else none
  | .spawn_task => if m.in_future then some m.spawn_task else none
  | .poll_once => if m.in_future then some m.poll_once else none
  | .drop id =>
      if m.in_future ∧ id ∈ m.handles then
        some ({ m with
          stack := .drop id :: m.stack
          handles := m.handles.erase id
          shared := m.update id fun s => { s with cancelled := true } }, [.cancelled id])
      else none
  | .take id =>
      if m.in_future ∧ id ∈ m.handles then
        some ({ m with stack := .take id :: m.stack, handles := m.handles.erase id }, [])
      else none
  | .ready =>
      match m.stack with
      | .poll_tasks tasks i .polling :: rest =>
          tasks[i]?.map fun id => m.complete tasks i id (fun s => { s with result := true }) rest
      | .poll_tasks tasks i .dropping :: rest =>
          tasks[i]?.map fun id => m.complete tasks i id (fun s => s) rest
      | _ => none
  | .pending =>
      match m.stack with
      | .poll_tasks tasks i .polling :: rest =>
          some ({ m with stack := .poll_tasks tasks (i + 1) .head :: rest }, [])
      | _ => none
  | .turn =>
      match m.stack with
      | .poll_tasks tasks i .head :: rest =>
          match tasks[i]? with
          | some id =>
              -- `CancellableFuture::poll`
              if m.is_cancelled id then
                some ({ m with stack := .poll_tasks tasks i .dropping :: rest }, [.polled id])
              else
                some ({ m with stack := .poll_tasks tasks i .polling :: rest },
                  [.polled id, .advanced id])
          | none => some (m.finish tasks rest)
      | .drop id :: rest =>
          if m.strong_count id > 1 then some m.poll_once
          else some ({ m with stack := rest }, [.dropped id])
      | .take id :: rest =>
          if m.has_result id then
            some ({ m with
              stack := rest
              shared := m.update id fun s => { s with result := false } }, [.dropped id])
          else some m.poll_once
      | _ => none

/-- The states that are reached from the start, each with the events until then. -/
inductive Reached : Machine → List Event → Prop where
  | new : Reached new []
  | step {m m' : Machine} {log events : List Event} {action : Action} :
      Reached m log → m.step action = some (m', events) → Reached m' (log ++ events)

/-- One action after the other, if each is possible. -/
def run (m : Machine) : List Action → Option (Machine × List Event)
  | [] => some (m, [])
  | action :: actions => do
      let (m, events) ← m.step action
      let (m, later) ← m.run actions
      some (m, events ++ later)

/-- The tasks of the executor, and those in the lists that were taken out of it. -/
def registered (m : Machine) : List ℕ := m.tasks ++ m.stack.flatMap Frame.tasks

end Machine

end Vanadium.AppSdk.Executor
