import Vanadium.AppSdk.Executor

/-!
# Rounds of polling

Whatever the futures do, a task that is registered is in one list only: that of the
executor, or one that a loop has taken out of it. Loops inside of a loop take what was
spawned since, so that they do not meet a task of the outer one; and a task that is
removed by `swap_remove` is replaced by one that is still to be polled. Therefore each
task that is there when an outermost round begins is polled once in it.

A future's strong reference goes when it has ended, which is when it is removed. So the
drop of a handle, which waits for that, returns with the future gone.
-/

namespace Vanadium.AppSdk.Executor

/-! ## Removing from a list -/

/-- The last element comes in the place of what is removed. -/
theorem swap_remove_eq {α : Type} {l : List α} {i : ℕ} (h : i < l.length) :
    ∃ rest, swap_remove l i = l.take i ++ rest ∧ rest.Perm (l.drop (i + 1)) := by
  cases l using List.reverseRecOn with
  | nil => exact absurd h (Nat.not_lt_zero i)
  | append_singleton front last =>
      rw [List.length_append, List.length_singleton] at h
      have hremove : swap_remove (front ++ [last]) i = ((front ++ [last]).set i last).dropLast := by
        simp [swap_remove]
      rw [hremove]
      rcases Nat.lt_or_ge i front.length with hi | hi
      · refine ⟨last :: front.drop (i + 1), ?_, ?_⟩
        · rw [List.set_append_left _ _ hi, List.dropLast_concat, List.take_append_of_le_length hi.le,
            List.set_eq_take_append_cons_drop, if_pos hi]
        · rw [List.drop_append_of_le_length hi]
          exact (List.perm_append_singleton last _).symm
      · obtain rfl : i = front.length := by omega
        exact ⟨[], by simp, by simp⟩

section
variable {α : Type} {l : List α} {i : ℕ} {a : α}

theorem lt_of_getElem? (h : l[i]? = some a) : i < l.length :=
  (List.getElem?_eq_some_iff.mp h).1

theorem drop_eq_cons (h : l[i]? = some a) : l.drop i = a :: l.drop (i + 1) := by
  obtain ⟨hi, rfl⟩ := List.getElem?_eq_some_iff.mp h
  exact List.drop_eq_getElem_cons hi

theorem perm_swap_remove (h : l[i]? = some a) : l.Perm (a :: swap_remove l i) := by
  obtain ⟨rest, heq, hperm⟩ := swap_remove_eq (lt_of_getElem? h)
  rw [heq]
  calc l = l.take i ++ a :: l.drop (i + 1) := by rw [← drop_eq_cons h, List.take_append_drop]
    _ |>.Perm (a :: (l.take i ++ l.drop (i + 1))) := List.perm_middle
    _ |>.Perm (a :: (l.take i ++ rest)) := ((hperm.symm.append_left _).cons a)

theorem drop_swap_remove (h : l[i]? = some a) :
    ((swap_remove l i).drop i).Perm (l.drop (i + 1)) := by
  have hi := lt_of_getElem? h
  obtain ⟨rest, heq, hperm⟩ := swap_remove_eq hi
  rw [heq, List.drop_append_of_le_length (by rw [List.length_take]; omega),
    List.drop_of_length_le (by rw [List.length_take]; omega), List.nil_append]
  exact hperm

end

namespace Machine

/-! ## What a step does -/

/-- The steps, with what they change and what is observed. A round is begun by a future, or by a
loop that waits. -/
inductive Steps (m : Machine) : Machine → List Event → Prop where
  | spawn : Steps m m.push.1 [.spawned m.spawned]
  | spawn_task : Steps m m.spawn_task.1 [.spawned m.spawned]
  | poll_once : Steps m m.poll_once.1 [.began (depth m.stack)]
  | drop {id : ℕ} (hid : id ∈ m.handles) :
      Steps m
        { m with
          stack := .drop id :: m.stack
          handles := m.handles.erase id
          shared := m.update id fun s => { s with cancelled := true } }
        [.cancelled id]
  | take {id : ℕ} (hid : id ∈ m.handles) :
      Steps m { m with stack := .take id :: m.stack, handles := m.handles.erase id } []
  | ready {tasks : List ℕ} {i id : ℕ} {phase : Phase} {rest : List Frame} {f : Shared → Shared}
      (hstack : m.stack = .poll_tasks tasks i phase :: rest) (hphase : phase ≠ .head)
      (hid : tasks[i]? = some id) (hf : ∀ s, (f s).cancelled = s.cancelled) :
      Steps m (m.complete tasks i id f rest).1 [.completed id]
  | pending {tasks : List ℕ} {i : ℕ} {rest : List Frame}
      (hstack : m.stack = .poll_tasks tasks i .polling :: rest) :
      Steps m { m with stack := .poll_tasks tasks (i + 1) .head :: rest } []
  | cancel {tasks : List ℕ} {i id : ℕ} {rest : List Frame}
      (hstack : m.stack = .poll_tasks tasks i .head :: rest) (hid : tasks[i]? = some id)
      (hcancelled : m.is_cancelled id = true) :
      Steps m { m with stack := .poll_tasks tasks i .dropping :: rest } [.polled id]
  | advance {tasks : List ℕ} {i id : ℕ} {rest : List Frame}
      (hstack : m.stack = .poll_tasks tasks i .head :: rest) (hid : tasks[i]? = some id)
      (hcancelled : m.is_cancelled id = false) :
      Steps m { m with stack := .poll_tasks tasks i .polling :: rest } [.polled id, .advanced id]
  | finish {tasks : List ℕ} {i : ℕ} {rest : List Frame}
      (hstack : m.stack = .poll_tasks tasks i .head :: rest) (hend : tasks[i]? = none) :
      Steps m (m.finish tasks rest).1 [.ended (depth rest)]
  | dropped {id : ℕ} {rest : List Frame} (hstack : m.stack = .drop id :: rest)
      (hcount : ¬ m.strong_count id > 1) : Steps m { m with stack := rest } [.dropped id]
  | taken {id : ℕ} {rest : List Frame} (hstack : m.stack = .take id :: rest)
      (hresult : m.has_result id = true) :
      Steps m
        { m with
          stack := rest
          shared := m.update id fun s => { s with result := false } }
        [.dropped id]

theorem step_cases {m m' : Machine} {events : List Event} {action : Action}
    (h : m.step action = some (m', events)) : Steps m m' events := by
  cases action with
  | spawn =>
      simp only [step] at h
      split at h
      · cases h
        exact .spawn
      · cases h
  | spawn_task =>
      simp only [step] at h
      split at h
      · cases h
        exact .spawn_task
      · cases h
  | poll_once =>
      simp only [step] at h
      split at h
      · cases h
        exact .poll_once
      · cases h
  | drop id =>
      simp only [step] at h
      split at h
      · next hid =>
          cases h
          exact .drop hid.2
      · cases h
  | take id =>
      simp only [step] at h
      split at h
      · next hid =>
          cases h
          exact .take hid.2
      · cases h
  | ready =>
      simp only [step] at h
      split at h
      · next hstack =>
          obtain ⟨id, hid, h⟩ := Option.map_eq_some_iff.mp h
          cases h
          exact .ready hstack (by decide) hid fun _ => rfl
      · next hstack =>
          obtain ⟨id, hid, h⟩ := Option.map_eq_some_iff.mp h
          cases h
          exact .ready hstack (by decide) hid fun _ => rfl
      · cases h
  | pending =>
      simp only [step] at h
      split at h
      · next hstack =>
          cases h
          exact .pending hstack
      · cases h
  | turn =>
      simp only [step] at h
      split at h
      · next hstack =>
          split at h
          · next hid =>
              split at h
              · next hcancelled =>
                  cases h
                  exact .cancel hstack hid hcancelled
              · next hcancelled =>
                  cases h
                  exact .advance hstack hid (Bool.eq_false_iff.mpr hcancelled)
          · next hend =>
              cases h
              exact .finish hstack hend
      · next hstack =>
          split at h
          · cases h
            exact .poll_once
          · next hcount =>
              cases h
              exact .dropped hstack hcount
      · next hstack =>
          split at h
          · next hresult =>
              cases h
              exact .taken hstack hresult
          · cases h
            exact .poll_once
      · cases h

/-! ## What is registered -/

/-- A step adds a task, removes one, or neither. -/
theorem registered_steps {m m' : Machine} {events : List Event} (h : Steps m m' events) :
    (events = [.spawned m.spawned] ∧ m'.spawned = m.spawned + 1 ∧
      m'.registered.Perm (m.spawned :: m.registered)) ∨
    (∃ id, events = [.completed id] ∧ m'.spawned = m.spawned ∧
      m.registered.Perm (id :: m'.registered)) ∨
    ((∀ id, .spawned id ∉ events ∧ .completed id ∉ events) ∧ m'.spawned = m.spawned ∧
      m'.registered.Perm m.registered) := by
  cases h with
  | spawn =>
      refine .inl ⟨rfl, rfl, ?_⟩
      simp only [push, registered, List.append_assoc]
      exact List.perm_middle
  | spawn_task =>
      refine .inl ⟨rfl, rfl, ?_⟩
      simp only [spawn_task, push, registered, List.append_assoc]
      exact List.perm_middle
  | poll_once => exact .inr (.inr ⟨by simp, rfl, .refl _⟩)
  | drop _ => exact .inr (.inr ⟨by simp, rfl, .refl _⟩)
  | take _ => exact .inr (.inr ⟨by simp, rfl, .refl _⟩)
  | @ready tasks i id phase rest f hstack _ hid _ =>
      refine .inr (.inl ⟨id, rfl, rfl, ?_⟩)
      simp only [complete, registered, hstack, List.flatMap_cons, Frame.tasks]
      refine (((perm_swap_remove hid).append_right _).append_left _).trans ?_
      exact List.perm_middle
  | pending hstack =>
      refine .inr (.inr ⟨by simp, rfl, ?_⟩)
      simp only [registered, hstack, List.flatMap_cons, Frame.tasks]
      exact .refl _
  | cancel hstack _ _ =>
      refine .inr (.inr ⟨by simp, rfl, ?_⟩)
      simp only [registered, hstack, List.flatMap_cons, Frame.tasks]
      exact .refl _
  | advance hstack _ _ =>
      refine .inr (.inr ⟨by simp, rfl, ?_⟩)
      simp only [registered, hstack, List.flatMap_cons, Frame.tasks]
      exact .refl _
  | finish hstack _ =>
      refine .inr (.inr ⟨by simp, rfl, ?_⟩)
      simp only [registered, finish, hstack, List.flatMap_cons, Frame.tasks]
      split
      · next hempty =>
          rw [List.isEmpty_iff.mp hempty, List.nil_append]
      · rw [List.append_assoc]
  | dropped hstack _ =>
      refine .inr (.inr ⟨by simp, rfl, ?_⟩)
      simp only [registered, hstack, List.flatMap_cons, Frame.tasks]
      exact .refl _
  | taken hstack _ =>
      refine .inr (.inr ⟨by simp, rfl, ?_⟩)
      simp only [registered, hstack, List.flatMap_cons, Frame.tasks]
      exact .refl _

/-- A task was spawned, and has not ended. -/
def Unfinished (log : List Event) (id : ℕ) : Prop := .spawned id ∈ log ∧ .completed id ∉ log

instance (log : List Event) (id : ℕ) : Decidable (Unfinished log id) :=
  inferInstanceAs (Decidable (_ ∧ _))

/-- What is registered are the tasks that have not ended, each in one place. -/
structure Registers (m : Machine) (log : List Event) : Prop where
  nodup : m.registered.Nodup
  unfinished : ∀ id, id ∈ m.registered ↔ Unfinished log id
  spawned : ∀ id, .spawned id ∈ log → id < m.spawned
  completed : ∀ id, .completed id ∈ log → .spawned id ∈ log

theorem Registers.new : Registers new [] where
  nodup := List.nodup_nil
  unfinished id := by simp [registered, Machine.new, Unfinished]
  spawned id h := by cases h
  completed id h := by cases h

theorem Registers.step {m m' : Machine} {log events : List Event} (h : Registers m log)
    (hstep : Steps m m' events) : Registers m' (log ++ events) := by
  obtain ⟨hnodup, hunfinished, hspawned, hcompleted⟩ := h
  unfold Unfinished at hunfinished
  rcases registered_steps hstep with ⟨rfl, hcount, hperm⟩ | ⟨id, rfl, hcount, hperm⟩ |
    ⟨hevents, hcount, hperm⟩
  · -- a new number
    have hnew : .spawned m.spawned ∉ log := fun hmem => (hspawned _ hmem).false
    have hfresh : m.spawned ∉ m.registered := fun hmem => hnew ((hunfinished _).mp hmem).1
    refine ⟨hperm.nodup_iff.mpr (List.nodup_cons.mpr ⟨hfresh, hnodup⟩), fun id => ?_, fun id => ?_,
      fun id => ?_⟩
    · rw [hperm.mem_iff, List.mem_cons, hunfinished, Unfinished]
      simp only [List.mem_append, List.mem_singleton, Event.spawned.injEq, reduceCtorEq, or_false]
      refine ⟨?_, ?_⟩
      · rintro (rfl | hid)
        · exact ⟨.inr rfl, fun hmem => hnew (hcompleted _ hmem)⟩
        · exact ⟨.inl hid.1, hid.2⟩
      · rintro ⟨hid | hid, hnot⟩
        · exact .inr ⟨hid, hnot⟩
        · exact .inl hid
    · simp only [List.mem_append, List.mem_singleton, Event.spawned.injEq, hcount]
      rintro (hid | rfl)
      · exact Nat.lt_succ_of_lt (hspawned id hid)
      · exact Nat.lt_succ_self _
    · simp only [List.mem_append, List.mem_singleton, reduceCtorEq, or_false]
      exact fun hid => .inl (hcompleted id hid)
  · -- one that ends
    have hcons := List.nodup_cons.mp (hperm.nodup_iff.mp hnodup)
    have hid : id ∈ m.registered := hperm.mem_iff.mpr List.mem_cons_self
    refine ⟨hcons.2, fun id' => ?_, fun id' => ?_, fun id' => ?_⟩
    · have hmem : id' ∈ m.registered ↔ id' = id ∨ id' ∈ m'.registered := by
        rw [hperm.mem_iff, List.mem_cons]
      rw [hunfinished] at hmem
      simp only [Unfinished, List.mem_append, List.mem_singleton, Event.completed.injEq,
        reduceCtorEq, or_false, not_or]
      refine ⟨fun h => ?_, fun h => ?_⟩
      · have hboth := hmem.mpr (.inr h)
        refine ⟨hboth.1, hboth.2, ?_⟩
        rintro rfl
        exact hcons.1 h
      · exact (hmem.mp ⟨h.1, h.2.1⟩).resolve_left h.2.2
    · simp only [List.mem_append, List.mem_singleton, reduceCtorEq, or_false, hcount]
      exact hspawned id'
    · simp only [List.mem_append, List.mem_singleton, reduceCtorEq, or_false,
        Event.completed.injEq]
      rintro (hmem | rfl)
      · exact hcompleted id' hmem
      · exact ((hunfinished _).mp hid).1
  · have hsame : ∀ id, (.spawned id ∈ log ++ events ↔ .spawned id ∈ log) ∧
        (.completed id ∈ log ++ events ↔ .completed id ∈ log) := by
      intro id
      simp [(hevents id).1, (hevents id).2]
    refine ⟨hperm.nodup_iff.mpr hnodup, fun id => ?_, fun id => ?_, fun id => ?_⟩
    · rw [hperm.mem_iff, hunfinished, Unfinished, (hsame id).1, (hsame id).2]
    · rw [(hsame id).1, hcount]
      exact hspawned id
    · rw [(hsame id).1, (hsame id).2]
      exact hcompleted id

/-! ## Handles -/

theorem update_eq_some {m : Machine} {id id' : ℕ} {f : Shared → Shared} {s' : Shared} :
    m.update id f id' = some s' ↔
      ∃ s, m.shared id' = some s ∧ s' = if id' = id then f s else s := by
  unfold update
  by_cases hid : id' = id
  · subst hid
    simp [eq_comm]
  · simp [hid]

theorem isSome_update {m : Machine} {id id' : ℕ} {f : Shared → Shared} :
    (m.update id f id').isSome = (m.shared id').isSome := by
  unfold update
  by_cases hid : id' = id
  · subst hid
    simp
  · simp [hid]

/-- What the handles share with their tasks: the second reference is there until the task has
ended. -/
structure Handles (m : Machine) (log : List Event) : Prop where
  handles : ∀ id ∈ m.handles, (m.shared id).isSome
  waiting : ∀ id, .drop id ∈ m.stack ∨ .take id ∈ m.stack → (m.shared id).isSome
  spawned : ∀ id, (m.shared id).isSome → id < m.spawned
  running : ∀ id s, m.shared id = some s → .completed id ∉ log → s.strong_count = 2
  ended : ∀ id s, m.shared id = some s → s.result = true → .completed id ∈ log
  cancelled : ∀ id, .cancelled id ∈ log → m.is_cancelled id = true

theorem is_cancelled_iff {m : Machine} {id : ℕ} :
    m.is_cancelled id = true ↔ ∃ s, m.shared id = some s ∧ s.cancelled = true := by
  simp [is_cancelled, Option.any_eq_true]

theorem Handles.new : Handles new [] where
  handles id h := by cases h
  waiting id h := by simp [Machine.new] at h
  spawned id h := by cases h
  running id s h := by cases h
  ended id s h := by cases h
  cancelled id h := by cases h

/-- Steps that leave the shared cells and observe nothing about them. -/
theorem Handles.of_same {m m' : Machine} {log events : List Event} (h : Handles m log)
    (hshared : m'.shared = m.shared) (hspawned : m.spawned ≤ m'.spawned)
    (hhandles : m'.handles ⊆ m.handles)
    (hstack : ∀ id, .drop id ∈ m'.stack ∨ .take id ∈ m'.stack → (m.shared id).isSome)
    (hcancelled : ∀ id, .cancelled id ∉ events) : Handles m' (log ++ events) where
  handles id hid := hshared ▸ h.handles id (hhandles hid)
  waiting id hid := hshared ▸ hstack id hid
  spawned id hid := (h.spawned id (hshared ▸ hid)).trans_le hspawned
  running id s hs hnot :=
    h.running id s (hshared ▸ hs) fun hmem => hnot (List.mem_append_left _ hmem)
  ended id s hs hresult := List.mem_append_left _ (h.ended id s (hshared ▸ hs) hresult)
  cancelled id hid := by
    have hold := h.cancelled id ((List.mem_append.mp hid).resolve_right (hcancelled id))
    rw [is_cancelled, hshared]
    exact hold

/-- Steps that change what one handle shares. -/
theorem Handles.of_update {m m' : Machine} {log events : List Event} {id : ℕ}
    {f : Shared → Shared} (h : Handles m log) (hshared : m'.shared = m.update id f)
    (hspawned : m'.spawned = m.spawned) (hhandles : m'.handles ⊆ m.handles)
    (hstack : ∀ id', .drop id' ∈ m'.stack ∨ .take id' ∈ m'.stack → (m.shared id').isSome)
    (hcount : .completed id ∉ events → ∀ s, (f s).strong_count = s.strong_count)
    (hresult : ∀ s, (f s).result = true → s.result = true ∨ .completed id ∈ events)
    (hkeeps : ∀ s, s.cancelled = true → (f s).cancelled = true)
    (hcancelled : ∀ id', .cancelled id' ∈ events →
      id' = id ∧ (m.shared id).isSome ∧ ∀ s, (f s).cancelled = true) :
    Handles m' (log ++ events) where
  handles id' hid := by
    rw [hshared, isSome_update]
    exact h.handles id' (hhandles hid)
  waiting id' hid := by
    rw [hshared, isSome_update]
    exact hstack id' hid
  spawned id' hid := by
    rw [hshared, isSome_update] at hid
    rw [hspawned]
    exact h.spawned id' hid
  running id' s hs hnot := by
    rw [hshared] at hs
    rw [List.mem_append, not_or] at hnot
    obtain ⟨s₀, hs₀, rfl⟩ := update_eq_some.mp hs
    have hold := h.running id' s₀ hs₀ hnot.1
    split
    · next heq =>
        rw [hcount (heq ▸ hnot.2)]
        exact hold
    · exact hold
  ended id' s hs hresult' := by
    rw [hshared] at hs
    obtain ⟨s₀, hs₀, rfl⟩ := update_eq_some.mp hs
    split at hresult'
    · next heq =>
        subst heq
        exact List.mem_append.mpr ((hresult s₀ hresult').imp_left (h.ended id' s₀ hs₀))
    · exact List.mem_append_left _ (h.ended id' s₀ hs₀ hresult')
  cancelled id' hid := by
    rw [is_cancelled_iff, hshared]
    rcases List.mem_append.mp hid with hmem | hmem
    · obtain ⟨s₀, hs₀, hc⟩ := is_cancelled_iff.mp (h.cancelled id' hmem)
      refine ⟨_, update_eq_some.mpr ⟨s₀, hs₀, rfl⟩, ?_⟩
      split
      · exact hkeeps s₀ hc
      · exact hc
    · obtain ⟨rfl, hsome, hc⟩ := hcancelled id' hmem
      obtain ⟨s₀, hs₀⟩ := Option.isSome_iff_exists.mp hsome
      exact ⟨_, update_eq_some.mpr ⟨s₀, hs₀, rfl⟩, by rw [if_pos rfl, hc]⟩

theorem Handles.step {m m' : Machine} {log events : List Event} (h : Handles m log)
    (hstep : Steps m m' events) : Handles m' (log ++ events) := by
  -- the frames below the one on top
  have hrest : ∀ {frame rest}, m.stack = frame :: rest →
      ∀ id, .drop id ∈ rest ∨ .take id ∈ rest → (m.shared id).isSome := by
    intro frame rest hstack id hid
    refine h.waiting id ?_
    rw [hstack]
    exact hid.imp (List.mem_cons_of_mem _) (List.mem_cons_of_mem _)
  cases hstep with
  | spawn => exact h.of_same rfl (Nat.le_succ _) (List.Subset.refl _) h.waiting (by simp)
  | spawn_task =>
      have hnone : m.shared m.spawned = none := by
        rw [← Option.not_isSome_iff_eq_none]
        exact fun hsome => (h.spawned _ hsome).false
      have hold : ∀ id, (m.shared id).isSome →
          (Function.update m.shared m.spawned (some ⟨false, false, 2⟩) id).isSome := by
        intro id hid
        have hne : id ≠ m.spawned := (h.spawned id hid).ne
        rwa [Function.update_of_ne hne]
      refine ⟨fun id hid => ?_, fun id hid => hold id (h.waiting id hid), fun id hid => ?_,
        fun id s hs hnot => ?_, fun id s hs hresult => ?_, fun id hid => ?_⟩
      · rcases List.mem_cons.mp hid with rfl | hid
        · simp [spawn_task, push]
        · exact hold id (h.handles id hid)
      · simp only [spawn_task, push] at hid ⊢
        by_cases hne : id = m.spawned
        · omega
        · rw [Function.update_of_ne hne] at hid
          exact Nat.lt_succ_of_lt (h.spawned id hid)
      · simp only [spawn_task, push] at hs
        by_cases hne : id = m.spawned
        · subst hne
          rw [Function.update_self] at hs
          cases hs
          rfl
        · rw [Function.update_of_ne hne] at hs
          exact h.running id s hs fun hmem => hnot (List.mem_append_left _ hmem)
      · simp only [spawn_task, push] at hs
        by_cases hne : id = m.spawned
        · subst hne
          rw [Function.update_self] at hs
          cases hs
          cases hresult
        · rw [Function.update_of_ne hne] at hs
          exact List.mem_append_left _ (h.ended id s hs hresult)
      · have hcancelled := h.cancelled id (by simpa using hid)
        obtain ⟨s, hs, hs'⟩ := is_cancelled_iff.mp hcancelled
        refine is_cancelled_iff.mpr ⟨s, ?_, hs'⟩
        have hne : id ≠ m.spawned := (h.spawned id (by rw [hs]; rfl)).ne
        simp only [spawn_task, push]
        rwa [Function.update_of_ne hne]
  | poll_once =>
      refine h.of_same rfl le_rfl (List.Subset.refl _) (fun id hid => h.waiting id ?_) (by simp)
      simpa [Machine.poll_once] using hid
  | @drop id hid =>
      have hsome := h.handles id hid
      refine h.of_update rfl rfl List.erase_subset (fun id' hid' => ?_) (fun _ _ => rfl)
        (fun _ hresult => .inl hresult) (fun _ _ => rfl) fun id' hid' => ?_
      · simp only [List.mem_cons] at hid'
        rcases hid' with (heq | hmem) | (heq | hmem)
        · cases heq
          exact hsome
        · exact h.waiting id' (.inl hmem)
        · cases heq
        · exact h.waiting id' (.inr hmem)
      · cases List.mem_singleton.mp hid'
        exact ⟨rfl, hsome, fun _ => rfl⟩
  | @take id hid =>
      refine h.of_same rfl le_rfl List.erase_subset (fun id' hid' => ?_) (by simp)
      simp only [List.mem_cons] at hid'
      rcases hid' with (heq | hmem) | (heq | hmem)
      · cases heq
      · exact h.waiting id' (.inl hmem)
      · cases heq
        exact h.handles id hid
      · exact h.waiting id' (.inr hmem)
  | @ready tasks i id phase rest f hstack hphase hid hf =>
      refine h.of_update rfl rfl (List.Subset.refl _) (fun id' hid' => hrest hstack id' ?_)
        (fun hnot => absurd (List.mem_singleton_self _) hnot)
        (fun _ _ => .inr (List.mem_singleton_self _)) (fun s hs => (hf s).trans hs) (by simp)
      simpa [complete] using hid'
  | pending hstack =>
      refine h.of_same rfl le_rfl (List.Subset.refl _) (fun id hid => hrest hstack id ?_) (by simp)
      simpa using hid
  | cancel hstack _ _ =>
      refine h.of_same rfl le_rfl (List.Subset.refl _) (fun id hid => hrest hstack id ?_) (by simp)
      simpa using hid
  | advance hstack _ _ =>
      refine h.of_same rfl le_rfl (List.Subset.refl _) (fun id hid => hrest hstack id ?_) (by simp)
      simpa using hid
  | finish hstack _ =>
      exact h.of_same rfl le_rfl (List.Subset.refl _) (hrest hstack) (by simp)
  | dropped hstack _ =>
      exact h.of_same rfl le_rfl (List.Subset.refl _) (hrest hstack) (by simp)
  | taken hstack _ =>
      exact h.of_update rfl rfl (List.Subset.refl _) (hrest hstack) (fun _ _ => rfl)
        (fun _ hresult => (by cases hresult)) (fun _ hs => hs) (by simp)

/-! ## The order of the events -/

/-- What must have been observed before an event, or not. -/
def Justified (log : List Event) : Event → Prop
  | .spawned id => .spawned id ∉ log
  | .polled id => Unfinished log id
  | .advanced id => .cancelled id ∉ log
  | .completed id => Unfinished log id
  | .dropped id => .completed id ∈ log
  | _ => True

def InOrder (log : List Event) : Prop :=
  ∀ before event after, log = before ++ event :: after → Justified before event

theorem InOrder.concat {log : List Event} {event : Event} (h : InOrder log)
    (hevent : Justified log event) : InOrder (log ++ [event]) := by
  intro before event' after heq
  cases after using List.reverseRecOn with
  | nil =>
      obtain ⟨rfl, hlast⟩ := List.append_inj' heq rfl
      cases hlast
      exact hevent
  | append_singleton after last =>
      rw [← List.cons_append, ← List.append_assoc] at heq
      exact h before event' after (List.append_inj' heq rfl).1

theorem InOrder.step {m m' : Machine} {log events : List Event} (h : InOrder log)
    (hregisters : Registers m log) (hhandles : Handles m log) (hstep : Steps m m' events) :
    InOrder (log ++ events) := by
  have hnew : .spawned m.spawned ∉ log := fun hmem => (hregisters.spawned _ hmem).false
  have hpolled : ∀ {tasks i id phase rest}, m.stack = .poll_tasks tasks i phase :: rest →
      tasks[i]? = some id → Unfinished log id := by
    intro tasks i id phase rest hstack hid
    refine (hregisters.unfinished id).mp ?_
    rw [registered, hstack, List.flatMap_cons]
    exact List.mem_append_right _ (List.mem_append_left _ (List.mem_of_getElem? hid))
  cases hstep with
  | spawn => exact h.concat hnew
  | spawn_task => exact h.concat hnew
  | poll_once => exact h.concat trivial
  | drop _ => exact h.concat trivial
  | take _ =>
      rw [List.append_nil]
      exact h
  | @ready tasks i id phase rest f hstack _ hid _ =>
      exact h.concat (show Justified log (.completed id) from hpolled hstack hid)
  | pending _ =>
      rw [List.append_nil]
      exact h
  | @cancel tasks i id rest hstack hid _ =>
      exact h.concat (show Justified log (.polled id) from hpolled hstack hid)
  | @advance tasks i id rest hstack hid hcancelled =>
      rw [show [Event.polled id, .advanced id] = [.polled id] ++ [.advanced id] from rfl,
        ← List.append_assoc]
      refine (h.concat (show Justified log (.polled id) from hpolled hstack hid)).concat ?_
      show .cancelled id ∉ log ++ [.polled id]
      intro hmem
      rw [hhandles.cancelled id (by simpa using hmem)] at hcancelled
      cases hcancelled
  | finish _ _ => exact h.concat trivial
  | @dropped id rest hstack hcount =>
      refine h.concat ?_
      show .completed id ∈ log
      obtain ⟨s, hs⟩ := Option.isSome_iff_exists.mp
        (hhandles.waiting id (.inl (by rw [hstack]; exact List.mem_cons_self)))
      by_contra hnot
      rw [strong_count, hs] at hcount
      have htwo := hhandles.running id s hs hnot
      simp [htwo] at hcount
  | @taken id rest hstack hresult =>
      refine h.concat ?_
      show .completed id ∈ log
      obtain ⟨s, hs, hs'⟩ : ∃ s, m.shared id = some s ∧ s.result = true := by
        simpa [has_result, Option.any_eq_true] using hresult
      exact hhandles.ended id s hs hs'

/-! ## Rounds -/

/-- What the outermost loop has taken, and what of it is still to be polled. -/
def outermost : List Frame → Option (List ℕ × List ℕ)
  | [] => none
  | .poll_tasks tasks i phase :: rest =>
      some ((outermost rest).getD (tasks, tasks.drop (if phase = .head then i else i + 1)))
  | .drop _ :: rest => outermost rest
  | .take _ :: rest => outermost rest

theorem outermost_eq_none {stack : List Frame} : outermost stack = none ↔ depth stack = 0 := by
  induction stack with
  | nil => simp [outermost, depth]
  | cons frame rest ih => cases frame <;> simp [outermost, depth, ih]

/-- All rounds have ended. -/
def Closed (log : List Event) : Prop :=
  ∀ before after : List Event, log = before ++ .began 0 :: after → .ended 0 ∈ after

/-- The round that goes on has polled what is no longer to be polled, each task once. -/
def Polls (m : Machine) (before round : List Event) (tasks todo : List ℕ) : Prop :=
  ∀ id, Unfinished before id →
    round.count (.polled id) + todo.count id = 1 ∧ (id ∈ m.registered → id ∈ tasks)

def Rounds (m : Machine) (log : List Event) : Prop :=
  match outermost m.stack with
  | none => Closed log
  | some (tasks, todo) => ∃ before round, log = before ++ .began 0 :: round ∧ Closed before ∧
      .began 0 ∉ round ∧ .ended 0 ∉ round ∧ Polls m before round tasks todo

/-- Each round that has ended polled every task that was there. -/
def Fair (log : List Event) : Prop :=
  ∀ before round after : List Event, log = before ++ .began 0 :: (round ++ .ended 0 :: after) →
    .ended 0 ∉ round → ∀ id, Unfinished before id → round.count (.polled id) = 1

theorem Closed.append {log events : List Event} (h : Closed log) (hbegan : .began 0 ∉ events) :
    Closed (log ++ events) := by
  intro before after heq
  rcases List.append_eq_append_iff.mp heq with ⟨middle, hbefore, hevents⟩ | ⟨middle, hlog, hafter⟩
  · exact absurd (by rw [hevents]; simp) hbegan
  · cases middle with
    | nil =>
        rw [List.nil_append] at hafter
        exact absurd (by rw [← hafter]; simp) hbegan
    | cons event middle =>
        cases hafter
        exact List.mem_append_left _ (h before middle hlog)

theorem Closed.ended (log : List Event) : Closed (log ++ [.ended 0]) := by
  intro before after heq
  cases after using List.reverseRecOn with
  | nil => cases (List.append_inj' heq rfl).2
  | append_singleton after last =>
      rw [← List.cons_append, ← List.append_assoc] at heq
      rw [← List.head_eq_of_cons_eq (List.append_inj' heq rfl).2]
      simp

/-- A round begins in one place only. -/
theorem Closed.begins {before before' round round' : List Event} (hbefore : Closed before)
    (heq : before ++ .began 0 :: round = before' ++ .began 0 :: round')
    (hbegan : .began 0 ∉ round) (hended : .ended 0 ∉ round') :
    before = before' ∧ round = round' := by
  rcases List.append_eq_append_iff.mp heq with ⟨middle, hlong, hrest⟩ | ⟨middle, hlong, hrest⟩
  · cases middle with
    | nil =>
        cases hrest
        exact ⟨by rw [hlong, List.append_nil], rfl⟩
    | cons event middle =>
        cases hrest
        exact absurd (by simp) hbegan
  · cases middle with
    | nil =>
        cases hrest
        exact ⟨by rw [hlong, List.append_nil], rfl⟩
    | cons event middle =>
        cases hrest
        have hmem := hbefore before' middle hlong
        exact absurd (by simp [hmem]) hended

theorem outermost_mem {stack : List Frame} {tasks todo : List ℕ}
    (h : outermost stack = some (tasks, todo)) {id : ℕ} (hid : id ∈ tasks) :
    id ∈ stack.flatMap Frame.tasks := by
  induction stack with
  | nil => cases h
  | cons frame rest ih =>
      rw [List.flatMap_cons]
      cases frame with
      | poll_tasks tasks' i phase =>
          simp only [outermost, Option.some.injEq] at h
          cases hrest : outermost rest with
          | none =>
              rw [hrest] at h
              cases h
              exact List.mem_append_left _ hid
          | some outer =>
              rw [hrest] at h
              exact List.mem_append_right _ (ih (hrest.trans (congrArg some h)))
      | drop _ => exact List.mem_append_right _ (ih h)
      | take _ => exact List.mem_append_right _ (ih h)

theorem Polls.keep {m m' : Machine} {before round events : List Event} {tasks todo : List ℕ}
    (h : Polls m before round tasks todo)
    (hevents : ∀ id, Unfinished before id →
      .polled id ∉ events ∧ (id ∈ m'.registered → id ∈ m.registered)) :
    Polls m' before (round ++ events) tasks todo := by
  intro id hid
  obtain ⟨hpolled, hregistered⟩ := hevents id hid
  obtain ⟨hcount, hmem⟩ := h id hid
  rw [List.count_append, List.count_eq_zero.mpr hpolled, Nat.add_zero]
  exact ⟨hcount, fun h => hmem (hregistered h)⟩

/-- The round that goes on goes on. -/
theorem Rounds.keep {m m' : Machine} {log events : List Event} (h : Rounds m log)
    (hbegan : .began 0 ∉ events) (hended : .ended 0 ∉ events)
    (hnone : outermost m.stack = none → outermost m'.stack = none)
    (hpolls : ∀ tasks todo before round, outermost m.stack = some (tasks, todo) →
      log = before ++ .began 0 :: round → Polls m before round tasks todo →
      ∃ tasks' todo', outermost m'.stack = some (tasks', todo') ∧
        Polls m' before (round ++ events) tasks' todo') : Rounds m' (log ++ events) := by
  unfold Rounds at h ⊢
  cases houter : outermost m.stack with
  | none =>
      rw [houter] at h
      rw [hnone houter]
      exact h.append hbegan
  | some outer =>
      rw [houter] at h
      obtain ⟨before, round, hlog, hclosed, hround, hround', hp⟩ := h
      obtain ⟨tasks', todo', houter', hp'⟩ := hpolls _ _ before round houter hlog hp
      rw [houter']
      refine ⟨before, round ++ events, by rw [hlog]; simp, hclosed, ?_, ?_, hp'⟩
      · simp [hround, hbegan]
      · simp [hround', hended]

/-- The same loop is outermost, and what is polled, if anything, is not of its list. -/
theorem Rounds.inside {m m' : Machine} {log events : List Event} (h : Rounds m log)
    (hbegan : .began 0 ∉ events) (hended : .ended 0 ∉ events)
    (houter : outermost m'.stack = outermost m.stack)
    (hregistered : ∀ id, .spawned id ∈ log → id ∈ m'.registered → id ∈ m.registered)
    (hpolled : ∀ id tasks todo, outermost m.stack = some (tasks, todo) → .polled id ∈ events →
      id ∈ m.registered ∧ id ∉ tasks) : Rounds m' (log ++ events) := by
  refine h.keep hbegan hended (fun hnone => houter.trans hnone) ?_
  intro tasks todo before round hsome hlog hp
  refine ⟨tasks, todo, houter.trans hsome, hp.keep fun id hid => ⟨fun hmem => ?_, ?_⟩⟩
  · obtain ⟨hin, hout⟩ := hpolled id tasks todo hsome hmem
    exact hout ((hp id hid).2 hin)
  · exact hregistered id (by rw [hlog]; exact List.mem_append_left _ hid.1)

theorem Rounds.new : Rounds new [] := by
  intro before after heq
  cases before <;> cases heq

theorem registered_eq {m : Machine} (h : depth m.stack = 0) : m.registered = m.tasks := by
  have hframes : ∀ stack, depth stack = 0 → stack.flatMap Frame.tasks = [] := by
    intro stack
    induction stack with
    | nil => exact fun _ => rfl
    | cons frame rest ih =>
        intro hdepth
        cases frame with
        | poll_tasks _ _ _ => cases hdepth
        | drop _ => exact ih hdepth
        | take _ => exact ih hdepth
  rw [registered, hframes m.stack h, List.append_nil]

/-- A poll at the head of a loop. -/
theorem Rounds.poll {m m' : Machine} {log events : List Event} {tasks : List ℕ} {i id : ℕ}
    {phase : Phase} {rest : List Frame} (h : Rounds m log) (hregisters : Registers m log)
    (hstack : m.stack = .poll_tasks tasks i .head :: rest) (hid : tasks[i]? = some id)
    (hstack' : m'.stack = .poll_tasks tasks i phase :: rest) (hphase : phase ≠ .head)
    (hregistered : m'.registered = m.registered) (hbegan : .began 0 ∉ events)
    (hended : .ended 0 ∉ events) (hevents : ∀ id', events.count (.polled id') =
      if id' = id then 1 else 0) : Rounds m' (log ++ events) := by
  have hmem : id ∈ tasks := List.mem_of_getElem? hid
  cases hrest : outermost rest with
  | some outer =>
      refine h.inside hbegan hended ?_ (fun id' _ hid' => hregistered ▸ hid') ?_
      · rw [hstack', hstack, outermost, outermost, hrest]
        rfl
      · intro id' tasks₀ todo₀ hsome hpolled
        have hid' : id' = id := by
          by_contra hne
          have hzero := hevents id'
          rw [if_neg hne, List.count_eq_zero] at hzero
          exact hzero hpolled
        subst hid'
        have hnodup := hregisters.nodup
        rw [registered, hstack, List.flatMap_cons] at hnodup ⊢
        refine ⟨List.mem_append_right _ (List.mem_append_left _ hmem), fun hin => ?_⟩
        rw [hstack, outermost, hrest] at hsome
        have hdisjoint := (List.nodup_append.mp (List.nodup_append.mp hnodup).2.1).2.2
        exact hdisjoint id' hmem id' (outermost_mem (hrest.trans hsome) hin) rfl
  | none =>
      refine h.keep hbegan hended (fun hnone => ?_) ?_
      · rw [hstack, outermost] at hnone
        cases hnone
      · intro tasks₀ todo₀ before round hsome _ hp
        rw [hstack, outermost, hrest] at hsome
        cases hsome
        refine ⟨tasks, tasks.drop (i + 1), ?_, fun id' hid' => ?_⟩
        · rw [hstack', outermost, hrest, if_neg hphase]
          rfl
        · obtain ⟨hcount, hin⟩ := hp id' hid'
          rw [hregistered]
          refine ⟨?_, hin⟩
          rw [if_pos rfl, drop_eq_cons hid, List.count_cons] at hcount
          rw [List.count_append, hevents]
          by_cases heq : id' = id
          · subst heq
            simp at hcount ⊢
            omega
          · rw [if_neg (by simpa using fun h => heq h.symm)] at hcount
            rw [if_neg heq]
            omega

theorem Rounds.step {m m' : Machine} {log events : List Event} (h : Rounds m log)
    (hregisters : Registers m log) (hstep : Steps m m' events) : Rounds m' (log ++ events) := by
  have hspawned : .spawned m.spawned ∉ log := fun hmem => (hregisters.spawned _ hmem).false
  -- what was registered before
  have hkept : ∀ id, .spawned id ∈ log → id ∈ m'.registered → id ∈ m.registered := by
    intro id hlog hid
    rcases registered_steps hstep with ⟨_, _, hperm⟩ | ⟨_, _, _, hperm⟩ | ⟨_, _, hperm⟩
    · refine (List.mem_cons.mp (hperm.mem_iff.mp hid)).resolve_left ?_
      rintro rfl
      exact hspawned hlog
    · exact hperm.mem_iff.mpr (List.mem_cons_of_mem _ hid)
    · exact hperm.mem_iff.mp hid
  have hperm := registered_steps hstep
  cases hstep with
  | spawn => exact h.inside (by simp) (by simp) rfl hkept (by simp)
  | spawn_task => exact h.inside (by simp) (by simp) rfl hkept (by simp)
  | poll_once =>
      cases houter : outermost m.stack with
      | some outer =>
          have hdepth : depth m.stack ≠ 0 := fun hzero => by
            rw [outermost_eq_none.mpr hzero] at houter
            cases houter
          refine h.inside (by simpa using hdepth.symm) (by simp) ?_ hkept (by simp)
          simp only [Machine.poll_once, outermost, houter, Option.getD_some]
      | none =>
          -- an outermost round begins
          have hdepth := outermost_eq_none.mp houter
          unfold Rounds at h ⊢
          rw [houter] at h
          simp only [Machine.poll_once, outermost, houter, Option.getD_none, hdepth]
          refine ⟨log, [], rfl, h, by simp, by simp, fun id hid => ?_⟩
          have hmem := (hregisters.unfinished id).mpr hid
          have hnodup := hregisters.nodup
          rw [registered_eq hdepth] at hmem hnodup
          refine ⟨?_, fun _ => hmem⟩
          simp only [if_true, List.drop_zero, List.count_nil, Nat.zero_add]
          exact List.count_eq_one_of_mem hnodup hmem
  | drop _ => exact h.inside (by simp) (by simp) rfl hkept (by simp)
  | take _ => exact h.inside (by simp) (by simp) rfl hkept (by simp)
  | @ready tasks i id phase rest f hstack hphase hid _ =>
      cases hrest : outermost rest with
      | some outer =>
          refine h.inside (by simp) (by simp) ?_ hkept (by simp)
          rw [hstack]
          simp only [complete, outermost, hrest, Option.getD_some]
      | none =>
          refine h.keep (by simp) (by simp) (fun hnone => ?_) ?_
          · rw [hstack, outermost] at hnone
            cases hnone
          · intro tasks₀ todo₀ before round hsome hlog hp
            rw [hstack, outermost, hrest, if_neg hphase] at hsome
            cases hsome
            refine ⟨swap_remove tasks i, (swap_remove tasks i).drop i, ?_, fun id' hid' => ?_⟩
            · simp only [complete, outermost, hrest, Option.getD_none, if_true]
            · obtain ⟨hcount, hin⟩ := hp id' hid'
              refine ⟨?_, fun hmem => ?_⟩
              · rw [List.count_append, (drop_swap_remove hid).count_eq]
                simpa using hcount
              · -- it is not the one that was removed
                have hne : id' ≠ id := by
                  rintro rfl
                  rcases hperm with ⟨heq, _⟩ | ⟨removed, heq, _, hperm⟩ | ⟨hnot, _⟩
                  · cases heq
                  · cases heq
                    exact (List.nodup_cons.mp (hperm.nodup_iff.mp hregisters.nodup)).1 hmem
                  · exact (hnot _).2 (List.mem_singleton_self _)
                have hold := hin (hkept id' (by rw [hlog]; exact List.mem_append_left _ hid'.1) hmem)
                exact (List.mem_cons.mp ((perm_swap_remove hid).mem_iff.mp hold)).resolve_left hne
  | pending hstack =>
      refine h.inside (by simp) (by simp) ?_ hkept (by simp)
      rw [hstack]
      simp [outermost]
  | @cancel tasks i id rest hstack hid _ =>
      refine h.poll hregisters hstack hid rfl (by decide) ?_ (by simp) (by simp) fun id' => ?_
      · simp only [registered, hstack, List.flatMap_cons, Frame.tasks]
      · rcases eq_or_ne id' id with rfl | hne
        · simp
        · simp [hne, hne.symm]
  | @advance tasks i id rest hstack hid _ =>
      refine h.poll hregisters hstack hid rfl (by decide) ?_ (by simp) (by simp) fun id' => ?_
      · simp only [registered, hstack, List.flatMap_cons, Frame.tasks]
      · rcases eq_or_ne id' id with rfl | hne
        · simp
        · simp [hne, hne.symm]
  | @finish tasks i rest hstack hend =>
      cases hrest : outermost rest with
      | some outer =>
          have hdepth : depth rest ≠ 0 := fun hzero => by
            rw [outermost_eq_none.mpr hzero] at hrest
            cases hrest
          refine h.inside (by simp) (by simpa using hdepth.symm) ?_ hkept (by simp)
          rw [hstack]
          simp only [Machine.finish, outermost, hrest, Option.getD_some]
      | none =>
          unfold Rounds
          simp only [Machine.finish, hrest, outermost_eq_none.mp hrest]
          exact Closed.ended log
  | dropped hstack _ =>
      refine h.inside (by simp) (by simp) ?_ hkept (by simp)
      rw [hstack]
      rfl
  | taken hstack _ =>
      refine h.inside (by simp) (by simp) ?_ hkept (by simp)
      rw [hstack]
      rfl

theorem Fair.append {log events : List Event} (h : Fair log) (hended : .ended 0 ∉ events) :
    Fair (log ++ events) := by
  intro before round after heq hround
  rw [← List.cons_append, ← List.append_assoc] at heq
  rcases List.append_eq_append_iff.mp heq with ⟨middle, _, hevents⟩ | ⟨middle, hlog, hafter⟩
  · exact absurd (by rw [hevents]; simp) hended
  · cases middle with
    | nil =>
        rw [List.nil_append] at hafter
        exact absurd (by rw [← hafter]; simp) hended
    | cons event middle =>
        cases hafter
        rw [List.append_assoc, List.cons_append] at hlog
        exact h before round middle hlog hround

theorem Fair.step {m m' : Machine} {log events : List Event} (h : Fair log)
    (hrounds : Rounds m log) (hstep : Steps m m' events) : Fair (log ++ events) := by
  cases hstep with
  | @finish tasks i rest hstack hend =>
      cases hrest : outermost rest with
      | some outer =>
          have hdepth : depth rest ≠ 0 := fun hzero => by
            rw [outermost_eq_none.mpr hzero] at hrest
            cases hrest
          exact h.append (by simpa using hdepth.symm)
      | none =>
          -- the outermost round ends
          rw [outermost_eq_none.mp hrest]
          unfold Rounds at hrounds
          rw [hstack, outermost, hrest] at hrounds
          obtain ⟨before, round, hlog, hclosed, hbegan, hended, hpolls⟩ := hrounds
          intro before' round' after heq hround' id hid
          cases after using List.reverseRecOn with
          | nil =>
              rw [← List.cons_append, ← List.append_assoc] at heq
              have hsame := (List.append_inj' heq rfl).1
              obtain ⟨rfl, rfl⟩ := hclosed.begins (hlog.symm.trans hsame) hbegan hround'
              have hcount := (hpolls id hid).1
              rw [if_pos rfl, List.drop_of_length_le (List.getElem?_eq_none_iff.mp hend)] at hcount
              simpa using hcount
          | append_singleton after last =>
              rw [← List.cons_append, ← List.append_assoc, ← List.cons_append,
                ← List.append_assoc] at heq
              refine h before' round' after ?_ hround' id hid
              rw [(List.append_inj' heq rfl).1, List.append_assoc, List.cons_append]
  | spawn => exact h.append (by simp)
  | spawn_task => exact h.append (by simp)
  | poll_once => exact h.append (by simp)
  | drop _ => exact h.append (by simp)
  | take _ => exact h.append (by simp)
  | ready _ _ _ _ => exact h.append (by simp)
  | pending _ => exact h.append (by simp)
  | cancel _ _ _ => exact h.append (by simp)
  | advance _ _ _ => exact h.append (by simp)
  | dropped _ _ => exact h.append (by simp)
  | taken _ _ => exact h.append (by simp)

/-- All invariants. -/
structure Sound (m : Machine) (log : List Event) : Prop where
  registers : Registers m log
  handles : Handles m log
  in_order : InOrder log
  rounds : Rounds m log
  fair : Fair log

theorem Reached.sound {m : Machine} {log : List Event} (h : Reached m log) : Sound m log := by
  induction h with
  | new =>
      refine ⟨.new, .new, ?_, .new, ?_⟩
      · intro before event after heq
        cases before <;> cases heq
      · intro before round after heq
        cases before <;> cases heq
  | step _ hstep ih =>
      have hcases := step_cases hstep
      exact ⟨ih.registers.step hcases, ih.handles.step hcases,
        ih.in_order.step ih.registers ih.handles hcases, ih.rounds.step ih.registers hcases,
        ih.fair.step ih.rounds hcases⟩

/-- In every run: a task is in one place until it has ended, and in none afterwards; it is
polled in every outermost round, once, and never after it has ended; and the inner future of a
handle that is gone has ended, without having been polled since it was cancelled. -/
theorem tasks_polled_once {m : Machine} {log : List Event} (h : Reached m log) :
    (∀ id, Unfinished log id → m.registered.count id = 1) ∧
    (∀ id, ¬ Unfinished log id → id ∉ m.registered) ∧
    (∀ before round after : List Event, log = before ++ .began 0 :: (round ++ .ended 0 :: after) →
      .ended 0 ∉ round → ∀ id, Unfinished before id → round.count (.polled id) = 1) ∧
    (∀ (before after : List Event) id, log = before ++ .spawned id :: after → .spawned id ∉ before) ∧
    (∀ (before after : List Event) id, log = before ++ .polled id :: after → .completed id ∉ before) ∧
    (∀ (before after : List Event) id, log = before ++ .advanced id :: after → .cancelled id ∉ before) ∧
    ∀ (before after : List Event) id, log = before ++ .dropped id :: after →
      .completed id ∈ before ∧ id ∉ m.registered := by
  obtain ⟨hregisters, _, horder, _, hfair⟩ := h.sound
  refine ⟨fun id hid => ?_, fun id hid hmem => ?_, hfair, fun before after id heq => ?_,
    fun before after id heq => ?_, fun before after id heq => ?_, fun before after id heq => ?_⟩
  · exact List.count_eq_one_of_mem hregisters.nodup ((hregisters.unfinished id).mpr hid)
  · exact hid ((hregisters.unfinished id).mp hmem)
  · exact horder before (.spawned id) after heq
  · exact (show Unfinished before id from horder before (.polled id) after heq).2
  · exact horder before (.advanced id) after heq
  · have hcompleted : .completed id ∈ before := horder before (.dropped id) after heq
    refine ⟨hcompleted, fun hmem => ?_⟩
    exact ((hregisters.unfinished id).mp hmem).2 (heq ▸ List.mem_append_left _ hcompleted)

theorem Reached.run {m m' : Machine} {log events : List Event} {actions : List Action}
    (h : Reached m log) (hrun : m.run actions = some (m', events)) :
    Reached m' (log ++ events) := by
  induction actions generalizing m log events with
  | nil =>
      cases hrun
      rw [List.append_nil]
      exact h
  | cons action actions ih =>
      obtain ⟨⟨m₁, events₁⟩, hstep, hrun⟩ := Option.bind_eq_some_iff.mp hrun
      obtain ⟨⟨m₂, events₂⟩, hrest, heq⟩ := Option.bind_eq_some_iff.mp hrun
      cases heq
      rw [← List.append_assoc]
      exact ih (h.step hstep) hrest

/-- Two tasks. The first spawns a third and polls it to its end; then its handle is dropped. -/
theorem tasks_polled_once_two : ∃ m,
    Reached m [.spawned 0, .spawned 1, .began 0, .polled 0, .advanced 0, .spawned 2, .began 1,
      .polled 2, .advanced 2, .completed 2, .ended 1, .polled 1, .advanced 1, .ended 0,
      .cancelled 0, .began 0, .polled 0, .completed 0, .polled 1, .advanced 1, .ended 0,
      .dropped 0] ∧ 0 ∉ m.registered ∧ m.registered.count 1 = 1 := by
  have hlog : (new.run [.spawn_task, .spawn, .poll_once, .turn, .spawn, .poll_once, .turn, .ready,
      .turn, .pending, .turn, .pending, .turn, .drop 0, .turn, .turn, .ready, .turn, .pending,
      .turn, .turn]).map Prod.snd = some _ := rfl
  obtain ⟨⟨m, events⟩, hrun, hevents⟩ := Option.map_eq_some_iff.mp hlog
  cases hevents
  have hreached := Reached.new.run hrun
  have hsound := tasks_polled_once hreached
  exact ⟨m, hreached, hsound.2.1 0 (by decide), hsound.1 1 (by decide)⟩

end Machine

end Vanadium.AppSdk.Executor
