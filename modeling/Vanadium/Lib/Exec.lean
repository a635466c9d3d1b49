import Mathlib

/-!
# Computations with a state, an error and an end

A call of a program with mutable state ends in one of three ways: it returns,
it fails with an error its caller may handle, or execution stops there — by a
panic, or because the call waits for an answer that never comes. In all three
cases the state is the one reached, so that what an aborted call leaves behind
is something one can speak about.

The rules are the usual ones of such a language. `bind_ok` inverts a sequence
that returned. `Keeps I` says that a computation that returns keeps the
invariant `I`, and has a rule for everything programs are made of; `Panics`
says that one ends in a panic, and is taken apart the same way; `Reaches` are
the states a loop passes through, and what every turn keeps holds in all of
them.
-/

namespace Vanadium.Lib

/-- Why execution ended inside a call. -/
inductive Stop where
  | panic
  | hang
  deriving DecidableEq, Repr

inductive Outcome (ε σ α : Type) where
  | ok (a : α) (s : σ)
  | err (e : ε) (s : σ)
  | stop (why : Stop) (s : σ)

/-- The state a call leaves behind. -/
def Outcome.state {ε σ α : Type} : Outcome ε σ α → σ
  | .ok _ s => s
  | .err _ s => s
  | .stop _ s => s

def Exec (ε σ α : Type) : Type := σ → Outcome ε σ α

namespace Exec

variable {ε ε' σ τ α β : Type}

protected def pure (a : α) : Exec ε σ α := fun s => .ok a s

protected def bind (m : Exec ε σ α) (f : α → Exec ε σ β) : Exec ε σ β := fun s =>
  match m s with
  | .ok a s' => f a s'
  | .err e s' => .err e s'
  | .stop w s' => .stop w s'

instance : Monad (Exec ε σ) where
  pure := Exec.pure
  bind := Exec.bind

def throw (e : ε) : Exec ε σ α := fun s => .err e s

def stop (w : Stop) : Exec ε σ α := fun s => .stop w s

/-- The language's own panic. -/
def panic : Exec ε σ α := stop .panic

def get : Exec ε σ σ := fun s => .ok s s

def set (s' : σ) : Exec ε σ Unit := fun _ => .ok () s'

def modify (f : σ → σ) : Exec ε σ Unit := fun s => .ok () (f s)

/-- `if c { return Err(e) }`. -/
def reject (c : Prop) [Decidable c] (e : ε) : Exec ε σ Unit :=
  if c then throw e else Exec.pure ()

/-- `assert!(c)`. -/
def assert (c : Prop) [Decidable c] : Exec ε σ Unit :=
  if c then Exec.pure () else panic

/-- `unwrap`: nothing there is a panic. -/
def unwrap : Option α → Exec ε σ α
  | some a => Exec.pure a
  | none => panic

/-- `map_err(|_| e)?` on an option. -/
def orElse (o : Option α) (e : ε) : Exec ε σ α :=
  match o with
  | some a => Exec.pure a
  | none => throw e

/-- `map_err(f)?` on a result. -/
def ofExcept (f : ε' → ε) : Except ε' α → Exec ε σ α
  | .ok a => Exec.pure a
  | .error e => throw (f e)

/-- A match on a result: what failed has changed nothing. -/
def attempt (m : Exec ε σ α) : Exec ε' σ (Except ε α) := fun s =>
  match m s with
  | .ok a s' => .ok (.ok a) s'
  | .err e _ => .ok (.error e) s
  | .stop w s' => .stop w s'

/-- Run a computation on a part of the state, translating its errors. -/
def zoom (read : σ → τ) (write : τ → σ → σ) (f : ε' → ε) (m : Exec ε' τ α) :
    Exec ε σ α := fun s =>
  match m (read s) with
  | .ok a t => .ok a (write t s)
  | .err e t => .err (f e) (write t s)
  | .stop w t => .stop w (write t s)

/-- `map_err(f)` on a call. -/
def map_err (f : ε' → ε) (m : Exec ε' σ α) : Exec ε σ α := zoom id (fun s _ => s) f m

/-! ## Inversion -/

theorem bind_ok {m : Exec ε σ α} {f : α → Exec ε σ β} {s s' : σ} {b : β} :
    (m >>= f) s = .ok b s' ↔ ∃ a s₁, m s = .ok a s₁ ∧ f a s₁ = .ok b s' := by
  show Exec.bind m f s = _ ↔ _
  unfold Exec.bind
  cases m s with
  | ok a s₁ =>
      refine ⟨fun h => ⟨a, s₁, rfl, h⟩, ?_⟩
      rintro ⟨a', s', h, h'⟩
      cases h
      exact h'
  | err e s₁ => simp
  | stop w s₁ => simp

@[simp] theorem pure_apply (a : α) (s : σ) : (pure a : Exec ε σ α) s = .ok a s := rfl

@[simp] theorem exec_pure_apply (a : α) (s : σ) :
    (Exec.pure a : Exec ε σ α) s = .ok a s := rfl

@[simp] theorem throw_apply (e : ε) (s : σ) :
    (throw e : Exec ε σ α) s = .err e s := rfl

@[simp] theorem stop_apply (w : Stop) (s : σ) :
    (stop w : Exec ε σ α) s = .stop w s := rfl

@[simp] theorem panic_apply (s : σ) :
    (panic : Exec ε σ α) s = .stop .panic s := rfl

@[simp] theorem get_apply (s : σ) : (get : Exec ε σ σ) s = .ok s s := rfl

@[simp] theorem set_apply (s s' : σ) : (set s' : Exec ε σ Unit) s = .ok () s' := rfl

@[simp] theorem modify_apply (f : σ → σ) (s : σ) :
    (modify f : Exec ε σ Unit) s = .ok () (f s) := rfl

theorem bind_apply_ok {m : Exec ε σ α} {f : α → Exec ε σ β} {s s₁ : σ} {a : α}
    (h : m s = .ok a s₁) : (m >>= f) s = f a s₁ := by
  show Exec.bind m f s = _
  rw [Exec.bind, h]

theorem bind_apply_err {m : Exec ε σ α} {f : α → Exec ε σ β} {s s₁ : σ} {e : ε}
    (h : m s = .err e s₁) : (m >>= f) s = .err e s₁ := by
  show Exec.bind m f s = _
  rw [Exec.bind, h]

theorem bind_apply_stop {m : Exec ε σ α} {f : α → Exec ε σ β} {s s₁ : σ} {w : Stop}
    (h : m s = .stop w s₁) : (m >>= f) s = .stop w s₁ := by
  show Exec.bind m f s = _
  rw [Exec.bind, h]

/-- What comes after a computation matters only where it returned. -/
theorem bind_congr_ok {m : Exec ε σ α} {f g : α → Exec ε σ β} {s : σ}
    (h : ∀ a s', m s = .ok a s' → f a s' = g a s') : (m >>= f) s = (m >>= g) s := by
  cases hm : m s with
  | ok a t => rw [bind_apply_ok hm, bind_apply_ok hm, h a t hm]
  | err e t => rw [bind_apply_err hm, bind_apply_err hm]
  | stop w t => rw [bind_apply_stop hm, bind_apply_stop hm]

theorem bind_congr_left {m m' : Exec ε σ α} {f : α → Exec ε σ β} {s : σ} (h : m s = m' s) :
    (m >>= f) s = (m' >>= f) s := by
  show Exec.bind m f s = Exec.bind m' f s
  rw [Exec.bind, Exec.bind, h]

theorem reject_ok {c : Prop} [Decidable c] {e : ε} {s s' : σ} {u : Unit} :
    (reject c e : Exec ε σ Unit) s = .ok u s' ↔ ¬ c ∧ s' = s := by
  unfold reject
  split
  · next h => simp [h]
  · next h => simp [h, eq_comm]

theorem assert_ok {c : Prop} [Decidable c] {s s' : σ} {u : Unit} :
    (assert c : Exec ε σ Unit) s = .ok u s' ↔ c ∧ s' = s := by
  unfold assert
  split
  · next h => simp [h, eq_comm]
  · next h => simp [h]

theorem unwrap_ok {o : Option α} {s s' : σ} {a : α} :
    (unwrap o : Exec ε σ α) s = .ok a s' ↔ o = some a ∧ s' = s := by
  cases o with
  | none => simp [unwrap]
  | some b => simp [unwrap, eq_comm]

theorem orElse_ok {o : Option α} {e : ε} {s s' : σ} {a : α} :
    (orElse o e : Exec ε σ α) s = .ok a s' ↔ o = some a ∧ s' = s := by
  cases o with
  | none => simp [orElse]
  | some b => simp [orElse, eq_comm]

theorem ofExcept_ok {f : ε' → ε} {r : Except ε' α} {s s' : σ} {a : α} :
    (ofExcept f r : Exec ε σ α) s = .ok a s' ↔ r = .ok a ∧ s' = s := by
  cases r with
  | error e => simp [ofExcept]
  | ok b => simp [ofExcept, eq_comm]

/-! A sequence that begins with a check returned if the check passed and the rest
returned. -/

section
variable {f : α → Exec ε σ β} {s s' : σ} {b : β}

theorem reject_bind_ok {c : Prop} [Decidable c] {e : ε} {g : Unit → Exec ε σ β} :
    (reject c e >>= g) s = .ok b s' ↔ ¬ c ∧ g () s = .ok b s' := by
  rw [bind_ok]
  refine ⟨fun ⟨_, _, h, h'⟩ => ?_, fun ⟨h, h'⟩ => ⟨(), s, reject_ok.mpr ⟨h, rfl⟩, h'⟩⟩
  obtain ⟨hc, rfl⟩ := reject_ok.mp h
  exact ⟨hc, h'⟩

theorem assert_bind_ok {c : Prop} [Decidable c] {g : Unit → Exec ε σ β} :
    (assert c >>= g) s = .ok b s' ↔ c ∧ g () s = .ok b s' := by
  rw [bind_ok]
  refine ⟨fun ⟨_, _, h, h'⟩ => ?_, fun ⟨h, h'⟩ => ⟨(), s, assert_ok.mpr ⟨h, rfl⟩, h'⟩⟩
  obtain ⟨hc, rfl⟩ := assert_ok.mp h
  exact ⟨hc, h'⟩

theorem unwrap_bind_ok {o : Option α} :
    (unwrap o >>= f) s = .ok b s' ↔ ∃ a, o = some a ∧ f a s = .ok b s' := by
  rw [bind_ok]
  refine ⟨fun ⟨a, _, h, h'⟩ => ?_, fun ⟨a, h, h'⟩ => ⟨a, s, unwrap_ok.mpr ⟨h, rfl⟩, h'⟩⟩
  obtain ⟨ho, rfl⟩ := unwrap_ok.mp h
  exact ⟨a, ho, h'⟩

theorem orElse_bind_ok {o : Option α} {e : ε} :
    (orElse o e >>= f) s = .ok b s' ↔ ∃ a, o = some a ∧ f a s = .ok b s' := by
  rw [bind_ok]
  refine ⟨fun ⟨a, _, h, h'⟩ => ?_, fun ⟨a, h, h'⟩ => ⟨a, s, orElse_ok.mpr ⟨h, rfl⟩, h'⟩⟩
  obtain ⟨ho, rfl⟩ := orElse_ok.mp h
  exact ⟨a, ho, h'⟩

theorem ofExcept_bind_ok {g : ε' → ε} {r : Except ε' α} :
    (ofExcept g r >>= f) s = .ok b s' ↔ ∃ a, r = .ok a ∧ f a s = .ok b s' := by
  rw [bind_ok]
  refine ⟨fun ⟨a, _, h, h'⟩ => ?_, fun ⟨a, h, h'⟩ => ⟨a, s, ofExcept_ok.mpr ⟨h, rfl⟩, h'⟩⟩
  obtain ⟨hr, rfl⟩ := ofExcept_ok.mp h
  exact ⟨a, hr, h'⟩

/-! A check that passes is passed over. -/

theorem bind_bind (m : Exec ε σ α) (f : α → Exec ε σ β) {γ : Type} (g : β → Exec ε σ γ) (s : σ) :
    ((m >>= f) >>= g) s = (m >>= fun a => f a >>= g) s := by
  cases h : m s with
  | ok a t =>
      rw [bind_apply_ok h]
      show Exec.bind (Exec.bind m f) g s = _
      simp only [Exec.bind, h]
      rfl
  | err e t =>
      rw [bind_apply_err h, bind_apply_err (bind_apply_err h)]
  | stop w t =>
      rw [bind_apply_stop h, bind_apply_stop (bind_apply_stop h)]

theorem bind_pure' (m : Exec ε σ α) : (m >>= pure) s = m s := by
  cases h : m s with
  | ok a t => rw [bind_apply_ok h, pure_apply]
  | err e t => rw [bind_apply_err h]
  | stop w t => rw [bind_apply_stop h]

theorem reject_bind_pos {c : Prop} [Decidable c] {e : ε} {g : Unit → Exec ε σ β} (h : c) :
    (reject c e >>= g) s = .err e s := by
  rw [reject, if_pos h]
  rfl

theorem orElse_bind_none {o : Option α} {e : ε} {g : α → Exec ε σ β} (h : o = none) :
    (orElse o e >>= g) s = .err e s := by
  rw [h]
  rfl

theorem reject_bind_neg {c : Prop} [Decidable c] {e : ε} {g : Unit → Exec ε σ β}
    (h : ¬ c) : (reject c e >>= g) s = g () s := by
  rw [reject, if_neg h]
  rfl

theorem assert_bind_pos {c : Prop} [Decidable c] {g : Unit → Exec ε σ β} (h : c) :
    (assert c >>= g) s = g () s := by
  rw [assert, if_pos h]
  rfl

theorem orElse_bind_some {o : Option α} {e : ε} {a : α} (h : o = some a) :
    (orElse o e >>= f) s = f a s := by
  rw [h]
  rfl

theorem unwrap_bind_some {o : Option α} {a : α} (h : o = some a) :
    (unwrap o >>= f) s = f a s := by
  rw [h]
  rfl

theorem ofExcept_bind_eq_ok {g : ε' → ε} {r : Except ε' α} {a : α} (h : r = .ok a) :
    (ofExcept g r >>= f) s = f a s := by
  rw [h]
  rfl

@[simp] theorem get_bind {g : σ → Exec ε σ β} : (get >>= g) s = g s s := rfl

@[simp] theorem set_bind {t : σ} {g : Unit → Exec ε σ β} : (set t >>= g) s = g () t := rfl

@[simp] theorem modify_bind {k : σ → σ} {g : Unit → Exec ε σ β} :
    (modify k >>= g) s = g () (k s) := rfl

@[simp] theorem pure_bind' {a : α} : ((pure a : Exec ε σ α) >>= f) s = f a s := rfl

end

theorem zoom_ok {read : σ → τ} {write : τ → σ → σ} {f : ε' → ε} {m : Exec ε' τ α}
    {s s' : σ} {a : α} :
    zoom read write f m s = .ok a s' ↔ ∃ t, m (read s) = .ok a t ∧ s' = write t s := by
  unfold zoom
  cases m (read s) with
  | ok b t =>
      refine ⟨fun h => by cases h; exact ⟨t, rfl, rfl⟩, ?_⟩
      rintro ⟨t', h, h'⟩
      cases h
      rw [h']
  | err e t => simp
  | stop w t => simp

theorem zoom_err {read : σ → τ} {write : τ → σ → σ} {f : ε' → ε} {m : Exec ε' τ α}
    {s s' : σ} {e : ε} : zoom read write f m s = .err e s' ↔
      ∃ e' t, m (read s) = .err e' t ∧ e = f e' ∧ s' = write t s := by
  unfold zoom
  cases m (read s) with
  | ok a t => simp
  | err e' t =>
      refine ⟨fun h => by cases h; exact ⟨e', t, rfl, rfl, rfl⟩, ?_⟩
      rintro ⟨e₁, t₁, h, rfl, rfl⟩
      cases h
      rfl
  | stop w t => simp

theorem map_err_ok {f : ε' → ε} {m : Exec ε' σ α} {s s' : σ} {a : α} :
    map_err f m s = .ok a s' ↔ m s = .ok a s' := by
  rw [map_err, zoom_ok]
  exact ⟨fun ⟨t, h, hs⟩ => hs ▸ h, fun h => ⟨s', h, rfl⟩⟩

/-- What a list is mapped to is, element by element, what its elements are mapped to. -/
theorem mapM'_ok {f : α → Exec ε σ β} {l : List α} {s s' : σ} {bs : List β}
    (h : List.mapM' f l s = .ok bs s') :
    List.Forall₂ (fun a b => ∃ t t', f a t = .ok b t') l bs := by
  induction l generalizing s bs with
  | nil =>
      cases h
      exact .nil
  | cons a l ih =>
      rw [List.mapM'_cons] at h
      obtain ⟨b, s₁, hb, h⟩ := bind_ok.mp h
      obtain ⟨bs', s₂, hbs, h⟩ := bind_ok.mp h
      cases h
      exact .cons ⟨s, s₁, hb⟩ (ih hbs)

theorem attempt_bind_ok {m : Exec ε σ α} {f : Except ε α → Exec ε' σ β} {s s' : σ} {b : β} :
    (attempt m >>= f) s = .ok b s' ↔ (∃ a s₁, m s = .ok a s₁ ∧ f (.ok a) s₁ = .ok b s') ∨
      ∃ e s₁, m s = .err e s₁ ∧ f (.error e) s = .ok b s' := by
  rw [bind_ok, attempt]
  cases m s <;> simp

/-! ## Invariants

A computation that keeps `I` may end in an error with `I` broken; what counts
is that whoever goes on with the state finds `I` in it. Where `quiet` holds, it
does not panic either. -/

/-- A run from `s` that returns leaves a state with `I`. -/
structure KeepsAt (quiet : Prop) (I : σ → Prop) (m : Exec ε σ α) (s : σ) : Prop where
  ok : ∀ ⦃a s'⦄, m s = .ok a s' → I s'
  stop : ∀ ⦃w s'⦄, m s = .stop w s' → quiet → w = .hang

def Keeps (quiet : Prop) (I : σ → Prop) (m : Exec ε σ α) : Prop :=
  ∀ ⦃s⦄, I s → KeepsAt quiet I m s

variable {quiet : Prop} {I J : σ → Prop}

theorem KeepsAt.bind {m : Exec ε σ α} {f : α → Exec ε σ β} {s : σ} (hm : KeepsAt quiet J m s)
    (hf : ∀ a s', m s = .ok a s' → KeepsAt quiet I (f a) s') : KeepsAt quiet I (m >>= f) s := by
  constructor
  · intro b s' h
    obtain ⟨a, s₁, h₁, h₂⟩ := bind_ok.mp h
    exact (hf a s₁ h₁).ok h₂
  · intro w s' h hq
    cases hrun : m s with
    | ok a s₁ =>
        rw [bind_apply_ok hrun] at h
        exact (hf a s₁ hrun).stop h hq
    | err e s₁ =>
        rw [bind_apply_err hrun] at h
        cases h
    | stop w' s₁ =>
        rw [bind_apply_stop hrun] at h
        cases h
        exact hm.stop hrun hq

/-- What only reads the state and does not panic keeps everything. -/
theorem Keeps.of_same {m : Exec ε σ α} (hok : ∀ ⦃s a s'⦄, m s = .ok a s' → s' = s)
    (hstop : quiet → ∀ s s', m s ≠ .stop .panic s') : Keeps quiet I m := by
  refine fun s hs => ⟨fun a s' h => by rw [hok h]; exact hs, fun w s' h hq => ?_⟩
  cases w with
  | hang => rfl
  | panic => exact absurd h (hstop hq s s')

theorem Keeps.bind {m : Exec ε σ α} {f : α → Exec ε σ β} (hm : Keeps quiet I m)
    (hf : ∀ a, Keeps quiet I (f a)) : Keeps quiet I (m >>= f) :=
  fun _ hs => (hm hs).bind fun a _ h => hf a ((hm hs).ok h)

/-- What comes after a computation may rely on what it returned. -/
theorem Keeps.bind_of {P : α → Prop} {m : Exec ε σ α} {f : α → Exec ε σ β}
    (hm : Keeps quiet I m) (hP : ∀ ⦃s a s'⦄, m s = .ok a s' → I s → P a)
    (hf : ∀ a, P a → Keeps quiet I (f a)) : Keeps quiet I (m >>= f) :=
  fun _ hs => (hm hs).bind fun a _ h => hf a (hP h hs) ((hm hs).ok h)

theorem Keeps.pure (a : α) : Keeps quiet I (Pure.pure a : Exec ε σ α) :=
  .of_same (fun _ _ _ h => by cases h; rfl) fun _ _ _ h => by cases h

theorem Keeps.throw (e : ε) : Keeps quiet I (throw e : Exec ε σ α) :=
  .of_same (fun _ _ _ h => by cases h) fun _ _ _ h => by cases h

theorem Keeps.hang : Keeps quiet I (Exec.stop .hang : Exec ε σ α) :=
  .of_same (fun _ _ _ h => by cases h) fun _ _ _ h => by cases h

theorem Keeps.get : Keeps quiet I (get : Exec ε σ σ) :=
  .of_same (fun _ _ _ h => by cases h; rfl) fun _ _ _ h => by cases h

theorem Keeps.reject (c : Prop) [Decidable c] (e : ε) :
    Keeps quiet I (reject c e : Exec ε σ Unit) := by
  refine .of_same (fun _ _ _ h => (reject_ok.mp h).2) fun _ s s' h => ?_
  unfold Exec.reject at h
  split at h <;> cases h

theorem Keeps.assert {c : Prop} [Decidable c] (hc : quiet → c) :
    Keeps quiet I (assert c : Exec ε σ Unit) := by
  refine .of_same (fun _ _ _ h => (assert_ok.mp h).2) fun hq s s' h => ?_
  rw [Exec.assert, if_pos (hc hq)] at h
  cases h

theorem Keeps.unwrap {o : Option α} (ho : quiet → o.isSome) :
    Keeps quiet I (unwrap o : Exec ε σ α) := by
  refine .of_same (fun _ _ _ h => (unwrap_ok.mp h).2) fun hq s s' h => ?_
  obtain ⟨a, rfl⟩ := Option.isSome_iff_exists.mp (ho hq)
  cases h

theorem Keeps.orElse (o : Option α) (e : ε) : Keeps quiet I (orElse o e : Exec ε σ α) := by
  refine .of_same (fun _ _ _ h => (orElse_ok.mp h).2) fun _ s s' h => ?_
  cases o <;> cases h

theorem Keeps.ofExcept (f : ε' → ε) (r : Except ε' α) :
    Keeps quiet I (ofExcept f r : Exec ε σ α) := by
  refine .of_same (fun _ _ _ h => (ofExcept_ok.mp h).2) fun _ s s' h => ?_
  cases r <;> cases h

theorem Keeps.modify {f : σ → σ} (hf : ∀ s, I s → I (f s)) :
    Keeps quiet I (modify f : Exec ε σ Unit) :=
  fun s hs => ⟨fun _ _ h => by cases h; exact hf s hs, fun _ _ h => by cases h⟩

theorem Keeps.zoom {J : τ → Prop} {read : σ → τ} {write : τ → σ → σ} {f : ε' → ε}
    {m : Exec ε' τ α} (hm : Keeps quiet J m) (hread : ∀ s, I s → J (read s))
    (hwrite : ∀ s t, I s → J t → I (write t s)) : Keeps quiet I (zoom read write f m) := by
  refine fun s hs => ⟨fun a s' h => ?_, fun w s' h hq => ?_⟩
  · obtain ⟨t, ht, rfl⟩ := zoom_ok.mp h
    exact hwrite s t hs ((hm (hread s hs)).ok ht)
  · unfold Exec.zoom at h
    split at h
    · cases h
    · cases h
    · next hrun => cases h; exact (hm (hread s hs)).stop hrun hq

theorem Keeps.attempt {m : Exec ε σ α} (hm : Keeps quiet I m) :
    Keeps quiet I (attempt m : Exec ε' σ (Except ε α)) := by
  refine fun s hs => ⟨fun a s' h => ?_, fun w s' h hq => ?_⟩
  · unfold Exec.attempt at h
    split at h
    · next hrun => cases h; exact (hm hs).ok hrun
    · cases h; exact hs
    · cases h
  · unfold Exec.attempt at h
    split at h
    · cases h
    · cases h
    · next hrun => cases h; exact (hm hs).stop hrun hq

/-! ## Invariants of failure

A call fails when it returns an error, and when it waits for ever: in both
cases whoever called it is left with what it did so far. `Preserves I` says
that this, or what the call returned with, has `I`. -/

def Fails (m : Exec ε σ α) (s s' : σ) : Prop := (∃ e, m s = .err e s') ∨ m s = .stop .hang s'

theorem Fails.of_err {m : Exec ε σ α} {s s' : σ} {e : ε} (h : m s = .err e s') : Fails m s s' :=
  .inl ⟨e, h⟩

theorem not_fails_ok {m : Exec ε σ α} {s s₁ s' : σ} {a : α} (h : m s = .ok a s₁) :
    ¬ Fails m s s' := by
  rintro (⟨e, he⟩ | he)
  · cases h.symm.trans he
  · cases h.symm.trans he

theorem bind_fails {m : Exec ε σ α} {f : α → Exec ε σ β} {s s' : σ} :
    Fails (m >>= f) s s' ↔ Fails m s s' ∨ ∃ a s₁, m s = .ok a s₁ ∧ Fails (f a) s₁ s' := by
  unfold Fails
  cases hrun : m s with
  | ok a s₁ =>
      rw [bind_apply_ok hrun]
      refine ⟨fun h => .inr ⟨a, s₁, rfl, h⟩, ?_⟩
      rintro ((⟨e, he⟩ | he) | ⟨b, s₂, h, h'⟩)
      · cases he
      · cases he
      · cases h
        exact h'
  | err e s₁ =>
      rw [bind_apply_err hrun]
      simp
  | stop w s₁ =>
      rw [bind_apply_stop hrun]
      simp

theorem zoom_fails {read : σ → τ} {write : τ → σ → σ} {f : ε' → ε} {m : Exec ε' τ α}
    {s s' : σ} : Fails (zoom read write f m) s s' ↔
      ∃ t, Fails m (read s) t ∧ s' = write t s := by
  unfold Fails zoom
  cases m (read s) with
  | ok a t => simp
  | err e t => simp [eq_comm]
  | stop w t => cases w <;> simp [eq_comm]

/-- What only reads the state fails where it is. -/
theorem Fails.same {m : Exec ε σ α} {s s' : σ} (h : Fails m s s')
    (hm : ∀ s, m s = .stop .hang s ∨ (∃ a, m s = .ok a s) ∨ (∃ e, m s = .err e s) ∨
      m s = .stop .panic s) : s' = s := by
  rcases hm s with hs | ⟨a, hs⟩ | ⟨e, hs⟩ | hs <;> rcases h with ⟨e', h⟩ | h <;>
    cases hs.symm.trans h
  · rfl
  · rfl

theorem reject_fails {c : Prop} [Decidable c] {e : ε} {s s' : σ} :
    Fails (reject c e : Exec ε σ Unit) s s' ↔ c ∧ s' = s := by
  unfold Fails reject
  split
  · next h => simp [h, eq_comm]
  · next h => simp [h]

structure PreservesAt (I : σ → Prop) (m : Exec ε σ α) (s : σ) : Prop where
  ok : ∀ ⦃a s'⦄, m s = .ok a s' → I s'
  fails : ∀ ⦃s'⦄, Fails m s s' → I s'

def Preserves (I : σ → Prop) (m : Exec ε σ α) : Prop := ∀ ⦃s⦄, I s → PreservesAt I m s

theorem Preserves.of_same {m : Exec ε σ α} (hok : ∀ ⦃s a s'⦄, m s = .ok a s' → s' = s)
    (hfails : ∀ ⦃s s'⦄, Fails m s s' → s' = s) : Preserves I m :=
  fun _ hs => ⟨fun _ _ h => by rw [hok h]; exact hs, fun _ h => by rw [hfails h]; exact hs⟩

theorem Preserves.bind {m : Exec ε σ α} {f : α → Exec ε σ β} (hm : Preserves I m)
    (hf : ∀ a, Preserves I (f a)) : Preserves I (m >>= f) := by
  refine fun s hs => ⟨fun b s' h => ?_, fun s' h => ?_⟩
  · obtain ⟨a, s₁, h₁, h₂⟩ := bind_ok.mp h
    exact (hf a ((hm hs).1 h₁)).1 h₂
  · rcases bind_fails.mp h with h | ⟨a, s₁, h₁, h₂⟩
    · exact (hm hs).2 h
    · exact (hf a ((hm hs).1 h₁)).2 h₂

/-- What comes after a look at the state may rely on it. -/
theorem Preserves.get_bind {g : σ → Exec ε σ β} (h : ∀ s, I s → PreservesAt I (g s) s) :
    Preserves I (Exec.get >>= g) :=
  fun s hs => ⟨(h s hs).ok, (h s hs).fails⟩

/-- `m` does not fail. -/
def Infallible (m : Exec ε σ α) : Prop := ∀ s s', ¬ Fails m s s'

theorem Infallible.bind {m : Exec ε σ α} {f : α → Exec ε σ β} (hm : Infallible m)
    (hf : ∀ a, Infallible (f a)) : Infallible (m >>= f) := by
  intro s s' h
  rcases bind_fails.mp h with h | ⟨a, s₁, -, h₂⟩
  · exact hm s s' h
  · exact hf a s₁ s' h₂

theorem Infallible.pure (a : α) : Infallible (Pure.pure a : Exec ε σ α) :=
  fun s _ => not_fails_ok (pure_apply a s)

theorem Infallible.get : Infallible (get : Exec ε σ σ) := fun s _ => not_fails_ok (get_apply s)

theorem Infallible.modify (f : σ → σ) : Infallible (modify f : Exec ε σ Unit) :=
  fun s _ => not_fails_ok (modify_apply f s)

theorem Infallible.set (s : σ) : Infallible (set s : Exec ε σ Unit) :=
  fun t _ => not_fails_ok (set_apply t s)

theorem Infallible.unwrap (o : Option α) : Infallible (unwrap o : Exec ε σ α) := by
  rintro s s' (⟨e, h⟩ | h) <;> cases o <;> cases h

theorem Infallible.assert (c : Prop) [Decidable c] :
    Infallible (assert c : Exec ε σ Unit) := by
  rintro s s' (⟨e, h⟩ | h) <;> unfold Exec.assert at h <;> split at h <;> cases h

theorem Infallible.preserves {m : Exec ε σ α} (h : Infallible m)
    (hok : ∀ ⦃s a s'⦄, m s = .ok a s' → s' = s) : Preserves I m :=
  .of_same hok fun s s' hf => absurd hf (h s s')

theorem Preserves.pure (a : α) : Preserves I (Pure.pure a : Exec ε σ α) :=
  (Infallible.pure a).preserves fun _ _ _ h => by cases h; rfl

theorem Preserves.get : Preserves I (get : Exec ε σ σ) :=
  Infallible.get.preserves fun _ _ _ h => by cases h; rfl

theorem Preserves.assert (c : Prop) [Decidable c] :
    Preserves I (assert c : Exec ε σ Unit) :=
  (Infallible.assert c).preserves fun _ _ _ h => (assert_ok.mp h).2

theorem Preserves.unwrap (o : Option α) : Preserves I (unwrap o : Exec ε σ α) :=
  (Infallible.unwrap o).preserves fun _ _ _ h => (unwrap_ok.mp h).2

theorem Preserves.throw (e : ε) : Preserves I (throw e : Exec ε σ α) :=
  .of_same (fun _ _ _ h => by cases h)
    fun _ _ h => h.same fun s => .inr (.inr (.inl ⟨e, rfl⟩))

theorem Preserves.hang : Preserves I (Exec.stop .hang : Exec ε σ α) :=
  .of_same (fun _ _ _ h => by cases h) fun _ _ h => h.same fun s => .inl rfl

theorem Preserves.reject (c : Prop) [Decidable c] (e : ε) :
    Preserves I (reject c e : Exec ε σ Unit) :=
  .of_same (fun _ _ _ h => (reject_ok.mp h).2) fun _ _ h => (reject_fails.mp h).2

theorem Preserves.orElse (o : Option α) (e : ε) : Preserves I (orElse o e : Exec ε σ α) :=
  .of_same (fun _ _ _ h => (orElse_ok.mp h).2) fun _ _ h => h.same fun s => by
    cases o with
    | none => exact .inr (.inr (.inl ⟨e, rfl⟩))
    | some a => exact .inr (.inl ⟨a, rfl⟩)

theorem Preserves.ofExcept (f : ε' → ε) (r : Except ε' α) :
    Preserves I (ofExcept f r : Exec ε σ α) :=
  .of_same (fun _ _ _ h => (ofExcept_ok.mp h).2) fun _ _ h => h.same fun s => by
    cases r with
    | error e => exact .inr (.inr (.inl ⟨f e, rfl⟩))
    | ok a => exact .inr (.inl ⟨a, rfl⟩)

theorem Preserves.modify {f : σ → σ} (hf : ∀ s, I s → I (f s)) :
    Preserves I (modify f : Exec ε σ Unit) :=
  fun s hs => ⟨fun _ _ h => by cases h; exact hf s hs,
    fun _ h => absurd h (Infallible.modify f s _)⟩

/-- Where `m` fails, what it leaves has `I`. -/
def FailsIn (I : σ → Prop) (m : Exec ε σ α) : Prop :=
  ∀ ⦃s⦄, I s → ∀ ⦃s'⦄, Fails m s s' → I s'

theorem Preserves.failsIn {m : Exec ε σ α} (h : Preserves I m) : FailsIn I m :=
  fun _ hs => (h hs).2

theorem Infallible.failsIn {m : Exec ε σ α} (h : Infallible m) : FailsIn I m :=
  fun s _ s' hf => absurd hf (h s s')

theorem FailsIn.bind {m : Exec ε σ α} {f : α → Exec ε σ β} (hm : Preserves I m)
    (hf : ∀ a, FailsIn I (f a)) : FailsIn I (m >>= f) := by
  intro s hs s' h
  rcases bind_fails.mp h with h | ⟨a, s₁, h₁, h₂⟩
  · exact (hm hs).2 h
  · exact hf a ((hm hs).1 h₁) h₂

/-- The last step that can fail may change what it likes when it does not. -/
theorem FailsIn.bind_last {m : Exec ε σ α} {f : α → Exec ε σ β} (hm : FailsIn I m)
    (hf : ∀ a, Infallible (f a)) : FailsIn I (m >>= f) := by
  intro s hs s' h
  rcases bind_fails.mp h with h | ⟨a, s₁, -, h₂⟩
  · exact hm hs h
  · exact absurd h₂ (hf a s₁ s')

/-! ## Panics

What it takes to make a sequence panic, one step after the other. -/

def Panics (m : Exec ε σ α) (s : σ) : Prop := ∃ s', m s = .stop .panic s'

theorem KeepsAt.not_panics {m : Exec ε σ α} {s : σ} (h : KeepsAt True I m s) : ¬ Panics m s := by
  rintro ⟨s', hrun⟩
  cases h.stop hrun trivial

section
variable {m : Exec ε σ α} {f : α → Exec ε σ β} {s : σ}

theorem panics_bind :
    Panics (m >>= f) s ↔ Panics m s ∨ ∃ a s', m s = .ok a s' ∧ Panics (f a) s' := by
  unfold Panics
  cases hrun : m s with
  | ok a s₁ =>
      rw [bind_apply_ok hrun]
      refine ⟨fun h => .inr ⟨a, s₁, rfl, h⟩, ?_⟩
      rintro (⟨_, h⟩ | ⟨b, s₂, h, h'⟩)
      · cases h
      · cases h
        exact h'
  | err e s₁ =>
      rw [bind_apply_err hrun]
      simp
  | stop w s₁ =>
      rw [bind_apply_stop hrun]
      simp

/-- A step that does not panic leaves the panic to what comes after it. -/
theorem panics_bind_of_not (h : ¬ Panics m s) :
    Panics (m >>= f) s ↔ ∃ a s', m s = .ok a s' ∧ Panics (f a) s' :=
  panics_bind.trans (or_iff_right h)

theorem panics_bind_left (h : ∀ a s', m s = .ok a s' → ¬ Panics (f a) s') :
    Panics (m >>= f) s ↔ Panics m s :=
  panics_bind.trans (or_iff_left fun ⟨a, s', hrun, hf⟩ => h a s' hrun hf)

theorem panics_zoom {read : σ → τ} {write : τ → σ → σ} {e : ε' → ε} {m : Exec ε' τ α} {s : σ} :
    Panics (zoom read write e m) s ↔ Panics m (read s) := by
  unfold Panics zoom
  cases m (read s) <;> simp

theorem panics_reject_bind {c : Prop} [Decidable c] {e : ε} {g : Unit → Exec ε σ β} :
    Panics (reject c e >>= g) s ↔ ¬ c ∧ Panics (g ()) s := by
  rw [panics_bind_of_not ((Keeps.reject c e : Keeps True (fun _ => True) _) trivial).not_panics]
  constructor
  · rintro ⟨_, s', hrun, h⟩
    obtain ⟨hc, rfl⟩ := reject_ok.mp hrun
    exact ⟨hc, h⟩
  · exact fun ⟨hc, h⟩ => ⟨(), s, reject_ok.mpr ⟨hc, rfl⟩, h⟩

theorem panics_orElse_bind {o : Option α} {e : ε} :
    Panics (orElse o e >>= f) s ↔ ∃ a, o = some a ∧ Panics (f a) s := by
  cases o with
  | none => simp [Panics, orElse, bind_apply_err (throw_apply e s)]
  | some a =>
      rw [Panics, orElse_bind_some rfl]
      simp [Panics]

theorem panics_ofExcept_bind {g : ε' → ε} {r : Except ε' α} :
    Panics (ofExcept g r >>= f) s ↔ ∃ a, r = .ok a ∧ Panics (f a) s := by
  cases r with
  | error e => simp [Panics, ofExcept, bind_apply_err (throw_apply (g e) s)]
  | ok a =>
      rw [Panics, ofExcept_bind_eq_ok rfl]
      simp [Panics]

theorem panics_attempt_bind {f : Except ε α → Exec ε' σ β} :
    Panics (attempt m >>= f) s ↔ Panics m s ∨
      (∃ a s₁, m s = .ok a s₁ ∧ Panics (f (.ok a)) s₁) ∨
        ∃ e s₁, m s = .err e s₁ ∧ Panics (f (.error e)) s := by
  rw [panics_bind]
  unfold Panics attempt
  cases m s <;> simp

theorem panics_assert_bind {c : Prop} [Decidable c] {g : Unit → Exec ε σ β}
    (hg : ¬ Panics (g ()) s) : Panics (assert c >>= g) s ↔ ¬ c := by
  unfold assert
  split
  · next h => exact ⟨fun hp => absurd hp hg, fun hn => absurd h hn⟩
  · next h => exact ⟨fun _ => h, fun _ => ⟨s, bind_apply_stop (panic_apply s)⟩⟩

end

/-! ## Computations that leave the state alone -/

/-- However it ends, the state is what it was. -/
def Still (m : Exec ε σ α) : Prop := ∀ s, (m s).state = s

theorem Still.ok {m : Exec ε σ α} (h : Still m) {a : α} {s s' : σ} (hm : m s = .ok a s') :
    s' = s := by
  have := h s
  rwa [hm] at this

theorem Still.pure (a : α) : Still (Pure.pure a : Exec ε σ α) := fun _ => rfl

theorem Still.throw (e : ε) : Still (throw e : Exec ε σ α) := fun _ => rfl

theorem Still.stop (w : Stop) : Still (stop w : Exec ε σ α) := fun _ => rfl

/-- What comes after does not change what is left behind. -/
theorem state_bind {m : Exec ε σ α} {f : α → Exec ε σ β} (hf : ∀ a, Still (f a)) (s : σ) :
    ((m >>= f) s).state = (m s).state := by
  cases hrun : m s with
  | ok a s₁ =>
      rw [bind_apply_ok hrun]
      exact hf a s₁
  | err e s₁ =>
      rw [bind_apply_err hrun]
      rfl
  | stop w s₁ =>
      rw [bind_apply_stop hrun]
      rfl

theorem Still.bind {m : Exec ε σ α} {f : α → Exec ε σ β} (hm : Still m)
    (hf : ∀ a, Still (f a)) : Still (m >>= f) := by
  intro s
  rw [state_bind hf]
  exact hm s

theorem Still.reject (c : Prop) [Decidable c] (e : ε) : Still (reject c e : Exec ε σ Unit) := by
  unfold Exec.reject
  split
  · exact .throw e
  · exact .pure ()

theorem Still.orElse (o : Option α) (e : ε) : Still (orElse o e : Exec ε σ α) := by
  cases o with
  | none => exact .throw e
  | some a => exact .pure a

theorem Still.ofExcept (f : ε' → ε) (r : Except ε' α) : Still (ofExcept f r : Exec ε σ α) := by
  cases r with
  | error e => exact .throw (f e)
  | ok a => exact .pure a

/-! ## Runs -/

/-- The states `step` leads to from `s`, as long as it returns and every state
it is run on meets `P`. -/
inductive Reaches (step : Exec ε σ Unit) (P : σ → Prop) (s : σ) : σ → Prop
  | start : Reaches step P s s
  | turn {t t' : σ} (h : Reaches step P s t) (ht : P t) (hstep : step t = .ok () t') :
      Reaches step P s t'

/-- What holds at the start and is kept by every step holds in every state. -/
theorem Reaches.invariant {step : Exec ε σ Unit} {P : σ → Prop} {s t : σ}
    (h : Reaches step P s t) (hs : I s)
    (hstep : ∀ t t', P t → I t → step t = .ok () t' → I t') : I t := by
  induction h with
  | start => exact hs
  | turn _ ht hturn ih => exact hstep _ _ ht ih hturn

/-- `n` steps, where they all return. -/
def turns (step : Exec ε σ Unit) : Nat → σ → Option σ
  | 0, s => some s
  | n + 1, s =>
      match turns step n s with
      | some t =>
          match step t with
          | .ok _ t' => some t'
          | _ => none
      | none => none

theorem Reaches.of_turns {step : Exec ε σ Unit} {s : σ} :
    ∀ {n : Nat} {t : σ}, turns step n s = some t → Reaches step (fun _ => True) s t := by
  intro n
  induction n with
  | zero =>
      intro t h
      cases h
      exact .start
  | succ n ih =>
      intro t h
      rw [turns] at h
      split at h
      · next u hu =>
          split at h
          · next v hv =>
              cases h
              exact .turn (ih hu) trivial hv
          · cases h
      · cases h

end Exec

end Vanadium.Lib
