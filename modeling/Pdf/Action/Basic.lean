import Pdf.Action.Error
import Pdf.Action.Event

/-! # Actions — steps on a state that may fail and that report events

    An action takes a state and gives an `Outcome`: a result or an error, the
    state afterwards, and the events on the way.  A failure keeps the state
    reached and the events told so far, because what was written or stored
    before it stays. -/

namespace Pdf

/-- What an action leaves behind. -/
structure Outcome (σ α : Type) where
  result : Except Error α
  state : σ
  events : List Event

/-- A step on a state of type `σ` that gives a value of type `α` or fails. -/
def Action (σ α : Type) : Type := σ → Outcome σ α

namespace Action

variable {σ τ α β : Type}

/-- The outcome of an action on a state. -/
def run (a : Action σ α) (s : σ) : Outcome σ α := a s

/-- The action that gives a value and does nothing. -/
def give (value : α) : Action σ α := fun s => ⟨.ok value, s, []⟩

/-- The action that fails. -/
def fail (e : Error) : Action σ α := fun s => ⟨.error e, s, []⟩

/-- One action after another, unless the first one fails. -/
def andThen (a : Action σ α) (f : α → Action σ β) : Action σ β := fun s =>
  match a s with
  | ⟨.error e, s, events⟩ => ⟨.error e, s, events⟩
  | ⟨.ok value, s, events⟩ =>
      let rest := f value s
      ⟨rest.result, rest.state, events ++ rest.events⟩

instance : Monad (Action σ) where
  pure := give
  bind := andThen

/-- The state. -/
def read : Action σ σ := fun s => ⟨.ok s, s, []⟩

/-- The action that changes the state. -/
def change (f : σ → σ) : Action σ Unit := fun s => ⟨.ok (), f s, []⟩

/-- The action that tells some events. -/
def tell (events : List Event) : Action σ Unit := fun s => ⟨.ok (), s, events⟩

/-- The action that gives a result that is already known. -/
def ofExcept : Except Error α → Action σ α
  | .ok value => give value
  | .error e => fail e

/-- An action on a part of the state. -/
def within (get : σ → τ) (set : σ → τ → σ) (a : Action τ α) :
    Action σ α := fun s =>
  let o := a (get s)
  ⟨o.result, set s o.state, o.events⟩

/-- An action on a state of its own, which is given together with the value. -/
def onOwn (t : τ) (a : Action τ α) : Action σ (α × τ) := fun s =>
  let o := a t
  ⟨o.result.map (·, o.state), s, o.events⟩

/-! ## Running -/

@[simp] theorem run_pure (value : α) (s : σ) :
    (pure value : Action σ α).run s = ⟨.ok value, s, []⟩ := rfl

@[simp] theorem run_fail (e : Error) (s : σ) :
    (fail e : Action σ α).run s = ⟨.error e, s, []⟩ := rfl

@[simp] theorem run_read (s : σ) :
    (read : Action σ σ).run s = ⟨.ok s, s, []⟩ := rfl

@[simp] theorem run_change (f : σ → σ) (s : σ) :
    (change f).run s = ⟨.ok (), f s, []⟩ := rfl

@[simp] theorem run_tell (events : List Event) (s : σ) :
    (tell events).run s = ⟨.ok (), s, events⟩ := rfl

/-- After a success the second action runs on the state of the first. -/
theorem run_bind_ok {a : Action σ α} {s t : σ} {value : α} {events : List Event}
    (f : α → Action σ β) (h : a.run s = ⟨.ok value, t, events⟩) :
    (a >>= f).run s =
      ⟨((f value).run t).result, ((f value).run t).state,
        events ++ ((f value).run t).events⟩ := by
  show andThen a f s = _
  rw [andThen, show a s = _ from h]
  rfl

/-- After a failure the second action does not run. -/
theorem run_bind_error {a : Action σ α} {s t : σ} {e : Error}
    {events : List Event} (f : α → Action σ β)
    (h : a.run s = ⟨.error e, t, events⟩) :
    (a >>= f).run s = ⟨.error e, t, events⟩ := by
  show andThen a f s = _
  rw [andThen, show a s = _ from h]

end Action

end Pdf
