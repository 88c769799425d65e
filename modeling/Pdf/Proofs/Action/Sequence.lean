import Pdf.Action.Basic

/-! # Sequences — one action after another

    The second action runs on the state that the first one reached, and it does
    not run at all if the first one failed.  Here this is said of actions that
    are known by their results alone. -/

namespace Pdf.Action

variable {σ α β : Type}

/-- After a success the second action runs on the state of the first. -/
theorem run_bind_of_ok {a : Action σ α} {s : σ} {value : α}
    (f : α → Action σ β) (h : (a.run s).result = .ok value) :
    (a >>= f).run s = ⟨((f value).run (a.run s).state).result,
      ((f value).run (a.run s).state).state,
      (a.run s).events ++ ((f value).run (a.run s).state).events⟩ :=
  run_bind_ok f (by rw [← h])

/-- After a failure the second action does not run, and what was told stays
    told. -/
theorem run_bind_of_error {a : Action σ α} {s : σ} {e : Error}
    (f : α → Action σ β) (h : (a.run s).result = .error e) :
    (a >>= f).run s = ⟨.error e, (a.run s).state, (a.run s).events⟩ :=
  run_bind_error f (by rw [← h])

/-- One action after another gives what the second one gives, or fails as the
    first one does. -/
theorem run_bind_cases (a : Action σ α) (f : α → Action σ β) (s : σ) :
    (∃ e, (a.run s).result = .error e
        ∧ ((a >>= f).run s).result = .error e
        ∧ ((a >>= f).run s).state = (a.run s).state)
      ∨ ∃ value, (a.run s).result = .ok value
        ∧ ((a >>= f).run s).result = ((f value).run (a.run s).state).result
        ∧ ((a >>= f).run s).state = ((f value).run (a.run s).state).state := by
  cases hresult : (a.run s).result with
  | error e =>
      rw [run_bind_of_error f hresult]
      exact Or.inl ⟨e, rfl, rfl, rfl⟩
  | ok value =>
      rw [run_bind_of_ok f hresult]
      exact Or.inr ⟨value, rfl, rfl, rfl⟩

/-- If both actions together give something, so does the first one. -/
theorem exists_of_bind_eq_ok {a : Action σ α} {f : α → Action σ β} {s : σ}
    {value : β} (h : ((a >>= f).run s).result = .ok value) :
    ∃ x, (a.run s).result = .ok x
      ∧ ((f x).run (a.run s).state).result = .ok value
      ∧ ((a >>= f).run s).state = ((f x).run (a.run s).state).state := by
  rcases run_bind_cases a f s with ⟨e, -, he, -⟩ | ⟨x, hx, hresult, hstate⟩
  · rw [he] at h
    cases h
  · exact ⟨x, hx, hresult.symm.trans h, hstate⟩

/-- A known result changes no state and tells nothing. -/
theorem run_ofExcept (result : Except Error α) (s : σ) :
    (ofExcept result).run s = ⟨result, s, []⟩ := by
  cases result with
  | ok value => rfl
  | error e => rfl

end Pdf.Action
