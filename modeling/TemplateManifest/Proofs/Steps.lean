import TemplateManifest.Compile.Scope

/-!
Taking a run of steps apart: a chain of steps that ends well is one in which each step does.
-/

namespace TemplateManifest

section

variable {ε σ α β : Type} {s t : σ}

/-- A chain of two steps ends well exactly when the second one does where the first one has ended
    well. -/
theorem bind_eq_ok_iff {step : EStateM ε σ α} {next : α → EStateM ε σ β} {b : β} :
    (step >>= next) s = .ok b t ↔ ∃ a u, step s = .ok a u ∧ next a u = .ok b t := by
  change EStateM.bind step next s = .ok b t ↔ _
  unfold EStateM.bind
  cases hstep : step s with
  | ok a u =>
    constructor
    · exact fun h => ⟨a, u, rfl, h⟩
    · rintro ⟨_, _, hok, h⟩
      obtain ⟨rfl, rfl⟩ := EStateM.Result.ok.inj hok
      exact h
  | error e u => simp

/-- A chain of two steps fails as the first one does, or as the second one does where the first one
    has ended well. -/
theorem bind_eq_error_iff {step : EStateM ε σ α} {next : α → EStateM ε σ β} {e : ε} :
    (step >>= next) s = .error e t ↔
      step s = .error e t ∨ ∃ a u, step s = .ok a u ∧ next a u = .error e t := by
  change EStateM.bind step next s = .error e t ↔ _
  unfold EStateM.bind
  cases hstep : step s with
  | ok a u =>
    constructor
    · exact fun h => .inr ⟨a, u, rfl, h⟩
    · rintro (h | ⟨_, _, hok, h⟩)
      · cases h
      · obtain ⟨rfl, rfl⟩ := EStateM.Result.ok.inj hok
        exact h
  | error e' u => simp

theorem bind_of_ok {step : EStateM ε σ α} {next : α → EStateM ε σ β} {a : α}
    (h : step s = .ok a t) : (step >>= next) s = next a t := by
  change EStateM.bind step next s = _
  rw [EStateM.bind, h]

theorem bind_of_error {step : EStateM ε σ α} {next : α → EStateM ε σ β} {e : ε}
    (h : step s = .error e t) : (step >>= next) s = .error e t := by
  change EStateM.bind step next s = _
  rw [EStateM.bind, h]

theorem pure_ne_error {a : α} {e : ε} : (pure a : EStateM ε σ α) s ≠ .error e t := by
  intro h
  cases h

theorem pure_eq_ok_iff {a b : α} : (pure a : EStateM ε σ α) s = .ok b t ↔ a = b ∧ s = t := by
  change EStateM.Result.ok a s = .ok b t ↔ _
  simp

theorem throw_ne_ok {e : ε} {a : α} : (throw e : EStateM ε σ α) s ≠ .ok a t := by
  intro h
  cases h

theorem modify_eq_ok_iff {f : σ → σ} {u : PUnit} :
    (modify f : EStateM ε σ PUnit) s = .ok u t ↔ f s = t := by
  change EStateM.Result.ok PUnit.unit (f s) = .ok u t ↔ _
  simp

theorem get_eq_ok_iff {a : σ} : (get : EStateM ε σ σ) s = .ok a t ↔ s = a ∧ s = t := by
  change EStateM.Result.ok s s = .ok a t ↔ _
  simp

end

/-- A test on the value that a computation gives also tells that it gives one. -/
theorem exists_eq_ok_of_any {ε α : Type} {x : Except ε α} {test : α → Bool}
    (h : x.toOption.any test = true) : ∃ a, x = .ok a ∧ test a = true := by
  cases x with
  | error e => cases h
  | ok a => exact ⟨a, rfl, h⟩

theorem exists_eq_ok_of_run'_any {ε σ α : Type} {step : EStateM ε σ α} {s : σ} {test : α → Bool}
    (h : (step.run' s).any test = true) : ∃ a t, step s = .ok a t ∧ test a = true := by
  delta EStateM.run' EStateM.run at h
  cases hstep : step s with
  | error e t =>
    rw [hstep] at h
    cases h
  | ok a t =>
    rw [hstep] at h
    exact ⟨a, t, rfl, h⟩

end TemplateManifest
