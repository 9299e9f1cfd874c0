/-!
# Computations that can fail

What a computation in two steps comes to, in terms of its steps.
-/

namespace Presence

variable {ε α β : Type} {x : Except ε α} {f : α → Except ε β}

/-- A computation in two steps has a result exactly if both steps have one. -/
theorem bind_eq_ok_iff {b : β} : x >>= f = .ok b ↔ ∃ a, x = .ok a ∧ f a = .ok b := by
  cases x with
  | error cause =>
      refine ⟨fun h => ?_, fun ⟨_, h, _⟩ => ?_⟩
      · cases h
      · cases h
  | ok a =>
      refine ⟨fun h => ⟨a, rfl, h⟩, fun ⟨_, ha, h⟩ => ?_⟩
      cases ha
      exact h

/-- It fails if one of them does. -/
theorem bind_eq_error_iff {cause : ε} :
    x >>= f = .error cause ↔ x = .error cause ∨ ∃ a, x = .ok a ∧ f a = .error cause := by
  cases x with
  | error cause' =>
      refine ⟨fun h => ?_, fun h => ?_⟩
      · cases h
        exact Or.inl rfl
      · rcases h with h | ⟨_, h, _⟩
        · cases h
          rfl
        · cases h
  | ok a =>
      refine ⟨fun h => Or.inr ⟨a, rfl, h⟩, fun h => ?_⟩
      rcases h with h | ⟨_, ha, h⟩
      · cases h
      · cases ha
        exact h

theorem map_eq_ok_iff {g : α → β} {b : β} : x.map g = .ok b ↔ ∃ a, x = .ok a ∧ g a = b := by
  cases x with
  | error cause =>
      refine ⟨fun h => ?_, fun ⟨_, h, _⟩ => ?_⟩
      · cases h
      · cases h
  | ok a =>
      refine ⟨fun h => ⟨a, rfl, Except.ok.inj h⟩, fun ⟨_, ha, h⟩ => ?_⟩
      cases ha
      exact congrArg Except.ok h

theorem map_eq_error_iff {g : α → β} {cause : ε} : x.map g = .error cause ↔ x = .error cause := by
  cases x with
  | error cause' => simp only [Except.map, Except.error.injEq]
  | ok a => exact iff_of_false nofun nofun

/-- What a result has can be seen from the result as an option. -/
theorem exists_of_map_toOption {g : α → β} {b : β} (h : x.toOption.map g = some b) :
    ∃ a, x = .ok a ∧ g a = b := by
  cases x with
  | error cause => cases h
  | ok a => exact ⟨a, rfl, Option.some.inj h⟩

end Presence
