import AtsEndpoint.Event

/-!
# Steps

A step is what an operation on a state gives back: its result, the state after
it, and the events of this operation alone. Steps follow one another by
`andThen`, which puts their events in a row.
-/

namespace AtsEndpoint

/-- What an operation on a state gives back. -/
structure Step (σ : Type u) (ρ : Type v) where
  /-- The result of the operation. -/
  result : ρ
  /-- The state after the operation. -/
  state : σ
  /-- The events of the operation. -/
  trace : Trace := #[]

namespace Step

/-- Change what is taken for the result. -/
def map (f : ρ → ρ') (step : Step σ ρ) : Step σ ρ' :=
  ⟨f step.result, step.state, step.trace⟩

/-- Go on with another operation; the events follow one another. -/
def andThen (first : Step σ ρ) (next : ρ → σ → Step σ' ρ') : Step σ' ρ' :=
  let second := next first.result first.state
  ⟨second.result, second.state, first.trace ++ second.trace⟩

@[simp] theorem result_map (f : ρ → ρ') (step : Step σ ρ) :
    (step.map f).result = f step.result := rfl
@[simp] theorem state_map (f : ρ → ρ') (step : Step σ ρ) : (step.map f).state = step.state := rfl
@[simp] theorem trace_map (f : ρ → ρ') (step : Step σ ρ) : (step.map f).trace = step.trace := rfl

@[simp] theorem result_andThen (first : Step σ ρ) (next : ρ → σ → Step σ' ρ') :
    (first.andThen next).result = (next first.result first.state).result := rfl
@[simp] theorem state_andThen (first : Step σ ρ) (next : ρ → σ → Step σ' ρ') :
    (first.andThen next).state = (next first.result first.state).state := rfl
@[simp] theorem trace_andThen (first : Step σ ρ) (next : ρ → σ → Step σ' ρ') :
    (first.andThen next).trace = first.trace ++ (next first.result first.state).trace := rfl

theorem andThen_assoc (first : Step σ ρ) (second : ρ → σ → Step σ' ρ')
    (third : ρ' → σ' → Step σ'' ρ'') :
    (first.andThen second).andThen third =
      first.andThen fun result state => (second result state).andThen third := by
  simp [andThen, Array.append_assoc]

end Step

end AtsEndpoint
