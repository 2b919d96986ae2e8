import Configurator.Library.Interference

namespace Configurator

/-- A world, and the faults that the coming calls meet. -/
structure Flaky (World Err : Type) where
  world : World
  faults : Nat → Option Err

def Flaky.rest {World Err : Type} (flaky : Flaky World Err) (call : Nat) : Option Err :=
  flaky.faults (call + 1)

section Serve

variable {World Call Err α : Type} {Answer : Call → Type}
  (server : World → (call : Call) → World × Answer call)
  (failure : Err → (call : Call) → Option (Answer call))

/-- A server whose calls fail as the pattern says; a call that cannot fail is served. -/
def Flaky.serve (flaky : Flaky World Err) (call : Call) : Flaky World Err × Answer call :=
  match (flaky.faults 0).bind fun error => failure error call with
  | some answer => (⟨flaky.world, flaky.rest⟩, answer)
  | none => (⟨(server flaky.world call).1, flaky.rest⟩, (server flaky.world call).2)

variable {server failure} {flaky : Flaky World Err} {call : Call} {error : Err} {answer : Answer call}

theorem Flaky.serve_of_fault (fault : flaky.faults 0 = some error) (fails : failure error call = some answer) :
    flaky.serve server failure call = (⟨flaky.world, flaky.rest⟩, answer) := by
  simp [serve, fault, fails]

theorem Flaky.serve_of_none (none : flaky.faults 0 = none) :
    flaky.serve server failure call =
      (⟨(server flaky.world call).1, flaky.rest⟩, (server flaky.world call).2) := by
  simp [serve, none]

theorem Flaky.serve_of_infallible (infallible : ∀ error, failure error call = none) :
    flaky.serve server failure call =
      (⟨(server flaky.world call).1, flaky.rest⟩, (server flaky.world call).2) := by
  cases fault : flaky.faults 0 <;> simp [serve, fault, infallible]

/-- A call is served, or it fails and changes nothing. -/
theorem Flaky.serve_cases (flaky : Flaky World Err) (call : Call) :
    flaky.serve server failure call =
        (⟨(server flaky.world call).1, flaky.rest⟩, (server flaky.world call).2) ∨
      ∃ error answer, failure error call = some answer ∧
        flaky.serve server failure call = (⟨flaky.world, flaky.rest⟩, answer) := by
  cases fault : flaky.faults 0 with
  | none => exact Or.inl (serve_of_none fault)
  | some error =>
    cases fails : failure error call with
    | none => exact Or.inl (by simp [serve, fault, fails])
    | some answer => exact Or.inr ⟨error, answer, fails, serve_of_fault fault fails⟩

end Serve

end Configurator
