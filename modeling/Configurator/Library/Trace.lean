import Configurator.Library.Program

namespace Configurator.Program

variable {World Call Err α β γ : Type} {Answer : Call → Type}
  (serve : World → (request : Call) → World × Answer request)

/-- The requests of the undisturbed run that count, one after the other. -/
def gather (counts : Call → Option γ) : Program Call Answer Err α → World → List γ
  | .call request next, world =>
    (counts request).toList ++ (next (serve world request).2).gather counts (serve world request).1
  | _, _ => []

/-- Every answer of the undisturbed run is as it should be. -/
def Answered (fits : (request : Call) → Answer request → Prop) : Program Call Answer Err α → World → Prop
  | .call request next, world =>
    fits request (serve world request).2 ∧ (next (serve world request).2).Answered fits (serve world request).1
  | _, _ => True

/-- Every call of the undisturbed run moves the world as it should. -/
def Throughout (moves : World → Call → World → Prop) : Program Call Answer Err α → World → Prop
  | .call request next, world => moves world request (serve world request).1 ∧
      (next (serve world request).2).Throughout moves (serve world request).1
  | _, _ => True

section Trace

variable {serve} {counts : Call → Option γ} {fits : (request : Call) → Answer request → Prop}

@[simp] theorem gather_ret (value : α) (world : World) :
    (ret value : Program Call Answer Err α).gather serve counts world = [] := rfl

@[simp] theorem gather_fail (error : Err) (world : World) :
    (fail error : Program Call Answer Err α).gather serve counts world = [] := rfl

@[simp] theorem gather_panic (world : World) :
    (panic : Program Call Answer Err α).gather serve counts world = [] := rfl

@[simp] theorem gather_call (request : Call) (next : Answer request → Program Call Answer Err α) (world : World) :
    (call request next).gather serve counts world =
      (counts request).toList ++ (next (serve world request).2).gather serve counts (serve world request).1 := rfl

@[simp] theorem answered_call (request : Call) (next : Answer request → Program Call Answer Err α) (world : World) :
    (call request next).Answered serve fits world ↔
      fits request (serve world request).2 ∧
        (next (serve world request).2).Answered serve fits (serve world request).1 := Iff.rfl

theorem gather_bind (program : Program Call Answer Err α) (next : α → Program Call Answer Err β) (world : World) :
    (program >>= next).gather serve counts world = program.gather serve counts world ++
      match program.run serve world with
      | (after, .returned value) => (next value).gather serve counts after
      | _ => [] := by
  induction program generalizing world with
  | ret | fail | panic => rfl
  | call request rest ih =>
    rw [call_bind, gather_call, ih, gather_call, List.append_assoc, run_call]

theorem answered_bind {program : Program Call Answer Err α} {next : α → Program Call Answer Err β} {world : World} :
    (program >>= next).Answered serve fits world ↔ program.Answered serve fits world ∧
      ∀ after value, program.run serve world = (after, .returned value) →
        (next value).Answered serve fits after := by
  induction program generalizing world with
  | ret value =>
    constructor
    · intro answered
      refine ⟨trivial, fun after other ends => ?_⟩
      obtain ⟨rfl, same⟩ := Prod.mk.inj ends
      cases same
      exact answered
    · intro answered
      exact answered.2 world value rfl
  | fail | panic => exact ⟨fun _ => ⟨trivial, nofun⟩, fun _ => trivial⟩
  | call request rest ih => exact (and_congr_right fun _ => ih _).trans and_assoc.symm

section Moves

variable {moves : World → Call → World → Prop}

@[simp] theorem throughout_ret (value : α) (world : World) :
    (ret value : Program Call Answer Err α).Throughout serve moves world := trivial

@[simp] theorem throughout_fail (error : Err) (world : World) :
    (fail error : Program Call Answer Err α).Throughout serve moves world := trivial

@[simp] theorem throughout_panic (world : World) :
    (panic : Program Call Answer Err α).Throughout serve moves world := trivial

@[simp] theorem throughout_call (request : Call) (next : Answer request → Program Call Answer Err α) (world : World) :
    (call request next).Throughout serve moves world ↔ moves world request (serve world request).1 ∧
      (next (serve world request).2).Throughout serve moves (serve world request).1 := Iff.rfl

theorem throughout_bind {program : Program Call Answer Err α} {next : α → Program Call Answer Err β} {world : World} :
    (program >>= next).Throughout serve moves world ↔ program.Throughout serve moves world ∧
      ∀ after value, program.run serve world = (after, .returned value) →
        (next value).Throughout serve moves after := by
  induction program generalizing world with
  | ret value =>
    constructor
    · intro throughout
      refine ⟨trivial, fun after other ends => ?_⟩
      obtain ⟨rfl, same⟩ := Prod.mk.inj ends
      cases same
      exact throughout
    · intro throughout
      exact throughout.2 world value rfl
  | fail | panic => exact ⟨fun _ => ⟨trivial, nofun⟩, fun _ => trivial⟩
  | call request rest ih => exact (and_congr_right fun _ => ih _).trans and_assoc.symm

theorem Emits.throughout {sort : Call → Prop} {program : Program Call Answer Err α} {world : World}
    (emits : program.Emits sort) (every : ∀ world request, sort request → moves world request (serve world request).1) :
    program.Throughout serve moves world := by
  induction program generalizing world with
  | ret | fail | panic => trivial
  | call request next ih => exact ⟨every world request emits.1, ih _ (emits.2 _)⟩

end Moves

end Trace

end Configurator.Program
