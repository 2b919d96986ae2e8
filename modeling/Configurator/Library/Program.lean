import Mathlib.Logic.Basic

/-! Programs that talk to a server: finite trees whose inner nodes are calls and
whose leaves are the three ways a Go function ends. -/
namespace Configurator

/-- How a function ends: with a value, with an error, or in a panic. -/
inductive Outcome (Err α : Type) where
  | returned (value : α)
  | failed (error : Err)
  | panicked

/-- A program over calls `c : Call`, each answered by an `Answer c`. -/
inductive Program (Call : Type) (Answer : Call → Type) (Err α : Type) where
  | ret (value : α)
  | fail (error : Err)
  | panic
  | call (request : Call) (next : Answer request → Program Call Answer Err α)

/-- The program that has already ended in an outcome. -/
def Outcome.toProgram {Call Err α : Type} {Answer : Call → Type} :
    Outcome Err α → Program Call Answer Err α
  | .returned value => .ret value
  | .failed error => .fail error
  | .panicked => .panic

namespace Program

variable {Call World Err α β γ : Type} {Answer : Call → Type}

def bind : Program Call Answer Err α → (α → Program Call Answer Err β) →
    Program Call Answer Err β
  | .ret value, next => next value
  | .fail error, _ => .fail error
  | .panic, _ => .panic
  | .call request rest, next => .call request fun answer => (rest answer).bind next

instance : Monad (Program Call Answer Err) where
  pure := .ret
  bind := bind

/-- Issue one call and return its answer. -/
def request (call : Call) : Program Call Answer Err (Answer call) :=
  .call call .ret

/-- `if err != nil { return err }`. -/
def ofExcept : Except Err α → Program Call Answer Err α
  | .ok value => .ret value
  | .error error => .fail error

/-- A step that panics where `value` is `none`. -/
def orPanic : Option α → Program Call Answer Err α
  | some value => .ret value
  | none => .panic

/-- Look at the error of a function instead of handing it on. A panic goes through. -/
def attempt : Program Call Answer Err α → Program Call Answer Err (Except Err α)
  | .ret value => .ret (.ok value)
  | .fail error => .ret (.error error)
  | .panic => .panic
  | .call request next => .call request fun answer => (next answer).attempt

/-- The function with an error in place of its panics. -/
def caught (raised : Err) : Program Call Answer Err α → Program Call Answer Err α
  | .panic => .fail raised
  | .call request next => .call request fun answer => (next answer).caught raised
  | program => program

@[simp] theorem pure_eq (value : α) :
    (pure value : Program Call Answer Err α) = .ret value := rfl

@[simp] theorem ret_bind (value : α) (next : α → Program Call Answer Err β) :
    (Program.ret value : Program Call Answer Err α) >>= next = next value := rfl

@[simp] theorem fail_bind (error : Err) (next : α → Program Call Answer Err β) :
    (Program.fail error : Program Call Answer Err α) >>= next = .fail error := rfl

@[simp] theorem panic_bind (next : α → Program Call Answer Err β) :
    (Program.panic : Program Call Answer Err α) >>= next = .panic := rfl

@[simp] theorem call_bind (call : Call) (rest : Answer call → Program Call Answer Err α)
    (next : α → Program Call Answer Err β) :
    Program.call call rest >>= next = .call call fun answer => rest answer >>= next := rfl

@[simp] theorem request_bind (call : Call) (next : Answer call → Program Call Answer Err β) :
    request call >>= next = .call call next := rfl

@[simp] theorem ofExcept_ok (value : α) :
    (ofExcept (.ok value) : Program Call Answer Err α) = .ret value := rfl

@[simp] theorem ofExcept_error (error : Err) :
    (ofExcept (.error error) : Program Call Answer Err α) = .fail error := rfl

@[simp] theorem orPanic_some (value : α) :
    (orPanic (some value) : Program Call Answer Err α) = .ret value := rfl

@[simp] theorem orPanic_none : (orPanic none : Program Call Answer Err α) = .panic := rfl

private theorem map_id (program : Program Call Answer Err α) : id <$> program = program := by
  induction program with
  | ret | fail | panic => rfl
  | call request next ih => exact congrArg (Program.call request) (funext ih)

private theorem assoc (program : Program Call Answer Err α)
    (first : α → Program Call Answer Err β) (second : β → Program Call Answer Err γ) :
    program >>= first >>= second = program >>= fun value => first value >>= second := by
  induction program with
  | ret | fail | panic => rfl
  | call request next ih => exact congrArg (Program.call request) (funext ih)

instance : LawfulMonad (Program Call Answer Err) :=
  LawfulMonad.mk' _ map_id (fun _ _ => rfl) assoc

/-- The program has no call left. -/
def Finished : Program Call Answer Err α → Prop
  | .call _ _ => False
  | _ => True

/-- The undisturbed run: every call is served at once by `serve`. -/
def run (serve : World → (call : Call) → World × Answer call) :
    Program Call Answer Err α → World → World × Outcome Err α
  | .ret value, world => (world, .returned value)
  | .fail error, world => (world, .failed error)
  | .panic, world => (world, .panicked)
  | .call request next, world =>
    (next (serve world request).2).run serve (serve world request).1

section Run

variable (serve : World → (call : Call) → World × Answer call)

@[simp] theorem run_ret (value : α) (world : World) :
    (Program.ret value : Program Call Answer Err α).run serve world =
      (world, .returned value) := rfl

@[simp] theorem run_fail (error : Err) (world : World) :
    (Program.fail error : Program Call Answer Err α).run serve world =
      (world, .failed error) := rfl

@[simp] theorem run_panic (world : World) :
    (Program.panic : Program Call Answer Err α).run serve world = (world, .panicked) := rfl

@[simp] theorem run_call (request : Call) (next : Answer request → Program Call Answer Err α)
    (world : World) :
    (Program.call request next).run serve world =
      (next (serve world request).2).run serve (serve world request).1 := rfl

theorem run_bind (program : Program Call Answer Err α)
    (next : α → Program Call Answer Err β) (world : World) :
    (program >>= next).run serve world =
      match program.run serve world with
      | (after, .returned value) => (next value).run serve after
      | (after, .failed error) => (after, .failed error)
      | (after, .panicked) => (after, .panicked) := by
  induction program generalizing world with
  | ret | fail | panic => rfl
  | call request rest ih => exact ih (serve world request).2 (serve world request).1

variable {serve} in
/-- If a sequence returns, its first part does, and the rest goes on from the value. -/
theorem returned_bind {program : Program Call Answer Err α} {next : α → Program Call Answer Err β}
    {world after : World} {result : β} (ran : (program >>= next).run serve world = (after, .returned result)) :
    ∃ middle value, program.run serve world = (middle, .returned value) ∧
      (next value).run serve middle = (after, .returned result) := by
  rw [run_bind] at ran
  generalize program.run serve world = ended at ran
  obtain ⟨middle, value | error | _⟩ := ended
  · exact ⟨middle, value, rfl, ran⟩
  · cases congrArg Prod.snd ran
  · cases congrArg Prod.snd ran

theorem run_bind_panicked {program : Program Call Answer Err α} {next : α → Program Call Answer Err β}
    {world : World} (panics : (program.run serve world).2 = .panicked) :
    ((program >>= next).run serve world).2 = .panicked := by
  rw [run_bind]
  generalize program.run serve world = result at panics
  obtain ⟨after, outcome⟩ := result
  cases panics
  rfl

/-- To look at an error instead of handing it on changes nothing else. -/
theorem run_attempt (program : Program Call Answer Err α) (world : World) :
    program.attempt.run serve world =
      match program.run serve world with
      | (after, .returned value) => (after, .returned (.ok value))
      | (after, .failed error) => (after, .returned (.error error))
      | (after, .panicked) => (after, .panicked) := by
  induction program generalizing world with
  | ret | fail | panic => rfl
  | call request rest ih => exact ih (serve world request).2 (serve world request).1

theorem run_caught (program : Program Call Answer Err α) (raised : Err) (world : World) :
    (program.caught raised).run serve world =
      match program.run serve world with
      | (after, .panicked) => (after, .failed raised)
      | ended => ended := by
  induction program generalizing world with
  | ret | fail | panic => rfl
  | call request rest ih => exact ih (serve world request).2 (serve world request).1

/-- An undisturbed run of the program keeps a property of the world. -/
def Keeps (keeps : World → Prop) (program : Program Call Answer Err α) : Prop :=
  ∀ world, keeps world → keeps (program.run serve world).1

theorem keeps_ret (keeps : World → Prop) (value : α) :
    Keeps serve keeps (Program.ret value : Program Call Answer Err α) :=
  fun _ holds => holds

variable {serve} in
theorem Keeps.call {keeps : World → Prop} {request : Call} {next : Answer request → Program Call Answer Err α}
    (served : ∀ world, keeps world → keeps (serve world request).1) (rest : ∀ answer, Keeps serve keeps (next answer)) :
    Keeps serve keeps (Program.call request next) :=
  fun world holds => rest _ _ (served world holds)

variable {serve} in
theorem Keeps.bind {keeps : World → Prop} {program : Program Call Answer Err α}
    {next : α → Program Call Answer Err β} (first : Keeps serve keeps program)
    (rest : ∀ value, Keeps serve keeps (next value)) : Keeps serve keeps (program >>= next) := by
  intro world holds
  have kept := first world holds
  rw [run_bind]
  generalize program.run serve world = result at kept
  obtain ⟨after, value | error | _⟩ := result
  · exact rest value after kept
  · exact kept
  · exact kept

/-- The calls of the undisturbed run, one after the other. -/
def calls : Program Call Answer Err α → World → List Call
  | .call request next, world =>
    request :: (next (serve world request).2).calls (serve world request).1
  | _, _ => []

@[simp] theorem calls_ret (value : α) (world : World) :
    (Program.ret value : Program Call Answer Err α).calls serve world = [] := rfl

@[simp] theorem calls_fail (error : Err) (world : World) :
    (Program.fail error : Program Call Answer Err α).calls serve world = [] := rfl

@[simp] theorem calls_panic (world : World) :
    (Program.panic : Program Call Answer Err α).calls serve world = [] := rfl

@[simp] theorem calls_call (request : Call) (next : Answer request → Program Call Answer Err α)
    (world : World) :
    (Program.call request next).calls serve world =
      request :: (next (serve world request).2).calls serve (serve world request).1 := rfl

/-- A sequence makes the calls of its first part, and goes on only from a value. -/
theorem calls_bind (program : Program Call Answer Err α) (next : α → Program Call Answer Err β) (world : World) :
    (program >>= next).calls serve world = program.calls serve world ++
      match program.run serve world with
      | (after, .returned value) => (next value).calls serve after
      | _ => [] := by
  induction program generalizing world with
  | ret | fail | panic => rfl
  | call request rest ih => exact congrArg (List.cons request) (ih _ _)

/-- A run whose calls all leave the world alone ends where it began. -/
theorem run_of_calls (program : Program Call Answer Err α) (world : World)
    (still : ∀ call ∈ program.calls serve world, (serve world call).1 = world) :
    (program.run serve world).1 = world := by
  induction program with
  | ret | fail | panic => rfl
  | call request next ih =>
    rw [calls_call, List.forall_mem_cons] at still
    obtain ⟨same, rest⟩ := still
    rw [run_call, same]
    rw [same] at rest
    exact ih _ rest

/-- The world and the rest of the program once `count` calls have been served. -/
def after : Nat → Program Call Answer Err α → World → World × Program Call Answer Err α
  | count + 1, .call request next, world =>
    (next (serve world request).2).after count (serve world request).1
  | _, program, world => (world, program)

@[simp] theorem after_zero (program : Program Call Answer Err α) (world : World) :
    program.after serve 0 world = (world, program) := by
  cases program <;> rfl

@[simp] theorem after_call (count : Nat) (request : Call)
    (next : Answer request → Program Call Answer Err α) (world : World) :
    (Program.call request next).after serve (count + 1) world =
      (next (serve world request).2).after serve count (serve world request).1 := rfl

/-- The next `count` calls are made where they meet a condition. -/
def Meets (meets : World → Call → Prop) : Nat → Program Call Answer Err α → World → Prop
  | count + 1, .call request next, world =>
    meets world request ∧ (next (serve world request).2).Meets meets count (serve world request).1
  | _, _, _ => True

theorem meets_of_forall {meets : World → Call → Prop} (every : ∀ world request, meets world request)
    (count : Nat) (program : Program Call Answer Err α) (world : World) :
    program.Meets serve meets count world := by
  induction count generalizing program world with
  | zero => cases program <;> trivial
  | succ count ih =>
    cases program with
    | ret | fail | panic => trivial
    | call request next => exact ⟨every world request, ih _ _⟩

end Run

end Program

section Emits

variable {Call World Err α β : Type} {Answer : Call → Type}

/-- Whatever it is answered, the program makes only calls of this sort. -/
def Program.Emits (sort : Call → Prop) : Program Call Answer Err α → Prop
  | .call request next => sort request ∧ ∀ answer, (next answer).Emits sort
  | _ => True

namespace Program.Emits

variable {sort : Call → Prop} {program : Program Call Answer Err α}

theorem bind {next : α → Program Call Answer Err β} (emits : program.Emits sort)
    (continues : ∀ value, (next value).Emits sort) : (program >>= next).Emits sort := by
  induction program with
  | ret value => exact continues value
  | fail | panic => trivial
  | call request rest ih => exact ⟨emits.1, fun answer => ih answer (emits.2 answer)⟩

theorem ofExcept (value : Except Err α) :
    (Program.ofExcept value : Program Call Answer Err α).Emits sort := by
  cases value <;> trivial

theorem orPanic (value : Option α) :
    (Program.orPanic value : Program Call Answer Err α).Emits sort := by
  cases value <;> trivial

theorem attempt (emits : program.Emits sort) : program.attempt.Emits sort := by
  induction program with
  | ret | fail | panic => trivial
  | call request next ih => exact ⟨emits.1, fun answer => ih answer (emits.2 answer)⟩

theorem mono {wider : Call → Prop} (implies : ∀ call, sort call → wider call)
    (emits : program.Emits sort) : program.Emits wider := by
  induction program with
  | ret | fail | panic => trivial
  | call request next ih => exact ⟨implies request emits.1, fun answer => ih answer (emits.2 answer)⟩

variable {serve : World → (call : Call) → World × Answer call} {related : World → World → Prop}

/-- A relation that every call of the sort respects holds between any two moments of a run. -/
theorem after (emits : program.Emits sort) (reflexive : ∀ world, related world world)
    (transitive : ∀ {first second third},
      related first second → related second third → related first third)
    (step : ∀ world call, sort call → related world (serve world call).1) (count : Nat)
    (world : World) : related world (program.after serve count world).1 ∧
      (program.after serve count world).2.Emits sort := by
  induction count generalizing program world with
  | zero => simpa using ⟨reflexive world, emits⟩
  | succ count ih =>
    cases program with
    | ret | fail | panic => exact ⟨reflexive world, trivial⟩
    | call request next =>
      obtain ⟨moved, rest⟩ := ih (emits.2 (serve world request).2) (serve world request).1
      exact ⟨transitive (step world request emits.1) moved, rest⟩

theorem run (emits : program.Emits sort) (reflexive : ∀ world, related world world)
    (transitive : ∀ {first second third},
      related first second → related second third → related first third)
    (step : ∀ world call, sort call → related world (serve world call).1) (world : World) :
    related world (program.run serve world).1 := by
  induction program generalizing world with
  | ret | fail | panic => exact reflexive world
  | call request next ih =>
    exact transitive (step world request emits.1) (ih _ (emits.2 _) _)

end Program.Emits

end Emits

/-- How a run is cut off: it stops after so many calls, or the call after so many
fails. -/
inductive Cut (Err : Type) where
  | stop (calls : Nat)
  | fail (calls : Nat) (error : Err)

/-- How many calls are served before. -/
def Cut.calls {Err : Type} : Cut Err → Nat
  | .stop calls => calls
  | .fail calls _ => calls

/-- The world that a run leaves behind when it is cut off. `failure` gives the
answer of a call that fails; a call that has none is served. -/
def Program.cutOff {World Call Err α : Type} {Answer : Call → Type}
    (serve : World → (call : Call) → World × Answer call)
    (failure : Err → (call : Call) → Option (Answer call)) (cut : Cut Err)
    (program : Program Call Answer Err α) (world : World) : World :=
  match cut with
  | .stop calls => (program.after serve calls world).1
  | .fail calls error =>
    match program.after serve calls world with
    | (reached, .call request next) =>
      match failure error request with
      | some answer => ((next answer).run serve reached).1
      | none => ((Program.call request next).run serve reached).1
    | (reached, _) => reached

section CutOff

variable {World Call Err α : Type} {Answer : Call → Type}
  (serve : World → (call : Call) → World × Answer call)
  (failure : Err → (call : Call) → Option (Answer call)) (calls : Nat) (error : Err)
  (request : Call) (next : Answer request → Program Call Answer Err α) (world : World)

@[simp] theorem Program.cutOff_stop_zero (program : Program Call Answer Err α) :
    program.cutOff serve failure (.stop 0) world = world := by
  simp [cutOff]

@[simp] theorem Program.cutOff_stop_succ :
    (Program.call request next).cutOff serve failure (.stop (calls + 1)) world =
      (next (serve world request).2).cutOff serve failure (.stop calls) (serve world request).1 := rfl

@[simp] theorem Program.cutOff_fail_zero :
    (Program.call request next).cutOff serve failure (.fail 0 error) world =
      match failure error request with
      | some answer => ((next answer).run serve world).1
      | none => ((Program.call request next).run serve world).1 := rfl

@[simp] theorem Program.cutOff_fail_succ :
    (Program.call request next).cutOff serve failure (.fail (calls + 1) error) world =
      (next (serve world request).2).cutOff serve failure (.fail calls error)
        (serve world request).1 := rfl

@[simp] theorem Program.cutOff_ret (value : α) (cut : Cut Err) :
    (Program.ret value : Program Call Answer Err α).cutOff serve failure cut world = world := by
  cases cut <;> simp [cutOff, after]

@[simp] theorem Program.cutOff_fail (raised : Err) (cut : Cut Err) :
    (Program.fail raised : Program Call Answer Err α).cutOff serve failure cut world = world := by
  cases cut <;> simp [cutOff, after]

@[simp] theorem Program.cutOff_panic (cut : Cut Err) :
    (Program.panic : Program Call Answer Err α).cutOff serve failure cut world = world := by
  cases cut <;> simp [cutOff, after]

end CutOff

theorem Program.Emits.cutOff {World Call Err α : Type} {Answer : Call → Type}
    {serve : World → (call : Call) → World × Answer call}
    {failure : Err → (call : Call) → Option (Answer call)} {sort : Call → Prop}
    {related : World → World → Prop} {program : Program Call Answer Err α}
    (emits : program.Emits sort) (reflexive : ∀ world, related world world)
    (transitive : ∀ {first second third},
      related first second → related second third → related first third)
    (step : ∀ world call, sort call → related world (serve world call).1) (cut : Cut Err)
    (world : World) : related world (program.cutOff serve failure cut world) := by
  cases cut with
  | stop calls => exact (emits.after reflexive transitive step calls world).1
  | fail calls error =>
    obtain ⟨moved, rest⟩ := emits.after reflexive transitive step calls world
    dsimp only [Program.cutOff]
    generalize program.after serve calls world = state at moved rest
    obtain ⟨reached, program⟩ := state
    cases program with
    | ret | fail | panic => exact moved
    | call request next =>
      dsimp only
      cases failure error request with
      | none => exact transitive moved (rest.run reflexive transitive step reached)
      | some answer =>
        exact transitive moved ((rest.2 answer).run reflexive transitive step reached)

end Configurator
