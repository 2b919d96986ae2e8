import Configurator.Library.Interference
import Mathlib.Data.List.Basic

/-! One program among others: each of its calls is served in the world that the others have left for it.
The calls are a function of these worlds, whatever the others are. -/
namespace Configurator

namespace Program

variable {World Call Err α β : Type} {Answer : Call → Type}
  (serve : World → (request : Call) → World × Answer request)

/-- The calls that a program makes, each with the world in which it is served, as long as there are worlds. -/
def amid : Program Call Answer Err α → List World → List (World × Call)
  | .call request next, world :: later => (world, request) :: (next (serve world request).2).amid later
  | _, _ => []

/-- What the program returns, and the worlds that it leaves over. -/
def finish : Program Call Answer Err α → List World → Option (α × List World)
  | .ret value, worlds => some (value, worlds)
  | .call request next, world :: later => (next (serve world request).2).finish later
  | _, _ => none

/-- What is left of a program after so many calls. -/
def left : Nat → Program Call Answer Err α → List World → Program Call Answer Err α
  | count + 1, .call request next, world :: later => left count (next (serve world request).2) later
  | _, program, _ => program

def alone : Program Call Answer Err α → World → List (World × Call)
  | .call request next, world =>
    (world, request) :: (next (serve world request).2).alone (serve world request).1
  | _, _ => []

section Amid

variable (request : Call) (next : Answer request → Program Call Answer Err α) (world : World)
  (later worlds : List World)

@[simp] theorem amid_ret (value : α) : (ret value : Program Call Answer Err α).amid serve worlds = [] := rfl

@[simp] theorem amid_nil (program : Program Call Answer Err α) : program.amid serve [] = [] := by
  cases program <;> rfl

@[simp] theorem amid_call : (call request next).amid serve (world :: later) =
    (world, request) :: (next (serve world request).2).amid serve later := rfl

@[simp] theorem finish_ret (value : α) :
    (ret value : Program Call Answer Err α).finish serve worlds = some (value, worlds) := rfl

@[simp] theorem finish_call_nil : (call request next).finish serve [] = none := rfl

@[simp] theorem finish_call : (call request next).finish serve (world :: later) =
    (next (serve world request).2).finish serve later := rfl

@[simp] theorem left_zero (program : Program Call Answer Err α) : left serve 0 program worlds = program := by
  cases program <;> rfl

@[simp] theorem left_call (count : Nat) : left serve (count + 1) (call request next) (world :: later) =
    left serve count (next (serve world request).2) later := rfl

variable {serve} {worlds}

/-- A sequence makes the calls of its first part and goes on in the worlds that are left over. -/
theorem amid_bind (program : Program Call Answer Err α) (next : α → Program Call Answer Err β)
    (worlds : List World) : (program >>= next).amid serve worlds =
      program.amid serve worlds ++
        (program.finish serve worlds).elim [] fun result => (next result.1).amid serve result.2 := by
  induction program generalizing worlds with
  | ret value => rfl
  | fail | panic => rfl
  | call request rest ih =>
    cases worlds with
    | nil => rfl
    | cons world later => exact congrArg (List.cons _) (ih _ later)

/-- Once its first part has returned, what is left of a sequence is left of its second part. -/
theorem left_bind {program : Program Call Answer Err α} {value : α} {later : List World}
    (next : α → Program Call Answer Err β) (finished : program.finish serve worlds = some (value, later)) :
    ∃ used, later = worlds.drop used ∧
      ∀ count, left serve (used + count) (program >>= next) worlds = left serve count (next value) later := by
  induction program generalizing worlds with
  | ret result =>
    obtain ⟨rfl, rfl⟩ := Prod.mk.inj (Option.some.inj finished)
    exact ⟨0, rfl, fun count => by rw [Nat.zero_add, ret_bind]⟩
  | fail | panic => cases finished
  | call request rest ih =>
    cases worlds with
    | nil => cases finished
    | cons world others =>
      obtain ⟨used, same, goes⟩ := ih _ finished
      refine ⟨used + 1, same, fun count => ?_⟩
      rw [Nat.add_right_comm]
      exact goes count

/-- The calls after so many are those of what is left. -/
theorem amid_left (count : Nat) (program : Program Call Answer Err α) (worlds : List World) :
    ∀ entry ∈ (left serve count program worlds).amid serve (worlds.drop count),
      entry ∈ program.amid serve worlds := by
  induction count generalizing program worlds with
  | zero => simp
  | succ count ih =>
    intro entry member
    cases worlds with
    | nil => simp at member
    | cons world later =>
      cases program with
      | ret | fail | panic => cases member
      | call request next =>
        exact List.mem_cons_of_mem _ (ih _ later entry member)

/-- In the worlds of its undisturbed run a program makes the calls of that run. -/
theorem amid_alone (program : Program Call Answer Err α) (world : World) :
    program.amid serve ((program.alone serve world).map Prod.fst) = program.alone serve world := by
  induction program generalizing world with
  | ret | fail | panic => rfl
  | call request next ih => exact congrArg (List.cons _) (ih _ _)

/-- What every call of a sort keeps holds in all worlds of the undisturbed run. -/
theorem Emits.alone {sort : Call → Prop} {holds : World → Prop} {program : Program Call Answer Err α}
    (emits : program.Emits sort)
    (keeps : ∀ world request, holds world → sort request → holds (serve world request).1) {world : World}
    (start : holds world) : ∀ entry ∈ program.alone serve world, holds entry.1 := by
  induction program generalizing world with
  | ret | fail | panic => nofun
  | call request next ih =>
    intro entry member
    rcases List.mem_cons.mp member with rfl | rest
    · exact start
    · exact ih _ (emits.2 _) (keeps world request start emits.1) entry rest

end Amid

end Program

namespace System

variable {World Call Err α Party : Type} {Answer : Call → Type} [DecidableEq Party]

/-- A stretch of a run, with the calls that one party makes and the worlds in which they are served. -/
inductive Records (system : System World Call Answer Err α Party) (party : Party) :
    Pool World Call Answer Err α Party → List (World × Call) → Pool World Call Answer Err α Party → Prop where
  | refl (pool) : Records system party pool [] pool
  | others {pool next last entries} (moved : system.Step pool next)
      (still : next.threads party = pool.threads party) (rest : Records system party next entries last) :
      Records system party pool entries last
  | own {world threads request next after answer last entries}
      (flight : threads party = some (.call request next)) (reacts : system.react party world request after answer)
      (rest : Records system party ⟨after, Function.update threads party (some (next answer))⟩ entries last) :
      Records system party ⟨world, threads⟩ ((world, request) :: entries) last

namespace Records

variable {system : System World Call Answer Err α Party} {party : Party}
  {serve : World → (request : Call) → World × Answer request}
  {program : Program Call Answer Err α} {entries : List (World × Call)}

/-- Where every call of a party is served, its calls are those of its program in these worlds. -/
theorem amid {pool last : Pool World Call Answer Err α Party}
    (served : ∀ {world request after answer}, system.react party world request after answer →
      serve world request = (after, answer))
    (records : system.Records party pool entries last) (flight : pool.threads party = some program) :
    entries = program.amid serve (entries.map Prod.fst) := by
  induction records generalizing program with
  | refl => exact (Program.amid_nil serve program).symm
  | others moved still rest ih => exact ih (still.trans flight)
  | @own world threads request next after answer last entries calls reacts rest ih =>
    obtain rfl : Program.call request next = program := Option.some.inj (calls.symm.trans flight)
    have rest := ih (Function.update_self party (some (next answer)) threads)
    rw [List.map_cons, Program.amid_call, served reacts, ← rest]

theorem alone (serves : ∀ world request,
      system.react party world request (serve world request).1 (serve world request).2)
    (program : Program Call Answer Err α) {world : World} {threads : Party → Option (Program Call Answer Err α)}
    (flight : threads party = some program) :
    ∃ last, system.Records party ⟨world, threads⟩ (program.alone serve world) last := by
  induction program generalizing world threads with
  | ret | fail | panic => exact ⟨_, .refl _⟩
  | call request next ih =>
    obtain ⟨last, rest⟩ := ih (serve world request).2 (Function.update_self party _ threads)
    exact ⟨last, .own flight (serves world request) rest⟩

end Records

end System

end Configurator
