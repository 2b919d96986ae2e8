import Configurator.Library.Program
import Mathlib.Logic.Function.Basic
import Mathlib.Logic.Relation

/-! Programs that share one world. Between two calls of a program the others may
move the world along a relation the program relies on; every call it makes must
stay inside the relation it guarantees. A system of such programs is then safe
under every interleaving of their calls. -/
namespace Configurator

/-- What a program may assume of the others and what it owes them. `react` says
how a call can be answered, refusals and side conditions included. -/
structure Rules (World Call : Type) (Answer : Call → Type) where
  react : World → (request : Call) → World → Answer request → Prop
  rely : World → World → Prop
  guarantee : World → Call → World → Prop

namespace Program

variable {World Call Err α β : Type} {Answer : Call → Type}

/-- The program keeps its guarantee at every call and ends in `post`, whatever
the others do between its calls. -/
def Safe (rules : Rules World Call Answer) (post : World → Outcome Err α → Prop) :
    Program Call Answer Err α → World → Prop
  | .ret value, world => ∀ later, rules.rely world later → post later (.returned value)
  | .fail error, world => ∀ later, rules.rely world later → post later (.failed error)
  | .panic, world => ∀ later, rules.rely world later → post later .panicked
  | .call request next, world => ∀ later, rules.rely world later →
      ∀ after answer, rules.react later request after answer →
        rules.guarantee later request after ∧ (next answer).Safe rules post after

variable {rules : Rules World Call Answer} {post : World → Outcome Err α → Prop}

theorem Safe.later (transitive : ∀ {first second third},
      rules.rely first second → rules.rely second third → rules.rely first third)
    {program : Program Call Answer Err α} {world after : World}
    (safe : program.Safe rules post world) (moves : rules.rely world after) :
    program.Safe rules post after := by
  cases program <;> exact fun later next => safe later (transitive moves next)

theorem Safe.mono {weaker : World → Outcome Err α → Prop}
    (implies : ∀ world outcome, post world outcome → weaker world outcome)
    {program : Program Call Answer Err α} {world : World}
    (safe : program.Safe rules post world) : program.Safe rules weaker world := by
  induction program generalizing world with
  | ret | fail | panic => exact fun later moves => implies _ _ (safe later moves)
  | call request next ih =>
    intro later moves after answer reacts
    obtain ⟨kept, rest⟩ := safe later moves after answer reacts
    exact ⟨kept, ih answer rest⟩

/-- A sequence is safe when its second part is safe from every value its first
part may return, and its errors and panics meet the postcondition themselves. -/
theorem Safe.bind {final : World → Outcome Err β → Prop}
    {program : Program Call Answer Err α} {next : α → Program Call Answer Err β} {world : World}
    (safe : program.Safe rules post world)
    (continues : ∀ value world, post world (.returned value) → (next value).Safe rules final world)
    (fails : ∀ error world, post world (.failed error) → final world (.failed error))
    (panics : ∀ world, post world .panicked → final world .panicked)
    (reflexive : ∀ world, rules.rely world world) :
    (program >>= next).Safe rules final world := by
  induction program generalizing world with
  | ret value => exact continues value world (safe world (reflexive world))
  | fail error => exact fun later moves => fails error later (safe later moves)
  | panic => exact fun later moves => panics later (safe later moves)
  | call request rest ih =>
    intro later moves after answer reacts
    obtain ⟨kept, safeRest⟩ := safe later moves after answer reacts
    exact ⟨kept, ih answer safeRest⟩

theorem Safe.call (assertion : World → Prop) {request : Call}
    {next : Answer request → Program Call Answer Err α} {world : World}
    (stable : ∀ {before after}, rules.rely before after → assertion before → assertion after)
    (holds : assertion world)
    (step : ∀ before after answer, assertion before → rules.react before request after answer →
      rules.guarantee before request after ∧ (next answer).Safe rules post after) :
    (Program.call request next).Safe rules post world :=
  fun later moves after answer reacts => step later after answer (stable moves holds) reacts

theorem Safe.request (assertion : World → Prop) {request : Call}
    {next : Answer request → Program Call Answer Err α} {world : World}
    (stable : ∀ {before after}, rules.rely before after → assertion before → assertion after)
    (holds : assertion world)
    (step : ∀ before after answer, assertion before → rules.react before request after answer →
      rules.guarantee before request after ∧ (next answer).Safe rules post after) :
    (Program.request request >>= next).Safe rules post world :=
  Safe.call assertion stable holds step

/-- A program that nobody disturbs and whose calls are all served ends as its run does. -/
theorem Safe.of_run {serve : World → (request : Call) → World × Answer request} {sort : Call → Prop}
    {program : Program Call Answer Err α} {world : World} (emits : program.Emits sort)
    (alone : ∀ {before after}, rules.rely before after → after = before)
    (served : ∀ before request after answer, sort request → rules.react before request after answer →
      rules.guarantee before request after ∧ serve before request = (after, answer))
    (ends : post (program.run serve world).1 (program.run serve world).2) :
    program.Safe rules post world := by
  induction program generalizing world with
  | ret | fail | panic => exact fun later moves => alone moves ▸ ends
  | call request next ih =>
    intro later moves after answer reacts
    obtain rfl := alone moves
    obtain ⟨kept, same⟩ := served _ request after answer emits.1 reacts
    rw [run_call, same] at ends
    exact ⟨kept, ih answer (emits.2 answer) ends⟩

/-- To look at an error instead of handing it on does not change the world. -/
theorem Safe.attempt {holds : World → Prop} {program : Program Call Answer Err α} {world : World}
    (safe : program.Safe rules (fun after _ => holds after) world) :
    program.attempt.Safe rules (fun after _ => holds after) world := by
  induction program generalizing world with
  | ret | fail | panic => exact safe
  | call request next ih =>
    intro later moves after answer reacts
    obtain ⟨kept, rest⟩ := safe later moves after answer reacts
    exact ⟨kept, ih answer rest⟩

/-- To look at the error of a function that does not panic does not make it panic. -/
theorem Safe.attempt_calm {holds : World → Prop} {program : Program Call Answer Err α} {world : World}
    (safe : program.Safe rules (fun after outcome => outcome ≠ .panicked ∧ holds after) world) :
    program.attempt.Safe rules (fun after outcome => outcome ≠ .panicked ∧ holds after) world := by
  induction program generalizing world with
  | ret | fail => exact fun later moves => ⟨nofun, (safe later moves).2⟩
  | panic => exact fun later moves => absurd rfl (safe later moves).1
  | call request next ih =>
    intro later moves after answer reacts
    obtain ⟨kept, rest⟩ := safe later moves after answer reacts
    exact ⟨kept, ih answer rest⟩

theorem Safe.caught {holds : World → Prop} {program : Program Call Answer Err α} {world : World} {raised : Err}
    (safe : program.Safe rules (fun after _ => holds after) world) :
    (program.caught raised).Safe rules (fun after outcome => outcome ≠ .panicked ∧ holds after) world := by
  induction program generalizing world with
  | ret | fail | panic => exact fun later moves => ⟨nofun, safe later moves⟩
  | call request next ih =>
    intro later moves after answer reacts
    obtain ⟨kept, rest⟩ := safe later moves after answer reacts
    exact ⟨kept, ih answer rest⟩

/-- What both sides keep still holds in the end. -/
theorem Safe.frame (assertion : World → Prop)
    (stable : ∀ {before after}, rules.rely before after → assertion before → assertion after)
    (kept : ∀ {before request after},
      rules.guarantee before request after → assertion before → assertion after)
    {program : Program Call Answer Err α} {world : World} (safe : program.Safe rules post world)
    (holds : assertion world) :
    program.Safe rules (fun after outcome => post after outcome ∧ assertion after) world := by
  induction program generalizing world with
  | ret | fail | panic => exact fun later moves => ⟨safe later moves, stable moves holds⟩
  | call request next ih =>
    intro later moves after answer reacts
    obtain ⟨guaranteed, rest⟩ := safe later moves after answer reacts
    exact ⟨guaranteed, ih answer rest (kept guaranteed (stable moves holds))⟩

/-- A program that makes only calls of one sort is safe when these keep an assertion. -/
theorem Safe.of_emits {sort : Call → Prop} {assertion : World → Prop}
    {program : Program Call Answer Err α} {world : World} (emits : program.Emits sort)
    (stable : ∀ {before after}, rules.rely before after → assertion before → assertion after)
    (holds : assertion world)
    (step : ∀ before request after answer, sort request → assertion before →
      rules.react before request after answer →
        rules.guarantee before request after ∧ assertion after)
    (ends : ∀ world outcome, assertion world → post world outcome) :
    program.Safe rules post world := by
  induction program generalizing world with
  | ret | fail | panic => exact fun later moves => ends later _ (stable moves holds)
  | call request next ih =>
    intro later moves after answer reacts
    obtain ⟨kept, still⟩ := step later request after answer emits.1 (stable moves holds) reacts
    exact ⟨kept, ih answer (emits.2 answer) still⟩

/-- A safe program run without interference ends in its postcondition. -/
theorem Safe.run {serve : World → (request : Call) → World × Answer request}
    (reflexive : ∀ world, rules.rely world world)
    (serves : ∀ world request,
      rules.react world request (serve world request).1 (serve world request).2)
    {program : Program Call Answer Err α} {world : World}
    (safe : program.Safe rules post world) :
    post (program.run serve world).1 (program.run serve world).2 := by
  induction program generalizing world with
  | ret | fail | panic => exact safe world (reflexive world)
  | call request next ih =>
    exact ih _ (safe world (reflexive world) _ _ (serves world request)).2

/-- One way a run without interference may end, where a call may be answered in more than
one way. -/
inductive Ends (react : World → (request : Call) → World → Answer request → Prop) :
    Program Call Answer Err α → World → World → Outcome Err α → Prop where
  | ret {value world} : Ends react (.ret value) world world (.returned value)
  | fail {error world} : Ends react (.fail error) world world (.failed error)
  | panic {world} : Ends react .panic world world .panicked
  | call {request next world middle answer after outcome} (reacts : react world request middle answer)
      (rest : Ends react (next answer) middle after outcome) :
      Ends react (.call request next) world after outcome

/-- A safe program that nobody disturbs ends in its postcondition, whatever it is answered. -/
theorem Safe.ends (reflexive : ∀ world, rules.rely world world) {program : Program Call Answer Err α}
    {world after : World} {outcome : Outcome Err α} (safe : program.Safe rules post world)
    (ends : program.Ends rules.react world after outcome) : post after outcome := by
  induction ends with
  | ret | fail | panic => exact safe _ (reflexive _)
  | @call request next world middle answer after outcome reacts rest ih =>
    exact ih (safe world (reflexive world) middle answer reacts).2

theorem Ends.of_run {react : World → (request : Call) → World → Answer request → Prop}
    {serve : World → (request : Call) → World × Answer request}
    (serves : ∀ world request, react world request (serve world request).1 (serve world request).2)
    (program : Program Call Answer Err α) (world : World) :
    program.Ends react world (program.run serve world).1 (program.run serve world).2 := by
  induction program generalizing world with
  | ret value => exact .ret
  | fail error => exact .fail
  | panic => exact .panic
  | call request next ih => exact .call (serves world request) (ih _ _)

theorem Ends.of_after {react : World → (request : Call) → World → Answer request → Prop}
    {serve : World → (request : Call) → World × Answer request}
    (serves : ∀ world request, react world request (serve world request).1 (serve world request).2)
    (count : Nat) {program : Program Call Answer Err α} {world after : World} {outcome : Outcome Err α}
    (ends : (program.after serve count world).2.Ends react (program.after serve count world).1 after
      outcome) : program.Ends react world after outcome := by
  induction count generalizing program world with
  | zero => simpa using ends
  | succ count ih =>
    cases program with
    | ret | fail | panic => exact ends
    | call request next => exact .call (serves world request) (ih ends)

end Program

/-- Parties that start programs, one at a time each, against a shared world that
also changes on its own. -/
structure System (World Call : Type) (Answer : Call → Type) (Err α Party : Type) where
  react : Party → World → (request : Call) → World → Answer request → Prop
  environment : World → World → Prop
  starts : Party → Program Call Answer Err α → Prop

/-- A world and the program each party has in flight, if any. -/
structure Pool (World Call : Type) (Answer : Call → Type) (Err α Party : Type) where
  world : World
  threads : Party → Option (Program Call Answer Err α)

namespace System

variable {World Call Err α Party : Type} {Answer : Call → Type}

/-- A pool in which nothing is in flight. -/
def idle (world : World) : Pool World Call Answer Err α Party := ⟨world, fun _ => none⟩

inductive Step [DecidableEq Party] (system : System World Call Answer Err α Party) :
    Pool World Call Answer Err α Party → Pool World Call Answer Err α Party → Prop where
  | environment {world after threads} (moves : system.environment world after) :
      Step system ⟨world, threads⟩ ⟨after, threads⟩
  | start {world threads party program} (free : threads party = none)
      (begins : system.starts party program) :
      Step system ⟨world, threads⟩ ⟨world, Function.update threads party (some program)⟩
  | serve {world threads party request next after answer}
      (flight : threads party = some (.call request next))
      (reacts : system.react party world request after answer) :
      Step system ⟨world, threads⟩ ⟨after, Function.update threads party (some (next answer))⟩
  | finish {world threads party program} (flight : threads party = some program)
      (done : program.Finished) :
      Step system ⟨world, threads⟩ ⟨world, Function.update threads party none⟩

/-- The pools a run of the system can reach. -/
def Reaches [DecidableEq Party] (system : System World Call Answer Err α Party) :
    Pool World Call Answer Err α Party → Pool World Call Answer Err α Party → Prop :=
  Relation.ReflTransGen system.Step

/-- A proof outline for a system: what each party relies on, guarantees, needs
when it starts and leaves behind when it ends. -/
structure Outline (system : System World Call Answer Err α Party) where
  rely : Party → World → World → Prop
  guarantee : Party → World → Call → World → Prop
  ready : Party → World → Prop
  post : Party → World → Outcome Err α → Prop
  reflexive : ∀ party world, rely party world world
  transitive : ∀ party {first second third},
    rely party first second → rely party second third → rely party first third
  environment : ∀ party {world after}, system.environment world after → rely party world after
  others : ∀ {party other}, party ≠ other → ∀ {world request after},
    guarantee party world request after → rely other world after
  stable : ∀ party {world after}, rely party world after → ready party world → ready party after
  safe : ∀ {party program}, system.starts party program → ∀ {world}, ready party world →
    program.Safe ⟨system.react party, rely party, guarantee party⟩ (post party) world
  settles : ∀ party {world outcome}, post party world outcome → ready party world

namespace Outline

variable {system : System World Call Answer Err α Party}

/-- The rules one party plays by. -/
abbrev rules (outline : system.Outline) (party : Party) : Rules World Call Answer :=
  ⟨system.react party, outline.rely party, outline.guarantee party⟩

/-- An idle party may start; a program in flight is safe. -/
def Fits (outline : system.Outline) (party : Party) (world : World) :
    Option (Program Call Answer Err α) → Prop
  | none => outline.ready party world
  | some program => program.Safe (outline.rules party) (outline.post party) world

def Holds (outline : system.Outline) (pool : Pool World Call Answer Err α Party) : Prop :=
  ∀ party, outline.Fits party pool.world (pool.threads party)

/-- A party does not mind a step it relies on. -/
theorem Fits.later {outline : system.Outline} {party : Party} {world after : World}
    {thread : Option (Program Call Answer Err α)} (moves : outline.rely party world after)
    (fits : outline.Fits party world thread) : outline.Fits party after thread := by
  cases thread with
  | none => exact outline.stable party moves fits
  | some program => exact Program.Safe.later (outline.transitive party) fits moves

theorem Fits.ended {outline : system.Outline} {party : Party} {world : World}
    {program : Program Call Answer Err α} (done : program.Finished)
    (fits : outline.Fits party world (some program)) :
    ∃ outcome, program = outcome.toProgram ∧ outline.post party world outcome := by
  have stay := outline.reflexive party world
  cases program with
  | ret value => exact ⟨.returned value, rfl, fits world stay⟩
  | fail error => exact ⟨.failed error, rfl, fits world stay⟩
  | panic => exact ⟨.panicked, rfl, fits world stay⟩
  | call request next => exact done.elim

variable [DecidableEq Party]

theorem step {outline : system.Outline} {pool next : Pool World Call Answer Err α Party}
    (holds : outline.Holds pool) (moved : system.Step pool next) : outline.Holds next := by
  cases moved with
  | environment moves => exact fun party => (holds party).later (outline.environment party moves)
  | @start world threads party program free begins =>
    intro other
    by_cases same : other = party
    · subst same
      have ready : outline.ready other world := by simpa [Fits, free] using holds other
      simpa [Fits] using outline.safe begins ready
    · simpa [Function.update_of_ne same] using holds other
  | @serve world threads party request rest after answer flight reacts =>
    have own : outline.Fits party world (threads party) := holds party
    rw [flight] at own
    obtain ⟨kept, safe⟩ := own world (outline.reflexive party world) after answer reacts
    intro other
    by_cases same : other = party
    · subst same
      simpa [Fits] using safe
    · have moves := outline.others (Ne.symm same) kept
      simpa [Function.update_of_ne same] using (holds other).later moves
  | @finish world threads party program flight done =>
    intro other
    by_cases same : other = party
    · subst same
      have own : outline.Fits other world (threads other) := holds other
      rw [flight] at own
      obtain ⟨outcome, _, ended⟩ := own.ended done
      simpa [Fits] using outline.settles other ended
    · simpa [Function.update_of_ne same] using holds other

/-- The outline holds along every run. -/
theorem reaches {outline : system.Outline} {pool next : Pool World Call Answer Err α Party}
    (holds : outline.Holds pool) (run : system.Reaches pool next) : outline.Holds next := by
  induction run with
  | refl => exact holds
  | tail _ moved ih => exact step ih moved

/-- A preorder that holds every step of the environment and every guarantee relates the
worlds of a run. -/
theorem moves {outline : system.Outline} {pool next : Pool World Call Answer Err α Party}
    {related : World → World → Prop} (reflexive : ∀ world, related world world)
    (transitive : ∀ {first second third},
      related first second → related second third → related first third)
    (environment : ∀ {world after}, system.environment world after → related world after)
    (guarantee : ∀ {party world request after},
      outline.guarantee party world request after → related world after)
    (holds : outline.Holds pool) (run : system.Reaches pool next) :
    related pool.world next.world := by
  induction run with
  | refl => exact reflexive pool.world
  | @tail middle next before moved ih =>
    have held := reaches holds before
    refine transitive ih ?_
    cases moved with
    | environment moves => exact environment moves
    | start | finish => exact reflexive _
    | @serve world threads party request rest after answer flight reacts =>
      have own : outline.Fits party world (threads party) := held party
      rw [flight] at own
      exact guarantee (own world (outline.reflexive party world) after answer reacts).1

omit [DecidableEq Party] in
/-- Wherever a run stops, the next call of a party keeps that party's guarantee. -/
theorem guaranteed {outline : system.Outline} {pool : Pool World Call Answer Err α Party}
    (holds : outline.Holds pool) {party : Party} {request : Call}
    {next : Answer request → Program Call Answer Err α}
    (flight : pool.threads party = some (.call request next))
    {after : World} {answer : Answer request}
    (reacts : system.react party pool.world request after answer) :
    outline.guarantee party pool.world request after := by
  have own := holds party
  rw [flight] at own
  exact (own pool.world (outline.reflexive party pool.world) after answer reacts).1

end Outline

section Runs

variable [DecidableEq Party] {system : System World Call Answer Err α Party}
  {first pool : Pool World Call Answer Err α Party}
  {serve : World → (request : Call) → World × Answer request} {meets : World → Call → Prop}

theorem Reaches.moved (run : system.Reaches first pool) {after : World}
    (moves : system.environment pool.world after) : system.Reaches first ⟨after, pool.threads⟩ :=
  run.tail (.environment moves)

theorem Reaches.started (run : system.Reaches first pool) (party : Party)
    (program : Program Call Answer Err α) (free : pool.threads party = none)
    (begins : system.starts party program) :
    system.Reaches first ⟨pool.world, Function.update pool.threads party (some program)⟩ :=
  run.tail (.start free begins)

theorem Reaches.finished (run : system.Reaches first pool) (party : Party)
    {program : Program Call Answer Err α} (flight : pool.threads party = some program)
    (done : program.Finished) :
    system.Reaches first ⟨pool.world, Function.update pool.threads party none⟩ :=
  run.tail (.finish flight done)

private theorem calls_from (party : Party) (serves : ∀ world request, meets world request →
      system.react party world request (serve world request).1 (serve world request).2)
    (count : Nat) {program : Program Call Answer Err α} {world : World}
    {threads : Party → Option (Program Call Answer Err α)} (flight : threads party = some program)
    (met : program.Meets serve meets count world) :
    system.Reaches ⟨world, threads⟩
      ⟨(program.after serve count world).1,
        Function.update threads party (some (program.after serve count world).2)⟩ := by
  have stay : system.Reaches ⟨world, threads⟩
      ⟨world, Function.update threads party (some program)⟩ := by
    rw [← flight, Function.update_eq_self]
    exact .refl
  induction count generalizing program world threads with
  | zero =>
    rw [Program.after_zero]
    exact stay
  | succ count ih =>
    cases program with
    | ret | fail | panic => exact stay
    | call request next =>
      have served := Step.serve flight (serves world request met.1)
      have flies := Function.update_self party (some (next (serve world request).2)) threads
      have rest := ih flies met.2 (by rw [Function.update_idem]; exact .refl)
      rw [Function.update_idem] at rest
      exact .head served rest

theorem Reaches.after (run : system.Reaches first pool) (party : Party)
    (serves : ∀ world request, meets world request →
      system.react party world request (serve world request).1 (serve world request).2)
    (count : Nat) {program : Program Call Answer Err α} (flight : pool.threads party = some program)
    (met : program.Meets serve meets count pool.world) :
    system.Reaches first ⟨(program.after serve count pool.world).1,
      Function.update pool.threads party (some (program.after serve count pool.world).2)⟩ :=
  Relation.ReflTransGen.trans run (calls_from party serves count flight met)

theorem Reaches.calls (run : system.Reaches first pool) (party : Party)
    (serves : ∀ world request,
      system.react party world request (serve world request).1 (serve world request).2)
    (count : Nat) {program : Program Call Answer Err α} (flight : pool.threads party = some program) :
    system.Reaches first ⟨(program.after serve count pool.world).1,
      Function.update pool.threads party (some (program.after serve count pool.world).2)⟩ :=
  run.after party (fun world request (_ : True) => serves world request) count flight
    (Program.meets_of_forall serve (fun _ _ => trivial) count program pool.world)

end Runs

end System

end Configurator
