import Configurator.Library.Interference
import Mathlib.Data.Set.Basic

/-! Programs that act only on what they have been told. An answer tells facts, a call needs
some of them, and a program is informed when it never makes a call without the facts that
the call needs. -/
namespace Configurator

/-- What answers tell, and which calls the known facts allow. -/
structure Evidence (Call : Type) (Answer : Call → Type) (Fact : Type) where
  tells : (request : Call) → Answer request → Set Fact
  allows : Set Fact → Call → Prop
  mono : ∀ {known more request}, known ⊆ more → allows known request → allows more request

namespace Program

variable {World Call Err Fact α β : Type} {Answer : Call → Type}

/-- Whatever it is answered, the program makes only calls that the facts known so far allow,
and it returns values that meet `post` together with these facts. -/
def Informed (evidence : Evidence Call Answer Fact) (post : Set Fact → α → Prop) :
    Program Call Answer Err α → Set Fact → Prop
  | .ret value, known => post known value
  | .call request next, known => evidence.allows known request ∧
      ∀ answer, (next answer).Informed evidence post (known ∪ evidence.tells request answer)
  | _, _ => True

namespace Informed

variable {evidence : Evidence Call Answer Fact} {post : Set Fact → α → Prop}
  {program : Program Call Answer Err α} {known : Set Fact}

theorem bind {final : Set Fact → β → Prop} {next : α → Program Call Answer Err β}
    (informed : program.Informed evidence post known)
    (continues : ∀ value more, known ⊆ more → post more value →
      (next value).Informed evidence final more) :
    (program >>= next).Informed evidence final known := by
  induction program generalizing known with
  | ret value => exact continues value known (Set.Subset.refl known) informed
  | fail | panic => trivial
  | call request rest ih =>
    refine ⟨informed.1, fun answer => ih answer (informed.2 answer) ?_⟩
    intro value more contains
    exact continues value more (Set.subset_union_left.trans contains)

theorem call {request : Call} {next : Answer request → Program Call Answer Err α}
    (allowed : evidence.allows known request)
    (continues : ∀ answer more, known ⊆ more → evidence.tells request answer ⊆ more →
      (next answer).Informed evidence post more) :
    (Program.call request next).Informed evidence post known :=
  ⟨allowed, fun answer => continues answer _ Set.subset_union_left Set.subset_union_right⟩

theorem ofExcept {value : Except Err α} (returns : ∀ result, value = .ok result → post known result) :
    (Program.ofExcept value : Program Call Answer Err α).Informed evidence post known := by
  cases value with
  | error error => trivial
  | ok result => exact returns result rfl

theorem attempt (informed : program.Informed evidence (fun _ _ => True) known) :
    program.attempt.Informed evidence (fun _ _ => True) known := by
  induction program generalizing known with
  | ret | fail | panic => trivial
  | call request next ih => exact ⟨informed.1, fun answer => ih answer (informed.2 answer)⟩

/-- Of what an attempt brings back, the value is one that meets the postcondition. -/
theorem attempted (informed : program.Informed evidence post known) :
    program.attempt.Informed evidence (fun more answer => ∀ value, answer = .ok value → post more value) known := by
  induction program generalizing known with
  | ret value =>
    intro result same
    cases same
    exact informed
  | fail error =>
    intro result impossible
    cases impossible
  | panic => trivial
  | call request next ih => exact ⟨informed.1, fun answer => ih answer (informed.2 answer)⟩

theorem weaken {final : Set Fact → α → Prop} (informed : program.Informed evidence post known)
    (weaker : ∀ value more, known ⊆ more → post more value → final more value) :
    program.Informed evidence final known := by
  induction program generalizing known with
  | ret value => exact weaker value known (Set.Subset.refl known) informed
  | fail | panic => trivial
  | call request next ih =>
    refine ⟨informed.1, fun answer => ih answer (informed.2 answer) fun value more within => ?_⟩
    exact weaker value more (Set.subset_union_left.trans within)

theorem of_emits {sort : Call → Prop} (emits : program.Emits sort)
    (allowed : ∀ request known, sort request → evidence.allows known request) :
    program.Informed evidence (fun _ _ => True) known := by
  induction program generalizing known with
  | ret | fail | panic => trivial
  | call request next ih =>
    exact ⟨allowed request known emits.1, fun answer => ih answer (emits.2 answer)⟩

/-- An informed program is safe where every fact stays true and every allowed call keeps the
guarantee as long as the known facts are true. -/
theorem safe {rules : Rules World Call Answer} {holds : World → Prop}
    (informed : program.Informed evidence post known) (trueOf : Fact → World → Prop)
    (stable : ∀ {before after}, rules.rely before after → holds before → holds after)
    (lasting : ∀ {before after fact}, rules.rely before after → holds before → trueOf fact before →
      trueOf fact after)
    (step : ∀ known before request after answer, holds before → (∀ fact ∈ known, trueOf fact before) →
      evidence.allows known request → rules.react before request after answer →
        rules.guarantee before request after ∧ holds after ∧
          ∀ fact ∈ known ∪ evidence.tells request answer, trueOf fact after)
    {world : World} (held : holds world)
    (true_known : ∀ fact ∈ known, trueOf fact world) :
    program.Safe rules (fun after _ => holds after) world := by
  induction program generalizing known world with
  | ret | fail | panic => exact fun later moves => stable moves held
  | call request next ih =>
    intro later moves after answer reacts
    have still : ∀ fact ∈ known, trueOf fact later :=
      fun fact member => lasting moves held (true_known fact member)
    obtain ⟨kept, holdsAfter, learned⟩ := step known later request after answer (stable moves held) still
      informed.1 reacts
    exact ⟨kept, ih answer (informed.2 answer) holdsAfter learned⟩

end Informed

end Program

end Configurator
