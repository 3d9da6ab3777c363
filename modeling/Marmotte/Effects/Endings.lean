import Marmotte.Effects.Uses

/-!
# How a call of a program ends

A call of a program returns, fails, or is dropped by its caller, at any point
between two of its own calls.  A run is the list of the calls that it made,
each with the answer that it got.
-/

namespace Effects

/-- How a call of a program ended. -/
inductive Ending (ε α : Type) : Type
  | returned (value : α)
  | failed (error : ε)
  | dropped

/-- A program that waits for ever is dropped in the end. -/
def Ending.ofOutcome : Outcome ε α → Ending ε α
  | .done value => .returned value
  | .failed error => .failed error
  | .running => .dropped

namespace Program

/-- The program was called in one world, made these calls, and ended so in
another one. -/
inductive Ends
    (answers : Answers Call Reply ε World) :
    Program Call Reply ε α → World → List (Event Call Reply ε World) →
      Ending ε α → World → Prop
  | returned
      (value : α) (world : World) :
      Ends answers (.done value) world [] (.returned value) world
  | failed
      (error : ε) (world : World) :
      Ends answers (.fail error) world [] (.failed error) world
  | dropped
      (program : Program Call Reply ε α) (world : World) :
      Ends answers program world [] .dropped world
  | step
      {request : Call}
      {next : Except ε (Reply request) → Program Call Reply ε α}
      {world after final : World} {reply : Except ε (Reply request)}
      {events : List (Event Call Reply ε World)} {ending : Ending ε α}
      (answered : answers request world reply after)
      (rest : Ends answers (next reply) after events ending final) :
      Ends answers (.call request next) world
        (⟨world, request, reply, after⟩ :: events) ending final

namespace Ends

section Rules

variable {answers : Answers Call Reply ε World} {world final : World}
variable {events : List (Event Call Reply ε World)}

/-- A composition ends in its first program, or in the second one after the
first one returned. -/
theorem bind
    {first : Program Call Reply ε α} {next : α → Program Call Reply ε β}
    {ending : Ending ε β}
    (ran : Ends answers (first >>= next) world events ending final) :
    (∃ value middle before after,
      Ends answers first world before (.returned value) middle ∧
      Ends answers (next value) middle after ending final ∧
      events = before ++ after) ∨
    (∃ error, ending = .failed error ∧
      Ends answers first world events (.failed error) final) ∨
    (ending = .dropped ∧ Ends answers first world events .dropped final) := by
  induction first generalizing world events with
  | done value => exact .inl ⟨value, world, [], events, .returned _ _, ran, rfl⟩
  | fail error =>
      cases ran with
      | failed => exact .inr (.inl ⟨error, rfl, .failed _ _⟩)
      | dropped => exact .inr (.inr ⟨rfl, .dropped _ _⟩)
  | spin =>
      cases ran with
      | dropped => exact .inr (.inr ⟨rfl, .dropped _ _⟩)
  | call request rest inductionHypothesis =>
      cases ran with
      | dropped => exact .inr (.inr ⟨rfl, .dropped _ _⟩)
      | step answered later =>
          rcases inductionHypothesis _ later with
            ⟨value, middle, before, after, ran, goesOn, rfl⟩ |
            ⟨error, rfl, ran⟩ | ⟨rfl, ran⟩
          · exact .inl ⟨value, middle, _ :: before, after,
              .step answered ran, goesOn, rfl⟩
          · exact .inr (.inl ⟨error, rfl, .step answered ran⟩)
          · exact .inr (.inr ⟨rfl, .step answered ran⟩)

/-- A call that is performed before the rest of a program is dropped, fails, or
is answered. -/
theorem perform_bind
    {request : Call} {next : Reply request → Program Call Reply ε α}
    {ending : Ending ε α}
    (ran : Ends answers (perform request >>= next) world events ending
      final) :
    (events = [] ∧ ending = .dropped ∧ final = world) ∨
    (∃ error, answers request world (.error error) final ∧
      events = [⟨world, request, .error error, final⟩] ∧
      (ending = .failed error ∨ ending = .dropped)) ∨
    ∃ value middle later, answers request world (.ok value) middle ∧
      events = ⟨world, request, .ok value, middle⟩ :: later ∧
      Ends answers (next value) middle later ending final := by
  cases ran with
  | dropped => exact .inl ⟨rfl, rfl, rfl⟩
  | @step _ _ _ middle _ reply later _ answered rest =>
      cases reply with
      | ok value => exact .inr (.inr ⟨value, middle, later, answered, rfl, rest⟩)
      | error error =>
          cases rest with
          | failed => exact .inr (.inl ⟨error, answered, rfl, .inl rfl⟩)
          | dropped => exact .inr (.inl ⟨error, answered, rfl, .inr rfl⟩)

/-- What the calls that a program uses preserve, a run of it preserves. -/
theorem keeps
    {calls : Call → Prop} {post : α → Prop} {invariant : World → Prop}
    {program : Program Call Reply ε α} {ending : Ending ε α}
    (kept : ∀ request before reply after, calls request →
      answers request before reply after → invariant before →
        invariant after)
    (uses : program.Uses calls post)
    (ran : Ends answers program world events ending final)
    (holds : invariant world) :
    invariant final ∧ (∀ event ∈ events, calls event.request) ∧
      ∀ value, ending = .returned value → post value := by
  induction ran with
  | returned value world =>
      refine ⟨holds, fun _ among => absurd among List.not_mem_nil, ?_⟩
      rintro _ ⟨⟩
      exact uses
  | failed error world =>
      refine ⟨holds, fun _ among => absurd among List.not_mem_nil, ?_⟩
      rintro _ ⟨⟩
  | dropped program world =>
      refine ⟨holds, fun _ among => absurd among List.not_mem_nil, ?_⟩
      rintro _ ⟨⟩
  | step answered rest inductionHypothesis =>
      obtain ⟨last, made, returned⟩ := inductionHypothesis (uses.2 _)
        (kept _ _ _ _ uses.1 answered holds)
      refine ⟨last, ?_, returned⟩
      intro event among
      rcases List.mem_cons.mp among with rfl | among
      · exact uses.1
      · exact made event among

/-- Whoever is dropped after its last call has made the same calls. -/
theorem interrupt
    {program : Program Call Reply ε α} {ending : Ending ε α}
    (ran : Ends answers program world events ending final) :
    Ends answers program world events .dropped final := by
  induction ran with
  | returned | failed | dropped => exact .dropped _ _
  | step answered _ inductionHypothesis => exact .step answered inductionHypothesis

/-- A program that ran alone ended so. -/
theorem of_run
    {handler : Handler Call Reply ε World}
    (contained : ∀ request before reply after,
      handler request before = some (reply, after) →
        answers request before reply after)
    (program : Program Call Reply ε α) (world : World) :
    Ends answers program world (program.trace handler world)
      (.ofOutcome (program.run handler world).1)
      (program.run handler world).2 := by
  induction program generalizing world with
  | done value => exact .returned _ _
  | fail error => exact .failed _ _
  | spin => exact .dropped _ _
  | call request next inductionHypothesis =>
      simp only [run, trace]
      cases answered : handler request world with
      | none => exact .dropped _ _
      | some answer =>
          exact .step (contained _ _ _ _ answered)
            (inductionHypothesis answer.1 answer.2)

end Rules

end Ends

end Program

end Effects
