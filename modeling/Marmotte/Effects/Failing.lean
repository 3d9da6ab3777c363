import Marmotte.Effects.Uses

/-!
# Failing one call

A handler that fails one call of a kind, the one that a countdown reaches, and
answers every other call as before.  Running a program against it for every
countdown is running it with a failure at every point.
-/

namespace Effects

/-- Fail the counted call that the countdown points to. -/
def Handler.failing
    (handler : Handler Call Reply ε World) (counts : Call → Bool)
    (failure : ε) : Handler Call Reply ε (World × Option Nat) :=
  fun request state =>
    match counts request, state.2 with
    | true, some 0 => some (.error failure, (state.1, none))
    | true, countdown =>
        (handler request state.1).map fun answer =>
          (answer.1, (answer.2, countdown.map Nat.pred))
    | false, countdown =>
        (handler request state.1).map fun answer =>
          (answer.1, (answer.2, countdown))

namespace Program

section Failing

variable {handler : Handler Call Reply ε World} {counts : Call → Bool}
variable {failure : ε} {request : Call} {world after : World}

/-- The call that the countdown points to has no effect. -/
theorem failing_struck (counted : counts request = true) :
    handler.failing counts failure request (world, some 0) =
      some (.error failure, (world, none)) := by
  simp only [Handler.failing, counted]

/-- Every other counted call is answered as before. -/
theorem failing_spared
    {reply : Except ε (Reply request)} {countdown : Option Nat}
    (counted : counts request = true) (spared : countdown ≠ some 0)
    (answered : handler request world = some (reply, after)) :
    handler.failing counts failure request (world, countdown) =
      some (reply, (after, countdown.map Nat.pred)) := by
  match countdown with
  | none => simp [Handler.failing, counted, answered]
  | some 0 => exact absurd rfl spared
  | some (count + 1) => simp [Handler.failing, counted, answered]

/-- A program without counted calls runs as before. -/
theorem run_failing_of_uses
    {program : Program Call Reply ε α} {post : α → Prop}
    (uses : program.Uses (fun request => counts request = false) post)
    (world : World) (countdown : Option Nat) :
    program.run (handler.failing counts failure) (world, countdown) =
      ((program.run handler world).1,
        ((program.run handler world).2, countdown)) := by
  induction program generalizing world with
  | done value => rfl
  | fail error => rfl
  | spin => rfl
  | call request next inductionHypothesis =>
      have uncounted : counts request = false := uses.1
      cases answered : handler request world with
      | none => simp [run, Handler.failing, uncounted, answered]
      | some answer =>
          have failing : handler.failing counts failure request
              (world, countdown) =
                some (answer.1, (answer.2, countdown)) := by
            simp [Handler.failing, uncounted, answered]
          rw [run_call failing, run_call answered]
          exact inductionHypothesis answer.1 (uses.2 answer.1) answer.2

end Failing

end Program

end Effects
