import Mathlib.Logic.Relation

/-!
# Programs of atomic calls

A program issues calls one at a time and continues with each reply.  A call is
one step that nothing can interrupt, such as one committed transaction or one
system call; everything else a program does is local.  Programs are given three
meanings in this library: run alone against a total handler, cut short between
any two calls, and interleaved with other programs.
-/

namespace Effects

/-- Programs over the calls `Call` with replies `Reply`, errors `ε` and results
in `α`.  `spin` is a loop that used up its iteration budget. -/
inductive Program (Call : Type) (Reply : Call → Type) (ε α : Type) : Type
  | done (value : α)
  | fail (error : ε)
  | spin
  | call
      (request : Call)
      (next : Except ε (Reply request) → Program Call Reply ε α)

/-- How a program that ran alone ended. -/
inductive Outcome (ε α : Type) : Type
  | done (value : α)
  | failed (error : ε)
  | running
  deriving DecidableEq, Repr

/-- A handler answers a call in a world, or makes the caller wait. -/
abbrev Handler (Call : Type) (Reply : Call → Type) (ε World : Type) : Type :=
  (request : Call) → World → Option (Except ε (Reply request) × World)

/-- The replies and next worlds that a call may lead to. -/
abbrev Answers (Call : Type) (Reply : Call → Type) (ε World : Type) : Type :=
  (request : Call) → World → Except ε (Reply request) → World → Prop

/-- The answers of a handler that never fails on its own. -/
def Handler.answers
    (handler : Handler Call Reply ε World) : Answers Call Reply ε World :=
  fun request before reply after =>
    handler request before = some (reply, after)

/-- One answered call. -/
structure Event (Call : Type) (Reply : Call → Type) (ε World : Type) where
  before : World
  request : Call
  reply : Except ε (Reply request)
  after : World

namespace Program

/-- Continue a program with another one on its result. -/
def bind
    (first : Program Call Reply ε α)
    (next : α → Program Call Reply ε β) : Program Call Reply ε β :=
  match first with
  | .done value => next value
  | .fail error => .fail error
  | .spin => .spin
  | .call request rest => .call request fun reply => (rest reply).bind next

instance : Monad (Program Call Reply ε) where
  pure := .done
  bind := bind

@[simp] theorem pure_eq (value : α) :
    (pure value : Program Call Reply ε α) = .done value := rfl

@[simp] theorem done_bind
    (value : α)
    (next : α → Program Call Reply ε β) :
    ((.done value : Program Call Reply ε α) >>= next) = next value := rfl

@[simp] theorem fail_bind
    (error : ε)
    (next : α → Program Call Reply ε β) :
    ((.fail error : Program Call Reply ε α) >>= next) = .fail error := rfl

@[simp] theorem spin_bind
    (next : α → Program Call Reply ε β) :
    ((.spin : Program Call Reply ε α) >>= next) = .spin := rfl

@[simp] theorem call_bind
    (request : Call)
    (rest : Except ε (Reply request) → Program Call Reply ε α)
    (next : α → Program Call Reply ε β) :
    (Program.call request rest >>= next) =
      .call request fun reply => rest reply >>= next := rfl

theorem bind_assoc
    (first : Program Call Reply ε α)
    (second : α → Program Call Reply ε β)
    (third : β → Program Call Reply ε γ) :
    (first >>= second) >>= third =
      first >>= fun value => second value >>= third := by
  induction first with
  | done value => rfl
  | fail error => rfl
  | spin => rfl
  | call request rest inductionHypothesis =>
      simp only [call_bind, inductionHypothesis]

/-- Issue one call and hand its reply, error or not, to the caller. -/
def attempt
    (request : Call) :
    Program Call Reply ε (Except ε (Reply request)) :=
  .call request .done

/-- Turn a result into a program that fails with its error. -/
def ofExcept : Except ε α → Program Call Reply ε α
  | .ok value => .done value
  | .error error => .fail error

@[simp] theorem ofExcept_ok (value : α) :
    (ofExcept (.ok value) : Program Call Reply ε α) = .done value := rfl

@[simp] theorem ofExcept_error (error : ε) :
    (ofExcept (.error error) : Program Call Reply ε α) = .fail error := rfl

/-- Issue one call and fail with its error. -/
def perform (request : Call) : Program Call Reply ε (Reply request) :=
  .call request ofExcept

/-- Handle the error of a program. -/
def catchError
    (body : Program Call Reply ε α)
    (handle : ε → Program Call Reply ε α) : Program Call Reply ε α :=
  match body with
  | .done value => .done value
  | .fail error => handle error
  | .spin => .spin
  | .call request rest => .call request fun reply =>
      (rest reply).catchError handle

/-- Hand the result of a program, error or not, to the caller. -/
def toExcept
    (body : Program Call Reply ε α) : Program Call Reply ε (Except ε α) :=
  match body with
  | .done value => .done (.ok value)
  | .fail error => .done (.error error)
  | .spin => .spin
  | .call request rest => .call request fun reply => (rest reply).toExcept

/-- Run `release` after a program, whether it returns or fails. -/
def ensuring
    (body : Program Call Reply ε α)
    (release : Program Call Reply ε Unit) : Program Call Reply ε α :=
  match body with
  | .done value => release >>= fun _ => .done value
  | .fail error => release >>= fun _ => .fail error
  | .spin => .spin
  | .call request rest => .call request fun reply =>
      (rest reply).ensuring release

/-! ## Running alone -/

/-- Run a program against a handler until it ends or waits for ever. -/
def run
    (handler : Handler Call Reply ε World) :
    Program Call Reply ε α → World → Outcome ε α × World
  | .done value, world => (.done value, world)
  | .fail error, world => (.failed error, world)
  | .spin, world => (.running, world)
  | .call request next, world =>
      match handler request world with
      | none => (.running, world)
      | some (reply, after) => (next reply).run handler after

@[simp] theorem run_done
    (handler : Handler Call Reply ε World)
    (value : α) (world : World) :
    (.done value : Program Call Reply ε α).run handler world =
      (.done value, world) := rfl

@[simp] theorem run_fail
    (handler : Handler Call Reply ε World)
    (error : ε) (world : World) :
    (.fail error : Program Call Reply ε α).run handler world =
      (.failed error, world) := rfl

@[simp] theorem run_spin
    (handler : Handler Call Reply ε World)
    (world : World) :
    (.spin : Program Call Reply ε α).run handler world =
      (.running, world) := rfl

theorem run_call
    {handler : Handler Call Reply ε World}
    {request : Call} {world after : World}
    {reply : Except ε (Reply request)}
    (answered : handler request world = some (reply, after))
    (next : Except ε (Reply request) → Program Call Reply ε α) :
    (Program.call request next).run handler world =
      (next reply).run handler after := by
  simp only [run, answered]

/-- Running a composition runs the first program and, if it returns, the
second one from the world it left. -/
theorem run_bind
    (handler : Handler Call Reply ε World)
    (first : Program Call Reply ε α)
    (next : α → Program Call Reply ε β)
    (world : World) :
    (first >>= next).run handler world =
      match first.run handler world with
      | (.done value, after) => (next value).run handler after
      | (.failed error, after) => (.failed error, after)
      | (.running, after) => (.running, after) := by
  induction first generalizing world with
  | done value => rfl
  | fail error => rfl
  | spin => rfl
  | call request rest inductionHypothesis =>
      simp only [call_bind, run]
      cases handler request world with
      | none => rfl
      | some answer => exact inductionHypothesis answer.1 answer.2

theorem run_bind_done
    {handler : Handler Call Reply ε World}
    {first : Program Call Reply ε α}
    {world after : World} {value : α}
    (ends : first.run handler world = (.done value, after))
    (next : α → Program Call Reply ε β) :
    (first >>= next).run handler world = (next value).run handler after := by
  rw [run_bind, ends]

/-- A composition that returns did so through its first program. -/
theorem run_bind_eq_done
    {handler : Handler Call Reply ε World}
    {first : Program Call Reply ε α}
    {next : α → Program Call Reply ε β}
    {world final : World} {value : β}
    (ends : (first >>= next).run handler world = (.done value, final)) :
    ∃ middle between,
      first.run handler world = (.done middle, between) ∧
      (next middle).run handler between = (.done value, final) := by
  rw [run_bind] at ends
  match firstEnds : first.run handler world with
  | (.done middle, between) =>
      rw [firstEnds] at ends
      exact ⟨middle, between, rfl, ends⟩
  | (.failed error, between) =>
      rw [firstEnds] at ends
      simp at ends
  | (.running, between) =>
      rw [firstEnds] at ends
      simp at ends

/-- Returning another value makes no difference to the world. -/
theorem run_bind_done_world
    (handler : Handler Call Reply ε World)
    (first : Program Call Reply ε α)
    (result : α → β)
    (world : World) :
    ((first >>= fun value => .done (result value)).run handler world).2 =
      (first.run handler world).2 := by
  rw [run_bind]
  split <;> simp_all

theorem run_perform
    {handler : Handler Call Reply ε World}
    {request : Call} {world after : World} {reply : Reply request}
    (answered : handler request world = some (.ok reply, after)) :
    (perform request : Program Call Reply ε _).run handler world =
      (.done reply, after) :=
  run_call answered ofExcept

/-- A release runs where the body returned or failed. -/
theorem run_ensuring
    (handler : Handler Call Reply ε World)
    (body : Program Call Reply ε α)
    (release : Program Call Reply ε Unit)
    (world : World) :
    (body.ensuring release).run handler world =
      match body.run handler world with
      | (.done value, after) =>
          (release >>= fun _ => .done value).run handler after
      | (.failed error, after) =>
          (release >>= fun _ => .fail error).run handler after
      | (.running, after) => (.running, after) := by
  induction body generalizing world with
  | done value => rfl
  | fail error => rfl
  | spin => rfl
  | call request rest inductionHypothesis =>
      simp only [ensuring, run]
      cases handler request world with
      | none => rfl
      | some answer => exact inductionHypothesis answer.1 answer.2

/-- A handled program ends like its body, or like the handler of its error. -/
theorem run_catchError
    (handler : Handler Call Reply ε World)
    (body : Program Call Reply ε α)
    (handle : ε → Program Call Reply ε α)
    (world : World) :
    (body.catchError handle).run handler world =
      match body.run handler world with
      | (.done value, after) => (.done value, after)
      | (.failed error, after) => (handle error).run handler after
      | (.running, after) => (.running, after) := by
  induction body generalizing world with
  | done value => rfl
  | fail error => rfl
  | spin => rfl
  | call request rest inductionHypothesis =>
      simp only [catchError, run]
      cases handler request world with
      | none => rfl
      | some answer => exact inductionHypothesis answer.1 answer.2

/-- Handing an error to the caller makes no difference to the world. -/
theorem run_toExcept
    (handler : Handler Call Reply ε World)
    (body : Program Call Reply ε α)
    (world : World) :
    body.toExcept.run handler world =
      match body.run handler world with
      | (.done value, after) => (.done (.ok value), after)
      | (.failed error, after) => (.done (.error error), after)
      | (.running, after) => (.running, after) := by
  induction body generalizing world with
  | done value => rfl
  | fail error => rfl
  | spin => rfl
  | call request rest inductionHypothesis =>
      simp only [toExcept, run]
      cases handler request world with
      | none => rfl
      | some answer => exact inductionHypothesis answer.1 answer.2

/-- The calls a program makes when it runs alone, in order. -/
def trace
    (handler : Handler Call Reply ε World) :
    Program Call Reply ε α → World → List (Event Call Reply ε World)
  | .done _, _ => []
  | .fail _, _ => []
  | .spin, _ => []
  | .call request next, world =>
      match handler request world with
      | none => []
      | some (reply, after) =>
          ⟨world, request, reply, after⟩ :: (next reply).trace handler after

/-- The calls of a composition are those of its first program followed, if that
returns, by those of the second. -/
theorem trace_bind
    (handler : Handler Call Reply ε World)
    (first : Program Call Reply ε α)
    (next : α → Program Call Reply ε β)
    (world : World) :
    (first >>= next).trace handler world =
      first.trace handler world ++
        match first.run handler world with
        | (.done value, after) => (next value).trace handler after
        | _ => [] := by
  induction first generalizing world with
  | done value => rfl
  | fail error => rfl
  | spin => rfl
  | call request rest inductionHypothesis =>
      simp only [call_bind, trace, run]
      cases handler request world with
      | none => rfl
      | some answer =>
          simp only [inductionHypothesis, List.cons_append]

theorem trace_bind_done
    {handler : Handler Call Reply ε World}
    {first : Program Call Reply ε α}
    {world after : World} {value : α}
    (ends : first.run handler world = (.done value, after))
    (next : α → Program Call Reply ε β) :
    (first >>= next).trace handler world =
      first.trace handler world ++ (next value).trace handler after := by
  rw [trace_bind, ends]

/-- A release adds its calls behind those of the body. -/
theorem trace_ensuring
    (handler : Handler Call Reply ε World)
    (body : Program Call Reply ε α)
    (release : Program Call Reply ε Unit)
    (world : World) :
    body.trace handler world <+:
      (body.ensuring release).trace handler world := by
  induction body generalizing world with
  | done value => exact List.nil_prefix
  | fail error => exact List.nil_prefix
  | spin => exact List.nil_prefix
  | call request rest inductionHypothesis =>
      simp only [ensuring, trace]
      cases handler request world with
      | none => exact List.nil_prefix
      | some answer =>
          rw [List.prefix_cons_inj]
          exact inductionHypothesis answer.1 answer.2

theorem trace_perform
    {handler : Handler Call Reply ε World}
    {request : Call} {world after : World} {reply : Reply request}
    (answered : handler request world = some (.ok reply, after)) :
    (perform request : Program Call Reply ε _).trace handler world =
      [⟨world, request, .ok reply, after⟩] := by
  simp only [perform, trace, answered, ofExcept_ok]

/-! ## Being cut short -/

/-- A program started in one world may be abandoned in another one. -/
inductive Cut
    (answers : Answers Call Reply ε World) :
    Program Call Reply ε α → World → World → Prop
  | here
      (program : Program Call Reply ε α) (world : World) :
      Cut answers program world world
  | step
      {request : Call}
      {next : Except ε (Reply request) → Program Call Reply ε α}
      {world after final : World} {reply : Except ε (Reply request)}
      (answered : answers request world reply after)
      (rest : Cut answers (next reply) after final) :
      Cut answers (.call request next) world final

/-- Where a program run alone ends is one of the places it may be cut. -/
theorem cut_run
    {handler : Handler Call Reply ε World}
    {answers : Answers Call Reply ε World}
    (contained : ∀ request before reply after,
      handler request before = some (reply, after) →
        answers request before reply after)
    (program : Program Call Reply ε α)
    (world : World) :
    Cut answers program world (program.run handler world).2 := by
  induction program generalizing world with
  | done value => exact .here _ _
  | fail error => exact .here _ _
  | spin => exact .here _ _
  | call request next inductionHypothesis =>
      simp only [run]
      cases answered : handler request world with
      | none => exact .here _ _
      | some answer =>
          exact .step (contained _ _ _ _ answered)
            (inductionHypothesis answer.1 answer.2)

/-- The world after at most so many calls of a program that runs alone. -/
def runFor
    (handler : Handler Call Reply ε World) :
    Nat → Program Call Reply ε α → World → World
  | calls + 1, .call request next, world =>
      match handler request world with
      | none => world
      | some (reply, after) => (next reply).runFor handler calls after
  | _, _, world => world

theorem cut_runFor
    {handler : Handler Call Reply ε World}
    {answers : Answers Call Reply ε World}
    (contained : ∀ request before reply after,
      handler request before = some (reply, after) →
        answers request before reply after)
    (calls : Nat)
    (program : Program Call Reply ε α)
    (world : World) :
    Cut answers program world (program.runFor handler calls world) := by
  induction calls generalizing program world with
  | zero => exact .here _ _
  | succ calls inductionHypothesis =>
      cases program with
      | done value => exact .here _ _
      | fail error => exact .here _ _
      | spin => exact .here _ _
      | call request next =>
          simp only [runFor]
          cases answered : handler request world with
          | none => exact .here _ _
          | some answer =>
              exact .step (contained _ _ _ _ answered)
                (inductionHypothesis (next answer.1) answer.2)

end Program

end Effects
