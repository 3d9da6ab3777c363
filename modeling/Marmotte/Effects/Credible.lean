import Marmotte.Effects.Rely

/-!
# Programs that succeed on credible replies

A protocol says which calls a record permits; here it also says which replies
are credible at a record.  A program succeeds when it returns on all credible
replies.  In a pool whose records are true of the world the replies are
credible, and so none of its threads ever fails.
-/

namespace Effects

/-- The replies that a record makes credible. -/
abbrev Credible
    (Call : Type) (Reply : Call → Type) (ε Local : Type) : Type :=
  Local → (request : Call) → Except ε (Reply request) → Prop

namespace Program

/-- Every call of the program is permitted, and on credible replies the
program returns; `post` holds of what it returns and of the record then. -/
def Succeeds
    (protocol : Protocol Call Reply ε Local)
    (credible : Credible Call Reply ε Local)
    (post : α → Local → Prop) :
    Program Call Reply ε α → Local → Prop
  | .done value, record => post value record
  | .fail _, _ => False
  | .spin, _ => False
  | .call request next, record =>
      protocol.permits record request ∧
        ∀ reply, credible record request reply →
          (next reply).Succeeds protocol credible post
            (protocol.advance record request reply)

/-- Run a program for so many calls at most, and forget it. -/
def abandon : Nat → Program Call Reply ε α → Program Call Reply ε Unit
  | calls + 1, .call request next =>
      .call request fun reply => (next reply).abandon calls
  | _, _ => .done ()

section Rules

variable {protocol : Protocol Call Reply ε Local}
variable {credible : Credible Call Reply ε Local}

theorem Succeeds.mono
    {program : Program Call Reply ε α} {post weaker : α → Local → Prop}
    {record : Local}
    (succeeds : program.Succeeds protocol credible post record)
    (weakens : ∀ value record, post value record → weaker value record) :
    program.Succeeds protocol credible weaker record := by
  induction program generalizing record with
  | done value => exact weakens _ _ succeeds
  | fail error => exact succeeds
  | spin => exact succeeds
  | call request next inductionHypothesis =>
      exact ⟨succeeds.1, fun reply possible =>
        inductionHypothesis reply (succeeds.2 reply possible)⟩

/-- The rule for sequencing. -/
theorem Succeeds.bind
    {first : Program Call Reply ε α} {next : α → Program Call Reply ε β}
    {middle : α → Local → Prop} {post : β → Local → Prop} {record : Local}
    (succeeds : first.Succeeds protocol credible middle record)
    (rest : ∀ value record, middle value record →
      (next value).Succeeds protocol credible post record) :
    (first >>= next).Succeeds protocol credible post record := by
  induction first generalizing record with
  | done value => exact rest _ _ succeeds
  | fail error => exact succeeds.elim
  | spin => exact succeeds.elim
  | call request continuation inductionHypothesis =>
      exact ⟨succeeds.1, fun reply possible =>
        inductionHypothesis reply (succeeds.2 reply possible)⟩

/-- The rule for one call that is not refused. -/
theorem succeeds_perform
    {request : Call} {post : Reply request → Local → Prop} {record : Local}
    (permitted : protocol.permits record request)
    (accepted : ∀ reply, credible record request reply →
      ∃ value, reply = .ok value ∧
        post value (protocol.advance record request (.ok value))) :
    (perform request : Program Call Reply ε _).Succeeds protocol credible post
      record := by
  refine ⟨permitted, fun reply possible => ?_⟩
  obtain ⟨value, rfl, known⟩ := accepted reply possible
  exact known

/-- The rule for a call that is not refused. -/
theorem succeeds_perform_bind
    {request : Call} {next : Reply request → Program Call Reply ε α}
    {post : α → Local → Prop} {record : Local}
    (permitted : protocol.permits record request)
    (accepted : ∀ reply, credible record request reply →
      ∃ value, reply = .ok value)
    (rest : ∀ value, credible record request (.ok value) →
      (next value).Succeeds protocol credible post
        (protocol.advance record request (.ok value))) :
    (perform request >>= next).Succeeds protocol credible post record := by
  refine ⟨permitted, fun reply possible => ?_⟩
  obtain ⟨value, rfl⟩ := accepted reply possible
  exact rest value possible

theorem Succeeds.catchError
    {body : Program Call Reply ε α} {handle : ε → Program Call Reply ε α}
    {post : α → Local → Prop} {record : Local}
    (succeeds : body.Succeeds protocol credible post record) :
    (body.catchError handle).Succeeds protocol credible post record := by
  induction body generalizing record with
  | done value => exact succeeds
  | fail error => exact succeeds.elim
  | spin => exact succeeds.elim
  | call request next inductionHypothesis =>
      exact ⟨succeeds.1, fun reply possible =>
        inductionHypothesis reply (succeeds.2 reply possible)⟩

theorem Succeeds.toExcept
    {body : Program Call Reply ε α} {post : α → Local → Prop}
    {record : Local}
    (succeeds : body.Succeeds protocol credible post record) :
    body.toExcept.Succeeds protocol credible
      (fun result record => ∃ value, result = .ok value ∧ post value record)
      record := by
  induction body generalizing record with
  | done value => exact ⟨value, rfl, succeeds⟩
  | fail error => exact succeeds.elim
  | spin => exact succeeds.elim
  | call request next inductionHypothesis =>
      exact ⟨succeeds.1, fun reply possible =>
        inductionHypothesis reply (succeeds.2 reply possible)⟩

/-- A program that is abandoned leaves what every credible reply keeps. -/
theorem Succeeds.abandon
    {program : Program Call Reply ε α} {post : α → Local → Prop}
    {holds : Local → Prop} {record : Local}
    (succeeds : program.Succeeds protocol credible post record)
    (kept : ∀ record request reply, holds record →
      holds (protocol.advance record request reply))
    (initially : holds record) (calls : Nat) :
    (program.abandon calls).Succeeds protocol credible
      (fun _ => holds) record := by
  induction calls generalizing program record with
  | zero => exact initially
  | succ calls inductionHypothesis =>
      cases program with
      | done value => exact initially
      | fail error => exact initially
      | spin => exact initially
      | call request next =>
          exact ⟨succeeds.1, fun reply possible =>
            inductionHypothesis (succeeds.2 reply possible)
              (kept _ _ _ initially)⟩

end Rules

end Program

namespace Pool

section Succeeding

variable {ι Call : Type} {Reply : Call → Type} {ε α World Local : Type}
variable [DecidableEq ι]
variable {protocol : Protocol Call Reply ε Local}
variable {answers : Answers Call Reply ε World}
variable {compatible : World → Local → Call → Local → Prop}
variable {discipline : Discipline protocol answers compatible}
variable {credible : Credible Call Reply ε Local}
variable {allowed : Pool ι Call Reply ε α World Local → ι → Call → Prop}
variable {post : ι → α → Local → Prop}
variable {start pool : Pool ι Call Reply ε α World Local}

/-- What makes a discipline answer for the replies: a true record gets a
credible one, and no call of one thread is in the way of another. -/
structure Grants
    (discipline : Discipline protocol answers compatible)
    (credible : Credible Call Reply ε Local) : Prop where
  credible : ∀ record request world reply after,
    discipline.shared world → discipline.own record world →
      protocol.permits record request → answers request world reply after →
        credible record request reply
  compatible : ∀ record other request world, discipline.own record world →
    discipline.own other world → protocol.permits record request →
      compatible world record request other

/-- The records of all threads, also of those that have returned, are true, and
every thread succeeds. -/
structure Succeeding
    (discipline : Discipline protocol answers compatible)
    (credible : Credible Call Reply ε Local)
    (post : ι → α → Local → Prop)
    (pool : Pool ι Call Reply ε α World Local) : Prop where
  shared : discipline.shared pool.world
  own : ∀ thread, discipline.own (pool.records thread) pool.world
  pair : ∀ first second, first ≠ second →
    discipline.pair (pool.records first) (pool.records second)
  succeeds : ∀ thread, (pool.threads thread).Succeeds protocol credible
    (post thread) (pool.records thread)

theorem Succeeding.step
    {final : Pool ι Call Reply ε α World Local} {thread : ι}
    {request : Call} {reply : Except ε (Reply request)}
    (grants : Grants discipline credible)
    (succeeding : pool.Succeeding discipline credible post)
    (step : Step protocol answers pool thread request reply final) :
    final.Succeeding discipline credible post := by
  obtain ⟨waiting, answered⟩ := step
  rename_i next after
  have succeeds := succeeding.succeeds thread
  rw [waiting] at succeeds
  have possible := grants.credible _ _ _ _ _ succeeding.shared
    (succeeding.own thread) succeeds.1 answered
  obtain ⟨shared, own, pair⟩ := @Discipline.resumed ι _ _ _ _ _ _ _ _ _ _
    discipline pool (fun _ => True) thread request next reply after
    succeeding.shared (fun other _ => succeeding.own other)
    (fun first second different _ _ => succeeding.pair first second different)
    trivial succeeds.1
    (fun other _ _ => grants.compatible _ _ _ _ (succeeding.own thread)
      (succeeding.own other) succeeds.1) answered
  refine ⟨shared, fun other => own other trivial, fun first second different =>
    pair first second different trivial trivial, fun other => ?_⟩
  by_cases same : other = thread
  · subst same
    simpa [resume] using succeeds.2 reply possible
  · simpa [resume, same] using succeeding.succeeds other

/-- Every pool reached goes on to succeed. -/
theorem Succeeding.reaches
    (grants : Grants discipline credible)
    (succeeding : start.Succeeding discipline credible post)
    (reached : Reaches protocol answers allowed start pool) :
    pool.Succeeding discipline credible post := by
  induction reached with
  | refl => exact succeeding
  | tail _ _ step inductionHypothesis =>
      exact inductionHypothesis.step grants step

omit [DecidableEq ι] in
/-- No thread has failed or is stuck in a loop. -/
theorem Succeeding.not_fail
    (succeeding : pool.Succeeding discipline credible post) (thread : ι) :
    (∀ error, pool.threads thread ≠ .fail error) ∧
      pool.threads thread ≠ .spin := by
  have succeeds := succeeding.succeeds thread
  constructor
  · intro error failed
    rw [failed] at succeeds
    exact succeeds
  · intro stuck
    rw [stuck] at succeeds
    exact succeeds

omit [DecidableEq ι] in
/-- What is known of a thread that has returned. -/
theorem Succeeding.ended
    {thread : ι} {value : α}
    (succeeding : pool.Succeeding discipline credible post)
    (returned : pool.threads thread = .done value) :
    post thread value (pool.records thread) := by
  have succeeds := succeeding.succeeds thread
  rw [returned] at succeeds
  exact succeeds

omit [DecidableEq ι] in
/-- A thread has returned or can go on, if its calls are answered. -/
theorem Succeeding.live
    (succeeding : pool.Succeeding discipline credible post)
    (answered : ∀ record request world, protocol.permits record request →
      ∃ reply after, answers request world reply after) (thread : ι) :
    (∃ value, pool.threads thread = .done value) ∨
      ∃ request next reply after, pool.threads thread = .call request next ∧
        answers request pool.world reply after := by
  have succeeds := succeeding.succeeds thread
  cases waiting : pool.threads thread with
  | done value => exact .inl ⟨value, rfl⟩
  | fail error => exact absurd waiting ((succeeding.not_fail thread).1 error)
  | spin => exact absurd waiting (succeeding.not_fail thread).2
  | call request next =>
      rw [waiting] at succeeds
      obtain ⟨reply, after, answer⟩ :=
        answered _ request pool.world succeeds.1
      exact .inr ⟨request, next, reply, after, rfl, answer⟩

end Succeeding

end Pool

end Effects
