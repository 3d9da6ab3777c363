import Marmotte.Effects.Protocol

/-!
# The calls that a program uses

A program uses a set of calls when it makes no other call, whatever replies it
gets.  This is the weakest protocol, one without a record; a program that uses
only calls which another protocol permits at a record and learns nothing from
follows that protocol and leaves its record as it is.
-/

namespace Effects

namespace Program

/-- The protocol that permits these calls and records nothing. -/
def within
    (calls : Call → Prop) : Protocol Call Reply ε Unit where
  permits _ request := calls request
  advance record _ _ := record

/-- The program makes only these calls; `post` holds of what it returns. -/
def Uses
    (calls : Call → Prop) (post : α → Prop)
    (program : Program Call Reply ε α) : Prop :=
  program.Follows (within calls) (fun value _ => post value)
    (fun _ _ => True) ()

section Rules

variable {calls : Call → Prop}

theorem Uses.mono
    {program : Program Call Reply ε α} {more : Call → Prop}
    {post weaker : α → Prop}
    (uses : program.Uses calls post)
    (contained : ∀ request, calls request → more request)
    (weakens : ∀ value, post value → weaker value) :
    program.Uses more weaker := by
  induction program with
  | done value => exact weakens _ uses
  | fail error => trivial
  | spin => trivial
  | call request next inductionHypothesis =>
      exact ⟨contained _ uses.1, fun reply =>
        inductionHypothesis reply (uses.2 reply)⟩

/-- Where every call is allowed there is nothing to show. -/
theorem uses_any
    (all : ∀ request, calls request) (program : Program Call Reply ε α) :
    program.Uses calls fun _ => True := by
  induction program with
  | done value => trivial
  | fail error => trivial
  | spin => trivial
  | call request next inductionHypothesis =>
      exact ⟨all request, inductionHypothesis⟩

theorem uses_perform
    {request : Call} {post : Reply request → Prop}
    (used : calls request) (returned : ∀ reply, post reply) :
    (perform request : Program Call Reply ε _).Uses calls post :=
  follows_perform used returned fun _ => trivial

theorem uses_perform_then
    {request : Call} {next : Reply request → Program Call Reply ε α}
    {post : α → Prop}
    (used : calls request) (rest : ∀ value, (next value).Uses calls post) :
    (perform request >>= next).Uses calls post :=
  follows_perform_then used rest

theorem uses_attempt_then
    {request : Call}
    {next : Except ε (Reply request) → Program Call Reply ε α}
    {post : α → Prop}
    (used : calls request) (rest : ∀ reply, (next reply).Uses calls post) :
    (attempt request >>= next).Uses calls post :=
  ⟨used, rest⟩

theorem Uses.bind
    {first : Program Call Reply ε α} {next : α → Program Call Reply ε β}
    {middle : α → Prop} {post : β → Prop}
    (uses : first.Uses calls middle)
    (rest : ∀ value, middle value → (next value).Uses calls post) :
    (first >>= next).Uses calls post :=
  Follows.bind uses fun value _ known => rest value known

/-- The same where nothing is known of what the first part returns. -/
theorem Uses.before
    {first : Program Call Reply ε α} {next : α → Program Call Reply ε β}
    {post : β → Prop}
    (uses : first.Uses calls fun _ => True)
    (rest : ∀ value, (next value).Uses calls post) :
    (first >>= next).Uses calls post :=
  uses.bind fun value _ => rest value

theorem Uses.catchError
    {body : Program Call Reply ε α} {handle : ε → Program Call Reply ε α}
    {post : α → Prop}
    (uses : body.Uses calls post)
    (handled : ∀ error, (handle error).Uses calls post) :
    (body.catchError handle).Uses calls post :=
  Follows.catchError uses fun error _ _ => handled error

theorem Uses.toExcept
    {body : Program Call Reply ε α} {post : α → Prop}
    (uses : body.Uses calls post) :
    body.toExcept.Uses calls fun result =>
      ∀ value, result = .ok value → post value := by
  refine Follows.mono (Follows.toExcept uses) ?_ fun _ _ (_ : True) => trivial
  rintro _ _ known value rfl
  exact known

theorem Uses.ensuring
    {body : Program Call Reply ε α} {release : Program Call Reply ε Unit}
    {post : α → Prop}
    (uses : body.Uses calls post)
    (releases : release.Uses calls fun _ => True) :
    (body.ensuring release).Uses calls post := by
  refine Follows.ensuring uses (fun value _ known => ?_) fun _ _ _ => ?_
  · exact Follows.mono releases (fun _ _ _ => known) fun _ _ _ => trivial
  · exact releases

/-- A program whose calls teach nothing at a record stays at that record. -/
theorem Uses.follows
    {protocol : Protocol Call Reply ε Local} {record : Local}
    {program : Program Call Reply ε α} {post : α → Prop}
    (uses : program.Uses calls post)
    (permitted : ∀ request, calls request → protocol.permits record request)
    (neutral : ∀ request, calls request → ∀ reply,
      protocol.advance record request reply = record) :
    program.Follows protocol (fun value last => post value ∧ last = record)
      (fun _ last => last = record) record := by
  induction program with
  | done value => exact ⟨uses, rfl⟩
  | fail error => rfl
  | spin => trivial
  | call request next inductionHypothesis =>
      refine ⟨permitted _ uses.1, fun reply => ?_⟩
      rw [neutral _ uses.1 reply]
      exact inductionHypothesis reply (uses.2 reply)

/-- What is known of every value that a program returns is known besides what
its protocol says. -/
theorem Follows.returning
    {protocol : Protocol Call Reply ε Local} {record : Local}
    {program : Program Call Reply ε α} {failed : ε → Local → Prop}
    {post : α → Local → Prop} {returns : α → Prop}
    (follows : program.Follows protocol post failed record)
    (uses : program.Uses calls returns) :
    program.Follows protocol (fun value last => post value last ∧ returns value)
      failed record := by
  induction program generalizing record with
  | done value => exact ⟨follows, uses⟩
  | fail error => exact follows
  | spin => trivial
  | call request next inductionHypothesis =>
      exact ⟨follows.1, fun reply =>
        inductionHypothesis reply (follows.2 reply) (uses.2 reply)⟩

/-- A program whose calls are permitted at every record follows the protocol
from any of them. -/
theorem Uses.anywhere
    {protocol : Protocol Call Reply ε Local}
    {program : Program Call Reply ε α} {post : α → Prop}
    (uses : program.Uses calls post)
    (permitted : ∀ record request, calls request →
      protocol.permits record request)
    (record : Local) :
    program.Follows protocol (fun value _ => post value) (fun _ _ => True)
      record := by
  induction program generalizing record with
  | done value => exact uses
  | fail error => trivial
  | spin => trivial
  | call request next inductionHypothesis =>
      exact ⟨permitted record request uses.1, fun reply =>
        inductionHypothesis reply (uses.2 reply) _⟩

end Rules

end Program

end Effects
