import Marmotte.Effects.Protocol
import Mathlib.Algebra.BigOperators.Group.Finset.Basic
import Mathlib.Logic.Function.Basic
import Mathlib.Tactic.Abel

/-!
# Interleavings of programs

A pool runs any number of programs over one shared world, one call at a time
and in any order.  Each thread carries the local record of its protocol.  The
main rule is the parallel one: a shared invariant, a property of each thread's
own record, and a relation between the records of two threads hold in every
reachable pool as soon as a permitted call of one thread keeps them and does
not interfere with what another thread knows.
-/

namespace Effects

/-- Programs that share a world, with the records of their own calls. -/
structure Pool
    (ι Call : Type) (Reply : Call → Type) (ε α World Local : Type) where
  world : World
  threads : ι → Program Call Reply ε α
  records : ι → Local

namespace Pool

variable {ι Call : Type} {Reply : Call → Type} {ε α World Local : Type}

/-- Programs that are about to start in one world. -/
def launch
    (idle : Local) (programs : ι → Program Call Reply ε α) (world : World) :
    Pool ι Call Reply ε α World Local where
  world := world
  threads := programs
  records _ := idle

/-- The thread is about to make this call. -/
def Issues
    (pool : Pool ι Call Reply ε α World Local)
    (thread : ι) (request : Call) : Prop :=
  ∃ next, pool.threads thread = .call request next

/-- The thread has neither failed nor run out of its budget. -/
def Live
    (pool : Pool ι Call Reply ε α World Local)
    (thread : ι) : Prop :=
  match pool.threads thread with
  | .done _ => True
  | .call _ _ => True
  | .fail _ => False
  | .spin => False

instance
    (pool : Pool ι Call Reply ε α World Local) (thread : ι) :
    Decidable (pool.Live thread) :=
  match waiting : pool.threads thread with
  | .done _ => isTrue (by simp [Live, waiting])
  | .call _ _ => isTrue (by simp [Live, waiting])
  | .fail _ => isFalse (by simp [Live, waiting])
  | .spin => isFalse (by simp [Live, waiting])

theorem Issues.live
    {pool : Pool ι Call Reply ε α World Local}
    {thread : ι} {request : Call}
    (issues : pool.Issues thread request) : pool.Live thread := by
  obtain ⟨next, waiting⟩ := issues
  simp [Live, waiting]

section Steps

variable [DecidableEq ι]
variable (protocol : Protocol Call Reply ε Local)
variable (answers : Answers Call Reply ε World)

/-- The pool after one thread got a reply. -/
def resume
    (pool : Pool ι Call Reply ε α World Local)
    (thread : ι) (request : Call)
    (next : Except ε (Reply request) → Program Call Reply ε α)
    (reply : Except ε (Reply request))
    (after : World) : Pool ι Call Reply ε α World Local where
  world := after
  threads := Function.update pool.threads thread (next reply)
  records := Function.update pool.records thread
    (protocol.advance (pool.records thread) request reply)

/-- One thread makes its next call. -/
inductive Step :
    Pool ι Call Reply ε α World Local → ι →
      (request : Call) → Except ε (Reply request) →
        Pool ι Call Reply ε α World Local → Prop
  | call
      {pool : Pool ι Call Reply ε α World Local}
      {thread : ι} {request : Call}
      {next : Except ε (Reply request) → Program Call Reply ε α}
      {reply : Except ε (Reply request)} {after : World}
      (waiting : pool.threads thread = .call request next)
      (answered : answers request pool.world reply after) :
      Step pool thread request reply
        (pool.resume protocol thread request next reply after)

/-- Pools reached by steps that each meet a condition on the pool before it. -/
inductive Reaches
    (allowed : Pool ι Call Reply ε α World Local → ι → Call → Prop)
    (start : Pool ι Call Reply ε α World Local) :
    Pool ι Call Reply ε α World Local → Prop
  | refl : Reaches allowed start start
  | tail
      {pool final : Pool ι Call Reply ε α World Local}
      {thread : ι} {request : Call} {reply : Except ε (Reply request)}
      (reached : Reaches allowed start pool)
      (permitted : allowed pool thread request)
      (step : Step protocol answers pool thread request reply final) :
      Reaches allowed start final

end Steps

section Replay

variable [DecidableEq ι]

/-- Let the threads of a schedule make their next calls in order, while each
call passes the guard. -/
def replay
    (protocol : Protocol Call Reply ε Local)
    (handler : Handler Call Reply ε World)
    (guard : Pool ι Call Reply ε α World Local → ι → Call → Bool) :
    List ι → Pool ι Call Reply ε α World Local →
      Option (Pool ι Call Reply ε α World Local)
  | [], pool => some pool
  | thread :: schedule, pool =>
      match pool.threads thread with
      | .call request next =>
          match handler request pool.world with
          | some (reply, after) =>
              if guard pool thread request then
                replay protocol handler guard schedule
                  (pool.resume protocol thread request next reply after)
              else none
          | none => none
      | _ => none

/-- A schedule that can be replayed is a run. -/
theorem reaches_of_replay
    {protocol : Protocol Call Reply ε Local}
    {handler : Handler Call Reply ε World}
    {answers : Answers Call Reply ε World}
    {guard : Pool ι Call Reply ε α World Local → ι → Call → Bool}
    {allowed : Pool ι Call Reply ε α World Local → ι → Call → Prop}
    (contained : ∀ request before reply after,
      handler request before = some (reply, after) →
        answers request before reply after)
    (allows : ∀ pool thread request,
      guard pool thread request = true → allowed pool thread request)
    {start pool final : Pool ι Call Reply ε α World Local}
    {schedule : List ι}
    (reached : Reaches protocol answers allowed start pool)
    (replayed : replay protocol handler guard schedule pool = some final) :
    Reaches protocol answers allowed start final := by
  induction schedule generalizing pool with
  | nil =>
      cases replayed
      exact reached
  | cons thread schedule inductionHypothesis =>
      rw [replay] at replayed
      split at replayed
      · rename_i request next waiting
        split at replayed
        · rename_i reply after answered
          split at replayed
          · rename_i passes
            exact inductionHypothesis
              (.tail reached (allows _ _ _ passes)
                (.call waiting (contained _ _ _ _ answered))) replayed
          · cases replayed
        · cases replayed
      · cases replayed

/-- A replay of which no step is guarded is a run. -/
theorem reaches_of_free_replay
    {protocol : Protocol Call Reply ε Local}
    {handler : Handler Call Reply ε World}
    {answers : Answers Call Reply ε World}
    (contained : ∀ request before reply after,
      handler request before = some (reply, after) →
        answers request before reply after)
    {start final : Pool ι Call Reply ε α World Local} {schedule : List ι}
    (replayed : replay protocol handler (fun _ _ _ => true) schedule start =
      some final) :
    Reaches protocol answers (fun _ _ _ => True) start final :=
  reaches_of_replay contained (fun _ _ _ _ => trivial) .refl replayed

/-- A schedule of one thread is one step. -/
theorem step_of_replay
    {protocol : Protocol Call Reply ε Local}
    {handler : Handler Call Reply ε World}
    {guard : Pool ι Call Reply ε α World Local → ι → Call → Bool}
    {pool final : Pool ι Call Reply ε α World Local} {thread : ι}
    (replayed : replay protocol handler guard [thread] pool = some final) :
    ∃ request reply, guard pool thread request = true ∧
      Step protocol handler.answers pool thread request reply final := by
  simp only [replay] at replayed
  split at replayed
  · rename_i request next waiting
    split at replayed
    · rename_i reply after answered
      split at replayed
      · rename_i passes
        cases replayed
        exact ⟨request, reply, passes, .call waiting answered⟩
      · cases replayed
    · cases replayed
  · cases replayed

end Replay

/-! ## The parallel rule -/

/-- What has to be shown of a protocol for the parallel rule: `shared` is kept
by every permitted call, `own` is what a thread knows of the world, `pair`
relates the records of two threads, and a call that is `compatible` with
another thread's record does not interfere with what that thread knows. -/
structure Discipline
    (protocol : Protocol Call Reply ε Local)
    (answers : Answers Call Reply ε World)
    (compatible : World → Local → Call → Local → Prop) where
  shared : World → Prop
  own : Local → World → Prop
  pair : Local → Local → Prop
  step : ∀ record request world reply after,
    shared world → own record world → protocol.permits record request →
      answers request world reply after →
        shared after ∧ own (protocol.advance record request reply) after
  frame : ∀ record other request world reply after,
    shared world → own record world → own other world →
      pair record other → protocol.permits record request →
        compatible world record request other →
          answers request world reply after → own other after
  apart : ∀ record other request world reply after,
    shared world → own record world → own other world →
      pair record other → protocol.permits record request →
        compatible world record request other →
          answers request world reply after →
            pair (protocol.advance record request reply) other
  symm : ∀ record other, pair record other → pair other record

section Parallel

variable [DecidableEq ι]
variable {protocol : Protocol Call Reply ε Local}
variable {answers : Answers Call Reply ε World}
variable {compatible : World → Local → Call → Local → Prop}

/-- The condition on steps under which threads do not interfere. -/
def Exclusive
    (compatible : World → Local → Call → Local → Prop)
    (pool : Pool ι Call Reply ε α World Local)
    (thread : ι) (request : Call) : Prop :=
  ∀ other, other ≠ thread → pool.Live other →
    compatible pool.world (pool.records thread) request (pool.records other)

instance
    [Fintype ι] (pool : Pool ι Call Reply ε α World Local)
    (thread : ι) (request : Call)
    [∀ other, Decidable (compatible pool.world (pool.records thread) request
      (pool.records other))] :
    Decidable (pool.Exclusive compatible thread request) :=
  inferInstanceAs (Decidable (∀ other, other ≠ thread → pool.Live other →
    compatible pool.world (pool.records thread) request
      (pool.records other)))

/-- The pool satisfies a discipline, and every live thread still follows the
protocol. -/
structure Disciplined
    (discipline : Discipline protocol answers compatible)
    (post : ι → α → Local → Prop)
    (pool : Pool ι Call Reply ε α World Local) : Prop where
  shared : discipline.shared pool.world
  own : ∀ thread, pool.Live thread →
    discipline.own (pool.records thread) pool.world
  pair : ∀ first second, first ≠ second → pool.Live first →
    pool.Live second →
      discipline.pair (pool.records first) (pool.records second)
  follows : ∀ thread,
    (pool.threads thread).Follows protocol (post thread) (fun _ _ => True)
      (pool.records thread)

theorem live_of_resume
    {pool : Pool ι Call Reply ε α World Local}
    {thread other : ι} {request : Call}
    {next : Except ε (Reply request) → Program Call Reply ε α}
    {reply : Except ε (Reply request)} {after : World}
    (different : other ≠ thread)
    (live : (pool.resume protocol thread request next reply after).Live other) :
    pool.Live other := by
  simpa [Live, resume, different] using live

omit [DecidableEq ι] in
/-- A pool of programs that follow the protocol starts disciplined. -/
theorem disciplined_launch
    (discipline : Discipline protocol answers compatible)
    {post : ι → α → Local → Prop}
    {idle : Local} {programs : ι → Program Call Reply ε α} {world : World}
    (shared : discipline.shared world)
    (own : discipline.own idle world)
    (pair : discipline.pair idle idle)
    (follows : ∀ thread,
      (programs thread).Follows protocol (post thread) (fun _ _ => True)
        idle) :
    (launch idle programs world).Disciplined discipline post where
  shared := shared
  own _ _ := own
  pair _ _ _ _ _ := pair
  follows := follows

/-- What one step keeps of the records of a set of threads. -/
theorem Discipline.resumed
    (discipline : Discipline protocol answers compatible)
    {pool : Pool ι Call Reply ε α World Local} {members : ι → Prop}
    {thread : ι} {request : Call}
    {next : Except ε (Reply request) → Program Call Reply ε α}
    {reply : Except ε (Reply request)} {after : World}
    (shared : discipline.shared pool.world)
    (own : ∀ other, members other →
      discipline.own (pool.records other) pool.world)
    (pair : ∀ first second, first ≠ second → members first →
      members second →
        discipline.pair (pool.records first) (pool.records second))
    (member : members thread)
    (permitted : protocol.permits (pool.records thread) request)
    (exclusive : ∀ other, other ≠ thread → members other →
      compatible pool.world (pool.records thread) request
        (pool.records other))
    (answered : answers request pool.world reply after) :
    discipline.shared after ∧
      (∀ other, members other → discipline.own
        ((pool.resume protocol thread request next reply after).records other)
          after) ∧
      ∀ first second, first ≠ second → members first → members second →
        discipline.pair
          ((pool.resume protocol thread request next reply after).records
            first)
          ((pool.resume protocol thread request next reply after).records
            second) := by
  have kept := discipline.step _ _ _ _ _ shared (own thread member) permitted
    answered
  have otherPair : ∀ other, other ≠ thread → members other →
      discipline.pair
        (protocol.advance (pool.records thread) request reply)
        (pool.records other) :=
    fun other different otherMember => discipline.apart _ _ _ _ _ _ shared
      (own thread member) (own other otherMember)
      (pair thread other different.symm member otherMember)
      permitted (exclusive other different otherMember) answered
  refine ⟨kept.1, fun other otherMember => ?_, ?_⟩
  · by_cases same : other = thread
    · subst same
      simpa [resume] using kept.2
    · have framed := discipline.frame _ _ _ _ _ _ shared (own thread member)
        (own other otherMember)
        (pair thread other (Ne.symm same) member otherMember)
        permitted (exclusive other same otherMember) answered
      simpa [resume, same] using framed
  · intro first second different firstMember secondMember
    by_cases firstActs : first = thread
    · subst firstActs
      simpa [resume, different.symm] using
        otherPair second different.symm secondMember
    · by_cases secondActs : second = thread
      · subst secondActs
        simpa [resume, firstActs] using
          discipline.symm _ _ (otherPair first firstActs firstMember)
      · simpa [resume, firstActs, secondActs] using
          pair first second different firstMember secondMember

/-- The parallel rule for one step. -/
theorem Disciplined.step
    {discipline : Discipline protocol answers compatible}
    {post : ι → α → Local → Prop}
    {pool final : Pool ι Call Reply ε α World Local}
    {thread : ι} {request : Call} {reply : Except ε (Reply request)}
    (disciplined : pool.Disciplined discipline post)
    (exclusive : pool.Exclusive compatible thread request)
    (step : Step protocol answers pool thread request reply final) :
    final.Disciplined discipline post := by
  obtain ⟨waiting, answered⟩ := step
  rename_i next after
  have live : pool.Live thread := Issues.live ⟨next, waiting⟩
  have follows := disciplined.follows thread
  rw [waiting] at follows
  obtain ⟨shared, own, pair⟩ := discipline.resumed disciplined.shared
    disciplined.own disciplined.pair live follows.1 exclusive answered
  have wasLive (other : ι)
      (otherLive : (pool.resume protocol thread request next reply after).Live
        other) : pool.Live other := by
    by_cases same : other = thread
    · rw [same]
      exact live
    · exact live_of_resume same otherLive
  constructor
  · exact shared
  · exact fun other otherLive => own other (wasLive other otherLive)
  · exact fun first second different firstLive secondLive =>
      pair first second different (wasLive first firstLive)
        (wasLive second secondLive)
  · intro other
    by_cases same : other = thread
    · subst same
      simpa [resume] using follows.2 reply
    · simpa [resume, same] using disciplined.follows other

/-- The parallel rule for runs: every pool reached by exclusive steps satisfies
the discipline. -/
theorem Disciplined.reaches
    {discipline : Discipline protocol answers compatible}
    {post : ι → α → Local → Prop}
    {start pool : Pool ι Call Reply ε α World Local}
    (disciplined : start.Disciplined discipline post)
    (reached : Reaches protocol answers
      (fun pool thread request =>
        pool.Exclusive compatible thread request) start pool) :
    pool.Disciplined discipline post := by
  induction reached with
  | refl => exact disciplined
  | tail _ permitted step inductionHypothesis =>
      exact inductionHypothesis.step permitted step

omit [DecidableEq ι] in
/-- What is known of a thread that has returned. -/
theorem Disciplined.ended
    {discipline : Discipline protocol answers compatible}
    {post : ι → α → Local → Prop}
    {pool : Pool ι Call Reply ε α World Local}
    {thread : ι} {value : α}
    (disciplined : pool.Disciplined discipline post)
    (returned : pool.threads thread = .done value) :
    post thread value (pool.records thread) := by
  have follows := disciplined.follows thread
  rw [returned] at follows
  exact follows

omit [DecidableEq ι] in
/-- A thread about to make a call is permitted to make it. -/
theorem Disciplined.permits
    {discipline : Discipline protocol answers compatible}
    {post : ι → α → Local → Prop}
    {pool : Pool ι Call Reply ε α World Local}
    {thread : ι} {request : Call}
    (disciplined : pool.Disciplined discipline post)
    (issues : pool.Issues thread request) :
    protocol.permits (pool.records thread) request := by
  obtain ⟨next, waiting⟩ := issues
  have follows := disciplined.follows thread
  rw [waiting] at follows
  exact follows.1

end Parallel

section Runs

variable [DecidableEq ι]
variable {protocol : Protocol Call Reply ε Local}
variable {answers : Answers Call Reply ε World}
variable {allowed : Pool ι Call Reply ε α World Local → ι → Call → Prop}
variable {post : ι → α → Local → Prop}
variable {start pool : Pool ι Call Reply ε α World Local}

/-- Every thread of a pool reached still follows its protocol. -/
theorem Reaches.follows
    (follows : ∀ thread,
      (start.threads thread).Follows protocol (post thread)
        (fun _ _ => True) (start.records thread))
    (reached : Reaches protocol answers allowed start pool) (thread : ι) :
    (pool.threads thread).Follows protocol (post thread)
      (fun _ _ => True) (pool.records thread) := by
  induction reached generalizing thread with
  | refl => exact follows thread
  | @tail _ _ actor request reply _ _ step inductionHypothesis =>
      obtain ⟨waiting, -⟩ := step
      have acting := inductionHypothesis actor
      rw [waiting] at acting
      by_cases same : thread = actor
      · subst same
        simpa [resume] using acting.2 reply
      · simpa [resume, same] using inductionHypothesis thread

/-- A property of the whole pool that every allowed and permitted step keeps
holds in every pool reached, however the threads interfere. -/
theorem Reaches.preserves
    {holds : Pool ι Call Reply ε α World Local → Prop}
    (kept : ∀ (pool : Pool ι Call Reply ε α World Local)
      thread request next reply after,
      holds pool → allowed pool thread request →
        pool.threads thread = .call request next →
          protocol.permits (pool.records thread) request →
            answers request pool.world reply after →
              holds (pool.resume protocol thread request next reply after))
    (follows : ∀ thread,
      (start.threads thread).Follows protocol (post thread)
        (fun _ _ => True) (start.records thread))
    (initially : holds start)
    (reached : Reaches protocol answers allowed start pool) :
    holds pool := by
  induction reached with
  | refl => exact initially
  | @tail _ _ thread _ _ before permitted step inductionHypothesis =>
      have acting := before.follows follows thread
      obtain ⟨waiting, answered⟩ := step
      rw [waiting] at acting
      exact kept _ _ _ _ _ _ inductionHypothesis permitted waiting acting.1
        answered

/-- The same for a property of the world. -/
theorem Reaches.keeps
    {holds : World → Prop}
    (kept : ∀ (pool : Pool ι Call Reply ε α World Local)
      thread request reply after,
      holds pool.world → allowed pool thread request →
        protocol.permits (pool.records thread) request →
          answers request pool.world reply after → holds after)
    (follows : ∀ thread,
      (start.threads thread).Follows protocol (post thread)
        (fun _ _ => True) (start.records thread))
    (initially : holds start.world)
    (reached : Reaches protocol answers allowed start pool) :
    holds pool.world :=
  Reaches.preserves
    (fun _ _ _ _ _ _ held permitted _ follows answered =>
      kept _ _ _ _ _ held permitted follows answered)
    follows initially reached

/-- The same for a property of each thread's own record. -/
theorem Reaches.records
    {known : ι → Local → Prop}
    (kept : ∀ (pool : Pool ι Call Reply ε α World Local)
      thread request reply after,
      known thread (pool.records thread) → allowed pool thread request →
        protocol.permits (pool.records thread) request →
          answers request pool.world reply after →
            known thread
              (protocol.advance (pool.records thread) request reply))
    (follows : ∀ thread,
      (start.threads thread).Follows protocol (post thread)
        (fun _ _ => True) (start.records thread))
    (initially : ∀ thread, known thread (start.records thread))
    (reached : Reaches protocol answers allowed start pool) (thread : ι) :
    known thread (pool.records thread) := by
  have every : ∀ other, known other (pool.records other) := by
    refine @Reaches.preserves _ _ _ _ _ _ _ _ _ _ _ post start pool
      (fun pool => ∀ other, known other (pool.records other)) ?_ follows
      initially reached
    intro pool actor request next reply after held permitted _ acts answered
      other
    by_cases same : other = actor
    · subst same
      simpa [resume] using kept _ _ _ _ _ (held other) permitted acts answered
    · simpa [resume, same] using held other
  exact every thread

/-- What no call changes in a record stays as it was given. -/
theorem Reaches.steady
    {γ : Type} (field : Local → γ)
    (kept : ∀ record request reply,
      field (protocol.advance record request reply) = field record)
    (reached : Reaches protocol answers allowed start pool) (thread : ι) :
    field (pool.records thread) = field (start.records thread) := by
  induction reached with
  | refl => rfl
  | @tail _ _ actor request reply _ _ step inductionHypothesis =>
      obtain ⟨waiting, -⟩ := step
      by_cases same : thread = actor
      · subst same
        simpa [resume, kept] using inductionHypothesis
      · simpa [resume, same] using inductionHypothesis

/-- Resuming a thread exchanges its credit in the sum of all credits. -/
theorem sum_credit_resume
    [Fintype ι] {M : Type} [AddCommMonoid M] (credit : Local → M)
    (pool : Pool ι Call Reply ε α World Local)
    (thread : ι) (request : Call)
    (next : Except ε (Reply request) → Program Call Reply ε α)
    (reply : Except ε (Reply request)) (after : World) :
    credit (pool.records thread) +
        ∑ other, credit ((pool.resume protocol thread request next reply
          after).records other) =
      credit (protocol.advance (pool.records thread) request reply) +
        ∑ other, credit (pool.records other) := by
  have others : ∑ other ∈ Finset.univ.erase thread,
      credit ((pool.resume protocol thread request next reply
        after).records other) =
      ∑ other ∈ Finset.univ.erase thread, credit (pool.records other) := by
    refine Finset.sum_congr rfl fun other different => ?_
    simp only [resume]
    rw [Function.update_of_ne (Finset.ne_of_mem_erase different)]
  rw [← Finset.add_sum_erase _ _ (Finset.mem_univ thread), others,
    ← Finset.add_sum_erase _ (fun other => credit (pool.records other))
      (Finset.mem_univ thread)]
  simp only [resume, Function.update_self]
  exact add_left_comm _ _ _

/-- If every step changes a quantity of the world by what it adds to the
credit of the thread that makes it, the quantity has changed by what was added
to all credits. -/
theorem Reaches.balances
    [Fintype ι] {M : Type} [AddCommGroup M]
    {holds : World → Prop} (quantity : World → M) (credit : Local → M)
    (kept : ∀ record request world reply after, holds world →
      protocol.permits record request → answers request world reply after →
        holds after ∧ quantity after + credit record =
          quantity world + credit (protocol.advance record request reply))
    (follows : ∀ thread,
      (start.threads thread).Follows protocol (post thread)
        (fun _ _ => True) (start.records thread))
    (initially : holds start.world)
    (reached : Reaches protocol answers allowed start pool) :
    holds pool.world ∧ quantity pool.world + ∑ thread, credit (start.records thread) =
      quantity start.world + ∑ thread, credit (pool.records thread) := by
  induction reached with
  | refl => exact ⟨initially, rfl⟩
  | @tail pool _ thread request reply before _ step inductionHypothesis =>
      have acting := before.follows follows thread
      obtain ⟨waiting, answered⟩ := step
      rename_i next after
      rw [waiting] at acting
      have exchanged := @sum_credit_resume _ _ _ _ _ _ _ _ protocol _ _ _
        credit pool thread request next reply after
      obtain ⟨held, balanced⟩ := inductionHypothesis
      obtain ⟨still, changed⟩ := kept _ _ _ _ _ held acting.1 answered
      refine ⟨still, ?_⟩
      calc quantity after + ∑ thread, credit (start.records thread)
        _ = quantity pool.world +
              credit (protocol.advance (pool.records thread) request reply) -
                credit (pool.records thread) +
                  ∑ thread, credit (start.records thread) := by
            rw [eq_sub_of_add_eq changed]
        _ = quantity pool.world + ∑ thread, credit (start.records thread) +
              (credit (protocol.advance (pool.records thread) request reply) -
                credit (pool.records thread)) := by abel
        _ = quantity start.world +
              (credit (protocol.advance (pool.records thread) request reply) +
                ∑ thread, credit (pool.records thread) -
                  credit (pool.records thread)) := by
            rw [balanced]
            abel
        _ = _ := by rw [← eq_sub_of_add_eq' exchanged]

end Runs

end Pool

end Effects
