import Marmotte.Effects.Pool
import Marmotte.Effects.Uses
import Mathlib.Data.Nat.Find
import Mathlib.Logic.Relation

/-!
# Programs among others

A program is secure in a world when it returns and never fails, whatever the
other programs do between its calls.  What they may do can depend on the calls
that the program is about to make one after the other.  A secure thread of a
pool stays secure as long as the others keep to their moves, and in a run that
is fair to it it returns.
-/

namespace Effects

namespace Program

/-- The replies that a program may expect of some calls. -/
abbrev Expects (Call : Type) (Reply : Call → Type) : Type :=
  (request : Call) → Option (Reply request)

/-- The calls that a program makes next, as long as a reply is expected of
each. -/
def ahead
    (expected : Expects Call Reply) :
    Program Call Reply ε α → List Call
  | .call request next =>
      match expected request with
      | some reply => request :: (next (.ok reply)).ahead expected
      | none => []
  | _ => []

section Ahead

variable {expected : Expects Call Reply}

theorem ahead_call
    {request : Call} {reply : Reply request}
    (expects : expected request = some reply)
    (next : Except ε (Reply request) → Program Call Reply ε α) :
    (Program.call request next).ahead expected =
      request :: (next (.ok reply)).ahead expected := by
  simp only [ahead, expects]

/-- The first of the calls ahead is the one that the program waits with. -/
theorem ahead_eq_cons
    {program : Program Call Reply ε α} {request : Call} {rest : List Call}
    (sequence : program.ahead expected = request :: rest) :
    ∃ next reply, program = .call request next ∧
      expected request = some reply ∧
        (next (.ok reply)).ahead expected = rest := by
  cases program with
  | done value => cases sequence
  | fail error => cases sequence
  | spin => cases sequence
  | call other next =>
      unfold ahead at sequence
      split at sequence
      · rename_i reply expects
        cases sequence
        exact ⟨next, reply, rfl, expects, rfl⟩
      · cases sequence

/-- What is ahead of the first program is ahead of the composition. -/
theorem ahead_bind
    (first : Program Call Reply ε α) (next : α → Program Call Reply ε β) :
    first.ahead expected <+: (first >>= next).ahead expected := by
  induction first with
  | done value => exact List.nil_prefix
  | fail error => exact List.nil_prefix
  | spin => exact List.nil_prefix
  | call request rest inductionHypothesis =>
      simp only [call_bind, ahead]
      cases expected request with
      | none => exact List.nil_prefix
      | some reply =>
          rw [List.prefix_cons_inj]
          exact inductionHypothesis (.ok reply)

theorem ahead_ensuring
    (body : Program Call Reply ε α) (release : Program Call Reply ε Unit) :
    body.ahead expected <+: (body.ensuring release).ahead expected := by
  induction body with
  | done value => exact List.nil_prefix
  | fail error => exact List.nil_prefix
  | spin => exact List.nil_prefix
  | call request rest inductionHypothesis =>
      simp only [ensuring, ahead]
      cases expected request with
      | none => exact List.nil_prefix
      | some reply =>
          rw [List.prefix_cons_inj]
          exact inductionHypothesis (.ok reply)

end Ahead

/-! ## Secure programs -/

/-- What other programs may do, given the calls that lie ahead. -/
abbrev Moves (Call World : Type) : Type := List Call → World → World → Prop

/-- The fewer calls lie ahead, the more others may do. -/
def Moves.Antitone (moves : Moves Call World) : Prop :=
  ∀ {fewer more : List Call} {before after : World},
    fewer <+: more → moves more before after → moves fewer before after

/-- Every call of the program is answered, whatever others did before it, and
the program returns a value and a world with `post`. -/
def Secure
    (handler : Handler Call Reply ε World)
    (expected : Expects Call Reply)
    (moves : Moves Call World) (post : α → World → Prop) :
    Program Call Reply ε α → World → Prop
  | .done value, world => post value world
  | .fail _, _ => False
  | .spin, _ => False
  | .call request next, world =>
      ∀ between, Relation.ReflTransGen
          (moves ((Program.call request next).ahead expected)) world between →
        ∃ reply after, handler request between = some (reply, after) ∧
          (next reply).Secure handler expected moves post after

section Rules

variable {handler : Handler Call Reply ε World}
variable {expected : Expects Call Reply}
variable {moves : Moves Call World} {world : World}

/-- The rule for sequencing. -/
theorem Secure.bind
    {first : Program Call Reply ε α} {next : α → Program Call Reply ε β}
    {middle : α → World → Prop} {post : β → World → Prop}
    (antitone : moves.Antitone)
    (secure : first.Secure handler expected moves middle world)
    (rest : ∀ value world, middle value world →
      (next value).Secure handler expected moves post world) :
    (first >>= next).Secure handler expected moves post world := by
  induction first generalizing world with
  | done value => exact rest _ _ secure
  | fail error => exact secure.elim
  | spin => exact secure.elim
  | call request continuation inductionHypothesis =>
      intro between moved
      have fewer : Relation.ReflTransGen
          (moves ((Program.call request continuation).ahead expected))
            world between :=
        Relation.ReflTransGen.mono
          (fun _ _ => antitone (ahead_bind _ next)) _ _ moved
      obtain ⟨reply, after, answered, later⟩ := secure between fewer
      exact ⟨reply, after, answered, inductionHypothesis reply later⟩

/-- The rule for a release. -/
theorem Secure.ensuring
    {body : Program Call Reply ε α} {release : Program Call Reply ε Unit}
    {middle post : α → World → Prop}
    (antitone : moves.Antitone)
    (secure : body.Secure handler expected moves middle world)
    (releases : ∀ value world, middle value world →
      (release >>= fun _ => .done value).Secure handler expected moves post
        world) :
    (body.ensuring release).Secure handler expected moves post world := by
  induction body generalizing world with
  | done value => exact releases _ _ secure
  | fail error => exact secure.elim
  | spin => exact secure.elim
  | call request continuation inductionHypothesis =>
      intro between moved
      have fewer : Relation.ReflTransGen
          (moves ((Program.call request continuation).ahead expected))
            world between :=
        Relation.ReflTransGen.mono
          (fun _ _ => antitone (ahead_ensuring _ release)) _ _ moved
      obtain ⟨reply, after, answered, later⟩ := secure between fewer
      exact ⟨reply, after, answered, inductionHypothesis reply later⟩

/-- The rule for a call that succeeds wherever a property holds that others
keep. -/
theorem secure_perform_bind
    {request : Call} {next : Reply request → Program Call Reply ε α}
    {post : α → World → Prop} {holds : World → Prop}
    (stable : ∀ before after,
      moves ((perform request >>= next).ahead expected) before after →
        holds before → holds after)
    (initially : holds world)
    (succeeds : ∀ between, holds between →
      ∃ reply after, handler request between = some (.ok reply, after) ∧
        (next reply).Secure handler expected moves post after) :
    (perform request >>= next).Secure handler expected moves post world := by
  intro between moved
  have held : holds between := by
    induction moved with
    | refl => exact initially
    | tail _ move inductionHypothesis =>
        exact stable _ _ move inductionHypothesis
  obtain ⟨reply, after, answered, rest⟩ := succeeds between held
  exact ⟨.ok reply, after, answered, rest⟩

end Rules

end Program

/-! ## Secure threads of a pool -/

namespace Pool

open Program

variable {ι Call : Type} {Reply : Call → Type} {ε α World Local : Type}
variable [DecidableEq ι]

section Secured

variable {protocol : Protocol Call Reply ε Local}
variable {handler : Handler Call Reply ε World}
variable {expected : Expects Call Reply}
variable {moves : Moves Call World} {post : α → World → Prop}
variable {allowed : Pool ι Call Reply ε α World Local → ι → Call → Prop}
variable {thread : ι}

/-- The thread is secure, or others moved since it was. -/
def Secured
    (handler : Handler Call Reply ε World)
    (expected : Expects Call Reply)
    (moves : Moves Call World) (post : α → World → Prop) (thread : ι)
    (pool : Pool ι Call Reply ε α World Local) : Prop :=
  ∃ world, Relation.ReflTransGen
      (moves ((pool.threads thread).ahead expected)) world pool.world ∧
    (pool.threads thread).Secure handler expected moves post world

/-- The steps of other threads are moves. -/
def Considerate
    (handler : Handler Call Reply ε World)
    (expected : Expects Call Reply)
    (moves : Moves Call World) (thread : ι)
    (allowed : Pool ι Call Reply ε α World Local → ι → Call → Prop) : Prop :=
  ∀ (pool : Pool ι Call Reply ε α World Local) other request reply after,
    other ≠ thread → allowed pool other request →
      handler request pool.world = some (reply, after) →
        moves ((pool.threads thread).ahead expected) pool.world after

omit [DecidableEq ι] in
theorem Secured.not_fail
    {pool : Pool ι Call Reply ε α World Local}
    (secured : pool.Secured handler expected moves post thread) :
    (∀ error, pool.threads thread ≠ .fail error) ∧
      pool.threads thread ≠ .spin := by
  obtain ⟨world, -, secure⟩ := secured
  constructor
  · intro error failed
    rw [failed] at secure
    exact secure
  · intro stuck
    rw [stuck] at secure
    exact secure

theorem Secured.step
    {pool final : Pool ι Call Reply ε α World Local} {actor : ι}
    {request : Call} {reply : Except ε (Reply request)}
    (considerate : Considerate handler expected moves thread allowed)
    (secured : pool.Secured handler expected moves post thread)
    (permitted : allowed pool actor request)
    (step : Step protocol handler.answers pool actor request reply final) :
    final.Secured handler expected moves post thread := by
  obtain ⟨waiting, answered⟩ := step
  rename_i next after
  obtain ⟨world, moved, secure⟩ := secured
  by_cases same : actor = thread
  · subst same
    rw [waiting] at moved secure
    obtain ⟨given, left, alsoAnswered, rest⟩ := secure _ moved
    have once : some (reply, after) = some (given, left) :=
      answered.symm.trans alsoAnswered
    cases once
    refine ⟨after, .refl, ?_⟩
    simpa [resume] using rest
  · have unchanged : (pool.resume protocol actor request next reply
        after).threads thread = pool.threads thread := by
      simp [resume, Ne.symm same]
    refine ⟨world, ?_, ?_⟩
    · rw [unchanged]
      exact moved.tail (considerate pool actor request reply after same
        permitted answered)
    · rw [unchanged]
      exact secure

/-- A secure thread stays secure among considerate ones. -/
theorem Secured.reaches
    {start pool : Pool ι Call Reply ε α World Local}
    (considerate : Considerate handler expected moves thread allowed)
    (secured : start.Secured handler expected moves post thread)
    (reached : Reaches protocol handler.answers allowed start pool) :
    pool.Secured handler expected moves post thread := by
  induction reached with
  | refl => exact secured
  | tail _ permitted step inductionHypothesis =>
      exact inductionHypothesis.step considerate permitted step

end Secured

/-! ## Footprints of threads -/

section Footprints

variable {protocol : Protocol Call Reply ε Local}
variable {answers : Answers Call Reply ε World}
variable {allowed : Pool ι Call Reply ε α World Local → ι → Call → Prop}
variable {calls : ι → Call → Prop}

/-- One run goes on where another ends. -/
theorem Reaches.trans
    {start middle final : Pool ι Call Reply ε α World Local}
    (first : Reaches protocol answers allowed start middle)
    (second : Reaches protocol answers allowed middle final) :
    Reaches protocol answers allowed start final := by
  induction second with
  | refl => exact first
  | tail _ permitted step inductionHypothesis =>
      exact inductionHypothesis.tail permitted step

/-- Forget a condition on the steps of a run. -/
theorem Reaches.mono
    {weaker : Pool ι Call Reply ε α World Local → ι → Call → Prop}
    {start pool : Pool ι Call Reply ε α World Local}
    (reached : Reaches protocol answers allowed start pool)
    (weakens : ∀ pool thread request,
      allowed pool thread request → weaker pool thread request) :
    Reaches protocol answers weaker start pool := by
  induction reached with
  | refl => exact .refl
  | tail _ permitted step inductionHypothesis =>
      exact inductionHypothesis.tail (weakens _ _ _ permitted) step

/-- A thread that goes on alone gets to each call ahead of it, if the calls
before that are answered as it expects. -/
theorem Reaches.arrives
    {handler : Handler Call Reply ε World}
    {expected : Expects Call Reply}
    {holds : List Call → Local → World → Prop} {thread : ι} {target : Call}
    (answered : ∀ (request : Call) (rest : List Call) (reply : Reply request)
      (record : Local) (world : World),
      request ≠ target → holds (request :: rest) record world →
        expected request = some reply →
          ∃ after, handler request world = some (.ok reply, after) ∧
            holds rest (protocol.advance record request (.ok reply)) after)
    {pool : Pool ι Call Reply ε α World Local}
    (first : target ∈ (pool.threads thread).ahead expected)
    (initially : holds ((pool.threads thread).ahead expected)
      (pool.records thread) pool.world) :
    ∃ later next,
      Reaches protocol handler.answers (fun _ actor _ => actor = thread) pool
        later ∧
      later.threads thread = .call target next ∧
      target ∈ (later.threads thread).ahead expected ∧
      holds ((later.threads thread).ahead expected) (later.records thread)
        later.world := by
  generalize sequence : (pool.threads thread).ahead expected = calls
    at first initially
  induction calls generalizing pool with
  | nil => exact absurd first List.not_mem_nil
  | cons request rest inductionHypothesis =>
      obtain ⟨next, reply, waiting, expects, remaining⟩ :=
        ahead_eq_cons sequence
      by_cases arrived : request = target
      · subst arrived
        refine ⟨pool, next, .refl, waiting, ?_⟩
        rw [sequence]
        exact ⟨first, initially⟩
      · obtain ⟨after, given, held⟩ :=
          answered _ _ reply _ _ arrived initially expects
        have stepped : Step protocol handler.answers pool thread request
            (.ok reply)
            (pool.resume protocol thread request next (.ok reply) after) :=
          .call waiting given
        have onward : ((pool.resume protocol thread request next (.ok reply)
            after).threads thread).ahead expected = rest := by
          simpa [resume] using remaining
        have recorded : (pool.resume protocol thread request next (.ok reply)
            after).records thread =
              protocol.advance (pool.records thread) request (.ok reply) := by
          simp [resume]
        have later : target ∈ rest :=
          (List.mem_cons.mp first).resolve_left (Ne.symm arrived)
        rw [← recorded] at held
        obtain ⟨final, coming, reached, waits, kept⟩ :=
          inductionHypothesis onward later held
        exact ⟨final, coming, (Reaches.refl.tail rfl stepped).trans reached,
          waits, kept⟩

/-- What is recorded does not change where a run leads. -/
theorem Reaches.observed
    {Other : Type} {start pool : Pool ι Call Reply ε α World Local}
    (observer : Protocol Call Reply ε Other) (records : ι → Other)
    (reached : Reaches protocol answers allowed start pool) :
    ∃ last : ι → Other,
      Reaches observer answers (fun _ _ _ => True)
        (⟨start.world, start.threads, records⟩ :
          Pool ι Call Reply ε α World Other)
        ⟨pool.world, pool.threads, last⟩ := by
  induction reached with
  | refl => exact ⟨records, .refl⟩
  | tail _ _ step inductionHypothesis =>
      obtain ⟨last, observed⟩ := inductionHypothesis
      obtain ⟨waiting, answered⟩ := step
      exact ⟨_, observed.tail trivial (.call waiting answered)⟩

/-- Each thread makes only calls of its own kind. -/
def Footed
    (calls : ι → Call → Prop)
    (pool : Pool ι Call Reply ε α World Local) : Prop :=
  ∀ thread, (pool.threads thread).Uses (calls thread) fun _ => True

theorem Footed.step
    {pool final : Pool ι Call Reply ε α World Local} {actor : ι}
    {request : Call} {reply : Except ε (Reply request)}
    (footed : pool.Footed calls)
    (step : Step protocol answers pool actor request reply final) :
    calls actor request ∧ final.Footed calls := by
  obtain ⟨waiting, -⟩ := step
  have acting := footed actor
  rw [waiting] at acting
  refine ⟨acting.1, fun thread => ?_⟩
  by_cases same : thread = actor
  · subst same
    have went : (_ : Program Call Reply ε α).Uses (calls thread)
        fun _ => True := acting.2 reply
    simpa [resume] using went
  · simpa [resume, same] using footed thread

/-- The steps of a run are calls of the kinds of their threads. -/
theorem Reaches.footed
    {start pool : Pool ι Call Reply ε α World Local}
    (footed : start.Footed calls)
    (reached : Reaches protocol answers allowed start pool) :
    pool.Footed calls ∧
      Reaches protocol answers
        (fun pool thread request =>
          allowed pool thread request ∧ calls thread request) start pool := by
  induction reached with
  | refl => exact ⟨footed, .refl⟩
  | tail _ permitted step inductionHypothesis =>
      have stepped := inductionHypothesis.1.step step
      exact ⟨stepped.2,
        .tail inductionHypothesis.2 ⟨permitted, stepped.1⟩ step⟩

end Footprints

/-! ## Fair runs -/

section Fair

variable (protocol : Protocol Call Reply ε Local)
variable (answers : Answers Call Reply ε World)
variable (allowed : Pool ι Call Reply ε α World Local → ι → Call → Prop)

/-- The thread makes a call between the two pools. -/
def Acts
    (thread : ι) (pool final : Pool ι Call Reply ε α World Local) : Prop :=
  ∃ request reply, allowed pool thread request ∧
    Step protocol answers pool thread request reply final

/-- The thread waits with a call that would be answered. -/
def Enabled
    (thread : ι) (pool : Pool ι Call Reply ε α World Local) : Prop :=
  ∃ request next reply after, pool.threads thread = .call request next ∧
    answers request pool.world reply after

/-- An infinite run, which may pause, in which the thread makes its next call
if from some point on it always could. -/
structure FairRun
    (start : Pool ι Call Reply ε α World Local) (thread : ι)
    (pools : Nat → Pool ι Call Reply ε α World Local) : Prop where
  begins : pools 0 = start
  steps : ∀ moment, pools (moment + 1) = pools moment ∨
    ∃ actor, Acts protocol answers allowed actor (pools moment)
      (pools (moment + 1))
  fair : ∀ moment,
    (∀ later ≥ moment, Enabled answers thread (pools later)) →
      ∃ later ≥ moment, Acts protocol answers allowed thread (pools later)
        (pools (later + 1))

end Fair

section Progress

variable {protocol : Protocol Call Reply ε Local}
variable {answers : Answers Call Reply ε World}
variable {allowed : Pool ι Call Reply ε α World Local → ι → Call → Prop}
variable {start : Pool ι Call Reply ε α World Local} {thread : ι}
variable {pools : Nat → Pool ι Call Reply ε α World Local}

theorem FairRun.reaches
    (run : FairRun protocol answers allowed start thread pools)
    (moment : Nat) :
    Reaches protocol answers allowed start (pools moment) := by
  induction moment with
  | zero =>
      rw [run.begins]
      exact .refl
  | succ moment inductionHypothesis =>
      rcases run.steps moment with same | ⟨actor, request, reply, permitted, step⟩
      · rw [same]
        exact inductionHypothesis
      · exact .tail inductionHypothesis permitted step

/-- The same for fair runs. -/
theorem FairRun.footed
    {calls : ι → Call → Prop} (footed : start.Footed calls)
    (run : FairRun protocol answers allowed start thread pools) :
    FairRun protocol answers
      (fun pool thread request =>
        allowed pool thread request ∧ calls thread request)
      start thread pools := by
  have acts (actor : ι) (moment : Nat)
      (acted : Acts protocol answers allowed actor (pools moment)
        (pools (moment + 1))) :
      Acts protocol answers
        (fun pool thread request =>
          allowed pool thread request ∧ calls thread request)
        actor (pools moment) (pools (moment + 1)) := by
    obtain ⟨request, reply, permitted, step⟩ := acted
    have stepped := ((run.reaches moment).footed footed).1.step step
    exact ⟨request, reply, ⟨permitted, stepped.1⟩, step⟩
  constructor
  case begins => exact run.begins
  case steps =>
    intro moment
    rcases run.steps moment with same | ⟨actor, acted⟩
    · exact .inl same
    · exact .inr ⟨actor, acts actor moment acted⟩
  case fair =>
    intro moment enabled
    obtain ⟨later, after, acted⟩ := run.fair moment enabled
    exact ⟨later, after, acts thread later acted⟩

theorem Acts.other
    {pool final : Pool ι Call Reply ε α World Local} {actor : ι}
    (acts : Acts protocol answers allowed actor pool final)
    (different : thread ≠ actor) :
    final.threads thread = pool.threads thread := by
  obtain ⟨request, reply, -, waiting, -⟩ := acts
  simp [resume, different]

theorem Acts.own
    {pool final : Pool ι Call Reply ε α World Local} {request : Call}
    {next : Except ε (Reply request) → Program Call Reply ε α}
    (acts : Acts protocol answers allowed thread pool final)
    (waiting : pool.threads thread = .call request next) :
    ∃ reply, final.threads thread = next reply := by
  obtain ⟨other, reply, -, waits, -⟩ := acts
  rw [waiting] at waits
  cases waits
  exact ⟨reply, by simp [resume]⟩

/-- Until the thread acts, it waits with the same call. -/
theorem FairRun.waits_until
    (run : FairRun protocol answers allowed start thread pools)
    {moment : Nat} (count : Nat)
    (idle : ∀ later, moment ≤ later → later < moment + count →
      ¬Acts protocol answers allowed thread (pools later) (pools (later + 1))) :
    (pools (moment + count)).threads thread =
      (pools moment).threads thread := by
  induction count with
  | zero => rfl
  | succ count inductionHypothesis =>
      have same := inductionHypothesis fun later after before =>
        idle later after (by omega)
      rw [← same]
      rcases run.steps (moment + count) with paused | ⟨actor, acts⟩
      · rw [← Nat.add_assoc, paused]
      · by_cases own : thread = actor
        · subst own
          exact absurd acts (idle _ (by omega) (by omega))
        · exact acts.other own

/-- A thread that has returned or can go on at every moment of a run that is
fair to it returns. -/
theorem FairRun.returns_of_live
    (run : FairRun protocol answers allowed start thread pools)
    (live : ∀ moment,
      (∃ value, (pools moment).threads thread = .done value) ∨
        Enabled answers thread (pools moment)) :
    ∃ moment value, (pools moment).threads thread = .done value := by
  -- the program of the thread gets smaller with each of its calls
  have ends : ∀ (program : Program Call Reply ε α) moment,
      (pools moment).threads thread = program →
        ∃ later value, (pools later).threads thread = .done value := by
    intro program
    induction program with
    | done value => exact fun moment returned => ⟨moment, value, returned⟩
    | fail error =>
        intro moment failed
        rcases live moment with returned | ⟨_, _, _, _, waiting, -⟩
        · exact ⟨moment, returned⟩
        · rw [failed] at waiting
          cases waiting
    | spin =>
        intro moment stuck
        rcases live moment with returned | ⟨_, _, _, _, waiting, -⟩
        · exact ⟨moment, returned⟩
        · rw [stuck] at waiting
          cases waiting
    | call request next inductionHypothesis =>
        intro moment waiting
        by_contra unreturned
        have enabled : ∀ later ≥ moment,
            Enabled answers thread (pools later) :=
          fun later _ => (live later).resolve_left fun ⟨value, returned⟩ =>
            unreturned ⟨later, value, returned⟩
        have acted : ∃ count, Acts protocol answers allowed thread
            (pools (moment + count)) (pools (moment + count + 1)) := by
          obtain ⟨later, after, acts⟩ := run.fair moment enabled
          exact ⟨later - moment, by rwa [Nat.add_sub_cancel' after]⟩
        classical
        have first := Nat.find_spec acted
        have idle : ∀ later, moment ≤ later →
            later < moment + Nat.find acted →
              ¬Acts protocol answers allowed thread (pools later)
                (pools (later + 1)) := by
          intro later after before acts
          have earlier : later - moment < Nat.find acted := by omega
          refine Nat.find_min acted earlier ?_
          rwa [Nat.add_sub_cancel' after]
        have same := run.waits_until (Nat.find acted) idle
        obtain ⟨reply, went⟩ := first.own (same.trans waiting)
        exact unreturned (inductionHypothesis reply _ went)
  exact ends _ 0 rfl

end Progress

section Returns

variable {protocol : Protocol Call Reply ε Local}
variable {handler : Handler Call Reply ε World}
variable {expected : Expects Call Reply}
variable {moves : Moves Call World} {post : α → World → Prop}
variable {allowed : Pool ι Call Reply ε α World Local → ι → Call → Prop}
variable {start : Pool ι Call Reply ε α World Local} {thread : ι}
variable {pools : Nat → Pool ι Call Reply ε α World Local}

omit [DecidableEq ι] in
/-- A secure thread has returned or can go on. -/
theorem Secured.enabled
    {pool : Pool ι Call Reply ε α World Local}
    (secured : pool.Secured handler expected moves post thread)
    (unreturned : ∀ value, pool.threads thread ≠ .done value) :
    Enabled handler.answers thread pool := by
  obtain ⟨failed, stuck⟩ := secured.not_fail
  obtain ⟨world, moved, secure⟩ := secured
  cases waiting : pool.threads thread with
  | done value => exact absurd waiting (unreturned value)
  | fail error => exact absurd waiting (failed error)
  | spin => exact absurd waiting stuck
  | call request next =>
      rw [waiting] at moved secure
      obtain ⟨reply, after, answered, -⟩ := secure _ moved
      exact ⟨request, next, reply, after, waiting, answered⟩

/-- A secure thread returns in every run that is fair to it. -/
theorem FairRun.returns
    (run : FairRun protocol handler.answers allowed start thread pools)
    (considerate : Considerate handler expected moves thread allowed)
    (secured : start.Secured handler expected moves post thread) :
    ∃ moment value, (pools moment).threads thread = .done value := by
  refine run.returns_of_live fun moment => ?_
  by_cases returned : ∃ value, (pools moment).threads thread = .done value
  · exact .inl returned
  · refine .inr ((secured.reaches considerate (run.reaches moment)).enabled ?_)
    exact fun value ended => returned ⟨value, ended⟩

end Returns

end Pool

end Effects
