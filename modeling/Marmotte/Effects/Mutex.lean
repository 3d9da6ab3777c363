import Marmotte.Effects.Endings
import Marmotte.Effects.History

/-!
# Critical sections

Programs that run a part of themselves between taking and giving back a lock,
next to others that do not touch it.  At most one of them is inside, whatever
fails; the steps of two of them never interleave; and where all programs of a
pool are critical sections, a run is one of them after the other.
-/

namespace Effects

/-- What a call does to the lock. -/
inductive LockUse
  | acquire
  | release
  | other
  deriving DecidableEq, Repr

/-- A lock among the calls: it is taken only when it is free, and only taking it
and giving it back change whether it is held. -/
structure Mutex (answers : Answers Call Reply ε World) where
  use : Call → LockUse
  held : World → Bool
  acquired : ∀ request before reply after, use request = .acquire →
    answers request before reply after →
      held before = false ∧ held after = true ∧ ∃ value, reply = .ok value
  released : ∀ request before reply after, use request = .release →
    answers request before reply after → held after = false
  spared : ∀ request before reply after, use request = .other →
    answers request before reply after → held after = held before

/-- Something may happen to the world before a call is answered. -/
def Answers.delayed
    (answers : Answers Call Reply ε World) (passes : World → World → Prop) :
    Answers Call Reply ε World :=
  fun request before reply after =>
    ∃ between, passes before between ∧ answers request between reply after

/-- Where a program is with respect to its critical section.  A program that
has none is outside for ever. -/
inductive Place
  | outside
  | waiting
  | inside
  | left
  deriving DecidableEq, Repr

/-- The program has taken the lock. -/
def Place.Begun (place : Place) : Prop := place = .inside ∨ place = .left

namespace Mutex

variable {ι Call : Type} {Reply : Call → Type} {ε α World : Type}
variable {answers : Answers Call Reply ε World}

/-- The lock, where something may happen before a call is answered that does
not touch it. -/
def delayed
    (mutex : Mutex answers) (passes : World → World → Prop)
    (untouched : ∀ before after, passes before after →
      mutex.held after = mutex.held before) :
    Mutex (answers.delayed passes) where
  use := mutex.use
  held := mutex.held
  acquired := by
    rintro request before reply after acquires ⟨between, passed, answered⟩
    rw [← untouched before between passed]
    exact mutex.acquired request between reply after acquires answered
  released := by
    rintro request before reply after releases ⟨between, passed, answered⟩
    exact mutex.released request between reply after releases answered
  spared := by
    rintro request before reply after other ⟨between, passed, answered⟩
    rw [← untouched before between passed]
    exact mutex.spared request between reply after other answered

/-- The place after a call. -/
def move
    (mutex : Mutex answers) (place : Place) (request : Call)
    (reply : Except ε (Reply request)) : Place :=
  match mutex.use request with
  | .acquire => if reply.isOk then .inside else place
  | .release => .left
  | .other => place

/-- A program takes the lock when it is waiting for it and gives it back when it
is inside, and has no call before the first and none after the second. -/
def permits (mutex : Mutex answers) : Place → Call → Prop
  | .outside, request => mutex.use request = .other
  | .waiting, request => mutex.use request = .acquire
  | .inside, request => mutex.use request ≠ .acquire
  | .left, _ => False

def protocol (mutex : Mutex answers) : Protocol Call Reply ε Place where
  permits := mutex.permits
  advance := mutex.move

/-- The program ends outside of its critical section, whether it returns or
fails. -/
abbrev Guards
    (mutex : Mutex answers) (program : Program Call Reply ε α)
    (place : Place) : Prop :=
  program.Follows mutex.protocol (fun _ last => last ≠ .inside)
    (fun _ last => last ≠ .inside) place

section Programs

variable {mutex : Mutex answers}

theorem move_other
    {request : Call} (other : mutex.use request = .other) (place : Place)
    (reply : Except ε (Reply request)) :
    mutex.protocol.advance place request reply = place := by
  change mutex.move place request reply = place
  rw [move, other]

/-- Only a program that is inside gives the lock back. -/
theorem inside_of_release
    {place : Place} {request : Call}
    (permitted : mutex.permits place request)
    (releases : mutex.use request = .release) : place = .inside := by
  cases place with
  | inside => rfl
  | outside => cases permitted.symm.trans releases
  | waiting => cases permitted.symm.trans releases
  | left => exact permitted.elim

/-- A program that leaves the lock alone stays where it is. -/
theorem follows_spared
    {program : Program Call Reply ε α} {post : α → Prop} {place : Place}
    (uses : program.Uses (fun request => mutex.use request = .other) post)
    (permitted : ∀ request, mutex.use request = .other →
      mutex.permits place request) :
    program.Follows mutex.protocol (fun _ last => last = place)
      (fun _ last => last = place) place := by
  have follows : program.Follows mutex.protocol
      (fun value last => post value ∧ last = place)
      (fun _ last => last = place) place :=
    uses.follows permitted fun _ used reply => move_other used place reply
  exact follows.mono (fun _ _ known => known.2) fun _ _ => id

theorem guards_outside
    {program : Program Call Reply ε α} {post : α → Prop}
    (uses : program.Uses (fun request => mutex.use request = .other) post) :
    mutex.Guards program .outside := by
  refine (follows_spared uses fun _ => id).mono ?_ ?_
  · rintro _ _ rfl impossible
    cases impossible
  · rintro _ _ rfl impossible
    cases impossible

/-- A body between taking the lock and giving it back. -/
theorem guards_critical
    {acquire : Call} {body : Program Call Reply ε α}
    {free : Program Call Reply ε Unit} {post : α → Prop}
    (acquires : mutex.use acquire = .acquire)
    (uses : body.Uses (fun request => mutex.use request = .other) post)
    (frees : free.Follows mutex.protocol (fun _ last => last = .left)
      (fun _ last => last = .left) .inside) :
    (Program.perform acquire >>= fun _ => body.ensuring free).Follows
      mutex.protocol (fun _ last => last = .left)
      (fun _ last => last ≠ .inside) .waiting := by
  refine Program.follows_perform_next acquires (fun value => ?_)
    fun error => ?_
  · have moved : mutex.protocol.advance .waiting acquire (.ok value) =
        .inside := by
      change mutex.move .waiting acquire (.ok value) = .inside
      rw [move, acquires]
      rfl
    rw [moved]
    have inside : body.Follows mutex.protocol (fun _ last => last = .inside)
        (fun _ last => last = .inside) .inside := by
      refine follows_spared uses fun request used => ?_
      change mutex.use request ≠ .acquire
      rw [used]
      exact LockUse.noConfusion
    refine inside.ensuring ?_ ?_
    · rintro value _ rfl
      refine frees.mono (fun _ _ => id) ?_
      rintro _ _ rfl impossible
      cases impossible
    · rintro error _ rfl
      refine frees.mono ?_ ?_
      · rintro _ _ rfl impossible
        cases impossible
      · rintro _ _ rfl impossible
        cases impossible
  · change mutex.move .waiting acquire (.error error) ≠ .inside
    rw [move, acquires]
    exact Place.noConfusion

end Programs

/-! ## Mutual exclusion -/

section Pools

open Pool

variable [DecidableEq ι] {mutex : Mutex answers}
variable {start pool : Pool ι Call Reply ε α World Place}

/-- The lock is held exactly while one thread is inside. -/
structure Exclusive
    (mutex : Mutex answers) (pool : Pool ι Call Reply ε α World Place) :
    Prop where
  held : mutex.held pool.world = true ↔
    ∃ thread, pool.records thread = .inside
  single : ∀ first second, pool.records first = .inside →
    pool.records second = .inside → first = second

omit [DecidableEq ι] in
theorem exclusive_launch
    (free : mutex.held start.world = false)
    (fresh : ∀ thread, start.records thread ≠ .inside) :
    mutex.Exclusive start := by
  refine ⟨⟨fun held => ?_, ?_⟩, fun first _ inside => absurd inside
    (fresh first)⟩
  · rw [free] at held
    cases held
  · rintro ⟨thread, inside⟩
    exact absurd inside (fresh thread)

/-- A permitted call takes a free lock, gives back the caller's own, or leaves
it alone. -/
theorem Exclusive.step
    {thread : ι} {request : Call}
    {next : Except ε (Reply request) → Program Call Reply ε α}
    {reply : Except ε (Reply request)} {after : World}
    (exclusive : mutex.Exclusive pool)
    (permitted : mutex.permits (pool.records thread) request)
    (answered : answers request pool.world reply after) :
    mutex.Exclusive
      (pool.resume mutex.protocol thread request next reply after) := by
  have own : (pool.resume mutex.protocol thread request next reply
      after).records thread =
        mutex.move (pool.records thread) request reply :=
    Function.update_self _ _ _
  have others (other : ι) (different : other ≠ thread) :
      (pool.resume mutex.protocol thread request next reply
        after).records other = pool.records other :=
    Function.update_of_ne different _ _
  cases use : mutex.use request with
  | acquire =>
      obtain ⟨free, taken, value, rfl⟩ :=
        mutex.acquired _ _ _ _ use answered
      have none_inside (other : ι) : pool.records other ≠ .inside := by
        intro inside
        have held := exclusive.held.mpr ⟨other, inside⟩
        rw [free] at held
        cases held
      have moved : mutex.move (pool.records thread) request (.ok value) =
          .inside := by
        rw [move, use]
        rfl
      rw [moved] at own
      have only (other : ι) (inside : (pool.resume mutex.protocol thread
          request next (.ok value) after).records other = .inside) :
          other = thread := by
        by_contra different
        rw [others other different] at inside
        exact none_inside other inside
      refine ⟨⟨fun _ => ⟨thread, own⟩, fun _ => taken⟩,
        fun first second firstInside secondInside => ?_⟩
      rw [only first firstInside, only second secondInside]
  | release =>
      have freed := mutex.released _ _ _ _ use answered
      have inside := inside_of_release permitted use
      have moved : mutex.move (pool.records thread) request reply = .left := by
        rw [move, use]
      rw [moved] at own
      have none_inside (other : ι) : (pool.resume mutex.protocol thread
          request next reply after).records other ≠ .inside := by
        intro still
        by_cases same : other = thread
        · rw [same, own] at still
          cases still
        · rw [others other same] at still
          exact same (exclusive.single other thread still inside)
      refine ⟨⟨fun held => ?_, ?_⟩, fun first _ firstInside _ =>
        absurd firstInside (none_inside first)⟩
      · change mutex.held after = true at held
        rw [freed] at held
        cases held
      · rintro ⟨other, still⟩
        exact absurd still (none_inside other)
  | other =>
      have same := mutex.spared _ _ _ _ use answered
      have records (other : ι) : (pool.resume mutex.protocol thread request
          next reply after).records other = pool.records other := by
        by_cases acts : other = thread
        · rw [acts, own, move, use]
        · exact others other acts
      constructor
      · change mutex.held after = true ↔ _
        rw [same]
        simp only [records]
        exact exclusive.held
      · intro first second firstInside secondInside
        rw [records] at firstInside secondInside
        exact exclusive.single first second firstInside secondInside

/-- In every pool reached the lock is held exactly while one thread is inside,
and no thread that has returned or failed is. -/
theorem exclusion
    {allowed : Pool ι Call Reply ε α World Place → ι → Call → Prop}
    (guards : ∀ thread,
      mutex.Guards (start.threads thread) (start.records thread))
    (exclusive : mutex.Exclusive start)
    (reached : Reaches mutex.protocol answers allowed start pool) :
    mutex.Exclusive pool ∧ ∀ thread,
      mutex.Guards (pool.threads thread) (pool.records thread) := by
  refine ⟨?_, fun thread => reached.follows_own (guards thread)⟩
  exact Reaches.preserves
    (fun _ _ _ _ _ _ held _ _ permitted answered =>
      held.step permitted answered)
    (fun thread => (guards thread).anyway) exclusive reached

/-! ## Critical sections do not interleave -/

theorem begun_move
    {place : Place} (begun : Place.Begun place) (request : Call)
    (reply : Except ε (Reply request)) :
    Place.Begun (mutex.move place request reply) := by
  unfold move
  split
  · split
    · exact .inl rfl
    · exact begun
  · exact .inr rfl
  · exact begun

theorem move_outside
    {place : Place} (critical : place ≠ .outside) (request : Call)
    (reply : Except ε (Reply request)) :
    mutex.move place request reply ≠ .outside := by
  unfold move
  split
  · split
    · exact Place.noConfusion
    · exact critical
  · exact Place.noConfusion
  · exact critical

/-- What a thread's place keeps under its own calls, it keeps in a run. -/
theorem place_kept
    {holds : Place → Prop} {moments : List (Moment ι Call Reply ε World)}
    {thread : ι}
    (kept : ∀ place request reply, holds place →
      mutex.permits place request → holds (mutex.move place request reply))
    (guards : mutex.Guards (start.threads thread) (start.records thread))
    (ran : Run mutex.protocol answers start moments pool)
    (initially : holds (start.records thread)) :
    holds (pool.records thread) := by
  induction ran with
  | refl => exact initially
  | @tail moments before final actor request reply earlier step
      inductionHypothesis =>
      have acting := earlier.reaches.follows_own guards
      obtain ⟨waiting, -⟩ := step
      by_cases same : thread = actor
      · subst same
        rw [waiting] at acting
        have moved : holds (mutex.protocol.advance (before.records thread)
            request reply) := kept _ _ reply inductionHypothesis acting.1
        simpa [resume] using moved
      · simpa [resume, same] using inductionHypothesis

/-- The thread has taken the lock in this run and not given it back. -/
def Holds
    (mutex : Mutex answers) (moments : List (Moment ι Call Reply ε World))
    (thread : ι) : Prop :=
  (∃ moment ∈ moments, moment.thread = thread ∧
    mutex.use moment.event.request = .acquire) ∧
  ∀ moment ∈ moments, moment.thread = thread →
    mutex.use moment.event.request ≠ .release

/-- A thread that makes a step was permitted to make it. -/
theorem step_permitted
    {final : Pool ι Call Reply ε α World Place} {thread : ι} {request : Call}
    {reply : Except ε (Reply request)}
    (guards : mutex.Guards (pool.threads thread) (pool.records thread))
    (step : Step mutex.protocol answers pool thread request reply final) :
    mutex.permits (pool.records thread) request := by
  obtain ⟨waiting, -⟩ := step
  rw [waiting] at guards
  exact guards.1

/-- What a place says of the calls that its thread has made. -/
def Told
    (mutex : Mutex answers) (moments : List (Moment ι Call Reply ε World))
    (thread : ι) : Place → Prop
  | .outside | .waiting => ∀ moment ∈ moments, moment.thread = thread →
      mutex.use moment.event.request = .other
  | .inside => mutex.Holds moments thread
  | .left => ∃ moment ∈ moments, moment.thread = thread ∧
      mutex.use moment.event.request = .release

omit [DecidableEq ι] in
/-- A call of another thread tells nothing of this one. -/
theorem told_other
    {moments : List (Moment ι Call Reply ε World)} {thread : ι} {place : Place}
    {moment : Moment ι Call Reply ε World} (different : moment.thread ≠ thread)
    (told : mutex.Told moments thread place) :
    mutex.Told (moments ++ [moment]) thread place := by
  have same (holds : Call → Prop)
      (own : ∀ moment ∈ moments, moment.thread = thread →
        holds moment.event.request) :
      ∀ later ∈ moments ++ [moment], later.thread = thread →
        holds later.event.request := by
    intro later among acts
    rcases List.mem_append.mp among with already | last
    · exact own later already acts
    · rw [List.mem_singleton.mp last] at acts
      exact absurd acts different
  have kept (holds : Call → Prop)
      (own : ∃ moment ∈ moments, moment.thread = thread ∧
        holds moment.event.request) :
      ∃ later ∈ moments ++ [moment], later.thread = thread ∧
        holds later.event.request := by
    obtain ⟨earlier, already, known⟩ := own
    exact ⟨earlier, List.mem_append_left _ already, known⟩
  cases place with
  | outside | waiting =>
      exact same (fun request => mutex.use request = .other) told
  | inside =>
      exact ⟨kept (fun request => mutex.use request = .acquire) told.1,
        same (fun request => mutex.use request ≠ .release) told.2⟩
  | left => exact kept (fun request => mutex.use request = .release) told

omit [DecidableEq ι] in
/-- A permitted call of the thread itself. -/
theorem told_own
    {moments : List (Moment ι Call Reply ε World)} {place : Place}
    {moment : Moment ι Call Reply ε World}
    (permitted : mutex.permits place moment.event.request)
    (answered : answers moment.event.request moment.event.before
      moment.event.reply moment.event.after)
    (told : mutex.Told moments moment.thread place) :
    mutex.Told (moments ++ [moment]) moment.thread
      (mutex.move place moment.event.request moment.event.reply) := by
  have last : moment ∈ moments ++ [moment] :=
    List.mem_append_right _ List.mem_cons_self
  have extended (holds : Call → Prop) (now : holds moment.event.request)
      (own : ∀ earlier ∈ moments, earlier.thread = moment.thread →
        holds earlier.event.request) :
      ∀ earlier ∈ moments ++ [moment], earlier.thread = moment.thread →
        holds earlier.event.request := by
    intro earlier among acts
    rcases List.mem_append.mp among with already | last
    · exact own earlier already acts
    · cases List.mem_singleton.mp last
      exact now
  cases place with
  | outside =>
      have other : mutex.use moment.event.request = .other := permitted
      rw [move, other]
      exact extended (fun request => mutex.use request = .other) other told
  | waiting =>
      have acquires : mutex.use moment.event.request = .acquire := permitted
      obtain ⟨-, -, value, same⟩ := mutex.acquired _ _ _ _ acquires answered
      rw [move, acquires, same]
      refine ⟨⟨moment, last, rfl, acquires⟩,
        extended (fun request => mutex.use request ≠ .release) ?_ ?_⟩
      · rw [acquires]
        exact LockUse.noConfusion
      · intro earlier already acts
        rw [told earlier already acts]
        exact LockUse.noConfusion
  | inside =>
      cases use : mutex.use moment.event.request with
      | acquire => exact absurd use permitted
      | release =>
          rw [move, use]
          exact ⟨moment, last, rfl, use⟩
      | other =>
          rw [move, use]
          obtain ⟨⟨taking, among, known⟩, unreleased⟩ := told
          refine ⟨⟨taking, List.mem_append_left _ among, known⟩,
            extended (fun request => mutex.use request ≠ .release) ?_
              unreleased⟩
          rw [use]
          exact LockUse.noConfusion
  | left => exact permitted.elim

theorem told_run
    {moments : List (Moment ι Call Reply ε World)} {thread : ι}
    (guards : mutex.Guards (start.threads thread) (start.records thread))
    (fresh : start.records thread = .outside ∨ start.records thread = .waiting)
    (ran : Run mutex.protocol answers start moments pool) :
    mutex.Told moments thread (pool.records thread) := by
  induction ran with
  | refl =>
      rcases fresh with place | place
      all_goals
        rw [place]
        exact fun _ among => absurd among List.not_mem_nil
  | @tail moments before final actor request reply earlier step
      inductionHypothesis =>
      have own := earlier.reaches.follows_own guards
      by_cases same : actor = thread
      · subst same
        have permitted := step_permitted own step
        obtain ⟨waiting, answered⟩ := step
        rename_i next after
        have moved : (before.resume mutex.protocol actor request next reply
            after).records actor =
              mutex.move (before.records actor) request reply :=
          Function.update_self _ _ _
        rw [moved]
        let last : Moment ι Call Reply ε World :=
          ⟨actor, before.world, request, reply, after⟩
        have answeredLast : answers last.event.request last.event.before
            last.event.reply last.event.after := answered
        exact told_own permitted answeredLast inductionHypothesis
      · have kept : final.records thread = before.records thread := by
          obtain ⟨-, -⟩ := step
          exact Function.update_of_ne (Ne.symm same) _ _
        rw [kept]
        exact told_other same inductionHypothesis

/-- The thread inside is the one that holds the lock. -/
theorem inside_iff_holds
    {moments : List (Moment ι Call Reply ε World)} {thread : ι}
    (guards : mutex.Guards (start.threads thread) (start.records thread))
    (fresh : start.records thread = .outside ∨ start.records thread = .waiting)
    (ran : Run mutex.protocol answers start moments pool) :
    pool.records thread = .inside ↔ mutex.Holds moments thread := by
  have told := told_run guards fresh ran
  constructor
  · intro inside
    rw [inside] at told
    exact told
  · rintro ⟨⟨taking, among, own, acquires⟩, unreleased⟩
    cases place : pool.records thread with
    | inside => rfl
    | outside | waiting =>
        rw [place] at told
        have other := told taking among own
        rw [acquires] at other
        cases other
    | left =>
        rw [place] at told
        obtain ⟨moment, among, own, releases⟩ := told
        exact absurd releases (unreleased moment among own)

/-- A critical program that makes a step has begun. -/
theorem begun_step
    {final : Pool ι Call Reply ε α World Place} {thread : ι} {request : Call}
    {reply : Except ε (Reply request)}
    (guards : mutex.Guards (pool.threads thread) (pool.records thread))
    (critical : pool.records thread ≠ .outside)
    (step : Step mutex.protocol answers pool thread request reply final) :
    Place.Begun (final.records thread) := by
  have permitted := step_permitted guards step
  obtain ⟨waiting, answered⟩ := step
  rename_i next after
  have moved : (pool.resume mutex.protocol thread request next reply
      after).records thread = mutex.move (pool.records thread) request reply :=
    Function.update_self _ _ _
  rw [moved]
  cases place : pool.records thread with
  | outside => exact absurd place critical
  | waiting =>
      rw [place] at permitted
      obtain ⟨-, -, value, rfl⟩ :=
        mutex.acquired _ _ _ _ permitted answered
      rw [move, show mutex.use request = .acquire from permitted]
      exact .inl rfl
  | inside => exact begun_move (.inl rfl) request reply
  | left => exact begun_move (.inr rfl) request reply

/-- Between two steps of one critical program there is no step of another. -/
theorem sections_apart
    {earlier between after later : List (Moment ι Call Reply ε World)}
    {first other second : Moment ι Call Reply ε World}
    (guards : ∀ thread,
      mutex.Guards (start.threads thread) (start.records thread))
    (exclusive : mutex.Exclusive start)
    (critical : start.records first.thread ≠ .outside)
    (otherCritical : start.records other.thread ≠ .outside)
    (same : second.thread = first.thread)
    (different : other.thread ≠ first.thread) :
    ¬Run mutex.protocol answers start
      (earlier ++ first :: (between ++ other :: (after ++ second :: later)))
      pool := by
  intro ran
  obtain ⟨atFirst, toFirst, fromFirst⟩ := ran.split
  obtain ⟨afterFirst, firstStep, rest⟩ := fromFirst.head
  obtain ⟨atOther, toOther, fromOther⟩ := rest.split
  obtain ⟨afterOther, otherStep, rest⟩ := fromOther.head
  obtain ⟨atSecond, toSecond, fromSecond⟩ := rest.split
  obtain ⟨afterSecond, secondStep, -⟩ := fromSecond.head
  have reachedOther := (toFirst.tail firstStep).reaches.trans toOther.reaches
  have atFirstGuards := (exclusion guards exclusive toFirst.reaches).2
  have afterFirstGuards :=
    (exclusion guards exclusive (toFirst.tail firstStep).reaches).2
  obtain ⟨exclusiveOther, otherGuards⟩ :=
    exclusion guards exclusive reachedOther
  have secondGuards := (exclusion guards exclusive
    ((reachedOther.tail trivial otherStep).trans toSecond.reaches)).2
  have stays (place : Place) (request : Call)
      (reply : Except ε (Reply request)) (held : place ≠ .outside)
      (_ : mutex.permits place request) :
      mutex.move place request reply ≠ .outside :=
    move_outside held request reply
  have begun := begun_step (atFirstGuards _)
    (place_kept stays (guards _) toFirst critical) firstStep
  -- The first thread is inside when the other one makes its step: it has
  -- begun, and it has not left, as it goes on afterwards.
  have inside : atOther.records first.thread = .inside := by
    have proceeds (place : Place) (request : Call)
        (reply : Except ε (Reply request)) (held : place.Begun)
        (_ : mutex.permits place request) :
        (mutex.move place request reply).Begun :=
      begun_move held request reply
    have begunOther := place_kept proceeds (afterFirstGuards _) toOther begun
    refine begunOther.resolve_right fun left => ?_
    have leftAfter : afterOther.records first.thread = .left := by
      obtain ⟨-, -⟩ := otherStep
      simpa [resume, Ne.symm different] using left
    have leftSecond : atSecond.records first.thread = .left := by
      refine @place_kept _ _ _ _ _ _ _ _ _ afterOther atSecond
        (fun place => place = .left) _ first.thread ?_ ?_ toSecond leftAfter
      · rintro _ _ _ rfl impossible
        exact impossible.elim
      · exact (exclusion guards exclusive
          (reachedOther.tail trivial otherStep)).2 _
    have permitted := step_permitted (secondGuards _) secondStep
    rw [same, leftSecond] at permitted
    exact permitted
  have otherPermitted := step_permitted (otherGuards _) otherStep
  cases place : atOther.records other.thread with
  | outside =>
      exact place_kept stays (guards _) (toFirst.tail firstStep |>.trans toOther)
        otherCritical place
  | waiting =>
      rw [place] at otherPermitted
      obtain ⟨-, answered⟩ := otherStep
      have free := (mutex.acquired _ _ _ _ otherPermitted answered).1
      rw [exclusiveOther.held.mpr ⟨_, inside⟩] at free
      cases free
  | inside => exact different (exclusiveOther.single _ _ place inside)
  | left =>
      rw [place] at otherPermitted
      exact otherPermitted

/-! ## Progress -/

/-- Where calls are answered, and the lock can be taken when it is free, some
thread can go on, unless all have ended or the one inside spins for ever. -/
theorem progress
    (answered : ∀ request world, mutex.use request ≠ .acquire →
      ∃ reply after, answers request world reply after)
    (free : ∀ request world, mutex.use request = .acquire →
      mutex.held world = false → ∃ reply after,
        answers request world reply after)
    (guards : ∀ thread,
      mutex.Guards (pool.threads thread) (pool.records thread))
    (exclusive : mutex.Exclusive pool) :
    (∃ thread request reply final,
      Step mutex.protocol answers pool thread request reply final) ∨
    (∀ thread request, ¬pool.Issues thread request) ∨
    ∃ thread, pool.records thread = .inside ∧ pool.threads thread = .spin := by
  by_contra stuck
  simp only [not_or, not_exists, not_forall, not_not, not_and] at stuck
  obtain ⟨blocked, ⟨thread, request, next, waiting⟩, unspun⟩ := stuck
  have acquires {thread : ι} {request : Call}
      {next : Except ε (Reply request) → Program Call Reply ε α}
      (waiting : pool.threads thread = .call request next) :
      mutex.use request = .acquire ∧ mutex.held pool.world = true := by
    have acquiring : mutex.use request = .acquire := by
      by_contra other
      obtain ⟨reply, after, answer⟩ := answered request pool.world other
      exact blocked thread request reply _ (.call waiting answer)
    refine ⟨acquiring, ?_⟩
    by_contra held
    rw [Bool.not_eq_true] at held
    obtain ⟨reply, after, answer⟩ := free request pool.world acquiring held
    exact blocked thread request reply _ (.call waiting answer)
  obtain ⟨holder, inside⟩ := exclusive.held.mp (acquires waiting).2
  have holds := guards holder
  rw [inside] at holds
  cases program : pool.threads holder with
  | done value =>
      rw [program] at holds
      exact holds rfl
  | fail error =>
      rw [program] at holds
      exact holds rfl
  | spin => exact unspun holder inside program
  | call request next =>
      rw [program] at holds
      exact holds.1 (acquires program).1

end Pools

/-! ## One after the other -/

/-- How a thread has ended, if it has. -/
def endingOf : Program Call Reply ε α → Ending ε α
  | .done value => .returned value
  | .fail error => .failed error
  | _ => .dropped

theorem ends_self
    (program : Program Call Reply ε α) (world : World) :
    program.Ends answers world [] (endingOf program) world := by
  cases program with
  | done value => exact .returned value world
  | fail error => exact .failed error world
  | spin => exact .dropped _ world
  | call request next => exact .dropped _ world

/-- The programs ran one after the other, each to its ending, in these
steps. -/
inductive Serial
    (answers : Answers Call Reply ε World)
    (programs : ι → Program Call Reply ε α) (start : World) :
    List (ι × Ending ε α) → List (Moment ι Call Reply ε World) →
      World → Prop
  | nil : Serial answers programs start [] [] start
  | snoc
      {ended : List (ι × Ending ε α)} {thread : ι} {ending : Ending ε α}
      {past : List (Moment ι Call Reply ε World)}
      {events : List (Event Call Reply ε World)} {middle final : World}
      (serial : Serial answers programs start ended past middle)
      (ran : (programs thread).Ends answers middle events ending final) :
      Serial answers programs start (ended ++ [(thread, ending)])
        (past ++ events.map (Moment.mk thread)) final

section Serial

open Pool

variable [DecidableEq ι] {mutex : Mutex answers}

/-- Where a run of critical programs is: some have ended one after the other,
at most one is under way, to which the latest steps belong, and the others have
not begun. -/
structure Serialized
    (mutex : Mutex answers) (programs : ι → Program Call Reply ε α)
    (start : World) (moments : List (Moment ι Call Reply ε World))
    (pool : Pool ι Call Reply ε α World Place)
    (ended : List (ι × Ending ε α))
    (past : List (Moment ι Call Reply ε World)) (middle : World) : Prop where
  serial : Serial answers programs start ended past middle
  once : (ended.map Prod.fst).Nodup
  endings : ∀ entry ∈ ended, pool.records entry.1 = .left ∧
    endingOf (pool.threads entry.1) = entry.2
  /-- A thread that has not ended has not begun, or is under way. -/
  others : ∀ thread, thread ∉ ended.map Prod.fst →
    pool.records thread = .waiting ∧ pool.threads thread = programs thread ∨
    pool.records thread = .inside ∧
      ∃ events, moments = past ++ events.map (Moment.mk thread) ∧
        ∀ more ending final,
          (pool.threads thread).Ends answers pool.world more ending final →
            (programs thread).Ends answers middle (events ++ more) ending final
  idle : (∀ thread, pool.records thread ≠ .inside) →
    pool.world = middle ∧ moments = past

variable {programs : ι → Program Call Reply ε α} {start : World}
variable {pool : Pool ι Call Reply ε α World Place}
variable {moments past : List (Moment ι Call Reply ε World)}
variable {ended : List (ι × Ending ε α)} {middle : World}

theorem Serialized.step
    {thread : ι} {request : Call}
    {next : Except ε (Reply request) → Program Call Reply ε α}
    {reply : Except ε (Reply request)} {after : World}
    (serialized : mutex.Serialized programs start moments pool ended past
      middle)
    (exclusive : mutex.Exclusive pool)
    (waiting : pool.threads thread = .call request next)
    (permitted : mutex.permits (pool.records thread) request)
    (answered : answers request pool.world reply after) :
    ∃ later past middle, mutex.Serialized programs start
        (moments ++ [⟨thread, pool.world, request, reply, after⟩])
        (pool.resume mutex.protocol thread request next reply after)
        later past middle ∧
      later.map Prod.fst = ended.map Prod.fst ++
        if mutex.use request = .release then [thread] else [] := by
  have unended : thread ∉ ended.map Prod.fst := by
    intro among
    obtain ⟨entry, present, rfl⟩ := List.mem_map.mp among
    rw [(serialized.endings entry present).1] at permitted
    exact permitted
  have ownRecord : (pool.resume mutex.protocol thread request next reply
      after).records thread = mutex.move (pool.records thread) request reply :=
    Function.update_self _ _ _
  have ownThread : (pool.resume mutex.protocol thread request next reply
      after).threads thread = next reply := Function.update_self _ _ _
  have otherRecord {other : ι} (different : other ≠ thread) :
      (pool.resume mutex.protocol thread request next reply
        after).records other = pool.records other :=
    Function.update_of_ne different _ _
  have otherThread {other : ι} (different : other ≠ thread) :
      (pool.resume mutex.protocol thread request next reply
        after).threads other = pool.threads other :=
    Function.update_of_ne different _ _
  have kept (entry : ι × Ending ε α) (among : entry ∈ ended) :
      (pool.resume mutex.protocol thread request next reply
          after).records entry.1 = .left ∧
        endingOf ((pool.resume mutex.protocol thread request next reply
          after).threads entry.1) = entry.2 := by
    have different : entry.1 ≠ thread := by
      rintro rfl
      exact unended (List.mem_map_of_mem among)
    rw [otherRecord different, otherThread different]
    exact serialized.endings entry among
  -- No other thread is inside, before and after the step.
  have aside {other : ι} (different : other ≠ thread)
      (alone : pool.records other ≠ .inside)
      (rests : other ∉ ended.map Prod.fst) :
      (pool.resume mutex.protocol thread request next reply
          after).records other = .waiting ∧
        (pool.resume mutex.protocol thread request next reply
          after).threads other = programs other := by
    rw [otherRecord different, otherThread different]
    exact (serialized.others other rests).resolve_right fun inside =>
      alone inside.1
  rcases serialized.others thread unended with
    ⟨waits, untouched⟩ | ⟨inside, continues⟩
  · -- The thread takes the lock, so no other one is inside.
    rw [waits] at permitted ownRecord
    obtain ⟨free, taken, value, rfl⟩ := mutex.acquired _ _ _ _ permitted answered
    have alone (other : ι) : pool.records other ≠ .inside := by
      intro inside
      rw [exclusive.held.mpr ⟨other, inside⟩] at free
      cases free
    have moved : mutex.move .waiting request (.ok value) = .inside := by
      rw [move, show mutex.use request = .acquire from permitted]
      rfl
    rw [moved] at ownRecord
    obtain ⟨same, before⟩ := serialized.idle alone
    refine ⟨ended, past, middle, ⟨serialized.serial, serialized.once, kept,
      fun other rests => ?_, fun none => absurd ownRecord (none thread)⟩, ?_⟩
    swap
    · rw [show mutex.use request = .acquire from permitted,
        if_neg LockUse.noConfusion, List.append_nil]
    by_cases own : other = thread
    · subst own
      refine .inr ⟨ownRecord, [⟨pool.world, request, .ok value, after⟩],
        by rw [before]; rfl, fun more ending final ends => ?_⟩
      rw [ownThread] at ends
      rw [← same, ← untouched, waiting]
      exact .step answered ends
    · exact .inl (aside own (alone other) rests)
  · obtain ⟨events, since, continues⟩ := continues
    have alone {other : ι} (different : other ≠ thread) :
        pool.records other ≠ .inside :=
      fun also => different (exclusive.single other thread also inside)
    rw [inside] at permitted ownRecord
    cases use : mutex.use request with
    | acquire => exact absurd use permitted
    | release =>
        have moved : mutex.move .inside request reply = .left := by
          rw [move, use]
        rw [moved] at ownRecord
        have ends : (pool.threads thread).Ends answers pool.world
            [⟨pool.world, request, reply, after⟩] (endingOf (next reply))
            after := by
          rw [waiting]
          exact .step answered (ends_self (next reply) after)
        have ran := continues _ _ _ ends
        refine ⟨ended ++ [(thread, endingOf (next reply))], _, after,
          ⟨serialized.serial.snoc ran, ?_, fun entry among => ?_,
            fun other rests => .inl ?_, fun _ => ⟨rfl, ?_⟩⟩,
          by rw [List.map_append, if_pos rfl]; rfl⟩
        · rw [List.map_append, List.nodup_append]
          refine ⟨serialized.once, List.nodup_singleton _, ?_⟩
          rintro other among _ last rfl
          cases List.mem_singleton.mp last
          exact unended among
        · rcases List.mem_append.mp among with already | now
          · exact kept entry already
          · cases List.mem_singleton.mp now
            exact ⟨ownRecord, by rw [ownThread]⟩
        · rw [List.map_append, List.mem_append, not_or] at rests
          have different : other ≠ thread := by
            rintro rfl
            exact rests.2 List.mem_cons_self
          exact aside different (alone different) rests.1
        · rw [since, List.map_append, List.append_assoc]
          rfl
    | other =>
        have moved : mutex.move .inside request reply = .inside := by
          rw [move, use]
        rw [moved] at ownRecord
        refine ⟨ended, past, middle, ⟨serialized.serial, serialized.once, kept,
          fun other rests => ?_, fun none => absurd ownRecord (none thread)⟩,
          by rw [if_neg LockUse.noConfusion, List.append_nil]⟩
        by_cases same : other = thread
        · subst same
          refine .inr ⟨ownRecord,
            events ++ [⟨pool.world, request, reply, after⟩], ?_,
            fun more ending final ends => ?_⟩
          · rw [since, List.map_append, List.append_assoc]
            rfl
          rw [ownThread] at ends
          rw [List.append_assoc]
          refine continues (⟨pool.world, request, reply, after⟩ :: more)
            ending final ?_
          rw [waiting]
          exact .step answered ends
        · exact .inl (aside same (alone same) rests)

/-- A thread that has ended has its place in the order. -/
theorem Serialized.mem_ended
    {thread : ι}
    (serialized : mutex.Serialized programs start moments pool ended past
      middle)
    (guards : mutex.Guards (pool.threads thread) (pool.records thread))
    (begins : endingOf (programs thread) = .dropped)
    (finished : endingOf (pool.threads thread) ≠ .dropped) :
    (thread, endingOf (pool.threads thread)) ∈ ended := by
  by_cases among : thread ∈ ended.map Prod.fst
  · obtain ⟨entry, present, rfl⟩ := List.mem_map.mp among
    rw [(serialized.endings entry present).2]
    exact present
  · rcases serialized.others thread among with
      ⟨-, untouched⟩ | ⟨inside, -⟩
    · rw [untouched] at finished
      exact absurd begins finished
    · rw [inside] at guards
      cases program : pool.threads thread with
      | done value =>
          rw [program] at guards
          exact absurd rfl guards
      | fail error =>
          rw [program] at guards
          exact absurd rfl guards
      | spin | call =>
          rw [program] at finished
          exact absurd rfl finished

/-- The threads that gave the lock back, in the order in which they did. -/
def leavers
    (mutex : Mutex answers) (moments : List (Moment ι Call Reply ε World)) :
    List ι :=
  (moments.filter fun moment =>
    mutex.use moment.event.request = .release).map Moment.thread

omit [DecidableEq ι] in
/-- The steps since the last program ended are those of the one inside. -/
theorem Serialized.rest
    (serialized : mutex.Serialized programs start moments pool ended past
      middle) :
    ∃ rest, moments = past ++ rest ∧
      ∀ moment ∈ rest, pool.records moment.thread = .inside := by
  by_cases alone : ∀ thread, pool.records thread ≠ .inside
  · refine ⟨[], ?_, by rintro moment ⟨⟩⟩
    rw [List.append_nil]
    exact (serialized.idle alone).2
  · rw [not_forall] at alone
    obtain ⟨thread, inside⟩ := alone
    rw [not_not] at inside
    have unended : thread ∉ ended.map Prod.fst := by
      intro among
      obtain ⟨entry, present, rfl⟩ := List.mem_map.mp among
      have left := (serialized.endings entry present).1
      rw [inside] at left
      cases left
    rcases serialized.others thread unended with
      ⟨waits, -⟩ | ⟨-, events, since, -⟩
    · rw [inside] at waits
      cases waits
    · refine ⟨_, since, fun moment among => ?_⟩
      obtain ⟨event, -, rfl⟩ := List.mem_map.mp among
      exact inside

/-- Whatever the interleaving, critical programs run one after the other, in
the order in which they give the lock back. -/
theorem serializes
    {moments : List (Moment ι Call Reply ε World)}
    (guards : ∀ thread, mutex.Guards (programs thread) .waiting)
    (free : mutex.held start = false)
    (ran : Run mutex.protocol answers (.launch .waiting programs start) moments
      pool) :
    ∃ ended past middle,
      mutex.Serialized programs start moments pool ended past middle ∧
        ended.map Prod.fst = mutex.leavers moments := by
  have exclusive : mutex.Exclusive
      (.launch .waiting programs start : Pool ι Call Reply ε α World Place) :=
    exclusive_launch free fun _ => Place.noConfusion
  induction ran with
  | refl =>
      exact ⟨[], [], start, ⟨.nil, List.nodup_nil, by rintro entry ⟨⟩,
        fun thread _ => .inl ⟨rfl, rfl⟩, fun _ => ⟨rfl, rfl⟩⟩, rfl⟩
  | @tail moments before final thread request reply earlier step
      inductionHypothesis =>
      obtain ⟨ended, past, middle, serialized, order⟩ := inductionHypothesis
      have known := exclusion guards exclusive earlier.reaches
      have allows := step_permitted (known.2 thread) step
      obtain ⟨waiting, answered⟩ := step
      obtain ⟨later, since, last, goesOn, extended⟩ :=
        serialized.step known.1 waiting allows answered
      refine ⟨later, since, last, goesOn, ?_⟩
      rw [extended, order, leavers, leavers, List.filter_append,
        List.map_append]
      by_cases releases : mutex.use request = .release <;> simp [releases]

end Serial

end Mutex

end Effects
