import Marmotte.Effects.Rely

/-!
# Histories of runs

A run of a pool kept as the list of its steps, and sequential objects that such
a list can be compared with.  A run is linearizable when some of its steps are
the instants at which its threads act on the object: the object allows these
actions in the order of the steps, and an action is always a step of the thread
that performs it, so threads that do not overlap act in the order of time.
-/

namespace Effects

/-! ## Sequential objects -/

section Objects

variable {σ τ Action Action' : Type}

/-- The object allows these actions one after the other. -/
inductive Legal
    (allows : σ → Action → σ → Prop) (start : σ) : List Action → σ → Prop
  | nil : Legal allows start [] start
  | snoc
      {actions : List Action} {action : Action} {middle final : σ}
      (legal : Legal allows start actions middle)
      (allowed : allows middle action final) :
      Legal allows start (actions ++ [action]) final

/-- What one object allows, its image under a change of representation
allows. -/
theorem Legal.map
    {allows : σ → Action → σ → Prop} {allows' : τ → Action' → τ → Prop}
    {start final : σ} {actions : List Action}
    (state : σ → τ) (rename : Action → Action')
    (preserved : ∀ before action after, allows before action after →
      allows' (state before) (rename action) (state after))
    (legal : Legal allows start actions final) :
    Legal allows' (state start) (actions.map rename) (state final) := by
  induction legal with
  | nil => exact .nil
  | snoc _ allowed inductionHypothesis =>
      rw [List.map_append]
      exact inductionHypothesis.snoc (preserved _ _ _ allowed)

/-- What a step does that may be an action: without one it leaves the state
alone. -/
def Performs (allows : σ → Action → σ → Prop) (before : σ) :
    Option Action → σ → Prop
  | some action, after => allows before action after
  | none, after => after = before

end Objects

/-! ## Runs with their steps -/

/-- One step of a run: which thread made a call, and what came of it. -/
structure Moment
    (ι Call : Type) (Reply : Call → Type) (ε World : Type) where
  thread : ι
  event : Event Call Reply ε World

/-- What every step observes of its thread's own calls. -/
def observing
    {Action : Type}
    (observe : (request : Call) → Except ε (Reply request) → Option Action)
    (allowed : List Action → Prop) :
    Protocol Call Reply ε (List Action) where
  permits past request :=
    ∀ reply, allowed (past ++ (observe request reply).toList)
  advance past request reply := past ++ (observe request reply).toList

/-- A call of which nothing is observed changes nothing in what was
observed. -/
theorem observing_silent
    {Call : Type} {Reply : Call → Type} {ε Action : Type}
    {observe : (request : Call) → Except ε (Reply request) → Option Action}
    {allowed : List Action → Prop} {past : List Action}
    (sofar : allowed past) {request : Call}
    (silent : ∀ reply, observe request reply = none) :
    (observing observe allowed).permits past request ∧
      ∀ reply, (observing observe allowed).advance past request reply =
        past := by
  constructor
  · intro reply
    rw [silent, Option.toList_none, List.append_nil]
    exact sofar
  · intro reply
    change past ++ (observe request reply).toList = past
    rw [silent, Option.toList_none, List.append_nil]

/-- A program of whose calls nothing is observed. -/
theorem Program.Uses.follows_silent
    {Call : Type} {Reply : Call → Type} {ε α Action : Type}
    {calls : Call → Prop}
    {observe : (request : Call) → Except ε (Reply request) → Option Action}
    {allowed : List Action → Prop} {past : List Action}
    {program : Program Call Reply ε α} {post : α → Prop}
    (uses : program.Uses calls post) (sofar : allowed past)
    (silent : ∀ request, calls request → ∀ reply,
      observe request reply = none) :
    program.Follows (observing observe allowed)
      (fun value last => post value ∧ last = past) (fun _ last => last = past)
      past :=
  uses.follows
    (fun request used => (observing_silent sofar (silent request used)).1)
    fun request used => (observing_silent sofar (silent request used)).2

/-- A program whose calls are all observed to be of one kind. -/
theorem Program.Uses.follows_observing
    {Call : Type} {Reply : Call → Type} {ε α Action : Type}
    {calls : Call → Prop} {kind : Action → Prop}
    {observe : (request : Call) → Except ε (Reply request) → Option Action}
    {allowed : List Action → Prop}
    {program : Program Call Reply ε α} {post : α → Prop}
    (uses : program.Uses calls post)
    (seen : ∀ request reply action, calls request →
      observe request reply = some action → kind action)
    (allows : ∀ past, (∀ action ∈ past, kind action) → allowed past)
    {past : List Action} (kinds : ∀ action ∈ past, kind action) :
    program.Follows (observing observe allowed)
      (fun value last => post value ∧ ∀ action ∈ last, kind action)
      (fun _ last => ∀ action ∈ last, kind action) past := by
  induction program generalizing past with
  | done value => exact ⟨uses, kinds⟩
  | fail error => exact kinds
  | spin => trivial
  | call request next inductionHypothesis =>
      have extended (reply : Except ε (Reply request)) :
          ∀ action ∈ past ++ (observe request reply).toList, kind action := by
        intro action among
        rcases List.mem_append.mp among with old | new
        · exact kinds action old
        · exact seen request reply action uses.1 (Option.mem_toList.mp new)
      exact ⟨fun reply => allows _ (extended reply), fun reply =>
        inductionHypothesis reply (uses.2 reply) (extended reply)⟩

namespace Pool

variable {ι Call : Type} {Reply : Call → Type} {ε α World Local : Type}
variable {σ Action Action' : Type}
variable [DecidableEq ι]

section Definitions

variable (protocol : Protocol Call Reply ε Local)
variable (answers : Answers Call Reply ε World)

/-- A run with its steps in order. -/
inductive Run (start : Pool ι Call Reply ε α World Local) :
    List (Moment ι Call Reply ε World) →
      Pool ι Call Reply ε α World Local → Prop
  | refl : Run start [] start
  | tail
      {moments : List (Moment ι Call Reply ε World)}
      {pool final : Pool ι Call Reply ε α World Local}
      {thread : ι} {request : Call} {reply : Except ε (Reply request)}
      (ran : Run start moments pool)
      (step : Step protocol answers pool thread request reply final) :
      Run start
        (moments ++ [⟨thread, pool.world, request, reply, final.world⟩]) final

end Definitions

/-- The actions that a run performs, each with the thread that performs it. -/
def history
    (act : Event Call Reply ε World → Option Action)
    (moments : List (Moment ι Call Reply ε World)) : List (ι × Action) :=
  moments.filterMap fun moment =>
    (act moment.event).map (moment.thread, ·)

/-- The actions of one thread. -/
def actionsOf (thread : ι) (history : List (ι × Action)) : List Action :=
  history.filterMap fun entry =>
    if entry.1 = thread then some entry.2 else none

omit [DecidableEq ι] in
theorem mem_history
    {act : Event Call Reply ε World → Option Action}
    {moments : List (Moment ι Call Reply ε World)} {entry : ι × Action} :
    entry ∈ history act moments ↔
      ∃ moment ∈ moments, moment.thread = entry.1 ∧
        act moment.event = some entry.2 := by
  simp only [history, List.mem_filterMap, Option.map_eq_some_iff]
  constructor
  · rintro ⟨moment, among, action, acts, rfl⟩
    exact ⟨moment, among, rfl, acts⟩
  · rintro ⟨moment, among, same, acts⟩
    exact ⟨moment, among, entry.2, acts, by rw [same]⟩

/-- The actions of one thread are those among its own steps. -/
theorem actionsOf_history
    (thread : ι) (act : Event Call Reply ε World → Option Action)
    (moments : List (Moment ι Call Reply ε World)) :
    actionsOf thread (history act moments) =
      (moments.filter fun moment => moment.thread = thread).filterMap
        fun moment => act moment.event := by
  induction moments with
  | nil => rfl
  | cons moment rest inductionHypothesis =>
      simp only [actionsOf, history, List.filterMap_cons, List.filter_cons]
        at inductionHypothesis ⊢
      by_cases own : moment.thread = thread <;>
        cases performed : act moment.event <;>
          simp [own, performed, inductionHypothesis]

/-- The actions of a thread are what its steps are seen as. -/
theorem mem_actionsOf
    {thread : ι} {act : Event Call Reply ε World → Option Action}
    {moments : List (Moment ι Call Reply ε World)} {action : Action} :
    action ∈ actionsOf thread (history act moments) ↔
      ∃ moment ∈ moments, moment.thread = thread ∧
        act moment.event = some action := by
  rw [actionsOf_history]
  constructor
  · intro among
    obtain ⟨moment, own, acts⟩ := List.mem_filterMap.mp among
    obtain ⟨within, same⟩ := List.mem_filter.mp own
    exact ⟨moment, within, of_decide_eq_true same, acts⟩
  · rintro ⟨moment, within, same, acts⟩
    exact List.mem_filterMap.mpr ⟨moment,
      List.mem_filter.mpr ⟨within, decide_eq_true same⟩, acts⟩

section Runs

variable {protocol : Protocol Call Reply ε Local}
variable {answers : Answers Call Reply ε World}
variable {start pool : Pool ι Call Reply ε α World Local}
variable {moments : List (Moment ι Call Reply ε World)}

theorem Run.reaches
    (ran : Run protocol answers start moments pool) :
    Reaches protocol answers (fun _ _ _ => True) start pool := by
  induction ran with
  | refl => exact .refl
  | tail _ step inductionHypothesis =>
      exact inductionHypothesis.tail trivial step

theorem Reaches.run
    {allowed : Pool ι Call Reply ε α World Local → ι → Call → Prop}
    (reached : Reaches protocol answers allowed start pool) :
    ∃ moments, Run protocol answers start moments pool := by
  induction reached with
  | refl => exact ⟨[], .refl⟩
  | tail _ _ step inductionHypothesis =>
      obtain ⟨moments, ran⟩ := inductionHypothesis
      exact ⟨_, ran.tail step⟩

/-- One run goes on where another ends. -/
theorem Run.trans
    {middle : Pool ι Call Reply ε α World Local}
    {earlier later : List (Moment ι Call Reply ε World)}
    (first : Run protocol answers start earlier middle)
    (second : Run protocol answers middle later pool) :
    Run protocol answers start (earlier ++ later) pool := by
  induction second with
  | refl =>
      rw [List.append_nil]
      exact first
  | tail _ step inductionHypothesis =>
      rw [← List.append_assoc]
      exact inductionHypothesis.tail step

/-- What no answer lowers only grows along a run: each step was made between the
first value and the last. -/
theorem Run.grows
    {β : Type} [Preorder β] {measure : World → β}
    (ran : Run protocol answers start moments pool)
    (raised : ∀ {request before reply after},
      answers request before reply after → measure before ≤ measure after) :
    measure start.world ≤ measure pool.world ∧
      ∀ moment ∈ moments, measure start.world ≤ measure moment.event.before ∧
        measure moment.event.before ≤ measure pool.world := by
  induction ran with
  | refl => exact ⟨le_refl _, fun _ among => absurd among List.not_mem_nil⟩
  | tail _ step inductionHypothesis =>
      obtain ⟨waiting, answered⟩ := step
      obtain ⟨reached, between⟩ := inductionHypothesis
      have raises := raised answered
      refine ⟨reached.trans raises, fun moment among => ?_⟩
      rcases List.mem_append.mp among with earlier | last
      · exact ⟨(between moment earlier).1,
          (between moment earlier).2.trans raises⟩
      · rw [List.mem_singleton.mp last]
        exact ⟨reached, raises⟩

/-- A run can be cut after any of its steps. -/
theorem Run.split
    {earlier later : List (Moment ι Call Reply ε World)}
    (ran : Run protocol answers start (earlier ++ later) pool) :
    ∃ middle, Run protocol answers start earlier middle ∧
      Run protocol answers middle later pool := by
  generalize whole : earlier ++ later = moments at ran
  induction ran generalizing later with
  | refl =>
      obtain ⟨rfl, rfl⟩ := List.append_eq_nil_iff.mp whole
      exact ⟨start, .refl, .refl⟩
  | @tail moments before final thread request reply ran step
      inductionHypothesis =>
      rcases List.eq_nil_or_concat later with rfl | ⟨front, last, rfl⟩
      · rw [List.append_nil] at whole
        subst whole
        exact ⟨final, ran.tail step, .refl⟩
      · rw [List.concat_eq_append, ← List.append_assoc] at whole
        obtain ⟨same, ends⟩ := List.append_inj' whole rfl
        cases ends
        obtain ⟨middle, first, second⟩ := inductionHypothesis same
        rw [List.concat_eq_append]
        exact ⟨middle, first, second.tail step⟩

theorem Run.eq_start
    (ran : Run protocol answers start moments pool) (empty : moments = []) :
    pool = start := by
  cases ran with
  | refl => rfl
  | tail => simp at empty

/-- The first step of a run. -/
theorem Run.head
    {moment : Moment ι Call Reply ε World}
    {later : List (Moment ι Call Reply ε World)}
    (ran : Run protocol answers start (moment :: later) pool) :
    ∃ middle,
      Step protocol answers start moment.thread moment.event.request
        moment.event.reply middle ∧
      Run protocol answers middle later pool := by
  obtain ⟨middle, first, second⟩ := @Run.split _ _ _ _ _ _ _ _ _ _ _ _
    [moment] later ran
  generalize single : [moment] = moments at first
  cases first with
  | refl => cases single
  | @tail moments before final thread request reply ran step =>
      rcases List.append_eq_singleton_iff.mp single.symm with
        ⟨rfl, same⟩ | ⟨-, impossible⟩
      · cases ran.eq_start rfl
        cases same
        exact ⟨middle, step, second⟩
      · cases impossible

/-- The first step was made from the pool in which the run begins. -/
theorem Run.begins
    {moment : Moment ι Call Reply ε World}
    {later : List (Moment ι Call Reply ε World)}
    (ran : Run protocol answers start (moment :: later) pool) :
    start.world = moment.event.before := by
  obtain ⟨middle, first, -⟩ := @Run.split _ _ _ _ _ _ _ _ _ _ _ _
    [moment] later ran
  generalize single : [moment] = moments at first
  cases first with
  | refl => cases single
  | @tail moments before final thread request reply ran step =>
      rcases List.append_eq_singleton_iff.mp single.symm with
        ⟨rfl, same⟩ | ⟨-, impossible⟩
      · cases ran.eq_start rfl
        cases same
        rfl
      · cases impossible

/-- What is recorded does not change what a run does. -/
theorem Run.observed
    {Other : Type} (observer : Protocol Call Reply ε Other)
    (records : ι → Other)
    (ran : Run protocol answers start moments pool) :
    ∃ last : ι → Other,
      Run observer answers
        (⟨start.world, start.threads, records⟩ :
          Pool ι Call Reply ε α World Other)
        moments ⟨pool.world, pool.threads, last⟩ := by
  induction ran with
  | refl => exact ⟨records, .refl⟩
  | @tail moments pool final thread request reply ran step
      inductionHypothesis =>
      obtain ⟨last, observed⟩ := inductionHypothesis
      obtain ⟨waiting, answered⟩ := step
      exact ⟨_, observed.tail (.call waiting answered)⟩

/-- Each step was made from a pool that the run went through. -/
theorem Run.moment
    (ran : Run protocol answers start moments pool)
    {moment : Moment ι Call Reply ε World} (among : moment ∈ moments) :
    ∃ earlier later before after,
      moments = earlier ++ moment :: later ∧
      Run protocol answers start earlier before ∧
      Step protocol answers before moment.thread moment.event.request
        moment.event.reply after ∧
      before.world = moment.event.before ∧
      after.world = moment.event.after := by
  induction ran with
  | refl => cases among
  | @tail moments before final thread request reply ran step
      inductionHypothesis =>
      rcases List.mem_append.mp among with already | last
      · obtain ⟨earlier, later, source, target, rfl, rest⟩ :=
          inductionHypothesis already
        exact ⟨earlier, later ++ [_], source, target,
          List.append_assoc _ _ _, rest⟩
      · cases List.mem_singleton.mp last
        exact ⟨moments, [], before, final, rfl, ran, step, rfl, rfl⟩

/-- Every step is a call of the kind of its thread. -/
theorem Run.footed
    {calls : ι → Call → Prop}
    (footed : start.Footed calls)
    (ran : Run protocol answers start moments pool)
    {moment : Moment ι Call Reply ε World} (among : moment ∈ moments) :
    calls moment.thread moment.event.request := by
  obtain ⟨_, _, before, _, -, first, step, -⟩ := ran.moment among
  have kept := (first.reaches.footed footed).1
  exact (kept.step step).1

/-- If every step of a run is an action that the object allows, or leaves its
state alone, the object allows the history of the run. -/
theorem Run.legal
    {allows : σ → Action → σ → Prop}
    {act : Event Call Reply ε World → Option Action} (state : World → σ)
    (simulated : ∀ request before reply after,
      answers request before reply after →
        Performs allows (state before) (act ⟨before, request, reply, after⟩)
          (state after))
    (ran : Run protocol answers start moments pool) :
    Legal allows (state start.world)
      ((history act moments).map Prod.snd) (state pool.world) := by
  induction ran with
  | refl => exact .nil
  | @tail moments before final thread request reply ran step
      inductionHypothesis =>
      obtain ⟨waiting, answered⟩ := step
      rename_i next after
      have stepped := simulated _ _ _ _ answered
      simp only [history, List.filterMap_append, List.map_append]
        at inductionHypothesis ⊢
      cases performed :
          act ⟨before.world, request, reply, after⟩ with
      | none =>
          rw [performed] at stepped
          simp only [resume, List.filterMap_cons, performed, Option.map_none,
            List.filterMap_nil, List.map_nil, List.append_nil]
          rw [show state after = state before.world from stepped]
          exact inductionHypothesis
      | some action =>
          rw [performed] at stepped
          simp only [resume, List.filterMap_cons, performed, Option.map_some,
            List.filterMap_nil, List.map_cons, List.map_nil]
          exact inductionHypothesis.snoc stepped

/-- A thread's record of its own observations is its part of the history, if
its steps are seen for what they are. -/
theorem Run.actionsOf_eq
    {observe : (request : Call) → Except ε (Reply request) → Option Action}
    {allowed : List Action → Prop}
    {start pool : Pool ι Call Reply ε α World (List Action)} {thread : ι}
    {act : Event Call Reply ε World → Option Action}
    (ran : Run (observing observe allowed) answers start moments pool)
    (fresh : start.records thread = [])
    (seen : ∀ moment ∈ moments, moment.thread = thread →
      act moment.event = observe moment.event.request moment.event.reply) :
    actionsOf thread (history act moments) = pool.records thread := by
  induction ran with
  | refl => exact fresh.symm
  | @tail moments before final actor request reply ran step
      inductionHypothesis =>
      obtain ⟨waiting, answered⟩ := step
      rename_i next after
      have sofar := inductionHypothesis fun moment among =>
        seen moment (List.mem_append_left _ among)
      have last := seen _ (List.mem_append_right _ List.mem_cons_self)
      simp only [actionsOf, history, List.filterMap_append] at sofar ⊢
      rw [sofar]
      by_cases same : actor = thread
      · subst same
        have last : act ⟨before.world, request, reply, after⟩ =
            observe request reply := last rfl
        simp only [resume, observing, Function.update_self,
          List.filterMap_cons, last, List.filterMap_nil]
        cases observe request reply <;> simp
      · simp only [resume, Function.update_of_ne (Ne.symm same)]
        cases performed : act ⟨before.world, request, reply, after⟩ <;>
          simp [performed, same]

/-- What a thread has recorded of its answers are those among its own steps. -/
theorem Run.recorded
    (past : Local → List (Answer Call Reply ε))
    (records : ∀ record request reply,
      past (protocol.advance record request reply) =
        past record ++ [⟨request, reply⟩])
    (ran : Run protocol answers start moments pool)
    {thread : ι} (fresh : past (start.records thread) = []) :
    past (pool.records thread) =
      (moments.filter fun moment => moment.thread = thread).map fun moment =>
        ⟨moment.event.request, moment.event.reply⟩ := by
  induction ran with
  | refl => exact fresh
  | @tail moments before final actor request reply ran step
      inductionHypothesis =>
      obtain ⟨waiting, answered⟩ := step
      rw [List.filter_append, List.map_append, ← inductionHypothesis]
      by_cases same : actor = thread
      · subst same
        simp [resume, records]
      · simp [resume, same, Ne.symm same]

end Runs

/-- A thread that follows a protocol goes on to follow it, whatever the other
threads do. -/
theorem Reaches.follows_own
    {protocol : Protocol Call Reply ε Local}
    {answers : Answers Call Reply ε World}
    {allowed : Pool ι Call Reply ε α World Local → ι → Call → Prop}
    {start pool : Pool ι Call Reply ε α World Local}
    {thread : ι} {post : α → Local → Prop} {failed : ε → Local → Prop}
    (follows : (start.threads thread).Follows protocol post failed
      (start.records thread))
    (reached : Reaches protocol answers allowed start pool) :
    (pool.threads thread).Follows protocol post failed
      (pool.records thread) := by
  induction reached with
  | refl => exact follows
  | @tail before final actor request reply _ _ step inductionHypothesis =>
      obtain ⟨waiting, -⟩ := step
      by_cases same : thread = actor
      · subst same
        rw [waiting] at inductionHypothesis
        simpa [resume] using inductionHypothesis.2 reply
      · simpa [resume, same] using inductionHypothesis

/-- The record of a thread that only ever makes allowed observations is
allowed. -/
theorem Reaches.allowed
    {answers : Answers Call Reply ε World}
    {observe : (request : Call) → Except ε (Reply request) → Option Action}
    {permitted : List Action → Prop}
    {allowed : Pool ι Call Reply ε α World (List Action) → ι → Call → Prop}
    {start pool : Pool ι Call Reply ε α World (List Action)}
    {thread : ι} {post : α → List Action → Prop}
    (follows : (start.threads thread).Follows (observing observe permitted)
      post (fun _ _ => True) (start.records thread))
    (initially : permitted (start.records thread))
    (reached : Reaches (observing observe permitted) answers allowed start
      pool) :
    permitted (pool.records thread) := by
  induction reached with
  | refl => exact initially
  | @tail before final actor request reply earlier _ step
      inductionHypothesis =>
      have acting := earlier.follows_own follows
      obtain ⟨waiting, -⟩ := step
      by_cases same : thread = actor
      · subst same
        rw [waiting] at acting
        simpa [resume, observing] using acting.1 reply
      · simpa [resume, same] using inductionHypothesis

/-- What a thread does of a run is allowed if its program only ever does what
is allowed, and is what is known of it when the thread has returned. -/
theorem Run.observes
    {protocol : Protocol Call Reply ε Local}
    {answers : Answers Call Reply ε World}
    {observe : (request : Call) → Except ε (Reply request) → Option Action}
    {act : Event Call Reply ε World → Option Action}
    {permitted : List Action → Prop}
    {start pool : Pool ι Call Reply ε α World Local}
    {moments : List (Moment ι Call Reply ε World)} {thread : ι}
    {post : α → List Action → Prop}
    (ran : Run protocol answers start moments pool)
    (seen : ∀ moment ∈ moments, moment.thread = thread →
      act moment.event = observe moment.event.request moment.event.reply)
    (nothing : permitted [])
    (follows : (start.threads thread).Follows (observing observe permitted)
      post (fun _ _ => True) []) :
    permitted (actionsOf thread (history act moments)) ∧
      ∀ answer, pool.threads thread = .done answer →
        post answer (actionsOf thread (history act moments)) := by
  obtain ⟨records, observed⟩ := ran.observed (observing observe permitted)
    fun _ => []
  have same := observed.actionsOf_eq rfl seen
  have final := observed.reaches.follows_own follows
  rw [same]
  refine ⟨observed.reaches.allowed follows nothing, fun answer ended => ?_⟩
  simp only [ended] at final
  exact final

end Pool

end Effects
