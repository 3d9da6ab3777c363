import Marmotte.Effects.Program
import Mathlib.Order.Lattice.Nat

/-!
# Groups of tasks behind a semaphore

A main loop that takes a permit for each job, spawns a task that gives it back
when it ends, and gathers the results once every job is spawned.  Tasks make
their calls, end and panic in any order.  As long as there is a permit to take,
such a group is never stuck, and it takes a bounded number of steps.
-/

namespace Effects

namespace Program

/-- The program makes at most so many calls, whatever replies it gets, and
does not loop. -/
def Brief : Program Call Reply ε α → Nat → Prop
  | .done _, _ => True
  | .fail _, _ => True
  | .spin, _ => False
  | .call _ _, 0 => False
  | .call _ next, calls + 1 => ∀ reply, (next reply).Brief calls

theorem Brief.mono
    {program : Program Call Reply ε α} {calls more : Nat}
    (brief : program.Brief calls) (fewer : calls ≤ more) :
    program.Brief more := by
  induction program generalizing calls more with
  | done value => trivial
  | fail error => trivial
  | spin => exact brief
  | call request next inductionHypothesis =>
      cases calls with
      | zero => exact brief.elim
      | succ calls =>
          cases more with
          | zero => omega
          | succ more =>
              exact fun reply =>
                inductionHypothesis reply (brief reply) (by omega)

/-- The rule for sequencing. -/
theorem Brief.bind
    {first : Program Call Reply ε α} {next : α → Program Call Reply ε β}
    {calls more : Nat}
    (brief : first.Brief calls) (rest : ∀ value, (next value).Brief more) :
    (first >>= next).Brief (calls + more) := by
  induction first generalizing calls with
  | done value => exact (rest value).mono (by omega)
  | fail error => trivial
  | spin => exact brief.elim
  | call request continuation inductionHypothesis =>
      cases calls with
      | zero => exact brief.elim
      | succ calls =>
          rw [Nat.succ_add]
          exact fun reply => inductionHypothesis reply (brief reply)

/-- The rule for a call at the head of a program that hands its error on. -/
theorem brief_perform_then
    {request : Call} {next : Reply request → Program Call Reply ε α}
    {calls : Nat} (rest : ∀ value, (next value).Brief calls) :
    (perform request >>= next).Brief (calls + 1) := by
  intro reply
  cases reply with
  | ok value => exact rest value
  | error error => cases calls <;> trivial

/-- How many calls a program makes at most. -/
noncomputable def depth (program : Program Call Reply ε α) : Nat :=
  sInf { calls | program.Brief calls }

/-- Each call leaves a program fewer calls to make. -/
theorem depth_next
    {request : Call}
    {next : Except ε (Reply request) → Program Call Reply ε α} {calls : Nat}
    (brief : (Program.call request next).Brief calls)
    (reply : Except ε (Reply request)) :
    (next reply).depth < (Program.call request next).depth := by
  have fewest : (Program.call request next).Brief
      (Program.call request next).depth :=
    @Nat.sInf_mem { calls | (Program.call request next).Brief calls }
      ⟨calls, brief⟩
  cases limit : (Program.call request next).depth with
  | zero =>
      rw [limit] at fewest
      exact fewest.elim
  | succ fewer =>
      rw [limit] at fewest
      exact Nat.lt_succ_of_le (Nat.sInf_le (fewest reply))

end Program

/-! ## Tasks and the loop that spawns them -/

/-- How a task ended, as the loop that joins it learns. -/
inductive Verdict (ε α : Type)
  | returned (value : α)
  | failed (error : ε)
  | panicked
  deriving DecidableEq, Repr

/-- A task that was spawned and whose verdict has not been taken. -/
inductive Worker (Call : Type) (Reply : Call → Type) (ε α : Type) : Type
  | running (program : Program Call Reply ε α)
  | ended (verdict : Verdict ε α)

/-- The task has not ended. -/
def Worker.isRunning : Worker Call Reply ε α → Bool
  | .running _ => true
  | .ended _ => false

/-- What the main loop does next. -/
inductive Phase (Job Summary : Type) : Type
  | submitting (waiting : List Job)
  | spawning (job : Job) (waiting : List Job)
  | draining (summary : Summary)
  | finished (summary : Summary)

namespace Phase

/-- The jobs that are not spawned. -/
def waiting : Phase Job Summary → List Job
  | .submitting waiting => waiting
  | .spawning job waiting => job :: waiting
  | .draining _ => []
  | .finished _ => []

/-- The permits that the loop holds for a task. -/
def reserved : Phase Job Summary → Nat
  | .spawning _ _ => 1
  | _ => 0

end Phase

/-- A main loop with its tasks; `permits` are those that may be taken, and
`spawned` tells which jobs got a task, in order. -/
structure Group
    (Job Call : Type) (Reply : Call → Type) (ε α World Summary : Type) where
  world : World
  permits : Nat
  phase : Phase Job Summary
  tasks : List (Worker Call Reply ε α)
  spawned : List Job

/-- What the tasks do and how their verdicts are gathered. -/
structure Plan
    (Job Call : Type) (Reply : Call → Type) (ε α World Summary : Type) where
  work : Job → Program Call Reply ε α
  initial : Summary
  collect : Summary → Verdict ε α → Summary
  answers : Answers Call Reply ε World

namespace Group

variable {Job Call : Type} {Reply : Call → Type} {ε α World Summary : Type}

/-- The loop before its first job. -/
def launch
    (capacity : Nat) (jobs : List Job) (world : World) :
    Group Job Call Reply ε α World Summary where
  world := world
  permits := capacity
  phase := .submitting jobs
  tasks := []
  spawned := []

/-- How many tasks are running. -/
def running (group : Group Job Call Reply ε α World Summary) : Nat :=
  group.tasks.countP Worker.isRunning

/-- The loop has gathered all verdicts. -/
def Finished (group : Group Job Call Reply ε α World Summary) : Prop :=
  ∃ summary, group.phase = .finished summary

/-- The verdict of a program that makes no more calls. -/
def verdict : Program Call Reply ε α → Option (Verdict ε α)
  | .done value => some (.returned value)
  | .fail error => some (.failed error)
  | _ => none

/-- A step of the main loop, or of a task that does not panic. -/
inductive Step
    (plan : Plan Job Call Reply ε α World Summary) :
    Group Job Call Reply ε α World Summary →
      Group Job Call Reply ε α World Summary → Prop
  | acquire
      {group : Group Job Call Reply ε α World Summary}
      {job : Job} {waiting : List Job} {left : Nat}
      (phase : group.phase = .submitting (job :: waiting))
      (permits : group.permits = left + 1) :
      Step plan group
        { group with permits := left, phase := .spawning job waiting }
  | spawn
      {group : Group Job Call Reply ε α World Summary}
      {job : Job} {waiting : List Job}
      (phase : group.phase = .spawning job waiting) :
      Step plan group
        { group with
          phase := .submitting waiting
          tasks := group.tasks ++ [.running (plan.work job)]
          spawned := group.spawned ++ [job] }
  | submitted
      {group : Group Job Call Reply ε α World Summary}
      (phase : group.phase = .submitting []) :
      Step plan group { group with phase := .draining plan.initial }
  | call
      {group : Group Job Call Reply ε α World Summary}
      {first last : List (Worker Call Reply ε α)} {request : Call}
      {next : Except ε (Reply request) → Program Call Reply ε α}
      {reply : Except ε (Reply request)} {after : World}
      (among : group.tasks = first ++ .running (.call request next) :: last)
      (answered : plan.answers request group.world reply after) :
      Step plan group
        { group with
          world := after
          tasks := first ++ .running (next reply) :: last }
  | finish
      {group : Group Job Call Reply ε α World Summary}
      {first last : List (Worker Call Reply ε α)}
      {program : Program Call Reply ε α} {result : Verdict ε α}
      (among : group.tasks = first ++ .running program :: last)
      (ends : verdict program = some result) :
      Step plan group
        { group with
          permits := group.permits + 1
          tasks := first ++ .ended result :: last }
  | take
      {group : Group Job Call Reply ε α World Summary}
      {first last : List (Worker Call Reply ε α)} {result : Verdict ε α}
      {summary : Summary}
      (phase : group.phase = .draining summary)
      (among : group.tasks = first ++ .ended result :: last) :
      Step plan group
        { group with
          phase := .draining (plan.collect summary result)
          tasks := first ++ last }
  | stop
      {group : Group Job Call Reply ε α World Summary} {summary : Summary}
      (phase : group.phase = .draining summary) (taken : group.tasks = []) :
      Step plan group { group with phase := .finished summary }

/-- A task panics; what it holds is dropped. -/
inductive Panic :
    Group Job Call Reply ε α World Summary →
      Group Job Call Reply ε α World Summary → Prop
  | unwind
      {group : Group Job Call Reply ε α World Summary}
      {first last : List (Worker Call Reply ε α)}
      {program : Program Call Reply ε α}
      (among : group.tasks = first ++ .running program :: last) :
      Panic group
        { group with
          permits := group.permits + 1
          tasks := first ++ .ended .panicked :: last }

/-- Groups reached in so many steps, whichever tasks panic. -/
inductive Runs
    (plan : Plan Job Call Reply ε α World Summary)
    (start : Group Job Call Reply ε α World Summary) :
    Nat → Group Job Call Reply ε α World Summary → Prop
  | refl : Runs plan start 0 start
  | step
      {steps : Nat} {group final : Group Job Call Reply ε α World Summary}
      (reached : Runs plan start steps group)
      (moves : Step plan group final ∨ Panic group final) :
      Runs plan start (steps + 1) final

/-! ## What a run keeps -/

/-- What the summary of a phase counts. -/
def taken
    (weight : Summary → Nat)
    (group : Group Job Call Reply ε α World Summary) : Nat :=
  match group.phase with
  | .submitting _ => 0
  | .spawning _ _ => 0
  | .draining summary => weight summary
  | .finished summary => weight summary

/-- Every permit is accounted for, every job has a place, every verdict is
counted once, and every running task has few calls to make. -/
structure Balanced
    (capacity : Nat) (jobs : List Job) (weight : Summary → Nat)
    (group : Group Job Call Reply ε α World Summary) : Prop where
  permits : group.permits + group.running + group.phase.reserved = capacity
  jobs : group.spawned ++ group.phase.waiting = jobs
  counted : group.taken weight + group.tasks.length = group.spawned.length
  drained : group.Finished → group.tasks = []
  brief : ∀ program, .running program ∈ group.tasks →
    ∃ calls, program.Brief calls

section Rules

variable {plan : Plan Job Call Reply ε α World Summary}
variable {capacity : Nat} {jobs : List Job} {weight : Summary → Nat}
variable {start group final : Group Job Call Reply ε α World Summary}

theorem running_split
    {first last : List (Worker Call Reply ε α)} {worker : Worker Call Reply ε α}
    (among : group.tasks = first ++ worker :: last) :
    group.running = first.countP Worker.isRunning +
      last.countP Worker.isRunning + worker.isRunning.toNat := by
  rw [running, among, List.countP_append, List.countP_cons]
  cases worker.isRunning with
  | true =>
      simp only [if_true, Bool.toNat_true]
      omega
  | false => simp

theorem balanced_launch
    (capacity : Nat) (jobs : List Job) (world : World) :
    (launch capacity jobs world :
      Group Job Call Reply ε α World Summary).Balanced capacity jobs
        weight where
  permits := by simp [launch, running, Phase.reserved]
  jobs := rfl
  counted := rfl
  drained _ := rfl
  brief := by rintro program ⟨⟩

/-- A task that ends gives its permit back. -/
theorem Balanced.ending
    {first last : List (Worker Call Reply ε α)}
    {program : Program Call Reply ε α}
    (balanced : group.Balanced capacity jobs weight)
    (among : group.tasks = first ++ .running program :: last)
    (result : Verdict ε α) :
    Balanced capacity jobs weight
      { group with
        permits := group.permits + 1
        tasks := first ++ .ended result :: last } := by
  have before := running_split among
  have permits := balanced.permits
  have counted := balanced.counted
  rw [among] at counted
  constructor
  · rw [running_split rfl]
    simp only [Worker.isRunning] at before ⊢
    simp only [Bool.toNat_true, Bool.toNat_false] at before ⊢
    omega
  · exact balanced.jobs
  · simpa [taken] using counted
  · intro finished
    have none := balanced.drained finished
    rw [among] at none
    simp at none
  · intro other present
    refine balanced.brief other ?_
    rw [among]
    simp only [List.mem_append, List.mem_cons] at present ⊢
    rcases present with earlier | ended | later
    · exact .inl earlier
    · cases ended
    · exact .inr (.inr later)

/-- Each step keeps the balance. -/
theorem Balanced.step
    (fresh : weight plan.initial = 0)
    (counts : ∀ summary result,
      weight (plan.collect summary result) = weight summary + 1)
    (brief : ∀ job, ∃ calls, (plan.work job).Brief calls)
    (balanced : group.Balanced capacity jobs weight)
    (step : Step plan group final) :
    final.Balanced capacity jobs weight := by
  have permits := balanced.permits
  have order := balanced.jobs
  have counted := balanced.counted
  cases step with
  | acquire phase free =>
      simp only [phase, Phase.reserved, Phase.waiting] at permits order
      simp only [taken, phase] at counted
      refine ⟨?_, order, counted, by rintro ⟨summary, ⟨⟩⟩, balanced.brief⟩
      simp only [running, Phase.reserved] at permits ⊢
      omega
  | @spawn job waiting phase =>
      simp only [phase, Phase.reserved, Phase.waiting] at permits order
      simp only [taken, phase] at counted
      refine ⟨?_, ?_, ?_, by rintro ⟨summary, ⟨⟩⟩, ?_⟩
      · simp only [running, Phase.reserved, List.countP_append,
          List.countP_singleton, Worker.isRunning, if_pos] at permits ⊢
        omega
      · simpa [Phase.waiting] using order
      · simp only [taken, List.length_append, List.length_singleton]
        omega
      · intro program present
        rcases List.mem_append.mp present with earlier | new
        · exact balanced.brief program earlier
        · cases List.mem_singleton.mp new
          exact brief job
  | submitted phase =>
      simp only [phase, Phase.reserved, Phase.waiting] at permits order
      simp only [taken, phase] at counted
      refine ⟨permits, order, ?_, by rintro ⟨summary, ⟨⟩⟩, balanced.brief⟩
      simpa [taken, fresh] using counted
  | @call first last request next reply after among answered =>
      have before := running_split among
      rw [among] at counted
      obtain ⟨calls, few⟩ := balanced.brief (.call request next)
        (by simp [among])
      refine ⟨?_, order, ?_, ?_, ?_⟩
      · rw [running_split rfl]
        simp only [Worker.isRunning] at before ⊢
        omega
      · simpa [taken] using counted
      · intro finished
        have none := balanced.drained finished
        rw [among] at none
        simp at none
      · intro other present
        rcases List.mem_append.mp present with earlier | later
        · exact balanced.brief other (by simp [among, earlier])
        · rcases List.mem_cons.mp later with same | later
          · cases same
            cases calls with
            | zero => exact few.elim
            | succ fewer => exact ⟨fewer, few reply⟩
          · exact balanced.brief other (by simp [among, later])
  | finish among ends => exact balanced.ending among _
  | @take first last result summary phase among =>
      have before := running_split among
      rw [among] at counted
      simp only [phase, Phase.reserved, Phase.waiting] at permits order
      simp only [taken, phase] at counted
      refine ⟨?_, order, ?_, by rintro ⟨summary, ⟨⟩⟩, ?_⟩
      · simp only [running, Phase.reserved, List.countP_append]
        simp only [Worker.isRunning, Bool.toNat_false] at before
        omega
      · simp only [List.length_append, List.length_cons] at counted
        simp only [taken, counts, List.length_append]
        omega
      · intro other present
        refine balanced.brief other ?_
        rw [among]
        rcases List.mem_append.mp present with earlier | later
        · simp [earlier]
        · simp [later]
  | stop phase none =>
      simp only [phase, Phase.reserved, Phase.waiting] at permits order
      simp only [taken, phase] at counted
      exact ⟨permits, order, counted, fun _ => none, balanced.brief⟩

theorem Balanced.moves
    (fresh : weight plan.initial = 0)
    (counts : ∀ summary result,
      weight (plan.collect summary result) = weight summary + 1)
    (brief : ∀ job, ∃ calls, (plan.work job).Brief calls)
    (balanced : group.Balanced capacity jobs weight)
    (moves : Step plan group final ∨ Panic group final) :
    final.Balanced capacity jobs weight := by
  rcases moves with step | panic
  · exact balanced.step fresh counts brief step
  · obtain ⟨among⟩ := panic
    exact balanced.ending among .panicked

/-! ## Progress -/

/-- A running task can always go on. -/
theorem Balanced.worker_steps
    (responsive : ∀ request world, ∃ reply after,
      plan.answers request world reply after)
    (balanced : group.Balanced capacity jobs weight)
    {program : Program Call Reply ε α}
    (present : .running program ∈ group.tasks) :
    ∃ next, Step plan group next := by
  obtain ⟨first, last, among⟩ := List.append_of_mem present
  obtain ⟨calls, few⟩ := balanced.brief program present
  cases program with
  | done value => exact ⟨_, .finish among rfl⟩
  | fail error => exact ⟨_, .finish among rfl⟩
  | spin => exact few.elim
  | call request next =>
      obtain ⟨reply, after, answered⟩ := responsive request group.world
      exact ⟨_, .call among answered⟩

/-- While there is a permit to wait for, or nothing to wait for, a group that
has not finished can go on without a panic. -/
theorem Balanced.progress
    (responsive : ∀ request world, ∃ reply after,
      plan.answers request world reply after)
    (enough : jobs = [] ∨ 0 < capacity)
    (balanced : group.Balanced capacity jobs weight)
    (unfinished : ¬group.Finished) :
    ∃ next, Step plan group next := by
  cases phase : group.phase with
  | submitting waiting =>
      cases waiting with
      | nil => exact ⟨_, .submitted phase⟩
      | cons job waiting =>
          cases permits : group.permits with
          | succ left => exact ⟨_, .acquire phase permits⟩
          | zero =>
              -- All permits are with running tasks.
              have order := balanced.jobs
              have held := balanced.permits
              simp only [phase, Phase.waiting] at order
              simp only [phase, permits, Phase.reserved] at held
              have some : jobs ≠ [] := by
                rintro rfl
                simp at order
              have positive := enough.resolve_left some
              have busy : 0 < group.tasks.countP Worker.isRunning := by
                simp only [running] at held
                omega
              obtain ⟨worker, present, runs⟩ := List.countP_pos_iff.mp busy
              cases worker with
              | running program =>
                  exact balanced.worker_steps responsive present
              | ended result => cases runs
  | spawning job waiting => exact ⟨_, .spawn phase⟩
  | draining summary =>
      cases tasks : group.tasks with
      | nil => exact ⟨_, .stop phase tasks⟩
      | cons worker rest =>
          cases worker with
          | running program =>
              have present : .running program ∈ group.tasks := by
                simp [tasks]
              exact balanced.worker_steps responsive present
          | ended result =>
              have among : group.tasks = [] ++ .ended result :: rest := tasks
              exact ⟨_, .take phase among⟩
  | finished summary => exact absurd ⟨summary, phase⟩ unfinished

/-- Without a permit the loop waits for ever at its first job. -/
theorem stuck_without_permits
    (plan : Plan Job Call Reply ε α World Summary)
    (job : Job) (rest : List Job) (world : World)
    (next : Group Job Call Reply ε α World Summary) :
    ¬(Step plan (launch 0 (job :: rest) world) next ∨
      Panic (launch 0 (job :: rest) world) next) := by
  rintro (step | panic)
  · cases step with
    | acquire phase permits => cases permits
    | spawn phase => cases phase
    | submitted phase => cases phase
    | call among answered => simp [launch] at among
    | finish among ends => simp [launch] at among
    | take phase among => cases phase
    | stop phase taken => cases phase
  · obtain ⟨among⟩ := panic
    simp [launch] at among

/-! ## Termination -/

/-- The steps that a task may still take, up to the taking of its verdict. -/
noncomputable def cost : Worker Call Reply ε α → Nat
  | .running program => program.depth + 2
  | .ended _ => 1

/-- The steps that some tasks may still take. -/
noncomputable def costs : List (Worker Call Reply ε α) → Nat
  | [] => 0
  | worker :: rest => cost worker + costs rest

theorem costs_append (first last : List (Worker Call Reply ε α)) :
    costs (first ++ last) = costs first + costs last := by
  induction first with
  | nil => simp [costs]
  | cons worker rest inductionHypothesis =>
      simp only [List.cons_append, costs, inductionHypothesis]
      omega

/-- The steps for which jobs are still to be spawned. -/
noncomputable def backlog
    (plan : Plan Job Call Reply ε α World Summary) : List Job → Nat
  | [] => 0
  | job :: rest => (plan.work job).depth + 4 + backlog plan rest

/-- The steps that the main loop may still take or cause. -/
noncomputable def due
    (plan : Plan Job Call Reply ε α World Summary) :
    Phase Job Summary → Nat
  | .submitting waiting => backlog plan waiting + 2
  | .spawning job waiting =>
      (plan.work job).depth + 3 + (backlog plan waiting + 2)
  | .draining _ => 1
  | .finished _ => 0

/-- The steps that a group may still take. -/
noncomputable def potential
    (plan : Plan Job Call Reply ε α World Summary)
    (group : Group Job Call Reply ε α World Summary) : Nat :=
  due plan group.phase + costs group.tasks

theorem potential_split
    {first last : List (Worker Call Reply ε α)} {worker : Worker Call Reply ε α}
    (among : group.tasks = first ++ worker :: last) :
    group.potential plan =
      due plan group.phase + (costs first + costs last) + cost worker := by
  simp only [potential, among, costs_append, costs]
  omega

/-- Every step uses up some of the potential. -/
theorem Balanced.potential_lt
    (balanced : group.Balanced capacity jobs weight)
    (moves : Step plan group final ∨ Panic group final) :
    final.potential plan < group.potential plan := by
  rcases moves with step | panic
  · cases step with
    | acquire phase permits =>
        simp only [potential, phase, due, backlog]
        omega
    | spawn phase =>
        simp only [potential, phase, due, costs_append, costs, cost]
        omega
    | submitted phase =>
        simp only [potential, phase, due]
        omega
    | @call first last request next reply after among answered =>
        obtain ⟨calls, few⟩ := balanced.brief (.call request next)
          (by simp [among])
        have fewer := Program.depth_next few reply
        rw [potential_split among, potential_split rfl]
        simp only [cost]
        omega
    | finish among ends =>
        rw [potential_split among, potential_split rfl]
        simp only [cost]
        omega
    | take phase among =>
        rw [potential_split among]
        simp only [potential, phase, due, costs_append, cost]
        omega
    | stop phase taken =>
        simp only [potential, phase, due]
        omega
  · obtain ⟨among⟩ := panic
    rw [potential_split among, potential_split rfl]
    simp only [cost]
    omega

/-- What holds after any number of steps from a balanced group. -/
theorem Runs.balanced
    (fresh : weight plan.initial = 0)
    (counts : ∀ summary result,
      weight (plan.collect summary result) = weight summary + 1)
    (brief : ∀ job, ∃ calls, (plan.work job).Brief calls)
    (initially : start.Balanced capacity jobs weight) {steps : Nat}
    (reached : Runs plan start steps group) :
    group.Balanced capacity jobs weight ∧
      steps + group.potential plan ≤ start.potential plan := by
  induction reached with
  | refl => exact ⟨initially, by omega⟩
  | step reached moves inductionHypothesis =>
      obtain ⟨balanced, spent⟩ := inductionHypothesis
      have less := balanced.potential_lt moves
      exact ⟨balanced.moves fresh counts brief moves, by omega⟩

end Rules

end Group

end Effects
