import Marmotte.Concurrency.LinearCache
import Marmotte.Effects.Credible
import Marmotte.Effects.Mutex

/-!
# The mutex of the garbage collector

Sweeps and orphan scans, dry or not, run next to requests in any interleaving.
Any call may fail, and the caller of a collection may be dropped between two of
its calls, which gives the guard of the mutex back.  Two collections never
interleave, and where there is nothing else they run one after the other,
whatever the clock does.
-/

namespace Marmotte

namespace Collections

open Effects Program LinearCache

/-! ## The mutex -/

def lockUse : Call → LockUse
  | .gcLock => .acquire
  | .gcUnlock => .release
  | _ => .other

/-- `GcSvc::running`. -/
def running (env : Env) (config : Config) : Mutex (Faulty env config) where
  use := lockUse
  held := World.gcRunning
  acquired request before reply after acquires answered := by
    cases request with
    | gcLock =>
        cases answered with
        | exact answered =>
            simp only [exec] at answered
            split at answered
            · cases answered
            · rename_i free
              cases answered
              exact ⟨by simpa using free, rfl, (), rfl⟩
    | _ => cases acquires
  released request before reply after releases answered := by
    cases request with
    | gcUnlock =>
        cases answered with
        | exact answered =>
            cases answered
            rfl
    | _ => cases releases
  spared request before reply after other answered := by
    cases answered with
    | dbFault | fsFault | tornWrite => rfl
    | exact answered =>
        cases request with
        | db call =>
            simp only [exec] at answered
            split at answered <;> cases answered <;> rfl
        | gcLock => cases other
        | gcUnlock => cases other
        | _ =>
            cases answered
            rfl

/-! ## Collections -/

/-- What a collection does below the mutex. -/
inductive Collection
  | sweep (dryRun : Bool)
  | scan (dryRun : Bool)
  deriving DecidableEq, Repr

/-- What a collection returns. -/
inductive Report
  | swept (report : GcReport)
  | scanned (report : OrphanReport)
  deriving DecidableEq, Repr

namespace Collection

/-- A collection below the mutex. -/
def body
    (env : Env) (config : Config) (budget : Nat) : Collection → App Report
  | .sweep dryRun => Report.swept <$> GcSvc.sweep config.gc budget dryRun
  | .scan dryRun => Report.scanned <$> GcSvc.scan env dryRun

/-- A whole collection. -/
def program
    (env : Env) (config : Config) (budget : Nat) : Collection → App Report
  | .sweep dryRun => Report.swept <$> GcSvc.run config.gc budget dryRun
  | .scan dryRun => Report.scanned <$> GcSvc.orphanScan env dryRun

/-- A collection whose caller goes away after so many calls below the mutex,
while none is in flight: its future is dropped, and with it the guard. -/
def dropped
    (env : Env) (config : Config) (budget : Nat) (collection : Collection)
    (calls : Nat) : App Unit := do
  perform Call.gcLock
  ((collection.body env config budget).abandon calls).ensuring
    (perform Call.gcUnlock)

end Collection

/-- A collection, and after how many calls below the mutex its caller goes
away, if it does. -/
structure Attempt where
  collection : Collection
  patience : Option Nat
  deriving DecidableEq, Repr

/-- Only a collection that is not dropped has a report. -/
def Attempt.program
    (env : Env) (config : Config) (budget : Nat) (attempt : Attempt) :
    App (Option Report) :=
  match attempt.patience with
  | none => some <$> attempt.collection.program env config budget
  | some calls =>
      (fun _ => none) <$> attempt.collection.dropped env config budget calls

/-- What runs next to each other: requests and operations, and collections. -/
inductive Job
  | serve (client : LinearCache.Client)
  | collect (attempt : Attempt)

/-- The program of a job; the responses of requests are of no concern here. -/
def Job.program
    (env : Env) (config : Config) (budget : Nat) : Job → App (Option Report)
  | .serve client => do
      let _ ← client.program env config budget
      pure none
  | .collect attempt => attempt.program env config budget

/-- The job takes the mutex. -/
def Job.collects : Job → Bool
  | .serve (.operation .gcRun) => true
  | .serve (.operation .orphanScan) => true
  | .serve _ => false
  | .collect _ => true

/-- Where a job is before its first call. -/
def Job.place (job : Job) : Place :=
  if job.collects then .waiting else .outside

/-! ## Collections are critical sections -/

/-- The call leaves the mutex alone. -/
abbrev Spares (request : Call) : Prop := lockUse request = .other

theorem spares_of_collecting
    (request : Call) (used : collectCalls request) : Spares request := by
  cases request with
  | gcLock | gcUnlock => exact used.elim
  | _ => rfl

theorem spares_of_reconciling
    (request : Call) (used : reconcileCalls request) : Spares request := by
  cases request with
  | gcLock | gcUnlock => exact used.elim
  | _ => rfl

theorem body_spares
    (env : Env) (config : Config) (budget : Nat) (collection : Collection) :
    (collection.body env config budget).Uses Spares fun _ => True := by
  cases collection with
  | sweep dryRun =>
      have below := (GcSvc.sweep_collects config.gc budget dryRun).mono
        spares_of_collecting fun _ => id
      exact below.bind fun _ _ => trivial
  | scan dryRun =>
      have below := (GcSvc.scan_reconciles env dryRun).mono
        spares_of_reconciling fun _ => id
      exact below.bind fun _ _ => trivial

/-- A request leaves the mutex alone. -/
theorem client_spares
    (env : Env) (config : Config) (budget : Nat)
    (client : LinearCache.Client)
    (requests : (Job.serve client).collects = false) :
    (client.program env config budget).Uses Spares fun _ => True := by
  refine (client_uses env config budget client).mono ?_ fun _ => id
  intro request used
  by_contra locks
  cases request with
  | gcLock | gcUnlock =>
      cases client with
      | read => exact used.elim
      | operation operation =>
          cases operation with
          | gcRun | orphanScan => cases requests
          | put => exact used.elim id id
          | touch | wait => cases used
          | createProject | deleteProject | deleteEntry | pin | unpin =>
              rcases used with same | same | ⟨_, _, _, _, _, same⟩ <;> cases same
          | updateProject =>
              rcases used with same | same | same | ⟨_, _, _, _, _, same⟩ <;>
                cases same
  | _ => exact locks rfl

section Programs

variable {env : Env} {config : Config}

theorem unlock_leaves :
    (perform Call.gcUnlock : App Unit).Follows (running env config).protocol
      (fun _ last => last = .left) (fun _ last => last = .left) .inside :=
  follows_perform LockUse.noConfusion (fun _ => rfl) fun _ => rfl

/-- The program takes the mutex first and gives it back last. -/
abbrev Encloses (env : Env) (config : Config) (program : App α) : Prop :=
  program.Follows (running env config).protocol (fun _ last => last = .left)
    (fun _ last => last ≠ .inside) .waiting

/-- Whatever is done below the mutex. -/
theorem encloses_below
    {body : App α} (uses : body.Uses Spares fun _ => True) :
    Encloses env config (perform Call.gcLock >>= fun _ =>
      body.ensuring (perform Call.gcUnlock)) := by
  have acquires : (running env config).use Call.gcLock = .acquire := rfl
  exact Mutex.guards_critical acquires uses unlock_leaves

theorem Encloses.map
    {program : App α} (result : α → β)
    (encloses : Encloses env config program) :
    Encloses env config (result <$> program) :=
  Follows.bind encloses fun _ _ => id

theorem run_encloses (budget : Nat) (dryRun : Bool) :
    Encloses env config (GcSvc.run config.gc budget dryRun) :=
  encloses_below ((GcSvc.sweep_collects config.gc budget dryRun).mono
    spares_of_collecting fun _ => id)

theorem orphanScan_encloses (dryRun : Bool) :
    Encloses env config (GcSvc.orphanScan env dryRun) :=
  encloses_below ((GcSvc.scan_reconciles env dryRun).mono
    spares_of_reconciling fun _ => id)

theorem abandon_spares
    {body : App α} (uses : body.Uses Spares fun _ => True) (calls : Nat) :
    (body.abandon calls).Uses Spares fun _ => True := by
  induction calls generalizing body with
  | zero => trivial
  | succ calls inductionHypothesis =>
      cases body with
      | call request next =>
          exact ⟨uses.1, fun reply => inductionHypothesis (uses.2 reply)⟩
      | _ => trivial

theorem attempt_encloses (budget : Nat) (attempt : Attempt) :
    Encloses env config (attempt.program env config budget) := by
  obtain ⟨collection, patience⟩ := attempt
  cases patience with
  | none =>
      cases collection with
      | sweep dryRun => exact (run_encloses budget dryRun).map _ |>.map _
      | scan dryRun => exact (orphanScan_encloses dryRun).map _ |>.map _
  | some calls =>
      have below := abandon_spares (body_spares env config budget collection)
        calls
      exact (encloses_below below).map _

theorem attempt_begins (attempt : Attempt) :
    Mutex.endingOf (attempt.program env config budget) = .dropped := by
  obtain ⟨_ | _, _ | _⟩ := attempt <;> rfl

theorem Encloses.guards
    {program : App α} (encloses : Encloses env config program) :
    (running env config).Guards program .waiting := by
  refine Follows.mono encloses ?_ fun _ _ => id
  rintro _ _ rfl
  exact Place.noConfusion

theorem job_guards (budget : Nat) (job : Job) :
    (running env config).Guards (job.program env config budget)
      job.place := by
  cases collects : job.collects with
  | true =>
      rw [Job.place, collects, if_pos rfl]
      refine Encloses.guards ?_
      cases job with
      | collect attempt => exact attempt_encloses budget attempt
      | serve client =>
          cases client with
          | read => cases collects
          | operation operation =>
              cases operation with
              | gcRun =>
                  have swept : Encloses env config
                      (GcSvc.run config.gc budget false) :=
                    run_encloses budget false
                  exact (swept.map fun _ => none).map fun _ => none
              | orphanScan =>
                  have scanned : Encloses env config
                      (GcSvc.orphanScan env false) :=
                    orphanScan_encloses false
                  exact (scanned.map fun _ => none).map fun _ => none
              | _ => cases collects
  | false =>
      rw [Job.place, collects, if_neg Bool.false_ne_true]
      cases job with
      | collect => cases collects
      | serve client =>
          have spares : ((Job.serve client).program env config budget).Uses
              Spares fun _ => True :=
            (client_spares env config budget client collects).bind
              fun _ _ => trivial
          exact Mutex.guards_outside spares

end Programs

/-! ## Runs -/

section Runs

variable {ι : Type} [DecidableEq ι]

/-- Jobs with the places that they have reached. -/
abbrev Jobs (ι : Type) : Type :=
  Pool ι Call Call.Reply CoreError (Option Report) World Place

/-- The jobs in a world, none of them started. -/
def launch
    (env : Env) (config : Config) (budget : Nat) (start : World)
    (jobs : ι → Job) : Jobs ι where
  world := start
  threads thread := (jobs thread).program env config budget
  records thread := (jobs thread).place

/-- The jobs take these steps, one call at a time and in any order. -/
abbrev Ran
    (env : Env) (config : Config) (budget : Nat) (start : World)
    (jobs : ι → Job) (moments : Steps ι) (pool : Jobs ι) : Prop :=
  Pool.Run (running env config).protocol (Faulty env config)
    (launch env config budget start jobs) moments pool

/-- The job has taken the mutex and not given it back. -/
abbrev Holds
    (env : Env) (config : Config) (moments : Steps ι) (thread : ι) : Prop :=
  (running env config).Holds moments thread

variable {env : Env} {config : Config} {budget : Nat} {start : World}
variable {jobs : ι → Job} {moments : Steps ι} {pool : Jobs ι}

omit [DecidableEq ι] in
theorem launch_fresh (thread : ι) :
    (launch env config budget start jobs).records thread = .outside ∨
      (launch env config budget start jobs).records thread = .waiting := by
  change (jobs thread).place = .outside ∨ (jobs thread).place = .waiting
  unfold Job.place
  split
  · exact .inr rfl
  · exact .inl rfl

omit [DecidableEq ι] in
theorem launch_exclusive (unlocked : start.gcRunning = false) :
    (running env config).Exclusive
      (launch env config budget start jobs) := by
  refine Mutex.exclusive_launch unlocked fun thread inside => ?_
  have fresh : (launch env config budget start jobs).records thread =
      .outside ∨ (launch env config budget start jobs).records thread =
        .waiting := launch_fresh thread
  rcases fresh with place | place <;> cases inside.symm.trans place

theorem inside_iff
    (ran : Ran env config budget start jobs moments pool) (thread : ι) :
    pool.records thread = .inside ↔ Holds env config moments thread :=
  Mutex.inside_iff_holds (job_guards budget (jobs thread))
    (launch_fresh thread) ran

/-- Where a collection can go on, some job can make its next call. -/
theorem collections_progress
    (ran : Ran env config budget start jobs moments pool)
    (unlocked : start.gcRunning = false) :
    (∃ thread request reply final,
      Pool.Step (running env config).protocol (Faulty env config) pool thread
        request reply final) ∨
    (∀ thread request, ¬pool.Issues thread request) ∨
    ∃ thread, Holds env config moments thread ∧
      pool.threads thread = .spin := by
  obtain ⟨exclusive, guards⟩ := Mutex.exclusion
    (fun thread => job_guards budget (jobs thread))
    (launch_exclusive unlocked) ran.reaches
  have goesOn := Mutex.progress ?_ ?_ guards exclusive
  · simpa only [inside_iff ran] using goesOn
  · intro request world spares
    cases answer : exec env config request world with
    | some result => exact ⟨result.1, result.2, .exact answer⟩
    | none =>
        cases request with
        | gcLock => exact absurd rfl spares
        | db call =>
            simp only [exec] at answer
            split at answer <;> cases answer
        | _ => cases answer
  · intro request world acquires free
    cases request with
    | gcLock =>
        refine ⟨.ok (), { world with gcRunning := true }, .exact ?_⟩
        rw [exec, show world.gcRunning = false from free, if_neg
          Bool.false_ne_true]
    | _ => cases acquires

/-- Two collections never interleave: between two calls of one job that takes
the mutex there is no call of another.  The mutex is held exactly while one such
job has taken it and not given it back, which no job has that has returned or
failed; and as long as one job has not ended some job can go on, unless the
cleanup of the one that holds the mutex has used up its budget. -/
theorem collections_exclude
    (unlocked : start.gcRunning = false)
    (ran : Ran env config budget start jobs moments pool) :
    (∀ earlier first between other after second later,
      moments = earlier ++
        first :: (between ++ other :: (after ++ second :: later)) →
      (jobs first.thread).collects = true →
      (jobs other.thread).collects = true →
      second.thread = first.thread → other.thread = first.thread) ∧
    (pool.world.gcRunning = true ↔
      ∃ thread, Holds env config moments thread) ∧
    (∀ first second, Holds env config moments first →
      Holds env config moments second → first = second) ∧
    (∀ thread, Holds env config moments thread →
      (∀ report, pool.threads thread ≠ .done report) ∧
      ∀ error, pool.threads thread ≠ .fail error) ∧
    ((∃ thread request reply final,
      Pool.Step (running env config).protocol (Faulty env config) pool thread
        request reply final) ∨
    (∀ thread request, ¬pool.Issues thread request) ∨
    ∃ thread, Holds env config moments thread ∧
      pool.threads thread = .spin) := by
  have programs (thread : ι) : (running env config).Guards
      ((jobs thread).program env config budget) (jobs thread).place :=
    job_guards budget (jobs thread)
  have launched : (running env config).Exclusive
      (launch env config budget start jobs) := launch_exclusive unlocked
  obtain ⟨exclusive, guards⟩ :=
    Mutex.exclusion programs launched ran.reaches
  refine ⟨?_, ?_, ?_, fun thread holds => ?_,
    collections_progress ran unlocked⟩
  · rintro earlier first between other after second later rfl collects also
      same
    by_contra different
    have critical {thread : ι} (collects : (jobs thread).collects = true) :
        (launch env config budget start jobs).records thread ≠ .outside := by
      change (jobs thread).place ≠ .outside
      rw [Job.place, if_pos collects]
      exact Place.noConfusion
    exact Mutex.sections_apart programs launched (critical collects)
      (critical also) same different ran
  · have held := exclusive.held
    simp only [inside_iff ran] at held
    exact held
  · simpa only [inside_iff ran] using exclusive.single
  · have within := guards thread
    rw [(inside_iff ran thread).mpr holds] at within
    constructor
    · intro report ended
      rw [ended] at within
      exact within rfl
    · intro error ended
      rw [ended] at within
      exact within rfl

/-- An upload, a sweep, and an orphan scan that is dropped. -/
def contending : Fin 3 → Job
  | 0 => .serve (.operation
      (.put ⟨acme, .sstate, "acme", "first", [.ok [97]]⟩))
  | 1 => .collect ⟨.sweep false, none⟩
  | 2 => .collect ⟨.scan false, some 1⟩

/-- The scan took the mutex after the sweep, and the upload goes on. -/
theorem collections_exclude_contending :
    ∃ (moments : Steps (Fin 3)) (pool : Jobs (Fin 3)),
      Ran Sample.env (Sample.config 1024) 1 (World.initial 1000) contending
        moments pool ∧
      Holds Sample.env (Sample.config 1024) moments 2 ∧
      ¬Holds Sample.env (Sample.config 1024) moments 1 := by
  have ran : ((Pool.replay (running Sample.env (Sample.config 1024)).protocol
      (exec Sample.env (Sample.config 1024)) (fun _ _ _ => true)
      ([0, 1, 0, 1] ++ List.replicate 7 1 ++ [2, 0, 2])
      (launch Sample.env (Sample.config 1024) 1 (World.initial 1000)
        contending)).any fun pool => pool.records 2 = .inside) = true := by
    decide +kernel
  rw [Option.any_eq_true] at ran
  obtain ⟨pool, replayed, inside⟩ := ran
  have reached : Pool.Reaches
      (running Sample.env (Sample.config 1024)).protocol
      (Faulty Sample.env (Sample.config 1024)) (fun _ _ _ => True)
      (launch Sample.env (Sample.config 1024) 1 (World.initial 1000)
        contending) pool :=
    Pool.reaches_of_free_replay (fun _ _ _ _ => .exact) replayed
  obtain ⟨moments, ran⟩ := reached.run
  have holds : Holds Sample.env (Sample.config 1024) moments 2 :=
    (inside_iff ran 2).mp (of_decide_eq_true inside)
  refine ⟨moments, pool, ran, holds, fun also => ?_⟩
  obtain ⟨-, -, single, -⟩ := collections_exclude rfl ran
  exact absurd (single 1 2 also holds) (by decide)

/-! ## One after the other -/

/-- Some time passes. -/
def passes (before after : World) : Prop :=
  ∃ nanos, after = before.elapse nanos

/-- Calls may fail, and time may pass before each of them. -/
abbrev Timed (env : Env) (config : Config) :
    Answers Call Call.Reply CoreError World :=
  Answers.delayed (Faulty env config) passes

/-- `GcSvc::running` while the clock goes on. -/
def runningOn (env : Env) (config : Config) : Mutex (Timed env config) :=
  (running env config).delayed passes (by
    rintro before _ ⟨nanos, rfl⟩
    rfl)

/-- The collections take these steps, one call at a time and in any order,
while the clock goes on. -/
abbrev Collected
    (env : Env) (config : Config) (budget : Nat) (start : World)
    (attempts : ι → Attempt) (moments : Steps ι) (pool : Jobs ι) : Prop :=
  Pool.Run (runningOn env config).protocol (Timed env config)
    (launch env config budget start fun thread => .collect (attempts thread))
    moments pool

/-- Where there are only collections, they run one after the other, in the
order in which they give the mutex back: the steps of the run are those of the
first, then those of the second, and so on, up to the one that holds the mutex.
Each starts in the world that the one before it left, and its report or its
error is that of its own steps. -/
theorem collections_serialize
    {attempts : ι → Attempt}
    (unlocked : start.gcRunning = false)
    (ran : Collected env config budget start attempts moments pool) :
    ∃ ended past rest middle,
      Mutex.Serial (Timed env config)
        (fun thread => (attempts thread).program env config budget) start
        ended past middle ∧
      moments = past ++ rest ∧
      (∀ moment ∈ rest, (runningOn env config).Holds moments moment.thread) ∧
      ended.map Prod.fst = (runningOn env config).leavers moments ∧
      (ended.map Prod.fst).Nodup ∧
      (∀ thread report, pool.threads thread = .done report →
        (thread, .returned report) ∈ ended) ∧
      (∀ thread error, pool.threads thread = .fail error →
        (thread, .failed error) ∈ ended) ∧
      (pool.world.gcRunning = false → rest = [] ∧ pool.world = middle) := by
  have guards (thread : ι) : (runningOn env config).Guards
      ((attempts thread).program env config budget) .waiting :=
    (attempt_encloses budget (attempts thread)).guards
  obtain ⟨ended, past, middle, serialized, order⟩ :=
    Mutex.serializes guards unlocked ran
  have launched : (runningOn env config).Exclusive
      (launch env config budget start fun thread =>
        .collect (attempts thread)) :=
    Mutex.exclusive_launch unlocked fun _ => Place.noConfusion
  obtain ⟨exclusive, kept⟩ := Mutex.exclusion guards launched ran.reaches
  obtain ⟨rest, divided, current⟩ := serialized.rest
  have mem_ended (thread : ι)
      (finished : Mutex.endingOf (pool.threads thread) ≠ .dropped) :
      (thread, Mutex.endingOf (pool.threads thread)) ∈ ended :=
    serialized.mem_ended (kept thread) (attempt_begins (attempts thread))
      finished
  refine ⟨ended, past, rest, middle, serialized.serial, divided,
    fun moment among => ?_, order, serialized.once,
    fun thread report returned => ?_, fun thread error failed => ?_,
    fun free => ?_⟩
  · exact (Mutex.inside_iff_holds (guards _) (.inr rfl) ran).mp
      (current moment among)
  · have entry := mem_ended thread
    rw [returned] at entry
    exact entry fun impossible => nomatch impossible
  · have entry := mem_ended thread
    rw [failed] at entry
    exact entry fun impossible => nomatch impossible
  · have alone (thread : ι) : pool.records thread ≠ .inside := by
      intro inside
      have held : pool.world.gcRunning = true :=
        exclusive.held.mpr ⟨thread, inside⟩
      rw [free] at held
      cases held
    exact ⟨List.eq_nil_iff_forall_not_mem.mpr fun moment among =>
      alone _ (current moment among), (serialized.idle alone).1⟩

/-- A project whose entry is kept for ten seconds, and a file that belongs to no
entry. -/
def littered : World :=
  (Program.run (exec Sample.env (Sample.config 1024)) (do
    let _ ← transact (.projectsCreate "acme" none (some 10))
    let written ← LocalFsStore.writeStreamed Sample.env [.ok [97]]
    let _ ← transact
      (.entriesUpsert 1 .sstate "first" written.hash written.sizeBytes)
    let _ ← LocalFsStore.writeStreamed Sample.env [.ok [98]]
    pure ()) (World.initial 1000)).2

/-- A sweep, a scan that is dropped after it has listed the files, and a
scan. -/
def waiting : Fin 3 → Attempt
  | 0 => ⟨.sweep false, none⟩
  | 1 => ⟨.scan false, some 3⟩
  | 2 => ⟨.scan false, none⟩

/-- What a job has returned. -/
def returned : App (Option Report) → Option (Option Report)
  | .done report => some report
  | _ => none

theorem returned_spec
    {program : App (Option Report)} {report : Option Report}
    (known : returned program = some report) : program = .done report := by
  unfold returned at known
  split at known
  · cases known
    rfl
  · cases known

/-- Each call takes three seconds.  While the sweep waits for the scan that is
dropped, the entry expires; the sweep evicts it and frees its blob, and the
other scan, after it, removes the file. -/
theorem collections_serialize_waiting :
    ∃ (moments : Steps (Fin 3)) (pool : Jobs (Fin 3))
        (ended : List (Fin 3 × Ending CoreError (Option Report)))
        (middle : World),
      Collected Sample.env (Sample.config 1024) 2 littered waiting moments
        pool ∧
      Mutex.Serial (Timed Sample.env (Sample.config 1024))
        (fun thread => (waiting thread).program Sample.env
          (Sample.config 1024) 2) littered ended moments middle ∧
      (0, .returned (some (.swept ⟨1, 1, 1, 0⟩))) ∈ ended ∧
      (2, .returned (some (.scanned ⟨1, 0⟩))) ∈ ended ∧
      pool.world = middle := by
  have ran : ((Pool.replay
      (runningOn Sample.env (Sample.config 1024)).protocol
      (fun request world => exec Sample.env (Sample.config 1024) request
        (world.elapse (3 * nanosPerSec))) (fun _ _ _ => true)
      (List.replicate 5 1 ++ List.replicate 13 0 ++ List.replicate 6 2)
      (launch Sample.env (Sample.config 1024) 2 littered
        fun thread => .collect (waiting thread))).any fun pool =>
          decide (returned (pool.threads 0) =
            some (some (.swept ⟨1, 1, 1, 0⟩))) &&
          decide (returned (pool.threads 2) = some (some (.scanned ⟨1, 0⟩))) &&
          !pool.world.gcRunning) = true := by
    decide +kernel
  rw [Option.any_eq_true] at ran
  obtain ⟨pool, replayed, outcome⟩ := ran
  simp only [Bool.and_eq_true, Bool.not_eq_true', decide_eq_true_eq]
    at outcome
  obtain ⟨⟨swept, scanned⟩, free⟩ := outcome
  have reached : Pool.Reaches
      (runningOn Sample.env (Sample.config 1024)).protocol
      (Timed Sample.env (Sample.config 1024)) (fun _ _ _ => True)
      (launch Sample.env (Sample.config 1024) 2 littered
        fun thread => .collect (waiting thread)) pool :=
    Pool.reaches_of_free_replay (fun _ _ _ _ ran => ⟨_, ⟨_, rfl⟩, .exact ran⟩)
      replayed
  obtain ⟨moments, ran⟩ := reached.run
  obtain ⟨ended, past, rest, middle, serial, divided, -, -, -, finished, -,
    quiet⟩ := collections_serialize (by decide +kernel) ran
  obtain ⟨rfl, same⟩ := quiet free
  rw [List.append_nil] at divided
  subst divided
  exact ⟨_, pool, ended, middle, ran, serial,
    finished 0 _ (returned_spec swept), finished 2 _ (returned_spec scanned),
    same⟩

end Runs

end Collections

end Marmotte
