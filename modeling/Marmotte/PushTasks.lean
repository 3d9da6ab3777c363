import Marmotte.Effects.TaskGroup
import Marmotte.PushRun

/-!
# The tasks of the push command

The main loop of `marmotte push`, which takes a permit for each file, uploads
it in a task of its own, and counts the results when all tasks are spawned.  The
server may answer anything, or not at all; a task may panic.  The URLs of the
files can be built.
-/

namespace Marmotte

open Effects Program

namespace PushTasks

open Push

/-! ## The upload of one file -/

/-- What a task asks of the file system, of the server and of the timer. -/
inductive ClientCall
  | openFile (name : List FileName)
  | readBuf (name : List FileName)
  | readFile (name : List FileName)
  | head (url : List (List UInt8)) (authorization ifNoneMatch : String)
  | put (url : List (List UInt8)) (authorization : String) (body : Bytes)
  | sleep (millis : Nat)

/-- What each call returns when it succeeds. -/
abbrev ClientCall.Reply : ClientCall → Type
  | .readFile _ => Bytes
  | .head .. => Response
  | .put .. => Response
  | _ => Unit

/-- Why an upload failed.  A request that gets no answer fails with an error of
the transport. -/
inductive CliError
  | io (cause : IoError)
  | http
  | headReturned (status : Nat)
  | putReturned (url : List (List UInt8)) (status : Nat)
  deriving DecidableEq, Repr

/-- Programs of the tasks. -/
abbrev Client := Program ClientCall ClientCall.Reply CliError

/-- Initial backoff in milliseconds; doubles each retry attempt. -/
def initialBackoffMs : Nat := 200

/-- The loop of `sha256_file`; the last read finds the end of the file. -/
def hashBuffers
    (env : Env) (name : List FileName) : List Bytes → Bytes → Client String
  | [], hashed => do
      perform (ClientCall.readBuf name)
      pure (env.sha256 hashed)
  | buf :: rest, hashed => do
      perform (ClientCall.readBuf name)
      if buf.length = 0 then pure (env.sha256 hashed)
      else hashBuffers env name rest (hashed ++ buf)

/-- Computes the `SHA-256` hex digest of a file's contents. -/
def sha256File (env : Env) (file : LocalFile) : Client String := do
  perform (ClientCall.openFile file.name)
  hashBuffers env file.name file.reads []

/-- The `PUT` loop; `left` is the number of attempts that may follow this
one. -/
def putLoop
    (url : List (List UInt8)) (name : List FileName) (auth : String)
    (left : Nat) : Client Outcome := do
  let attempt := maxRetries - left
  let body ← perform (ClientCall.readFile name)
  let resp ← perform (ClientCall.put url auth body)
  if 200 ≤ resp.status ∧ resp.status < 300 then pure .pushed
  else
    match left with
    | 0 => .fail (.putReturned url resp.status)
    | left + 1 =>
        if resp.status ∈ retryableStatuses then do
          perform (ClientCall.sleep (initialBackoffMs * 2 ^ attempt))
          putLoop url name auth left
        else .fail (.putReturned url resp.status)

/-- Pushes a single file: `HEAD` with `If-None-Match`, then `PUT` with
backoff. -/
def pushOne
    (env : Env) (url : List (List UInt8)) (file : LocalFile) (auth : String)
    (dryRun : Bool) : Client Outcome := do
  let sha ← sha256File env file
  let etag := quoted sha
  let resp ← perform (ClientCall.head url auth etag)
  match checkHead etag resp with
  | .skipped => pure .skipped
  | .failed => .fail (.headReturned resp.status)
  | .upload =>
      if dryRun then pure .pushed
      else putLoop url file.name auth (maxRetries - 1)

/-! ## The main loop -/

/-- The arguments of the command, with the functions of its libraries and the
greatest number of permits of a semaphore. -/
structure Arguments where
  env : Env
  encodeBase64 : Bytes → String
  maxPermits : Nat
  project : String
  kind : Kind
  baseUrl : List (List UInt8)
  apiKey : String
  concurrency : USize
  dryRun : Bool

/-- The counters of the main loop. -/
structure Report where
  pushed : Nat
  skipped : Nat
  failed : Nat
  deriving DecidableEq, Repr

namespace Report

/-- The files that are counted. -/
def total (report : Report) : Nat :=
  report.pushed + report.skipped + report.failed

/-- Counts the result of a task; a task that panicked is a failure, too. -/
def collect (report : Report) : Verdict CliError Outcome → Report
  | .returned .pushed => { report with pushed := report.pushed + 1 }
  | .returned .skipped => { report with skipped := report.skipped + 1 }
  | .failed _ => { report with failed := report.failed + 1 }
  | .panicked => { report with failed := report.failed + 1 }

theorem total_collect
    (report : Report) (result : Verdict CliError Outcome) :
    (report.collect result).total = report.total + 1 := by
  unfold collect total
  split <;> simp only <;> omega

end Report

/-- The main loop of the command with its tasks. -/
abbrev Run :=
  Group LocalFile ClientCall ClientCall.Reply CliError Outcome Unit Report

/-- What the tasks of the command do.  Any call may have any result. -/
def plan (args : Arguments) :
    Plan LocalFile ClientCall ClientCall.Reply CliError Outcome Unit
      Report where
  work file :=
    pushOne args.env (url args.baseUrl args.kind args.project file.name) file
      (authHeader args.encodeBase64 args.project args.apiKey) args.dryRun
  initial := ⟨0, 0, 0⟩
  collect := Report.collect
  answers _ _ _ _ := True

/-- The command once it has walked the directory.  `Semaphore::new` panics on
more permits than a semaphore can hold. -/
def launch (args : Arguments) (files : List LocalFile) : Option Run :=
  if args.concurrency.toNat ≤ args.maxPermits then
    some (.launch args.concurrency.toNat files ())
  else none

/-! ## The uploads are short -/

theorem hashBuffers_brief
    (env : Env) (name : List FileName) (reads : List Bytes) (hashed : Bytes) :
    (hashBuffers env name reads hashed).Brief (reads.length + 1) := by
  induction reads generalizing hashed with
  | nil => exact brief_perform_then fun _ => trivial
  | cons buf rest inductionHypothesis =>
      refine brief_perform_then fun _ => ?_
      split
      · trivial
      · exact inductionHypothesis _

/-- Each attempt reads the file, sends it, and waits before the next one. -/
theorem putLoop_brief
    (url : List (List UInt8)) (name : List FileName) (auth : String)
    (left : Nat) : (putLoop url name auth left).Brief (3 * left + 2) := by
  induction left with
  | zero =>
      refine brief_perform_then fun body => brief_perform_then fun resp => ?_
      split <;> trivial
  | succ left inductionHypothesis =>
      refine brief_perform_then fun body => brief_perform_then fun resp => ?_
      split
      · trivial
      · split
        · exact brief_perform_then fun _ => inductionHypothesis
        · trivial

theorem pushOne_brief
    (env : Env) (url : List (List UInt8)) (file : LocalFile) (auth : String)
    (dryRun : Bool) :
    (pushOne env url file auth dryRun).Brief
      (file.reads.length + 2 + (3 * (maxRetries - 1) + 3)) := by
  have hashed : (sha256File env file).Brief (file.reads.length + 2) :=
    brief_perform_then fun _ => hashBuffers_brief env file.name file.reads []
  refine hashed.bind fun sha => brief_perform_then fun resp => ?_
  split
  · trivial
  · trivial
  · split
    · trivial
    · exact putLoop_brief url file.name auth _

/-! ## The accounts of a run -/

section Runs

variable {args : Arguments} {files : List LocalFile}

/-- What holds at every moment of a run: it is not stuck, no more uploads are
in progress than asked for, no file is attempted twice, and in the end each
file was attempted and is counted. -/
structure Accounted
    (args : Arguments) (files : List LocalFile) (run : Run) : Prop where
  progress : ¬run.Finished → ∃ next, Group.Step (plan args) run next
  bounded : run.running ≤ args.concurrency.toNat
  once : run.spawned <+: files
  complete : ∀ report, run.phase = .finished report →
    run.spawned = files ∧ files.length = report.total

/-- The command starts, every run of it is of bounded length, and the accounts
hold at every moment, whatever the server answers and whichever tasks panic. -/
def Completes (args : Arguments) (files : List LocalFile) : Prop :=
  ∃ start, launch args files = some start ∧
    (∃ bound, ∀ steps run, Group.Runs (plan args) start steps run →
      steps ≤ bound) ∧
    ∀ steps run, Group.Runs (plan args) start steps run →
      Accounted args files run

theorem balanced
    {steps : Nat} {run : Run}
    (reached : Group.Runs (plan args)
      (.launch args.concurrency.toNat files ()) steps run) :
    run.Balanced args.concurrency.toNat files Report.total ∧
      steps + run.potential (plan args) ≤
        Group.potential (plan args)
          (.launch args.concurrency.toNat files ()) := by
  have brief : ∀ file, ∃ calls, ((plan args).work file).Brief calls :=
    fun file => ⟨_, pushOne_brief args.env _ file _ args.dryRun⟩
  exact reached.balanced rfl Report.total_collect brief
    (Group.balanced_launch _ _ _)

/-- With a permit for the first file the accounts hold. -/
theorem accounted
    {steps : Nat} {run : Run}
    (enough : files = [] ∨ 0 < args.concurrency.toNat)
    (reached : Group.Runs (plan args)
      (.launch args.concurrency.toNat files ()) steps run) :
    Accounted args files run := by
  obtain ⟨balanced, -⟩ := balanced reached
  have permits := balanced.permits
  have order := balanced.jobs
  have counted := balanced.counted
  refine ⟨?_, by omega, ⟨_, order⟩, ?_⟩
  · exact balanced.progress (fun _ _ => ⟨.error .http, (), trivial⟩) enough
  · intro report phase
    have taken := balanced.drained ⟨report, phase⟩
    simp only [phase, Phase.waiting, List.append_nil] at order
    simp only [Group.taken, phase, taken, List.length_nil, order] at counted
    exact ⟨order, counted.symm⟩

/-- Without a permit and with a file there is no way on from the start. -/
theorem not_completes_of_none
    (none : args.concurrency.toNat = 0) (some : files ≠ []) :
    ¬Completes args files := by
  rintro ⟨start, started, -, accounts⟩
  obtain ⟨file, rest, rfl⟩ := List.exists_cons_of_ne_nil some
  unfold launch at started
  split at started
  · cases started
    obtain ⟨next, step⟩ := (accounts 0 _ .refl).progress
      (by rintro ⟨report, ⟨⟩⟩)
    rw [none] at step
    exact Group.stuck_without_permits _ _ _ _ _ (.inl step)
  · cases started

/-- The command completes and accounts for every file exactly if it is given a
permit, unless there is no file, and no more of them than a semaphore holds. -/
theorem push_completes_iff (args : Arguments) (files : List LocalFile) :
    Completes args files ↔
      args.concurrency.toNat ≤ args.maxPermits ∧
        (files = [] ∨ args.concurrency ≠ 0) := by
  constructor
  · intro completes
    refine ⟨?_, ?_⟩
    · obtain ⟨start, started, -⟩ := completes
      unfold launch at started
      split at started
      · assumption
      · cases started
    · by_contra neither
      rw [not_or, not_not] at neither
      refine not_completes_of_none ?_ neither.1 completes
      rw [neither.2]
      rfl
  · rintro ⟨fits, enough⟩
    have permits : files = [] ∨ 0 < args.concurrency.toNat := by
      refine enough.imp_right fun positive => Nat.pos_of_ne_zero fun zero => ?_
      exact positive (USize.toNat_inj.mp zero)
    refine ⟨.launch args.concurrency.toNat files (), if_pos fits,
      ⟨Group.potential (plan args) (.launch args.concurrency.toNat files ()),
        fun steps run reached => ?_⟩, fun steps run => accounted permits⟩
    exact Nat.le_trans (Nat.le_add_right _ _) (balanced reached).2

end Runs

/-! ## A push without a permit -/

namespace Sample

/-- A file of one byte. -/
def file : LocalFile where
  name := [Push.Sample.first]
  content := [97]
  reads := [[97]]
  named := by simp
  reading := by simp [bufferSize]
  complete := rfl

/-- `--concurrency 0`. -/
def args : Arguments where
  env := Marmotte.Sample.env
  encodeBase64 _ := ""
  maxPermits := (USize.size - 1) >>> 3
  project := "demo"
  kind := .sstate
  baseUrl := []
  apiKey := "key"
  concurrency := 0
  dryRun := false

end Sample

/-- A push of one file with `--concurrency 0` waits for a permit for ever. -/
theorem push_waits_for_ever : ¬Completes Sample.args [Sample.file] :=
  not_completes_of_none rfl (List.cons_ne_nil _ _)

end PushTasks

end Marmotte
