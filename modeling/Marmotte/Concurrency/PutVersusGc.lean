import Marmotte.Concurrency.Requests
import Marmotte.Custody.Interference
import Mathlib.Data.Fintype.Basic

/-!
# Uploads against sweeps

Any number of `PUT` requests interleaved with sweeps.  A sweep decides that a
blob is dead in one query and acts on it in later calls, and an upload relies on
a file before its row is referenced; the store invariant survives exactly as
long as these two windows do not overlap on one hash.
-/

namespace Marmotte

open Effects

namespace PutVersusGc

open Custody

/-- The tasks of the scenario. -/
inductive Client
  | put (request : PutRequest)
  | gcRun (budget : Nat)
  /-- The clock moves on. -/
  | wait (nanos : Nat)

/-- What a task runs; only requests have a response. -/
def Client.program (env : Env) (config : Config) :
    Client → App (Option Response)
  | .put request => request.program env config
  | .gcRun budget => do
      let _ ← GcSvc.run config.gc budget false
      pure none
  | .wait nanos => do
      Program.perform (Call.tick nanos)
      pure none

/-- Any bodies and any project deletes, but no orphan scan. -/
def setting (env : Env) : Setting := ⟨env, Set.univ, True, True, False, True⟩

theorem program_follows (env : Env) (config : Config) (client : Client) :
    (client.program env config).Follows (protocol (setting env))
      (fun _ _ => True) (fun _ _ => True) .idle := by
  cases client with
  | put request =>
      exact (request.program_follows (setting env) config .idle trivial).mono
        (fun _ _ _ => trivial) fun _ _ _ => trivial
  | gcRun budget =>
      exact Program.Follows.bind
        (run_keeps (setting env) config.gc budget trivial)
        fun _ _ _ => trivial
  | wait nanos => exact follows_then trivial fun _ => trivial

/-- The condition on the steps of a run. -/
def Separate (_ : World) (_ : Local) (request : Call) (other : Local) :
    Prop :=
  SparesSweeps request other

instance (world : World) (record : Local) (request : Call) (other : Local) :
    Decidable (Separate world record request other) :=
  inferInstanceAs (Decidable (SparesSweeps request other))

/-- Without orphan scans there is nothing for uploads to spare. -/
theorem sparesScans
    {env : Env} {record other : Local} {world : World} {request : Call}
    (owned : Owned (setting env) record world)
    (foreign : Owned (setting env) other world) :
    SparesScans world record request other :=
  sparesScans_of_none id owned foreign

/-- The store invariant under interleaved uploads and sweeps. -/
def discipline (env : Env) (config : Config) :
    Pool.Discipline (protocol (setting env)) (Faulty env config)
      Separate where
  shared := Intact (setting env)
  own := Owned (setting env)
  pair := Apart
  step _ _ _ _ _ intact owned permitted answered :=
    ⟨intact_step intact owned permitted answered,
      own_step owned (fun _ => intact.covered) (fun _ => intact.digested)
        (fun scanned => scanned.elim) permitted answered⟩
  frame _ _ _ _ _ _ _ owned foreign apart permitted spares answered :=
    foreign.stable (undisturbed owned foreign apart permitted spares
      (sparesScans owned foreign) answered)
  apart _ _ _ _ _ _ _ owned foreign apart permitted _ answered :=
    apart_step foreign apart permitted (sparesScans owned foreign) answered
  symm _ _ := Apart.symm

/-- While the windows stay apart, every entry has its row and its file, and a
sweep never attempts to delete a row that an entry references. -/
theorem entries_keep_files
    [DecidableEq ι]
    (env : Env) (config : Config)
    (clients : ι → Client) (start : World)
    (intact : Intact (setting env) start)
    (pool : Pool ι Call Call.Reply CoreError (Option Response) World Local)
    (reached : Pool.Reaches (protocol (setting env)) (Faulty env config)
      (fun pool thread request => pool.Exclusive Separate thread request)
      (.launch .idle (fun thread => (clients thread).program env config)
        start) pool) :
    (∀ entry ∈ pool.world.db.entries.rows,
      pool.world.db.HasBlob entry.blobHash ∧
        pool.world.fs.has (blobPath entry.blobHash) = true) ∧
    (∀ thread hash, pool.Issues thread (.db (.blobsDelete hash)) →
      ¬pool.world.db.References hash) ∧
    (∀ thread request response,
      clients thread = .put request →
      pool.threads thread = .done (some response) →
      response.status = 201 →
      ∀ entry, pool.world.db.entryAt request.key = some entry →
        pool.world.fs.has (blobPath entry.blobHash) = true) := by
  have disciplined := (Pool.disciplined_launch (discipline env config) intact
    (owned_idle _ _) (apart_idle _) fun thread =>
      program_follows env config (clients thread)).reaches reached
  refine ⟨?_, ?_, ?_⟩
  · intro entry present
    exact ⟨pool.world.db.entry_blob entry present,
      disciplined.shared.kept entry present⟩
  · intro thread hash issues
    exact (disciplined.own thread issues.live).pending hash
      (disciplined.permits issues)
  · intro _ _ _ _ _ _ entry found
    exact disciplined.shared.kept entry (Db.entryAt_eq_some.mp found).1

/-! ## A sweep between uploads, and an overlap -/

/-- The tasks of an example in a world with one project. -/
def launchAll (clients : ι → Client) :
    Pool ι Call Call.Reply CoreError (Option Response) World Local :=
  .launch .idle
    (fun thread => (clients thread).program Sample.env (Sample.config 1024))
    oneProject

/-- The row that the task is about to delete. -/
def deleting : App (Option Response) → Option String
  | .call (.db (.blobsDelete hash)) _ => some hash
  | _ => none

theorem deleting_spec
    {program : App (Option Response)} {hash : String}
    (deletes : deleting program = some hash) :
    ∃ next, program = .call (.db (.blobsDelete hash)) next := by
  unfold deleting at deletes
  split at deletes
  · cases deletes
    exact ⟨_, rfl⟩
  · cases deletes

/-- A byte is stored, replaced under its path, swept, and stored again under
another path, while the clock moves on. -/
def separated : Fin 5 → Client
  | 0 => .put ⟨acme, .sstate, "acme", "first", [.ok [97]]⟩
  | 1 => .put ⟨acme, .sstate, "acme", "first", [.ok [98]]⟩
  | 2 => .put ⟨acme, .sstate, "acme", "second", [.ok [97]]⟩
  | 3 => .gcRun 2
  | 4 => .wait (2 * nanosPerSec)

/-- The third request has written its temporary file when the sweep starts, and
the sweep has unlinked the dead file before the request looks for it. -/
def separation : List (Fin 5) :=
  List.replicate 11 0 ++ List.replicate 11 1 ++ List.replicate 5 2 ++ [4] ++
    List.replicate 8 3

/-- The sweep deletes the row before the third request commits. -/
def completion : List (Fin 5) :=
  List.replicate 2 2 ++ [3] ++ List.replicate 4 2

/-- The steps that keep the windows apart. -/
def separates
    (pool : Pool (Fin 5) Call Call.Reply CoreError (Option Response) World
      Local)
    (thread : Fin 5) (request : Call) : Bool :=
  decide (pool.Exclusive Separate thread request)

theorem reaches_separately
    {start pool final : Pool (Fin 5) Call Call.Reply CoreError
      (Option Response) World Local}
    {schedule : List (Fin 5)}
    (reached : Pool.Reaches (protocol (setting Sample.env))
      (Faulty Sample.env (Sample.config 1024))
      (fun pool thread request => pool.Exclusive Separate thread request)
      start pool)
    (replayed : Pool.replay (protocol (setting Sample.env))
      (exec Sample.env (Sample.config 1024)) separates schedule pool =
        some final) :
    Pool.Reaches (protocol (setting Sample.env))
      (Faulty Sample.env (Sample.config 1024))
      (fun pool thread request => pool.Exclusive Separate thread request)
      start final :=
  Pool.reaches_of_replay (fun _ _ _ _ => .exact)
    (fun _ _ _ => of_decide_eq_true) reached replayed

theorem entries_keep_files_separated :
    ∃ sweeping final : Pool (Fin 5) Call Call.Reply CoreError
        (Option Response) World Local,
      (sweeping.Issues 3 (.db (.blobsDelete (Sample.sha256 [97]))) ∧
        ¬sweeping.world.db.References (Sample.sha256 [97])) ∧
      ∃ response entry,
        final.threads 2 = .done (some response) ∧ response.status = 201 ∧
        final.world.db.entryAt ⟨1, .sstate, "second"⟩ = some entry ∧
        entry.blobHash = Sample.sha256 [97] ∧
        final.world.fs.has (blobPath entry.blobHash) = true := by
  have ran : ((Pool.replay (protocol (setting Sample.env))
      (exec Sample.env (Sample.config 1024)) separates separation
      (launchAll separated)).any fun sweeping =>
        deleting (sweeping.threads 3) = some (Sample.sha256 [97]) &&
        (Pool.replay (protocol (setting Sample.env))
          (exec Sample.env (Sample.config 1024)) separates completion
          sweeping).any fun final =>
            created (final.threads 2) &&
            (final.world.db.entryAt ⟨1, .sstate, "second"⟩).any fun entry =>
              entry.blobHash = Sample.sha256 [97]) = true := by
    decide +kernel
  simp only [Option.any_eq_true, Bool.and_eq_true, decide_eq_true_eq] at ran
  obtain ⟨sweeping, swept, deletes, final, finished, answered, entry, found,
    named⟩ := ran
  have reached := reaches_separately .refl swept
  have completed := reaches_separately reached finished
  have intact := oneProject_intact (setting Sample.env) rfl
  have issues := deleting_spec deletes
  obtain ⟨response, returned, created⟩ := created_spec answered
  refine ⟨sweeping, final, ⟨issues, ?_⟩, response, entry, returned, created,
    found, named, ?_⟩
  · exact (entries_keep_files Sample.env (Sample.config 1024) separated
      oneProject intact sweeping reached).2.1 3 _ issues
  · exact (entries_keep_files Sample.env (Sample.config 1024) separated
      oneProject intact final completed).2.2 2 _ response rfl returned created
        entry found

/-- A byte is stored and then replaced under one path; while a sweep frees its
blob, a third request stores it again under another path. -/
def overlapping : Fin 4 → Client
  | 0 => .put ⟨acme, .sstate, "acme", "first", [.ok [97]]⟩
  | 1 => .put ⟨acme, .sstate, "acme", "first", [.ok [98]]⟩
  | 2 => .put ⟨acme, .sstate, "acme", "second", [.ok [97]]⟩
  | 3 => .gcRun 2

/-- The third request finds the file just before the sweep unlinks it. -/
def overlap : List (Fin 4) :=
  List.replicate 11 0 ++ List.replicate 11 1 ++ List.replicate 7 3 ++
    List.replicate 8 2 ++ [3] ++ List.replicate 3 2

/-- Without the condition an upload that was answered 201 points to a missing
file, and the sweep goes on to delete the row that it references. -/
theorem upload_loses_file :
    ∃ pool,
      Pool.Reaches (protocol (setting Sample.env))
        (exec Sample.env (Sample.config 1024)).answers (fun _ _ _ => True)
        (launchAll overlapping) pool ∧
      (∃ response, pool.threads 2 = .done (some response) ∧
        response.status = 201) ∧
      (∃ entry,
        pool.world.db.entryAt ⟨1, .sstate, "second"⟩ = some entry ∧
        pool.world.fs.has (blobPath entry.blobHash) = false) ∧
      ∃ hash, pool.Issues 3 (.db (.blobsDelete hash)) ∧
        pool.world.db.References hash := by
  have ran : ((Pool.replay (protocol (setting Sample.env))
      (exec Sample.env (Sample.config 1024)) (fun _ _ _ => true) overlap
      (launchAll overlapping)).any
        fun pool =>
          created (pool.threads 2) &&
          (pool.world.db.entryAt ⟨1, .sstate, "second"⟩).any (fun entry =>
            !pool.world.fs.has (blobPath entry.blobHash)) &&
          (deleting (pool.threads 3)).any fun hash =>
            decide (pool.world.db.References hash)) = true := by
    decide +kernel
  rw [Option.any_eq_true] at ran
  obtain ⟨pool, replayed, outcome⟩ := ran
  simp only [Bool.and_eq_true, Option.any_eq_true, Bool.not_eq_true',
    decide_eq_true_eq] at outcome
  obtain ⟨⟨answered, entry, found, lost⟩, hash, deletes, referenced⟩ := outcome
  exact ⟨pool, Pool.reaches_of_free_replay (fun _ _ _ _ => id) replayed,
    created_spec answered, ⟨entry, found, lost⟩, hash, deleting_spec deletes,
    referenced⟩

end PutVersusGc

end Marmotte
