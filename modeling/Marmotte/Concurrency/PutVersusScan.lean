import Marmotte.Concurrency.Requests
import Marmotte.Custody.Interference
import Mathlib.Data.Fintype.Basic

/-!
# Uploads against orphan scans

Any number of `PUT` requests interleaved with orphan scans, from any state of
the database and of the directory.  A scan compares a walk with a later query
and acts on the differences later still; it spares what an upload relies on
exactly as long as no upload crosses these windows.
-/

namespace Marmotte

open Effects

namespace PutVersusScan

open Custody

/-- The tasks of the scenario. -/
inductive Client
  | put (request : PutRequest)
  | orphanScan
  /-- The clock moves on. -/
  | wait (nanos : Nat)

/-- What a task runs; only requests have a response. -/
def Client.program (env : Env) (config : Config) :
    Client → App (Option Response)
  | .put request => request.program env config
  | .orphanScan => do
      let _ ← GcSvc.orphanScan env false
      pure none
  | .wait nanos => do
      Program.perform (Call.tick nanos)
      pure none

/-- Any bodies, and no sweep. -/
def setting (env : Env) : Setting := ⟨env, Set.univ, True, False, True, True⟩

/-- What is known when a task has ended. -/
def Ended
    (env : Env) (client : Client) (answer : Option Response) (last : Local) :
    Prop :=
  ∀ request response, client = .put request → answer = some response →
    Acknowledged env request.body response last

theorem program_follows (env : Env) (config : Config) (client : Client) :
    (client.program env config).Follows (protocol (setting env))
      (Ended env client) (fun _ _ => True) .idle := by
  cases client with
  | put request =>
      refine (request.program_follows (setting env) config .idle
        trivial).mono ?_ fun _ _ _ => trivial
      rintro answer last acknowledged _ response ⟨⟩ answered
      exact acknowledged response answered
  | orphanScan =>
      refine Program.Follows.bind (orphanScan_keeps (setting env) trivial) ?_
      rintro _ _ _ _ _ ⟨⟩
  | wait nanos =>
      refine follows_then trivial fun _ => ?_
      rintro _ _ _ ⟨⟩

/-- The condition on the steps of a run. -/
abbrev Separate := SparesScans

/-- Calls may fail, but a scan that cannot tell whether the directory exists
overlooks no file of a row by it. -/
def Sighted (env : Env) (config : Config) :
    Answers Call Call.Reply CoreError World :=
  fun request before reply after =>
    Faulty env config request before reply after ∧ Sees before request reply

/-- Without sweeps the only files that are unlinked are the orphans that a
scan has listed. -/
theorem sparesSweeps
    {env : Env} {record other : Local} {world : World} {request : Call}
    (owned : Owned (setting env) record world)
    (foreign : Owned (setting env) other world)
    (apart : Apart record other)
    (permitted : permits (setting env) record request) :
    SparesSweeps request other := by
  have idle := owned.sweeping.resolve_left id
  have otherIdle := foreign.sweeping.resolve_left id
  unfold SparesSweeps
  split
  · rintro hash holding rfl
    rcases permitted with ⟨_, -, impossible⟩ | ⟨orphan, same, known⟩
    · exact blobPath_ne_tmpPath _ _ impossible
    · rw [blobPath_eq_iff] at same
      subst same
      rcases known with waiting | orphaned
      · rw [idle] at waiting
        cases waiting
      · exact apart.left hash orphaned holding
  · simp [otherIdle]
  · trivial

/-- Blob rows stay named by digests. -/
theorem digested_step
    {env : Env} {config : Config} {record : Local} {request : Call}
    {before after : World} {reply : Except CoreError request.Reply}
    (digested : Digested before.db)
    (permitted : permits (setting env) record request)
    (answered : Faulty env config request before reply after) :
    Digested after.db := by
  rcases Faulty.commits answered with same | ⟨call, value, rfl, ran⟩
  · rw [same]
    exact digested
  · intro hash stored
    rcases (DbCall.exec_rows ran hash).1 stored with old | adds
    · exact digested hash old
    · cases call <;> cases adds
      obtain ⟨-, content, -, rfl, -⟩ := permitted
      exact env.sha256_hex content

/-- What uploads and scans know of each other. -/
def discipline (env : Env) (config : Config) :
    Pool.Discipline (protocol (setting env)) (Sighted env config)
      Separate where
  shared world := Digested world.db
  own := Owned (setting env)
  pair := Apart
  step _ _ _ _ _ digested owned permitted answered :=
    ⟨digested_step digested permitted answered.1,
      own_step owned False.elim (fun _ => digested) (fun _ _ => answered.2)
        permitted answered.1⟩
  frame _ _ _ _ _ _ _ owned foreign apart permitted spares answered :=
    foreign.stable (undisturbed owned foreign apart permitted
      (sparesSweeps owned foreign apart permitted) spares answered.1)
  apart _ _ _ _ _ _ _ _ foreign apart permitted spares answered :=
    apart_step foreign apart permitted spares answered.1
  symm _ _ := Apart.symm

/-- While no upload crosses the windows of a scan, and no scan overlooks the
directory, a scan unlinks no file that a row or an upload relies on, and it
purges no row whose file exists. -/
theorem scans_spare_uploads
    [DecidableEq ι]
    (env : Env) (config : Config)
    (clients : ι → Client) (start : World)
    (digested : Digested start.db)
    (pool : Pool ι Call Call.Reply CoreError (Option Response) World Local)
    (reached : Pool.Reaches (protocol (setting env)) (Sighted env config)
      (fun pool thread request => pool.Exclusive Separate thread request)
      (.launch .idle (fun thread => (clients thread).program env config)
        start) pool) :
    (∀ thread hash, pool.Issues thread (.fs (.removeFile (blobPath hash))) →
      ¬pool.world.db.HasBlob hash ∧
      ∀ other request, clients other = .put request →
        (pool.Live other →
          (pool.records other).held ≠ some hash ∧
            (pool.records other).committed ≠ some hash) ∧
        ∀ response, pool.threads other = .done (some response) →
          response.status = 201 → env.sha256 request.body.bytes ≠ hash) ∧
    (∀ thread hash, pool.Issues thread (.db (.purge hash)) →
      pool.world.fs.has (blobPath hash) = false) := by
  have disciplined := (Pool.disciplined_launch (discipline env config)
    digested (owned_idle _ _) (apart_idle _) fun thread =>
      program_follows env config (clients thread)).reaches reached
  constructor
  · intro thread hash issues
    have owned := disciplined.own thread issues.live
    have orphaned : hash ∈ (pool.records thread).diskOrphans := by
      rcases disciplined.permits issues with
        ⟨_, -, impossible⟩ | ⟨orphan, same, known⟩
      · exact absurd impossible (blobPath_ne_tmpPath _ _)
      · rw [blobPath_eq_iff] at same
        subst same
        refine known.resolve_left fun waiting => ?_
        rw [owned.sweeping.resolve_left id] at waiting
        cases waiting
    have missing := owned.diskOrphans hash orphaned
    have uncommitted {other : ι} (live : pool.Live other) :
        (pool.records other).committed ≠ some hash := fun committing =>
      missing ((disciplined.own other live).committed id trivial hash
        committing).1
    refine ⟨missing, fun other request isPut => ⟨?_, ?_⟩⟩
    · intro live
      refine ⟨fun holding => ?_, uncommitted live⟩
      by_cases same : thread = other
      · subst same
        have collects := owned.collectsNothing_of_held holding
        rw [collects.diskOrphans] at orphaned
        cases orphaned
      · exact (disciplined.pair thread other same issues.live live).left hash
          orphaned holding
    · rintro response returned answered rfl
      have live : pool.Live other := by simp [Pool.Live, returned]
      exact uncommitted live (disciplined.ended returned request response
        isPut rfl answered)
  · intro thread hash issues
    have missing := (disciplined.own thread issues.live).dbOrphans trivial
      hash (disciplined.permits issues)
    simpa using missing

/-! ## A scan beside an upload, and an overlap -/

/-- The tasks of an example. -/
def launchAll (clients : ι → Client) (world : World) :
    Pool ι Call Call.Reply CoreError (Option Response) World Local :=
  .launch .idle
    (fun thread => (clients thread).program Sample.env (Sample.config 1024))
    world

/-- The file that the task is about to remove. -/
def removing : App (Option Response) → Option FilePath
  | .call (.fs (.removeFile path)) _ => some path
  | _ => none

theorem removing_spec
    {program : App (Option Response)} {path : FilePath}
    (removes : removing program = some path) :
    ∃ next, program = .call (.fs (.removeFile path)) next := by
  unfold removing at removes
  split at removes
  · cases removes
    exact ⟨_, rfl⟩
  · cases removes

/-- The row that the task is about to purge. -/
def purging : App (Option Response) → Option String
  | .call (.db (.purge hash)) _ => some hash
  | _ => none

theorem purging_spec
    {program : App (Option Response)} {hash : String}
    (purges : purging program = some hash) :
    ∃ next, program = .call (.db (.purge hash)) next := by
  unfold purging at purges
  split at purges
  · cases purges
    exact ⟨_, rfl⟩
  · cases purges

/-- A world with a file that has no row and a row that has no file. -/
def drifted : World :=
  let stored := ((Yocto.put Sample.env (Sample.config 1024) acme .sstate "acme"
    "lost" [.ok [97, 98, 99]]).run
      (exec Sample.env (Sample.config 1024)) oneProject).2
  { stored with
    fs := (stored.fs.unlink (blobPath (Sample.sha256 [97, 98, 99]))).write
      (blobPath (Sample.sha256 [98])) [98] }

theorem drifted_digested : Digested drifted.db := by
  rintro hash ⟨blob, present, rfl⟩
  have digests : ∀ blob ∈ drifted.db.blobs.rows,
      isHex64 blob.hash = true := by
    decide +kernel
  exact digests blob present

/-- An upload, a scan, and a clock that moves on. -/
def beside : Fin 3 → Client
  | 0 => .put ⟨acme, .sstate, "acme", "first", [.ok [97]]⟩
  | 1 => .orphanScan
  | 2 => .wait (2 * nanosPerSec)

/-- The scan walks and queries before the upload puts its file in place, and the
upload is answered before the scan acts. -/
def separation : List (Fin 3) :=
  List.replicate 4 0 ++ [1, 1, 2] ++ [0, 1, 1] ++ List.replicate 6 0

/-- The steps that keep the windows apart. -/
def separates
    (pool : Pool (Fin 3) Call Call.Reply CoreError (Option Response) World
      Local)
    (thread : Fin 3) (request : Call) : Bool :=
  decide (pool.Exclusive Separate thread request)

/-- Without failing calls a scan finds the directory. -/
theorem sighted_of_exec
    (request : Call) (before : World) (reply : Except CoreError request.Reply)
    (after : World)
    (ran : exec Sample.env (Sample.config 1024) request before =
      some (reply, after)) :
    Sighted Sample.env (Sample.config 1024) request before reply after := by
  refine ⟨.exact ran, ?_⟩
  cases request with
  | fs call =>
      cases call with
      | blobsExists =>
          cases ran
          trivial
      | _ => trivial
  | _ => trivial

theorem reaches_separately
    {start pool final : Pool (Fin 3) Call Call.Reply CoreError
      (Option Response) World Local}
    {schedule : List (Fin 3)}
    (reached : Pool.Reaches (protocol (setting Sample.env))
      (Sighted Sample.env (Sample.config 1024))
      (fun pool thread request => pool.Exclusive Separate thread request)
      start pool)
    (replayed : Pool.replay (protocol (setting Sample.env))
      (exec Sample.env (Sample.config 1024)) separates schedule pool =
        some final) :
    Pool.Reaches (protocol (setting Sample.env))
      (Sighted Sample.env (Sample.config 1024))
      (fun pool thread request => pool.Exclusive Separate thread request)
      start final :=
  Pool.reaches_of_replay sighted_of_exec (fun _ _ _ => of_decide_eq_true)
    reached replayed

theorem scans_spare_uploads_beside :
    ∃ removing purging : Pool (Fin 3) Call Call.Reply CoreError
        (Option Response) World Local,
      (∃ response, removing.threads 0 = .done (some response) ∧
        response.status = 201) ∧
      removing.Issues 1 (.fs (.removeFile (blobPath (Sample.sha256 [98])))) ∧
      ¬removing.world.db.HasBlob (Sample.sha256 [98]) ∧
      Sample.env.sha256 [97] ≠ Sample.sha256 [98] ∧
      purging.Issues 1 (.db (.purge (Sample.sha256 [97, 98, 99]))) ∧
      purging.world.fs.has (blobPath (Sample.sha256 [97, 98, 99])) = false := by
  have ran : ((Pool.replay (protocol (setting Sample.env))
      (exec Sample.env (Sample.config 1024)) separates separation
      (launchAll beside drifted)).any fun unlinking =>
        created (unlinking.threads 0) &&
        removing (unlinking.threads 1) =
          some (blobPath (Sample.sha256 [98])) &&
        (Pool.replay (protocol (setting Sample.env))
          (exec Sample.env (Sample.config 1024)) separates [1]
          unlinking).any fun clearing =>
            purging (clearing.threads 1) =
              some (Sample.sha256 [97, 98, 99])) = true := by
    decide +kernel
  simp only [Option.any_eq_true, Bool.and_eq_true, decide_eq_true_eq] at ran
  obtain ⟨unlinking, walked, ⟨answered, removes⟩, clearing, unlinked,
    purges⟩ := ran
  have reached := reaches_separately .refl walked
  have further := reaches_separately reached unlinked
  obtain ⟨response, returned, stored⟩ := created_spec answered
  have issues := removing_spec removes
  have spared := (scans_spare_uploads Sample.env (Sample.config 1024) beside
    drifted drifted_digested unlinking reached).1 1 _ issues
  refine ⟨unlinking, clearing, ⟨response, returned, stored⟩, issues, spared.1,
    (spared.2 0 _ rfl).2 response returned stored, purging_spec purges, ?_⟩
  exact (scans_spare_uploads Sample.env (Sample.config 1024) beside drifted
    drifted_digested clearing further).2 1 _ (purging_spec purges)

/-- One request to store a byte, and a scan. -/
def overlapping : Fin 2 → Client
  | 0 => .put ⟨acme, .sstate, "acme", "first", [.ok [97]]⟩
  | 1 => .orphanScan

/-- The scan walks and queries between the rename and the upsert. -/
def overlap : List (Fin 2) :=
  List.replicate 8 0 ++ List.replicate 4 1 ++ List.replicate 3 0

/-- Without the condition a scan unlinks the file of an upload that was
answered 201. -/
theorem scan_unlinks_upload :
    ∃ pool,
      Pool.Reaches (protocol (setting Sample.env))
        (exec Sample.env (Sample.config 1024)).answers (fun _ _ _ => True)
        (launchAll overlapping oneProject) pool ∧
      (∃ response, pool.threads 0 = .done (some response) ∧
        response.status = 201) ∧
      ∃ entry,
        pool.world.db.entryAt ⟨1, .sstate, "first"⟩ = some entry ∧
        pool.Issues 1 (.fs (.removeFile (blobPath entry.blobHash))) := by
  have ran : ((Pool.replay (protocol (setting Sample.env))
      (exec Sample.env (Sample.config 1024)) (fun _ _ _ => true) overlap
      (launchAll overlapping oneProject)).any
        fun pool =>
          created (pool.threads 0) &&
          (pool.world.db.entryAt ⟨1, .sstate, "first"⟩).any fun entry =>
            removing (pool.threads 1) = some (blobPath entry.blobHash)) =
              true := by
    decide +kernel
  rw [Option.any_eq_true] at ran
  obtain ⟨pool, replayed, outcome⟩ := ran
  simp only [Bool.and_eq_true, Option.any_eq_true, decide_eq_true_eq]
    at outcome
  obtain ⟨answered, entry, found, removes⟩ := outcome
  exact ⟨pool, Pool.reaches_of_free_replay (fun _ _ _ _ => id) replayed,
    created_spec answered, entry, found, removing_spec removes⟩

end PutVersusScan

end Marmotte
