import Marmotte.Sequential.Sweep

/-!
# A scan that runs alone

An orphan scan that nothing interrupts returns; it unlinks every file of its
walk without a row and purges every row without a file in its walk.
-/

namespace Marmotte

open Effects Tables

namespace GcSvc

open Db

variable {env : Env} {config : Config}

/-- What a scan does that removes some files and purges some hashes. -/
structure Scanned
    (before after : World) (removed purged : List String) : Prop where
  rest : after = { before with db := after.db, fs := after.fs }
  entries : after.db.entries.rows =
    before.db.entries.rows.filter fun entry =>
      !purged.contains entry.blobHash
  blobs : ∀ hash, Blobs.get after.db hash =
    if hash ∈ purged then none else Blobs.get before.db hash
  tenants : SameTenants before.db after.db
  files : ∀ path, after.fs.read path =
    if ∃ hash ∈ removed, path = blobPath hash then none
    else before.fs.read path

/-- Add to the counts of a report. -/
def added (rep : OrphanReport) (disk db : Nat) : OrphanReport :=
  ⟨rep.diskOrphansRemoved + disk, rep.dbOrphansRemoved + db⟩

theorem added_added
    (rep : OrphanReport) (disk db moreDisk moreDb : Nat) :
    added (added rep disk db) moreDisk moreDb =
      added rep (moreDisk + disk) (moreDb + db) := by
  simp only [added, Nat.add_assoc, Nat.add_comm moreDisk,
    Nat.add_comm moreDb]

theorem run_removeDiskOrphans
    (removed : List String) (rep : OrphanReport) (world : World) :
    ∃ after, (removeDiskOrphans false removed rep).run (exec env config)
      world = (.done (added rep removed.length 0), after) ∧
        Scanned world after removed [] := by
  induction removed generalizing rep world with
  | nil =>
      refine ⟨world, rfl, rfl, ?_, ?_, .refl _, ?_⟩
      · simp
      · simp
      · simp
  | cons hash rest inductionHypothesis =>
      unfold removeDiskOrphans
      simp only [Bool.false_eq_true, if_false]
      rw [Program.run_bind_done (run_removeBlob hash world)]
      obtain ⟨after, ran, scanned⟩ := inductionHypothesis (added rep 1 0)
        { world with fs := world.fs.unlink (blobPath hash) }
      rw [added_added] at ran
      refine ⟨after, ran, ?_, scanned.entries, scanned.blobs,
        scanned.tenants, fun path => ?_⟩
      · rw [scanned.rest]
      · rw [scanned.files]
        exact read_unlink_blobPath world.fs hash rest path

theorem run_purgeDbOrphans
    (purged : List String) (rep : OrphanReport) (world : World) :
    ∃ after, (purgeDbOrphans false purged rep).run (exec env config)
      world = (.done (added rep 0 purged.length), after) ∧
        Scanned world after [] purged := by
  induction purged generalizing rep world with
  | nil =>
      refine ⟨world, rfl, rfl, ?_, ?_, .refl _, ?_⟩
      · simp
      · simp
      · simp
  | cons hash rest inductionHypothesis =>
      obtain ⟨db, purges, entries, -, blobs, tenants⟩ :=
        GcQueries.purge_ok world.db hash
      have ranFirst : (transact (.purge hash)).run (exec env config) world =
          (.done (), { world with db := db }) :=
        run_transact purges
      unfold purgeDbOrphans
      simp only [Bool.false_eq_true, if_false]
      rw [Program.run_bind_done ranFirst]
      obtain ⟨after, ran, scanned⟩ := inductionHypothesis (added rep 0 1)
        { world with db := db }
      rw [added_added] at ran
      refine ⟨after, ran, ?_, ?_, fun other => ?_,
        tenants.trans scanned.tenants, scanned.files⟩
      · rw [scanned.rest]
      · rw [scanned.entries, entries, List.filter_filter]
        apply List.filter_congr
        intro entry _
        by_cases same : entry.blobHash = hash
        · simp [same]
        · simp [same]
      · rw [scanned.blobs, blobs]
        by_cases later : other ∈ rest
        · simp [later]
        · simp [later]

/-- The files that a scan finds without a row. -/
def unknownFiles (env : Env) (world : World) : List String :=
  difference env (FsCall.walk env world.fs)
    (env.scan (world.db.blobs.rows.map Blob.hash))

/-- The rows that a scan finds without a file. -/
def missingFiles (env : Env) (world : World) : List String :=
  difference env (env.scan (world.db.blobs.rows.map Blob.hash))
    (FsCall.walk env world.fs)

/-- Where the directory is found, its files are walked. -/
theorem run_onDisk (world : World) :
    onDisk.run (exec env config) world =
      (.done (FsCall.walk env world.fs), world) := rfl

/-- A scan that runs alone returns. -/
theorem run_orphanScan_counted
    {world : World} (unlocked : world.gcRunning = false) :
    ∃ after, (orphanScan env false).run (exec env config) world =
      (.done ⟨(unknownFiles env world).length,
        (missingFiles env world).length⟩, after) ∧
      Scanned world after (unknownFiles env world)
        (missingFiles env world) := by
  have locked : exec env config .gcLock world =
      some (.ok (), { world with gcRunning := true }) := by
    simp [exec, unlocked]
  obtain ⟨middle, ranRemove, removed⟩ :=
    @run_removeDiskOrphans env config (unknownFiles env world) ⟨0, 0⟩
      { world with gcRunning := true }
  obtain ⟨after, ranPurge, purged⟩ :=
    @run_purgeDbOrphans env config (missingFiles env world)
      (added ⟨0, 0⟩ (unknownFiles env world).length 0) middle
  rw [added_added] at ranPurge
  simp only [added, Nat.zero_add, Nat.add_zero] at ranPurge ranRemove
  have ran : (scan env false).run (exec env config)
      { world with gcRunning := true } =
        (.done ⟨(unknownFiles env world).length,
          (missingFiles env world).length⟩, after) := by
    unfold scan
    rw [Program.run_bind_done (run_onDisk _),
      Program.run_bind_done (run_transact rfl)]
    exact (Program.run_bind_done ranRemove _).trans ranPurge
  refine ⟨{ after with gcRunning := false }, ?_, ?_, ?_, fun hash => ?_,
    removed.tenants.trans purged.tenants, fun path => ?_⟩
  · unfold orphanScan
    rw [Program.run_bind_done (Program.run_perform locked),
      Program.run_ensuring, ran]
    rfl
  · rw [purged.rest, removed.rest]
    simp only [unlocked]
  · simp only
    rw [purged.entries, removed.entries]
    simp
  · simp only
    rw [purged.blobs, removed.blobs]
    simp
  · simp only
    rw [purged.files, removed.files]
    simp

theorem run_orphanScan
    {world : World} (unlocked : world.gcRunning = false) :
    ∃ rep after, (orphanScan env false).run (exec env config) world =
      (.done rep, after) ∧
      Scanned world after (unknownFiles env world)
        (missingFiles env world) := by
  obtain ⟨after, ran, scanned⟩ :=
    @run_orphanScan_counted env config world unlocked
  exact ⟨_, after, ran, scanned⟩

end GcSvc

end Marmotte
