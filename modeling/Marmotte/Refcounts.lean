import Marmotte.Operations
import Marmotte.Sequential.Sweep

/-!
# Reference counts

The counts that the transactions maintain by hand agree with the entries in
every interleaving of operations, whatever fails, as long as no project delete
takes entries along: the cascade of the schema removes entries and leaves the
counts of their blobs as they are.
-/

namespace Marmotte

open Effects

namespace Refcounts

open Custody Operation

/-- The call deletes a project together with entries. -/
def cascades (world : World) : Call → Bool
  | .db (.projectsDelete id) => !(world.db.entriesOf id).isEmpty
  | _ => false

/-- What holds of the database in every state. -/
def Balanced (setting : Setting) (world : World) : Prop :=
  Tallied setting world.db ∧ world.db.Exact

/-- A transaction that does not cascade keeps the counts exact. -/
theorem balanced_step
    {setting : Setting} {record : Local} {config : Config}
    {request : Call} {before after : World}
    {reply : Except CoreError request.Reply}
    (balanced : Balanced setting before)
    (spares : cascades before request = false)
    (permitted : permits setting record request)
    (answered : Faulty setting.env config request before reply after) :
    Balanced setting after := by
  refine ⟨tallied_step balanced.1 permitted answered, fun hash => ?_⟩
  have exact := balanced.2 hash
  rcases Faulty.commits answered with same | ⟨call, value, rfl, ran⟩
  · rw [same]
    exact exact
  · rcases DbCall.exec_surplus ran hash with same | zero | ⟨id, rfl, more⟩
    · exact same.trans exact
    · exact zero
    · have alone : before.db.entriesOf id = [] := by
        simpa [cascades] using spares
      rw [more, exact, alone]
      rfl

/-- A state that operations reach, with failing calls, without a cascade. -/
abbrev Reached
    [DecidableEq ι]
    (env : Env) (config : Config) (budget : Nat) (now : Int)
    (operations : ι → Operation)
    (pool : Pool ι Call Call.Reply CoreError (Option Response) World Local) :
    Prop :=
  Pool.Reaches (protocol (setting env (uploaded operations)))
    (Faulty env config)
    (fun pool _ request => cascades pool.world request = false)
    (launch env config budget now operations) pool

theorem balanced_reached
    [DecidableEq ι]
    {env : Env} {config : Config} {budget : Nat} {now : Int}
    {operations : ι → Operation}
    {pool : Pool ι Call Call.Reply CoreError (Option Response) World Local}
    (reached : Reached env config budget now operations pool) :
    Balanced (setting env (uploaded operations)) pool.world :=
  Pool.Reaches.keeps
    (fun _ _ _ _ _ balanced spares permitted answered =>
      balanced_step balanced spares permitted answered)
    (uploads_follow env config budget operations)
    ⟨tallied_empty _, exact_empty⟩ reached

/-- Without hash collisions an entry has the size of its blob. -/
theorem size_of_tallied
    {setting : Setting} {db : Db} {entry : Entry} {blob : Blob}
    (free : setting.env.CollisionFree setting.bodies)
    (tallied : Tallied setting db)
    (present : entry ∈ db.entries.rows) (stored : blob ∈ db.blobs.rows)
    (same : blob.hash = entry.blobHash) :
    blob.sizeBytes = entry.sizeBytes := by
  have sized : db.storedSize blob.hash = some blob.sizeBytes := by
    rw [Db.storedSize, Blobs.get_eq_some.mpr ⟨stored, rfl⟩]
    rfl
  obtain ⟨first, firstKnown, firstHash, firstSize⟩ :=
    tallied.blobs _ _ sized
  obtain ⟨second, secondKnown, secondHash, secondSize⟩ :=
    tallied.entries entry present
  have equal : first = second := by
    apply free first firstKnown second secondKnown
    rw [firstHash, secondHash, same]
  rw [firstSize, secondSize, equal]

/-- A sweep that runs alone reclaims every blob without an entry. -/
theorem reclaimed
    {env : Env} {config : Config} {rounds : Nat} {world : World}
    {hash : String}
    (exact : world.db.Exact) (unreferenced : ¬world.db.References hash)
    (unlocked : world.gcRunning = false)
    (enough : world.db.blobs.rows.length < rounds)
    (stored : world.db.HasBlob hash) :
    ∃ rep after,
      (GcSvc.run config.gc rounds false).run (exec env config) world =
        (.done rep, after) ∧
      ¬after.db.HasBlob hash ∧
      after.fs.has (blobPath hash) = false := by
  obtain ⟨rep, after, ran, cleaned, -⟩ :=
    @GcSvc.run_run env config rounds world unlocked exact.covered enough
  obtain ⟨victims, valid, left⟩ :=
    GcSvc.evictedDb_evictedFrom env config.gc world.now world.db
  have evicted := Db.evicting_spec valid
  rw [← left] at evicted
  have dead : (GcSvc.evictedDb env config.gc world.now world.db).refcount
      hash = 0 :=
    (evicted.exact exact).refcount_eq_zero_iff.mpr
      fun references => unreferenced (evicted.references references)
  refine ⟨rep, after, ran, ?_, ?_⟩
  · rw [cleaned.hasBlob]
    exact fun kept => kept.2 dead
  · rw [Fs.has, cleaned.read_blobPath,
      if_pos ⟨evicted.hasBlob.mpr stored, dead⟩]
    rfl

/-- While no project delete takes entries along, every count is the number of
entries, entries and blobs agree on sizes, and a blob that no entry points to
is reclaimed by the next sweep. -/
theorem refcounts_stay_exact
    [DecidableEq ι]
    (env : Env) (config : Config) (budget : Nat) (now : Int)
    (operations : ι → Operation)
    (free : env.CollisionFree (uploaded operations))
    (pool : Pool ι Call Call.Reply CoreError (Option Response) World Local)
    (reached : Reached env config budget now operations pool) :
    (∀ blob ∈ pool.world.db.blobs.rows,
      blob.refcount = pool.world.db.pointersTo blob.hash) ∧
    (∀ entry ∈ pool.world.db.entries.rows,
      ∃ blob ∈ pool.world.db.blobs.rows, blob.hash = entry.blobHash ∧
        blob.sizeBytes = entry.sizeBytes) ∧
    (∀ blob ∈ pool.world.db.blobs.rows,
      ¬pool.world.db.References blob.hash →
        blob.refcount = 0 ∧
        (pool.world.gcRunning = false →
          ∀ rounds, pool.world.db.blobs.rows.length < rounds →
            ∃ rep after,
              (GcSvc.run config.gc rounds false).run (exec env config)
                pool.world = (.done rep, after) ∧
              ¬after.db.HasBlob blob.hash ∧
              after.fs.has (blobPath blob.hash) = false)) := by
  obtain ⟨tallied, exact⟩ := balanced_reached reached
  have counted := Db.exact_iff.mp exact
  refine ⟨counted, ?_, ?_⟩
  · intro entry present
    obtain ⟨blob, stored, same⟩ := pool.world.db.entry_blob entry present
    exact ⟨blob, stored, same,
      size_of_tallied free tallied present stored same⟩
  · intro blob stored unreferenced
    refine ⟨?_, fun unlocked rounds enough =>
      reclaimed exact unreferenced unlocked enough ⟨blob, stored, rfl⟩⟩
    rw [← Db.refcount_of_mem stored]
    exact exact.refcount_eq_zero_iff.mpr unreferenced

/-! ## A busy project, and one that is deleted -/

/-- One byte under two paths, of which one gets the other byte and the other is
deleted; a sweep; and three bytes that are deleted after it. -/
def busy : Fin 9 → Operation
  | 0 => .createProject root "acme" none none
  | 1 => .put ⟨acme, .sstate, "acme", "first", [.ok [97]]⟩
  | 2 => .put ⟨acme, .sstate, "acme", "second", [.ok [97]]⟩
  | 3 => .put ⟨acme, .sstate, "acme", "first", [.ok [98]]⟩
  | 4 => .put ⟨acme, .sstate, "acme", "third", [.ok [98]]⟩
  | 5 => .deleteEntry root 1 2
  | 6 => .gcRun
  | 7 => .put ⟨acme, .sstate, "acme", "fourth", [.ok [97, 98, 99]]⟩
  | 8 => .deleteEntry root 1 5

/-- The first two uploads take turns. -/
def busySteps : List (Fin 9) :=
  List.replicate 3 0 ++ (List.replicate 11 [1, 2]).flatten ++
    [3, 4].flatMap (List.replicate 11) ++ List.replicate 3 5 ++
    List.replicate 12 6 ++ List.replicate 11 7 ++ List.replicate 3 8

theorem busy_free : Sample.env.CollisionFree (uploaded busy) := by
  have known : ∀ content ∈ uploaded busy,
      content ∈ [[], [97], [98], [97, 98, 99]] := by
    rintro content ⟨thread, request, stores, rfl⟩
    match thread with
    | 0 | 5 | 6 | 8 => cases stores
    | 1 | 2 | 3 | 4 | 7 =>
        cases stores
        decide
  intro first firstKnown second secondKnown
  exact Sample.collisionFree first (known first firstKnown) second
    (known second secondKnown)

/-- Two entries share the blob that is left, and the next sweep reclaims the
blob of the entry that was deleted last. -/
theorem refcounts_stay_exact_busy :
    ∃ pool : Pool (Fin 9) Call Call.Reply CoreError (Option Response) World
        Local,
      pool.world.db.blobs.rows.map Blob.refcount = [2, 0] ∧
      (∀ blob ∈ pool.world.db.blobs.rows,
        blob.refcount = pool.world.db.pointersTo blob.hash) ∧
      ∃ blob ∈ pool.world.db.blobs.rows, blob.refcount = 0 ∧
        ∃ rep after,
          (GcSvc.run (Sample.config 1024).gc 3 false).run
              (exec Sample.env (Sample.config 1024)) pool.world =
            (.done rep, after) ∧
          ¬after.db.HasBlob blob.hash ∧
          after.fs.has (blobPath blob.hash) = false := by
  have ran : ((Pool.replay
      (protocol (setting Sample.env (uploaded busy)))
      (exec Sample.env (Sample.config 1024))
      (fun pool _ request => !cascades pool.world request) busySteps
      (launch Sample.env (Sample.config 1024) 3 1000 busy)).any fun pool =>
        decide (pool.world.db.blobs.rows.map Blob.refcount = [2, 0]) &&
        !pool.world.gcRunning &&
        pool.world.db.blobs.rows.any fun blob =>
          decide (¬pool.world.db.References blob.hash)) = true := by
    decide +kernel
  rw [Option.any_eq_true] at ran
  obtain ⟨pool, replayed, outcome⟩ := ran
  simp only [Bool.and_eq_true, Bool.not_eq_true', List.any_eq_true,
    decide_eq_true_eq] at outcome
  obtain ⟨⟨counts, unlocked⟩, blob, stored, unreferenced⟩ := outcome
  have few : pool.world.db.blobs.rows.length < 3 := by
    have length := congrArg List.length counts
    rw [List.length_map] at length
    rw [length]
    decide
  obtain ⟨counted, -, reclaims⟩ := refcounts_stay_exact Sample.env
    (Sample.config 1024) 3 1000 busy busy_free pool
    (Pool.reaches_of_replay (fun _ _ _ _ => .exact)
      (fun _ _ _ spares => by simpa using spares) .refl replayed)
  obtain ⟨dead, reclaimed⟩ := reclaims blob stored unreferenced
  exact ⟨pool, counts, counted, blob, stored, dead,
    reclaimed unlocked 3 few⟩

/-- The project is deleted after the upload, and a sweep follows. -/
def deleting : Fin 4 → Operation
  | 0 => .createProject root "acme" none none
  | 1 => .put ⟨acme, .sstate, "acme", "first", [.ok [97]]⟩
  | 2 => .deleteProject root 1
  | 3 => .gcRun

/-- The task has returned. -/
def ended : App (Option Response) → Bool
  | .done _ => true
  | _ => false

theorem ended_spec
    {program : App (Option Response)} (returned : ended program = true) :
    ∃ answer, program = .done answer := by
  unfold ended at returned
  split at returned
  · exact ⟨_, rfl⟩
  · cases returned

/-- The cascade leaves a count of one without an entry, and the sweep that
follows leaves the row and the file. -/
theorem cascade_leaks_blob :
    ∃ pool,
      Pool.Reaches (protocol (setting Sample.env (uploaded deleting)))
        (exec Sample.env (Sample.config 1024)).answers (fun _ _ _ => True)
        (launch Sample.env (Sample.config 1024) 2 1000 deleting) pool ∧
      (∃ answer, pool.threads 3 = .done answer) ∧
      ∃ blob ∈ pool.world.db.blobs.rows,
        blob.refcount ≠ pool.world.db.pointersTo blob.hash ∧
        ¬pool.world.db.References blob.hash ∧
        pool.world.fs.has (blobPath blob.hash) = true := by
  have ran : ((Pool.replay
      (protocol (setting Sample.env (uploaded deleting)))
      (exec Sample.env (Sample.config 1024)) (fun _ _ _ => true)
      (List.replicate 2 0 ++ List.replicate 11 1 ++ List.replicate 2 2 ++
        List.replicate 9 3)
      (launch Sample.env (Sample.config 1024) 2 1000 deleting)).any
        fun pool =>
          ended (pool.threads 3) &&
          pool.world.db.blobs.rows.any fun blob =>
            decide (blob.refcount ≠ pool.world.db.pointersTo blob.hash) &&
            decide (¬pool.world.db.References blob.hash) &&
            pool.world.fs.has (blobPath blob.hash)) = true := by
    decide +kernel
  rw [Option.any_eq_true] at ran
  obtain ⟨pool, replayed, outcome⟩ := ran
  simp only [Bool.and_eq_true, List.any_eq_true, decide_eq_true_eq]
    at outcome
  obtain ⟨returned, blob, stored, ⟨wrong, unreferenced⟩, kept⟩ := outcome
  exact ⟨pool, Pool.reaches_of_free_replay (fun _ _ _ _ => id) replayed,
    ended_spec returned, blob, stored, wrong, unreferenced, kept⟩

end Refcounts

end Marmotte
