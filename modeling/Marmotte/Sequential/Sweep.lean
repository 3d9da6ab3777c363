import Marmotte.Sequential.Evictions

/-!
# A sweep that runs alone

Each phase as a function of the database, and the cleanup with the files that
it removes.  A sweep that nothing interrupts returns whenever its budget
exceeds the number of dead blob rows.
-/

namespace Marmotte

open Effects Tables

/-- Count freed blobs. -/
def GcReport.free (rep : GcReport) (count : Nat) : GcReport :=
  { rep with freedBlobs := rep.freedBlobs + count }

theorem GcReport.free_free (rep : GcReport) (first second : Nat) :
    (rep.free first).free second = rep.free (first + second) := by
  simp only [free, Nat.add_assoc]

namespace GcSvc

open Db

variable {env : Env} {config : Config}

/-! ## Eviction phases -/

/-- The entries of one kind that have exceeded their time to live. -/
def ttlVictims
    (env : Env) (config : GcConfig) (now : Int) (kind : Kind) (db : Db) :
    List Entry :=
  env.scan (GcQueries.expired db kind now
    (subI64 now (defaultSecs config kind)))

/-- The database after the TTL phase. -/
def ttlDb (env : Env) (config : GcConfig) (now : Int) (db : Db) : Db :=
  let first := db.evicting (ttlVictims env config now .sstate db)
  first.evicting (ttlVictims env config now .downloads first)

/-- The entries of one project that are evicted for its quota. -/
def quotaVictims (db : Db) (project : Project) : List Entry :=
  match project.quotaBytes with
  | none => []
  | some quota =>
      lruVictims quota (GcQueries.projectLru db project.id)
        (Entries.projectUsage db project.id)

/-- The database after the quota phase. -/
def quotaDb (db : Db) : Db :=
  (Projects.list db).foldl
    (fun db project => db.evicting (quotaVictims db project)) db

/-- The entries that are evicted for the global quota. -/
def globalVictims (config : GcConfig) (db : Db) : List Entry :=
  lruVictims (asI64 config.globalQuotaBytes) (GcQueries.globalLru db)
    (Blobs.totalSize db)

/-- The database after the global phase. -/
def globalDb (config : GcConfig) (db : Db) : Db :=
  db.evicting (globalVictims config db)

theorem ttlVictims_valid
    (env : Env) (config : GcConfig) (now : Int) (kind : Kind) (db : Db) :
    Victims db (ttlVictims env config now kind db) :=
  victims_of_perm (env.scan_perm _)

theorem projectLru_valid (db : Db) (projectId : Int) :
    Victims db (GcQueries.projectLru db projectId) :=
  victims_of_perm (List.perm_insertionSort _ _)

theorem globalLru_valid (db : Db) : Victims db (GcQueries.globalLru db) :=
  victims_of_perm (List.perm_insertionSort _ _)

theorem mem_projectLru {db : Db} {projectId : Int} {entry : Entry} :
    entry ∈ GcQueries.projectLru db projectId ↔
      entry ∈ db.entries.rows ∧ entry.projectId = projectId ∧
        entry.pinned = false := by
  rw [GcQueries.projectLru, List.mem_insertionSort, List.mem_filter,
    decide_eq_true_eq]

theorem mem_globalLru {db : Db} {entry : Entry} :
    entry ∈ GcQueries.globalLru db ↔
      entry ∈ db.entries.rows ∧ entry.pinned = false := by
  rw [GcQueries.globalLru, List.mem_insertionSort, List.mem_filter,
    decide_eq_true_eq]

theorem quotaVictims_valid (db : Db) (project : Project) :
    Victims db (quotaVictims db project) := by
  unfold quotaVictims
  split
  · exact victims_nil db
  · exact (projectLru_valid db project.id).of_sublist
      (lruVictims_initial _ _ _).sublist

theorem globalVictims_valid (config : GcConfig) (db : Db) :
    Victims db (globalVictims config db) :=
  (globalLru_valid db).of_sublist (lruVictims_initial _ _ _).sublist

/-- A database that is left when some of the entries were evicted. -/
def EvictedFrom (db after : Db) : Prop :=
  ∃ victims, Victims db victims ∧ after = db.evicting victims

theorem EvictedFrom.evicting
    {db middle : Db} {victims : List Entry}
    (before : EvictedFrom db middle) (valid : Victims middle victims) :
    EvictedFrom db (middle.evicting victims) := by
  obtain ⟨first, firstValid, rfl⟩ := before
  exact ⟨first ++ victims, firstValid.append valid,
    (evicting_append db first victims).symm⟩

theorem evictedFrom_refl (db : Db) : EvictedFrom db db :=
  ⟨[], victims_nil db, rfl⟩

theorem ttlDb_evictedFrom
    (env : Env) (config : GcConfig) (now : Int) (db : Db) :
    EvictedFrom db (ttlDb env config now db) :=
  ((evictedFrom_refl db).evicting (ttlVictims_valid _ _ _ _ _)).evicting
    (ttlVictims_valid _ _ _ _ _)

theorem EvictedFrom.quotaDb
    {db middle : Db} (before : EvictedFrom db middle) :
    EvictedFrom db (quotaDb middle) := by
  have loop (projects : List Project) :
      ∀ middle, EvictedFrom db middle →
        EvictedFrom db (projects.foldl
          (fun db project => db.evicting (quotaVictims db project))
          middle) := by
    induction projects with
    | nil => exact fun _ before => before
    | cons project rest inductionHypothesis =>
        intro middle before
        exact inductionHypothesis _
          (before.evicting (quotaVictims_valid middle project))
  exact loop _ middle before

theorem run_ttlPhase_counted (rep : GcReport) (world : World) :
    (ttlPhase config.gc false rep).run (exec env config) world =
      (.done (counted
        (counted rep (ttlVictims env config.gc world.now .sstate world.db))
        (ttlVictims env config.gc world.now .downloads (world.db.evicting
          (ttlVictims env config.gc world.now .sstate world.db)))),
        { world with db := ttlDb env config.gc world.now world.db }) := by
  have kind (kind : Kind) (rep : GcReport) (middle : World) :
      (ttlKind config.gc false world.now kind rep).run (exec env config)
          middle =
        (.done (counted rep
          (ttlVictims env config.gc world.now kind middle.db)),
          { middle with
            db := middle.db.evicting
              (ttlVictims env config.gc world.now kind middle.db) }) := by
    unfold ttlKind
    rw [Program.run_bind_done (run_transact rfl)]
    exact run_ttlLoop rep (ttlVictims_valid _ _ _ _ _)
  unfold ttlPhase
  rw [Program.run_bind_done (Program.run_perform rfl),
    Program.run_bind_done (kind .sstate rep world)]
  exact kind .downloads _ _

theorem run_ttlPhase (rep : GcReport) (world : World) :
    ∃ rep', (ttlPhase config.gc false rep).run (exec env config) world =
      (.done rep',
        { world with db := ttlDb env config.gc world.now world.db }) :=
  ⟨_, run_ttlPhase_counted rep world⟩

theorem run_quotaProject
    (project : Project) (rep : GcReport) (world : World) :
    (quotaProject false project rep).run (exec env config) world =
      (.done (counted rep (quotaVictims world.db project)),
        { world with
          db := world.db.evicting (quotaVictims world.db project) }) := by
  unfold quotaProject quotaVictims
  cases limited : project.quotaBytes with
  | none => rfl
  | some quota =>
      simp only
      rw [Program.run_bind_done (run_transact rfl)]
      split
      · rename_i fits
        rw [lruVictims_of_le _ fits]
        rfl
      · rw [Program.run_bind_done (run_transact rfl)]
        exact run_lruLoop quota _ rep (projectLru_valid _ _)

/-- The entries that the quota phase evicts, project by project. -/
def loopVictims : List Project → Db → List Entry
  | [], _ => []
  | project :: rest, db =>
      quotaVictims db project ++
        loopVictims rest (db.evicting (quotaVictims db project))

theorem loopVictims_valid (projects : List Project) (db : Db) :
    Victims db (loopVictims projects db) := by
  induction projects generalizing db with
  | nil => exact victims_nil db
  | cons project rest inductionHypothesis =>
      exact (quotaVictims_valid db project).append (inductionHypothesis _)

theorem quotaDb_eq (db : Db) :
    quotaDb db = db.evicting (loopVictims (Projects.list db) db) := by
  have loop (projects : List Project) (db : Db) :
      projects.foldl
        (fun db project => db.evicting (quotaVictims db project)) db =
          db.evicting (loopVictims projects db) := by
    induction projects generalizing db with
    | nil => rfl
    | cons project rest inductionHypothesis =>
        rw [loopVictims, evicting_append]
        exact inductionHypothesis _
  exact loop _ db

theorem run_quotaPhase_counted (rep : GcReport) (world : World) :
    (quotaPhase false rep).run (exec env config) world =
      (.done (counted rep (loopVictims (Projects.list world.db) world.db)),
        { world with db := quotaDb world.db }) := by
  have loop (projects : List Project) (rep : GcReport) (middle : World) :
      (quotaLoop false projects rep).run (exec env config) middle =
        (.done (counted rep (loopVictims projects middle.db)),
          { middle with
            db := projects.foldl
              (fun db project => db.evicting (quotaVictims db project))
              middle.db }) := by
    induction projects generalizing rep middle with
    | nil => rfl
    | cons project rest inductionHypothesis =>
        unfold quotaLoop loopVictims
        rw [Program.run_bind_done (run_quotaProject project rep middle),
          counted_append]
        exact inductionHypothesis _ _
  unfold quotaPhase
  rw [Program.run_bind_done (run_transact rfl)]
  exact loop (Projects.list world.db) rep world

theorem run_quotaPhase (rep : GcReport) (world : World) :
    ∃ rep', (quotaPhase false rep).run (exec env config) world =
      (.done rep', { world with db := quotaDb world.db }) :=
  ⟨_, run_quotaPhase_counted rep world⟩

theorem run_globalPhase_counted (rep : GcReport) (world : World) :
    (globalPhase config.gc false rep).run (exec env config) world =
      (.done (counted rep (globalVictims config.gc world.db)),
        { world with db := globalDb config.gc world.db }) := by
  unfold globalPhase globalDb globalVictims
  rw [Program.run_bind_done (run_transact rfl)]
  simp only
  split
  · rename_i fits
    rw [lruVictims_of_le _ fits]
    rfl
  · rw [Program.run_bind_done (run_transact rfl)]
    exact run_lruLoop _ _ rep (globalLru_valid _)

theorem run_globalPhase (rep : GcReport) (world : World) :
    ∃ rep', (globalPhase config.gc false rep).run (exec env config) world =
      (.done rep', { world with db := globalDb config.gc world.db }) :=
  ⟨_, run_globalPhase_counted rep world⟩

/-! ## Cleanup -/

/-- What cleaning up does: the dead blob rows go, with their files. -/
structure Cleaned (before after : World) : Prop where
  rest : after = { before with db := after.db, fs := after.fs }
  entries : after.db.entries = before.db.entries
  blobs : after.db.blobs.rows =
    before.db.blobs.rows.filter fun blob => !decide (blob.refcount = 0)
  tenants : SameTenants before.db after.db
  files : ∀ path, after.fs.read path =
    if ∃ blob ∈ before.db.blobs.rows,
        blob.refcount = 0 ∧ path = blobPath blob.hash then none
    else before.fs.read path

namespace Cleaned

variable {before after : World} {hash : String}

theorem hasBlob (cleaned : Cleaned before after) :
    after.db.HasBlob hash ↔
      before.db.HasBlob hash ∧ before.db.refcount hash ≠ 0 := by
  simp only [HasBlob, cleaned.blobs, List.mem_filter, Bool.not_eq_true',
    decide_eq_false_iff_not]
  constructor
  · rintro ⟨blob, ⟨present, live⟩, rfl⟩
    rw [refcount_of_mem present]
    exact ⟨⟨blob, present, rfl⟩, live⟩
  · rintro ⟨⟨blob, present, rfl⟩, live⟩
    rw [refcount_of_mem present] at live
    exact ⟨blob, ⟨present, live⟩, rfl⟩

theorem read_blobPath (cleaned : Cleaned before after) :
    after.fs.read (blobPath hash) =
      if before.db.HasBlob hash ∧ before.db.refcount hash = 0 then none
      else before.fs.read (blobPath hash) := by
  rw [cleaned.files]
  congr 1
  simp only [blobPath_eq_iff, eq_iff_iff]
  constructor
  · rintro ⟨blob, present, zero, rfl⟩
    rw [refcount_of_mem present]
    exact ⟨⟨blob, present, rfl⟩, zero⟩
  · rintro ⟨⟨blob, present, rfl⟩, zero⟩
    rw [refcount_of_mem present] at zero
    exact ⟨blob, present, zero, rfl⟩

theorem references (cleaned : Cleaned before after) :
    after.db.References hash ↔ before.db.References hash := by
  rw [References, References, cleaned.entries]

end Cleaned

/-- Freeing a list of dead hashes. -/
structure Freed (before after : World) (hashes : List String) : Prop where
  rest : after = { before with db := after.db, fs := after.fs }
  entries : after.db.entries = before.db.entries
  blobs : after.db.blobs.rows =
    before.db.blobs.rows.filter fun blob => !hashes.contains blob.hash
  tenants : SameTenants before.db after.db
  files : ∀ path, after.fs.read path =
    if ∃ hash ∈ hashes, path = blobPath hash then none
    else before.fs.read path

theorem run_deleteBlob (hash : String) (world : World) :
    (LocalFsStore.deleteBlob hash).run (exec env config) world =
      (.done (), { world with fs := world.fs.unlink (blobPath hash) }) := by
  unfold LocalFsStore.deleteBlob
  rw [Program.run_catchError]
  cases present : world.fs.has (blobPath hash) with
  | true =>
      have removed : exec env config (.fs (.removeFile (blobPath hash)))
          world = some (.ok (),
            { world with fs := world.fs.unlink (blobPath hash) }) := by
        simp [exec, FsCall.exec, present]
      rw [Program.run_perform removed]
  | false =>
      have missing : exec env config (.fs (.removeFile (blobPath hash)))
          world = some (.error (.io .notFound), world) := by
        simp [exec, FsCall.exec, present]
      rw [Fs.unlink_of_missing present]
      simp only [Program.perform, Program.run_call missing]
      rfl

/-- The removal of a file whose failure is only logged. -/
theorem run_removeBlob (hash : String) (world : World) :
    ((LocalFsStore.deleteBlob hash).catchError fun _ => pure ()).run
      (exec env config) world =
        (.done (), { world with fs := world.fs.unlink (blobPath hash) }) := by
  rw [Program.run_catchError, run_deleteBlob]

/-- What unlinking one more blob file does to what can be read. -/
theorem read_unlink_blobPath
    (fs : Fs) (hash : String) (rest : List String) (path : FilePath) :
    (if ∃ other ∈ rest, path = blobPath other then none
      else (fs.unlink (blobPath hash)).read path) =
        if ∃ other ∈ hash :: rest, path = blobPath other then none
        else fs.read path := by
  simp only [List.mem_cons, exists_eq_or_imp]
  by_cases later : ∃ other ∈ rest, path = blobPath other
  · simp [later]
  · by_cases same : path = blobPath hash
    · simp [same]
    · simp only [later, same, or_self, if_false]
      exact Fs.read_unlink_of_ne fs same

theorem run_freeBlob
    {hash : String} {world : World}
    (unreferenced : ¬world.db.References hash) :
    ∃ after, (freeBlob false hash).run (exec env config) world =
      (.done (), after) ∧ Freed world after [hash] := by
  unfold freeBlob
  obtain ⟨db, dropped, entries, blobs, tenants⟩ :=
    Db.deleteBlob_ok unreferenced
  simp only [Bool.false_eq_true, if_false]
  rw [Program.run_bind_done (run_removeBlob hash world)]
  have ran : (transact (.blobsDelete hash)).run (exec env config)
      { world with fs := world.fs.unlink (blobPath hash) } =
        (.done (),
          { world with
            fs := world.fs.unlink (blobPath hash)
            db := db }) :=
    run_transact (by
      simp only [DbCall.exec, Blobs.delete, bind, Except.bind, dropped]
      rfl)
  refine ⟨_, ran, rfl, entries, ?_, tenants, ?_⟩
  · rw [blobs]
    apply List.filter_congr
    intro blob _
    simp
  · intro path
    have unlinked := read_unlink_blobPath world.fs hash [] path
    simpa using unlinked

theorem run_cleanupBatch
    {batch : List String} {world : World} (rep : GcReport)
    (unreferenced : ∀ hash ∈ batch, ¬world.db.References hash) :
    ∃ after, (cleanupBatch false batch rep).run (exec env config)
      world = (.done (rep.free batch.length), after) ∧
        Freed world after batch := by
  induction batch generalizing rep world with
  | nil =>
      refine ⟨world, rfl, rfl, rfl, ?_, .refl _, ?_⟩
      · simp
      · simp
  | cons hash rest inductionHypothesis =>
      obtain ⟨middle, ran, freed⟩ := run_freeBlob
        (unreferenced hash List.mem_cons_self)
      have restUnreferenced : ∀ other ∈ rest,
          ¬middle.db.References other := by
        intro other waiting
        rw [References, freed.entries]
        exact unreferenced other (List.mem_cons_of_mem _ waiting)
      unfold cleanupBatch
      rw [Program.run_bind_done ran]
      obtain ⟨after, ranRest, freedRest⟩ :=
        inductionHypothesis (rep.free 1) restUnreferenced
      rw [GcReport.free_free, Nat.add_comm] at ranRest
      refine ⟨after, ranRest, ?_, ?_, ?_, freed.tenants.trans
        freedRest.tenants, fun path => ?_⟩
      · rw [freedRest.rest, freed.rest]
      · rw [freedRest.entries, freed.entries]
      · rw [freedRest.blobs, freed.blobs, List.filter_filter]
        apply List.filter_congr
        intro blob _
        by_cases same : blob.hash = hash
        · simp [same]
        · simp [same]
      · rw [freedRest.files, freed.files]
        simp only [List.mem_cons, exists_eq_or_imp, List.not_mem_nil,
          or_false]
        by_cases later : ∃ hash ∈ rest, path = blobPath hash
        · simp [later]
        · by_cases same : path = blobPath hash
          · simp [same]
          · simp [later, same]

/-- The blob rows that a cleanup frees. -/
def deadBlobs (db : Db) : List Blob :=
  db.blobs.rows.filter fun blob => decide (blob.refcount = 0)

/-- No entry points to a dead blob row. -/
def DeadUnreferenced (db : Db) : Prop :=
  ∀ blob ∈ deadBlobs db, ¬db.References blob.hash

theorem deadUnreferenced_of_covered {db : Db} (covered : db.Covered) :
    DeadUnreferenced db := by
  intro blob dead
  obtain ⟨present, zero⟩ := List.mem_filter.mp dead
  apply covered.unreferenced
  rw [refcount_of_mem present]
  exact (of_decide_eq_true zero).le

/-- Freeing dead hashes first and cleaning up after is cleaning up. -/
theorem Freed.cleaned
    {before middle after : World} {hashes : List String}
    (freed : Freed before middle hashes) (cleaned : Cleaned middle after)
    (dead : ∀ hash ∈ hashes, before.db.refcount hash = 0 ∧
      before.db.HasBlob hash) : Cleaned before after where
  rest := by rw [cleaned.rest, freed.rest]
  entries := by rw [cleaned.entries, freed.entries]
  blobs := by
    rw [cleaned.blobs, freed.blobs, List.filter_filter]
    apply List.filter_congr
    intro blob present
    by_cases listed : blob.hash ∈ hashes
    · have zero := (dead _ listed).1
      rw [refcount_of_mem present] at zero
      simp [zero]
    · simp [listed]
  tenants := freed.tenants.trans cleaned.tenants
  files path := by
    rw [cleaned.files, freed.files, freed.blobs]
    by_cases listed : ∃ hash ∈ hashes, path = blobPath hash
    · obtain ⟨hash, waiting, rfl⟩ := listed
      obtain ⟨zero, blob, present, rfl⟩ := dead hash waiting
      rw [refcount_of_mem present] at zero
      have gone : ∃ other ∈ before.db.blobs.rows,
          other.refcount = 0 ∧ blobPath blob.hash = blobPath other.hash :=
        ⟨blob, present, zero, rfl⟩
      rw [if_pos gone]
      split
      · rfl
      · exact if_pos ⟨_, waiting, rfl⟩
    · rw [if_neg listed]
      congr 1
      simp only [List.mem_filter, Bool.not_eq_true',
        List.contains_eq_mem, decide_eq_false_iff_not, eq_iff_iff]
      constructor
      · rintro ⟨blob, ⟨present, -⟩, zero⟩
        exact ⟨blob, present, zero⟩
      · rintro ⟨blob, present, zero, same⟩
        exact ⟨blob, ⟨present, fun waiting => listed ⟨_, waiting, same⟩⟩,
          zero, same⟩

/-- Each round of the cleanup loop leaves so many fewer dead rows. -/
theorem Freed.dead_length
    {before after : World} {hashes : List String}
    (freed : Freed before after hashes) (once : hashes.Nodup)
    (dead : ∀ hash ∈ hashes, before.db.refcount hash = 0 ∧
      before.db.HasBlob hash) :
    hashes.length + (deadBlobs after.db).length =
      (deadBlobs before.db).length := by
  have left : deadBlobs after.db = (deadBlobs before.db).filter fun blob =>
      !hashes.contains blob.hash := by
    rw [deadBlobs, freed.blobs, List.filter_comm, deadBlobs]
  have apart : ((deadBlobs before.db).filter fun blob =>
      hashes.contains blob.hash).Pairwise fun first second =>
        first.hash ≠ second.hash :=
    (before.db.blobs.distinct.filter _).filter _
  have taken : (((deadBlobs before.db).filter fun blob =>
      hashes.contains blob.hash).map Blob.hash).Perm hashes := by
    refine (List.perm_ext_iff_of_nodup
      (List.Pairwise.map _ (fun _ _ different => different) apart) once).mpr ?_
    intro hash
    simp only [List.mem_map, List.mem_filter, List.contains_iff_mem]
    constructor
    · rintro ⟨blob, ⟨-, waiting⟩, rfl⟩
      exact waiting
    · intro waiting
      obtain ⟨zero, blob, present, rfl⟩ := dead hash waiting
      rw [refcount_of_mem present] at zero
      exact ⟨blob, ⟨List.mem_filter.mpr ⟨present, decide_eq_true zero⟩,
        waiting⟩, rfl⟩
  have parts := (List.filter_append_perm
    (fun blob => hashes.contains blob.hash) (deadBlobs before.db)).length_eq
  have counts := taken.length_eq
  rw [List.length_map] at counts
  rw [List.length_append, counts] at parts
  rw [left]
  exact parts

/-- A cleanup whose budget exceeds the number of dead rows returns. -/
theorem run_cleanupBlobs
    {budget : Nat} {world : World} (rep : GcReport)
    (unreferenced : DeadUnreferenced world.db)
    (enough : (deadBlobs world.db).length < budget) :
    ∃ after, (cleanupBlobs false budget rep).run (exec env config)
      world = (.done (rep.free (deadBlobs world.db).length), after) ∧
        Cleaned world after := by
  induction budget generalizing world rep with
  | zero => omega
  | succ budget inductionHypothesis =>
      unfold cleanupBlobs
      rw [Program.run_bind_done (run_transact rfl)]
      cases listed : Blobs.zeroRefcount env.scan world.db 1000 with
      | nil =>
          have live := Blobs.live_of_zeroRefcount_nil env.scan_perm
            (by decide) listed
          have none : deadBlobs world.db = [] := by
            rw [deadBlobs, List.filter_eq_nil_iff]
            intro blob present
            simp [live blob present]
          rw [none]
          refine ⟨world, rfl, rfl, rfl, ?_, .refl _, fun path => ?_⟩
          · rw [List.filter_eq_self.mpr]
            intro blob present
            simp [live blob present]
          · rw [if_neg]
            rintro ⟨blob, present, zero, -⟩
            exact live blob present zero
      | cons hash rest =>
          have dead : ∀ other ∈ hash :: rest,
              world.db.refcount other = 0 ∧ world.db.HasBlob other := by
            intro other waiting
            rw [← listed] at waiting
            exact (Blobs.mem_zeroRefcount
              (fun blobs blob => (env.mem_scan blobs blob).mp) waiting).symm
          have free : ∀ other ∈ hash :: rest,
              ¬world.db.References other := by
            intro other waiting
            obtain ⟨zero, blob, present, rfl⟩ := dead other waiting
            rw [refcount_of_mem present] at zero
            exact unreferenced blob
              (List.mem_filter.mpr ⟨present, decide_eq_true zero⟩)
          have once : (hash :: rest).Nodup := by
            rw [← listed]
            exact Blobs.zeroRefcount_nodup env.scan_perm
          obtain ⟨middle, ran, freed⟩ := run_cleanupBatch rep free
          have smaller : DeadUnreferenced middle.db := by
            intro blob deadAfter
            rw [deadBlobs, freed.blobs, List.filter_comm] at deadAfter
            rw [References, freed.entries]
            exact unreferenced blob (List.mem_of_mem_filter deadAfter)
          have counts := freed.dead_length once dead
          have fewer : (deadBlobs middle.db).length < budget := by
            rw [List.length_cons] at counts
            omega
          obtain ⟨after, ranRest, cleaned⟩ := inductionHypothesis
            (rep.free (hash :: rest).length) smaller fewer
          rw [GcReport.free_free, counts] at ranRest
          refine ⟨after, ?_, freed.cleaned cleaned dead⟩
          simp only [List.isEmpty_cons, Bool.false_eq_true, if_false]
          rw [Program.run_bind_done ran]
          exact ranRest

/-! ## Whole sweeps -/

/-- The database that the eviction phases leave. -/
def evictedDb (env : Env) (config : GcConfig) (now : Int) (db : Db) : Db :=
  globalDb config (quotaDb (ttlDb env config now db))

theorem evictedDb_evictedFrom
    (env : Env) (config : GcConfig) (now : Int) (db : Db) :
    EvictedFrom db (evictedDb env config now db) :=
  (ttlDb_evictedFrom env config now db).quotaDb.evicting
    (globalVictims_valid _ _)

/-- What the eviction phases report. -/
def evictedReport
    (env : Env) (config : GcConfig) (now : Int) (db : Db) : GcReport :=
  let first := ttlVictims env config now .sstate db
  let aged := ttlDb env config now db
  counted
    (counted
      (counted (counted .default first)
        (ttlVictims env config now .downloads (db.evicting first)))
      (loopVictims (Projects.list aged) aged))
    (globalVictims config (quotaDb aged))

/-- What a sweep reports that leaves so much in use. -/
def sweepReport
    (env : Env) (config : GcConfig) (now : Int) (db : Db) (usage : Int) :
    GcReport :=
  { (evictedReport env config now db).free
      (deadBlobs (evictedDb env config now db)).length with
    usageGlobalBytes := usage }

/-- A sweep that runs alone returns, unless an entry points to a dead row; it
evicts what its phases select, removes the dead rows with their files and
reports the sizes that remain. -/
theorem run_sweep_counted
    {budget : Nat} {world : World}
    (unreferenced : DeadUnreferenced
      (evictedDb env config.gc world.now world.db))
    (enough : (deadBlobs
      (evictedDb env config.gc world.now world.db)).length < budget) :
    ∃ after, (sweep config.gc budget false).run (exec env config)
      world = (.done (sweepReport env config.gc world.now world.db
        (Blobs.totalSize after.db)), after) ∧
      Cleaned
        { world with db := evictedDb env config.gc world.now world.db }
        after := by
  have ranTtl := @run_ttlPhase_counted env config .default world
  have ranQuota (rep : GcReport) := @run_quotaPhase_counted env config rep
    { world with db := ttlDb env config.gc world.now world.db }
  have ranGlobal (rep : GcReport) := @run_globalPhase_counted env config rep
    { world with
      db := quotaDb (ttlDb env config.gc world.now world.db) }
  obtain ⟨after, ranCleanup, cleaned⟩ :=
    @run_cleanupBlobs env config budget
      { world with db := evictedDb env config.gc world.now world.db }
      (evictedReport env config.gc world.now world.db) unreferenced enough
  refine ⟨after, ?_, cleaned⟩
  refine (Program.run_bind_done ranTtl _).trans ?_
  refine (Program.run_bind_done (ranQuota _) _).trans ?_
  refine (Program.run_bind_done (ranGlobal _) _).trans ?_
  refine (Program.run_bind_done ranCleanup _).trans ?_
  exact Program.run_bind_done (run_transact rfl) _

/-- The dead rows that the evictions leave, where every reference is counted. -/
theorem evictedDb_dead
    {now : Int} {db : Db} (config : GcConfig) (covered : db.Covered) :
    DeadUnreferenced (evictedDb env config now db) ∧
      (deadBlobs (evictedDb env config now db)).length ≤
        db.blobs.rows.length := by
  obtain ⟨victims, valid, left⟩ := evictedDb_evictedFrom env config now db
  have evicted := evicting_spec valid
  rw [← left] at evicted
  refine ⟨deadUnreferenced_of_covered (evicted.covered covered), ?_⟩
  refine (List.length_filter_le _ _).trans_eq ?_
  rw [evicted.blobs, List.length_map]

/-- A sweep with the mutex around it. -/
theorem run_run_counted
    {budget : Nat} {world : World}
    (unlocked : world.gcRunning = false)
    (unreferenced : DeadUnreferenced
      (evictedDb env config.gc world.now world.db))
    (enough : (deadBlobs
      (evictedDb env config.gc world.now world.db)).length < budget) :
    ∃ after, (GcSvc.run config.gc budget false).run (exec env config)
      world = (.done (sweepReport env config.gc world.now world.db
        (Blobs.totalSize after.db)), after) ∧
      Cleaned
        { world with db := evictedDb env config.gc world.now world.db }
        after := by
  have locked : exec env config .gcLock world =
      some (.ok (), { world with gcRunning := true }) := by
    simp [exec, unlocked]
  obtain ⟨after, ran, cleaned⟩ := @run_sweep_counted env config budget
    { world with gcRunning := true } unreferenced enough
  refine ⟨{ after with gcRunning := false }, ?_, ?_⟩
  · unfold GcSvc.run
    rw [Program.run_bind_done (Program.run_perform locked),
      Program.run_ensuring, ran]
    rfl
  · refine
      { rest := ?_
        entries := cleaned.entries
        blobs := cleaned.blobs
        tenants := cleaned.tenants
        files := cleaned.files }
    rw [cleaned.rest]
    simp only [unlocked]

theorem run_run
    {budget : Nat} {world : World}
    (unlocked : world.gcRunning = false)
    (covered : world.db.Covered)
    (enough : world.db.blobs.rows.length < budget) :
    ∃ rep after, (GcSvc.run config.gc budget false).run (exec env config)
      world = (.done rep, after) ∧
      Cleaned
        { world with db := evictedDb env config.gc world.now world.db }
        after ∧
      rep.usageGlobalBytes = Blobs.totalSize after.db := by
  obtain ⟨unreferenced, fewer⟩ :=
    @evictedDb_dead env world.now world.db config.gc covered
  obtain ⟨after, ran, cleaned⟩ := @run_run_counted env config budget world
    unlocked unreferenced (fewer.trans_lt enough)
  exact ⟨_, after, ran, cleaned, rfl⟩

end GcSvc

end Marmotte
