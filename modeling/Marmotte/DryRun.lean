import Marmotte.Concurrency.Requests
import Marmotte.ProjectQuota
import Marmotte.Sequential.Scan
import Mathlib.Algebra.Order.Group.Nat

/-!
# Dry runs

A dry run and a real run from the same state.  Every phase of a dry run sees the
state before the sweep, so its report is that of the real run as long as no
phase depends on what the phases before it have evicted.
-/

namespace Marmotte

open Effects Tables

namespace DryRun

open Db GcSvc ProjectQuota

variable {env : Env} {config : Config}

/-! ## Forecasts -/

/-- A dry run leaves everything as it is and counts what the real run counts. -/
def Predicts (env : Env) (config : Config) (world : World) : Prop :=
  ∃ rounds, ∀ budget, rounds ≤ budget → ∃ forecast actual after,
    (GcSvc.run config.gc budget true).run (exec env config) world =
      (.done forecast, world) ∧
    (GcSvc.run config.gc budget false).run (exec env config) world =
      (.done actual, after) ∧
    forecast.evictedEntries = actual.evictedEntries ∧
    forecast.evictedBytes = actual.evictedBytes ∧
    forecast.freedBlobs = actual.freedBlobs

/-- The same of an orphan scan. -/
def ScanPredicts (env : Env) (config : Config) (world : World) : Prop :=
  ∃ rep after,
    (orphanScan env true).run (exec env config) world = (.done rep, world) ∧
    (orphanScan env false).run (exec env config) world = (.done rep, after)

/-- The entries that have exceeded their time to live. -/
def expired
    (env : Env) (config : GcConfig) (now : Int) (db : Db) : List Entry :=
  ttlVictims env config now .sstate db ++
    ttlVictims env config now .downloads db

/-- The entries that exceed the quotas of their projects. -/
def overQuota (db : Db) : List Entry :=
  (Projects.list db).flatMap (quotaVictims db)

/-- All entries that some phase selects. -/
def selected
    (env : Env) (config : GcConfig) (now : Int) (db : Db) : List Entry :=
  expired env config now db ++ overQuota db ++ globalVictims config db

/-- The usage of a project without its expired entries. -/
def freshUsage
    (env : Env) (config : GcConfig) (now : Int) (db : Db)
    (project : Project) : Int :=
  Entries.projectUsage db project.id -
    sizes ((expired env config now db).filter fun entry =>
      decide (entry.projectId = project.id))

/-- The entries that exceed the quota of a project are not expired, and they are
the ones that exceed it also without the expired ones. -/
structure ProjectForeseen
    (env : Env) (config : Config) (world : World) (project : Project) :
    Prop where
  fresh : ∀ entry ∈ quotaVictims world.db project,
    entry ∉ expired env config.gc world.now world.db
  exceeding : ∀ quota ∈ project.quotaBytes,
    ∀ fewer < (quotaVictims world.db project).length,
      quota < freshUsage env config.gc world.now world.db project -
        sizes ((quotaVictims world.db project).take fewer)
  settled : ∀ quota ∈ project.quotaBytes,
    freshUsage env config.gc world.now world.db project -
        sizes (quotaVictims world.db project) ≤ quota ∨
      ∀ entry ∈ GcQueries.projectLru world.db project.id,
        entry ∉ expired env config.gc world.now world.db →
          entry ∈ quotaVictims world.db project

/-- No eviction phase depends on the phases before it: the entries that exceed
the global quota are selected by no other phase. -/
structure Independent (env : Env) (config : Config) (world : World) :
    Prop where
  project : ∀ project ∈ world.db.projects.rows,
    ProjectForeseen env config world project
  apart : ∀ entry ∈ globalVictims config.gc world.db,
    entry ∉ expired env config.gc world.now world.db ∧
      entry ∉ overQuota world.db

/-- Neither does the cleanup: no blob loses its last reference, and one batch
holds the dead rows. -/
structure Foreseen (env : Env) (config : Config) (world : World) : Prop
    extends Independent env config world where
  unreferenced : DeadUnreferenced world.db
  spared : ∀ blob ∈ world.db.blobs.rows, blob.refcount ≠ 0 →
    blob.refcount ≠
      pointers (selected env config.gc world.now world.db) blob.hash
  fewDead : (deadBlobs world.db).length ≤ 1000

/-! ## The dry run -/

theorem run_dryTtlLoop
    (victims : List Entry) (rep : GcReport) (world : World) :
    (ttlLoop true (victims.map Entry.candidate) rep).run (exec env config)
      world = (.done (counted rep victims), world) := by
  induction victims generalizing rep with
  | nil => rfl
  | cons entry rest inductionHypothesis => exact inductionHypothesis _

theorem run_dryLruLoop
    (quota usage : Int) (entries : List Entry) (rep : GcReport)
    (world : World) :
    (lruLoop true quota (entries.map Entry.candidate) usage rep).run
      (exec env config) world =
        (.done (counted rep (lruVictims quota entries usage)), world) := by
  induction entries generalizing usage rep with
  | nil => rfl
  | cons entry rest inductionHypothesis =>
      simp only [List.map_cons, lruLoop, lruVictims]
      split
      · rfl
      · exact inductionHypothesis _ _

theorem run_dryTtlPhase (rep : GcReport) (world : World) :
    (ttlPhase config.gc true rep).run (exec env config) world =
      (.done (counted rep (expired env config.gc world.now world.db)),
        world) := by
  have kind (kind : Kind) (rep : GcReport) :
      (ttlKind config.gc true world.now kind rep).run (exec env config)
        world =
          (.done (counted rep
            (ttlVictims env config.gc world.now kind world.db)), world) := by
    unfold ttlKind
    rw [Program.run_bind_done (run_transact rfl)]
    exact run_dryTtlLoop _ rep world
  unfold ttlPhase
  rw [Program.run_bind_done (Program.run_perform rfl),
    Program.run_bind_done (kind .sstate rep), expired, counted_append]
  exact kind .downloads _

theorem run_dryQuotaProject
    (project : Project) (rep : GcReport) (world : World) :
    (quotaProject true project rep).run (exec env config) world =
      (.done (counted rep (quotaVictims world.db project)), world) := by
  unfold quotaProject quotaVictims
  cases limited : project.quotaBytes with
  | none => rfl
  | some quota =>
      simp only
      rw [Program.run_bind_done (run_transact rfl)]
      split
      · rename_i fits
        rw [lruVictims_of_le _ fits]
        rfl
      · rw [Program.run_bind_done (run_transact rfl)]
        exact run_dryLruLoop quota _ _ rep _

theorem run_dryQuotaPhase (rep : GcReport) (world : World) :
    (quotaPhase true rep).run (exec env config) world =
      (.done (counted rep (overQuota world.db)), world) := by
  have loop (projects : List Project) (rep : GcReport) :
      (quotaLoop true projects rep).run (exec env config) world =
        (.done (counted rep (projects.flatMap (quotaVictims world.db))),
          world) := by
    induction projects generalizing rep with
    | nil => rfl
    | cons project rest inductionHypothesis =>
        unfold quotaLoop
        rw [Program.run_bind_done (run_dryQuotaProject project rep world),
          List.flatMap_cons, counted_append]
        exact inductionHypothesis _
  unfold quotaPhase
  rw [Program.run_bind_done (run_transact rfl)]
  exact loop (Projects.list world.db) rep

theorem run_dryGlobalPhase (rep : GcReport) (world : World) :
    (globalPhase config.gc true rep).run (exec env config) world =
      (.done (counted rep (globalVictims config.gc world.db)), world) := by
  unfold globalPhase globalVictims
  rw [Program.run_bind_done (run_transact rfl)]
  simp only
  split
  · rename_i fits
    rw [lruVictims_of_le _ fits]
    rfl
  · rw [Program.run_bind_done (run_transact rfl)]
    exact run_dryLruLoop _ _ _ rep _

theorem run_dryCleanupBatch
    (batch : List String) (rep : GcReport) (world : World) :
    (cleanupBatch true batch rep).run (exec env config) world =
      (.done (rep.free batch.length), world) := by
  induction batch generalizing rep with
  | nil => rfl
  | cons hash rest inductionHypothesis =>
      have counts := inductionHypothesis (rep.free 1)
      rw [GcReport.free_free, Nat.add_comm] at counts
      exact counts

/-- A dry cleanup counts the first batch. -/
theorem run_dryCleanupBlobs
    {budget : Nat} (rep : GcReport) (world : World) (positive : 0 < budget) :
    (cleanupBlobs true budget rep).run (exec env config) world =
      (.done (rep.free (min 1000 (deadBlobs world.db).length)), world) := by
  obtain ⟨budget, rfl⟩ := Nat.exists_eq_succ_of_ne_zero positive.ne'
  have length : (Blobs.zeroRefcount env.scan world.db 1000).length =
      min 1000 (deadBlobs world.db).length := by
    rw [Blobs.zeroRefcount, List.length_map, List.length_take, deadBlobs,
      ((env.scan_perm world.db.blobs.rows).filter _).length_eq]
  unfold cleanupBlobs
  rw [Program.run_bind_done (run_transact rfl), ← length]
  cases listed : Blobs.zeroRefcount env.scan world.db 1000 with
  | nil => rfl
  | cons hash rest =>
      simp only [List.isEmpty_cons, Bool.false_eq_true, if_false]
      rw [Program.run_bind_done (run_dryCleanupBatch _ rep world)]
      rfl

/-- Unlocking restores a world that was not locked. -/
theorem unlocked_again
    {world : World} (unlocked : world.gcRunning = false) :
    { world with gcRunning := false } = world := by
  rw [← unlocked]

/-- A dry run returns and leaves everything as it is. -/
theorem run_dryRun
    {budget : Nat} {world : World} (unlocked : world.gcRunning = false)
    (positive : 0 < budget) :
    (GcSvc.run config.gc budget true).run (exec env config) world =
      (.done { (counted .default
        (selected env config.gc world.now world.db)).free
          (min 1000 (deadBlobs world.db).length) with
        usageGlobalBytes := Blobs.totalSize world.db }, world) := by
  have locked : exec env config .gcLock world =
      some (.ok (), { world with gcRunning := true }) := by
    simp [exec, unlocked]
  have swept : (sweep config.gc budget true).run (exec env config)
      { world with gcRunning := true } =
        (.done { (counted .default
          (selected env config.gc world.now world.db)).free
            (min 1000 (deadBlobs world.db).length) with
          usageGlobalBytes := Blobs.totalSize world.db },
          { world with gcRunning := true }) := by
    rw [selected, counted_append, counted_append]
    refine (Program.run_bind_done (run_dryTtlPhase _ _) _).trans ?_
    refine (Program.run_bind_done (run_dryQuotaPhase _ _) _).trans ?_
    refine (Program.run_bind_done (run_dryGlobalPhase _ _) _).trans ?_
    refine (Program.run_bind_done (run_dryCleanupBlobs _ _ positive) _).trans
      ?_
    exact Program.run_bind_done (run_transact rfl) _
  unfold GcSvc.run
  rw [Program.run_bind_done (Program.run_perform locked),
    Program.run_ensuring, swept]
  exact congrArg (Prod.mk _) (unlocked_again unlocked)

/-! ## The real run -/

instance : Std.Total Entry.LruLe where
  total first second := by
    simp only [Entry.LruLe]
    omega

instance : IsTrans Entry Entry.LruLe where
  trans first second third := by
    simp only [Entry.LruLe]
    omega

/-- Leaving entries out before sorting is leaving them out after. -/
theorem lru_filter
    {entries : List Entry} (keeps : Entry → Bool)
    (byId : ∀ first ∈ entries, ∀ second ∈ entries,
      first.id = second.id → first = second) :
    (entries.filter keeps).insertionSort Entry.LruLe =
      (entries.insertionSort Entry.LruLe).filter keeps := by
  refine List.Perm.eq_of_pairwise ?_ (List.pairwise_insertionSort _ _)
    ((List.pairwise_insertionSort _ _).filter _) ?_
  · intro first second firstKept secondKept le ge
    rw [List.mem_insertionSort, List.mem_filter] at firstKept
    rw [List.mem_filter, List.mem_insertionSort] at secondKept
    refine byId first firstKept.1 second secondKept.1 ?_
    simp only [Entry.LruLe] at le ge
    omega
  · exact (List.perm_insertionSort _ _).trans
      ((List.perm_insertionSort _ _).symm.filter _)

section Evicted

variable {db : Db} {gone : List Entry}

theorem byId
    {entries : List Entry} (stored : entries ⊆ db.entries.rows) :
    ∀ first ∈ entries, ∀ second ∈ entries,
      first.id = second.id → first = second :=
  fun _ firstPresent _ secondPresent same =>
    db.entries.eq_of_id (stored firstPresent) (stored secondPresent) same

theorem projectLru_evicting (valid : Victims db gone) (projectId : Int) :
    GcQueries.projectLru (db.evicting gone) projectId =
      (GcQueries.projectLru db projectId).filter fun entry =>
        !gone.contains entry := by
  rw [GcQueries.projectLru, (evicting_spec valid).rows, List.filter_comm,
    lru_filter _ (byId (List.filter_subset_self _))]
  rfl

theorem globalLru_evicting (valid : Victims db gone) :
    GcQueries.globalLru (db.evicting gone) =
      (GcQueries.globalLru db).filter fun entry => !gone.contains entry := by
  rw [GcQueries.globalLru, (evicting_spec valid).rows, List.filter_comm,
    lru_filter _ (byId (List.filter_subset_self _))]
  rfl

theorem projectUsage_evicting (valid : Victims db gone) (projectId : Int) :
    Entries.projectUsage (db.evicting gone) projectId =
      Entries.projectUsage db projectId -
        sizes (gone.filter fun entry =>
          decide (entry.projectId = projectId)) := by
  rw [projectUsage_eq, entriesOf_evicting valid, projectUsage_eq]
  have own : (db.entriesOf projectId).filter (fun entry =>
      !gone.contains entry) =
        (db.entriesOf projectId).filter fun entry =>
          !(gone.filter fun entry =>
            decide (entry.projectId = projectId)).contains entry := by
    apply List.filter_congr
    intro entry present
    have owner := of_decide_eq_true (List.mem_filter.mp present).2
    simp [List.mem_filter, owner]
  rw [own]
  refine sizes_filter (db.entries.nodup.filter _) (valid.distinct.filter _) ?_
  intro entry waiting
  obtain ⟨present, owner⟩ := List.mem_filter.mp waiting
  exact List.mem_filter.mpr ⟨valid.stored entry present, owner⟩

theorem totalSize_evicting (valid : Victims db gone) :
    Blobs.totalSize (db.evicting gone) = Blobs.totalSize db :=
  (evicting_spec valid).totalSize

end Evicted

/-! ### What the loop takes -/

theorem lruVictims_of_lt
    {quota usage : Int} (entry : Entry) (rest : List Entry)
    (exceeds : quota < usage) :
    lruVictims quota (entry :: rest) usage =
      entry :: lruVictims quota rest (usage - entry.sizeBytes) := by
  rw [lruVictims, if_neg (Int.not_le.mpr exceeds)]

/-- The loop takes the same entries if those that it takes stay. -/
theorem lruVictims_filter
    {quota usage : Int} {entries : List Entry} (keeps : Entry → Bool)
    (kept : ∀ entry ∈ lruVictims quota entries usage, keeps entry = true) :
    lruVictims quota (entries.filter keeps) usage =
      lruVictims quota entries usage := by
  induction entries generalizing usage with
  | nil => rfl
  | cons entry rest inductionHypothesis =>
      rcases le_or_gt usage quota with fits | exceeds
      · rw [lruVictims_of_le _ fits, lruVictims_of_le _ fits]
      · rw [lruVictims_of_lt _ _ exceeds] at kept ⊢
        have first := kept entry List.mem_cons_self
        rw [List.filter_cons_of_pos first, lruVictims_of_lt _ _ exceeds,
          inductionHypothesis]
        exact fun later waiting => kept later (List.mem_cons_of_mem _ waiting)

/-- The loop takes the same entries from another usage that exceeds the quota
until the last of them is taken, and no longer. -/
theorem lruVictims_usage
    {quota usage other : Int} {entries : List Entry}
    (exceeding : ∀ fewer < (lruVictims quota entries usage).length,
      quota < other - sizes ((lruVictims quota entries usage).take fewer))
    (settled : other - sizes (lruVictims quota entries usage) ≤ quota ∨
      lruVictims quota entries usage = entries) :
    lruVictims quota entries other = lruVictims quota entries usage := by
  induction entries generalizing usage other with
  | nil => rfl
  | cons entry rest inductionHypothesis =>
      rcases le_or_gt usage quota with fits | exceeds
      · rw [lruVictims_of_le _ fits] at settled ⊢
        rcases settled with stops | empty
        · rw [sizes_nil, Int.sub_zero] at stops
          exact lruVictims_of_le _ stops
        · cases empty
      · rw [lruVictims_of_lt _ _ exceeds] at exceeding settled ⊢
        have first := exceeding 0 (Nat.zero_lt_succ _)
        rw [List.take_zero, sizes_nil, Int.sub_zero] at first
        rw [lruVictims_of_lt _ _ first, inductionHypothesis]
        · intro fewer small
          have later := exceeding (fewer + 1) (Nat.succ_lt_succ small)
          rw [List.take_succ_cons, sizes_cons] at later
          omega
        · rcases settled with stops | all
          · left
            rw [sizes_cons] at stops
            omega
          · exact .inr (List.cons.inj all).2

/-! ### Phases that do not depend on each other -/

section Foreseen

variable {world : World}

theorem kind_of_ttlVictims
    {now : Int} {db : Db} {kind : Kind} {entry : Entry}
    (selected : entry ∈ ttlVictims env config.gc now kind db) :
    entry.kind = kind := by
  rw [ttlVictims, Env.mem_scan, GcQueries.expired, List.mem_filter,
    List.any_eq_true] at selected
  obtain ⟨-, project, -, selects⟩ := selected
  rw [Bool.and_eq_true] at selects
  exact (of_decide_eq_true selects.2).1

/-- The entries of one kind are no entries of the other. -/
theorem downloads_evicting
    (env : Env) (config : Config) (now : Int) (db : Db) :
    ttlVictims env config.gc now .downloads
        (db.evicting (ttlVictims env config.gc now .sstate db)) =
      ttlVictims env config.gc now .downloads db := by
  have evicted := evicting_spec (ttlVictims_valid env config.gc now .sstate db)
  refine congrArg env.scan ?_
  rw [GcQueries.expired, evicted.rows, evicted.projects, List.filter_filter,
    GcQueries.expired]
  apply List.filter_congr
  intro entry _
  by_cases other : entry ∈ ttlVictims env config.gc now .sstate db
  · simp [GcQueries.ttlSelects, kind_of_ttlVictims other]
  · simp [other]

theorem ttlDb_eq (env : Env) (config : Config) (now : Int) (db : Db) :
    ttlDb env config.gc now db =
      db.evicting (expired env config.gc now db) := by
  rw [ttlDb, downloads_evicting, ← evicting_append, expired]

theorem expired_valid (env : Env) (config : Config) (now : Int) (db : Db) :
    Victims db (expired env config.gc now db) := by
  refine (ttlVictims_valid env config.gc now .sstate db).append ?_
  rw [← downloads_evicting]
  exact ttlVictims_valid _ _ _ _ _

theorem ProjectForeseen.quotaVictims_ttlDb
    {project : Project} (foreseen : ProjectForeseen env config world project) :
    quotaVictims (ttlDb env config.gc world.now world.db) project =
      quotaVictims world.db project := by
  have valid := expired_valid env config world.now world.db
  cases limited : project.quotaBytes with
  | none => simp only [quotaVictims, limited]
  | some quota =>
      have fresh := foreseen.fresh
      have exceeding := foreseen.exceeding quota limited
      have settled := foreseen.settled quota limited
      simp only [quotaVictims, limited] at fresh exceeding settled ⊢
      rw [ttlDb_eq, projectLru_evicting valid, projectUsage_evicting valid]
      have kept : ∀ entry ∈ lruVictims quota
          (GcQueries.projectLru world.db project.id)
          (Entries.projectUsage world.db project.id),
          (!(expired env config.gc world.now world.db).contains entry) =
            true := by
        intro entry taken
        simp [fresh entry taken]
      have same := lruVictims_filter _ kept
      rw [← same] at exceeding settled ⊢
      refine lruVictims_usage exceeding (settled.imp_right fun all => ?_)
      have once := ((projectLru_valid world.db project.id).distinct.filter
        fun entry => !(expired env config.gc world.now world.db).contains entry)
      refine (lruVictims_initial _ _ _).eq_of_length_le ?_
      refine (once.subperm ?_).length_le
      intro entry left
      obtain ⟨present, unexpired⟩ := List.mem_filter.mp left
      exact all entry present (by simpa using unexpired)

theorem loopVictims_eq
    {projects : List Project} {db : Db}
    (distinct : projects.Pairwise fun first second => first.id ≠ second.id) :
    loopVictims projects db = projects.flatMap (quotaVictims db) := by
  induction projects generalizing db with
  | nil => rfl
  | cons project rest inductionHypothesis =>
      rw [List.pairwise_cons] at distinct
      rw [loopVictims, List.flatMap_cons, inductionHypothesis distinct.2]
      congr 1
      apply List.flatMap_congr
      intro later waiting
      exact quotaVictims_congr (entriesOf_other (distinct.1 later waiting).symm)

theorem Independent.loopVictims_ttlDb (independent : Independent env config world) :
    loopVictims
        (Projects.list (ttlDb env config.gc world.now world.db))
        (ttlDb env config.gc world.now world.db) = overQuota world.db := by
  have projects : (ttlDb env config.gc world.now world.db).projects =
      world.db.projects := by
    rw [ttlDb_eq]
    exact (evicting_spec (expired_valid env config _ _)).projects
  rw [loopVictims_eq (list_distinct _), overQuota, Projects.list, projects]
  apply List.flatMap_congr
  intro project listed
  exact (independent.project project
    ((List.mem_insertionSort _).mp listed)).quotaVictims_ttlDb

/-- The database before the global phase. -/
theorem Independent.quotaDb_ttlDb (independent : Independent env config world) :
    quotaDb (ttlDb env config.gc world.now world.db) =
        world.db.evicting (expired env config.gc world.now world.db ++
          overQuota world.db) ∧
      Victims world.db (expired env config.gc world.now world.db ++
        overQuota world.db) := by
  rw [quotaDb_eq, independent.loopVictims_ttlDb, evicting_append, ttlDb_eq]
  refine ⟨rfl, (expired_valid env config _ _).append ?_⟩
  rw [← independent.loopVictims_ttlDb, ttlDb_eq]
  exact loopVictims_valid _ _

theorem Independent.globalVictims_quotaDb (independent : Independent env config world) :
    globalVictims config.gc
        (quotaDb (ttlDb env config.gc world.now world.db)) =
      globalVictims config.gc world.db := by
  obtain ⟨left, valid⟩ := independent.quotaDb_ttlDb
  rw [left, globalVictims, globalLru_evicting valid, totalSize_evicting valid]
  apply lruVictims_filter
  intro entry taken
  obtain ⟨unexpired, within⟩ := independent.apart entry taken
  simp [unexpired, within]

/-- The eviction phases take what they select in the state before the sweep. -/
theorem Independent.evictedDb_eq (independent : Independent env config world) :
    evictedDb env config.gc world.now world.db =
        world.db.evicting (selected env config.gc world.now world.db) ∧
      Victims world.db (selected env config.gc world.now world.db) := by
  obtain ⟨left, valid⟩ := independent.quotaDb_ttlDb
  have same := independent.globalVictims_quotaDb
  rw [evictedDb, globalDb, same, left, selected]
  refine ⟨(evicting_append _ _ _).symm, valid.append ?_⟩
  rw [← same, left]
  exact globalVictims_valid _ _

theorem Independent.evictedReport_eq (independent : Independent env config world) :
    evictedReport env config.gc world.now world.db =
      counted .default (selected env config.gc world.now world.db) := by
  simp only [evictedReport]
  rw [independent.loopVictims_ttlDb, independent.globalVictims_quotaDb,
    downloads_evicting, selected, expired, counted_append, counted_append,
    counted_append]

/-- The evictions leave the same rows dead. -/
theorem Foreseen.dead_iff
    (foreseen : Foreseen env config world) {blob : Blob}
    (present : blob ∈ world.db.blobs.rows) :
    blob.refcount -
        pointers (selected env config.gc world.now world.db) blob.hash = 0 ↔
      blob.refcount = 0 := by
  constructor
  · intro dead
    by_contra live
    exact foreseen.spared blob present live (Int.sub_eq_zero.mp dead)
  · intro dead
    have unreferenced := foreseen.unreferenced blob
      (List.mem_filter.mpr ⟨present, decide_eq_true dead⟩)
    have none : pointers (selected env config.gc world.now world.db)
        blob.hash = 0 := by
      rw [pointers, List.countP_eq_zero]
      intro entry taken
      have stored := foreseen.toIndependent.evictedDb_eq.2.stored entry taken
      simpa using fun same => unreferenced ⟨entry, stored, same⟩
    rw [dead, none]
    rfl

theorem Foreseen.deadBlobs_length (foreseen : Foreseen env config world) :
    (deadBlobs (evictedDb env config.gc world.now world.db)).length =
      (deadBlobs world.db).length := by
  obtain ⟨left, valid⟩ := foreseen.toIndependent.evictedDb_eq
  rw [left, deadBlobs, deadBlobs, (evicting_spec valid).blobs,
    List.filter_map, List.length_map]
  congr 1
  apply List.filter_congr
  intro blob present
  simp only [Function.comp_apply, foreseen.dead_iff present]

theorem Foreseen.deadUnreferenced (foreseen : Foreseen env config world) :
    DeadUnreferenced (evictedDb env config.gc world.now world.db) := by
  obtain ⟨left, valid⟩ := foreseen.toIndependent.evictedDb_eq
  have evicted := evicting_spec valid
  rw [← left] at evicted
  intro after dead references
  obtain ⟨stored, zero⟩ := List.mem_filter.mp dead
  rw [evicted.blobs, List.mem_map] at stored
  obtain ⟨blob, present, rfl⟩ := stored
  have deadBefore := (foreseen.dead_iff present).mp (of_decide_eq_true zero)
  exact foreseen.unreferenced blob
    (List.mem_filter.mpr ⟨present, decide_eq_true deadBefore⟩)
    (evicted.references references)

theorem Foreseen.predicts
    (foreseen : Foreseen env config world)
    (unlocked : world.gcRunning = false) : Predicts env config world := by
  refine ⟨(deadBlobs world.db).length + 1, fun budget enough => ?_⟩
  have fewer : (deadBlobs
      (evictedDb env config.gc world.now world.db)).length < budget := by
    rw [foreseen.deadBlobs_length]
    omega
  obtain ⟨after, ran, -⟩ := @run_run_counted env config budget world unlocked
    foreseen.deadUnreferenced fewer
  rw [sweepReport, foreseen.toIndependent.evictedReport_eq,
    foreseen.deadBlobs_length] at ran
  have dry := @run_dryRun env config budget world unlocked (by omega)
  rw [Nat.min_eq_right foreseen.fewDead] at dry
  exact ⟨_, _, after, dry, ran, rfl, rfl, rfl⟩

end Foreseen

/-! ## Within the global quota -/

section Within

variable {world : World}

/-- Some of the entries are not larger than all of them. -/
theorem sizes_le_of_subset
    {part all : List Entry} (once : part.Nodup) (contained : part ⊆ all)
    (sized : ∀ entry ∈ all, 0 ≤ entry.sizeBytes) : sizes part ≤ sizes all := by
  obtain ⟨listed, permuted, sublist⟩ := once.subperm contained
  have same : sizes listed = sizes part := (permuted.map _).sum_eq
  rw [← same]
  refine (sublist.map Entry.sizeBytes).sum_le_sum ?_
  intro size member
  obtain ⟨entry, present, rfl⟩ := List.mem_map.mp member
  exact sized entry present

theorem sizes_filter_add (entries : List Entry) (keeps : Entry → Bool) :
    sizes (entries.filter keeps) +
      sizes (entries.filter fun entry => !keeps entry) = sizes entries := by
  have parts := ((List.filter_append_perm keeps entries).map
    Entry.sizeBytes).sum_eq
  rwa [List.map_append, List.sum_append] at parts

/-- Without some of the entries and at least their sizes, the loop takes no more
than those it takes with them that stay. -/
theorem lruVictims_length_le
    {quota usage lost : Int} {entries : List Entry} (keeps : Entry → Bool)
    (covers : sizes ((lruVictims quota entries usage).filter fun entry =>
      !keeps entry) ≤ lost) :
    (lruVictims quota (entries.filter keeps) (usage - lost)).length ≤
      ((lruVictims quota entries usage).filter keeps).length := by
  have initial := (lruVictims_initial quota entries usage).filter keeps
  rcases lruVictims_stopped quota entries usage with all | stopped
  · rw [all]
    exact (lruVictims_initial _ _ _).length_le
  · by_contra longer
    have exceeds := (lt_lruVictims_length.mp (Nat.lt_of_not_le longer)).2 _
      le_rfl
    rw [← List.prefix_iff_eq_take.mp initial] at exceeds
    have parts := sizes_filter_add (lruVictims quota entries usage) keeps
    omega

/-- The entries of a project that are expired are no smaller than those of them
that exceed its quota. -/
theorem expired_covers
    (sized : ∀ entry ∈ world.db.entries.rows, 0 ≤ entry.sizeBytes)
    (project : Project) :
    sizes ((quotaVictims world.db project).filter fun entry =>
        !!(expired env config.gc world.now world.db).contains entry) ≤
      sizes ((expired env config.gc world.now world.db).filter fun entry =>
        decide (entry.projectId = project.id)) := by
  have valid := expired_valid env config world.now world.db
  refine sizes_le_of_subset
    ((quotaVictims_valid world.db project).distinct.filter _) ?_ ?_
  · intro entry member
    obtain ⟨taken, old⟩ := List.mem_filter.mp member
    rw [Bool.not_not, List.contains_iff_mem] at old
    exact List.mem_filter.mpr
      ⟨old, decide_eq_true (projectId_of_quotaVictims taken).1⟩
  · intro entry member
    exact sized entry (valid.stored entry (List.mem_of_mem_filter member))

theorem quotaVictims_ttlDb_eq
    (project : Project) {quota : Int}
    (limited : project.quotaBytes = some quota) :
    quotaVictims (ttlDb env config.gc world.now world.db) project =
      lruVictims quota
        ((GcQueries.projectLru world.db project.id).filter fun entry =>
          !(expired env config.gc world.now world.db).contains entry)
        (freshUsage env config.gc world.now world.db project) := by
  have valid := expired_valid env config world.now world.db
  simp only [quotaVictims, limited]
  rw [ttlDb_eq, projectLru_evicting valid, projectUsage_evicting valid]
  rfl

/-- The quota phase takes no more from a project than a dry run counts, and as
much only where it takes the same. -/
theorem quotaVictims_ttlDb_length
    (sized : ∀ entry ∈ world.db.entries.rows, 0 ≤ entry.sizeBytes)
    (project : Project) :
    (quotaVictims (ttlDb env config.gc world.now world.db) project).length ≤
      ((quotaVictims world.db project).filter fun entry =>
        !(expired env config.gc world.now world.db).contains entry).length := by
  cases limited : project.quotaBytes with
  | none => simp [quotaVictims, limited]
  | some quota =>
      have covers := @expired_covers env config world sized project
      rw [quotaVictims_ttlDb_eq project limited]
      simp only [quotaVictims, limited] at covers ⊢
      exact lruVictims_length_le _ covers

theorem projectForeseen_of_length
    (sized : ∀ entry ∈ world.db.entries.rows, 0 ≤ entry.sizeBytes)
    {project : Project}
    (same : (quotaVictims (ttlDb env config.gc world.now world.db)
      project).length = (quotaVictims world.db project).length) :
    ProjectForeseen env config world project := by
  have fewer := @quotaVictims_ttlDb_length env config world sized project
  have shorter := List.length_filter_le (fun entry =>
    !(expired env config.gc world.now world.db).contains entry)
      (quotaVictims world.db project)
  have fresh : ∀ entry ∈ quotaVictims world.db project,
      entry ∉ expired env config.gc world.now world.db := by
    intro entry taken
    have kept := List.length_filter_eq_length_iff.mp
      (le_antisymm shorter (same.symm.trans_le fewer)) entry taken
    simpa using kept
  have left : (quotaVictims world.db project).filter (fun entry =>
      !(expired env config.gc world.now world.db).contains entry) =
        quotaVictims world.db project :=
    List.filter_eq_self.mpr fun entry taken => by simp [fresh entry taken]
  have initial := (quotaVictims_initial world.db project).filter fun entry =>
    !(expired env config.gc world.now world.db).contains entry
  rw [left] at initial
  have taken : quotaVictims (ttlDb env config.gc world.now world.db) project =
      quotaVictims world.db project := by
    have initialLater := quotaVictims_initial
      (ttlDb env config.gc world.now world.db) project
    rw [ttlDb_eq, projectLru_evicting (expired_valid env config _ _),
      ← ttlDb_eq] at initialLater
    exact (List.prefix_of_prefix_length_le initialLater initial
      same.le).eq_of_length same
  refine ⟨fresh, fun quota limited count small => ?_, fun quota limited => ?_⟩
  · rw [← taken, quotaVictims_ttlDb_eq project limited] at small
    have exceeds := (lt_lruVictims_length.mp small).2 count le_rfl
    rw [List.prefix_iff_eq_take.mp initial, List.take_take,
      Nat.min_eq_left]
    · exact exceeds
    · rw [← taken, quotaVictims_ttlDb_eq project limited]
      exact small.le
  · rw [← taken, quotaVictims_ttlDb_eq project limited]
    rcases lruVictims_stopped quota
      ((GcQueries.projectLru world.db project.id).filter fun entry =>
        !(expired env config.gc world.now world.db).contains entry)
      (freshUsage env config.gc world.now world.db project) with all | stopped
    · right
      intro entry present unexpired
      rw [all]
      exact List.mem_filter.mpr ⟨present, by simp [unexpired]⟩
    · exact .inl stopped

/-- Equal sums of which no summand exceeds its counterpart agree throughout. -/
theorem eq_of_sum_eq
    {items : List β} {fewer more : β → Nat}
    (le : ∀ item ∈ items, fewer item ≤ more item)
    (same : (items.map fewer).sum = (items.map more).sum) :
    ∀ item ∈ items, fewer item = more item := by
  induction items with
  | nil => simp
  | cons first rest inductionHypothesis =>
      have headLe := le first List.mem_cons_self
      have tailLe : ∀ item ∈ rest, fewer item ≤ more item :=
        fun item later => le item (List.mem_cons_of_mem _ later)
      have sumLe := List.sum_le_sum tailLe
      simp only [List.map_cons, List.sum_cons] at same
      intro item member
      rcases List.mem_cons.mp member with rfl | later
      · omega
      · exact inductionHypothesis tailLe (by omega) item later

/-- Evictions only add to the dead rows where every reference is counted. -/
theorem dead_of_dead
    {victims : List Entry} (covered : world.db.Covered)
    (valid : Victims world.db victims) {blob : Blob}
    (present : blob ∈ world.db.blobs.rows) (dead : blob.refcount = 0) :
    blob.refcount - pointers victims blob.hash = 0 := by
  have unreferenced := deadUnreferenced_of_covered covered blob
    (List.mem_filter.mpr ⟨present, decide_eq_true dead⟩)
  have none : pointers victims blob.hash = 0 := by
    rw [pointers, List.countP_eq_zero]
    intro entry taken
    simpa using fun same =>
      unreferenced ⟨entry, valid.stored entry taken, same⟩
  rw [dead, none]
  rfl

/-- A stronger condition that selects as many items selects the same. -/
theorem selects_of_length
    {items : List β} {fewer more : β → Bool}
    (implies : ∀ item ∈ items, fewer item = true → more item = true)
    (same : (items.filter more).length ≤ (items.filter fewer).length) :
    ∀ item ∈ items, more item = true → fewer item = true := by
  have nested : items.filter fewer = (items.filter more).filter fewer := by
    rw [List.filter_filter]
    apply List.filter_congr
    intro item present
    by_cases few : fewer item = true
    · rw [implies item present few, few]
      rfl
    · simp [few]
  rw [nested] at same
  have all := List.length_filter_eq_length_iff.mp
    (le_antisymm (List.length_filter_le _ _) same)
  exact fun item present many => all item (List.mem_filter.mpr ⟨present, many⟩)

/-- Evictions that leave as many rows dead leave the same rows dead. -/
theorem spared_of_length
    {victims : List Entry} (covered : world.db.Covered)
    (valid : Victims world.db victims)
    (same : (deadBlobs (world.db.evicting victims)).length ≤
      (deadBlobs world.db).length) {blob : Blob}
    (present : blob ∈ world.db.blobs.rows) (live : blob.refcount ≠ 0) :
    blob.refcount ≠ pointers victims blob.hash := by
  intro lost
  rw [deadBlobs, (evicting_spec valid).blobs, List.filter_map,
    List.length_map, deadBlobs] at same
  have implies : ∀ blob ∈ world.db.blobs.rows,
      decide (blob.refcount = 0) = true →
        decide (blob.refcount - pointers victims blob.hash = 0) = true :=
    fun blob present dead =>
      decide_eq_true (dead_of_dead covered valid present (of_decide_eq_true dead))
  have selects := selects_of_length implies same blob present
    (decide_eq_true (Int.sub_eq_zero.mpr lost))
  exact live (of_decide_eq_true selects)

theorem dead_length_le
    {victims : List Entry} (covered : world.db.Covered)
    (valid : Victims world.db victims) :
    (deadBlobs world.db).length ≤
      (deadBlobs (world.db.evicting victims)).length := by
  rw [deadBlobs, deadBlobs, (evicting_spec valid).blobs, List.filter_map,
    List.length_map, ← List.countP_eq_length_filter,
    ← List.countP_eq_length_filter]
  refine List.countP_mono_left fun blob present dead => ?_
  exact decide_eq_true
    (dead_of_dead covered valid present (of_decide_eq_true dead))

theorem ttlDb_projects (env : Env) (config : Config) (now : Int) (db : Db) :
    (ttlDb env config.gc now db).projects = db.projects := by
  rw [ttlDb_eq]
  exact (evicting_spec (expired_valid env config now db)).projects

/-- Within the global quota the global phase takes nothing. -/
theorem globalVictims_within
    (within : Blobs.totalSize world.db ≤ asI64 config.gc.globalQuotaBytes) :
    globalVictims config.gc world.db = [] ∧
      globalVictims config.gc
        (quotaDb (ttlDb env config.gc world.now world.db)) = [] := by
  refine ⟨lruVictims_of_le _ within, lruVictims_of_le _ ?_⟩
  rw [quotaDb_eq, totalSize_evicting (loopVictims_valid _ _), ttlDb_eq,
    totalSize_evicting (expired_valid env config _ _)]
  exact within

theorem evictedReport_entries
    (within : Blobs.totalSize world.db ≤ asI64 config.gc.globalQuotaBytes) :
    (evictedReport env config.gc world.now world.db).evictedEntries =
      (expired env config.gc world.now world.db).length +
        ((Projects.list world.db).map fun project =>
          (quotaVictims (ttlDb env config.gc world.now world.db)
            project).length).sum := by
  have projects : Projects.list (ttlDb env config.gc world.now world.db) =
      Projects.list world.db := by
    rw [Projects.list, ttlDb_projects, Projects.list]
  simp only [evictedReport]
  rw [(globalVictims_within within).2, loopVictims_eq (list_distinct _),
    projects, downloads_evicting, counted_entries, counted_entries,
    counted_entries, counted_entries, List.length_flatMap, expired,
    List.length_append]
  simp [GcReport.default]

theorem selected_length
    (within : Blobs.totalSize world.db ≤ asI64 config.gc.globalQuotaBytes) :
    (selected env config.gc world.now world.db).length =
      (expired env config.gc world.now world.db).length +
        ((Projects.list world.db).map fun project =>
          (quotaVictims world.db project).length).sum := by
  have none := (@globalVictims_within env config world within).1
  rw [selected, none, List.append_nil, List.length_append, overQuota,
    List.length_flatMap]

/-- While the blobs are within the global quota, every reference is counted and
no size is negative, nothing else makes a dry run predict the run. -/
theorem foreseen_of_predicts
    (unlocked : world.gcRunning = false) (covered : world.db.Covered)
    (sized : ∀ entry ∈ world.db.entries.rows, 0 ≤ entry.sizeBytes)
    (within : Blobs.totalSize world.db ≤ asI64 config.gc.globalQuotaBytes)
    (predicts : Predicts env config world) : Foreseen env config world := by
  obtain ⟨rounds, predicts⟩ := predicts
  obtain ⟨unreferenced, dead⟩ :=
    @evictedDb_dead env world.now world.db config.gc covered
  obtain ⟨forecast, actual, after, dry, real, entries, -, freed⟩ :=
    predicts (rounds + world.db.blobs.rows.length + 1) (by omega)
  obtain ⟨_, ran, -⟩ := @run_run_counted env config
    (rounds + world.db.blobs.rows.length + 1) world unlocked unreferenced
    (by omega)
  rw [run_dryRun unlocked (by omega)] at dry
  rw [ran] at real
  cases dry
  cases real
  simp only [sweepReport, GcReport.free, counted_entries,
    counted_freed] at entries freed
  rw [evictedReport_entries within, selected_length within] at entries
  have sums : ((Projects.list world.db).map fun project =>
      (quotaVictims (ttlDb env config.gc world.now world.db)
        project).length).sum =
      ((Projects.list world.db).map fun project =>
        (quotaVictims world.db project).length).sum := by
    simp only [GcReport.default] at entries
    omega
  have lengths := eq_of_sum_eq (fun project _ =>
    (@quotaVictims_ttlDb_length env config world sized project).trans
      (List.length_filter_le _ _)) sums
  have independent : Independent env config world := by
    refine ⟨fun project stored => ?_, ?_⟩
    · exact projectForeseen_of_length sized
        (lengths project (mem_list.mpr stored))
    · rw [(@globalVictims_within env config world within).1]
      simp
  obtain ⟨left, valid⟩ := independent.evictedDb_eq
  have more := dead_length_le covered valid
  rw [← left] at more
  have reported : (evictedReport env config.gc world.now
      world.db).freedBlobs = 0 := by
    simp only [evictedReport, counted_freed]
    rfl
  rw [reported] at freed
  simp only [GcReport.default] at freed
  refine ⟨independent, deadUnreferenced_of_covered covered,
    fun blob present live => ?_, by omega⟩
  refine spared_of_length covered valid ?_ present live
  rw [← left]
  omega

end Within

/-! ## Scans -/

theorem run_dryRemoveDiskOrphans
    (removed : List String) (rep : OrphanReport) (world : World) :
    (removeDiskOrphans true removed rep).run (exec env config) world =
      (.done (added rep removed.length 0), world) := by
  induction removed generalizing rep with
  | nil => rfl
  | cons hash rest inductionHypothesis =>
      have counts := inductionHypothesis (added rep 1 0)
      rw [added_added] at counts
      exact counts

theorem run_dryPurgeDbOrphans
    (purged : List String) (rep : OrphanReport) (world : World) :
    (purgeDbOrphans true purged rep).run (exec env config) world =
      (.done (added rep 0 purged.length), world) := by
  induction purged generalizing rep with
  | nil => rfl
  | cons hash rest inductionHypothesis =>
      have counts := inductionHypothesis (added rep 0 1)
      rw [added_added] at counts
      exact counts

theorem scan_predicts
    {world : World} (unlocked : world.gcRunning = false) :
    ScanPredicts env config world := by
  obtain ⟨after, ran, -⟩ :=
    @run_orphanScan_counted env config world unlocked
  have locked : exec env config .gcLock world =
      some (.ok (), { world with gcRunning := true }) := by
    simp [exec, unlocked]
  have scanned : (scan env true).run (exec env config)
      { world with gcRunning := true } =
        (.done ⟨(unknownFiles env world).length,
          (missingFiles env world).length⟩,
          { world with gcRunning := true }) := by
    have removed := @run_dryRemoveDiskOrphans env config
      (unknownFiles env world) ⟨0, 0⟩ { world with gcRunning := true }
    have purged := @run_dryPurgeDbOrphans env config
      (missingFiles env world) (added ⟨0, 0⟩ (unknownFiles env world).length 0)
      { world with gcRunning := true }
    rw [added_added] at purged
    simp only [added, Nat.zero_add, Nat.add_zero] at removed purged
    unfold scan
    rw [Program.run_bind_done (run_onDisk _),
      Program.run_bind_done (run_transact rfl)]
    exact (Program.run_bind_done removed _).trans purged
  refine ⟨_, after, ?_, ran⟩
  unfold orphanScan
  rw [Program.run_bind_done (Program.run_perform locked),
    Program.run_ensuring, scanned]
  exact congrArg (Prod.mk _) (unlocked_again unlocked)

/-- A dry run leaves everything as it is, and a dry scan predicts the scan.  The
dry run predicts the run where no phase depends on the phases before it, and
within the global quota only there. -/
theorem dry_run_predicts
    {world : World} (unlocked : world.gcRunning = false) :
    (∀ budget, 0 < budget → ∃ forecast,
      (GcSvc.run config.gc budget true).run (exec env config) world =
        (.done forecast, world)) ∧
      ScanPredicts env config world ∧
      (Foreseen env config world → Predicts env config world) ∧
      (world.db.Covered →
        (∀ entry ∈ world.db.entries.rows, 0 ≤ entry.sizeBytes) →
        Blobs.totalSize world.db ≤ asI64 config.gc.globalQuotaBytes →
        Predicts env config world → Foreseen env config world) :=
  ⟨fun _ positive => ⟨_, run_dryRun unlocked positive⟩,
    scan_predicts unlocked, fun foreseen => foreseen.predicts unlocked,
    foreseen_of_predicts unlocked⟩

/-! ## Two servers -/

/-- A server on which some content was stored a while ago. -/
def storedLongAgo
    (quotaBytes : Option Int) (uploads : List (Kind × String)) : World :=
  (Program.run (exec Sample.env (Sample.config 1024)) (do
    let project ← transact (.projectsCreate "acme" quotaBytes none)
    for (kind, path) in uploads do
      let _ ← Yocto.put Sample.env (Sample.config 1024)
        ⟨project.id, "acme", 1, .write⟩ kind "acme" path [.ok [97]]
    Program.perform (Call.tick
      (100 * 86400 * nanosPerSec))) (.initial 1000)).2

/-- An expired entry, with content that another entry keeps. -/
def sharedContent : World :=
  storedLongAgo none [(.sstate, "a"), (.downloads, "a")]

theorem sharedContent_projects :
    ∀ project ∈ sharedContent.db.projects.rows,
      ProjectForeseen Sample.env (Sample.config 1024) sharedContent project := by
  have unlimited : ∀ project ∈ sharedContent.db.projects.rows,
      project.quotaBytes = none := by
    decide +kernel
  intro project stored
  have none := unlimited project stored
  refine ⟨?_, ?_, ?_⟩
  · simp [quotaVictims, none]
  · simp [none]
  · simp [none]

theorem dry_run_predicts_shared :
    sharedContent.db.entries.rows.length = 2 ∧
      Predicts Sample.env (Sample.config 1024) sharedContent :=
  ⟨by decide +kernel,
    (dry_run_predicts (by decide +kernel)).2.2.1
      { project := sharedContent_projects
        apart := by decide +kernel
        unreferenced := by unfold DeadUnreferenced; decide +kernel
        spared := by decide +kernel
        fewDead := by decide +kernel }⟩

/-- An expired entry of a project over its quota, with content of its own. -/
def ownContent : World := storedLongAgo (some 0) [(.sstate, "a")]

theorem ownContent_dead :
    DeadUnreferenced (evictedDb Sample.env (Sample.config 1024).gc
      ownContent.now ownContent.db) ∧
      (deadBlobs (evictedDb Sample.env (Sample.config 1024).gc
        ownContent.now ownContent.db)).length = 1 := by
  unfold DeadUnreferenced
  decide +kernel

/-- The entry counts twice in a dry run, and its content not at all. -/
theorem dry_run_miscounts :
    ¬Predicts Sample.env (Sample.config 1024) ownContent := by
  rintro ⟨rounds, predicts⟩
  obtain ⟨forecast, actual, after, dry, real, same, -⟩ :=
    predicts (rounds + 2) (by omega)
  have unlocked : ownContent.gcRunning = false := by decide +kernel
  obtain ⟨unreferenced, dead⟩ := ownContent_dead
  obtain ⟨_, ran, -⟩ := @run_run_counted Sample.env (Sample.config 1024)
    (rounds + 2) ownContent unlocked unreferenced (by omega)
  rw [run_dryRun unlocked (by omega)] at dry
  rw [ran] at real
  cases dry
  cases real
  revert same
  change ¬(counted .default (selected Sample.env (Sample.config 1024).gc
    ownContent.now ownContent.db)).evictedEntries =
      (evictedReport Sample.env (Sample.config 1024).gc ownContent.now
        ownContent.db).evictedEntries
  decide +kernel

end DryRun

end Marmotte
