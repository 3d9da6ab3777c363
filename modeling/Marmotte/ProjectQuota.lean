import Marmotte.Footprints
import Marmotte.Sample
import Marmotte.Sequential.Sweep
import Mathlib.Algebra.Order.BigOperators.Group.List

/-!
# Project quotas

What the quota phase of a sweep does to each project, and that the rest of the
sweep keeps it.  Every project is treated on its own: what is evicted from it
depends on its entries alone.
-/

namespace Marmotte

open Effects Tables

namespace ProjectQuota

open Db GcSvc

/-! ## What the phase reads of one project -/

/-- The unpinned ones of some entries, least recently used first. -/
def lru (entries : List Entry) : List Entry :=
  (entries.filter fun entry => decide (entry.pinned = false)).insertionSort
    Entry.LruLe

theorem projectLru_eq (db : Db) (projectId : Int) :
    GcQueries.projectLru db projectId = lru (db.entriesOf projectId) := by
  rw [GcQueries.projectLru, lru, entriesOf, List.filter_filter]
  congr 2
  funext entry
  rw [← Bool.decide_and]
  simp only [and_comm]

theorem projectUsage_eq (db : Db) (projectId : Int) :
    Entries.projectUsage db projectId = sizes (db.entriesOf projectId) := rfl

/-- What is evicted from a project depends on its own entries. -/
theorem quotaVictims_congr
    {first second : Db} {project : Project}
    (same : first.entriesOf project.id = second.entriesOf project.id) :
    quotaVictims first project = quotaVictims second project := by
  simp only [quotaVictims, projectLru_eq, projectUsage_eq, same]

theorem quotaVictims_initial (db : Db) (project : Project) :
    quotaVictims db project <+: GcQueries.projectLru db project.id := by
  unfold quotaVictims
  split
  · exact List.nil_prefix
  · exact lruVictims_initial _ _ _

theorem projectId_of_quotaVictims
    {db : Db} {project : Project} {entry : Entry}
    (selected : entry ∈ quotaVictims db project) :
    entry.projectId = project.id ∧ entry.pinned = false :=
  (mem_projectLru.mp ((quotaVictims_initial db project).subset selected)).2

/-! ## The loop over the projects -/

theorem entriesOf_evicting
    {db : Db} {victims : List Entry}
    (valid : Victims db victims) (projectId : Int) :
    (db.evicting victims).entriesOf projectId =
      (db.entriesOf projectId).filter fun entry =>
        !victims.contains entry := by
  rw [entriesOf, (evicting_spec valid).rows, entriesOf, List.filter_comm]

/-- The step lemma: the treatment of one project leaves the others alone. -/
theorem entriesOf_other
    {db : Db} {project : Project} {projectId : Int}
    (other : projectId ≠ project.id) :
    (db.evicting (quotaVictims db project)).entriesOf projectId =
      db.entriesOf projectId := by
  rw [entriesOf_evicting (quotaVictims_valid db project),
    List.filter_eq_self]
  intro entry present
  have owner : entry.projectId = projectId :=
    of_decide_eq_true (List.mem_filter.mp present).2
  have spared : entry ∉ quotaVictims db project := fun selected =>
    other (owner.symm.trans (projectId_of_quotaVictims selected).1)
  simp [spared]

/-- The loop of the quota phase. -/
def evictingAll (db : Db) (projects : List Project) : Db :=
  projects.foldl (fun db project => db.evicting (quotaVictims db project)) db

theorem entriesOf_evictingAll_other
    {db : Db} {projects : List Project} {projectId : Int}
    (others : ∀ project ∈ projects, projectId ≠ project.id) :
    (evictingAll db projects).entriesOf projectId =
      db.entriesOf projectId := by
  induction projects generalizing db with
  | nil => rfl
  | cons project rest inductionHypothesis =>
      refine (inductionHypothesis fun later waiting =>
        others later (List.mem_cons_of_mem _ waiting)).trans ?_
      exact entriesOf_other (others project List.mem_cons_self)

/-- Each project loses what its entries before the loop select. -/
theorem entriesOf_evictingAll
    {db : Db} {projects : List Project} {project : Project}
    (distinct : projects.Pairwise fun first second => first.id ≠ second.id)
    (listed : project ∈ projects) :
    (evictingAll db projects).entriesOf project.id =
      (db.entriesOf project.id).filter fun entry =>
        !(quotaVictims db project).contains entry := by
  induction projects generalizing db with
  | nil => cases listed
  | cons first rest inductionHypothesis =>
      rw [List.pairwise_cons] at distinct
      change (evictingAll (db.evicting (quotaVictims db first)) rest).entriesOf
        project.id = _
      rcases List.mem_cons.mp listed with rfl | later
      · rw [entriesOf_evictingAll_other distinct.1,
          entriesOf_evicting (quotaVictims_valid db project)]
      · have apart : project.id ≠ first.id :=
          (distinct.1 project later).symm
        have same := @entriesOf_other db first project.id apart
        rw [inductionHypothesis distinct.2 later, quotaVictims_congr same,
          same]

/-- The projects are listed once each. -/
theorem list_distinct (db : Db) :
    (Projects.list db).Pairwise fun first second => first.id ≠ second.id := by
  have perm : (Projects.list db).Perm db.projects.rows :=
    List.perm_insertionSort _ _
  refine (perm.pairwise_iff fun different => different.symm).mpr ?_
  exact db.projects.distinct.imp fun apart same => apart (.inl same)

theorem mem_list {db : Db} {project : Project} :
    project ∈ Projects.list db ↔ project ∈ db.projects.rows :=
  List.mem_insertionSort _

theorem entriesOf_quotaDb
    {db : Db} {project : Project} (stored : project ∈ db.projects.rows) :
    (quotaDb db).entriesOf project.id =
      (db.entriesOf project.id).filter fun entry =>
        !(quotaVictims db project).contains entry :=
  entriesOf_evictingAll (list_distinct db) (mem_list.mpr stored)

/-! ## The usage that is left -/

/-- Taking out some of the rows takes out their sizes. -/
theorem sizes_filter
    {rows victims : List Entry}
    (once : rows.Nodup) (distinct : victims.Nodup)
    (stored : ∀ entry ∈ victims, entry ∈ rows) :
    sizes (rows.filter fun entry => !victims.contains entry) =
      sizes rows - sizes victims := by
  have taken : (rows.filter fun entry => victims.contains entry).Perm
      victims := by
    refine (List.perm_ext_iff_of_nodup (once.filter _) distinct).mpr ?_
    intro entry
    rw [List.mem_filter, List.contains_iff_mem]
    exact ⟨And.right, fun waiting => ⟨stored entry waiting, waiting⟩⟩
  have parts := ((List.filter_append_perm
    (fun entry => victims.contains entry) rows).map
      Entry.sizeBytes).sum_eq
  have sameSizes := (taken.map Entry.sizeBytes).sum_eq
  rw [List.map_append, List.sum_append, sameSizes] at parts
  simp only [sizes]
  omega

/-- No entry of the project is left to evict, or its usage is within its
quota. -/
def Bounded (project : Project) (db : Db) : Prop :=
  ∀ quota, project.quotaBytes = some quota →
    Entries.projectUsage db project.id ≤ quota ∨
      ∀ entry ∈ db.entries.rows, entry.projectId = project.id →
        entry.pinned = true

/-- `count` is the least number of least recently used entries whose removal
brings the usage of the project within its quota, or that of all of them. -/
structure Shortest (db : Db) (project : Project) (count : Nat) : Prop where
  unlimited : project.quotaBytes = none → count = 0
  within : count ≤ (GcQueries.projectLru db project.id).length
  enough : ∀ quota, project.quotaBytes = some quota →
    Entries.projectUsage db project.id -
        sizes ((GcQueries.projectLru db project.id).take count) ≤ quota ∨
      count = (GcQueries.projectLru db project.id).length
  least : ∀ quota, project.quotaBytes = some quota → ∀ fewer < count,
    quota < Entries.projectUsage db project.id -
      sizes ((GcQueries.projectLru db project.id).take fewer)

theorem quotaVictims_shortest (db : Db) (project : Project) :
    Shortest db project (quotaVictims db project).length where
  unlimited free := by rw [quotaVictims, free, List.length_nil]
  within := (quotaVictims_initial db project).length_le
  enough quota limited := by
    rw [← List.prefix_iff_eq_take.mp (quotaVictims_initial db project),
      quotaVictims, limited]
    rcases lruVictims_stopped quota (GcQueries.projectLru db project.id)
        (Entries.projectUsage db project.id) with all | stopped
    · exact .inr (congrArg List.length all)
    · exact .inl stopped
  least quota limited fewer small := by
    rw [quotaVictims, limited] at small
    exact (lt_lruVictims_length.mp small).2 fewer le_rfl

theorem bounded_quotaDb
    {db : Db} {project : Project} (stored : project ∈ db.projects.rows) :
    Bounded project (quotaDb db) := by
  intro quota limited
  have valid := quotaVictims_valid db project
  have left := entriesOf_quotaDb stored
  have shortest := quotaVictims_shortest db project
  have taken := List.prefix_iff_eq_take.mp (quotaVictims_initial db project)
  rcases shortest.enough quota limited with fits | all
  · left
    rw [← taken] at fits
    have once : (db.entriesOf project.id).Nodup := db.entries.nodup.filter _
    rw [projectUsage_eq, left, sizes_filter once valid.distinct]
    · exact fits
    · intro entry selected
      have owner := projectId_of_quotaVictims selected
      exact List.mem_filter.mpr
        ⟨valid.stored entry selected, decide_eq_true owner.1⟩
  · right
    intro entry present owner
    rw [all, List.take_length] at taken
    have remains : entry ∈ (quotaDb db).entriesOf project.id :=
      List.mem_filter.mpr ⟨present, decide_eq_true owner⟩
    rw [left, List.mem_filter] at remains
    obtain ⟨before, spared⟩ := remains
    by_contra unpinned
    have selected : entry ∈ quotaVictims db project := by
      rw [taken, mem_projectLru]
      exact ⟨(List.mem_filter.mp before).1, owner,
        Bool.eq_false_of_not_eq_true unpinned⟩
    simp [selected] at spared

theorem pinned_stays
    {db : Db} {entry : Entry} (present : entry ∈ db.entries.rows)
    (pinned : entry.pinned = true) :
    entry ∈ (quotaDb db).entries.rows := by
  obtain ⟨project, stored, same⟩ := db.entry_project entry present
  have remains : entry ∈ (quotaDb db).entriesOf project.id := by
    rw [entriesOf_quotaDb stored, List.mem_filter]
    refine ⟨List.mem_filter.mpr ⟨present, decide_eq_true same.symm⟩, ?_⟩
    have spared : entry ∉ quotaVictims db project := by
      intro selected
      rw [(projectId_of_quotaVictims selected).2] at pinned
      cases pinned
    simp [spared]
  exact (List.mem_filter.mp remains).1

/-! ## The rest of the sweep -/

/-- Evictions keep the bound, as sizes are not negative. -/
theorem Bounded.evicted
    {project : Project} {db after : Db}
    (bounded : Bounded project db)
    (sized : ∀ entry ∈ db.entries.rows, 0 ≤ entry.sizeBytes)
    (fewer : after.entries.rows.Sublist db.entries.rows) :
    Bounded project after := by
  intro quota limited
  rcases bounded quota limited with fits | pinned
  · left
    refine le_trans ?_ fits
    have part := (fewer.filter fun entry =>
      decide (entry.projectId = project.id)).map Entry.sizeBytes
    refine part.sum_le_sum ?_
    intro size member
    obtain ⟨entry, present, rfl⟩ := List.mem_map.mp member
    exact sized entry (List.mem_of_mem_filter present)
  · right
    intro entry present
    exact pinned entry (fewer.subset present)

/-- The calls of the cleanup, which leave the entries alone. -/
def cleanupCalls : Protocol Call Call.Reply CoreError Unit where
  permits _ request :=
    match request with
    | .fs _ => True
    | .db (.blobsZeroRefcount _) => True
    | .db (.blobsDelete _) => True
    | .db .blobsTotalSize => True
    | .gcUnlock => True
    | _ => False
  advance _ _ _ := ()

theorem cleanup_step
    {env : Env} {config : Config} {request : Call} {world after : World}
    {reply : Except CoreError request.Reply}
    (permitted : cleanupCalls.permits () request)
    (answered : exec env config request world = some (reply, after)) :
    after.db.entries = world.db.entries := by
  cases request with
  | db call =>
      simp only [exec] at answered
      split at answered
      · rename_i value db ran
        cases answered
        cases call with
        | blobsDelete hash =>
            simp only [DbCall.exec, Blobs.delete, bind, Except.bind] at ran
            split at ran
            · cases ran
            · rename_i deleted
              cases ran
              exact (Blobs.get_deleteBlob deleted).2.1
        | blobsZeroRefcount | blobsTotalSize =>
            cases ran
            rfl
        | _ => exact permitted.elim
      · cases answered
        rfl
  | fs call =>
      cases answered
      rfl
  | gcUnlock =>
      cases answered
      rfl
  | _ => exact permitted.elim

theorem cleanupBlobs_cleans (budget : Nat) (rep : GcReport) :
    (cleanupBlobs false budget rep).Follows cleanupCalls (fun _ _ => True)
      (fun _ _ => True) () := by
  refine ((cleanupBlobs_frees false budget rep).follows ?_
    fun _ _ _ => rfl).mono (fun _ _ _ => trivial) fun _ _ _ => trivial
  intro request used
  cases request with
  | db call => cases call <;> first | exact used.elim | trivial
  | fs call => trivial
  | _ => exact used.elim

section Sweeps

variable {env : Env} {config : Config}

/-- However the cleanup of a sweep ends, its entries are those that the
eviction phases left. -/
theorem run_sweep_entries
    {budget : Nat} {world final : World}
    {outcome : Outcome CoreError GcReport}
    (ran : (sweep config.gc budget false).run (exec env config) world =
      (outcome, final)) :
    final.db.entries =
      (evictedDb env config.gc world.now world.db).entries := by
  obtain ⟨aged, ranTtl⟩ := @run_ttlPhase env config .default world
  obtain ⟨limited, ranQuota⟩ := @run_quotaPhase env config aged
    { world with db := ttlDb env config.gc world.now world.db }
  obtain ⟨fitted, ranGlobal⟩ := @run_globalPhase env config limited
    { world with
      db := quotaDb (ttlDb env config.gc world.now world.db) }
  unfold sweep at ran
  rw [Program.run_bind_done ranTtl, Program.run_bind_done ranQuota,
    Program.run_bind_done ranGlobal] at ran
  have rest : (cleanupBlobs false budget fitted >>= fun rep => do
      let usage ← transact .blobsTotalSize
      pure { rep with usageGlobalBytes := usage } : App GcReport).Follows
        cleanupCalls (fun _ _ => True) (fun _ _ => True) () :=
    (cleanupBlobs_cleans budget fitted).bind fun _ _ _ =>
      Program.follows_perform_then trivial fun _ => trivial
  have kept : ∀ (record : Unit) request before reply after,
      before.db.entries =
          (evictedDb env config.gc world.now world.db).entries →
        cleanupCalls.permits record request →
          exec env config request before = some (reply, after) →
            after.db.entries =
              (evictedDb env config.gc world.now world.db).entries :=
    fun _ _ _ _ _ same permitted answered =>
      (cleanup_step permitted answered).trans same
  obtain ⟨_, same, -⟩ := Program.Follows.run_keeps kept rest rfl ran
  exact same

/-- The same below the mutex. -/
theorem run_run_entries
    {budget : Nat} {world final : World}
    {outcome : Outcome CoreError GcReport}
    (unlocked : world.gcRunning = false)
    (ran : (GcSvc.run config.gc budget false).run (exec env config) world =
      (outcome, final)) :
    final.db.entries =
      (evictedDb env config.gc world.now world.db).entries := by
  have locked : exec env config .gcLock world =
      some (.ok (), { world with gcRunning := true }) := by
    simp [exec, unlocked]
  unfold GcSvc.run at ran
  rw [Program.run_bind_done (Program.run_perform locked),
    Program.run_ensuring] at ran
  rcases swept : (sweep config.gc budget false).run (exec env config)
      { world with gcRunning := true } with ⟨outcome, after⟩
  have same := run_sweep_entries swept
  rw [swept] at ran
  cases outcome with
  | done rep | failed error | running =>
      cases ran
      exact same

theorem evicted_sublist
    {db after : Db} (left : EvictedFrom db after) :
    after.entries.rows.Sublist db.entries.rows := by
  obtain ⟨victims, valid, rfl⟩ := left
  rw [(evicting_spec valid).rows]
  exact List.filter_sublist

theorem quotaDb_projects (db : Db) : (quotaDb db).projects = db.projects := by
  obtain ⟨victims, valid, left⟩ := (evictedFrom_refl db).quotaDb
  rw [left]
  exact (evicting_spec valid).projects

/-- After a whole sweep every project is within its quota or has no unpinned
entry. -/
theorem bounded_after_run
    {budget : Nat} {world final : World}
    {outcome : Outcome CoreError GcReport}
    (unlocked : world.gcRunning = false)
    (sized : ∀ entry ∈ world.db.entries.rows, 0 ≤ entry.sizeBytes)
    (ran : (GcSvc.run config.gc budget false).run (exec env config) world =
      (outcome, final))
    {project : Project} (stored : project ∈ world.db.projects.rows) :
    Bounded project final.db := by
  have aged := ttlDb_evictedFrom env config.gc world.now world.db
  obtain ⟨victims, valid, left⟩ := aged
  have projects := (evicting_spec valid).projects
  rw [← left] at projects
  have storedThen :
      project ∈ (ttlDb env config.gc world.now world.db).projects.rows := by
    rw [projects]
    exact stored
  have limited := bounded_quotaDb storedThen
  have fewer : (quotaDb (ttlDb env config.gc world.now
      world.db)).entries.rows.Sublist world.db.entries.rows :=
    evicted_sublist
      (ttlDb_evictedFrom env config.gc world.now world.db).quotaDb
  have globalPart : (evictedDb env config.gc world.now
      world.db).entries.rows.Sublist (quotaDb (ttlDb env config.gc world.now
        world.db)).entries.rows :=
    evicted_sublist ⟨_, globalVictims_valid config.gc _, rfl⟩
  have after := run_run_entries unlocked ran
  refine limited.evicted (fun entry present =>
    sized entry (fewer.subset present)) ?_
  rw [after]
  exact globalPart

/-- The quota phase brings every project that has a quota within it, or evicts
all its unpinned entries; from each project it takes the shortest prefix of its
unpinned entries in the order of their last access that does so, whatever the
other projects are; and a whole sweep keeps the bound. -/
theorem quota_phase_exact
    (env : Env) (config : Config) (rep : GcReport) (world : World) :
    ∃ rep' after,
      (quotaPhase false rep).run (exec env config) world =
        (.done rep', after) ∧
      after = { world with db := after.db } ∧
      after.db.projects = world.db.projects ∧
      after.db.entries.rows.Sublist world.db.entries.rows ∧
      (∀ entry ∈ world.db.entries.rows, entry.pinned = true →
        entry ∈ after.db.entries.rows) ∧
      (∀ project ∈ world.db.projects.rows,
        Bounded project after.db ∧
        ∃ count, Shortest world.db project count ∧
          after.db.entriesOf project.id =
            (world.db.entriesOf project.id).filter fun entry =>
              !((GcQueries.projectLru world.db project.id).take
                count).contains entry) ∧
      (∀ otherWorld otherRep otherAfter,
        (quotaPhase false rep).run (exec env config) otherWorld =
          (.done otherRep, otherAfter) →
        ∀ project ∈ world.db.projects.rows,
          project ∈ otherWorld.db.projects.rows →
          otherWorld.db.entriesOf project.id =
            world.db.entriesOf project.id →
          otherAfter.db.entriesOf project.id =
            after.db.entriesOf project.id) ∧
      ∀ budget outcome final, world.gcRunning = false →
        (∀ entry ∈ world.db.entries.rows, 0 ≤ entry.sizeBytes) →
        (GcSvc.run config.gc budget false).run (exec env config) world =
          (outcome, final) →
        ∀ project ∈ world.db.projects.rows, Bounded project final.db := by
  obtain ⟨rep', ran⟩ := @run_quotaPhase env config rep world
  refine ⟨rep', _, ran, rfl, quotaDb_projects world.db,
    evicted_sublist (evictedFrom_refl world.db).quotaDb,
    fun entry => pinned_stays, ?_, ?_, ?_⟩
  · intro project stored
    have taken := List.prefix_iff_eq_take.mp
      (quotaVictims_initial world.db project)
    refine ⟨bounded_quotaDb stored, _,
      quotaVictims_shortest world.db project, ?_⟩
    rw [← taken]
    exact entriesOf_quotaDb stored
  · intro otherWorld otherRep otherAfter otherRan project stored storedThere
      same
    obtain ⟨rep'', ranThere⟩ := @run_quotaPhase env config rep otherWorld
    rw [ranThere] at otherRan
    cases otherRan
    rw [entriesOf_quotaDb stored, entriesOf_quotaDb storedThere, same,
      quotaVictims_congr same]
  · intro budget outcome final unlocked sized swept project stored
    exact bounded_after_run unlocked sized swept stored

end Sweeps

/-! ## A project over its quota -/

/-- A project with a quota of one byte and two entries of one byte each, the
older of which is pinned. -/
def crowded : World :=
  (Program.run (exec Sample.env (Sample.config 1024)) (do
    let _ ← transact (.projectsCreate "acme" (some 1) none)
    let _ ← transact (.entriesUpsert 1 .sstate "first" (Sample.sha256 [97]) 1)
    let _ ← transact (.entriesUpsert 1 .sstate "second" (Sample.sha256 [98]) 1)
    transact (.entriesSetPinned 1 1 true)) (World.initial 1000)).2

theorem quota_phase_exact_crowded :
    ∃ final : World,
      ((GcSvc.run (Sample.config 1024).gc 3 false).run
        (exec Sample.env (Sample.config 1024)) crowded).2 = final ∧
      ∀ project ∈ crowded.db.projects.rows, Bounded project final.db := by
  obtain ⟨_, _, -, -, -, -, -, -, -, whole⟩ :=
    quota_phase_exact Sample.env (Sample.config 1024) .default crowded
  refine ⟨_, rfl, whole 3 _ _ (by decide +kernel) (by decide +kernel) rfl⟩

end ProjectQuota

end Marmotte
