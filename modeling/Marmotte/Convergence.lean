import Marmotte.ProjectQuota
import Marmotte.SweepReport

/-!
# Repeated sweeps

A single sweep may leave the store above its global quota, as it takes the sizes
of entries for the space that their eviction frees.  Sweeps one after the other
come to an end: after one more of them than there are unpinned entries nothing
is expired or dead, every quota is met as far as pins allow, and further sweeps
change nothing.
-/

namespace Marmotte

open Effects Tables

namespace Convergence

open Db GcSvc SweepReport ProjectQuota

/-- Sweeps one after the other, with their reports. -/
def sweeps (config : GcConfig) (budget : Nat) : Nat → App (List GcReport)
  | 0 => pure []
  | count + 1 => do
      let rep ← GcSvc.run config budget false
      let later ← sweeps config budget count
      pure (rep :: later)

/-- No entry is expired, every quota is met or there is nothing left to evict
for it, and no blob is without a reference. -/
structure Settled (config : GcConfig) (now : Int) (db : Db) : Prop where
  fresh : ∀ entry ∈ db.entries.rows, ¬Expired config now db entry
  bounded : ∀ project ∈ db.projects.rows, Bounded project db
  fits : Blobs.totalSize db ≤ asI64 config.globalQuotaBytes ∨
    ∀ entry ∈ db.entries.rows, entry.pinned = true
  live : ∀ blob ∈ db.blobs.rows, blob.refcount ≠ 0

/-- The entries that a sweep may evict. -/
def unpinned (db : Db) : List Entry :=
  db.entries.rows.filter fun entry => decide (entry.pinned = false)

/-! ## What is settled stays -/

section Settled

variable {env : Env} {config : GcConfig} {now : Int} {db : Db}

/-- The loop takes nothing exactly when the usage is within the quota or there
is nothing to take. -/
theorem lruVictims_eq_nil_iff
    {quota usage : Int} {entries : List Entry} :
    lruVictims quota entries usage = [] ↔ usage ≤ quota ∨ entries = [] := by
  constructor
  · intro none
    rcases lruVictims_stopped quota entries usage with all | stopped
    · exact .inr (all.symm.trans none)
    · rw [none, sizes_nil, Int.sub_zero] at stopped
      exact .inl stopped
  · rintro (fits | rfl)
    · exact lruVictims_of_le entries fits
    · rfl

theorem quotaVictims_eq_nil_iff {project : Project} :
    quotaVictims db project = [] ↔ Bounded project db := by
  unfold quotaVictims Bounded
  cases limited : project.quotaBytes with
  | none => simp
  | some quota =>
      simp only [Option.some.injEq, forall_eq']
      rw [lruVictims_eq_nil_iff, List.eq_nil_iff_forall_not_mem]
      simp only [mem_projectLru, not_and, Bool.not_eq_false]

theorem globalVictims_eq_nil_iff :
    globalVictims config db = [] ↔
      Blobs.totalSize db ≤ asI64 config.globalQuotaBytes ∨
        ∀ entry ∈ db.entries.rows, entry.pinned = true := by
  unfold globalVictims
  rw [lruVictims_eq_nil_iff, List.eq_nil_iff_forall_not_mem]
  simp only [mem_globalLru, not_and, Bool.not_eq_false]

theorem loopVictims_eq_nil_iff {projects : List Project} :
    loopVictims projects db = [] ↔
      ∀ project ∈ projects, Bounded project db := by
  induction projects with
  | nil => simp [loopVictims]
  | cons project rest inductionHypothesis =>
      rw [loopVictims, List.append_eq_nil_iff, List.forall_mem_cons,
        quotaVictims_eq_nil_iff]
      refine and_congr_right fun bounded => ?_
      rw [quotaVictims_eq_nil_iff.mpr bounded, evicting_nil]
      exact inductionHypothesis

theorem ttlEvictions_eq_nil_iff (fit : TtlsFit config now) :
    ttlEvictions env config now db = [] ↔
      ∀ entry ∈ db.entries.rows, ¬Expired config now db entry := by
  rw [← List.length_eq_zero_iff, (ttlEvictions_perm env fit db).length_eq,
    List.length_eq_zero_iff, SweepReport.expired, List.filter_eq_nil_iff]
  simp only [decide_eq_true_eq]

/-- A sweep evicts nothing and frees nothing exactly in a settled state. -/
theorem settled_iff (fit : TtlsFit config now) :
    Settled config now db ↔
      sweptEntries env config now db = [] ∧ deadBlobs db = [] := by
  have live : deadBlobs db = [] ↔
      ∀ blob ∈ db.blobs.rows, blob.refcount ≠ 0 := by
    rw [deadBlobs, List.filter_eq_nil_iff]
    simp only [decide_eq_true_eq, ne_eq]
  have ttl : ttlDb env config now db =
      db.evicting (ttlEvictions env config now db) := by
    rw [ttlEvictions, evicting_append]
    rfl
  have phases : sweptEntries env config now db = [] ↔
      ttlEvictions env config now db = [] ∧
        loopVictims (Projects.list db) db = [] ∧
          globalVictims config db = [] := by
    simp only [sweptEntries, List.append_eq_nil_iff, and_assoc]
    refine and_congr_right fun none => ?_
    rw [ttl, none, evicting_nil]
    refine and_congr_right fun within => ?_
    rw [quotaDb_eq, within, evicting_nil]
  rw [phases, live, ttlEvictions_eq_nil_iff fit, loopVictims_eq_nil_iff,
    globalVictims_eq_nil_iff]
  simp only [mem_list]
  constructor
  · intro settled
    exact ⟨⟨settled.fresh, settled.bounded, settled.fits⟩, settled.live⟩
  · rintro ⟨⟨fresh, bounded, fits⟩, live⟩
    exact ⟨fresh, bounded, fits, live⟩

/-- Only unpinned entries are swept. -/
theorem unpinned_of_swept
    {entry : Entry} (swept : entry ∈ sweptEntries env config now db) :
    entry.pinned = false := by
  have ttl {db : Db} {kind : Kind}
      (selected : entry ∈ ttlVictims env config now kind db) :
      entry.pinned = false := by
    simp only [ttlVictims, Env.mem_scan, GcQueries.expired, List.mem_filter,
      List.any_eq_true, Bool.and_eq_true, GcQueries.ttlSelects,
      decide_eq_true_eq] at selected
    obtain ⟨-, project, -, -, -, pinned, -⟩ := selected
    exact pinned
  have loop (projects : List Project) (db : Db)
      (selected : entry ∈ loopVictims projects db) :
      entry.pinned = false := by
    induction projects generalizing db with
    | nil => cases selected
    | cons project rest inductionHypothesis =>
        rcases List.mem_append.mp selected with first | later
        · exact (projectId_of_quotaVictims first).2
        · exact inductionHypothesis _ later
  simp only [sweptEntries, ttlEvictions, List.mem_append] at swept
  rcases swept with ((first | second) | quota) | global
  · exact ttl first
  · exact ttl second
  · exact loop _ _ quota
  · exact (mem_globalLru.mp ((lruVictims_initial _ _ _).subset global)).2

end Settled

/-! ## One sweep -/

/-- Worlds in which a sweep returns with this budget. -/
structure Ready (budget : Nat) (world : World) : Prop where
  unlocked : world.gcRunning = false
  counted : Counted world.db
  enough : world.db.blobs.rows.length < budget

/-- What a sweep does: the entries that it selects go, and the rows that have
no reference then. -/
structure Sweeps
    (env : Env) (config : GcConfig) (before after : World) : Prop where
  entries : after.db.entries.rows = before.db.entries.rows.filter fun entry =>
    !(sweptEntries env config before.now before.db).contains entry
  dead : deadBlobs after.db = []
  now : after.now = before.now

section Sweep

variable {env : Env} {config : Config} {budget : Nat} {world : World}

/-- Counts and references go together when entries are evicted. -/
theorem counted_evicting
    {db : Db} {victims : List Entry} (counted : Counted db)
    (valid : Victims db victims) : Counted (db.evicting victims) := by
  have evicted := evicting_spec valid
  intro entry left
  rw [evicted.rows] at left
  have before := counted entry (List.mem_filter.mp left).1
  have kept := evicted.surplus entry.blobHash
  simp only [surplus] at kept
  omega

/-- Rows without a reference do not count for any entry. -/
theorem counted_cleaned
    {before after : World} (cleaned : Cleaned before after)
    (counted : Counted before.db) : Counted after.db := by
  intro entry left
  rw [cleaned.entries] at left
  have known := counted entry left
  have pointed : 0 < before.db.pointersTo entry.blobHash :=
    references_iff.mp ⟨entry, left, rfl⟩
  have same : after.db.pointersTo entry.blobHash =
      before.db.pointersTo entry.blobHash := by
    rw [pointersTo, pointersTo, cleaned.entries]
  obtain ⟨blob, present, hash⟩ := before.db.entry_blob entry left
  have count := refcount_of_mem present
  rw [hash] at count
  have stays : blob ∈ after.db.blobs.rows := by
    rw [cleaned.blobs, List.mem_filter]
    refine ⟨present, ?_⟩
    simp only [Bool.not_eq_true', decide_eq_false_iff_not]
    omega
  have still := refcount_of_mem stays
  rw [hash] at still
  omega

theorem run_sweep_ready (ready : Ready budget world) :
    ∃ rep after,
      (GcSvc.run config.gc budget false).run (exec env config) world =
        (.done rep, after) ∧
      Ready budget after ∧ Sweeps env config.gc world after := by
  have valid := sweptEntries_valid env config.gc world.now world.db
  have left := evictedDb_eq env config.gc world.now world.db
  have evicted := evicting_spec valid
  have rows : (evictedDb env config.gc world.now world.db).blobs.rows.length =
      world.db.blobs.rows.length := by
    rw [left, evicted.blobs, List.length_map]
  have fewer : (deadBlobs (evictedDb env config.gc world.now
      world.db)).length < budget :=
    ((List.length_filter_le _ _).trans_eq rows).trans_lt ready.enough
  obtain ⟨after, ran, cleaned⟩ := @run_run_counted env config budget world
    ready.unlocked (left ▸ ready.counted.deadUnreferenced valid) fewer
  refine ⟨_, after, ran, ⟨?_, ?_, ?_⟩, ?_, ?_, ?_⟩
  · rw [cleaned.rest]
    exact ready.unlocked
  · refine counted_cleaned cleaned ?_
    rw [left]
    exact counted_evicting ready.counted valid
  · rw [cleaned.blobs]
    refine (List.length_filter_le _ _).trans_lt ?_
    rw [rows]
    exact ready.enough
  · rw [cleaned.entries, left]
    exact evicted.rows
  · rw [deadBlobs, cleaned.blobs, List.filter_filter]
    simp
  · rw [cleaned.rest]

/-- A sweep evicts an unpinned entry, unless it selects none. -/
theorem Sweeps.unpinned_lt
    {after : World} (sweeps : Sweeps env config.gc world after)
    (some : sweptEntries env config.gc world.now world.db ≠ []) :
    (unpinned after.db).length < (unpinned world.db).length := by
  obtain ⟨entry, swept⟩ := List.exists_mem_of_ne_nil _ some
  have valid := sweptEntries_valid env config.gc world.now world.db
  rw [unpinned, sweeps.entries, List.filter_comm, unpinned,
    List.length_filter_lt_length_iff_exists]
  refine ⟨entry, List.mem_filter.mpr ⟨valid.stored entry swept, ?_⟩, ?_⟩
  · exact decide_eq_true (unpinned_of_swept swept)
  · simp [swept]

theorem Sweeps.unpinned_le
    {after : World} (sweeps : Sweeps env config.gc world after) :
    (unpinned after.db).length ≤ (unpinned world.db).length := by
  rw [unpinned, sweeps.entries, List.filter_comm, unpinned]
  exact List.length_filter_le _ _

/-- Where nothing is to be done a sweep does nothing. -/
theorem run_sweep_settled
    (unlocked : world.gcRunning = false) (positive : 0 < budget)
    (fit : TtlsFit config.gc world.now)
    (settled : Settled config.gc world.now world.db) :
    (GcSvc.run config.gc budget false).run (exec env config) world =
      (.done ⟨0, 0, 0, Blobs.totalSize world.db⟩, world) := by
  obtain ⟨none, dead⟩ := (@settled_iff env _ _ _ fit).mp settled
  have same : evictedDb env config.gc world.now world.db = world.db := by
    rw [evictedDb_eq, none, evicting_nil]
  have nothing : evictedReport env config.gc world.now world.db =
      .default := by
    rw [evictedReport_eq, none]
    rfl
  have locked : exec env config .gcLock world =
      some (.ok (), { world with gcRunning := true }) := by
    simp [exec, unlocked]
  have phases := run_evictionPhases env config { world with gcRunning := true }
  rw [same, nothing] at phases
  have listed : Blobs.zeroRefcount env.scan world.db 1000 = [] := by
    rw [List.eq_nil_iff_forall_not_mem]
    intro hash among
    obtain ⟨⟨blob, present, rfl⟩, zero⟩ := Blobs.mem_zeroRefcount
      (fun blobs blob => (env.mem_scan blobs blob).mp) among
    rw [refcount_of_mem present] at zero
    exact settled.live blob present zero
  have cleaned : (cleanupBlobs false budget .default).run (exec env config)
      { world with gcRunning := true } =
        (.done .default, { world with gcRunning := true }) := by
    obtain ⟨budget, rfl⟩ := Nat.exists_eq_add_one.mpr positive
    unfold cleanupBlobs
    rw [Program.run_bind_done (run_transact rfl)]
    simp only [listed, List.isEmpty_nil, if_true]
    rfl
  have swept : (sweep config.gc budget false).run (exec env config)
      { world with gcRunning := true } =
        (.done ⟨0, 0, 0, Blobs.totalSize world.db⟩,
          { world with gcRunning := true }) := by
    have split : sweep config.gc budget false =
        (do
          let rep ← evictionPhases config.gc
          let rep ← cleanupBlobs false budget rep
          let usage ← transact .blobsTotalSize
          pure { rep with usageGlobalBytes := usage }) := by
      simp only [sweep, evictionPhases, Program.bind_assoc]
    rw [split, Program.run_bind_done phases, Program.run_bind_done cleaned]
    exact Program.run_bind_done (run_transact rfl) _
  unfold GcSvc.run
  rw [Program.run_bind_done (Program.run_perform locked),
    Program.run_ensuring, swept]
  change (_, { world with gcRunning := false }) = _
  rw [← unlocked]

end Sweep

/-! ## Many sweeps -/

section Sweeps

variable {env : Env} {config : Config} {budget : Nat} {world : World}

theorem run_sweeps_succ
    {count : Nat} {rep : GcReport} {later : List GcReport}
    {middle after : World}
    (first : (GcSvc.run config.gc budget false).run (exec env config) world =
      (.done rep, middle))
    (rest : (sweeps config.gc budget count).run (exec env config) middle =
      (.done later, after)) :
    (sweeps config.gc budget (count + 1)).run (exec env config) world =
      (.done (rep :: later), after) := by
  rw [sweeps, Program.run_bind_done first, Program.run_bind_done rest]
  rfl

/-- In a settled state sweeps change nothing. -/
theorem run_sweeps_settled
    (unlocked : world.gcRunning = false) (positive : 0 < budget)
    (fit : TtlsFit config.gc world.now)
    (settled : Settled config.gc world.now world.db) (count : Nat) :
    (sweeps config.gc budget count).run (exec env config) world =
      (.done (List.replicate count ⟨0, 0, 0, Blobs.totalSize world.db⟩),
        world) := by
  induction count with
  | zero => rfl
  | succ count inductionHypothesis =>
      exact run_sweeps_succ
        (run_sweep_settled unlocked positive fit settled) inductionHypothesis

/-- What sweeps leave of a state. -/
structure Left (before after : World) : Prop where
  now : after.now = before.now
  stored : ∀ entry ∈ after.db.entries.rows, entry ∈ before.db.entries.rows
  pinned : ∀ entry ∈ before.db.entries.rows, entry.pinned = true →
    entry ∈ after.db.entries.rows

theorem Left.refl (world : World) : Left world world :=
  ⟨rfl, fun _ => id, fun _ present _ => present⟩

theorem Left.trans
    {before middle after : World}
    (first : Left before middle) (second : Left middle after) :
    Left before after where
  now := second.now.trans first.now
  stored entry present := first.stored entry (second.stored entry present)
  pinned entry present pinned :=
    second.pinned entry (first.pinned entry present pinned) pinned

theorem Sweeps.left
    {after : World} (sweeps : Sweeps env config.gc world after) :
    Left world after where
  now := sweeps.now
  stored entry present := by
    rw [sweeps.entries] at present
    exact (List.mem_filter.mp present).1
  pinned entry present pinned := by
    rw [sweeps.entries, List.mem_filter]
    refine ⟨present, ?_⟩
    by_contra swept
    simp only [Bool.not_eq_true', Bool.not_eq_false,
      List.contains_iff_mem] at swept
    rw [unpinned_of_swept swept] at pinned
    cases pinned

/-- Once nothing is dead, as many sweeps settle a state as it has unpinned
entries: each of them evicts one of these, or there was nothing to do. -/
theorem run_sweeps_clean
    {count : Nat} (ready : Ready budget world)
    (fit : TtlsFit config.gc world.now) (clean : deadBlobs world.db = [])
    (enough : (unpinned world.db).length ≤ count) :
    ∃ reports after,
      (sweeps config.gc budget count).run (exec env config) world =
        (.done reports, after) ∧
      Ready budget after ∧ Left world after ∧
      Settled config.gc after.now after.db := by
  induction count generalizing world with
  | zero =>
      refine ⟨[], world, rfl, ready, .refl world,
        (@settled_iff env _ _ _ fit).mpr ⟨?_, clean⟩⟩
      have none := List.length_eq_zero_iff.mp (Nat.le_zero.mp enough)
      rw [List.eq_nil_iff_forall_not_mem]
      intro entry swept
      have valid := sweptEntries_valid env config.gc world.now world.db
      have among : entry ∈ unpinned world.db :=
        List.mem_filter.mpr ⟨valid.stored entry swept,
          decide_eq_true (unpinned_of_swept swept)⟩
      rw [none] at among
      cases among
  | succ count inductionHypothesis =>
      by_cases swept : sweptEntries env config.gc world.now world.db = []
      · have settled := (@settled_iff env _ _ _ fit).mpr ⟨swept, clean⟩
        exact ⟨_, world, run_sweeps_settled ready.unlocked
          (Nat.zero_lt_of_lt ready.enough) fit settled _, ready, .refl world,
          settled⟩
      · obtain ⟨rep, middle, ran, readyAfter, done⟩ :=
          @run_sweep_ready env config budget world ready
        have fewer := done.unpinned_lt swept
        obtain ⟨later, after, ranLater, readyLast, left, settled⟩ :=
          inductionHypothesis readyAfter (by rwa [done.now]) done.dead
            (by omega)
        exact ⟨_, after, run_sweeps_succ ran ranLater, readyLast,
          done.left.trans left, settled⟩

/-- Sweeps that nothing interrupts settle the store: after more of them than
there are unpinned entries nothing is expired, every quota is met or has only
pinned entries left, no blob is dead, and further sweeps evict nothing, free
nothing and change nothing.  No pinned entry is lost on the way. -/
theorem sweeps_converge
    (unlocked : world.gcRunning = false) (counted : Counted world.db)
    (fit : TtlsFit config.gc world.now)
    (budgeted : world.db.blobs.rows.length < budget) {count : Nat}
    (enough : (unpinned world.db).length < count) :
    ∃ reports after,
      (sweeps config.gc budget count).run (exec env config) world =
        (.done reports, after) ∧
      Settled config.gc world.now after.db ∧
      (∀ entry ∈ after.db.entries.rows, entry ∈ world.db.entries.rows) ∧
      (∀ entry ∈ world.db.entries.rows, entry.pinned = true →
        entry ∈ after.db.entries.rows) ∧
      ∀ further, (sweeps config.gc budget further).run (exec env config)
        after = (.done (List.replicate further
          ⟨0, 0, 0, Blobs.totalSize after.db⟩), after) := by
  obtain ⟨count, rfl⟩ := Nat.exists_eq_add_one.mpr (Nat.zero_lt_of_lt enough)
  obtain ⟨rep, middle, ran, ready, done⟩ :=
    @run_sweep_ready env config budget world ⟨unlocked, counted, budgeted⟩
  have few := done.unpinned_le
  obtain ⟨later, after, ranLater, readyLast, left, settled⟩ :=
    @run_sweeps_clean env config budget middle count ready
      (by rwa [done.now]) done.dead (by omega)
  have kept := done.left.trans left
  rw [kept.now] at settled
  refine ⟨_, after, run_sweeps_succ ran ranLater, settled, kept.stored,
    kept.pinned, run_sweeps_settled readyLast.unlocked
      (Nat.zero_lt_of_lt budgeted) ?_ ?_⟩
  · rwa [kept.now]
  · rwa [kept.now]

end Sweeps

/-- Two entries that share a blob of three bytes. -/
def sharing : World :=
  (Program.run (exec Sample.env (Sample.config 2)) (do
    let _ ← transact (.projectsCreate "acme" none none)
    let _ ← transact (.entriesUpsert 1 .sstate "first" (Sample.sha256 [97]) 3)
    let _ ← transact (.entriesUpsert 1 .sstate "second" (Sample.sha256 [97]) 3)
    pure ()) (World.initial 1000)).2

/-- One sweep for a quota of two bytes leaves three; three sweeps meet it. -/
theorem sweeps_converge_sharing :
    ∃ reports after,
      (sweeps (Sample.config 2).gc 2 3).run
          (exec Sample.env (Sample.config 2)) sharing = (.done reports, after) ∧
      (Blobs.totalSize after.db ≤ 2 ∨
        ∀ entry ∈ after.db.entries.rows, entry.pinned = true) := by
  obtain ⟨reports, after, ran, settled, -⟩ :=
    @sweeps_converge Sample.env (Sample.config 2) 2 sharing
      (by decide +kernel) (by unfold Counted; decide +kernel)
      { seconds := by intro kind; cases kind <;> decide
        above := by intro kind; cases kind <;> decide +kernel
        below := by intro kind; cases kind <;> decide +kernel }
      (by decide +kernel) 3 (by decide +kernel)
  exact ⟨reports, after, ran, settled.fits⟩

end Convergence

end Marmotte
