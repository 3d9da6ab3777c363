import Marmotte.Operations
import Marmotte.Sequential.Sweep
import Mathlib.Algebra.Order.BigOperators.Group.List

/-!
# The global quota

The global phase measures the blob rows and subtracts the sizes of the entries
that it evicts.  With blobs that several entries share this subtracts bytes that
stay; with blobs that no entry points to any more it evicts entries for bytes
that the cleanup frees anyway.  Both ways of going wrong are described exactly,
as relations between the two ways of counting in the state before the phase.
-/

namespace Marmotte

open Effects

namespace GlobalQuota

open Custody Operation GcSvc Db

/-! ## Two ways of counting -/

/-- The sizes of the blobs that have no reference left once some entries are
evicted. -/
def freed (db : Db) (victims : List Entry) : Int :=
  ((db.blobs.rows.filter fun blob =>
    decide (blob.refcount = (pointers victims blob.hash : Int))).map
      Blob.sizeBytes).sum

/-- The sizes of the distinct blobs that entries point to. -/
def referencedSize (db : Db) : Int :=
  ((db.blobs.rows.filter fun blob =>
    decide (db.References blob.hash)).map Blob.sizeBytes).sum

/-- The least recently used unpinned entries, as many as given. -/
def oldest (db : Db) (count : Nat) : List Entry :=
  (GcQueries.globalLru db).take count

/-- Whenever the sizes of the oldest entries, short of all, cover what exceeds
the quota, so do the blobs that are freed with them. -/
def SizesAreFreed (quota : Int) (db : Db) : Prop :=
  ∀ count < (GcQueries.globalLru db).length,
    Blobs.totalSize db - sizes (oldest db count) ≤ quota →
      Blobs.totalSize db - freed db (oldest db count) ≤ quota

/-- Whenever the blobs that the other entries point to fit in the quota, the
sizes of the oldest entries cover what exceeds it. -/
def SizesAreCounted (quota : Int) (db : Db) : Prop :=
  ∀ count < (GcQueries.globalLru db).length,
    referencedSize (db.evicting (oldest db count)) ≤ quota →
      Blobs.totalSize db - sizes (oldest db count) ≤ quota

instance (quota : Int) (db : Db) : Decidable (SizesAreFreed quota db) :=
  inferInstanceAs (Decidable (∀ count < (GcQueries.globalLru db).length, _))

instance (quota : Int) (db : Db) : Decidable (SizesAreCounted quota db) :=
  inferInstanceAs (Decidable (∀ count < (GcQueries.globalLru db).length, _))

theorem sum_filter_add
    (blobs : List Blob) (selects : Blob → Bool) :
    ((blobs.filter selects).map Blob.sizeBytes).sum +
      ((blobs.filter fun blob => !selects blob).map Blob.sizeBytes).sum =
        (blobs.map Blob.sizeBytes).sum := by
  have permuted := List.filter_append_perm selects blobs
  rw [← (permuted.map Blob.sizeBytes).sum_eq, List.map_append,
    List.sum_append]

/-- What a cleanup leaves of the measured size. -/
theorem totalSize_cleaned
    {before after : World} {db : Db} {victims : List Entry}
    (evicted : Evicted db before.db victims)
    (cleaned : Cleaned before after) :
    Blobs.totalSize after.db = Blobs.totalSize db - freed db victims := by
  have total := sum_filter_add db.blobs.rows fun blob =>
    decide (blob.refcount = (pointers victims blob.hash : Int))
  have kept : after.db.blobs.rows.map Blob.sizeBytes =
      (db.blobs.rows.filter fun blob =>
        !decide (blob.refcount = (pointers victims blob.hash : Int))).map
          Blob.sizeBytes := by
    rw [cleaned.blobs, evicted.blobs, List.filter_map, List.map_map]
    congr 1
    apply List.filter_congr
    intro blob _
    simp [sub_eq_zero]
  rw [Blobs.totalSize, Blobs.totalSize, kept, freed]
  omega

/-! ## The state in which the global phase starts -/

/-- The phases before the global one. -/
def earlierPhases (config : GcConfig) : App GcReport := do
  let rep ← ttlPhase config false .default
  quotaPhase false rep

/-- The earlier phases return, and a sweep goes on with the global phase in the
state that they leave. -/
theorem run_earlierPhases
    {env : Env} {config : Config} (world : World) (rounds : Nat) :
    ∃ rep, (earlierPhases config.gc).run (exec env config) world =
        (.done rep,
          { world with
            db := quotaDb (ttlDb env config.gc world.now world.db) }) ∧
      (globalPhase config.gc false rep).trace (exec env config)
          { world with
            db := quotaDb (ttlDb env config.gc world.now world.db) } <:+:
        (sweep config.gc rounds false).trace (exec env config) world := by
  obtain ⟨aged, ranTtl⟩ := @run_ttlPhase env config .default world
  obtain ⟨limited, ranQuota⟩ := @run_quotaPhase env config aged
    { world with db := ttlDb env config.gc world.now world.db }
  refine ⟨limited, (Program.run_bind_done ranTtl _).trans ranQuota, ?_⟩
  unfold sweep
  rw [Program.trace_bind_done ranTtl, Program.trace_bind_done ranQuota,
    Program.trace_bind]
  refine List.IsInfix.trans ?_ (List.suffix_append _ _).isInfix
  refine List.IsInfix.trans ?_ (List.suffix_append _ _).isInfix
  exact (List.prefix_append _ _).isInfix

/-- The calls of the phases are among those of the sweep below the mutex. -/
theorem sweep_in_run
    {env : Env} {config : Config} {world : World} (rounds : Nat)
    (unlocked : world.gcRunning = false) :
    (sweep config.gc rounds false).trace (exec env config)
        { world with gcRunning := true } <:+:
      (GcSvc.run config.gc rounds false).trace (exec env config) world := by
  have locked : exec env config .gcLock world =
      some (.ok (), { world with gcRunning := true }) := by
    simp [exec, unlocked]
  unfold GcSvc.run
  rw [Program.trace_bind_done (Program.run_perform locked)]
  exact (Program.trace_ensuring _ _ _ _).isInfix.trans
    (List.suffix_append _ _).isInfix

/-- Evictions keep the tallies. -/
theorem tallied_evictedFrom
    {setting : Setting} {db after : Db}
    (tallied : Tallied setting db) (left : EvictedFrom db after) :
    Tallied setting after := by
  obtain ⟨victims, valid, rfl⟩ := left
  have evicted := evicting_spec valid
  refine ⟨evicted.covered tallied.covered, ?_, ?_⟩
  · intro hash size sized
    rw [evicted.storedSize] at sized
    exact tallied.blobs hash size sized
  · intro entry present
    rw [evicted.rows] at present
    exact tallied.entries entry (List.mem_filter.mp present).1

theorem size_nonneg_of_describes
    {setting : Setting} {hash : String} {size : Int}
    (described : Describes setting hash size) : 0 ≤ size := by
  obtain ⟨content, -, -, rfl⟩ := described
  exact Int.natCast_nonneg _

section Counting

variable {setting : Setting} {db : Db} {quota : Int}

theorem blob_size_nonneg
    (tallied : Tallied setting db) {blob : Blob}
    (stored : blob ∈ db.blobs.rows) : 0 ≤ blob.sizeBytes := by
  apply size_nonneg_of_describes (tallied.blobs blob.hash blob.sizeBytes _)
  rw [storedSize, Blobs.get_eq_some.mpr ⟨stored, rfl⟩]
  rfl

theorem oldest_stored
    {count : Nat} {entry : Entry} (listed : entry ∈ oldest db count) :
    entry ∈ db.entries.rows :=
  (globalLru_valid db).stored entry (List.mem_of_mem_take listed)

/-- Evicting more entries frees no less. -/
theorem freed_mono
    (tallied : Tallied setting db) {fewer more : Nat} (small : fewer ≤ more) :
    freed db (oldest db fewer) ≤ freed db (oldest db more) := by
  have valid := (globalLru_valid db).of_sublist
    (List.take_sublist more (GcQueries.globalLru db))
  have below (hash : String) :
      pointers (oldest db fewer) hash ≤ pointers (oldest db more) hash := by
    apply List.Sublist.countP_le
    exact List.take_sublist_take_left small
  have above (hash : String) :
      pointers (oldest db more) hash ≤ db.pointersTo hash :=
    (List.subperm_of_subset valid.distinct valid.stored).countP_le _
  have nested : (db.blobs.rows.filter fun blob =>
      decide (blob.refcount =
        (pointers (oldest db fewer) blob.hash : Int))) =
      (db.blobs.rows.filter fun blob =>
        decide (blob.refcount =
          (pointers (oldest db more) blob.hash : Int))).filter fun blob =>
            decide (blob.refcount =
              (pointers (oldest db fewer) blob.hash : Int)) := by
    rw [List.filter_filter]
    apply List.filter_congr
    intro blob stored
    have covered := covered_iff.mp tallied.covered blob stored
    have counts := below blob.hash
    have total := above blob.hash
    rw [Bool.eq_iff_iff, Bool.and_eq_true, decide_eq_true_eq,
      decide_eq_true_eq]
    omega
  rw [freed, nested]
  refine (List.filter_sublist.map Blob.sizeBytes).sum_le_sum ?_
  intro size listed
  obtain ⟨blob, kept, rfl⟩ := List.mem_map.mp listed
  exact blob_size_nonneg tallied (List.mem_filter.mp kept).1

/-- The sizes of more entries sum up to no less. -/
theorem sizes_mono
    (tallied : Tallied setting db) {fewer more : Nat} (small : fewer ≤ more) :
    sizes (oldest db fewer) ≤ sizes (oldest db more) := by
  refine ((List.take_sublist_take_left small).map
    Entry.sizeBytes).sum_le_sum ?_
  intro size listed
  obtain ⟨entry, present, rfl⟩ := List.mem_map.mp listed
  exact size_nonneg_of_describes
    (tallied.entries entry (oldest_stored present))

/-- How many entries the global phase evicts. -/
theorem lt_globalVictims
    {config : GcConfig} {count : Nat}
    (tallied : Tallied setting db) :
    count < (globalVictims config db).length ↔
      count < (GcQueries.globalLru db).length ∧
        asI64 config.globalQuotaBytes <
          Blobs.totalSize db - sizes (oldest db count) := by
  rw [globalVictims, lt_lruVictims_length]
  constructor
  · rintro ⟨present, exceeding⟩
    exact ⟨present, exceeding count (Nat.le_refl _)⟩
  · rintro ⟨present, exceeding⟩
    refine ⟨present, fun fewer small => ?_⟩
    have less := sizes_mono tallied small
    rw [oldest, oldest] at less
    rw [oldest] at exceeding
    omega

theorem globalVictims_eq_oldest (config : GcConfig) (db : Db) :
    globalVictims config db =
      oldest db (globalVictims config db).length :=
  lruVictims_eq_take _ _ _

/-- Every entry that the phase leaves is pinned when it has taken all the
others. -/
theorem pinned_iff
    {config : GcConfig} {after : Db}
    (evicted : Evicted db after (globalVictims config db)) :
    (∀ entry ∈ after.entries.rows, entry.pinned = true) ↔
      (globalVictims config db).length =
        (GcQueries.globalLru db).length := by
  constructor
  · intro pinned
    have taken := lruVictims_initial (asI64 config.globalQuotaBytes)
      (GcQueries.globalLru db) (Blobs.totalSize db)
    refine Nat.le_antisymm taken.length_le ?_
    refine (List.subperm_of_subset (globalLru_valid db).distinct ?_).length_le
    intro entry present
    by_contra kept
    have stays : entry ∈ after.entries.rows := by
      rw [evicted.rows, List.mem_filter]
      exact ⟨(mem_globalLru.mp present).1, by simp [kept]⟩
    have free := (mem_globalLru.mp present).2
    rw [pinned entry stays] at free
    cases free
  · intro all entry stays
    rw [evicted.rows, List.mem_filter] at stays
    by_contra free
    have present := mem_globalLru.mpr ⟨stays.1, by simpa using free⟩
    have taken : entry ∈ globalVictims config db := by
      rw [globalVictims_eq_oldest, all, oldest, List.take_length]
      exact present
    simp [taken] at stays

/-- The blobs that remain fit or no candidate remains, exactly if the sizes of
the oldest entries are freed with them. -/
theorem fits_or_all_iff
    {config : GcConfig} (tallied : Tallied setting db) :
    (Blobs.totalSize db - freed db (globalVictims config db) ≤
        asI64 config.globalQuotaBytes ∨
      (globalVictims config db).length =
        (GcQueries.globalLru db).length) ↔
      SizesAreFreed (asI64 config.globalQuotaBytes) db := by
  constructor
  · intro holds count short covers
    have notTaken : ¬count < (globalVictims config db).length := by
      rw [lt_globalVictims tallied]
      omega
    rcases holds with fits | all
    · rw [globalVictims_eq_oldest] at fits
      have more := freed_mono tallied (Nat.le_of_not_lt notTaken)
      omega
    · omega
  · intro condition
    rcases lruVictims_stopped (asI64 config.globalQuotaBytes)
      (GcQueries.globalLru db) (Blobs.totalSize db) with all | stopped
    · right
      rw [globalVictims, all]
    · have taken := lruVictims_initial (asI64 config.globalQuotaBytes)
        (GcQueries.globalLru db) (Blobs.totalSize db)
      rcases Nat.lt_or_eq_of_le taken.length_le with short | all
      · left
        have stopped : Blobs.totalSize db -
            sizes (globalVictims config db) ≤
              asI64 config.globalQuotaBytes := stopped
        rw [globalVictims_eq_oldest] at stopped ⊢
        exact condition _ short stopped
      · exact .inr all

/-- The phase evicts an entry only while the referenced blobs exceed the quota,
exactly if the sizes of the oldest entries count everything that is not
referenced. -/
theorem needed_iff
    {config : GcConfig} (tallied : Tallied setting db) :
    (∀ count < (globalVictims config db).length,
      asI64 config.globalQuotaBytes <
        referencedSize (db.evicting (oldest db count))) ↔
      SizesAreCounted (asI64 config.globalQuotaBytes) db := by
  constructor
  · intro needed count short fits
    by_contra exceeding
    have taken : count < (globalVictims config db).length := by
      rw [lt_globalVictims tallied]
      omega
    have exceeds := needed count taken
    omega
  · intro condition count taken
    rw [lt_globalVictims tallied] at taken
    have covers := condition count taken.1
    omega

end Counting

/-! ## Whether the quota is enforced -/

/-- After a sweep that runs alone the blobs fit in the quota or every entry is
pinned, exactly if the sizes that the global phase subtracted were freed. -/
theorem quota_enforced_iff
    [DecidableEq ι]
    (env : Env) (config : Config) (budget : Nat) (now : Int)
    (operations : ι → Operation)
    (pool : Pool ι Call Call.Reply CoreError (Option Response) World Local)
    (reached : Reachable env config budget now operations pool)
    (unlocked : pool.world.gcRunning = false)
    (small : config.gc.globalQuotaBytes < 2 ^ 63)
    (rounds : Nat) (enough : pool.world.db.blobs.rows.length < rounds) :
    ∃ early between rep after,
      (earlierPhases config.gc).run (exec env config)
        { pool.world with gcRunning := true } = (.done early, between) ∧
      (GcSvc.run config.gc rounds false).run (exec env config) pool.world =
        (.done rep, after) ∧
      rep.usageGlobalBytes = (after.db.blobs.rows.map Blob.sizeBytes).sum ∧
      ((rep.usageGlobalBytes ≤ config.gc.globalQuotaBytes ∨
          ∀ entry ∈ after.db.entries.rows, entry.pinned = true) ↔
        SizesAreFreed config.gc.globalQuotaBytes between.db) := by
  have tallied := tallied_reachable reached
  obtain ⟨early, ranEarlier, -⟩ := @run_earlierPhases env config
    { pool.world with gcRunning := true } rounds
  obtain ⟨rep, after, ran, cleaned, reported⟩ :=
    @run_run env config rounds pool.world unlocked tallied.covered enough
  refine ⟨early, _, rep, after, ranEarlier, ran, reported, ?_⟩
  rw [reported]
  generalize middle : quotaDb (ttlDb env config.gc pool.world.now
    pool.world.db) = db
  have talliedMiddle : Tallied (setting env (uploaded operations)) db :=
    middle ▸ tallied_evictedFrom tallied
      (ttlDb_evictedFrom env config.gc _ _).quotaDb
  have same : evictedDb env config.gc pool.world.now pool.world.db =
      db.evicting (globalVictims config.gc db) := by
    rw [evictedDb, middle, globalDb]
  rw [same] at cleaned
  have evicted := evicting_spec (globalVictims_valid config.gc db)
  have remaining : after.db.entries =
      (db.evicting (globalVictims config.gc db)).entries := cleaned.entries
  rw [totalSize_cleaned evicted cleaned, remaining, pinned_iff evicted,
    ← asI64_of_lt small]
  exact fits_or_all_iff talliedMiddle

/-- What a sweep that returns reports and leaves. -/
def swept (quota rounds : Nat) (world : World) : Option (GcReport × World) :=
  match (GcSvc.run (Sample.config quota).gc rounds false).run
      (exec Sample.env (Sample.config quota)) world with
  | (.done rep, after) => some (rep, after)
  | _ => none

theorem swept_spec
    {quota rounds : Nat} {world after : World} {rep : GcReport}
    (returned : swept quota rounds world = some (rep, after)) :
    (GcSvc.run (Sample.config quota).gc rounds false).run
      (exec Sample.env (Sample.config quota)) world = (.done rep, after) := by
  unfold swept at returned
  split at returned
  · rename_i ran
    cases returned
    exact ran
  · cases returned

/-- Two projects with five entries.  They share one byte under one path and two
bytes under another; the last path holds three bytes that have replaced one. -/
def crowded : Fin 8 → Operation
  | 0 => .createProject root "acme" none none
  | 1 => .createProject root "beta" none none
  | 2 => .put ⟨acme, .sstate, "acme", "first", [.ok [97]]⟩
  | 3 => .put ⟨beta, .sstate, "beta", "first", [.ok [97]]⟩
  | 4 => .put ⟨acme, .sstate, "acme", "second", [.ok [98]]⟩
  | 5 => .put ⟨acme, .sstate, "acme", "second", [.ok [97, 98, 99]]⟩
  | 6 => .put ⟨acme, .sstate, "acme", "third", [.ok [101, 102]]⟩
  | 7 => .put ⟨beta, .sstate, "beta", "third", [.ok [101, 102]]⟩

/-- The operations one after the other; from the fifth on the uploads also
spawn a sweep. -/
def crowdedSteps : List (Fin 8) :=
  [0, 1].flatMap (List.replicate 3) ++ [2, 3].flatMap (List.replicate 11) ++
    [4, 5, 6, 7].flatMap (List.replicate 12)

/-- With a quota of two bytes the sweep evicts three of the five entries and
frees the five bytes that exceed it: one that two of the entries shared, three
that only one had and one that was replaced before. -/
theorem quota_enforced_iff_crowded :
    ∃ pool : Pool (Fin 8) Call Call.Reply CoreError (Option Response) World
        Local,
      pool.world.db.entries.rows.length = 5 ∧
      Blobs.totalSize pool.world.db = 7 ∧
      ∃ rep after,
        (GcSvc.run (Sample.config 2).gc 5 false).run
          (exec Sample.env (Sample.config 2)) pool.world =
            (.done rep, after) ∧
        rep.evictedEntries = 3 ∧
        (rep.usageGlobalBytes ≤ 2 ∨
          ∀ entry ∈ after.db.entries.rows, entry.pinned = true) := by
  have ran : ((Pool.replay
      (protocol (setting Sample.env (uploaded crowded)))
      (exec Sample.env (Sample.config 2)) (fun _ _ _ => true) crowdedSteps
      (launch Sample.env (Sample.config 2) 2 1000 crowded)).any
        fun pool =>
          decide (pool.world.db.entries.rows.length = 5) &&
          decide (Blobs.totalSize pool.world.db = 7) &&
          !pool.world.gcRunning &&
          decide (pool.world.db.blobs.rows.length < 5) &&
          (swept 2 5 pool.world).any (fun outcome =>
            decide (outcome.1.evictedEntries = 3)) &&
          decide (SizesAreFreed 2
            ((earlierPhases (Sample.config 2).gc).run
              (exec Sample.env (Sample.config 2))
              { pool.world with gcRunning := true }).2.db)) = true := by
    decide +kernel
  rw [Option.any_eq_true] at ran
  obtain ⟨pool, replayed, outcome⟩ := ran
  simp only [Bool.and_eq_true, Bool.not_eq_true', decide_eq_true_eq,
    Option.any_eq_true, Prod.exists] at outcome
  obtain ⟨⟨⟨⟨⟨stored, size⟩, unlocked⟩, enough⟩, reported, left, returned,
    evicted⟩, condition⟩ := outcome
  obtain ⟨early, between, rep, after, ranEarlier, ran, -, enforced⟩ :=
    quota_enforced_iff Sample.env (Sample.config 2) 2 1000 crowded pool
      (Pool.reaches_of_free_replay (fun _ _ _ _ => .exact) replayed)
      unlocked (by decide) 5 enough
  rw [ranEarlier] at condition
  obtain ⟨⟨⟩, rfl⟩ := Prod.mk.inj ((swept_spec returned).symm.trans ran)
  exact ⟨pool, stored, size, _, _, ran, evicted, enforced.mpr condition⟩

/-- The same three bytes under two paths. -/
def shared : Fin 3 → Operation
  | 0 => .createProject root "acme" none none
  | 1 => .put ⟨acme, .sstate, "acme", "first", [.ok [97, 98, 99]]⟩
  | 2 => .put ⟨acme, .sstate, "acme", "second", [.ok [97, 98, 99]]⟩

/-- With a quota of two bytes the sweep evicts one of two entries that share
three bytes, and stops with three bytes and an unpinned entry. -/
theorem shared_blob_exceeds_quota :
    ∃ pool,
      Pool.Reaches (protocol (setting Sample.env (uploaded shared)))
        (exec Sample.env (Sample.config 2)).answers (fun _ _ _ => True)
        (launch Sample.env (Sample.config 2) 3 1000 shared) pool ∧
      pool.world.gcRunning = false ∧
      ∃ rep after,
        (GcSvc.run (Sample.config 2).gc 3 false).run
          (exec Sample.env (Sample.config 2)) pool.world =
            (.done rep, after) ∧
        2 < rep.usageGlobalBytes ∧
        ∃ entry ∈ after.db.entries.rows, entry.pinned = false := by
  have ran : ((Pool.replay
      (protocol (setting Sample.env (uploaded shared)))
      (exec Sample.env (Sample.config 2)) (fun _ _ _ => true)
      (List.replicate 2 0 ++ List.replicate 12 1 ++ List.replicate 12 2)
      (launch Sample.env (Sample.config 2) 3 1000 shared)).any
        fun pool =>
          !pool.world.gcRunning &&
          (swept 2 3 pool.world).any fun outcome =>
            decide (2 < outcome.1.usageGlobalBytes) &&
            outcome.2.db.entries.rows.any fun entry => !entry.pinned) =
        true := by
    decide +kernel
  rw [Option.any_eq_true] at ran
  obtain ⟨pool, replayed, outcome⟩ := ran
  simp only [Bool.and_eq_true, Bool.not_eq_true', Option.any_eq_true,
    List.any_eq_true, decide_eq_true_eq, Prod.exists] at outcome
  obtain ⟨unlocked, rep, after, returned, exceeding, entry, present, free⟩ :=
    outcome
  exact ⟨pool, Pool.reaches_of_free_replay (fun _ _ _ _ => id) replayed,
    unlocked, rep, after, swept_spec returned, exceeding, entry, present,
    free⟩

/-! ## Whether evictions are needed -/

/-- The databases in which entries are about to be deleted. -/
def beforeDeletes
    (events : List (Event Call Call.Reply CoreError World)) : List Db :=
  events.filterMap fun event =>
    match event.request with
    | .db (.entriesDelete _ _) => some event.before.db
    | _ => none

theorem beforeDeletes_append
    (first second : List (Event Call Call.Reply CoreError World)) :
    beforeDeletes (first ++ second) =
      beforeDeletes first ++ beforeDeletes second :=
  List.filterMap_append

theorem beforeDeletes_lruLoop
    {env : Env} {config : Config} {world : World} {entries : List Entry}
    (quota usage : Int) (rep : GcReport)
    (valid : Victims world.db entries) :
    beforeDeletes ((lruLoop false quota (entries.map Entry.candidate) usage
      rep).trace (exec env config) world) =
        (List.range (lruVictims quota entries usage).length).map fun count =>
          world.db.evicting (entries.take count) := by
  induction entries generalizing world usage rep with
  | nil => rfl
  | cons entry rest inductionHypothesis =>
      have present := valid.stored entry List.mem_cons_self
      simp only [List.map_cons, lruLoop, lruVictims]
      split
      · rfl
      · rw [Program.trace_bind_done (run_evict present),
          beforeDeletes_append]
        have first : (evict false entry.candidate).trace (exec env config)
            world = [⟨world, .db (.entriesDelete entry.projectId entry.id),
              .ok (), { world with db := world.db.without entry }⟩] :=
          trace_transact (delete_without present).1
        rw [first, inductionHypothesis _ _ valid.tail, List.length_cons,
          List.range_succ_eq_map, List.map_cons, List.map_map]
        rfl

theorem beforeDeletes_globalPhase
    {env : Env} {config : Config} (rep : GcReport) (world : World) :
    beforeDeletes ((globalPhase config.gc false rep).trace (exec env config)
      world) =
        (List.range (globalVictims config.gc world.db).length).map
          fun count => world.db.evicting (oldest world.db count) := by
  unfold globalPhase
  rw [Program.trace_bind_done (run_transact rfl), beforeDeletes_append,
    trace_transact rfl]
  simp only
  split
  · rename_i fits
    rw [globalVictims, lruVictims_of_le _ fits]
    rfl
  · rw [Program.trace_bind_done (run_transact rfl), beforeDeletes_append,
      trace_transact rfl]
    exact beforeDeletes_lruLoop _ _ rep (globalLru_valid world.db)

/-- During a sweep that runs alone the global phase deletes an entry only while
the referenced blobs exceed the quota, exactly if the sizes of the oldest
entries account for everything that is not referenced. -/
theorem evictions_needed_iff
    [DecidableEq ι]
    (env : Env) (config : Config) (budget : Nat) (now : Int)
    (operations : ι → Operation)
    (pool : Pool ι Call Call.Reply CoreError (Option Response) World Local)
    (reached : Reachable env config budget now operations pool)
    (unlocked : pool.world.gcRunning = false)
    (small : config.gc.globalQuotaBytes < 2 ^ 63) (rounds : Nat) :
    ∃ early between,
      (earlierPhases config.gc).run (exec env config)
        { pool.world with gcRunning := true } = (.done early, between) ∧
      (globalPhase config.gc false early).trace (exec env config) between <:+:
        (GcSvc.run config.gc rounds false).trace (exec env config)
          pool.world ∧
      ((∀ db ∈ beforeDeletes ((globalPhase config.gc false early).trace
          (exec env config) between),
            (config.gc.globalQuotaBytes : Int) < referencedSize db) ↔
        SizesAreCounted config.gc.globalQuotaBytes between.db) := by
  have tallied := tallied_reachable reached
  obtain ⟨early, ranEarlier, partOfSweep⟩ := @run_earlierPhases env config
    { pool.world with gcRunning := true } rounds
  refine ⟨early, _, ranEarlier,
    partOfSweep.trans (sweep_in_run rounds unlocked), ?_⟩
  have talliedMiddle := tallied_evictedFrom tallied
    (ttlDb_evictedFrom env config.gc pool.world.now pool.world.db).quotaDb
  rw [beforeDeletes_globalPhase, ← asI64_of_lt small,
    ← needed_iff talliedMiddle]
  simp only [List.mem_map, List.mem_range, forall_exists_index, and_imp,
    forall_apply_eq_imp_iff₂]

/-- With a quota of two bytes each of the three evictions is needed, although a
replaced byte is still stored. -/
theorem evictions_needed_iff_crowded :
    ∃ pool : Pool (Fin 8) Call Call.Reply CoreError (Option Response) World
        Local,
      pool.world.db.entries.rows.length = 5 ∧
      ∃ early between,
        (earlierPhases (Sample.config 2).gc).run
          (exec Sample.env (Sample.config 2))
          { pool.world with gcRunning := true } = (.done early, between) ∧
        (beforeDeletes ((globalPhase (Sample.config 2).gc false early).trace
          (exec Sample.env (Sample.config 2)) between)).length = 3 ∧
        ∀ db ∈ beforeDeletes ((globalPhase (Sample.config 2).gc false
            early).trace (exec Sample.env (Sample.config 2)) between),
          2 < referencedSize db := by
  have ran : ((Pool.replay
      (protocol (setting Sample.env (uploaded crowded)))
      (exec Sample.env (Sample.config 2)) (fun _ _ _ => true) crowdedSteps
      (launch Sample.env (Sample.config 2) 2 1000 crowded)).any
        fun pool =>
          decide (pool.world.db.entries.rows.length = 5) &&
          !pool.world.gcRunning &&
          decide ((globalVictims (Sample.config 2).gc
            ((earlierPhases (Sample.config 2).gc).run
              (exec Sample.env (Sample.config 2))
              { pool.world with gcRunning := true }).2.db).length = 3) &&
          decide (SizesAreCounted 2
            ((earlierPhases (Sample.config 2).gc).run
              (exec Sample.env (Sample.config 2))
              { pool.world with gcRunning := true }).2.db)) = true := by
    decide +kernel
  rw [Option.any_eq_true] at ran
  obtain ⟨pool, replayed, outcome⟩ := ran
  simp only [Bool.and_eq_true, Bool.not_eq_true', decide_eq_true_eq]
    at outcome
  obtain ⟨⟨⟨stored, unlocked⟩, victims⟩, condition⟩ := outcome
  obtain ⟨early, between, ranEarlier, -, needed⟩ :=
    evictions_needed_iff Sample.env (Sample.config 2) 2 1000 crowded pool
      (Pool.reaches_of_free_replay (fun _ _ _ _ => .exact) replayed)
      unlocked (by decide) 2
  rw [ranEarlier] at victims condition
  refine ⟨pool, stored, early, between, ranEarlier, ?_, needed.mpr condition⟩
  rw [beforeDeletes_globalPhase, List.length_map, List.length_range]
  exact victims

/-- Three bytes that are replaced by one. -/
def replaced : Fin 3 → Operation
  | 0 => .createProject root "acme" none none
  | 1 => .put ⟨acme, .sstate, "acme", "first", [.ok [97, 98, 99]]⟩
  | 2 => .put ⟨acme, .sstate, "acme", "first", [.ok [97]]⟩

/-- With a quota of three bytes the sweep evicts the only entry, of one byte,
for the three bytes that the cleanup is about to free. -/
theorem replaced_blob_costs_entry :
    ∃ pool,
      Pool.Reaches (protocol (setting Sample.env (uploaded replaced)))
        (exec Sample.env (Sample.config 3)).answers (fun _ _ _ => True)
        (launch Sample.env (Sample.config 3) 3 1000 replaced) pool ∧
      pool.world.gcRunning = false ∧
      ∃ early between,
        (earlierPhases (Sample.config 3).gc).run
          (exec Sample.env (Sample.config 3))
          { pool.world with gcRunning := true } = (.done early, between) ∧
        ∃ db ∈ beforeDeletes ((globalPhase (Sample.config 3).gc false
            early).trace (exec Sample.env (Sample.config 3)) between),
          referencedSize db ≤ 3 := by
  have ran : ((Pool.replay
      (protocol (setting Sample.env (uploaded replaced)))
      (exec Sample.env (Sample.config 3)) (fun _ _ _ => true)
      (List.replicate 2 0 ++ List.replicate 12 1 ++ List.replicate 12 2)
      (launch Sample.env (Sample.config 3) 3 1000 replaced)).any
        fun pool =>
          !pool.world.gcRunning &&
          match (earlierPhases (Sample.config 3).gc).run
            (exec Sample.env (Sample.config 3))
            { pool.world with gcRunning := true } with
          | (.done early, between) =>
              (beforeDeletes ((globalPhase (Sample.config 3).gc false
                early).trace (exec Sample.env (Sample.config 3))
                  between)).any fun db => decide (referencedSize db ≤ 3)
          | _ => false) = true := by
    decide +kernel
  rw [Option.any_eq_true] at ran
  obtain ⟨pool, replayed, outcome⟩ := ran
  simp only [Bool.and_eq_true, Bool.not_eq_true'] at outcome
  obtain ⟨unlocked, deletes⟩ := outcome
  split at deletes
  · rename_i early between ranEarlier
    simp only [List.any_eq_true, decide_eq_true_eq] at deletes
    exact ⟨pool, Pool.reaches_of_free_replay (fun _ _ _ _ => id) replayed,
      unlocked, early, between, ranEarlier, deletes⟩
  · cases deletes

end GlobalQuota

end Marmotte
