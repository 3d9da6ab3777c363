import Marmotte.ConfigArithmetic
import Marmotte.Frames
import Mathlib.Data.Int.ModEq

/-!
# What a sweep evicts and reports

The TTL phase against the rule that the documentation gives for it, and the
balance between the report of a whole sweep and the state that it leaves.
-/

namespace Marmotte

open Effects Tables

namespace SweepReport

open Db GcSvc ConfigArithmetic

/-! ## The counters of a report -/

/-- The report counts these evictions on top of the earlier ones.  Sizes are
added as unsigned numbers of 64 bits. -/
structure Adds (before after : GcReport) (victims : List Entry) : Prop where
  entries : after.evictedEntries = before.evictedEntries + victims.length
  wrapped : after.evictedBytes ≡
    before.evictedBytes + sizes victims [ZMOD 2 ^ 64]
  bytes : (∀ entry ∈ victims,
      0 ≤ entry.sizeBytes ∧ entry.sizeBytes < 2 ^ 63) →
    (after.evictedBytes : Int) = before.evictedBytes + sizes victims

/-- The effective time to live of an entry: that of its project, or the default
of its kind. -/
def effectiveTtl (config : GcConfig) (project : Project) (kind : Kind) : Int :=
  match project.ttlSeconds with
  | some ttl => ttl
  | none => (ttlDays config kind * 86400 : Nat)

/-- An unpinned entry that was not accessed within its time to live. -/
def Expired
    (config : GcConfig) (now : Int) (db : Db) (entry : Entry) : Prop :=
  entry.pinned = false ∧ ∃ project ∈ db.projects.rows,
    project.id = entry.projectId ∧
      entry.lastAccessed < now - effectiveTtl config project entry.kind

instance (config : GcConfig) (now : Int) (db : Db) (entry : Entry) :
    Decidable (Expired config now db entry) :=
  inferInstanceAs (Decidable (_ ∧ _))

/-- The entries that have expired. -/
def expired (config : GcConfig) (now : Int) (db : Db) : List Entry :=
  db.entries.rows.filter fun entry => decide (Expired config now db entry)

/-- The seconds of the default times to live and the cutoffs are `i64`. -/
structure TtlsFit (config : GcConfig) (now : Int) : Prop where
  seconds : ∀ kind, ttlDays config kind * 86400 < 2 ^ 63
  above : ∀ kind, -2 ^ 63 ≤ now - (ttlDays config kind * 86400 : Nat)
  below : ∀ kind, now - (ttlDays config kind * 86400 : Nat) < 2 ^ 63

theorem TtlsFit.cutoff
    {config : GcConfig} {now : Int} (fit : TtlsFit config now) (kind : Kind) :
    subI64 now (defaultSecs config kind) =
      now - (ttlDays config kind * 86400 : Nat) := by
  have secs : defaultSecs config kind = (ttlDays config kind * 86400 : Nat) := by
    rw [defaultSecs_eq]
    exact (seconds_eq_iff _).mpr (fit.seconds kind)
  rw [secs]
  exact subI64_of_fits (fit.above kind) (fit.below kind)

/-- The two comparisons of the query are the rule. -/
theorem ttlSelects_iff
    {config : GcConfig} {now : Int} (fit : TtlsFit config now) (kind : Kind)
    (project : Project) (entry : Entry) :
    GcQueries.ttlSelects kind now (subI64 now (defaultSecs config kind))
        project entry = true ↔
      entry.kind = kind ∧ entry.pinned = false ∧
        entry.lastAccessed < now - effectiveTtl config project kind := by
  rw [fit.cutoff]
  simp only [GcQueries.ttlSelects, decide_eq_true_eq, effectiveTtl]
  cases project.ttlSeconds with
  | some ttl => simp
  | none =>
      simp only [Option.getD_none, Option.isSome_none, Bool.false_eq_true,
        false_or]
      constructor
      · rintro ⟨sameKind, unpinned, -, old⟩
        exact ⟨sameKind, unpinned, old⟩
      · rintro ⟨sameKind, unpinned, old⟩
        exact ⟨sameKind, unpinned, by omega, old⟩

theorem mem_ttlVictims_iff
    {env : Env} {config : GcConfig} {now : Int} (fit : TtlsFit config now)
    {kind : Kind} {db : Db} {entry : Entry} :
    entry ∈ ttlVictims env config now kind db ↔
      entry ∈ db.entries.rows ∧ entry.kind = kind ∧
        Expired config now db entry := by
  simp only [ttlVictims, Env.mem_scan, GcQueries.expired, List.mem_filter,
    List.any_eq_true, Bool.and_eq_true, decide_eq_true_eq,
    ttlSelects_iff fit]
  constructor
  · rintro ⟨present, project, stored, owner, rfl, unpinned, old⟩
    exact ⟨present, rfl, unpinned, project, stored, owner, old⟩
  · rintro ⟨present, rfl, unpinned, project, stored, owner, old⟩
    exact ⟨present, project, stored, owner, rfl, unpinned, old⟩

/-- The entries that the two rounds of the phase evict. -/
def ttlEvictions
    (env : Env) (config : GcConfig) (now : Int) (db : Db) : List Entry :=
  let first := ttlVictims env config now .sstate db
  first ++ ttlVictims env config now .downloads (db.evicting first)

theorem ttlEvictions_valid
    (env : Env) (config : GcConfig) (now : Int) (db : Db) :
    Victims db (ttlEvictions env config now db) :=
  (ttlVictims_valid env config now .sstate db).append
    (ttlVictims_valid env config now .downloads _)

/-- The phase evicts the expired entries, each once. -/
theorem ttlEvictions_perm
    (env : Env) {config : GcConfig} {now : Int} (fit : TtlsFit config now)
    (db : Db) :
    (ttlEvictions env config now db).Perm (expired config now db) := by
  have valid := ttlEvictions_valid env config now db
  refine (List.perm_ext_iff_of_nodup valid.distinct
    (db.entries.nodup.filter _)).mpr fun entry => ?_
  have first := evicting_spec (ttlVictims_valid env config now .sstate db)
  have sameRule : Expired config now (db.evicting
      (ttlVictims env config now .sstate db)) entry ↔
        Expired config now db entry := by
    rw [Expired, Expired, first.projects]
  rw [ttlEvictions, List.mem_append, mem_ttlVictims_iff fit,
    mem_ttlVictims_iff fit, sameRule, first.rows, List.mem_filter,
    List.mem_filter, decide_eq_true_eq]
  constructor
  · rintro (⟨present, -, aged⟩ | ⟨⟨present, -⟩, -, aged⟩) <;>
      exact ⟨present, aged⟩
  · rintro ⟨present, aged⟩
    cases sort : entry.kind with
    | sstate => exact .inl ⟨present, rfl, aged⟩
    | downloads =>
        refine .inr ⟨⟨present, ?_⟩, rfl, aged⟩
        have other : entry ∉ ttlVictims env config now .sstate db := by
          rw [mem_ttlVictims_iff fit, sort]
          simp
        simp [other]

theorem sizes_perm
    {first second : List Entry} (permuted : first.Perm second) :
    sizes first = sizes second :=
  (permuted.map _).sum_eq

theorem Adds.perm
    {before after : GcReport} {victims listed : List Entry}
    (adds : Adds before after victims) (permuted : victims.Perm listed) :
    Adds before after listed where
  entries := by rw [adds.entries, permuted.length_eq]
  wrapped := by
    rw [← sizes_perm permuted]
    exact adds.wrapped
  bytes fits := by
    rw [← sizes_perm permuted]
    exact adds.bytes fun entry member =>
      fits entry (permuted.mem_iff.mp member)

/-- A project with two entries, the first of which is a hundred days old. -/
def aged : World :=
  (Program.run (exec Sample.env (Sample.config 1024)) (do
    let _ ← transact (.projectsCreate "acme" none none)
    let _ ← transact (.entriesUpsert 1 .sstate "first" (Sample.sha256 [97]) 1)
    Program.perform (Call.tick 8640000)
    let _ ← transact (.entriesUpsert 1 .sstate "second" (Sample.sha256 [98]) 1)
    pure ()) (World.initial 1000)).2

/-- All entries that the phases evict, in the order in which they go. -/
def sweptEntries
    (env : Env) (config : GcConfig) (now : Int) (db : Db) : List Entry :=
  let aged := ttlDb env config now db
  ttlEvictions env config now db ++
    loopVictims (Projects.list aged) aged ++
      globalVictims config (quotaDb aged)

theorem evictedDb_eq
    (env : Env) (config : GcConfig) (now : Int) (db : Db) :
    evictedDb env config now db =
      db.evicting (sweptEntries env config now db) := by
  rw [sweptEntries, evicting_append, evicting_append, ttlEvictions,
    evicting_append, evictedDb, globalDb]
  rw [quotaDb_eq (ttlDb env config now db)]
  rfl

theorem sweptEntries_valid
    (env : Env) (config : GcConfig) (now : Int) (db : Db) :
    Victims db (sweptEntries env config now db) := by
  have aged : db.evicting (ttlEvictions env config now db) =
      ttlDb env config now db := by
    rw [ttlEvictions, evicting_append]
    rfl
  refine ((ttlEvictions_valid env config now db).append ?_).append ?_
  · rw [aged]
    exact loopVictims_valid _ _
  · rw [evicting_append, aged, ← quotaDb_eq]
    exact globalVictims_valid _ _

theorem evictedReport_eq
    (env : Env) (config : GcConfig) (now : Int) (db : Db) :
    evictedReport env config now db =
      counted .default (sweptEntries env config now db) := by
  simp only [evictedReport, sweptEntries, ttlEvictions, counted_append]

/-- The row of every entry counts at least the entries that point to it. -/
def Counted (db : Db) : Prop :=
  ∀ entry ∈ db.entries.rows,
    db.pointersTo entry.blobHash ≤ db.refcount entry.blobHash

/-- Evictions take references and counts together, so they leave no referenced
row dead. -/
theorem Counted.deadUnreferenced
    {db : Db} (counted : Counted db) {victims : List Entry}
    (valid : Victims db victims) :
    DeadUnreferenced (db.evicting victims) := by
  have evicted := evicting_spec valid
  intro blob dead references
  obtain ⟨present, zero⟩ := List.mem_filter.mp dead
  obtain ⟨entry, stored, same⟩ := evicted.references references
  have before := counted entry stored
  have kept := evicted.surplus blob.hash
  have pointed := references_iff.mp references
  have count := refcount_of_mem present
  rw [of_decide_eq_true zero] at count
  rw [same] at before
  simp only [Db.surplus] at kept
  omega

/-- The phases of a sweep before its cleanup. -/
def evictionPhases (config : GcConfig) : App GcReport := do
  let rep ← ttlPhase config false .default
  let rep ← quotaPhase false rep
  globalPhase config false rep

theorem run_evictionPhases
    (env : Env) (config : Config) (world : World) :
    (evictionPhases config.gc).run (exec env config) world =
      (.done (evictedReport env config.gc world.now world.db),
        { world with db := evictedDb env config.gc world.now world.db }) := by
  have ranTtl := @run_ttlPhase_counted env config .default world
  have ranQuota (rep : GcReport) := @run_quotaPhase_counted env config rep
    { world with db := ttlDb env config.gc world.now world.db }
  unfold evictionPhases
  refine (Program.run_bind_done ranTtl _).trans ?_
  refine (Program.run_bind_done (ranQuota _) _).trans ?_
  exact run_globalPhase_counted _ _

/-- The balance between a report and the states before and after the sweep. -/
structure Balanced (before after : Db) (rep : GcReport) : Prop where
  entries : before.entries.rows.length =
    after.entries.rows.length + rep.evictedEntries
  wrapped : sizes before.entries.rows ≡
    sizes after.entries.rows + rep.evictedBytes [ZMOD 2 ^ 64]
  bytes : (∀ entry ∈ before.entries.rows,
      0 ≤ entry.sizeBytes ∧ entry.sizeBytes < 2 ^ 63) →
    sizes before.entries.rows =
      sizes after.entries.rows + rep.evictedBytes
  blobs : before.blobs.rows.length =
    after.blobs.rows.length + rep.freedBlobs
  usage : rep.usageGlobalBytes = (after.blobs.rows.map Blob.sizeBytes).sum

end SweepReport

end Marmotte
