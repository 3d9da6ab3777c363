import Marmotte.Sample
import Marmotte.Sequential.Sweep
import Marmotte.Sequential.Upload

/-!
# Arithmetic on the configuration

The collector and the upload handler multiply, cast and subtract configured
64-bit values without a check.  The results are those of the integers exactly
for the configurations whose products fit.
-/

namespace Marmotte

open Effects Tables

namespace ConfigArithmetic

open Db GcSvc

/-- The configured time to live of a kind, in days. -/
def ttlDays (config : GcConfig) : Kind → Nat
  | .sstate => config.defaultTtlSstateDays
  | .downloads => config.defaultTtlDownloadsDays

theorem defaultSecs_eq (config : GcConfig) (kind : Kind) :
    defaultSecs config kind =
      asI64 (mulU64 (ttlDays config kind) 86400) := by
  cases kind <;> rfl

/-- The derived values are those of the integers. -/
structure Exact (config : GcConfig) : Prop where
  seconds : ∀ kind,
    defaultSecs config kind = (ttlDays config kind * 86400 : Nat)
  cutoff : ∀ kind (now : Int), 0 ≤ now → now < 2 ^ 40 →
    subI64 now (defaultSecs config kind) =
      now - (ttlDays config kind * 86400 : Nat)
  quota : asI64 config.globalQuotaBytes = config.globalQuotaBytes
  threshold :
    mulU64 config.globalQuotaBytes config.triggerThresholdPct / 100 =
      config.globalQuotaBytes * config.triggerThresholdPct / 100

/-- The products and the quota fit into the types that they are put in. -/
structure Fits (config : GcConfig) : Prop where
  seconds : ∀ kind, ttlDays config kind * 86400 < 2 ^ 63
  quota : config.globalQuotaBytes < 2 ^ 63
  threshold :
    config.globalQuotaBytes * config.triggerThresholdPct < 2 ^ 64

theorem seconds_eq_iff (days : Nat) :
    asI64 (mulU64 days 86400) = (days * 86400 : Nat) ↔
      days * 86400 < 2 ^ 63 := by
  constructor
  · intro exact
    unfold asI64 mulU64 at exact
    split at exact <;> omega
  · intro fits
    rw [mulU64, Nat.mod_eq_of_lt (by omega)]
    exact asI64_of_lt fits

theorem threshold_eq_iff (quota pct : Nat) :
    mulU64 quota pct / 100 = quota * pct / 100 ↔ quota * pct < 2 ^ 64 := by
  unfold mulU64
  constructor
  · intro exact
    omega
  · intro fits
    rw [Nat.mod_eq_of_lt fits]

theorem exact_iff (config : GcConfig) : Exact config ↔ Fits config := by
  constructor
  · intro exact
    refine ⟨fun kind => ?_, asI64_eq_iff.mp exact.quota,
      (threshold_eq_iff _ _).mp exact.threshold⟩
    rw [← seconds_eq_iff, ← defaultSecs_eq]
    exact exact.seconds kind
  · intro fits
    have seconds (kind : Kind) : defaultSecs config kind =
        (ttlDays config kind * 86400 : Nat) := by
      rw [defaultSecs_eq]
      exact (seconds_eq_iff _).mpr (fits.seconds kind)
    refine ⟨seconds, fun kind now started early => ?_,
      asI64_eq_iff.mpr fits.quota, (threshold_eq_iff _ _).mpr fits.threshold⟩
    have small := fits.seconds kind
    rw [seconds]
    apply subI64_of_fits <;> omega

/-! ## The TTL phase -/

section Programs

variable {env : Env} {config : Config}

theorem mem_ttlVictims
    {now : Int} {kind : Kind} {db : Db} {entry : Entry}
    (selected : entry ∈ ttlVictims env config.gc now kind db) :
    entry.kind = kind ∧ ∃ project ∈ db.projects.rows,
      project.id = entry.projectId ∧
        (project.ttlSeconds = none →
          entry.lastAccessed < subI64 now (defaultSecs config.gc kind)) := by
  rw [ttlVictims, Env.mem_scan, GcQueries.expired, List.mem_filter,
    List.any_eq_true] at selected
  obtain ⟨-, project, stored, answer⟩ := selected
  rw [Bool.and_eq_true, decide_eq_true_eq] at answer
  obtain ⟨same, aged⟩ := answer
  simp only [GcQueries.ttlSelects, decide_eq_true_eq] at aged
  refine ⟨aged.1, project, stored, same, fun unset => ?_⟩
  rcases aged.2.2.2 with own | old
  · rw [unset] at own
    cases own
  · exact old

/-- What the TTL phase evicts from a project without a time to live of its own
was last accessed before the cutoff of its kind. -/
theorem evicted_before_cutoff
    {now : Int} {db : Db} {entry : Entry} {project : Project}
    (present : entry ∈ db.entries.rows)
    (evicted : entry ∉ (ttlDb env config.gc now db).entries.rows)
    (stored : project ∈ db.projects.rows)
    (owner : project.id = entry.projectId)
    (unset : project.ttlSeconds = none) :
    entry.lastAccessed < subI64 now (defaultSecs config.gc entry.kind) := by
  have first := evicting_spec (ttlVictims_valid env config.gc now .sstate db)
  have second := evicting_spec (ttlVictims_valid env config.gc now .downloads
    (db.evicting (ttlVictims env config.gc now .sstate db)))
  rw [ttlDb, second.rows, first.rows, List.mem_filter, List.mem_filter]
    at evicted
  by_cases early : entry ∈ ttlVictims env config.gc now .sstate db
  · obtain ⟨same, project', stored', owner', old⟩ := mem_ttlVictims early
    have equal : project' = project :=
      db.projects.eq_of_id stored' stored (owner'.trans owner.symm)
    rw [same]
    exact old (equal ▸ unset)
  · have late : entry ∈ ttlVictims env config.gc now .downloads
        (db.evicting (ttlVictims env config.gc now .sstate db)) := by
      by_contra spared
      simp [early, spared, present] at evicted
    obtain ⟨same, project', stored', owner', old⟩ := mem_ttlVictims late
    rw [first.projects] at stored'
    have equal : project' = project :=
      db.projects.eq_of_id stored' stored (owner'.trans owner.symm)
    rw [same]
    exact old (equal ▸ unset)

/-! ## The trigger of an upload -/

/-- The event spawns a sweep. -/
def Triggers (event : Event Call Call.Reply CoreError World) : Prop :=
  event.request = .spawn .gcRun

theorem writeStreamed_quiet
    {body : Body} {world : World}
    {event : Event Call Call.Reply CoreError World}
    (made : event ∈ (LocalFsStore.writeStreamed env body).trace
      (exec env config) world) : ¬Triggers event := by
  obtain ⟨_, permitted⟩ :=
    (writeStreamed_fileCalls env body).permits_trace made
  intro triggers
  rw [triggers] at permitted
  exact permitted

theorem transact_quiet
    {call : DbCall} {world : World}
    {event : Event Call Call.Reply CoreError World}
    (made : event ∈ (transact call).trace (exec env config) world) :
    ¬Triggers event := by
  have follows : (transact call).Follows
      (⟨fun _ request => request ≠ .spawn .gcRun, fun _ _ _ => ()⟩ :
        Protocol Call Call.Reply CoreError Unit)
      (fun _ _ => True) (fun _ _ => True) () :=
    Program.follows_perform (by simp) (fun _ => trivial) fun _ => trivial
  exact (follows.permits_trace made).choose_spec

/-- An upload that returns a response spawned a sweep exactly if the total
exceeds the computed threshold. -/
theorem doPut_triggers_iff
    {auth : ProjectAuth} {kind : Kind} {project path : String} {body : Body}
    {world after : World} {response : Response}
    (ran : (Yocto.doPut env config auth kind project path body).run
      (exec env config) world = (.done response, after)) :
    (∃ event ∈ (Yocto.doPut env config auth kind project path body).trace
        (exec env config) world, Triggers event) ↔
      mulU64 config.gc.globalQuotaBytes config.gc.triggerThresholdPct / 100 <
        (Blobs.totalSize after.db).toNat := by
  unfold Yocto.doPut Yocto.ensureProject at ran ⊢
  by_cases named : auth.projectName ≠ project
  · rw [if_pos named] at ran
    cases ran
  rw [if_neg named, Program.pure_eq, Program.done_bind] at ran ⊢
  cases role : auth.role.allowsWrite with
  | false =>
      rw [role] at ran
      cases ran
  | true =>
      simp only [role, Bool.not_true, Bool.false_eq_true, if_false] at ran ⊢
      obtain ⟨written, streamed, ranStream, ran⟩ :=
        Program.run_bind_eq_done ran
      obtain ⟨entry, upserted, ranUpsert, ran⟩ := Program.run_bind_eq_done ran
      obtain ⟨_, bumped, ranBump, ran⟩ := Program.run_bind_eq_done ran
      obtain ⟨total, measured, ranTotal, ran⟩ := Program.run_bind_eq_done ran
      have measures : (transact .blobsTotalSize).run (exec env config)
          bumped = (.done (Blobs.totalSize bumped.db), bumped) :=
        run_transact rfl
      rw [measures] at ranTotal
      cases ranTotal
      rw [Program.trace_bind_done ranStream,
        Program.trace_bind_done ranUpsert, Program.trace_bind_done ranBump,
        Program.trace_bind_done measures]
      simp only [List.mem_append, or_and_right, exists_or]
      have before : ¬∃ event ∈ (LocalFsStore.writeStreamed env body).trace
          (exec env config) world, Triggers event := by
        rintro ⟨event, made, triggers⟩
        exact writeStreamed_quiet made triggers
      have quiet (call : DbCall) (middle : World) :
          ¬∃ event ∈ (transact call).trace (exec env config) middle,
            Triggers event := by
        rintro ⟨event, made, triggers⟩
        exact transact_quiet made triggers
      simp only [before, quiet, false_or]
      split at ran
      · rename_i exceeds
        cases ran
        rw [if_pos exceeds]
        simp only [exceeds, iff_true]
        exact ⟨_, List.mem_cons_self, rfl⟩
      · rename_i fits
        cases ran
        rw [if_neg fits]
        simp only [fits, iff_false]
        rintro ⟨event, ⟨⟩, -⟩

end Programs

/-! ## What the configuration promises -/

/-- The derived values are exact; the TTL phase spares what was accessed within
the configured days, the global phase spares everything while the usage is
within the quota, and an upload triggers a sweep exactly above the configured
share of the quota. -/
structure Promised (env : Env) (config : Config) : Prop where
  exact : Exact config.gc
  ttl : ∀ rep world rep' after, 0 ≤ world.now → world.now < 2 ^ 40 →
    (ttlPhase config.gc false rep).run (exec env config) world =
      (.done rep', after) →
    ∀ entry ∈ world.db.entries.rows, entry ∉ after.db.entries.rows →
    ∀ project ∈ world.db.projects.rows, project.id = entry.projectId →
      project.ttlSeconds = none →
      entry.lastAccessed <
        world.now - (ttlDays config.gc entry.kind * 86400 : Nat)
  quota : ∀ rep world,
    Blobs.totalSize world.db ≤ config.gc.globalQuotaBytes →
    (globalPhase config.gc false rep).run (exec env config) world =
      (.done rep, world)
  trigger : ∀ auth kind project path body world response after,
    (Yocto.doPut env config auth kind project path body).run
      (exec env config) world = (.done response, after) →
    ((∃ event ∈ (Yocto.doPut env config auth kind project path body).trace
        (exec env config) world, Triggers event) ↔
      (config.gc.globalQuotaBytes * config.gc.triggerThresholdPct : Nat) <
        Blobs.totalSize after.db * 100)

/-- The promises are kept exactly by the configurations whose products fit. -/
theorem promised_iff_fits (env : Env) (config : Config) :
    Promised env config ↔ Fits config.gc := by
  constructor
  · intro promised
    exact (exact_iff config.gc).mp promised.exact
  · intro fits
    have exact := (exact_iff config.gc).mpr fits
    refine ⟨exact, ?_, ?_, ?_⟩
    · intro rep world rep' after started early ran entry present evicted
        project stored owner unset
      obtain ⟨_, ranPhase⟩ := @run_ttlPhase env config rep world
      rw [ranPhase] at ran
      cases ran
      rw [← exact.cutoff entry.kind world.now started early]
      exact evicted_before_cutoff present evicted stored owner unset
    · intro rep world within
      have measured : (transact .blobsTotalSize).run (exec env config)
          world = (.done (Blobs.totalSize world.db), world) :=
        run_transact rfl
      unfold globalPhase
      rw [Program.run_bind_done measured]
      simp only
      rw [exact.quota, if_pos within]
      rfl
    · intro auth kind project path body world response after ran
      rw [doPut_triggers_iff ran, exact.threshold]
      omega

/-! ## A time to live that wraps -/

/-- A number of days whose seconds exceed the range of `i64` by more than the
clock, a configured quota of one kibibyte and a trigger at 90 percent. -/
def wrapping : Config :=
  ⟨⟨106751991207301, 365, 1024, 90⟩, ⟨60⟩⟩

/-- A project without a time to live, and an entry accessed a second ago, in the
autumn of 2025. -/
def fresh : World :=
  (Program.run (exec Sample.env wrapping) (do
    let _ ← transact (.projectsCreate "acme" none none)
    let _ ← transact (.entriesUpsert 1 .sstate "first" (Sample.sha256 [97]) 1)
    Program.perform (Call.tick nanosPerSec)) (World.initial 1760000000)).2

/-- With that many days the TTL phase evicts the entry. -/
theorem wrapped_ttl_evicts_fresh :
    fresh.db.entries.rows.map Entry.lastAccessed = [fresh.now - 1] ∧
      ((ttlPhase wrapping.gc false .default).run
        (exec Sample.env wrapping) fresh).2.db.entries.rows = [] ∧
      ¬Promised Sample.env wrapping := by
  refine ⟨by decide +kernel, by decide +kernel, fun promised => ?_⟩
  have fits := (exact_iff _).mp promised.exact
  exact absurd (fits.seconds .sstate) (by decide)

end ConfigArithmetic

end Marmotte
