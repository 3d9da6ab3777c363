import Marmotte.Concurrency.SweepVersusDeletes
import Marmotte.Footprints
import Marmotte.SweepReport

/-!
# Sweeps against pins and accesses

A sweep next to any number of pins, uploads and accesses.  Each eviction phase
reads its candidates once and then deletes them one by one, and a delete looks
at nothing but the id.  What became of a candidate in the meantime is lost: the
entries that a sweep deletes are unpinned, and still expired in the TTL phase,
exactly as long as nobody pins or refreshes one that it is about to delete.
-/

namespace Marmotte

open Effects

namespace SweepVersusPins

open GcSvc SweepReport

/-! ## The scenario -/

/-- What happens next to a sweep: `set_pinned`, a `PUT`, the access of a `GET`,
and the passing of time. -/
inductive Neighbour
  | pin (auth : AdminAuth) (id eid : Int)
  | unpin (auth : AdminAuth) (id eid : Int)
  | put (request : PutRequest)
  | touch (id : Int)
  | wait (nanos : Nat)

def Neighbour.operation : Neighbour → Operation
  | .pin auth id eid => .pin auth id eid
  | .unpin auth id eid => .unpin auth id eid
  | .put request => .put request
  | .touch id => .touch id
  | .wait nanos => .wait nanos

/-- One sweep and any neighbours. -/
def operations {κ : Type} (neighbours : κ → Neighbour) : Option κ → Operation
  | none => .gcRun
  | some thread => (neighbours thread).operation

/-- What a sweep goes by: the time that it has read, whether the last query was
one of the TTL phase, and the candidates of that query which are left. -/
structure Selection where
  clock : Option Int
  aged : Bool
  queue : List Candidate

def Selection.idle : Selection := ⟨none, false, []⟩

/-- A sweep deletes the candidates of its last query in order, and asks for
those that are older than the time it has read. -/
def selecting (config : GcConfig) :
    Protocol Call Call.Reply CoreError Selection where
  permits record
    | .db (.entriesDelete projectId id) =>
        ∃ candidate rest, record.queue = candidate :: rest ∧
          candidate.projectId = projectId ∧ candidate.id = id
    | .db (.ttlCandidates kind now cutoff) =>
        record.clock = some now ∧
          cutoff = subI64 now (defaultSecs config kind)
    | _ => True
  advance record request reply :=
    match request, reply with
    | .now, .ok now => ⟨some now, record.aged, []⟩
    | .db (.ttlCandidates ..), .ok candidates => ⟨record.clock, true, candidates⟩
    | .db (.quotaCandidates _), .ok candidates =>
        ⟨record.clock, false, candidates⟩
    | .db .globalCandidates, .ok candidates =>
        ⟨record.clock, false, candidates⟩
    | .db (.entriesDelete ..), _ => { record with queue := record.queue.tail }
    | _, _ => { record with queue := [] }

/-- A pool of these tasks. -/
abbrev Tasks (κ : Type) :=
  Pool (Option κ) Call Call.Reply CoreError (Option Response) World Selection

def start {κ : Type}
    (env : Env) (config : Config) (budget : Nat) (neighbours : κ → Neighbour)
    (world : World) : Tasks κ :=
  .launch .idle
    (fun thread => (operations neighbours thread).program env config budget)
    world

/-! ## What is promised of an entry that is deleted -/

/-- The entry is not pinned, and has expired if its age is what it was selected
for. -/
structure Due
    (config : GcConfig) (aged : Bool) (world : World) (entry : Entry) :
    Prop where
  unpinned : entry.pinned = false
  expired : aged = true → Expired config world.now world.db entry

/-- The entries that this step of the sweep deletes were due before it. -/
def Lawful {κ : Type}
    (config : GcConfig) (pool final : Tasks κ) : Prop :=
  ∀ entry ∈ pool.world.db.entries.rows,
    entry ∉ final.world.db.entries.rows →
      Due config (pool.records none).aged pool.world entry

/-! ## The condition on the steps -/

/-- The call pins the entry. -/
def Pins : Call → Entry → Prop
  | .db (.entriesSetPinned projectId id true), entry =>
      entry.projectId = projectId ∧ entry.id = id
  | _, _ => False

/-- The call sets the access time of the entry. -/
def Refreshes : Call → Entry → Prop
  | .db (.entriesTouch id), entry => entry.id = id
  | .db (.entriesUpsert projectId kind path _ _), entry =>
      entry.key = ⟨projectId, kind, path⟩
  | _, _ => False

/-- The call pins the entry, or it refreshes one that was selected for its age
and that would not have expired then. -/
def Disturbs
    (config : GcConfig) (aged : Bool) (world : World) (request : Call)
    (entry : Entry) : Prop :=
  Pins request entry ∨
    aged = true ∧ Refreshes request entry ∧
      ¬Expired config world.now world.db
        { entry with lastAccessed := world.now }

/-- Others disturb no entry that the sweep is about to delete. -/
def Spares {κ : Type}
    (config : GcConfig) (pool : Tasks κ) (thread : Option κ)
    (request : Call) : Prop :=
  thread ≠ none → ∀ entry ∈ pool.world.db.entries.rows,
    eviction entry.projectId entry.id ∈
        (pool.threads none).ahead evictions →
      ¬Disturbs config (pool.records none).aged pool.world request entry

/-- The condition on the steps: others spare the sweep, and when it reads the
clock, the times to live fit. -/
structure Undisturbed {κ : Type}
    (config : GcConfig) (pool : Tasks κ) (thread : Option κ)
    (request : Call) : Prop where
  spares : Spares config pool thread request
  fits : thread = none → request = .now → TtlsFit config pool.world.now

/-! ## A sweep goes by its selections -/

section Selections

variable {config : GcConfig} {record : Selection}

/-- The program keeps to its selections, and to the time that it has read. -/
abbrev Selects
    (config : GcConfig) (program : App α) (record : Selection) : Prop :=
  program.Follows (selecting config)
    (fun _ last => last.clock = record.clock) (fun _ _ => True) record

theorem Selects.bind
    {first : App α} {next : α → App β}
    (selects : Selects config first record)
    (rest : ∀ value last, last.clock = record.clock →
      Selects config (next value) last) :
    Selects config (first >>= next) record := by
  refine Program.Follows.bind selects fun value last same => ?_
  exact (rest value last same).mono (fun _ _ later => later.trans same)
    fun _ _ => id

/-- A call that neither reads the clock nor the candidates and deletes no
entry. -/
def Plain : Call → Prop
  | .now => False
  | .db (.entriesDelete ..) => False
  | .db (.ttlCandidates ..) => False
  | .db (.quotaCandidates _) => False
  | .db .globalCandidates => False
  | _ => True

theorem selecting_plain
    {request : Call} (plain : Plain request) :
    (selecting config).permits record request ∧
      ∀ reply, (selecting config).advance record request reply =
        { record with queue := [] } := by
  cases request with
  | now => exact plain.elim
  | db call =>
      cases call <;> first | exact plain.elim | exact ⟨trivial, fun _ => rfl⟩
  | _ => exact ⟨trivial, fun _ => rfl⟩

theorem selects_plain_then
    {request : Call} {next : request.Reply → App α} (plain : Plain request)
    (rest : ∀ value, Selects config (next value)
      { record with queue := [] }) :
    Selects config (Program.perform request >>= next) record := by
  refine Program.follows_perform_then (selecting_plain plain).1
    fun value => ?_
  rw [(selecting_plain plain).2]
  exact rest value

theorem selects_of_plain
    {program : App α} (plain : program.Uses Plain fun _ => True) :
    Selects config program record := by
  induction program generalizing record with
  | done value => rfl
  | fail error => trivial
  | spin => trivial
  | call request next inductionHypothesis =>
      refine ⟨(selecting_plain plain.1).1, fun reply => ?_⟩
      rw [(selecting_plain plain.1).2]
      exact @inductionHypothesis reply { record with queue := [] }
        (plain.2 reply)

theorem selects_evict_then
    {candidate : Candidate} {rest : List Candidate} {next : Unit → App α}
    (follows : Selects config (next ()) { record with queue := rest }) :
    Selects config (evict false candidate >>= next)
      { record with queue := candidate :: rest } :=
  Program.follows_perform_then ⟨candidate, rest, rfl, rfl, rfl⟩
    fun _ => follows

theorem ttlLoop_selects (candidates : List Candidate) (rep : GcReport) :
    Selects config (ttlLoop false candidates rep)
      { record with queue := candidates } := by
  induction candidates generalizing rep with
  | nil => rfl
  | cons candidate rest inductionHypothesis =>
      exact selects_evict_then (inductionHypothesis _)

theorem lruLoop_selects
    (quota : Int) (candidates : List Candidate) (usage : Int)
    (rep : GcReport) :
    Selects config (lruLoop false quota candidates usage rep)
      { record with queue := candidates } := by
  induction candidates generalizing usage rep with
  | nil => rfl
  | cons candidate rest inductionHypothesis =>
      unfold lruLoop
      split
      · rfl
      · exact selects_evict_then (inductionHypothesis _ _)

theorem ttlKind_selects
    (now : Int) (kind : Kind) (rep : GcReport)
    (clock : record.clock = some now) :
    Selects config (ttlKind config false now kind rep) record := by
  refine Program.follows_perform_then ⟨clock, rfl⟩ fun candidates => ?_
  exact @ttlLoop_selects config { record with aged := true } candidates rep

theorem ttlPhase_selects (rep : GcReport) :
    (ttlPhase config false rep).Follows (selecting config) (fun _ _ => True)
      (fun _ _ => True) record := by
  refine Program.follows_perform_then trivial fun now => ?_
  have first : Selects config (ttlKind config false now .sstate rep)
      ⟨some now, record.aged, []⟩ := ttlKind_selects now .sstate rep rfl
  refine Program.Follows.bind first ?_
  intro rep last clock
  exact (ttlKind_selects now .downloads rep clock).mono
    (fun _ _ _ => trivial) fun _ _ => id

theorem quotaProject_selects (project : Project) (rep : GcReport) :
    Selects config (quotaProject false project rep) record := by
  unfold quotaProject
  split
  · rfl
  · refine selects_plain_then trivial fun usage => ?_
    split
    · rfl
    · refine Program.follows_perform_then trivial fun candidates => ?_
      exact @lruLoop_selects config { record with aged := false } _
        candidates usage rep

theorem quotaLoop_selects (projects : List Project) (rep : GcReport) :
    Selects config (quotaLoop false projects rep) record := by
  induction projects generalizing rep record with
  | nil => rfl
  | cons project rest inductionHypothesis =>
      exact (quotaProject_selects project rep).bind fun rep last _ =>
        inductionHypothesis rep

theorem quotaPhase_selects (rep : GcReport) :
    Selects config (quotaPhase false rep) record :=
  selects_plain_then trivial fun projects => quotaLoop_selects projects rep

theorem globalPhase_selects (rep : GcReport) :
    Selects config (globalPhase config false rep) record := by
  refine selects_plain_then trivial fun usage => ?_
  simp only
  split
  · rfl
  · refine Program.follows_perform_then trivial fun candidates => ?_
    exact @lruLoop_selects config { record with aged := false } _
      candidates usage rep

theorem cleanupBlobs_selects (budget : Nat) (rep : GcReport) :
    Selects config (cleanupBlobs false budget rep) record := by
  refine selects_of_plain ((cleanupBlobs_frees false budget rep).mono ?_
    fun _ => id)
  intro request used
  cases request with
  | db call => cases call <;> first | exact used.elim | trivial
  | fs call => trivial
  | _ => exact used.elim

/-- A whole sweep goes by its selections. -/
theorem run_selects (budget : Nat) :
    (run config budget false).Follows (selecting config) (fun _ _ => True)
      (fun _ _ => True) record := by
  refine Program.follows_perform_then trivial fun _ => ?_
  have later (rep : GcReport) (record : Selection) : Selects config (do
      let rep ← quotaPhase false rep
      let rep ← globalPhase config false rep
      let rep ← cleanupBlobs false budget rep
      let usage ← transact .blobsTotalSize
      pure { rep with usageGlobalBytes := usage }) record :=
    (quotaPhase_selects rep).bind fun rep _ _ =>
      (globalPhase_selects rep).bind fun rep _ _ =>
        (cleanupBlobs_selects budget rep).bind fun rep _ _ =>
          selects_plain_then trivial fun _ => rfl
  have swept : (sweep config budget false).Follows (selecting config)
      (fun _ _ => True) (fun _ _ => True) { record with queue := [] } :=
    (ttlPhase_selects .default).bind fun rep last _ =>
      (later rep last).mono (fun _ _ _ => trivial) fun _ _ => id
  exact swept.ensuring
    (fun _ _ _ => Program.follows_perform trivial (fun _ => trivial)
      fun _ => trivial)
    fun _ _ _ => Program.follows_perform trivial (fun _ => trivial)
      fun _ => trivial

theorem ahead_eviction
    {projectId id : Int}
    (next : Except CoreError
      (Call.db (.entriesDelete projectId id)).Reply → App α) :
    (Program.call (.db (.entriesDelete projectId id)) next).ahead evictions =
      eviction projectId id :: (next (.ok ())).ahead evictions :=
  Program.ahead_call rfl _

/-- The evictions ahead are those of the first candidates that are left. -/
theorem ahead_prefix
    {program : App α} {post : α → Selection → Prop}
    {failed : CoreError → Selection → Prop}
    (follows : program.Follows (selecting config) post failed record) :
    program.ahead evictions <+: record.queue.map fun candidate =>
      eviction candidate.projectId candidate.id := by
  induction program generalizing record with
  | done value => exact List.nil_prefix
  | fail error => exact List.nil_prefix
  | spin => exact List.nil_prefix
  | call request next inductionHypothesis =>
      unfold Program.ahead
      split
      · rename_i reply expects
        unfold evictions at expects
        split at expects
        · cases expects
          obtain ⟨⟨candidate, rest, queue, rfl, rfl⟩, continues⟩ := follows
          have remaining := inductionHypothesis _ (continues (.ok ()))
          rw [queue, List.map_cons]
          refine (List.prefix_cons_inj _).mpr ?_
          have dropped : ((selecting config).advance record
              (.db (.entriesDelete candidate.projectId candidate.id))
                (.ok ())).queue = rest := by
            simp [selecting, queue]
          rwa [dropped] at remaining
        · cases expects
      · exact List.nil_prefix

end Selections

/-! ## The calls of the neighbours -/

/-- The calls of the neighbours. -/
def neighbourCalls : Call → Prop
  | .db (.entriesSetPinned ..) => True
  | .db (.entriesTouch _) => True
  | .db (.entriesUpsert ..) => True
  | .db (.statsBump ..) => True
  | .db .blobsTotalSize => True
  | .db (.audit ..) => True
  | .fs _ => True
  | .newUuid => True
  | .spawn _ => True
  | .now => True
  | .tick _ => True
  | _ => False

theorem put_neighbourly (env : Env) (config : Config) (request : PutRequest) :
    (request.program env config).Uses neighbourCalls fun _ => True := by
  have written : (LocalFsStore.writeStreamed env request.body).Uses
      neighbourCalls fun _ => True := by
    refine (LocalFsStore.writeStreamed_uses env request.body).mono ?_
      fun _ _ => trivial
    intro call used
    cases call <;> first | exact used.elim | trivial
  have allowed : (Yocto.ensureProject request.auth request.project).Uses
      neighbourCalls fun _ => True := by
    unfold Yocto.ensureProject
    split <;> trivial
  have done : (Yocto.doPut env config request.auth request.kind
      request.project request.path request.body).Uses neighbourCalls
        fun _ => True := by
    refine allowed.bind fun _ _ => ?_
    split
    · trivial
    · refine written.bind fun _ _ => ?_
      refine Program.uses_perform_then trivial fun _ => ?_
      refine Program.uses_perform_then trivial fun _ => ?_
      refine Program.uses_perform_then trivial fun _ => ?_
      simp only
      split
      · exact Program.uses_perform_then trivial fun _ => trivial
      · trivial
  have answered : (Yocto.put env config request.auth request.kind
      request.project request.path request.body).Uses neighbourCalls
        fun _ => True := done.catchError fun _ => trivial
  exact answered.bind fun _ _ => trivial

theorem neighbour_uses
    (env : Env) (config : Config) (budget : Nat) (neighbour : Neighbour) :
    (neighbour.operation.program env config budget).Uses neighbourCalls
      fun _ => True := by
  have audited (auth : AdminAuth) (action : String) (target : Option Int)
      (detail : Option AuditDetail) :
      (Admin.audit auth action target detail).Uses neighbourCalls
        fun _ => True :=
    Program.uses_perform_then trivial fun _ =>
      Program.uses_perform trivial fun _ => trivial
  cases neighbour with
  | pin auth id eid =>
      have uses : (Admin.pin auth id eid).Uses neighbourCalls fun _ => True :=
        Program.uses_perform_then trivial fun _ => audited _ _ _ _
      exact uses.bind fun _ _ => trivial
  | unpin auth id eid =>
      have uses : (Admin.unpin auth id eid).Uses neighbourCalls
          fun _ => True :=
        Program.uses_perform_then trivial fun _ => audited _ _ _ _
      exact uses.bind fun _ _ => trivial
  | put request => exact put_neighbourly env config request
  | touch id => exact Program.uses_perform_then trivial fun _ => trivial
  | wait nanos => exact Program.uses_perform_then trivial fun _ => trivial

/-- A neighbour deletes and queries nothing. -/
theorem neighbour_selects
    {config : GcConfig} {program : App α}
    (uses : program.Uses neighbourCalls fun _ => True) :
    program.Follows (selecting config) (fun _ _ => True) (fun _ _ => True)
      .idle := by
  refine (uses.anywhere (fun record request used => ?_) _).mono
    (fun _ _ _ => trivial) fun _ _ => id
  cases request with
  | db call => cases call <;> first | exact used.elim | trivial
  | _ => trivial

/-! ## What the neighbours leave of the entries -/

section Effects

variable {env : Env} {config : Config} {gc : GcConfig} {aged : Bool}
variable {before after : World} {entry later : Entry}

/-- Only these columns are asked for. -/
theorem expired_congr
    {first second : Db} {now : Int}
    (projects : second.projects = first.projects)
    (owner : later.projectId = entry.projectId)
    (kind : later.kind = entry.kind) (pinned : later.pinned = entry.pinned)
    (accessed : later.lastAccessed = entry.lastAccessed) :
    Expired gc now second later ↔ Expired gc now first entry := by
  simp only [Expired, projects, owner, kind, pinned, accessed]

/-- An entry that is due stays due. -/
theorem Due.lasts
    (due : Due gc aged before entry)
    (projects : after.db.projects = before.db.projects)
    (clock : before.now ≤ after.now) : Due gc aged after entry where
  unpinned := due.unpinned
  expired selected := by
    obtain ⟨unpinned, project, stored, owner, old⟩ := due.expired selected
    refine ⟨unpinned, project, ?_, owner, by omega⟩
    rw [projects]
    exact stored

/-- A refreshed entry is due if it would have expired then. -/
theorem Due.refreshed
    (due : Due gc aged before entry)
    (harmless : ¬(aged = true ∧ ¬Expired gc before.now before.db
      { entry with lastAccessed := before.now }))
    (projects : after.db.projects = before.db.projects)
    (clock : after.now = before.now)
    (owner : later.projectId = entry.projectId)
    (kind : later.kind = entry.kind) (pinned : later.pinned = entry.pinned)
    (accessed : later.lastAccessed = before.now) :
    Due gc aged after later where
  unpinned := pinned.trans due.unpinned
  expired selected := by
    have expired := not_not.mp fun fresh => harmless ⟨selected, fresh⟩
    have same : Expired gc before.now after.db later ↔
        Expired gc before.now before.db
          { entry with lastAccessed := before.now } :=
      expired_congr projects owner kind pinned accessed
    rw [clock]
    exact same.mpr expired

/-- Each entry stays under its ids, and it stays due unless the call disturbs
it. -/
structure Leaves
    (gc : GcConfig) (request : Call) (before after : World) : Prop where
  clock : before.now ≤ after.now
  entries : ∀ entry ∈ before.db.entries.rows,
    ∃ later ∈ after.db.entries.rows,
      later.projectId = entry.projectId ∧ later.id = entry.id ∧
        ∀ aged, ¬Disturbs gc aged before request entry →
          Due gc aged before entry → Due gc aged after later

/-- A call that leaves the entries alone. -/
theorem leaves_same
    {request : Call} (clock : before.now ≤ after.now)
    (projects : after.db.projects = before.db.projects)
    (entries : after.db.entries = before.db.entries) :
    Leaves gc request before after where
  clock := clock
  entries entry stored := by
    refine ⟨entry, ?_, rfl, rfl, fun _ _ due => due.lasts projects clock⟩
    rw [entries]
    exact stored

theorem leaves_setPinned
    {projectId id : Int} {pinned : Bool} {db : Db} {reply : Unit}
    (ran : Entries.setPinned before.db projectId id pinned =
      .ok (reply, db)) :
    Leaves gc (.db (.entriesSetPinned projectId id pinned)) before
      { before with db := db } where
  clock := Int.le_refl _
  entries entry stored := by
    have adjusts := Entries.setPinned_adjusts ran
    refine ⟨Entries.repinned projectId id pinned entry, ?_, ?_,
      adjusts.keepsId entry, fun aged spared due => ?_⟩
    · rw [adjusts.rows]
      exact List.mem_map_of_mem stored
    · exact congrArg Key.projectId (adjusts.keepsKey entry)
    · have due : Due gc aged { before with db := db } entry :=
        due.lasts adjusts.tenants.projects (Int.le_refl _)
      unfold Entries.repinned
      split
      · rename_i hit
        cases pinned with
        | true => exact absurd (.inl hit) spared
        | false =>
            have same : Expired gc before.now db { entry with pinned := false }
                ↔ Expired gc before.now db entry :=
              expired_congr rfl rfl rfl due.unpinned.symm rfl
            exact ⟨rfl, fun selected => same.mpr (due.expired selected)⟩
      · exact due

theorem leaves_touch (id : Int) :
    Leaves gc (.db (.entriesTouch id)) before
      { before with db := Entries.touch before.now before.db id } where
  clock := Int.le_refl _
  entries entry stored := by
    have adjusts := Entries.touch_adjusts before.now before.db id
    refine ⟨Entries.touched before.now id entry, ?_, ?_,
      adjusts.keepsId entry, fun aged spared due => ?_⟩
    · rw [adjusts.rows]
      exact List.mem_map_of_mem stored
    · exact congrArg Key.projectId (adjusts.keepsKey entry)
    · unfold Entries.touched
      split
      · rename_i hit
        refine due.refreshed ?_ adjusts.tenants.projects rfl rfl rfl rfl rfl
        rintro ⟨selected, fresh⟩
        exact spared (.inr ⟨selected, hit, fresh⟩)
      · exact due.lasts adjusts.tenants.projects (Int.le_refl _)

theorem leaves_upsert
    {projectId size : Int} {kind : Kind} {path hash : String} {db : Db}
    (upserted : Entries.Upserted before.now before.db db
      ⟨projectId, kind, path⟩ hash size) :
    Leaves gc (.db (.entriesUpsert projectId kind path hash size)) before
      { before with db := db } where
  clock := Int.le_refl _
  entries entry stored := by
    rcases upserted.exchange.mem_before stored with taken | kept
    · rw [Option.mem_toList] at taken
      have hit := (Db.entryAt_eq_some.mp taken).2
      obtain ⟨written, -⟩ := Db.entryAt_eq_some.mp upserted.entryAt_self
      refine ⟨_, written, ?_, ?_, fun aged spared due => ?_⟩
      · simp only [Db.storedEntry, Option.mem_def.mp taken]
      · simp only [Db.storedEntry, Option.mem_def.mp taken]
      · simp only [Db.storedEntry, Option.mem_def.mp taken]
        refine due.refreshed ?_ upserted.tenants.projects rfl rfl rfl rfl rfl
        rintro ⟨selected, fresh⟩
        exact spared (.inr ⟨selected, hit, fresh⟩)
    · exact ⟨entry, kept, rfl, rfl, fun _ _ due =>
        due.lasts upserted.tenants.projects (Int.le_refl _)⟩

/-- What a neighbour's call leaves. -/
theorem neighbour_leaves
    {request : Call} {reply : Except CoreError request.Reply}
    (used : neighbourCalls request)
    (answered : exec env config request before = some (reply, after)) :
    Leaves gc request before after := by
  cases request with
  | db call =>
      simp only [exec] at answered
      split at answered
      · rename_i value db ran
        cases answered
        cases call with
        | entriesSetPinned projectId id pinned => exact leaves_setPinned ran
        | entriesTouch id =>
            cases ran
            exact leaves_touch id
        | entriesUpsert projectId kind path hash size =>
            exact leaves_upsert (Entries.upserted ran).2
        | statsBump | blobsTotalSize | audit =>
            exact leaves_same (Int.le_refl _)
              ((DbCall.exec_frame ran).projects (by simp [DbCall.writes]))
              (DbCall.exec_inert (by trivial) ran).entries
        | _ => exact used.elim
      · cases answered
        exact leaves_same (Int.le_refl _) rfl rfl
  | fs call =>
      cases answered
      exact leaves_same (Int.le_refl _) rfl rfl
  | newUuid | spawn | now =>
      cases answered
      exact leaves_same (Int.le_refl _) rfl rfl
  | tick nanos =>
      cases answered
      exact leaves_same (Int.le_add_of_nonneg_right (Int.natCast_nonneg _))
        rfl rfl
  | _ => exact used.elim

end Effects

/-! ## What a sweep may rely on -/

/-- The evictions of the candidates that are left. -/
def Selection.victims (record : Selection) : List Call :=
  record.queue.map fun candidate =>
    eviction candidate.projectId candidate.id

/-- The time that was read has passed, the candidates that are left are there,
and those that are about to be deleted are due. -/
structure Aims
    (gc : GcConfig) (record : Selection) (ahead : List Call) (world : World) :
    Prop where
  clock : ∀ now, record.clock = some now →
    now ≤ world.now ∧ TtlsFit gc now
  first : ahead <+: record.victims
  present : Present record.victims world
  due : ∀ entry ∈ world.db.entries.rows,
    eviction entry.projectId entry.id ∈ ahead →
      Due gc record.aged world entry

section Aims

variable {env : Env} {config : Config} {gc : GcConfig} {record : Selection}
variable {ahead : List Call} {world after : World}

/-- Where no candidate is left there is nothing to show. -/
theorem aims_empty
    (clock : ∀ now, record.clock = some now →
      now ≤ world.now ∧ TtlsFit gc now)
    (first : ahead <+: { record with queue := [] }.victims) :
    Aims gc { record with queue := [] } ahead world where
  clock := clock
  first := first
  present := present_nil world
  due _ _ member := absurd (first.subset member) List.not_mem_nil

/-- The entries that a query returned are there, and they are due if the query
asks for such entries. -/
theorem aims_queried
    {entries : List Entry}
    (clock : ∀ now, record.clock = some now →
      now ≤ world.now ∧ TtlsFit gc now)
    (first : ahead <+:
      { record with queue := entries.map Entry.candidate }.victims)
    (valid : Db.Victims world.db entries)
    (due : ∀ entry ∈ entries, Due gc record.aged world entry) :
    Aims gc { record with queue := entries.map Entry.candidate } ahead
      world where
  clock := clock
  first := first
  present := present_candidates valid
  due _ present member := by
    have among := first.subset member
    simp only [Selection.victims, List.map_map, List.mem_map,
      Function.comp_apply] at among
    obtain ⟨other, listed, same⟩ := among
    simp only [eviction, Entry.candidate, Call.db.injEq,
      DbCall.entriesDelete.injEq] at same
    have equal := world.db.entries.eq_of_id (valid.stored other listed) present
      same.2
    rw [← equal]
    exact due other listed

/-- An entry that a TTL query returned has expired since. -/
theorem due_of_ttl
    {now : Int} {kind : Kind} {entry : Entry} (fits : TtlsFit gc now)
    (clock : now ≤ world.now)
    (listed : entry ∈ ttlVictims env gc now kind world.db) :
    Due gc true world entry := by
  have expired := (mem_ttlVictims_iff fits).mp listed
  have then_due : Due gc true { world with now := now } entry :=
    ⟨expired.2.2.1, fun _ => expired.2.2⟩
  exact then_due.lasts rfl clock

/-- The candidates that are left stay there. -/
theorem Leaves.present
    {request : Call} {calls : List Call} (leaves : Leaves gc request world after)
    (present : Present calls world) : Present calls after where
  distinct := present.distinct
  there call first := by
    obtain ⟨entry, stored, rfl⟩ := present.there call first
    obtain ⟨later, kept, owner, sameId, -⟩ := leaves.entries entry stored
    exact ⟨later, kept, by rw [owner, sameId]⟩

/-- The next candidate is deleted. -/
theorem Aims.evicted
    {candidate : Candidate} {rest : List Candidate} {next : List Call}
    {reply : Except CoreError Unit}
    (queue : record.queue = candidate :: rest)
    (aims : Aims gc record
      (eviction candidate.projectId candidate.id :: next) world)
    (answered : exec env config
      (eviction candidate.projectId candidate.id) world =
        some (reply, after)) :
    reply = .ok () ∧ Aims gc { record with queue := rest } next after := by
  have victims : record.victims =
      eviction candidate.projectId candidate.id ::
        { record with queue := rest }.victims := by
    rw [Selection.victims, queue]
    rfl
  have present := aims.present
  have first := aims.first
  rw [victims] at present first
  obtain ⟨entry, stored, same⟩ := present.there _ List.mem_cons_self
  simp only [eviction, Call.db.injEq, DbCall.entriesDelete.injEq] at same
  obtain ⟨db, ran, deleted⟩ := Entries.delete_ok stored
  rw [← same.1, ← same.2] at ran
  simp only [eviction, exec, DbCall.exec, ran] at answered
  cases answered
  refine ⟨rfl, aims.clock, ?first, ?present, ?due⟩
  case first => exact (List.prefix_cons_inj _).mp first
  case present =>
    rw [same.1, same.2] at present
    exact present.evicted deleted
  case due =>
    intro other otherStored member
    simp only [deleted.rows, List.mem_filter] at otherStored
    exact (aims.due other otherStored.1 (List.mem_cons_of_mem _ member)).lasts
      deleted.tenants.projects (Int.le_refl _)

/-- The sweep itself keeps to what it may rely on. -/
theorem Aims.own
    {request : Call} {next : Except CoreError request.Reply → App α}
    {post : α → Selection → Prop} {failed : CoreError → Selection → Prop}
    {reply : Except CoreError request.Reply}
    (aims : Aims config.gc record
      ((Program.call request next).ahead evictions) world)
    (follows : (Program.call request next).Follows (selecting config.gc) post
      failed record)
    (fits : request = .now → TtlsFit config.gc world.now)
    (answered : exec env config request world = some (reply, after)) :
    Aims config.gc ((selecting config.gc).advance record request reply)
      ((next reply).ahead evictions) after := by
  have first := ahead_prefix (follows.2 reply)
  have passed := Faulty.clock (.exact answered)
  by_cases plain : Plain request
  -- after any other call nothing is left of the last query
  · rw [(selecting_plain plain).2] at first ⊢
    refine aims_empty (fun now read => ?_) first
    exact ⟨(aims.clock now read).1.trans passed, (aims.clock now read).2⟩
  cases request with
  | now =>
      cases answered
      refine @aims_empty config.gc ⟨some world.now, record.aged, []⟩ _ _ ?_
        first
      rintro now ⟨⟩
      exact ⟨Int.le_refl _, fits rfl⟩
  | db call =>
      cases call with
      | entriesDelete projectId id =>
          obtain ⟨candidate, rest, queue, rfl, rfl⟩ := follows.1
          rw [ahead_eviction] at aims
          obtain ⟨rfl, kept⟩ := aims.evicted queue answered
          simpa only [selecting, queue, List.tail_cons] using kept
      | ttlCandidates kind now cutoff =>
          obtain ⟨read, rfl⟩ := follows.1
          cases answered
          refine @aims_queried config.gc ⟨record.clock, true, []⟩ _ _
            (ttlVictims env config.gc now kind world.db) aims.clock first
            (ttlVictims_valid env config.gc now kind world.db) ?_
          intro entry listed
          obtain ⟨passed, fits⟩ := aims.clock now read
          exact due_of_ttl fits passed listed
      | quotaCandidates projectId =>
          cases answered
          refine @aims_queried config.gc ⟨record.clock, false, []⟩ _ _
            (GcQueries.projectLru world.db projectId) aims.clock first
            (projectLru_valid world.db projectId) ?_
          exact fun entry listed => ⟨(mem_projectLru.mp listed).2.2, nofun⟩
      | globalCandidates =>
          cases answered
          refine @aims_queried config.gc ⟨record.clock, false, []⟩ _ _
            (GcQueries.globalLru world.db) aims.clock first
            (globalLru_valid world.db) ?_
          exact fun entry listed => ⟨(mem_globalLru.mp listed).2, nofun⟩
      | _ => exact absurd trivial plain
  | _ => exact absurd trivial plain

/-- Others keep to it as long as they spare the sweep. -/
theorem Aims.other
    {request : Call} (aims : Aims gc record ahead world)
    (leaves : Leaves gc request world after)
    (spared : ∀ entry ∈ world.db.entries.rows,
      eviction entry.projectId entry.id ∈ ahead →
        ¬Disturbs gc record.aged world request entry) :
    Aims gc record ahead after where
  clock now read :=
    ⟨(aims.clock now read).1.trans leaves.clock, (aims.clock now read).2⟩
  first := aims.first
  present := leaves.present aims.present
  due later stored member := by
    obtain ⟨entry, was, same⟩ :=
      aims.present.there _ (aims.first.subset member)
    obtain ⟨kept, keptStored, owner, sameId, stays⟩ := leaves.entries entry was
    simp only [eviction, Call.db.injEq, DbCall.entriesDelete.injEq] at same
    -- the row that is there now is what became of the one that was selected
    have equal : kept = later :=
      after.db.entries.eq_of_id keptStored stored (sameId.trans same.2.symm)
    rw [← equal]
    rw [same.1, same.2] at member
    exact stays record.aged (spared entry was member)
      (aims.due entry was member)

end Aims

/-! ## Runs -/

section Runs

variable {κ : Type} [DecidableEq κ]
variable {env : Env} {config : Config}

/-- The calls of each task. -/
def taskCalls {κ : Type} : Option κ → Call → Prop
  | none => sweepCalls
  | some _ => neighbourCalls

omit [DecidableEq κ] in
theorem start_footed
    (env : Env) (config : Config) (budget : Nat) (neighbours : κ → Neighbour)
    (world : World) :
    (start env config budget neighbours world).Footed taskCalls := by
  intro thread
  cases thread with
  | none => exact (run_sweeps config.gc budget false).bind fun _ _ => trivial
  | some thread => exact neighbour_uses env config budget (neighbours thread)

omit [DecidableEq κ] in
theorem start_selects
    (env : Env) (config : Config) (budget : Nat) (neighbours : κ → Neighbour)
    (world : World) (thread : Option κ) :
    ((start env config budget neighbours world).threads thread).Follows
      (selecting config.gc) (fun _ _ => True) (fun _ _ => True) .idle := by
  cases thread with
  | none => exact Program.Follows.bind (run_selects budget) fun _ _ _ => trivial
  | some thread =>
      exact neighbour_selects
        (neighbour_uses env config budget (neighbours thread))

/-- What the sweep of a pool may rely on. -/
abbrev Aimed (config : Config) (pool : Tasks κ) : Prop :=
  Aims config.gc (pool.records none) ((pool.threads none).ahead evictions)
    pool.world

/-- One step keeps it. -/
theorem aimed_step
    {pool final : Tasks κ} {thread : Option κ} {request : Call}
    {reply : Except CoreError request.Reply}
    (footed : pool.Footed taskCalls)
    (follows : (pool.threads none).Follows (selecting config.gc)
      (fun _ _ => True) (fun _ _ => True) (pool.records none))
    (aimed : Aimed config pool)
    (undisturbed : Undisturbed config.gc pool thread request)
    (step : Pool.Step (selecting config.gc) (exec env config).answers pool
      thread request reply final) : Aimed config final := by
  have used := (footed.step step).1
  obtain ⟨waiting, answered⟩ := step
  rename_i next after
  cases thread with
  | none =>
      rw [waiting] at follows
      unfold Aimed at aimed
      rw [waiting] at aimed
      have kept := aimed.own follows (undisturbed.fits rfl) answered
      simpa [Aimed, Pool.resume] using kept
  | some thread =>
      have kept := aimed.other (neighbour_leaves used answered)
        (undisturbed.spares (Option.some_ne_none thread))
      simpa [Aimed, Pool.resume] using kept

/-- It holds all along an undisturbed run. -/
theorem aimed_reached
    {budget : Nat} {neighbours : κ → Neighbour} {world : World}
    {pool : Tasks κ}
    (reached : Pool.Reaches (selecting config.gc) (exec env config).answers
      (Undisturbed config.gc) (start env config budget neighbours world)
      pool) : Aimed config pool := by
  induction reached with
  | refl => exact @aims_empty _ .idle _ _ nofun List.nil_prefix
  | tail earlier permitted step inductionHypothesis =>
      exact aimed_step
        (earlier.footed (start_footed env config budget neighbours world)).1
        (earlier.follows (start_selects env config budget neighbours world)
          none) inductionHypothesis permitted step

/-- The calls of a sweep leave the entries alone, except for its evictions. -/
theorem sweep_keeps_entries
    {request : Call} {reply : Except CoreError request.Reply}
    {before after : World} (used : sweepCalls request)
    (other : ∀ projectId id, request ≠ .db (.entriesDelete projectId id))
    (answered : exec env config request before = some (reply, after)) :
    after.db.entries = before.db.entries := by
  rcases Faulty.commits (.exact answered) with same | ⟨call, value, rfl, ran⟩
  · rw [same]
  · refine (DbCall.exec_frame ran).entries ?_
    cases call with
    | entriesDelete projectId id => exact absurd rfl (other projectId id)
    | _ => first | exact used.elim | simp [DbCall.writes]

/-- A step of the sweep deletes no entry but that of its eviction. -/
theorem deleted_entry
    {request : Call} {reply : Except CoreError request.Reply}
    {before after : World} {entry : Entry} (used : sweepCalls request)
    (answered : exec env config request before = some (reply, after))
    (stored : entry ∈ before.db.entries.rows)
    (gone : entry ∉ after.db.entries.rows) :
    request = .db (.entriesDelete entry.projectId entry.id) := by
  by_cases other :
      ∀ projectId id, request ≠ .db (.entriesDelete projectId id)
  · rw [sweep_keeps_entries used other answered] at gone
    exact absurd stored gone
  · simp only [not_forall, not_not] at other
    obtain ⟨projectId, id, rfl⟩ := other
    simp only [exec, DbCall.exec] at answered
    split at answered
    · rename_i value db ran
      cases answered
      obtain ⟨victim, rfl, rfl, deleted⟩ := Entries.deleted ran
      simp only [deleted.rows, List.mem_filter, stored, true_and,
        Bool.not_eq_true', decide_eq_false_iff_not, not_not] at gone
      rw [before.db.entries.eq_of_id stored deleted.present gone]
    · cases answered
      exact absurd stored gone

/-- What the sweep deletes is due. -/
theorem lawful_of_aimed
    {pool final : Tasks κ} {request : Call}
    {reply : Except CoreError request.Reply}
    (footed : pool.Footed taskCalls) (aimed : Aimed config pool)
    (step : Pool.Step (selecting config.gc) (exec env config).answers pool
      none request reply final) : Lawful config.gc pool final := by
  have used := (footed.step step).1
  obtain ⟨waiting, answered⟩ := step
  rename_i next after
  intro entry stored gone
  have same := deleted_entry used answered stored gone
  subst same
  refine aimed.due entry stored ?_
  rw [waiting, ahead_eviction]
  exact List.mem_cons_self

/-! ## Steps that disturb the sweep -/

omit [DecidableEq κ] in
/-- An entry that was disturbed is not due. -/
theorem undue_of_disturbed
    {gc : GcConfig} {aged : Bool} {request : Call}
    {reply : Except CoreError request.Reply} {before after : World}
    {entry : Entry} (stored : entry ∈ before.db.entries.rows)
    (disturbs : Disturbs gc aged before request entry)
    (answered : exec env config request before = some (reply, after)) :
    ∃ later ∈ after.db.entries.rows,
      later.projectId = entry.projectId ∧ later.id = entry.id ∧
        ¬Due gc aged after later := by
  rcases disturbs with pins | ⟨selected, refreshes, fresh⟩
  · unfold Pins at pins
    split at pins
    · rename_i projectId id
      obtain ⟨rfl, rfl⟩ := pins
      obtain ⟨db, ran⟩ := Entries.setPinned_accepted stored true
      have adjusts := Entries.setPinned_adjusts ran
      simp only [exec, DbCall.exec, ran] at answered
      cases answered
      refine ⟨_, ?_, ?_, adjusts.keepsId entry, fun due => ?_⟩
      · simp only [adjusts.rows]
        exact List.mem_map_of_mem stored
      · exact congrArg Key.projectId (adjusts.keepsKey entry)
      · have unpinned := due.unpinned
        simp [Entries.repinned] at unpinned
    · exact pins.elim
  · unfold Refreshes at refreshes
    split at refreshes
    · rename_i id
      subst refreshes
      have adjusts := Entries.touch_adjusts before.now before.db entry.id
      cases answered
      refine ⟨_, ?_, ?_, adjusts.keepsId entry, fun due => ?_⟩
      · simp only [adjusts.rows]
        exact List.mem_map_of_mem stored
      · exact congrArg Key.projectId (adjusts.keepsKey entry)
      · refine fresh ((expired_congr adjusts.tenants.projects ?_ ?_ ?_ ?_).mp
          (due.expired selected)) <;> simp [Entries.touched]
    · rename_i projectId kind path hash size
      have owner : entry.projectId = projectId :=
        congrArg Key.projectId refreshes
      have owned : before.db.HasProject projectId := by
        rw [← owner]
        exact before.db.entry_project entry stored
      obtain ⟨value, db, ran, upserted⟩ :=
        Entries.upsert_ok before.now kind path hash size owned
      simp only [exec, DbCall.exec, ran] at answered
      cases answered
      have found : before.db.entryAt ⟨projectId, kind, path⟩ = some entry :=
        Db.entryAt_eq_some.mpr ⟨stored, refreshes⟩
      obtain ⟨written, -⟩ := Db.entryAt_eq_some.mp upserted.entryAt_self
      simp only [Db.storedEntry, found] at written
      refine ⟨_, written, rfl, rfl, fun due => ?_⟩
      exact fresh ((expired_congr upserted.tenants.projects rfl rfl rfl
        rfl).mp (due.expired selected))
    · exact refreshes.elim

/-- What an entry needs to be deleted by the sweep when that goes on alone: the
evictions ahead find their entries, and nothing changes that decides whether
the entry is due. -/
structure Lost
    (entry : Entry) (aged : Bool) (world : World) (ahead : List Call)
    (record : Selection) (later : World) : Prop where
  present : Present ahead later
  aged : record.aged = aged
  clock : later.now = world.now
  projects : later.db.projects = world.db.projects
  stored : eviction entry.projectId entry.id ∈ ahead →
    entry ∈ later.db.entries.rows

theorem Lost.evicted
    {gc : GcConfig} {entry : Entry} {aged : Bool} {world later : World}
    {request : Call} {rest : List Call} {reply : request.Reply}
    {record : Selection}
    (other : request ≠ eviction entry.projectId entry.id)
    (lost : Lost entry aged world (request :: rest) record later) :
    ∃ after, exec env config request later = some (.ok reply, after) ∧
      Lost entry aged world rest
        ((selecting gc).advance record request (.ok reply)) after := by
  obtain ⟨victim, stored, rfl⟩ := lost.present.there _ List.mem_cons_self
  obtain ⟨db, ran, deleted⟩ := Entries.delete_ok stored
  refine ⟨{ later with db := db }, ?_, ?_⟩
  · simp only [eviction, exec, DbCall.exec, ran]
    rfl
  · constructor
    case present => exact lost.present.evicted deleted
    case aged => exact lost.aged
    case clock => exact lost.clock
    case projects => exact deleted.tenants.projects.trans lost.projects
    case stored =>
      intro member
      have still := lost.stored (List.mem_cons_of_mem _ member)
      simp only [deleted.rows, List.mem_filter, Bool.not_eq_true',
        decide_eq_false_iff_not]
      refine ⟨still, fun same => other ?_⟩
      rw [later.db.entries.eq_of_id still stored same]

/-- A sweep that goes on alone deletes the entries ahead of it, whatever became
of them. -/
theorem deletes_undue
    {gc : GcConfig} {pool : Tasks κ} {entry : Entry}
    (present : Present ((pool.threads none).ahead evictions) pool.world)
    (stored : entry ∈ pool.world.db.entries.rows)
    (first : eviction entry.projectId entry.id ∈
      (pool.threads none).ahead evictions)
    (undue : ¬Due gc (pool.records none).aged pool.world entry) :
    ∃ (later final : Tasks κ) (request : Call)
      (reply : Except CoreError request.Reply),
      Pool.Reaches (selecting gc) (exec env config).answers
        (fun _ actor _ => actor = none) pool later ∧
      Pool.Step (selecting gc) (exec env config).answers later none request
        reply final ∧
      ¬Lawful gc later final := by
  have lost : Lost entry (pool.records none).aged pool.world
      ((pool.threads none).ahead evictions) (pool.records none) pool.world :=
    ⟨present, rfl, rfl, rfl, fun _ => stored⟩
  obtain ⟨later, next, reached, waiting, arrived, kept⟩ :=
    @Pool.Reaches.arrives _ _ _ _ _ _ _ _ (selecting gc) (exec env config)
      evictions _ none _ (fun _ _ _ _ _ other held _ => held.evicted other)
      pool first lost
  have still := kept.stored arrived
  obtain ⟨db, ran, deleted⟩ := Entries.delete_ok still
  have answered : exec env config (eviction entry.projectId entry.id)
      later.world = some (.ok (), { later.world with db := db }) := by
    simp only [eviction, exec, DbCall.exec, ran]
  refine ⟨later, _, _, _, reached, .call waiting answered, fun lawful => ?_⟩
  have gone : entry ∉ db.entries.rows := by
    simp [deleted.rows]
  have due := lawful entry still gone
  rw [kept.aged] at due
  exact undue (due.lasts kept.projects.symm kept.clock.le)

/-- The entries that a sweep deletes are unpinned, and still expired in the TTL
phase, in every run in which nobody pins an entry that the sweep is about to
delete or refreshes one that it has selected for its age, and in which the times
to live fit when it reads the clock.  After a step that disturbs the sweep it
only has to go on to delete an entry that is not due. -/
theorem evictions_are_due
    (env : Env) (config : Config) (budget : Nat) (neighbours : κ → Neighbour)
    (world : World) :
    (∀ (pool final : Tasks κ) request reply,
      Pool.Reaches (selecting config.gc) (exec env config).answers
        (Undisturbed config.gc) (start env config budget neighbours world)
        pool →
      Pool.Step (selecting config.gc) (exec env config).answers pool none
        request reply final →
      Lawful config.gc pool final) ∧
    ∀ (pool struck : Tasks κ) thread request reply,
      Pool.Reaches (selecting config.gc) (exec env config).answers
        (Undisturbed config.gc) (start env config budget neighbours world)
        pool →
      Pool.Step (selecting config.gc) (exec env config).answers pool thread
        request reply struck →
      ¬Spares config.gc pool thread request →
      ∃ (later final : Tasks κ) (request : Call)
        (reply : Except CoreError request.Reply),
        Pool.Reaches (selecting config.gc) (exec env config).answers
          (fun _ actor _ => actor = none) struck later ∧
        Pool.Step (selecting config.gc) (exec env config).answers later none
          request reply final ∧
        ¬Lawful config.gc later final := by
  have footed := start_footed env config budget neighbours world
  constructor
  · intro pool final request reply reached step
    exact lawful_of_aimed (reached.footed footed).1 (aimed_reached reached)
      step
  · intro pool struck thread request reply reached step unspared
    have aimed := aimed_reached reached
    have used := ((reached.footed footed).1.step step).1
    simp only [Spares, Classical.not_imp, not_forall, not_not] at unspared
    obtain ⟨other, entry, stored, first, disturbs⟩ := unspared
    cases thread with
    | none => exact absurd rfl other
    | some thread =>
        obtain ⟨waiting, answered⟩ := step
        rename_i next after
        obtain ⟨later, kept, owner, sameId, undue⟩ :=
          undue_of_disturbed stored disturbs answered
        have leaves : Leaves config.gc request pool.world after :=
          neighbour_leaves used answered
        have present : Present ((pool.threads none).ahead evictions) after :=
          leaves.present (aimed.present.sublist aimed.first.sublist)
        rw [← owner, ← sameId] at first
        refine deletes_undue ?_ kept ?_ ?_
        · simpa [Pool.resume] using present
        · simpa [Pool.resume] using first
        · simpa [Pool.resume] using undue

end Runs

/-! ## Next to a sweep of three expired entries -/

/-- A neighbour and a sweep of three expired entries. -/
def aside (neighbour : Neighbour) : Tasks (Fin 1) :=
  start Sample.env (Sample.config 1024) 3 (fun _ => neighbour)
    SweepVersusDeletes.stale

/-- What a check says of one more step after a schedule. -/
def lastStep
    (neighbour : Neighbour)
    (guard : Tasks (Fin 1) → Option (Fin 1) → Call → Bool)
    (schedule : List (Option (Fin 1))) (last : Option (Fin 1))
    (check : Tasks (Fin 1) → Tasks (Fin 1) → Bool) : Bool :=
  (Pool.replay (selecting (Sample.config 1024).gc)
    (exec Sample.env (Sample.config 1024)) guard schedule
    (aside neighbour)).any fun pool =>
      (Pool.replay (selecting (Sample.config 1024).gc)
        (exec Sample.env (Sample.config 1024)) guard [last] pool).any
          (check pool)

theorem lastStep_spec
    {neighbour : Neighbour}
    {guard : Tasks (Fin 1) → Option (Fin 1) → Call → Bool}
    {allowed : Tasks (Fin 1) → Option (Fin 1) → Call → Prop}
    {schedule : List (Option (Fin 1))} {last : Option (Fin 1)}
    {check : Tasks (Fin 1) → Tasks (Fin 1) → Bool}
    (allows : ∀ pool thread request,
      guard pool thread request = true → allowed pool thread request)
    (passes : lastStep neighbour guard schedule last check = true) :
    ∃ pool final request reply,
      Pool.Reaches (selecting (Sample.config 1024).gc)
        (exec Sample.env (Sample.config 1024)).answers allowed
        (aside neighbour) pool ∧
      Pool.Step (selecting (Sample.config 1024).gc)
        (exec Sample.env (Sample.config 1024)).answers pool last request reply
        final ∧
      guard pool last request = true ∧ check pool final = true := by
  rw [lastStep, Option.any_eq_true] at passes
  obtain ⟨pool, replayed, then_passes⟩ := passes
  rw [Option.any_eq_true] at then_passes
  obtain ⟨final, stepped, checked⟩ := then_passes
  obtain ⟨request, reply, guarded, step⟩ := Pool.step_of_replay stepped
  exact ⟨pool, final, request, reply,
    Pool.reaches_of_replay (fun _ _ _ _ => id) allows .refl replayed, step,
    guarded, checked⟩

/-- The call neither pins nor refreshes an entry. -/
def harmless : Call → Bool
  | .db (.entriesSetPinned _ _ pinned) => !pinned
  | .db (.entriesTouch _) => false
  | .db (.entriesUpsert ..) => false
  | _ => true

theorem undisturbed_of_harmless
    {κ : Type} {pool : Tasks κ} {thread : Option κ} {request : Call}
    (passes : (harmless request && decide (0 ≤ pool.world.now) &&
      decide (pool.world.now < 2 ^ 62)) = true) :
    Undisturbed (Sample.config 1024).gc pool thread request := by
  simp only [Bool.and_eq_true, decide_eq_true_eq] at passes
  obtain ⟨⟨quiet, past⟩, future⟩ := passes
  refine ⟨fun _ entry _ _ disturbs => ?_, fun _ _ => ?_⟩
  · rcases disturbs with pins | ⟨-, refreshes, -⟩
    · unfold Pins at pins
      split at pins
      · cases quiet
      · exact pins
    · unfold Refreshes at refreshes
      split at refreshes
      · cases quiet
      · cases quiet
      · exact refreshes
  · have days : ∀ kind,
        ConfigArithmetic.ttlDays (Sample.config 1024).gc kind ≤ 365 := by
      intro kind
      cases kind <;> decide
    constructor
    all_goals
      intro kind
      have most := days kind
      omega

/-- An unpin between the query and the deletes spares the sweep. -/
theorem evictions_are_due_unpinned :
    ∃ pool final : Tasks (Fin 1),
      pool.world.db.entries.rows.length = 2 ∧
      final.world.db.entries.rows.length = 1 ∧
      Lawful (Sample.config 1024).gc pool final := by
  have ran : lastStep (.unpin Operation.root 1 3)
      (fun pool _ request => harmless request &&
        decide (0 ≤ pool.world.now) && decide (pool.world.now < 2 ^ 62))
      [none, none, none, some 0, none] none
      (fun pool final => decide (pool.world.db.entries.rows.length = 2) &&
        decide (final.world.db.entries.rows.length = 1)) = true := by
    decide +kernel
  obtain ⟨pool, final, request, reply, reached, step, -, lengths⟩ :=
    lastStep_spec (fun _ _ _ => undisturbed_of_harmless) ran
  simp only [Bool.and_eq_true, decide_eq_true_eq] at lengths
  exact ⟨pool, final, lengths.1, lengths.2,
    (evictions_are_due Sample.env (Sample.config 1024) 3
      (fun _ : Fin 1 => .unpin Operation.root 1 3)
      SweepVersusDeletes.stale).1 pool final request reply reached step⟩

/-- A pin between the query and the deletes is lost, and so is an access. -/
theorem pinned_candidate_is_deleted :
    (∃ pool final request reply,
      Pool.Reaches (selecting (Sample.config 1024).gc)
        (exec Sample.env (Sample.config 1024)).answers (fun _ _ _ => True)
        (aside (.pin Operation.root 1 2)) pool ∧
      Pool.Step (selecting (Sample.config 1024).gc)
        (exec Sample.env (Sample.config 1024)).answers pool none request reply
        final ∧
      ∃ entry ∈ pool.world.db.entries.rows,
        entry ∉ final.world.db.entries.rows ∧ entry.pinned = true) ∧
    ∃ pool final request reply,
      Pool.Reaches (selecting (Sample.config 1024).gc)
        (exec Sample.env (Sample.config 1024)).answers (fun _ _ _ => True)
        (aside (.touch 2)) pool ∧
      Pool.Step (selecting (Sample.config 1024).gc)
        (exec Sample.env (Sample.config 1024)).answers pool none request reply
        final ∧
      (pool.records none).aged = true ∧
      ∃ entry ∈ pool.world.db.entries.rows,
        entry ∉ final.world.db.entries.rows ∧
          ¬Expired (Sample.config 1024).gc pool.world.now pool.world.db
            entry := by
  constructor
  · have ran : lastStep (.pin Operation.root 1 2) (fun _ _ _ => true)
        [none, none, none, some 0, none] none
        (fun pool final => decide (∃ entry ∈ pool.world.db.entries.rows,
          entry ∉ final.world.db.entries.rows ∧ entry.pinned = true)) =
            true := by
      decide +kernel
    obtain ⟨pool, final, request, reply, reached, step, -, lost⟩ :=
      lastStep_spec (fun _ _ _ _ => trivial) ran
    exact ⟨pool, final, request, reply, reached, step, of_decide_eq_true lost⟩
  · have ran : lastStep (.touch 2) (fun _ _ _ => true)
        [none, none, none, some 0, none] none
        (fun pool final => decide ((pool.records none).aged = true ∧
          ∃ entry ∈ pool.world.db.entries.rows,
            entry ∉ final.world.db.entries.rows ∧
              ¬Expired (Sample.config 1024).gc pool.world.now pool.world.db
                entry)) = true := by
      decide +kernel
    obtain ⟨pool, final, request, reply, reached, step, -, lost⟩ :=
      lastStep_spec (fun _ _ _ _ => trivial) ran
    exact ⟨pool, final, request, reply, reached, step, of_decide_eq_true lost⟩

end SweepVersusPins

end Marmotte
