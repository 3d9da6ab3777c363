import Marmotte.Concurrency.SecureSweep
import Marmotte.Operations

/-!
# Sweeps against deletions

A sweep next to any number of admin deletes of entries and of projects.  An
eviction of an entry that was deleted in the meantime ends the whole sweep; the
sweep returns exactly as long as none of the entries that it is about to evict
is deleted by others.
-/

namespace Marmotte

open Effects

namespace SweepVersusDeletes

open GcSvc

/-! ## The scenario -/

/-- A delete by an admin, or the clock that moves on. -/
inductive Deletion
  | entry (auth : AdminAuth) (id eid : Int)
  | project (auth : AdminAuth) (id : Int)
  | wait (nanos : Nat)

def Deletion.operation : Deletion → Operation
  | .entry auth id eid => .deleteEntry auth id eid
  | .project auth id => .deleteProject auth id
  | .wait nanos => .wait nanos

/-- One sweep and any deletes. -/
def operations {κ : Type} (deletions : κ → Deletion) : Option κ → Operation
  | none => .gcRun
  | some thread => (deletions thread).operation

/-- A pool of these tasks, which records what was answered to each. -/
abbrev Tasks (κ : Type) :=
  Pool (Option κ) Call Call.Reply CoreError (Option Response) World
    (List (Answer Call Call.Reply CoreError))

def start {κ : Type}
    (env : Env) (config : Config) (budget : Nat) (deletions : κ → Deletion)
    (world : World) : Tasks κ :=
  .launch []
    (fun thread => (operations deletions thread).program env config budget)
    world

/-- The call deletes the row that an eviction looks for. -/
def Hits : Call → Call → Prop
  | .db (.entriesDelete projectId id), victim =>
      victim = eviction projectId id
  | .db (.projectsDelete projectId), victim =>
      ∃ id, victim = eviction projectId id
  | _, _ => False

/-- The condition on the steps: others delete no entry that the sweep is about
to evict. -/
def Spares {κ : Type}
    (pool : Tasks κ) (thread : Option κ) (request : Call) : Prop :=
  thread ≠ none →
    ∀ victim ∈ (pool.threads none).ahead evictions, ¬Hits request victim

/-! ## What a sweep has done when it returns -/

/-- What a sweep is told. -/
abbrev Past := List (Answer Call Call.Reply CoreError)

/-- Both kinds were queried, and their candidates were evicted. -/
structure Expired (past : Past) : Prop where
  ttl : ∀ kind, ∃ now cutoff candidates,
    ⟨.db (.ttlCandidates kind now cutoff), .ok candidates⟩ ∈ past
  evicted : ∀ kind now cutoff candidates,
    ⟨.db (.ttlCandidates kind now cutoff), .ok candidates⟩ ∈ past →
      ∀ candidate ∈ candidates,
        ⟨eviction candidate.projectId candidate.id, .ok ()⟩ ∈ past

/-- The usage of each project with a quota was asked for. -/
def Metered (past : Past) : Prop :=
  ∃ projects, ⟨.db .projectsList, .ok projects⟩ ∈ past ∧
    ∀ project ∈ projects, project.quotaBytes.isSome = true →
      ∃ usage, ⟨.db (.entriesProjectUsage project.id), .ok usage⟩ ∈ past

/-- An eviction failed. -/
def Refused (past : Past) : Prop :=
  ∃ projectId id error, ⟨eviction projectId id, .error error⟩ ∈ past

/-- The four phases were carried out, every candidate of the TTL queries was
evicted, and no eviction failed. -/
structure Complete (past : Past) : Prop extends Expired past where
  quota : Metered past
  global : ∃ usage, ⟨.db .blobsTotalSize, .ok usage⟩ ∈ past
  cleanup : ⟨.db (.blobsZeroRefcount 1000), .ok []⟩ ∈ past
  accepted : ¬Refused past

/-! ## What calls add to the record -/

/-- More was recorded, but no TTL query and no failed eviction. -/
structure Adds (past later : Past) : Prop where
  more : ∀ answer ∈ past, answer ∈ later
  queries : ∀ kind now cutoff candidates,
    ⟨.db (.ttlCandidates kind now cutoff), .ok candidates⟩ ∈ later →
      ⟨.db (.ttlCandidates kind now cutoff), .ok candidates⟩ ∈ past
  accepted : Refused later → Refused past

theorem Adds.refl (past : Past) : Adds past past :=
  ⟨fun _ => id, fun _ _ _ _ => id, id⟩

theorem Adds.trans
    {past middle later : Past} (first : Adds past middle)
    (second : Adds middle later) : Adds past later :=
  ⟨fun answer among => second.more answer (first.more answer among),
    fun _ _ _ _ among =>
      first.queries _ _ _ _ (second.queries _ _ _ _ among),
    first.accepted ∘ second.accepted⟩

theorem refused_append
    {past : Past} {answer : Answer Call Call.Reply CoreError}
    (accepted : ∀ projectId id error,
      answer ≠ ⟨eviction projectId id, .error error⟩)
    (refused : Refused (past ++ [answer])) : Refused past := by
  obtain ⟨projectId, id, error, among⟩ := refused
  rcases List.mem_append.mp among with old | new
  · exact ⟨projectId, id, error, old⟩
  · rw [List.mem_singleton] at new
    exact absurd new.symm (accepted projectId id error)

/-- The answer to any other call. -/
theorem adds_one
    (past : Past) {answer : Answer Call Call.Reply CoreError}
    (other : ∀ kind now cutoff,
      answer.request ≠ .db (.ttlCandidates kind now cutoff))
    (accepted : ∀ projectId id error,
      answer ≠ ⟨eviction projectId id, .error error⟩) :
    Adds past (past ++ [answer]) where
  accepted := refused_append accepted
  more _ among := List.mem_append_left _ among
  queries kind now cutoff candidates among := by
    rcases List.mem_append.mp among with old | new
    · exact old
    · rw [List.mem_singleton] at new
      subst new
      exact absurd rfl (other kind now cutoff)

theorem adds_ok
    (past : Past) {request : Call} (value : request.Reply)
    (other : ∀ kind now cutoff,
      request ≠ .db (.ttlCandidates kind now cutoff)) :
    Adds past (past ++ [⟨request, .ok value⟩]) :=
  adds_one past other (by rintro projectId id error ⟨⟩)

/-- The answer that was just recorded stays. -/
theorem Adds.last
    {past later : Past} {answer : Answer Call Call.Reply CoreError}
    (adds : Adds (past ++ [answer]) later) : answer ∈ later :=
  adds.more _ (List.mem_append_right _ List.mem_cons_self)

theorem Expired.adds
    {past later : Past} (expired : Expired past) (adds : Adds past later) :
    Expired later where
  ttl kind := by
    obtain ⟨now, cutoff, candidates, answered⟩ := expired.ttl kind
    exact ⟨now, cutoff, candidates, adds.more _ answered⟩
  evicted kind now cutoff candidates answered candidate among :=
    adds.more _ (expired.evicted kind now cutoff candidates
      (adds.queries _ _ _ _ answered) candidate among)

theorem Metered.adds
    {past later : Past} (metered : Metered past) (adds : Adds past later) :
    Metered later := by
  obtain ⟨projects, listed, asked⟩ := metered
  refine ⟨projects, adds.more _ listed, fun project among limited => ?_⟩
  obtain ⟨usage, answered⟩ := asked project among limited
  exact ⟨usage, adds.more _ answered⟩

theorem Complete.adds
    {past later : Past} (complete : Complete past) (adds : Adds past later) :
    Complete later where
  toExpired := complete.toExpired.adds adds
  quota := complete.quota.adds adds
  global := by
    obtain ⟨usage, answered⟩ := complete.global
    exact ⟨usage, adds.more _ answered⟩
  cleanup := adds.more _ complete.cleanup
  accepted := complete.accepted ∘ adds.accepted

section Records

/-- The program returns with a record of this kind. -/
abbrev Records (post : α → Past → Prop) (program : App α) (past : Past) :
    Prop :=
  program.Follows recording post (fun _ _ => True) past

/-- The rule for a call other than a TTL query. -/
theorem records_call
    {request : Call} {next : request.Reply → App α} {past : Past}
    {post : α → Past → Prop}
    (other : ∀ kind now cutoff, request ≠ .db (.ttlCandidates kind now cutoff))
    (rest : ∀ value, Records
      (fun result later =>
        Adds (past ++ [⟨request, .ok value⟩]) later ∧ post result later)
      (next value) (past ++ [⟨request, .ok value⟩])) :
    Records (fun result later => Adds past later ∧ post result later)
      (Program.perform request >>= next) past := by
  refine Program.follows_perform_then trivial fun value => ?_
  refine (rest value).mono ?_ fun _ _ => id
  rintro result later ⟨adds, known⟩
  exact ⟨(adds_ok past value other).trans adds, known⟩

/-- The rule for sequencing. -/
theorem records_bind
    {first : App α} {next : α → App β} {past : Past}
    {middle : α → Past → Prop} {post : β → Past → Prop}
    (records : Records (fun value later => Adds past later ∧ middle value later)
      first past)
    (rest : ∀ value between, Adds past between → middle value between →
      Records (fun result later => Adds between later ∧ post result later)
        (next value) between) :
    Records (fun result later => Adds past later ∧ post result later)
      (first >>= next) past := by
  refine Program.Follows.bind records ?_
  rintro value between ⟨adds, known⟩
  refine (rest value between adds known).mono ?_ fun _ _ => id
  rintro result later ⟨more, also⟩
  exact ⟨adds.trans more, also⟩

theorem ttlLoop_records
    (candidates : List Candidate) (rep : GcReport) (past : Past) :
    Records (fun _ later => Adds past later ∧ ∀ candidate ∈ candidates,
        ⟨eviction candidate.projectId candidate.id, .ok ()⟩ ∈ later)
      (ttlLoop false candidates rep) past := by
  induction candidates generalizing rep past with
  | nil => exact ⟨.refl _, fun _ among => absurd among List.not_mem_nil⟩
  | cons candidate rest inductionHypothesis =>
      refine records_call (by simp) fun value => ?_
      refine (inductionHypothesis _ _).mono ?_ fun _ _ => id
      rintro _ later ⟨adds, evicted⟩
      refine ⟨adds, fun other among => ?_⟩
      rcases List.mem_cons.mp among with rfl | among
      · exact adds.last
      · exact evicted other among

theorem lruLoop_records
    (quota : Int) (candidates : List Candidate) (usage : Int)
    (rep : GcReport) (past : Past) :
    Records (fun _ later => Adds past later ∧ True)
      (lruLoop false quota candidates usage rep) past := by
  induction candidates generalizing usage rep past with
  | nil => exact ⟨.refl _, trivial⟩
  | cons candidate rest inductionHypothesis =>
      unfold lruLoop
      split
      · exact ⟨.refl _, trivial⟩
      · exact records_call (by simp) fun _ => inductionHypothesis _ _ _

theorem quotaProject_records
    (project : Project) (rep : GcReport) (past : Past) :
    Records (fun _ later => Adds past later ∧
        (project.quotaBytes.isSome = true →
          ∃ usage, ⟨.db (.entriesProjectUsage project.id), .ok usage⟩ ∈ later))
      (quotaProject false project rep) past := by
  unfold quotaProject
  split
  · rename_i unlimited
    refine ⟨.refl _, fun limited => ?_⟩
    rw [unlimited] at limited
    cases limited
  · refine records_call (by simp) fun usage => ?_
    split
    · exact ⟨.refl _, fun _ =>
        ⟨usage, List.mem_append_right _ List.mem_cons_self⟩⟩
    · refine records_call (by simp) fun candidates => ?_
      refine (lruLoop_records _ _ _ _ _).mono ?_ fun _ _ => id
      rintro _ later ⟨adds, -⟩
      exact ⟨adds, fun _ => ⟨usage, adds.more _ (List.mem_append_left _
        (List.mem_append_right _ List.mem_cons_self))⟩⟩

theorem quotaLoop_records
    (projects : List Project) (rep : GcReport) (past : Past) :
    Records (fun _ later => Adds past later ∧
        ∀ project ∈ projects, project.quotaBytes.isSome = true →
          ∃ usage, ⟨.db (.entriesProjectUsage project.id), .ok usage⟩ ∈ later)
      (quotaLoop false projects rep) past := by
  induction projects generalizing rep past with
  | nil => exact ⟨.refl _, fun _ among => absurd among List.not_mem_nil⟩
  | cons project rest inductionHypothesis =>
      refine records_bind (quotaProject_records project rep past) ?_
      intro rep between _ asked
      refine (inductionHypothesis rep between).mono ?_ fun _ _ => id
      rintro _ later ⟨adds, others⟩
      refine ⟨adds, fun other among limited => ?_⟩
      rcases List.mem_cons.mp among with rfl | among
      · obtain ⟨usage, answered⟩ := asked limited
        exact ⟨usage, adds.more _ answered⟩
      · exact others other among limited

theorem quotaPhase_records (rep : GcReport) (past : Past) :
    Records (fun _ later => Adds past later ∧ Metered later)
      (quotaPhase false rep) past := by
  refine records_call (by simp) fun projects => ?_
  refine (quotaLoop_records projects rep _).mono ?_ fun _ _ => id
  rintro _ later ⟨adds, asked⟩
  exact ⟨adds, projects, adds.last, asked⟩

theorem globalPhase_records
    (config : GcConfig) (rep : GcReport) (past : Past) :
    Records (fun _ later => Adds past later ∧
        ∃ usage, ⟨.db .blobsTotalSize, .ok usage⟩ ∈ later)
      (globalPhase config false rep) past := by
  refine records_call (by simp) fun usage => ?_
  simp only
  split
  · exact ⟨.refl _, usage, List.mem_append_right _ List.mem_cons_self⟩
  · refine records_call (by simp) fun candidates => ?_
    refine (lruLoop_records _ _ _ _ _).mono ?_ fun _ _ => id
    rintro _ later ⟨adds, -⟩
    exact ⟨adds, usage, adds.more _ (List.mem_append_left _
      (List.mem_append_right _ List.mem_cons_self))⟩

theorem freeBlob_records (hash : String) (past : Past) :
    Records (fun _ later => Adds past later ∧ True) (freeBlob false hash)
      past := by
  rw [freeBlob_eq]
  refine ⟨trivial, fun reply => ⟨trivial, fun answered => ?_⟩⟩
  cases answered with
  | error error => trivial
  | ok value =>
      exact ⟨(adds_one _ (by simp) (by simp [eviction])).trans
        (adds_ok _ value (by simp)), trivial⟩

theorem cleanupBatch_records
    (batch : List String) (rep : GcReport) (past : Past) :
    Records (fun _ later => Adds past later ∧ True)
      (cleanupBatch false batch rep) past := by
  induction batch generalizing rep past with
  | nil => exact ⟨.refl _, trivial⟩
  | cons hash rest inductionHypothesis =>
      exact records_bind (freeBlob_records hash past)
        fun _ between _ _ => inductionHypothesis _ between

theorem cleanupBlobs_records
    (budget : Nat) (rep : GcReport) (past : Past) :
    Records (fun _ later => Adds past later ∧
        ⟨.db (.blobsZeroRefcount 1000), .ok []⟩ ∈ later)
      (cleanupBlobs false budget rep) past := by
  induction budget generalizing rep past with
  | zero => trivial
  | succ budget inductionHypothesis =>
      refine records_call (by simp) fun batch => ?_
      split
      · rename_i nothing
        rw [List.isEmpty_iff] at nothing
        subst nothing
        exact ⟨.refl _, List.mem_append_right _ List.mem_cons_self⟩
      · refine records_bind (cleanupBatch_records batch rep _) ?_
        intro rep between _ _
        exact inductionHypothesis rep between

/-- One TTL query was added, and its candidates were evicted. -/
structure Queried (kind : Kind) (past later : Past) : Prop where
  more : ∀ answer ∈ past, answer ∈ later
  query : ∃ now cutoff candidates,
    ⟨.db (.ttlCandidates kind now cutoff), .ok candidates⟩ ∈ later
  evicted : ∀ other now cutoff candidates,
    ⟨.db (.ttlCandidates other now cutoff), .ok candidates⟩ ∈ later →
      ⟨.db (.ttlCandidates other now cutoff), .ok candidates⟩ ∈ past ∨
        ∀ candidate ∈ candidates,
          ⟨eviction candidate.projectId candidate.id, .ok ()⟩ ∈ later
  accepted : Refused later → Refused past

theorem ttlKind_records
    (config : GcConfig) (now : Int) (kind : Kind) (rep : GcReport)
    (past : Past) :
    Records (fun _ later => Queried kind past later)
      (ttlKind config false now kind rep) past := by
  refine Program.follows_perform_then trivial fun candidates => ?_
  refine (ttlLoop_records candidates rep _).mono ?_ fun _ _ => id
  rintro _ later ⟨adds, evicted⟩
  constructor
  case more =>
    exact fun answer among => adds.more _ (List.mem_append_left _ among)
  case query => exact ⟨_, _, _, adds.last⟩
  case evicted =>
    intro other clock cutoff others among
    rcases List.mem_append.mp (adds.queries _ _ _ _ among) with old | new
    · exact .inl old
    · rw [List.mem_singleton] at new
      cases new
      exact .inr evicted
  case accepted =>
    exact fun refused => refused_append (by rintro _ _ _ ⟨⟩)
      (adds.accepted refused)

/-- No TTL query and no failed eviction was recorded. -/
structure Fresh (past : Past) : Prop where
  queries : ∀ kind now cutoff candidates,
    ⟨.db (.ttlCandidates kind now cutoff), .ok candidates⟩ ∉ past
  accepted : ¬Refused past

theorem fresh_nil : Fresh [] where
  queries _ _ _ _ := List.not_mem_nil
  accepted := by
    rintro ⟨_, _, _, among⟩
    exact absurd among List.not_mem_nil

theorem Fresh.adds
    {past later : Past} (fresh : Fresh past) (adds : Adds past later) :
    Fresh later where
  queries _ _ _ _ among :=
    fresh.queries _ _ _ _ (adds.queries _ _ _ _ among)
  accepted := fresh.accepted ∘ adds.accepted

theorem ttlPhase_records
    (config : GcConfig) (rep : GcReport) {past : Past}
    (fresh : Fresh past) :
    Records (fun _ later => Expired later ∧ ¬Refused later)
      (ttlPhase config false rep) past := by
  refine Program.follows_perform_then trivial fun now => ?_
  have adds : Adds past (past ++ [⟨.now, .ok now⟩]) :=
    adds_ok past now (by simp)
  refine (ttlKind_records config now .sstate rep _).bind ?_
  intro rep middle first
  refine (ttlKind_records config now .downloads rep middle).mono ?_
    fun _ _ => id
  intro _ later second
  refine ⟨⟨?ttl, ?evicted⟩, fresh.accepted ∘ adds.accepted ∘ first.accepted ∘
    second.accepted⟩
  case ttl =>
    intro kind
    cases kind with
    | sstate =>
        obtain ⟨clock, cutoff, candidates, answered⟩ := first.query
        exact ⟨clock, cutoff, candidates, second.more _ answered⟩
    | downloads => exact second.query
  case evicted =>
    intro kind clock cutoff candidates answered
    rcases second.evicted _ _ _ _ answered with earlier | evicted
    · rcases first.evicted _ _ _ _ earlier with before | evicted
      · exact absurd (adds.queries _ _ _ _ before) (fresh.queries _ _ _ _)
      · exact fun candidate among => second.more _ (evicted candidate among)
    · exact evicted

/-- A sweep that returns has carried out its four phases. -/
theorem sweep_records
    (config : GcConfig) (budget : Nat) {past : Past} (fresh : Fresh past) :
    Records (fun _ later => Complete later) (sweep config budget false)
      past := by
  refine (ttlPhase_records config .default fresh).bind ?_
  rintro rep past ⟨expired, accepted⟩
  have others : Records
      (fun _ later => Adds past later ∧
        Metered later ∧
          (∃ usage, ⟨.db .blobsTotalSize, .ok usage⟩ ∈ later) ∧
          ⟨.db (.blobsZeroRefcount 1000), .ok []⟩ ∈ later)
      (do
        let rep ← quotaPhase false rep
        let rep ← globalPhase config false rep
        let rep ← cleanupBlobs false budget rep
        let usage ← transact .blobsTotalSize
        pure { rep with usageGlobalBytes := usage }) past := by
    refine records_bind (quotaPhase_records rep past) ?_
    intro rep metered _ quota
    refine records_bind (globalPhase_records config rep metered) ?_
    intro rep weighed toWeighed global
    refine records_bind (cleanupBlobs_records budget rep weighed) ?_
    intro rep cleaned toCleaned cleanup
    refine records_call (by simp) fun usage => ?_
    have asked : Adds cleaned (cleaned ++ [⟨.db .blobsTotalSize, .ok usage⟩]) :=
      adds_ok cleaned usage (by simp)
    exact ⟨.refl _, quota.adds ((toWeighed.trans toCleaned).trans asked),
      ⟨usage, List.mem_append_right _ List.mem_cons_self⟩,
      asked.more _ cleanup⟩
  refine others.mono ?_ fun _ _ => id
  rintro _ later ⟨adds, metered, global, cleanup⟩
  have expired := expired.adds adds
  exact ⟨expired, metered, global, cleanup, accepted ∘ adds.accepted⟩

/-- The same with the mutex around it. -/
theorem run_records (config : GcConfig) (budget : Nat) :
    Records (fun _ later => Complete later) (run config budget false) [] := by
  refine Program.follows_perform_then trivial fun _ => ?_
  have locked : Adds [] ([] ++ [⟨.gcLock, .ok ()⟩]) :=
    @adds_ok [] .gcLock () (by simp)
  have swept : Records (fun _ later => Complete later)
      (sweep config budget false) ([] ++ [⟨.gcLock, .ok ()⟩]) :=
    sweep_records config budget (fresh_nil.adds locked)
  refine swept.ensuring ?_ fun _ _ _ =>
    Program.follows_perform trivial (fun _ => trivial) fun _ => trivial
  intro rep later complete
  refine Program.follows_perform trivial (fun value => ?_) fun _ => trivial
  exact complete.adds (adds_ok _ value (by simp))

end Records

/-! ## The moves of the deletions -/

/-- The calls of a delete, and of the clock. -/
def Deletes : Call → Prop
  | .db call =>
      (∃ projectId id, call = .entriesDelete projectId id) ∨
        (∃ id, call = .projectsDelete id) ∨ call.Inert
  | .now => True
  | .tick _ => True
  | _ => False

/-- The calls of each task; those of the sweep are not restricted. -/
def taskCalls {κ : Type} (thread : Option κ) (request : Call) : Prop :=
  thread ≠ none → Deletes request

theorem deletion_uses
    (env : Env) (config : Config) (budget : Nat) (deletion : Deletion) :
    (deletion.operation.program env config budget).Uses Deletes
      fun _ => True := by
  cases deletion with
  | entry auth id eid =>
      have uses : (Admin.deleteEntry auth id eid).Uses Deletes fun _ => True :=
        Program.uses_perform_then (.inl ⟨_, _, rfl⟩) fun _ =>
          Program.uses_perform_then trivial fun _ =>
            Program.uses_perform (.inr (.inr trivial)) fun _ => trivial
      exact uses.bind fun _ _ => trivial
  | project auth id =>
      have uses : (Admin.deleteProject auth id).Uses Deletes fun _ => True :=
        Program.uses_perform_then (.inr (.inl ⟨_, rfl⟩)) fun _ =>
          Program.uses_perform_then trivial fun _ =>
            Program.uses_perform (.inr (.inr trivial)) fun _ => trivial
      exact uses.bind fun _ _ => trivial
  | wait nanos => exact Program.uses_perform_then trivial fun _ => trivial

theorem start_footed
    {κ : Type} (env : Env) (config : Config) (budget : Nat)
    (deletions : κ → Deletion) (world : World) :
    (start env config budget deletions world).Footed taskCalls := by
  intro thread
  cases thread with
  | none =>
      exact Program.uses_any (fun _ different => absurd rfl different) _
  | some thread =>
      exact (deletion_uses env config budget (deletions thread)).mono
        (fun _ used _ => used) fun _ => id

/-- Deleting an entry thins the table. -/
theorem thins_deleted
    {ahead : List Call} {world : World} {db : Db} {entry : Entry}
    (deleted : Entries.Deleted world.db db entry)
    (spared : eviction entry.projectId entry.id ∉ ahead) :
    Thins ahead world { world with db := db } where
  mutex := rfl
  entries other present := by
    simp only [deleted.rows, List.mem_filter] at present
    exact present.1
  kept other present first := by
    simp only [deleted.rows, List.mem_filter, Bool.not_eq_true',
      decide_eq_false_iff_not]
    refine ⟨present, fun same => spared ?_⟩
    rwa [world.db.entries.eq_of_id present deleted.present same] at first
  covered covered hash := by
    rw [deleted.exchange.surplus hash]
    exact covered hash
  hasBlob hash := by
    rw [Db.hasBlob_iff_storedSize, Db.hasBlob_iff_storedSize,
      deleted.storedSize hash]
  rows := by simp only [deleted.blobs, List.length_map]

/-- So does deleting a project with its entries. -/
theorem thins_cascade
    {env : Env} {ahead : List Call} {world : World} {db : Db} {id : Int}
    {reply : Unit}
    (ran : DbCall.exec env world.now (.projectsDelete id) world.db =
      .ok (reply, db))
    (spared : ∀ entry : Entry, entry.projectId = id →
      eviction entry.projectId entry.id ∉ ahead) :
    Thins ahead world { world with db := db } := by
  obtain ⟨-, rows, -, blobs, -⟩ := Projects.deleted ran
  constructor
  case mutex => rfl
  case entries =>
    intro entry present
    simp only [rows, List.mem_filter] at present
    exact present.1
  case kept =>
    intro entry present first
    simp only [rows, List.mem_filter, Bool.not_eq_true',
      decide_eq_false_iff_not]
    exact ⟨present, fun owned => spared entry owned first⟩
  case covered =>
    intro covered hash
    rcases DbCall.exec_surplus ran hash with same | zero | ⟨_, -, raised⟩
    · rw [same]
      exact covered hash
    · exact zero.ge
    · have before := covered hash
      rw [raised]
      omega
  case hasBlob =>
    intro hash
    simp only [Db.HasBlob, blobs]
  case rows => simp only [blobs]

/-- A call that leaves entries and blobs alone. -/
theorem thins_sameStore
    {ahead : List Call} {world : World} {db : Db}
    (same : Db.SameStore world.db db) :
    Thins ahead world { world with db := db } where
  mutex := rfl
  entries entry present := by rwa [← same.entries]
  kept entry present _ := by rwa [same.entries]
  covered covered hash := by
    rw [same.surplus hash]
    exact covered hash
  hasBlob hash := same.hasBlob
  rows := by rw [same.blobs]

/-- The clock leaves the database alone. -/
theorem thins_elapse (ahead : List Call) (world : World) (nanos : Nat) :
    Thins ahead world (world.elapse nanos) where
  mutex := rfl
  entries _ := id
  kept _ present _ := present
  covered := id
  hasBlob _ := Iff.rfl
  rows := rfl

/-- A delete of other entries than those that the sweep is about to evict
thins the table. -/
theorem thins_of_spared
    {env : Env} {config : Config} {ahead : List Call} {request : Call}
    {reply : Except CoreError request.Reply} {before after : World}
    (deletes : Deletes request)
    (spared : ∀ victim ∈ ahead, ¬Hits request victim)
    (answered : exec env config request before = some (reply, after)) :
    Thins ahead before after := by
  cases request with
  | db call =>
      simp only [exec] at answered
      split at answered
      · rename_i value db ran
        cases answered
        rcases deletes with ⟨projectId, id, rfl⟩ | ⟨id, rfl⟩ | inert
        · obtain ⟨entry, rfl, rfl, deleted⟩ := Entries.deleted ran
          exact thins_deleted deleted fun first => spared _ first rfl
        · refine thins_cascade ran fun entry owned first => ?_
          exact spared _ first ⟨entry.id, by rw [owned]⟩
        · exact thins_sameStore (DbCall.exec_inert inert ran)
      · cases answered
        exact .refl _ _
  | now =>
      cases answered
      exact .refl _ _
  | tick nanos =>
      cases answered
      exact thins_elapse ahead before nanos
  | _ => exact deletes.elim

/-! ## Runs -/

section Runs

variable {κ : Type} [DecidableEq κ]
variable {env : Env} {config : Config} {budget : Nat}
variable {deletions : κ → Deletion} {world : World}

/-- The condition, and that a task makes a call of its own kind. -/
def Permitted (pool : Tasks κ) (thread : Option κ) (request : Call) : Prop :=
  Spares pool thread request ∧ taskCalls thread request

omit [DecidableEq κ] in
theorem considerate (env : Env) (config : Config) :
    Pool.Considerate (exec env config) evictions Thins none
      (@Permitted κ) :=
  fun _ _ _ _ _ other permitted answered =>
    thins_of_spared (permitted.2 other) (permitted.1 other) answered

omit [DecidableEq κ] in
theorem start_secured
    (unlocked : world.gcRunning = false) (covered : world.db.Covered)
    (enough : world.db.blobs.rows.length < budget) :
    (start env config budget deletions world).Secured (exec env config)
      evictions Thins (fun _ _ => True) none := by
  refine ⟨world, .refl, ?_⟩
  have safe : Safe env config (fun _ _ => True) (run config.gc budget false)
      world := safe_run unlocked covered enough
  exact safe.bind thins_antitone fun _ _ _ => trivial

/-- In every reachable state a sweep that has returned was complete. -/
theorem complete_of_returned
    {allowed : Tasks κ → Option κ → Call → Prop} {pool : Tasks κ}
    {response : Option Response}
    (reached : Pool.Reaches recording (exec env config).answers allowed
      (start env config budget deletions world) pool)
    (returned : pool.threads none = .done response) :
    Complete (pool.records none) := by
  have follows (thread : Option κ) :
      ((start env config budget deletions world).threads thread).Follows
        recording (fun _ past => thread = none → Complete past)
        (fun _ _ => True)
        ((start env config budget deletions world).records thread) := by
    cases thread with
    | none =>
        exact Program.Follows.bind (run_records config.gc budget)
          fun _ _ complete _ => complete
    | some thread =>
        refine (Program.follows_recording _ _).mono ?_ fun _ _ => id
        rintro _ _ - ⟨⟩
  have ended := reached.follows follows none
  rw [returned] at ended
  exact ended rfl

/-! ## Steps that do not spare the sweep -/

/-- No entry is left for this eviction. -/
def Missing (victim : Call) (world : World) : Prop :=
  ∀ entry ∈ world.db.entries.rows,
    victim ≠ eviction entry.projectId entry.id

/-- An eviction has failed, or there is nothing left for one that the sweep is
about to make. -/
def Doomed (pool : Tasks κ) : Prop :=
  Refused (pool.records none) ∨
    ∃ victim ∈ (pool.threads none).ahead evictions, Missing victim pool.world

/-- Neither deletes nor evictions bring an entry back. -/
theorem missing_exec
    {request victim : Call} {reply : Except CoreError request.Reply}
    {before after : World}
    (deletes : Deletes request)
    (answered : exec env config request before = some (reply, after))
    (missing : Missing victim before) : Missing victim after := by
  have thins : Thins [] before after :=
    thins_of_spared deletes (fun _ first => absurd first List.not_mem_nil)
      answered
  exact fun entry present => missing entry (thins.entries entry present)

/-- An eviction of a missing entry fails. -/
theorem missing_refuses
    {projectId id : Int} {reply : Except CoreError Unit}
    {before after : World}
    (missing : Missing (eviction projectId id) before)
    (answered : exec env config (.db (.entriesDelete projectId id)) before =
      some (reply, after)) : ∃ error, reply = .error error := by
  have none : ∀ entry ∈ before.db.entries.rows,
      ¬(entry.projectId = projectId ∧ entry.id = id) := by
    rintro entry present ⟨rfl, rfl⟩
    exact missing entry present rfl
  simp only [exec, DbCall.exec, Entries.delete_missing none] at answered
  cases answered
  exact ⟨_, rfl⟩

/-- A delete that hits an eviction leaves no entry for it. -/
theorem missing_of_hit
    {request victim : Call} {reply : Except CoreError request.Reply}
    {before after : World}
    (hits : Hits request victim)
    (answered : exec env config request before = some (reply, after)) :
    Missing victim after := by
  unfold Hits at hits
  split at hits
  · rename_i projectId id
    subst hits
    simp only [exec, DbCall.exec] at answered
    split at answered
    · rename_i value db ran
      cases answered
      obtain ⟨deleted, -, rfl, done⟩ := Entries.deleted ran
      intro entry present same
      simp only [done.rows, List.mem_filter, Bool.not_eq_true',
        decide_eq_false_iff_not] at present
      simp only [eviction, Call.db.injEq, DbCall.entriesDelete.injEq] at same
      exact present.2 same.2.symm
    · rename_i error ran
      cases answered
      intro entry present same
      simp only [eviction, Call.db.injEq, DbCall.entriesDelete.injEq] at same
      obtain ⟨db, deleted, -⟩ := Entries.delete_ok present
      rw [← same.1, ← same.2, ran] at deleted
      cases deleted
  · rename_i projectId
    obtain ⟨id, rfl⟩ := hits
    simp only [exec, DbCall.exec] at answered
    split at answered
    · rename_i value db ran
      cases answered
      obtain ⟨-, rows, -⟩ := Projects.deleted ran
      intro entry present same
      simp only [rows, List.mem_filter, Bool.not_eq_true',
        decide_eq_false_iff_not] at present
      simp only [eviction, Call.db.injEq, DbCall.entriesDelete.injEq] at same
      exact present.2 same.1.symm
    · rename_i error ran
      cases answered
      intro entry present same
      simp only [eviction, Call.db.injEq, DbCall.entriesDelete.injEq] at same
      have owned := before.db.entry_project entry present
      rw [← same.1] at owned
      obtain ⟨result, deleted⟩ := Projects.delete_accepted owned
      rw [ran] at deleted
      cases deleted
  · exact hits.elim

/-- The sweep itself gets no further than the eviction. -/
theorem doomed_next
    {request victim : Call}
    {next : Except CoreError request.Reply → App (Option Response)}
    {reply : Except CoreError request.Reply} {before after : World}
    (first : victim ∈ (Program.call request next).ahead evictions)
    (missing : Missing victim before)
    (answered : exec env config request before = some (reply, after)) :
    (∃ projectId id error, (⟨request, reply⟩ : Answer Call Call.Reply CoreError)
        = ⟨eviction projectId id, .error error⟩) ∨
      (victim ∈ (next reply).ahead evictions ∧ Missing victim after) := by
  unfold Program.ahead at first
  split at first
  · rename_i value expects
    unfold evictions at expects
    split at expects
    · rename_i projectId id _
      cases reply with
      | error error => exact .inl ⟨projectId, id, error, rfl⟩
      | ok value =>
          rcases List.mem_cons.mp first with rfl | first
          · obtain ⟨error, failed⟩ := missing_refuses missing answered
            cases failed
          · have deletes : Deletes (.db (.entriesDelete projectId id)) :=
              .inl ⟨projectId, id, rfl⟩
            exact .inr ⟨first, missing_exec deletes answered missing⟩
    · cases expects
  · exact absurd first List.not_mem_nil

theorem Doomed.step
    {pool final : Tasks κ} {actor : Option κ} {request : Call}
    {reply : Except CoreError request.Reply}
    (footed : pool.Footed taskCalls) (doomed : Doomed pool)
    (step : Pool.Step recording (exec env config).answers pool actor request
      reply final) : Doomed final := by
  have kind := (footed.step step).1
  obtain ⟨waiting, answered⟩ := step
  rename_i next after
  by_cases own : actor = none
  · subst own
    rcases doomed with ⟨projectId, id, error, among⟩ | ⟨victim, first, missing⟩
    · refine .inl ⟨projectId, id, error, ?_⟩
      simpa [Pool.resume, recording] using Or.inl among
    · rw [waiting] at first
      rcases doomed_next first missing answered with ⟨projectId, id, error, same⟩
          | ⟨first, missing⟩
      · refine .inl ⟨projectId, id, error, ?_⟩
        simp [Pool.resume, recording, same]
      · refine .inr ⟨victim, ?_, missing⟩
        simpa [Pool.resume] using first
  · have program : (pool.resume recording actor request next reply
        after).threads none = pool.threads none := by
      simp [Pool.resume, Ne.symm own]
    have record : (pool.resume recording actor request next reply
        after).records none = pool.records none := by
      simp [Pool.resume, Ne.symm own]
    unfold Doomed
    rw [program, record]
    rcases doomed with refused | ⟨victim, first, missing⟩
    · exact .inl refused
    · exact .inr ⟨victim, first, missing_exec (kind own) answered missing⟩

/-- A sweep that others did not spare does not return. -/
theorem doomed_of_step
    {pool final : Tasks κ} {actor : Option κ} {request : Call}
    {reply : Except CoreError request.Reply}
    (unspared : ¬Spares pool actor request)
    (step : Pool.Step recording (exec env config).answers pool actor request
      reply final) : Doomed final := by
  simp only [Spares, Classical.not_imp, not_forall, not_not] at unspared
  obtain ⟨other, victim, first, hits⟩ := unspared
  obtain ⟨-, answered⟩ := step
  rename_i next after
  refine .inr ⟨victim, ?_, missing_of_hit hits answered⟩
  simpa [Pool.resume, Ne.symm other] using first

theorem Doomed.reaches
    {pool final : Tasks κ}
    (footed : pool.Footed taskCalls) (doomed : Doomed pool)
    (reached : Pool.Reaches recording (exec env config).answers
      (fun _ _ _ => True) pool final) : Doomed final := by
  induction reached with
  | refl => exact doomed
  | tail earlier _ step inductionHypothesis =>
      exact inductionHypothesis.step (earlier.footed footed).1 step

/-- A sweep next to deletes of entries and of projects is never aborted, in a
fair run it returns, and when it returns it has carried out its four phases and
evicted every candidate of its TTL queries, provided that no entry is deleted
that the sweep has queried and goes on to evict.  After one such delete the
sweep does not return. -/
theorem sweep_survives_deletes
    (env : Env) (config : Config) (budget : Nat) (deletions : κ → Deletion)
    (world : World)
    (unlocked : world.gcRunning = false) (covered : world.db.Covered)
    (enough : world.db.blobs.rows.length < budget) :
    (∀ pool : Tasks κ,
      Pool.Reaches recording (exec env config).answers Spares
        (start env config budget deletions world) pool →
      (∀ error, pool.threads none ≠ .fail error) ∧
        pool.threads none ≠ .spin ∧
        ∀ response, pool.threads none = .done response →
          Complete (pool.records none)) ∧
    (∀ pools : Nat → Tasks κ,
      Pool.FairRun recording (exec env config).answers Spares
        (start env config budget deletions world) none pools →
      ∃ moment response, (pools moment).threads none = .done response ∧
        Complete ((pools moment).records none)) ∧
    ∀ (pool struck later : Tasks κ) thread request reply,
      Pool.Reaches recording (exec env config).answers (fun _ _ _ => True)
        (start env config budget deletions world) pool →
      Pool.Step recording (exec env config).answers pool thread request reply
        struck →
      ¬Spares pool thread request →
      Pool.Reaches recording (exec env config).answers (fun _ _ _ => True)
        struck later →
      ∀ response, later.threads none ≠ .done response := by
  have footed := start_footed env config budget deletions world
  have secured : (start env config budget deletions world).Secured
      (exec env config) evictions Thins (fun _ _ => True) none :=
    start_secured unlocked covered enough
  refine ⟨fun pool reached => ?_, fun pools run => ?_, ?_⟩
  · have kept := secured.reaches (considerate env config)
      (reached.footed footed).2
    exact ⟨kept.not_fail.1, kept.not_fail.2,
      fun _ returned => complete_of_returned reached returned⟩
  · obtain ⟨moment, response, returned⟩ :=
      (run.footed footed).returns (considerate env config) secured
    exact ⟨moment, response, returned,
      complete_of_returned (run.reaches moment) returned⟩
  · intro pool struck later thread request reply reached step unspared rest
      response returned
    have doomed : Doomed later :=
      (doomed_of_step unspared step).reaches
        ((reached.footed footed).1.step step).2 rest
    have complete := complete_of_returned
      ((reached.tail trivial step).trans rest) returned
    rcases doomed with refused | ⟨victim, first, -⟩
    · exact complete.accepted refused
    · rw [returned] at first
      exact absurd first List.not_mem_nil

end Runs

/-! ## Three expired entries -/

/-- A project with three entries that are a hundred days old. -/
def stale : World :=
  (Program.run (exec Sample.env (Sample.config 1024)) (do
    let _ ← transact (.projectsCreate "acme" none none)
    let _ ← transact (.entriesUpsert 1 .sstate "first" (Sample.sha256 [97]) 1)
    let _ ← transact (.entriesUpsert 1 .sstate "second" (Sample.sha256 [98]) 1)
    let _ ← transact (.entriesUpsert 1 .sstate "third" (Sample.sha256 [97]) 1)
    Program.perform (Call.tick (100 * 86400 * nanosPerSec)))
      (World.initial 1000)).2

/-- A sweep, one delete of the second entry, and a clock that moves on. -/
def threeTasks : Tasks (Fin 2) :=
  start Sample.env (Sample.config 1024) 3
    (fun
      | 0 => .entry Operation.root 1 2
      | 1 => .wait nanosPerSec) stale

/-- The call of the clock. -/
def ticks : Call → Bool
  | .tick _ => true
  | _ => false

/-- The sweep goes on, or there is nothing ahead of it, or only the clock
moves. -/
def yields
    (pool : Tasks (Fin 2)) (thread : Option (Fin 2)) (request : Call) : Bool :=
  decide (thread = none) || ((pool.threads none).ahead evictions).isEmpty ||
    ticks request

theorem spares_of_yields
    {pool : Tasks (Fin 2)} {thread : Option (Fin 2)} {request : Call}
    (yields : yields pool thread request = true) :
    Spares pool thread request := by
  intro other victim first
  simp only [SweepVersusDeletes.yields, other, decide_false, Bool.false_or,
    Bool.or_eq_true, List.isEmpty_iff] at yields
  rcases yields with none | ticking
  · rw [none] at first
    exact absurd first List.not_mem_nil
  · unfold ticks at ticking
    split at ticking
    · exact id
    · cases ticking

/-- The task has returned. -/
def returned : App (Option Response) → Bool
  | .done _ => true
  | _ => false

theorem returned_spec
    {program : App (Option Response)} (ended : returned program = true) :
    ∃ response, program = .done response := by
  unfold returned at ended
  split at ended
  · exact ⟨_, rfl⟩
  · cases ended

/-- The delete comes before the first query, the clock moves on after it. -/
theorem sweep_survives_deletes_stale :
    ∃ pool : Tasks (Fin 2),
      pool.world.db.entries.rows = [] ∧
      (∃ response, pool.threads none = .done response) ∧
        Complete (pool.records none) := by
  have ran : ((Pool.replay recording
      (exec Sample.env (Sample.config 1024)) yields
      ([none, some 0] ++ List.replicate 4 none ++ [some 1] ++
        List.replicate 11 none) threeTasks).any
        fun pool => pool.world.db.entries.rows.isEmpty &&
          returned (pool.threads none)) = true := by
    decide +kernel
  rw [Option.any_eq_true] at ran
  obtain ⟨pool, replayed, outcome⟩ := ran
  rw [Bool.and_eq_true, List.isEmpty_iff] at outcome
  obtain ⟨response, ended⟩ := returned_spec outcome.2
  refine ⟨pool, outcome.1, ⟨response, ended⟩, ?_⟩
  exact ((sweep_survives_deletes Sample.env (Sample.config 1024) 3
    _ stale (by decide +kernel)
    (Db.covered_iff.mpr (by decide +kernel)) (by decide +kernel)).1 pool
    (Pool.reaches_of_replay (fun _ _ _ _ => id)
      (fun _ _ _ => spares_of_yields) .refl replayed)).2.2 response ended

/-- A sweep and one delete of the second entry. -/
def twoTasks : Tasks (Fin 1) :=
  start Sample.env (Sample.config 1024) 3
    (fun _ => .entry Operation.root 1 2) stale

/-- The task has failed because it did not find this. -/
def notFound : App (Option Response) → Option String
  | .fail (.notFound what) => some what
  | _ => none

theorem notFound_spec
    {program : App (Option Response)} {what : String}
    (failed : notFound program = some what) :
    program = .fail (.notFound what) := by
  unfold notFound at failed
  split at failed
  · cases failed
    rfl
  · cases failed

/-- The delete comes after the query: it aborts the sweep, and an expired
candidate stays. -/
theorem delete_aborts_sweep :
    ∃ pool : Tasks (Fin 1),
      Pool.Reaches recording
        (exec Sample.env (Sample.config 1024)).answers (fun _ _ _ => True)
        twoTasks pool ∧
      pool.threads none = .fail (.notFound "entry 2") ∧
      ∃ entry ∈ GcQueries.expired pool.world.db .sstate pool.world.now
          (pool.world.now - 90 * 86400), entry.path = "third" := by
  have ran : ((Pool.replay recording
      (exec Sample.env (Sample.config 1024)) (fun _ _ _ => true)
      (List.replicate 3 none ++ [some 0] ++ List.replicate 3 none)
      twoTasks).any
        fun pool =>
          decide (notFound (pool.threads none) = some "entry 2") &&
            (GcQueries.expired pool.world.db .sstate pool.world.now
              (pool.world.now - 90 * 86400)).any fun entry =>
                entry.path == "third") = true := by
    decide +kernel
  rw [Option.any_eq_true] at ran
  obtain ⟨pool, replayed, outcome⟩ := ran
  simp only [Bool.and_eq_true, decide_eq_true_eq, List.any_eq_true,
    beq_iff_eq] at outcome
  exact ⟨pool, Pool.reaches_of_free_replay (fun _ _ _ _ => id) replayed,
    notFound_spec outcome.1, outcome.2⟩

end SweepVersusDeletes

end Marmotte
