import Marmotte.Footprints
import Marmotte.Operations

/-!
# The calls of an operation

Which calls each operation makes, whatever replies it gets.
-/

namespace Marmotte

open Effects Program

/-- The call writes a row of the audit log. -/
def Audits (request : Call) : Prop :=
  ∃ timestamp actorToken action target detail,
    request = .db (.audit timestamp actorToken action target detail)

/-- The calls of `Stats::audit`. -/
def auditCalls (request : Call) : Prop := request = .now ∨ Audits request

/-- The calls of a read. -/
def readCalls : Call → Prop
  | .db (.entriesFind ..) => True
  | .fs (.openFile _) => True
  | .spawn (.touch _) => True
  | _ => False

/-- The transactions of an upload to a key. -/
def recordCalls (key : Key) : Call → Prop
  | .db (.entriesUpsert projectId kind path _ _) =>
      key = ⟨projectId, kind, path⟩
  | .db (.statsBump ..) => True
  | .db .blobsTotalSize => True
  | .spawn .gcRun => True
  | _ => False

/-- The calls of an orphan scan. -/
def scanCalls : Call → Prop
  | .gcLock => True
  | .gcUnlock => True
  | .fs .blobsExists => True
  | .fs .walkBlobs => True
  | .fs (.removeFile path) => ∃ hash, path = blobPath hash
  | .db .blobsHashes => True
  | .db (.purge _) => True
  | _ => False

/-- The calls of an orphan scan below the mutex. -/
def reconcileCalls : Call → Prop
  | .fs .blobsExists => True
  | .fs .walkBlobs => True
  | .fs (.removeFile path) => ∃ hash, path = blobPath hash
  | .db .blobsHashes => True
  | .db (.purge _) => True
  | _ => False

namespace Operation

/-- The calls of an operation. -/
def calls (operation : Operation) (request : Call) : Prop :=
  match operation with
  | .put upload => uploadCalls request ∨ recordCalls upload.key request
  | .touch id => request = .db (.entriesTouch id)
  | .createProject _ name quotaBytes ttlSeconds =>
      request = .db (.projectsCreate name quotaBytes ttlSeconds) ∨
        auditCalls request
  | .updateProject _ id newName quotaBytes ttlSeconds =>
      request = .db (.projectsUpdate id newName quotaBytes ttlSeconds) ∨
        request = .db (.projectsGet id) ∨ auditCalls request
  | .deleteProject _ id => request = .db (.projectsDelete id) ∨ auditCalls request
  | .deleteEntry _ id eid =>
      request = .db (.entriesDelete id eid) ∨ auditCalls request
  | .pin _ id eid =>
      request = .db (.entriesSetPinned id eid true) ∨ auditCalls request
  | .unpin _ id eid =>
      request = .db (.entriesSetPinned id eid false) ∨ auditCalls request
  | .gcRun => sweepCalls request
  | .orphanScan => scanCalls request
  | .wait nanos => request = .tick nanos

end Operation

/-! ## Reads -/

theorem LocalFsStore.readBlob_uses (hash : String) :
    (readBlob hash).Uses readCalls fun _ => True := by
  suffices opened : (syscall (.openFile (blobPath hash))).Uses readCalls
      fun _ => True by
    refine opened.catchError fun error => ?_
    split <;> trivial
  exact uses_perform trivial fun _ => trivial

theorem Yocto.read_uses
    (auth : ProjectAuth) (kind : Kind) (project path : String)
    (headOnly : Bool) :
    (Yocto.read auth kind project path headOnly).Uses readCalls
      fun _ => True := by
  suffices body : (Yocto.getOne auth kind project path headOnly).Uses
      readCalls fun _ => True by
    refine body.catchError fun error => ?_
    split <;> trivial
  unfold Yocto.getOne Yocto.ensureProject
  by_cases named : auth.projectName ≠ project
  · rw [if_pos named]
    trivial
  rw [if_neg named, Program.pure_eq, Program.done_bind]
  split
  · trivial
  refine uses_perform_then trivial fun found => ?_
  cases found with
  | none => trivial
  | some entry =>
      simp only
      split
      · trivial
      · exact (LocalFsStore.readBlob_uses _).bind fun content _ =>
          uses_perform_then trivial fun _ => trivial

/-! ## Uploads -/

theorem Yocto.put_uses
    (env : Env) (config : Config) (request : PutRequest) :
    (Yocto.put env config request.auth request.kind request.project
      request.path request.body).Uses
        (fun call => uploadCalls call ∨ recordCalls request.key call)
        fun _ => True := by
  let calls (call : Call) : Prop :=
    uploadCalls call ∨ recordCalls request.key call
  suffices body : (Yocto.doPut env config request.auth request.kind
      request.project request.path request.body).Uses calls fun _ => True from
    body.catchError fun _ => trivial
  unfold Yocto.doPut Yocto.ensureProject
  by_cases named : request.auth.projectName ≠ request.project
  · rw [if_pos named]
    trivial
  rw [if_neg named, Program.pure_eq, Program.done_bind]
  cases request.auth.role.allowsWrite with
  | false => trivial
  | true =>
  simp only [Bool.not_true, Bool.false_eq_true, if_false]
  have streamed : (LocalFsStore.writeStreamed env request.body).Uses calls
      fun _ => True :=
    (LocalFsStore.writeStreamed_uses env request.body).mono
      (fun _ used => .inl used) fun _ _ => trivial
  refine streamed.bind fun written _ => ?_
  refine uses_perform_then (.inr rfl) fun entry => ?_
  refine uses_perform_then (.inr trivial) fun _ => ?_
  refine uses_perform_then (.inr trivial) fun total => ?_
  split
  · exact uses_perform_then (.inr trivial) fun _ => trivial
  · trivial

/-! ## Orphan scans -/

namespace GcSvc

theorem removeBlob_reconciles (hash : String) :
    ((LocalFsStore.deleteBlob hash).catchError fun _ => pure ()).Uses
      reconcileCalls fun _ => True := by
  have unlinked : (LocalFsStore.deleteBlob hash).Uses reconcileCalls
      fun _ => True := by
    refine Uses.catchError (uses_perform ⟨hash, rfl⟩ fun _ => trivial) ?_
    intro error
    split <;> trivial
  exact unlinked.catchError fun _ => trivial

theorem removeDiskOrphans_reconciles
    (dryRun : Bool) (orphans : List String) (rep : OrphanReport) :
    (removeDiskOrphans dryRun orphans rep).Uses reconcileCalls
      fun _ => True := by
  induction orphans generalizing rep with
  | nil => trivial
  | cons hash rest inductionHypothesis =>
      cases dryRun with
      | true => exact inductionHypothesis _
      | false =>
          exact (removeBlob_reconciles hash).bind fun _ _ =>
            inductionHypothesis _

theorem purgeDbOrphans_reconciles
    (dryRun : Bool) (orphans : List String) (rep : OrphanReport) :
    (purgeDbOrphans dryRun orphans rep).Uses reconcileCalls
      fun _ => True := by
  induction orphans generalizing rep with
  | nil => trivial
  | cons hash rest inductionHypothesis =>
      cases dryRun with
      | true => exact inductionHypothesis _
      | false =>
          exact uses_perform_then trivial fun _ => inductionHypothesis _

theorem onDisk_reconciles :
    onDisk.Uses reconcileCalls fun _ => True := by
  refine uses_attempt_then trivial fun answer => ?_
  split
  · exact uses_perform trivial fun _ => trivial
  · trivial

/-- The scan below the mutex, and what it removes. -/
theorem scan_reconciles (env : Env) (dryRun : Bool) :
    (scan env dryRun).Uses reconcileCalls fun _ => True :=
  onDisk_reconciles.bind fun _ _ =>
    uses_perform_then trivial fun _ =>
      (removeDiskOrphans_reconciles dryRun _ _).bind fun rep _ =>
        purgeDbOrphans_reconciles dryRun _ rep

theorem scanCalls_of_reconciling
    (request : Call) (used : reconcileCalls request) : scanCalls request := by
  cases request with
  | db call => cases call <;> first | exact used.elim | trivial
  | fs call => cases call <;> first | exact used.elim | exact used
  | _ => exact used.elim

/-- A whole orphan scan, whether it returns or fails. -/
theorem orphanScan_scans (env : Env) (dryRun : Bool) :
    (orphanScan env dryRun).Uses scanCalls fun _ => True := by
  have body : (scan env dryRun).Uses scanCalls fun _ => True :=
    (scan_reconciles env dryRun).mono scanCalls_of_reconciling fun _ => id
  exact uses_perform_then trivial fun _ =>
    body.ensuring (uses_perform trivial fun _ => trivial)

end GcSvc

/-! ## All operations -/

namespace Operation

/-- Forget the result of a part of an operation. -/
theorem uses_ignoring
    {program : App α} {calls : Call → Prop}
    (uses : program.Uses calls fun _ => True) :
    (program >>= fun _ => pure none : App (Option Response)).Uses calls
      fun _ => True :=
  uses.bind fun _ _ => trivial

theorem audit_uses
    {calls : Call → Prop}
    (allowed : ∀ request, auditCalls request → calls request)
    (auth : AdminAuth) (action : String) (target : Option Int)
    (detail : Option AuditDetail) :
    (Admin.audit auth action target detail).Uses calls fun _ => True :=
  uses_perform_then (allowed _ (.inl rfl)) fun _ =>
    uses_perform (allowed _ (.inr ⟨_, _, _, _, _, rfl⟩)) fun _ => trivial

/-- An operation makes no other calls. -/
theorem program_uses
    (env : Env) (config : Config) (budget : Nat) (operation : Operation) :
    (operation.program env config budget).Uses operation.calls
      fun _ => True := by
  cases operation with
  | put request =>
      exact (Yocto.put_uses env config request).bind fun _ _ => trivial
  | touch id => exact uses_perform_then rfl fun _ => trivial
  | createProject auth name quotaBytes ttlSeconds =>
      refine uses_ignoring (uses_perform_then (.inl rfl) fun project => ?_)
      exact (audit_uses (fun _ => .inr) _ _ _ _).bind fun _ _ => trivial
  | updateProject auth id newName quotaBytes ttlSeconds =>
      refine uses_ignoring (uses_perform_then (.inl rfl) fun _ => ?_)
      refine uses_perform_then (.inr (.inl rfl)) fun project => ?_
      exact (audit_uses (fun _ used => .inr (.inr used)) _ _ _ _).bind
        fun _ _ => trivial
  | deleteProject auth id =>
      exact uses_ignoring (uses_perform_then (.inl rfl) fun _ =>
        audit_uses (fun _ => .inr) _ _ _ _)
  | deleteEntry auth id eid =>
      exact uses_ignoring (uses_perform_then (.inl rfl) fun _ =>
        audit_uses (fun _ => .inr) _ _ _ _)
  | pin auth id eid =>
      exact uses_ignoring (uses_perform_then (.inl rfl) fun _ =>
        audit_uses (fun _ => .inr) _ _ _ _)
  | unpin auth id eid =>
      exact uses_ignoring (uses_perform_then (.inl rfl) fun _ =>
        audit_uses (fun _ => .inr) _ _ _ _)
  | gcRun => exact uses_ignoring (GcSvc.run_sweeps config.gc budget false)
  | orphanScan => exact uses_ignoring (GcSvc.orphanScan_scans env false)
  | wait nanos => exact uses_perform_then rfl fun _ => trivial

end Operation

end Marmotte
