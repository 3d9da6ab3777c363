import Marmotte.Admin
import Marmotte.Concurrency.Requests

/-!
# Operations

Everything that can happen to the cache: uploads, the updates of access times
that downloads leave behind, the admin handlers, sweeps, orphan scans, and the
passing of time.
-/

namespace Marmotte

open Effects Custody

/-- One operation on the cache. -/
inductive Operation
  | put (request : PutRequest)
  | touch (id : Int)
  | createProject
      (auth : AdminAuth) (name : String) (quotaBytes ttlSeconds : Option Int)
  | updateProject
      (auth : AdminAuth) (id : Int) (newName : Option String)
      (quotaBytes ttlSeconds : Option (Option Int))
  | deleteProject (auth : AdminAuth) (id : Int)
  | deleteEntry (auth : AdminAuth) (id eid : Int)
  | pin (auth : AdminAuth) (id eid : Int)
  | unpin (auth : AdminAuth) (id eid : Int)
  | gcRun
  | orphanScan
  | wait (nanos : Nat)

namespace Operation

/-- The program of an operation; `budget` bounds the rounds of a cleanup, and
only requests have a response. -/
def program
    (env : Env) (config : Config) (budget : Nat) :
    Operation → App (Option Response)
  | .put request => request.program env config
  | .touch id => do
      transact (.entriesTouch id)
      pure none
  | .createProject auth name quotaBytes ttlSeconds => do
      let _ ← Admin.createProject auth name quotaBytes ttlSeconds
      pure none
  | .updateProject auth id newName quotaBytes ttlSeconds => do
      let _ ← Admin.updateProject auth id newName quotaBytes ttlSeconds
      pure none
  | .deleteProject auth id => do
      Admin.deleteProject auth id
      pure none
  | .deleteEntry auth id eid => do
      Admin.deleteEntry auth id eid
      pure none
  | .pin auth id eid => do
      Admin.pin auth id eid
      pure none
  | .unpin auth id eid => do
      Admin.unpin auth id eid
      pure none
  | .gcRun => do
      let _ ← GcSvc.run config.gc budget false
      pure none
  | .orphanScan => do
      let _ ← GcSvc.orphanScan env false
      pure none
  | .wait nanos => do
      Program.perform (Call.tick nanos)
      pure none

/-- The operation is one of those that a setting allows for. -/
def Within (setting : Setting) : Operation → Prop
  | .put request => request.body.bytes ∈ setting.bodies
  | .deleteProject _ _ => setting.cascades
  | .gcRun => setting.sweeps
  | .orphanScan => setting.scans
  | _ => True

theorem audit_keeps
    (setting : Setting) (auth : AdminAuth) (action : String)
    (target : Option Int) (detail : Option AuditDetail) :
    Keeps setting (Admin.audit auth action target detail) .idle :=
  follows_neutral trivial (fun _ => rfl) fun _ =>
    keeps_transact setting _ trivial fun _ => rfl

theorem program_follows
    (setting : Setting) (config : Config) (budget : Nat)
    (operation : Operation) (allowed : operation.Within setting) :
    (operation.program setting.env config budget).Follows (protocol setting)
      (fun _ _ => True) (fun _ _ => True) .idle := by
  cases operation with
  | put request =>
      exact (request.program_follows setting config .idle allowed).mono
        (fun _ _ _ => trivial) fun _ _ _ => trivial
  | touch id =>
      exact follows_neutral trivial (fun _ => rfl) fun _ => trivial
  | createProject auth name quotaBytes ttlSeconds =>
      have kept : Keeps setting
          (Admin.createProject auth name quotaBytes ttlSeconds) .idle :=
        follows_neutral trivial (fun _ => rfl) fun project =>
          (audit_keeps setting _ _ _ _).bind fun _ => rfl
      exact kept.bind fun _ => trivial
  | updateProject auth id newName quotaBytes ttlSeconds =>
      have kept : Keeps setting
          (Admin.updateProject auth id newName quotaBytes ttlSeconds) .idle :=
        follows_neutral trivial (fun _ => rfl) fun _ =>
          follows_neutral trivial (fun _ => rfl) fun project =>
            (audit_keeps setting _ _ _ _).bind fun _ => rfl
      exact kept.bind fun _ => trivial
  | deleteProject auth id =>
      have kept : Keeps setting (Admin.deleteProject auth id) .idle :=
        follows_neutral allowed (fun _ => rfl) fun _ =>
          audit_keeps setting _ _ _ _
      exact kept.bind fun _ => trivial
  | deleteEntry auth id eid =>
      have kept : Keeps setting (Admin.deleteEntry auth id eid) .idle :=
        follows_neutral trivial (fun _ => rfl) fun _ =>
          audit_keeps setting _ _ _ _
      exact kept.bind fun _ => trivial
  | pin auth id eid =>
      have kept : Keeps setting (Admin.pin auth id eid) .idle :=
        follows_neutral trivial (fun _ => rfl) fun _ =>
          audit_keeps setting _ _ _ _
      exact kept.bind fun _ => trivial
  | unpin auth id eid =>
      have kept : Keeps setting (Admin.unpin auth id eid) .idle :=
        follows_neutral trivial (fun _ => rfl) fun _ =>
          audit_keeps setting _ _ _ _
      exact kept.bind fun _ => trivial
  | gcRun =>
      exact Program.Follows.bind (run_keeps setting config.gc budget allowed)
        fun _ _ _ => trivial
  | orphanScan =>
      exact Program.Follows.bind (orphanScan_keeps setting allowed)
        fun _ _ _ => trivial
  | wait nanos =>
      exact follows_neutral trivial (fun _ => rfl) fun _ => trivial

/-! ## Any operations on the bodies that they upload -/

/-- Any operations on these bodies. -/
def setting (env : Env) (bodies : Set Bytes) : Setting :=
  ⟨env, bodies, True, True, True, False⟩

/-- The bodies that operations upload. -/
def uploaded (operations : ι → Operation) : Set Bytes :=
  {content | ∃ thread request,
    operations thread = .put request ∧ request.body.bytes = content}

theorem uploads_follow
    (env : Env) (config : Config) (budget : Nat)
    (operations : ι → Operation) (thread : ι) :
    ((operations thread).program env config budget).Follows
      (protocol (setting env (uploaded operations)))
      (fun _ _ => True) (fun _ _ => True) .idle := by
  refine program_follows
    (setting env (uploaded operations)) config budget _ ?_
  cases operation : operations thread with
  | put request => exact ⟨thread, request, operation, rfl⟩
  | _ => trivial

/-- The operations on a fresh server, none of them started. -/
def launch
    (env : Env) (config : Config) (budget : Nat) (now : Int)
    (operations : ι → Operation) :
    Pool ι Call Call.Reply CoreError (Option Response) World Local :=
  .launch .idle
    (fun thread => (operations thread).program env config budget)
    (World.initial now)

/-- A state that operations reach in any order, one call at a time, with
failing calls. -/
abbrev Reachable
    [DecidableEq ι]
    (env : Env) (config : Config) (budget : Nat) (now : Int)
    (operations : ι → Operation)
    (pool : Pool ι Call Call.Reply CoreError (Option Response) World Local) :
    Prop :=
  Pool.Reaches (protocol (setting env (uploaded operations)))
    (Faulty env config) (fun _ _ _ => True)
    (launch env config budget now operations) pool

/-- Whoever makes a permitted call, the tallies are kept. -/
theorem tallied_step
    {setting : Setting} {record : Local} {config : Config}
    {request : Call} {before after : World}
    {reply : Except CoreError request.Reply}
    (tallied : Tallied setting before.db)
    (permitted : permits setting record request)
    (answered : Faulty setting.env config request before reply after) :
    Tallied setting after.db := by
  rcases Faulty.commits answered with same | ⟨call, value, rfl, ran⟩
  · rw [same]
    exact tallied
  · exact tallied_db tallied (describes_of_permitted permitted) ran

theorem tallied_reachable
    [DecidableEq ι]
    {env : Env} {config : Config} {budget : Nat} {now : Int}
    {operations : ι → Operation}
    {pool : Pool ι Call Call.Reply CoreError (Option Response) World Local}
    (reached : Reachable env config budget now operations pool) :
    Tallied (setting env (uploaded operations)) pool.world.db :=
  Pool.Reaches.keeps
    (fun _ _ _ _ _ tallied _ permitted answered =>
      tallied_step tallied permitted answered)
    (uploads_follow env config budget operations)
    (tallied_empty _) reached

/-- The administrator of the examples. -/
def root : AdminAuth := ⟨1, none⟩

end Operation

end Marmotte
