import Marmotte.Runtime

/-!
# Frames

Which tables each database call may write.  A call that commits leaves every
other table as it is.
-/

namespace Marmotte

open Tables

/-- The tables of the schema. -/
inductive TableName
  | projects
  | apiKeys
  | adminTokens
  | blobs
  | entries
  | statsCounters
  | auditLog
  deriving DecidableEq, Repr

namespace Db

/-- The databases differ in these tables at most. -/
structure Frame (writes : List TableName) (before after : Db) : Prop where
  projects : .projects ∉ writes → after.projects = before.projects
  apiKeys : .apiKeys ∉ writes → after.apiKeys = before.apiKeys
  adminTokens : .adminTokens ∉ writes →
    after.adminTokens = before.adminTokens
  blobs : .blobs ∉ writes → after.blobs = before.blobs
  entries : .entries ∉ writes → after.entries = before.entries
  statsCounters : .statsCounters ∉ writes →
    after.statsCounters = before.statsCounters
  auditLog : .auditLog ∉ writes → after.auditLog = before.auditLog

namespace Frame

variable {writes more : List TableName} {before middle after : Db}

theorem refl (writes : List TableName) (db : Db) : Frame writes db db := by
  constructor <;> exact fun _ => rfl

theorem trans
    (left : Frame writes before middle) (right : Frame writes middle after) :
    Frame writes before after where
  projects kept := (right.projects kept).trans (left.projects kept)
  apiKeys kept := (right.apiKeys kept).trans (left.apiKeys kept)
  adminTokens kept :=
    (right.adminTokens kept).trans (left.adminTokens kept)
  blobs kept := (right.blobs kept).trans (left.blobs kept)
  entries kept := (right.entries kept).trans (left.entries kept)
  statsCounters kept :=
    (right.statsCounters kept).trans (left.statsCounters kept)
  auditLog kept := (right.auditLog kept).trans (left.auditLog kept)

theorem mono
    (frame : Frame writes before after) (contained : writes ⊆ more) :
    Frame more before after where
  projects kept := frame.projects fun written => kept (contained written)
  apiKeys kept := frame.apiKeys fun written => kept (contained written)
  adminTokens kept :=
    frame.adminTokens fun written => kept (contained written)
  blobs kept := frame.blobs fun written => kept (contained written)
  entries kept := frame.entries fun written => kept (contained written)
  statsCounters kept :=
    frame.statsCounters fun written => kept (contained written)
  auditLog kept := frame.auditLog fun written => kept (contained written)

end Frame

/-! ## Statements -/

theorem frame_insertProject
    {db after : Db} {name : String} {quota ttl : Option Int} {now id : Int}
    (ran : db.insertProject name quota ttl now = .ok (id, after)) :
    Frame [.projects] db after := by
  unfold insertProject at ran
  split at ran <;> cases ran
  constructor <;> first | exact fun _ => rfl | simp

theorem frame_updateProject
    {db after : Db} {id : Int} {assign : Project → Project} {keepsId}
    (ran : db.updateProject id assign keepsId = .ok after) :
    Frame [.projects] db after := by
  unfold updateProject at ran
  split at ran <;> cases ran
  constructor <;> first | exact fun _ => rfl | simp

theorem frame_deleteProject (db : Db) (id : Int) :
    Frame [.projects, .apiKeys, .entries, .statsCounters] db
      (db.deleteProject id).2 := by
  constructor <;> first | exact fun _ => rfl | simp

theorem frame_insertApiKey
    {db after : Db} {projectId now id : Int} {keyLookup keyHash : String}
    {role : Role} {label : Option String}
    (ran : db.insertApiKey projectId keyLookup keyHash role label now =
      .ok (id, after)) :
    Frame [.apiKeys] db after := by
  unfold insertApiKey at ran
  split at ran
  · split at ran <;> cases ran
    constructor <;> first | exact fun _ => rfl | simp
  · cases ran

theorem frame_revokeApiKey (db : Db) (projectId id now : Int) :
    Frame [.apiKeys] db (db.revokeApiKey projectId id now).2 := by
  constructor <;> first | exact fun _ => rfl | simp

theorem frame_insertAdminToken
    {db after : Db} {now id : Int} {tokenLookup tokenHash : String}
    {label : Option String}
    (ran : db.insertAdminToken tokenLookup tokenHash label now =
      .ok (id, after)) :
    Frame [.adminTokens] db after := by
  unfold insertAdminToken at ran
  split at ran <;> cases ran
  constructor <;> first | exact fun _ => rfl | simp

theorem frame_revokeAdminToken (db : Db) (id now : Int) :
    Frame [.adminTokens] db (db.revokeAdminToken id now).2 := by
  constructor <;> first | exact fun _ => rfl | simp

theorem frame_addRefcount (db : Db) (hash : String) (change : Int) :
    Frame [.blobs] db (db.addRefcount hash change) := by
  constructor <;> first | exact fun _ => rfl | simp

theorem frame_upsertBlob (db : Db) (hash : String) (size now : Int) :
    Frame [.blobs] db (db.upsertBlob hash size now) := by
  unfold upsertBlob
  split
  · constructor <;> first | exact fun _ => rfl | simp
  · exact frame_addRefcount db hash 1

theorem frame_deleteBlob
    {db after : Db} {hash : String} (ran : db.deleteBlob hash = .ok after) :
    Frame [.blobs] db after := by
  unfold deleteBlob at ran
  split at ran <;> cases ran
  constructor <;> first | exact fun _ => rfl | simp

theorem frame_deleteEntries (db : Db) (selects : Entry → Bool) :
    Frame [.entries] db (db.deleteEntries selects) := by
  constructor <;> first | exact fun _ => rfl | simp

theorem frame_updateEntries
    (db : Db) (selects : Entry → Bool) (assign : Entry → Entry)
    (keepsId) (keepsKey) (keepsBlob) :
    Frame [.entries] db
      (db.updateEntries selects assign keepsId keepsKey keepsBlob) := by
  constructor <;> first | exact fun _ => rfl | simp

theorem frame_updateConflicting
    (db : Db) (selects : Entry → Bool) (assign : Entry → Entry)
    (keepsId) (keepsKey) (keepsBlob) :
    Frame [.entries] db
      (db.updateConflicting selects assign keepsId keepsKey keepsBlob) := by
  constructor <;> first | exact fun _ => rfl | simp

theorem frame_upsertEntry
    {db after : Db} {key : Key} {hash : String} {size now id : Int}
    (ran : db.upsertEntry key hash size now = .ok (id, after)) :
    Frame [.entries] db after := by
  unfold upsertEntry at ran
  split at ran
  · split at ran
    · split at ran <;> cases ran
      · exact frame_updateConflicting db _ _ _ _ _
      · constructor <;> first | exact fun _ => rfl | simp
    · cases ran
  · cases ran

theorem frame_upsertCounter
    {db after : Db} {projectId : Option Int} {kind : String}
    {day count bytes : Int}
    (ran : db.upsertCounter projectId kind day count bytes = .ok after) :
    Frame [.statsCounters] db after := by
  unfold upsertCounter at ran
  split at ran
  · split at ran <;> cases ran <;>
      constructor <;> first | exact fun _ => rfl | simp
  · cases ran

theorem frame_insertAudit
    (db : Db) (timestamp : Int) (actorToken : Option String)
    (action : String) (target : Option String)
    (detail : Option AuditDetail) :
    Frame [.auditLog] db
      (db.insertAudit timestamp actorToken action target detail) := by
  constructor <;> first | exact fun _ => rfl | simp

end Db

open Db

/-! ## Repositories -/

namespace Projects

theorem frame_assignColumn
    {db after : Db} {id : Int} {value : Option α}
    {assign : α → Project → Project} {keepsId} {onError}
    (ran : assignColumn db id value assign keepsId onError = .ok after) :
    Frame [.projects] db after := by
  unfold assignColumn at ran
  split at ran
  · rename_i value
    cases updated : db.updateProject id (assign value) (keepsId value) with
    | error error =>
        rw [updated] at ran
        cases ran
    | ok middle =>
        rw [updated] at ran
        cases ran
        exact frame_updateProject updated
  · cases ran
    exact .refl _ _

theorem frame_update
    {db after : Db} {id : Int} {newName : Option String}
    {quotaBytes ttlSeconds : Option (Option Int)} {reply : Unit}
    (ran : update db id newName quotaBytes ttlSeconds = .ok (reply, after)) :
    Frame [.projects] db after := by
  simp only [update, bind, Except.bind] at ran
  split at ran
  · cases ran
  · rename_i first named
    split at ran
    · cases ran
    · rename_i second limited
      split at ran
      · cases ran
      · rename_i third aged
        cases ran
        exact ((frame_assignColumn named).trans
          (frame_assignColumn limited)).trans (frame_assignColumn aged)

end Projects

theorem Blobs.frame_decr
    {db after : Db} {hash : String} {count : Int}
    (ran : decr db hash = .ok (count, after)) : Frame [.blobs] db after := by
  unfold decr at ran
  simp only at ran
  split at ran <;> cases ran
  exact frame_addRefcount db hash (-1)

namespace Entries

theorem frame_recount
    {now size : Int} {db after : Db} {key : Key} {hash : String}
    (ran : recount now db key hash size = .ok after) :
    Frame [.blobs] db after := by
  simp only [recount, bind, Except.bind] at ran
  split at ran
  · split at ran
    · split at ran
      · cases ran
      · rename_i lowered
        cases ran
        exact (Blobs.frame_decr lowered).trans (frame_upsertBlob _ _ _ _)
    · cases ran
      exact .refl _ _
  · cases ran
    exact frame_upsertBlob _ _ _ _

theorem frame_upsert
    {now size projectId : Int} {db after : Db} {kind : Kind}
    {path hash : String} {entry : Entry}
    (ran : upsert now db projectId kind path hash size =
      .ok (entry, after)) : Frame [.entries, .blobs] db after := by
  simp only [upsert, bind, Except.bind] at ran
  split at ran
  · cases ran
  · rename_i middle counted
    split at ran
    · cases ran
    · rename_i stored
      cases ran
      exact ((frame_recount counted).mono (by simp)).trans
        ((frame_upsertEntry stored).mono (by simp))

theorem frame_delete
    {projectId id : Int} {db after : Db} {reply : Unit}
    (ran : delete db projectId id = .ok (reply, after)) :
    Frame [.entries, .blobs] db after := by
  simp only [delete, bind, Except.bind] at ran
  split at ran
  · cases ran
  · split at ran
    · cases ran
    · rename_i lowered
      cases ran
      exact ((frame_deleteEntries db _).mono (by simp)).trans
        ((Blobs.frame_decr lowered).mono (by simp))

end Entries

/-! ## Calls -/

namespace DbCall

/-- The tables that a call may write. -/
def writes : DbCall → List TableName
  | .projectsCreate .. => [.projects]
  | .projectsUpdate .. => [.projects]
  | .projectsDelete _ => [.projects, .apiKeys, .entries, .statsCounters]
  | .apiKeysCreate .. => [.apiKeys]
  | .apiKeysRevoke .. => [.apiKeys]
  | .adminTokensCreate .. => [.adminTokens]
  | .adminTokensRevoke _ => [.adminTokens]
  | .blobsDelete _ => [.blobs]
  | .entriesUpsert .. => [.entries, .blobs]
  | .entriesTouch _ => [.entries]
  | .entriesDelete .. => [.entries, .blobs]
  | .entriesSetPinned .. => [.entries]
  | .purge _ => [.entries, .blobs]
  | .statsBump .. => [.statsCounters]
  | .audit .. => [.auditLog]
  | _ => []

/-- A call that commits leaves the other tables as they are. -/
theorem exec_frame
    {env : Env} {now : Int} {call : DbCall} {db after : Db}
    {reply : call.Reply}
    (ran : call.exec env now db = .ok (reply, after)) :
    Frame call.writes db after := by
  cases call with
  | projectsCreate name quota ttl =>
      simp only [exec, Projects.create] at ran
      split at ran <;> cases ran
      rename_i inserted
      exact frame_insertProject inserted
  | projectsUpdate id newName quota ttl => exact Projects.frame_update ran
  | projectsDelete id =>
      simp only [exec, Projects.delete] at ran
      split at ran <;> cases ran
      exact frame_deleteProject db id
  | apiKeysCreate projectId keyLookup keyHash role label =>
      simp only [exec, ApiKeys.create, bind, Except.bind] at ran
      split at ran <;> cases ran
      rename_i inserted
      exact frame_insertApiKey inserted
  | apiKeysRevoke projectId id =>
      simp only [exec, ApiKeys.revoke] at ran
      split at ran <;> cases ran
      exact frame_revokeApiKey db projectId id now
  | adminTokensCreate tokenLookup tokenHash label =>
      simp only [exec, AdminTokens.create, bind, Except.bind] at ran
      split at ran <;> cases ran
      rename_i inserted
      exact frame_insertAdminToken inserted
  | adminTokensRevoke id =>
      simp only [exec, AdminTokens.revoke] at ran
      split at ran <;> cases ran
      exact frame_revokeAdminToken db id now
  | blobsDelete hash =>
      simp only [exec, Blobs.delete, bind, Except.bind] at ran
      split at ran <;> cases ran
      rename_i deleted
      exact frame_deleteBlob deleted
  | entriesUpsert projectId kind path hash size =>
      exact Entries.frame_upsert ran
  | entriesTouch id =>
      cases ran
      exact frame_updateEntries db _ _ _ _ _
  | entriesDelete projectId id => exact Entries.frame_delete ran
  | entriesSetPinned projectId id pinned =>
      simp only [exec, Entries.setPinned] at ran
      split at ran <;> cases ran
      exact frame_updateEntries db _ _ _ _ _
  | purge hash =>
      simp only [exec, GcQueries.purge, bind, Except.bind] at ran
      split at ran <;> cases ran
      rename_i deleted
      exact ((frame_deleteEntries db _).mono (by simp [writes])).trans
        ((frame_deleteBlob deleted).mono (by simp [writes]))
  | statsBump projectId kind count bytes =>
      simp only [exec, Stats.bump, bind, Except.bind] at ran
      split at ran <;> cases ran
      rename_i written
      exact frame_upsertCounter written
  | audit actorToken action target detail =>
      cases ran
      exact frame_insertAudit db _ _ _ _ _
  | projectsGet id =>
      simp only [exec, Except.map] at ran
      split at ran <;> cases ran
      exact .refl _ _
  | projectsGetByName name =>
      simp only [exec, Except.map] at ran
      split at ran <;> cases ran
      exact .refl _ _
  | _ =>
      cases ran
      exact .refl _ _

end DbCall

end Marmotte
