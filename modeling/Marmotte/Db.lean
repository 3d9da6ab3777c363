import Marmotte.Models

/-!
# The database and its statements

The tables of the schema, with the uniqueness constraints carried by the tables
and the foreign keys carried by the database.  Each SQL statement that the
repositories issue is one function here; a statement that the engine would
refuse returns the database error.
-/

namespace Marmotte

open Tables

/-- A database that satisfies its schema. -/
structure Db where
  projects : Series Project
  apiKeys : Series ApiKey
  adminTokens : Series AdminToken
  blobs : Table Blob
  entries : Series Entry
  statsCounters : Series StatsCounter
  auditLog : Series AuditRow
  apiKey_project : ∀ key ∈ apiKeys.rows,
    ∃ project ∈ projects.rows, project.id = key.projectId
  entry_project : ∀ entry ∈ entries.rows,
    ∃ project ∈ projects.rows, project.id = entry.projectId
  entry_blob : ∀ entry ∈ entries.rows,
    ∃ blob ∈ blobs.rows, blob.hash = entry.blobHash
  counter_project : ∀ counter ∈ statsCounters.rows,
    ∀ id, counter.projectId = some id →
      ∃ project ∈ projects.rows, project.id = id

namespace Db

/-- The database right after the migrations. -/
def empty : Db where
  projects := .empty
  apiKeys := .empty
  adminTokens := .empty
  blobs := .empty
  entries := .empty
  statsCounters := .empty
  auditLog := .empty
  apiKey_project := by simp
  entry_project := by simp
  entry_blob := by simp
  counter_project := by simp

/-- A row of `projects` has this id. -/
def HasProject (db : Db) (id : Int) : Prop :=
  ∃ project ∈ db.projects.rows, project.id = id

instance (db : Db) (id : Int) : Decidable (db.HasProject id) :=
  inferInstanceAs (Decidable (∃ project ∈ db.projects.rows, project.id = id))

/-- A row of `blobs` has this hash. -/
def HasBlob (db : Db) (hash : String) : Prop :=
  ∃ blob ∈ db.blobs.rows, blob.hash = hash

instance (db : Db) (hash : String) : Decidable (db.HasBlob hash) :=
  inferInstanceAs (Decidable (∃ blob ∈ db.blobs.rows, blob.hash = hash))

/-- A row of `entries` points to this blob. -/
def References (db : Db) (hash : String) : Prop :=
  ∃ entry ∈ db.entries.rows, entry.blobHash = hash

instance (db : Db) (hash : String) : Decidable (db.References hash) :=
  inferInstanceAs
    (Decidable (∃ entry ∈ db.entries.rows, entry.blobHash = hash))

theorem References.hasBlob
    {db : Db} {hash : String} (references : db.References hash) :
    db.HasBlob hash := by
  obtain ⟨entry, present, rfl⟩ := references
  exact db.entry_blob entry present

/-! ## Statements on `projects` -/

/-- Replace the projects by a table that has all their ids. -/
private def withProjects
    (db : Db)
    (projects : Series Project)
    (covers : ∀ id, db.HasProject id →
      ∃ project ∈ projects.rows, project.id = id) : Db :=
  { db with
    projects := projects
    apiKey_project := fun key present =>
      covers _ (db.apiKey_project key present)
    entry_project := fun entry present =>
      covers _ (db.entry_project entry present)
    counter_project := fun counter present id owned =>
      covers _ (db.counter_project counter present id owned) }

/-- `INSERT INTO projects`; returns the new id. -/
def insertProject
    (db : Db)
    (name : String) (quotaBytes ttlSeconds : Option Int) (now : Int) :
    Except CoreError (Int × Db) :=
  match inserted : db.projects.insert?
      (fun id => ⟨id, name, quotaBytes, ttlSeconds, now⟩) fun _ => rfl with
  | none => .error (.database .uniqueViolation)
  | some projects =>
      .ok (projects.last, db.withProjects projects (by
        rintro id ⟨project, present, rfl⟩
        refine ⟨project, ?_, rfl⟩
        rw [(Series.insert?_eq_some inserted).1]
        exact List.mem_append_left _ present))

/-- `UPDATE projects SET ... WHERE id = ?`. -/
def updateProject
    (db : Db)
    (id : Int)
    (assign : Project → Project)
    (keepsId : ∀ project, (assign project).id = project.id) :
    Except CoreError Db :=
  match updated : db.projects.update?
      (fun project => decide (project.id = id)) assign keepsId with
  | none => .error (.database .uniqueViolation)
  | some projects =>
      .ok (db.withProjects projects (by
        rintro other ⟨project, present, rfl⟩
        rw [(Series.update?_eq_some updated).1]
        refine ⟨_, List.mem_map_of_mem present, ?_⟩
        split
        · exact keepsId project
        · rfl))

/-- `DELETE FROM projects WHERE id = ?` with its cascades; returns the number
of rows affected. -/
def deleteProject (db : Db) (id : Int) : Nat × Db :=
  ((db.projects.rows.filter fun project => decide (project.id = id)).length,
    { db with
      projects := db.projects.delete fun project => decide (project.id = id)
      apiKeys := db.apiKeys.delete fun key => decide (key.projectId = id)
      entries := db.entries.delete fun entry => decide (entry.projectId = id)
      statsCounters := db.statsCounters.delete fun counter =>
        decide (counter.projectId = some id)
      apiKey_project := by
        intro key present
        simp only [Series.delete_rows, List.mem_filter, Bool.not_eq_true',
          decide_eq_false_iff_not] at present
        obtain ⟨project, projectPresent, equal⟩ :=
          db.apiKey_project key present.1
        exact ⟨project, by simp [projectPresent, equal, present.2], equal⟩
      entry_project := by
        intro entry present
        simp only [Series.delete_rows, List.mem_filter, Bool.not_eq_true',
          decide_eq_false_iff_not] at present
        obtain ⟨project, projectPresent, equal⟩ :=
          db.entry_project entry present.1
        exact ⟨project, by simp [projectPresent, equal, present.2], equal⟩
      entry_blob := by
        intro entry present
        simp only [Series.delete_rows, List.mem_filter] at present
        exact db.entry_blob entry present.1
      counter_project := by
        intro counter present owner owned
        simp only [Series.delete_rows, List.mem_filter, Bool.not_eq_true',
          decide_eq_false_iff_not] at present
        obtain ⟨project, projectPresent, equal⟩ :=
          db.counter_project counter present.1 owner owned
        have kept : owner ≠ id := fun same => present.2 (same ▸ owned)
        exact ⟨project, by simp [projectPresent, equal, kept], equal⟩ })

/-! ## Statements on `api_keys` and `admin_tokens` -/

/-- `INSERT INTO api_keys`; returns the new id. -/
def insertApiKey
    (db : Db)
    (projectId : Int) (keyLookup keyHash : String) (role : Role)
    (label : Option String) (now : Int) :
    Except CoreError (Int × Db) :=
  if owned : db.HasProject projectId then
    match inserted : db.apiKeys.insert?
        (fun id => ⟨id, projectId, keyLookup, keyHash, role, label, now, none⟩)
        fun _ => rfl with
    | none => .error (.database .uniqueViolation)
    | some apiKeys =>
        .ok (apiKeys.last,
          { db with
            apiKeys := apiKeys
            apiKey_project := by
              intro key present
              rw [(Series.insert?_eq_some inserted).1, List.mem_append,
                List.mem_singleton] at present
              rcases present with old | rfl
              · exact db.apiKey_project key old
              · exact owned })
  else .error (.database .foreignKeyViolation)

/-- `UPDATE api_keys SET revoked_at = ? WHERE project_id = ? AND id = ? AND
revoked_at IS NULL`; returns the number of rows affected. -/
def revokeApiKey (db : Db) (projectId id now : Int) : Nat × Db :=
  let selects : ApiKey → Bool := fun key =>
    decide (key.projectId = projectId ∧ key.id = id ∧ key.revokedAt = none)
  ((db.apiKeys.rows.filter selects).length,
    { db with
      apiKeys := db.apiKeys.update selects
        (fun key => { key with revokedAt := some now }) (fun _ => rfl) (by
          intro first second clash
          split at clash <;> split at clash <;> exact clash)
      apiKey_project := by
        intro key present
        simp only [Series.update_rows, List.mem_map] at present
        obtain ⟨source, sourcePresent, rfl⟩ := present
        have owned := db.apiKey_project source sourcePresent
        split <;> exact owned })

/-- `INSERT INTO admin_tokens`; returns the new id. -/
def insertAdminToken
    (db : Db)
    (tokenLookup tokenHash : String) (label : Option String) (now : Int) :
    Except CoreError (Int × Db) :=
  match db.adminTokens.insert?
      (fun id => ⟨id, tokenLookup, tokenHash, label, now, none⟩)
      fun _ => rfl with
  | none => .error (.database .uniqueViolation)
  | some adminTokens =>
      .ok (adminTokens.last, { db with adminTokens := adminTokens })

/-- `UPDATE admin_tokens SET revoked_at = ? WHERE id = ? AND revoked_at IS
NULL`; returns the number of rows affected. -/
def revokeAdminToken (db : Db) (id now : Int) : Nat × Db :=
  let selects : AdminToken → Bool := fun token =>
    decide (token.id = id ∧ token.revokedAt = none)
  ((db.adminTokens.rows.filter selects).length,
    { db with
      adminTokens := db.adminTokens.update selects
        (fun token => { token with revokedAt := some now }) (fun _ => rfl) (by
          intro first second clash
          split at clash <;> split at clash <;> exact clash) })

/-! ## Statements on `blobs` -/

/-- `UPDATE blobs SET refcount = refcount + ? WHERE hash = ?`. -/
def addRefcount (db : Db) (hash : String) (change : Int) : Db :=
  { db with
    blobs := db.blobs.update (fun blob => decide (blob.hash = hash))
      (fun blob => { blob with refcount := blob.refcount + change }) (by
        intro first second clash
        split at clash <;> split at clash <;> exact clash)
    entry_blob := by
      intro entry present
      obtain ⟨blob, blobPresent, equal⟩ := db.entry_blob entry present
      refine ⟨_, List.mem_map_of_mem blobPresent, ?_⟩
      split <;> exact equal }

/-- `INSERT INTO blobs ... ON CONFLICT(hash) DO UPDATE SET refcount =
refcount + 1`. -/
def upsertBlob (db : Db) (hash : String) (sizeBytes now : Int) : Db :=
  if absent : ∀ blob ∈ db.blobs.rows, blob.hash ≠ hash then
    { db with
      blobs := db.blobs.insert ⟨hash, sizeBytes, 1, now⟩ absent
      entry_blob := by
        intro entry present
        obtain ⟨blob, blobPresent, equal⟩ := db.entry_blob entry present
        exact ⟨blob, by simp [blobPresent], equal⟩ }
  else db.addRefcount hash 1

/-- `DELETE FROM blobs WHERE hash = ?`, which the foreign key of `entries`
refuses while an entry points to the row. -/
def deleteBlob (db : Db) (hash : String) : Except CoreError Db :=
  if free : db.References hash then
    .error (.database .foreignKeyViolation)
  else
    .ok
      { db with
        blobs := db.blobs.delete fun blob => decide (blob.hash = hash)
        entry_blob := by
          intro entry present
          obtain ⟨blob, blobPresent, equal⟩ := db.entry_blob entry present
          have kept : blob.hash ≠ hash := fun same =>
            free ⟨entry, present, equal.symm.trans same⟩
          exact ⟨blob, by simp [blobPresent, kept], equal⟩ }

/-! ## Statements on `entries` -/

/-- `DELETE FROM entries WHERE ...`. -/
def deleteEntries (db : Db) (selects : Entry → Bool) : Db :=
  { db with
    entries := db.entries.delete selects
    entry_project := by
      intro entry present
      simp only [Series.delete_rows, List.mem_filter] at present
      exact db.entry_project entry present.1
    entry_blob := by
      intro entry present
      simp only [Series.delete_rows, List.mem_filter] at present
      exact db.entry_blob entry present.1 }

/-- `UPDATE entries SET ... WHERE ...` on columns outside the keys. -/
def updateEntries
    (db : Db)
    (selects : Entry → Bool)
    (assign : Entry → Entry)
    (keepsId : ∀ entry, (assign entry).id = entry.id)
    (keepsKey : ∀ entry, (assign entry).key = entry.key)
    (keepsBlob : ∀ entry ∈ db.entries.rows, selects entry = true →
      db.HasBlob (assign entry).blobHash) : Db :=
  { db with
    entries := db.entries.update selects assign keepsId (by
      intro first second clash
      have idEqual : ∀ entry : Entry,
          (if selects entry then assign entry else entry).id = entry.id := by
        intro entry
        split
        · exact keepsId entry
        · rfl
      have keyEqual : ∀ entry : Entry,
          (if selects entry then assign entry else entry).key =
            entry.key := by
        intro entry
        split
        · exact keepsKey entry
        · rfl
      rcases clash with sameId | sameKey
      · exact .inl ((idEqual first).symm.trans (sameId.trans (idEqual second)))
      · exact .inr
          ((keyEqual first).symm.trans (sameKey.trans (keyEqual second))))
    entry_project := by
      intro entry present
      simp only [Series.update_rows, List.mem_map] at present
      obtain ⟨source, sourcePresent, rfl⟩ := present
      obtain ⟨project, projectPresent, equal⟩ :=
        db.entry_project source sourcePresent
      refine ⟨project, projectPresent, equal.trans ?_⟩
      split
      · exact (congrArg Key.projectId (keepsKey source)).symm
      · rfl
    entry_blob := by
      intro entry present
      simp only [Series.update_rows, List.mem_map] at present
      obtain ⟨source, sourcePresent, rfl⟩ := present
      by_cases selected : selects source = true
      · rw [if_pos selected]
        exact keepsBlob source sourcePresent selected
      · rw [if_neg selected]
        exact db.entry_blob source sourcePresent }

/-- The entry stored under a key. -/
def entryAt (db : Db) (key : Key) : Option Entry :=
  db.entries.find? fun entry => decide (entry.key = key)

/-- What the conflict clause of `INSERT INTO entries` leaves: the columns are
updated, and the row number that the insert took is used up. -/
def updateConflicting
    (db : Db)
    (selects : Entry → Bool)
    (assign : Entry → Entry)
    (keepsId : ∀ entry, (assign entry).id = entry.id)
    (keepsKey : ∀ entry, (assign entry).key = entry.key)
    (keepsBlob : ∀ entry ∈ db.entries.rows, selects entry = true →
      db.HasBlob (assign entry).blobHash) : Db :=
  let updated := db.updateEntries selects assign keepsId keepsKey keepsBlob
  { updated with
    entries := updated.entries.skip
    entry_project := updated.entry_project
    entry_blob := updated.entry_blob }

/-- `INSERT INTO entries ... ON CONFLICT(project_id, kind, path) DO UPDATE SET
blob_hash, size_bytes, last_accessed RETURNING id`. -/
def upsertEntry
    (db : Db)
    (key : Key) (blobHash : String) (sizeBytes now : Int) :
    Except CoreError (Int × Db) :=
  if owned : db.HasProject key.projectId then
    if stored : db.HasBlob blobHash then
      match found : db.entryAt key with
      | some entry =>
          .ok (entry.id,
            db.updateConflicting (fun entry => decide (entry.key = key))
              (fun entry =>
                { entry with
                  blobHash := blobHash
                  sizeBytes := sizeBytes
                  lastAccessed := now })
              (fun _ => rfl) (fun _ => rfl) fun _ _ _ => stored)
      | none =>
          .ok (db.entries.last + 1,
            { db with
              entries := db.entries.insert
                (fun id => ⟨id, key.projectId, key.kind, key.path, blobHash,
                  sizeBytes, now, now, false⟩)
                (fun _ => rfl) (by
                  intro other present clash
                  rcases clash with sameId | sameKey
                  · exact db.entries.id_ne_next present sameId
                  · have different := Table.find?_eq_none.mp found other present
                    exact (decide_eq_false_iff_not.mp different) sameKey)
              entry_project := by
                intro entry present
                simp only [Series.insert_rows, List.mem_append,
                  List.mem_singleton] at present
                rcases present with old | rfl
                · exact db.entry_project entry old
                · exact owned
              entry_blob := by
                intro entry present
                simp only [Series.insert_rows, List.mem_append,
                  List.mem_singleton] at present
                rcases present with old | rfl
                · exact db.entry_blob entry old
                · exact stored })
    else .error (.database .foreignKeyViolation)
  else .error (.database .foreignKeyViolation)

/-! ## Statements on `stats_counters` and `audit_log` -/

/-- The counter row that a conflicting insert would hit. -/
def counterAt
    (db : Db) (projectId : Option Int) (kind : String) (bucketDay : Int) :
    Option StatsCounter :=
  db.statsCounters.find? fun counter =>
    decide (projectId.isSome ∧ counter.projectId = projectId ∧
      counter.kind = kind ∧ counter.bucketDay = bucketDay)

/-- `INSERT INTO stats_counters ... ON CONFLICT(project_id, kind, bucket_day)
DO UPDATE SET count = count + excluded.count, bytes = bytes + excluded.bytes`. -/
def upsertCounter
    (db : Db)
    (projectId : Option Int) (kind : String) (bucketDay count bytes : Int) :
    Except CoreError Db :=
  if owned : ∀ id, projectId = some id → db.HasProject id then
    match found : db.counterAt projectId kind bucketDay with
    | some counter =>
        .ok
          { db with
            statsCounters := db.statsCounters.update
              (fun other => decide (other.id = counter.id))
              (fun other =>
                { other with
                  count := other.count + count
                  bytes := other.bytes + bytes })
              (fun _ => rfl) (by
                intro first second clash
                split at clash <;> split at clash <;> exact clash)
            counter_project := by
              intro row present
              simp only [Series.update_rows, List.mem_map] at present
              obtain ⟨source, sourcePresent, rfl⟩ := present
              have sourceOwned := db.counter_project source sourcePresent
              split <;> exact sourceOwned }
    | none =>
        .ok
          { db with
            statsCounters := db.statsCounters.insert
              (fun id => ⟨id, projectId, kind, bucketDay, count, bytes⟩)
              (fun _ => rfl) (by
                intro other present clash
                rcases clash with sameId | ⟨some, project, sameKind, day⟩
                · exact db.statsCounters.id_ne_next present sameId
                · have different := Table.find?_eq_none.mp found other present
                  have owner : other.projectId = projectId := project
                  exact (decide_eq_false_iff_not.mp different)
                    ⟨owner ▸ some, owner, sameKind, day⟩)
            counter_project := by
              intro row present
              simp only [Series.insert_rows, List.mem_append,
                List.mem_singleton] at present
              rcases present with old | rfl
              · exact db.counter_project row old
              · exact owned }
  else .error (.database .foreignKeyViolation)

/-- `INSERT INTO audit_log`. -/
def insertAudit
    (db : Db)
    (timestamp : Int) (actorToken : Option String) (action : String)
    (target : Option String) (detail : Option AuditDetail) : Db :=
  { db with
    auditLog := db.auditLog.insert
      (fun id => ⟨id, timestamp, actorToken, action, target, detail⟩)
      (fun _ => rfl)
      fun _ present clash => db.auditLog.id_ne_next present clash }

end Db

end Marmotte
