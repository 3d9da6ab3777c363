import Marmotte.Runtime
import Marmotte.Transactions

/-!
# What a database call does

Most calls write neither `entries` nor `blobs`; this is shown once for all of
them.  The calls that do are those of the transactions module.
-/

namespace Marmotte

open Tables

namespace Db

/-- The tables that hold the cached content are the same. -/
structure SameStore (before after : Db) : Prop where
  entries : after.entries = before.entries
  blobs : after.blobs = before.blobs

namespace SameStore

variable {before middle after : Db}

theorem refl (db : Db) : SameStore db db := ⟨rfl, rfl⟩

theorem trans
    (left : SameStore before middle) (right : SameStore middle after) :
    SameStore before after :=
  ⟨right.entries.trans left.entries, right.blobs.trans left.blobs⟩

theorem get (same : SameStore before after) (hash : String) :
    Blobs.get after hash = Blobs.get before hash := by
  rw [Blobs.get, Blobs.get, same.blobs]

theorem surplus (same : SameStore before after) (hash : String) :
    after.surplus hash = before.surplus hash := by
  rw [Db.surplus, Db.surplus, refcount, refcount, same.get, pointersTo,
    pointersTo, same.entries]

theorem entryAt (same : SameStore before after) (key : Key) :
    after.entryAt key = before.entryAt key := by
  rw [Db.entryAt, Db.entryAt, same.entries]

theorem hasBlob (same : SameStore before after) {hash : String} :
    after.HasBlob hash ↔ before.HasBlob hash := by
  rw [HasBlob, HasBlob, same.blobs]

theorem references (same : SameStore before after) {hash : String} :
    after.References hash ↔ before.References hash := by
  rw [References, References, same.entries]

end SameStore

theorem insertProject_ok
    {db after : Db} {name : String} {quota ttl : Option Int} {now id : Int}
    (ran : db.insertProject name quota ttl now = .ok (id, after)) :
    SameStore db after ∧ after.apiKeys = db.apiKeys ∧
      id = db.projects.last + 1 ∧ after.projects.last = id ∧
      after.projects.rows = db.projects.rows ++ [⟨id, name, quota, ttl, now⟩]
    := by
  unfold insertProject at ran
  split at ran
  · cases ran
  · rename_i projects inserted
    have row := Series.insert?_eq_some inserted
    cases ran
    refine ⟨⟨rfl, rfl⟩, rfl, row.2, rfl, ?_⟩
    rw [row.2]
    exact row.1

theorem updateProject_ok
    {db after : Db} {id : Int} {assign : Project → Project} {keepsId}
    (ran : db.updateProject id assign keepsId = .ok after) :
    SameStore db after ∧ after.apiKeys = db.apiKeys ∧
      after.projects.last = db.projects.last ∧
      after.projects.rows = db.projects.rows.map fun project =>
        if project.id = id then assign project else project := by
  unfold updateProject at ran
  split at ran
  · cases ran
  · rename_i projects updated
    have rows := Series.update?_eq_some updated
    cases ran
    refine ⟨⟨rfl, rfl⟩, rfl, rows.2, ?_⟩
    have assigned := rows.1
    simp only [decide_eq_true_eq] at assigned
    exact assigned

end Db

namespace Projects

open Db

theorem created
    {db after : Db} {name : String} {quota ttl : Option Int} {now : Int}
    {project : Project}
    (ran : create now db name quota ttl = .ok (project, after)) :
    SameStore db after ∧ after.apiKeys = db.apiKeys ∧
      project.id = db.projects.last + 1 ∧ project.name = name ∧
      after.projects.last = project.id ∧
      after.projects.rows = db.projects.rows ++ [project] := by
  unfold create at ran
  split at ran
  · rename_i id middle inserted
    have row := insertProject_ok inserted
    cases ran
    exact ⟨row.1, row.2.1, row.2.2.1, rfl, row.2.2.2.1, row.2.2.2.2⟩
  · cases ran

/-- What an update does to the tables: project rows are changed in place. -/
structure Updated (before after : Db) (assign : Project → Project) :
    Prop where
  store : SameStore before after
  apiKeys : after.apiKeys = before.apiKeys
  last : after.projects.last = before.projects.last
  rows : after.projects.rows = before.projects.rows.map assign
  keepsId : ∀ project, (assign project).id = project.id

theorem Updated.trans
    {before middle after : Db} {first second : Project → Project}
    (left : Updated before middle first)
    (right : Updated middle after second) :
    Updated before after (second ∘ first) where
  store := left.store.trans right.store
  apiKeys := right.apiKeys.trans left.apiKeys
  last := right.last.trans left.last
  rows := by rw [right.rows, left.rows, List.map_map]
  keepsId project := (right.keepsId _).trans (left.keepsId _)

theorem assignColumn_ok
    {db after : Db} {id : Int} {value : Option α}
    {assign : α → Project → Project} {keepsId} {onError}
    (ran : assignColumn db id value assign keepsId onError = .ok after) :
    ∃ change, Updated db after change := by
  unfold assignColumn at ran
  split at ran
  · rename_i value
    cases updated : db.updateProject id (assign value) (keepsId value) with
    | error error =>
        rw [updated] at ran
        cases ran
    | ok middle =>
        rw [updated] at ran
        cases ran
        obtain ⟨store, apiKeys, last, rows⟩ := updateProject_ok updated
        refine ⟨_, store, apiKeys, last, rows, fun project => ?_⟩
        split
        · exact keepsId value project
        · rfl
  · cases ran
    exact ⟨fun project => project, .refl _, rfl, rfl, (List.map_id' _).symm,
      fun _ => rfl⟩

theorem updated
    {db after : Db} {id : Int} {newName : Option String}
    {quotaBytes ttlSeconds : Option (Option Int)} {reply : Unit}
    (ran : update db id newName quotaBytes ttlSeconds = .ok (reply, after)) :
    ∃ change, Updated db after change := by
  simp only [update, bind, Except.bind] at ran
  split at ran
  · cases ran
  · rename_i first firstRan
    split at ran
    · cases ran
    · rename_i second secondRan
      split at ran
      · cases ran
      · rename_i third thirdRan
        cases ran
        obtain ⟨_, named⟩ := assignColumn_ok firstRan
        obtain ⟨_, limited⟩ := assignColumn_ok secondRan
        obtain ⟨_, aged⟩ := assignColumn_ok thirdRan
        exact ⟨_, (named.trans limited).trans aged⟩

end Projects

namespace DbCall

open Db

/-- The calls that write neither `entries` nor `blobs`. -/
def Inert : DbCall → Prop
  | .projectsDelete _ => False
  | .blobsDelete _ => False
  | .entriesUpsert .. => False
  | .entriesTouch _ => False
  | .entriesDelete .. => False
  | .entriesSetPinned .. => False
  | .purge _ => False
  | _ => True

theorem exec_inert
    {env : Env} {now : Int} {call : DbCall} {db after : Db}
    {reply : call.Reply}
    (inert : call.Inert)
    (ran : call.exec env now db = .ok (reply, after)) :
    SameStore db after := by
  cases call with
  | projectsDelete id => cases inert
  | blobsDelete hash => cases inert
  | entriesUpsert projectId kind path hash size => cases inert
  | entriesTouch id => cases inert
  | entriesDelete projectId id => cases inert
  | entriesSetPinned projectId id pinned => cases inert
  | purge hash => cases inert
  | projectsCreate name quota ttl => exact (Projects.created ran).1
  | projectsUpdate id newName quota ttl =>
      obtain ⟨_, updated⟩ := Projects.updated ran
      exact updated.store
  | projectsGet id =>
      simp only [exec, Except.map] at ran
      split at ran <;> cases ran
      exact .refl _
  | projectsGetByName name =>
      simp only [exec, Except.map] at ran
      split at ran <;> cases ran
      exact .refl _
  | apiKeysCreate projectId keyLookup keyHash role label =>
      simp only [exec, ApiKeys.create, bind, Except.bind, insertApiKey] at ran
      split at ran
      · cases ran
      · rename_i inserted
        split at inserted
        · split at inserted <;> cases inserted
          cases ran
          exact ⟨rfl, rfl⟩
        · cases inserted
  | apiKeysRevoke projectId id =>
      simp only [exec, ApiKeys.revoke] at ran
      split at ran <;> cases ran
      exact ⟨rfl, rfl⟩
  | adminTokensCreate tokenLookup tokenHash label =>
      simp only [exec, AdminTokens.create, bind, Except.bind,
        insertAdminToken] at ran
      split at ran
      · cases ran
      · rename_i inserted
        split at inserted <;> cases inserted
        cases ran
        exact ⟨rfl, rfl⟩
  | adminTokensRevoke id =>
      simp only [exec, AdminTokens.revoke] at ran
      split at ran <;> cases ran
      exact ⟨rfl, rfl⟩
  | statsBump projectId kind count bytes =>
      simp only [exec, Stats.bump, bind, Except.bind, upsertCounter] at ran
      split at ran
      · cases ran
      · rename_i written
        split at written
        · split at written <;> cases written <;> cases ran
          · exact ⟨rfl, rfl⟩
          · exact ⟨rfl, rfl⟩
        · cases written
  | audit actorToken action target detail =>
      cases ran
      exact ⟨rfl, rfl⟩
  | projectsList | apiKeysFindActive | adminTokensFindActive
  | blobsZeroRefcount | blobsTotalSize | blobsHashes | entriesFind
  | entriesProjectUsage | ttlCandidates | quotaCandidates
  | globalCandidates | statsSum =>
      cases ran
      exact .refl _

/-! ## Which rows a call can add or drop -/

/-- The hash that a call may add a row for and a reference to. -/
def stores : DbCall → Option String
  | .entriesUpsert _ _ _ hash _ => some hash
  | _ => none

/-- The hash whose row a call may drop. -/
def drops : DbCall → Option String
  | .blobsDelete hash => some hash
  | .purge hash => some hash
  | _ => none

section Rows

variable {env : Env} {now : Int} {call : DbCall} {db after : Db}
variable {reply : call.Reply} {hash : String}

theorem upserted_hasBlob
    {key : Key} {size : Int}
    (upserted : Entries.Upserted now db after key hash size) (other : String) :
    after.HasBlob other ↔ db.HasBlob other ∨ other = hash := by
  rw [hasBlob_iff_storedSize, hasBlob_iff_storedSize,
    upserted.storedSize other]
  by_cases same : other = hash
  · simp [same]
  · simp [same]

/-- What one call does to the blob rows and to the references. -/
theorem exec_rows
    (ran : call.exec env now db = .ok (reply, after)) (hash : String) :
    (after.HasBlob hash → db.HasBlob hash ∨ call.stores = some hash) ∧
    (db.HasBlob hash → after.HasBlob hash ∨ call.drops = some hash) ∧
    (after.References hash → db.References hash ∨ call.stores = some hash) ∧
    (call.stores = some hash → after.HasBlob hash) := by
  have unreferenced {after : Db} {keeps : Entry → Bool}
      (rows : after.entries.rows = db.entries.rows.filter keeps) :
      after.References hash → db.References hash := by
    rintro ⟨entry, present, equal⟩
    rw [rows] at present
    exact ⟨entry, (List.mem_filter.mp present).1, equal⟩
  have sameRows {after : Db} (blobs : after.blobs = db.blobs) :
      after.HasBlob hash ↔ db.HasBlob hash := by
    rw [HasBlob, HasBlob, blobs]
  have adjusted {after : Db} {assign : Entry → Entry}
      (adjusted : Entries.Adjusted db after assign) :
      after.References hash → db.References hash := by
    rintro ⟨entry, present, equal⟩
    rw [adjusted.rows, List.mem_map] at present
    obtain ⟨source, sourcePresent, rfl⟩ := present
    exact ⟨source, sourcePresent, (adjusted.keepsHash source).symm.trans equal⟩
  by_cases inert : call.Inert
  · have same := exec_inert inert ran
    have nothing : call.stores = none := by
      cases call <;> first | rfl | cases inert
    rw [same.hasBlob, same.references, nothing]
    exact ⟨.inl, .inl, .inl, by simp⟩
  cases call with
  | projectsDelete id =>
      have deleted := Projects.deleted ran
      have blobs := sameRows deleted.2.2.2.1
      exact ⟨.inl ∘ blobs.mp, .inl ∘ blobs.mpr,
        .inl ∘ unreferenced deleted.2.1, by simp [stores]⟩
  | entriesTouch id =>
      cases ran
      have touched := Entries.touch_adjusts now db id
      have blobs := sameRows touched.blobs
      exact ⟨.inl ∘ blobs.mp, .inl ∘ blobs.mpr, .inl ∘ adjusted touched,
        by simp [stores]⟩
  | entriesSetPinned projectId id pinned =>
      have repinned := Entries.setPinned_adjusts ran
      have blobs := sameRows repinned.blobs
      exact ⟨.inl ∘ blobs.mp, .inl ∘ blobs.mpr, .inl ∘ adjusted repinned,
        by simp [stores]⟩
  | entriesDelete projectId id =>
      obtain ⟨entry, -, -, deleted⟩ := Entries.deleted ran
      have blobs : after.HasBlob hash ↔ db.HasBlob hash := by
        rw [hasBlob_iff_storedSize, hasBlob_iff_storedSize,
          deleted.storedSize]
      exact ⟨.inl ∘ blobs.mp, .inl ∘ blobs.mpr,
        .inl ∘ unreferenced deleted.rows, by simp [stores]⟩
  | entriesUpsert projectId kind path newHash size =>
      have upserted := (Entries.upserted ran).2
      have blobs := upserted_hasBlob upserted
      refine ⟨fun stored => ?_, fun stored => .inl ((blobs hash).mpr (.inl stored)), ?_, ?_⟩
      · exact ((blobs hash).mp stored).imp_right fun same => by
          rw [stores, same]
      · rintro ⟨entry, present, equal⟩
        rcases upserted.exchange.mem_after present with new | old
        · rw [List.mem_singleton] at new
          right
          rw [stores, ← equal, new, storedEntry_blobHash]
        · exact .inl ⟨entry, old, equal⟩
      · intro same
        exact (blobs hash).mpr (.inr (Option.some.inj same).symm)
  | blobsDelete dropped =>
      simp only [exec, Blobs.delete, bind, Except.bind] at ran
      split at ran
      · cases ran
      · rename_i middle deletion
        cases ran
        obtain ⟨-, entries, rows⟩ := Blobs.get_deleteBlob deletion
        have references : after.References hash → db.References hash := by
          rw [References, References, entries]
          exact id
        have row := rows hash
        refine ⟨?_, ?_, .inl ∘ references, by simp [stores]⟩
        · rw [Blobs.hasBlob_iff, Blobs.hasBlob_iff, row]
          rintro ⟨blob, found⟩
          split at found
          · cases found
          · exact .inl ⟨blob, found⟩
        · rw [Blobs.hasBlob_iff, Blobs.hasBlob_iff, row, drops]
          rintro ⟨blob, found⟩
          by_cases same : hash = dropped
          · exact .inr (by rw [same])
          · exact .inl ⟨blob, by rw [if_neg same, found]⟩
  | purge dropped =>
      obtain ⟨after', same, rows, -, blobs, -⟩ :=
        GcQueries.purge_ok db dropped
      simp only [exec] at ran
      rw [same] at ran
      cases ran
      have row := blobs hash
      refine ⟨?_, ?_, .inl ∘ unreferenced rows, by simp [stores]⟩
      · rw [Blobs.hasBlob_iff, Blobs.hasBlob_iff, row]
        rintro ⟨blob, found⟩
        split at found
        · cases found
        · exact .inl ⟨blob, found⟩
      · rw [Blobs.hasBlob_iff, Blobs.hasBlob_iff, row, drops]
        rintro ⟨blob, found⟩
        by_cases same : hash = dropped
        · exact .inr (by rw [same])
        · exact .inl ⟨blob, by rw [if_neg same, found]⟩
  | _ => exact absurd trivial inert

/-- A call either keeps how far the count of a hash exceeds the number of its
entries, or leaves no entry and no row; only a project delete may raise it, by
the entries that it takes along. -/
theorem exec_surplus
    (ran : call.exec env now db = .ok (reply, after)) (hash : String) :
    after.surplus hash = db.surplus hash ∨ after.surplus hash = 0 ∨
      ∃ id, call = .projectsDelete id ∧
        after.surplus hash = db.surplus hash +
          pointers (db.entriesOf id) hash := by
  have dropped {after : Db}
      (missing : Blobs.get after hash = none) : after.surplus hash = 0 := by
    have unreferenced : ¬after.References hash := fun references =>
      Blobs.get_eq_none.mp missing references.hasBlob
    rw [references_iff] at unreferenced
    simp only [Db.surplus, refcount, missing, Option.map_none,
      Option.getD_none]
    omega
  by_cases inert : call.Inert
  · exact .inl ((exec_inert inert ran).surplus hash)
  cases call with
  | projectsDelete id =>
      have deleted := Projects.deleted ran
      refine .inr (.inr ⟨id, rfl, ?_⟩)
      rw [surplus_of_filter deleted.2.1 deleted.2.2.2.1]
      simp only [Bool.not_not, entriesOf]
  | entriesTouch id =>
      cases ran
      exact .inl ((Entries.touch_adjusts now db id).surplus hash)
  | entriesSetPinned projectId id pinned =>
      exact .inl ((Entries.setPinned_adjusts ran).surplus hash)
  | entriesDelete projectId id =>
      obtain ⟨entry, -, -, deleted⟩ := Entries.deleted ran
      exact .inl (deleted.exchange.surplus hash)
  | entriesUpsert projectId kind path newHash size =>
      exact .inl ((Entries.upserted ran).2.exchange.surplus hash)
  | blobsDelete freed =>
      simp only [exec, Blobs.delete, bind, Except.bind] at ran
      split at ran
      · cases ran
      · rename_i middle deletion
        cases ran
        obtain ⟨-, entries, rows⟩ := Blobs.get_deleteBlob deletion
        by_cases same : hash = freed
        · exact .inr (.inl (dropped (by rw [rows, if_pos same])))
        · left
          rw [Db.surplus, Db.surplus, refcount, refcount, rows,
            if_neg same, pointersTo, pointersTo, entries]
  | purge freed =>
      obtain ⟨after', ok, rows, -, blobs, -⟩ := GcQueries.purge_ok db freed
      simp only [exec] at ran
      rw [ok] at ran
      cases ran
      by_cases same : hash = freed
      · exact .inr (.inl (dropped (by rw [blobs, if_pos same])))
      · left
        have counted : after.pointersTo hash = db.pointersTo hash := by
          rw [pointersTo, rows, pointers, List.countP_filter]
          apply List.countP_congr
          intro entry _
          simp only [Bool.and_eq_true, decide_eq_true_eq,
            Bool.not_eq_true', decide_eq_false_iff_not]
          exact ⟨fun both => both.1, fun equal =>
            ⟨equal, fun other => same (equal.symm.trans other)⟩⟩
        rw [Db.surplus, Db.surplus, refcount, refcount, blobs,
          if_neg same, counted]
  | _ => exact absurd trivial inert

/-- The size stored for a hash was there before, unless an upsert brought
it. -/
theorem exec_storedSize
    {size : Int}
    (ran : call.exec env now db = .ok (reply, after))
    (sized : after.storedSize hash = some size) :
    db.storedSize hash = some size ∨
      ∃ projectId kind path,
        call = .entriesUpsert projectId kind path hash size := by
  have sameBlobs {after : Db} (blobs : after.blobs = db.blobs) :
      after.storedSize hash = db.storedSize hash := by
    rw [storedSize, storedSize, Blobs.get, Blobs.get, blobs]
  have dropped {freed : String} {after : Db}
      (rows : Blobs.get after hash =
        if hash = freed then none else Blobs.get db hash)
      (sized : after.storedSize hash = some size) :
      db.storedSize hash = some size := by
    rw [storedSize, rows] at sized
    split at sized
    · cases sized
    · exact sized
  by_cases inert : call.Inert
  · left
    rw [← sameBlobs (exec_inert inert ran).blobs]
    exact sized
  cases call with
  | projectsDelete id =>
      rw [sameBlobs (Projects.deleted ran).2.2.2.1] at sized
      exact .inl sized
  | entriesTouch id =>
      cases ran
      exact .inl sized
  | entriesSetPinned projectId id pinned =>
      rw [sameBlobs (Entries.setPinned_adjusts ran).blobs] at sized
      exact .inl sized
  | entriesDelete projectId id =>
      obtain ⟨entry, -, -, deleted⟩ := Entries.deleted ran
      rw [deleted.storedSize] at sized
      exact .inl sized
  | entriesUpsert projectId kind path newHash newSize =>
      have sizes := (Entries.upserted ran).2.storedSize hash
      rw [sized] at sizes
      by_cases same : hash = newHash
      · subst same
        rw [if_pos rfl, Option.some.injEq] at sizes
        cases old : db.storedSize hash with
        | some oldSize =>
            left
            rw [old, Option.getD_some] at sizes
            rw [sizes]
        | none =>
            right
            rw [old, Option.getD_none] at sizes
            exact ⟨projectId, kind, path, by rw [sizes]⟩
      · rw [if_neg same] at sizes
        exact .inl sizes.symm
  | blobsDelete freed =>
      simp only [exec, Blobs.delete, bind, Except.bind] at ran
      split at ran
      · cases ran
      · rename_i middle deletion
        cases ran
        exact .inl (dropped ((Blobs.get_deleteBlob deletion).2.2 hash) sized)
  | purge freed =>
      obtain ⟨after', ok, -, -, blobs, -⟩ := GcQueries.purge_ok db freed
      simp only [exec] at ran
      rw [ok] at ran
      cases ran
      exact .inl (dropped (blobs hash) sized)
  | _ => exact absurd trivial inert

/-- The same row number, key, blob and size. -/
structure SameContent (first second : Entry) : Prop where
  id : first.id = second.id
  key : first.key = second.key
  hash : first.blobHash = second.blobHash
  size : first.sizeBytes = second.sizeBytes

/-- An entry had its row number, key, blob and size before, unless an upsert
brought them. -/
theorem exec_entries
    {entry : Entry}
    (ran : call.exec env now db = .ok (reply, after))
    (present : entry ∈ after.entries.rows) :
    (∃ old ∈ db.entries.rows, SameContent old entry) ∨
      ∃ projectId kind path,
        call = .entriesUpsert projectId kind path entry.blobHash
          entry.sizeBytes ∧ entry.key = ⟨projectId, kind, path⟩ := by
  have filtered {keeps : Entry → Bool}
      (rows : after.entries.rows = db.entries.rows.filter keeps) :
      ∃ old ∈ db.entries.rows, SameContent old entry := by
    rw [rows] at present
    exact ⟨entry, (List.mem_filter.mp present).1, rfl, rfl, rfl, rfl⟩
  have adjusted {assign : Entry → Entry}
      (adjusted : Entries.Adjusted db after assign) :
      ∃ old ∈ db.entries.rows, SameContent old entry := by
    rw [adjusted.rows, List.mem_map] at present
    obtain ⟨old, oldPresent, rfl⟩ := present
    exact ⟨old, oldPresent, (adjusted.keepsId old).symm,
      (adjusted.keepsKey old).symm, (adjusted.keepsHash old).symm,
      (adjusted.keepsSize old).symm⟩
  by_cases inert : call.Inert
  · rw [(exec_inert inert ran).entries] at present
    exact .inl ⟨entry, present, rfl, rfl, rfl, rfl⟩
  cases call with
  | projectsDelete id => exact .inl (filtered (Projects.deleted ran).2.1)
  | entriesTouch id =>
      cases ran
      exact .inl (adjusted (Entries.touch_adjusts now db id))
  | entriesSetPinned projectId id pinned =>
      exact .inl (adjusted (Entries.setPinned_adjusts ran))
  | entriesDelete projectId id =>
      obtain ⟨_, -, -, deleted⟩ := Entries.deleted ran
      exact .inl (filtered deleted.rows)
  | entriesUpsert projectId kind path newHash newSize =>
      rcases (Entries.upserted ran).2.exchange.mem_after present with new | old
      · rw [List.mem_singleton] at new
        subst new
        exact .inr ⟨projectId, kind, path, by simp⟩
      · exact .inl ⟨entry, old, rfl, rfl, rfl, rfl⟩
  | blobsDelete freed =>
      simp only [exec, Blobs.delete, bind, Except.bind] at ran
      split at ran
      · cases ran
      · rename_i middle deletion
        cases ran
        rw [(Blobs.get_deleteBlob deletion).2.1] at present
        exact .inl ⟨entry, present, rfl, rfl, rfl, rfl⟩
  | purge freed =>
      obtain ⟨after', ok, rows, -⟩ := GcQueries.purge_ok db freed
      simp only [exec] at ran
      rw [ok] at ran
      cases ran
      exact .inl (filtered rows)
  | _ => exact absurd trivial inert

end Rows

end DbCall

end Marmotte
