import Marmotte.Custody.Intact

/-!
# When programs interfere

The two conditions under which a call of one program leaves the record of
another one true: one between uploads and sweeps, one between uploads and
orphan scans.
-/

namespace Marmotte

open Effects Tables

namespace Custody

/-- No file is unlinked while an upload that relies on it has not committed,
and no upload commits a hash that a sweep has queried and not yet freed. -/
def SparesSweeps (request : Call) (other : Local) : Prop :=
  match request with
  | .fs (.removeFile path) =>
      ∀ hash, other.held = some hash → path ≠ blobPath hash
  | .db (.entriesUpsert _ _ _ hash _) => hash ∉ other.pending
  | _ => True

instance (request : Call) (other : Local) :
    Decidable (SparesSweeps request other) := by
  unfold SparesSweeps
  split
  · exact inferInstanceAs
      (Decidable (∀ hash ∈ other.held, _ ≠ blobPath hash))
  · infer_instance
  · infer_instance

/-- No upload finds or places a file that a scan has listed as an orphan, or
commits a hash that its walk has missed; and a scan does not list the file of
an upload that has not committed. -/
def SparesScans
    (world : World) (record : Local) (request : Call) (other : Local) : Prop :=
  match request with
  | .fs (.fileExists path) =>
      ∀ hash ∈ other.diskOrphans, path = blobPath hash → ¬HasFile world hash
  | .fs (.rename _ target) =>
      ∀ hash, target = blobPath hash →
        hash ∉ other.diskOrphans ∧ hash ∉ other.dbOrphans ∧
          ∀ names, other.onDisk = some names →
            world.db.HasBlob hash → hash ∈ names
  | .db (.entriesUpsert _ _ _ hash _) =>
      ∀ names, other.onDisk = some names → hash ∈ names
  | .db .blobsHashes =>
      ∀ names, record.onDisk = some names →
        ∀ hash ∈ names, other.held = some hash → world.db.HasBlob hash
  | _ => True

instance (world : World) (record : Local) (request : Call) (other : Local) :
    Decidable (SparesScans world record request other) := by
  unfold SparesScans
  split
  · infer_instance
  · rename_i target
    refine decidable_of_iff
      (target = blobPath (hashOf target) →
        hashOf target ∉ other.diskOrphans ∧
          hashOf target ∉ other.dbOrphans ∧
          ∀ names ∈ other.onDisk, world.db.HasBlob (hashOf target) →
            hashOf target ∈ names)
      ⟨?_, fun spares => spares (hashOf target)⟩
    rintro spares hash rfl
    exact spares rfl
  · exact inferInstanceAs (Decidable (∀ names ∈ other.onDisk, _ ∈ names))
  · exact inferInstanceAs
      (Decidable (∀ names ∈ record.onDisk, ∀ hash ∈ names,
        other.held = some hash → world.db.HasBlob hash))
  · infer_instance

/-- Two programs write different temporary files, and neither lists as an
orphan what the other one relies on. -/
structure Apart (first second : Local) : Prop where
  names : ∀ own foreign, first.upload = some own →
    second.upload = some foreign → own.name ≠ foreign.name
  left : ∀ hash ∈ first.diskOrphans, second.held ≠ some hash
  right : ∀ hash ∈ second.diskOrphans, first.held ≠ some hash

theorem Apart.symm {first second : Local} (apart : Apart first second) :
    Apart second first where
  names own foreign ownUpload foreignUpload :=
    (apart.names foreign own foreignUpload ownUpload).symm
  left := apart.right
  right := apart.left

theorem apart_idle (record : Local) : Apart .idle record := by
  constructor <;> simp [Local.idle]

section Frame

variable {setting : Setting} {record other : Local}
variable {config : Config} {before after : World}
variable {request : Call} {reply : Except CoreError request.Reply}

/-- A call that spares another record leaves it undisturbed. -/
theorem undisturbed
    (owned : Owned setting record before)
    (foreign : Owned setting other before)
    (apart : Apart record other)
    (permitted : permits setting record request)
    (sweeps : SparesSweeps request other)
    (scans : SparesScans before record request other)
    (answered : Faulty setting.env config request before reply after) :
    Undisturbed setting other before after := by
  cases request with
  | fs call =>
      have frame := Faulty.fs_frame answered
      have sameDb : after.db = before.db := by rw [frame.1]
      have appears {hash : String} (present : HasFile after hash) :=
        hasFile_after permitted answered present
      have stays {hash : String} (present : HasFile before hash) :=
        hasFile_before permitted answered present
      constructor
      · rw [frame.1]
      · intro upload uploading
        apply frame.2
        intro touches
        obtain ⟨own, ownUpload, same⟩ := touches_tmpPath permitted touches
        exact apart.names own upload ownUpload uploading same
      · intro hash holding present
        refine (stays present).resolve_right ?_
        rintro rfl
        exact sweeps hash holding rfl
      · intro steady _ hash committing stored present
        rw [sameDb]
        refine ⟨stored, (stays present).resolve_right ?_⟩
        rintro rfl
        rcases permitted with ⟨_, -, impossible⟩ | ⟨orphan, same, known⟩
        · exact blobPath_ne_tmpPath _ _ impossible
        · rw [blobPath_eq_iff] at same
          subst same
          rcases known with waiting | orphaned
          · rw [owned.sweeping.resolve_left steady] at waiting
            cases waiting
          · exact owned.diskOrphans _ orphaned stored
      · rw [sameDb]
        exact fun _ _ => id
      · intro names walked hash missed stored present
        rw [sameDb] at stored
        refine ⟨stored, (appears present).resolve_right ?_⟩
        rintro ⟨source, rfl⟩
        exact missed ((scans hash rfl).2.2 names walked stored)
      · rw [sameDb]
        exact fun _ _ => id
      · intro hash orphaned present
        refine (appears present).resolve_right ?_
        rintro ⟨source, rfl⟩
        exact (scans hash rfl).2.1 orphaned
  | db call =>
      rcases Faulty.db_cases answered with
        ⟨_, db, ran, rfl, rfl⟩ | ⟨_, rfl, rfl⟩
      swap
      · exact .refl _ _ _
      have rows (hash : String) := DbCall.exec_rows ran hash
      have upserts {hash : String} (adds : call.stores = some hash) :
          record.held = some hash ∧ hash ∉ other.pending ∧
            ∀ names, other.onDisk = some names → hash ∈ names := by
        cases call <;> cases adds
        exact ⟨permitted.1, sweeps, scans⟩
      constructor
      · exact Nat.le_refl _
      · exact fun _ _ => rfl
      · exact fun _ _ => id
      · intro steady sighted hash committing stored present
        refine ⟨((rows hash).2.1 stored).resolve_right fun drops => ?_,
          present⟩
        cases call with
        | blobsDelete freed =>
            have known : freed ∈ record.pending := permitted
            rw [owned.sweeping.resolve_left steady] at known
            cases known
        | purge freed =>
            cases drops
            exact owned.dbOrphans sighted hash permitted present
        | _ => cases drops
      · intro hash waiting references
        refine ((rows hash).2.2.1 references).resolve_right fun adds => ?_
        exact (upserts adds).2.1 waiting
      · intro names walked hash missed stored present
        refine ⟨((rows hash).1 stored).resolve_right fun adds => ?_, present⟩
        exact missed ((upserts adds).2.2 names walked)
      · intro hash orphaned stored
        refine ((rows hash).1 stored).resolve_right fun adds => ?_
        exact apart.right hash orphaned (upserts adds).1
      · exact fun _ _ => id
  | newUuid =>
      cases answered with
      | exact answered =>
          cases answered
          exact
            { Undisturbed.refl setting other before with
              uuids := Nat.le_succ _ }
  | _ =>
      cases answered with
      | exact answered =>
          simp only [exec] at answered
          first
          | cases answered
          | split at answered <;> cases answered
          all_goals exact { Undisturbed.refl setting other before with }

/-- What a reply can teach about temporary files, digests and orphans. -/
theorem apart_step
    (foreign : Owned setting other before)
    (apart : Apart record other)
    (permitted : permits setting record request)
    (scans : SparesScans before record request other)
    (answered : Faulty setting.env config request before reply after) :
    Apart (advance setting.env record request reply) other := by
  have relearn (upload : Option Upload)
      (same : ∀ own, upload = some own →
        ∃ old, record.upload = some old ∧ own.name = old.name)
      (held : Option String)
      (holds : ∀ hash ∈ other.diskOrphans, held ≠ some hash)
      (disk : List String) (smaller : disk ⊆ record.diskOrphans) :
      ∀ last : Local, last.upload = upload → last.held = held →
        last.diskOrphans = disk → Apart last other := by
    rintro last rfl rfl rfl
    refine ⟨?_, fun hash orphaned => apart.left hash (smaller orphaned),
      holds⟩
    intro own foreign ownUpload foreignUpload
    obtain ⟨old, oldUpload, equal⟩ := same own ownUpload
    exact equal ▸ apart.names old foreign oldUpload foreignUpload
  have same : ∀ own, record.upload = some own →
      ∃ old, record.upload = some old ∧ own.name = old.name :=
    fun own uploading => ⟨own, uploading, rfl⟩
  cases request with
  | newUuid =>
      cases answered with
      | exact answered =>
          cases answered
          refine ⟨?_, by simp [advance, Local.idle],
            by simp [advance, Local.idle]⟩
          rintro own upload ⟨⟩ uploading
          obtain ⟨number, used, name⟩ := foreign.named upload uploading
          rw [name]
          intro equal
          exact Nat.ne_of_gt used (setting.env.uuid_injective equal)
  | fs call =>
      cases call with
      | createFile path | appendFile path chunk =>
          cases reply
          all_goals
            refine relearn _ ?_ record.held apart.right record.diskOrphans
              (List.Subset.refl _) _ rfl rfl rfl
            intro own mapped
            obtain ⟨old, uploading, rfl⟩ := Option.map_eq_some_iff.mp mapped
            exact ⟨old, uploading, rfl⟩
      | fileExists path =>
          rcases reply with error | present
          · exact apart
          cases present with
          | false => exact apart
          | true =>
              obtain ⟨name, content, ⟨uploading, -⟩, rfl⟩ := permitted
              refine relearn _ same (record.digest setting.env) ?_
                record.diskOrphans (List.Subset.refl _) _ rfl rfl rfl
              intro hash orphaned digest
              simp only [Local.digest, uploading, Option.bind_some,
                Option.map_some, Option.some.injEq] at digest
              refine scans hash orphaned (by rw [digest]) ?_
              rcases Faulty.fs_cases answered with ⟨found, -⟩ | ⟨_, _, -⟩
              · simp only [FsCall.exec, Except.ok.injEq] at found
                rw [HasFile, ← digest, ← found]
              · contradiction
      | rename source target =>
          cases reply with
          | error error => exact apart
          | ok reply =>
              obtain ⟨name, content, ⟨uploading, -⟩, -, rfl⟩ := permitted
              refine relearn none (by simp) (record.digest setting.env) ?_
                record.diskOrphans (List.Subset.refl _) _ rfl rfl rfl
              intro hash orphaned digest
              simp only [Local.digest, uploading, Option.bind_some,
                Option.map_some, Option.some.injEq] at digest
              exact (scans hash (by rw [digest])).1 orphaned
      | removeFile path =>
          refine relearn _ ?_ record.held apart.right _ List.erase_subset _
            rfl rfl rfl
          intro own filtered
          exact ⟨own, (Option.filter_eq_some_iff.mp filtered).1, rfl⟩
      | blobsExists =>
          rcases reply with error | found
          · exact relearn _ same record.held apart.right record.diskOrphans
              (List.Subset.refl _) _ rfl rfl rfl
          · cases found
            all_goals
              exact relearn _ same record.held apart.right record.diskOrphans
                (List.Subset.refl _) _ rfl rfl rfl
      | walkBlobs =>
          cases reply
          all_goals
            exact relearn _ same record.held apart.right record.diskOrphans
              (List.Subset.refl _) _ rfl rfl rfl
      | _ => exact apart
  | db call =>
      cases call with
      | entriesUpsert projectId kind path hash size =>
          cases reply
          all_goals
            exact relearn _ same none (by simp) record.diskOrphans
              (List.Subset.refl _) _ rfl rfl rfl
      | blobsHashes =>
          cases reply with
          | error error =>
              exact relearn _ same record.held apart.right record.diskOrphans
                (List.Subset.refl _) _ rfl rfl rfl
          | ok hashes =>
              obtain ⟨names, walked⟩ := Option.isSome_iff_exists.mp permitted
              refine ⟨apart.names, ?_, apart.right⟩
              intro hash orphaned holding
              simp only [advance, advanceDb, walked, Option.getD_some,
                mem_difference] at orphaned
              have stored := scans names walked hash orphaned.1 holding
              rcases Faulty.db_cases answered with
                ⟨listed, _, ran, equal, -⟩ | ⟨_, impossible, -⟩
              · cases ran
                cases equal
                apply orphaned.2
                simpa [Db.HasBlob] using stored
              · cases impossible
      | _ =>
          cases reply
          all_goals
            exact relearn _ same record.held apart.right record.diskOrphans
              (List.Subset.refl _) _ rfl rfl rfl
  | _ => exact apart

/-- Without orphan scans there is nothing for other programs to spare. -/
theorem sparesScans_of_none
    (none : ¬setting.scans)
    (owned : Owned setting record before)
    (foreign : Owned setting other before) :
    SparesScans before record request other := by
  have idle := owned.scanning.resolve_left none
  have otherIdle := foreign.scanning.resolve_left none
  unfold SparesScans
  split
  · intro hash orphaned
    rw [otherIdle.2.1] at orphaned
    cases orphaned
  · intro hash _
    refine ⟨?_, ?_, fun names walked => ?_⟩
    · simp [otherIdle.2.1]
    · simp [otherIdle.2.2]
    · rw [otherIdle.1] at walked
      cases walked
  · intro names walked
    rw [otherIdle.1] at walked
    cases walked
  · intro names walked
    rw [idle.1] at walked
    cases walked
  · trivial

/-- Where nothing is swept or scanned either, no blob file is unlinked. -/
theorem sparesSweeps_of_none
    (unswept : ¬setting.sweeps) (none : ¬setting.scans)
    (owned : Owned setting record before)
    (foreign : Owned setting other before)
    (permitted : permits setting record request) :
    SparesSweeps request other := by
  unfold SparesSweeps
  split
  · rintro hash - rfl
    rcases permitted with ⟨upload, -, impossible⟩ | ⟨_, -, waiting | orphaned⟩
    · exact blobPath_ne_tmpPath _ _ impossible
    · rw [owned.sweeping.resolve_left unswept] at waiting
      cases waiting
    · rw [(owned.scanning.resolve_left none).2.1] at orphaned
      cases orphaned
  · rw [foreign.sweeping.resolve_left unswept]
    exact List.not_mem_nil
  · trivial

end Frame

end Custody

end Marmotte
