import Marmotte.CallEffects
import Marmotte.Gc

/-!
# Evictions

Deleting a list of entries one after the other, as every phase of a sweep does
when nothing else is running.
-/

namespace Marmotte

open Effects Tables

namespace Db

/-- The database after `Entries::delete` on an entry. -/
def without (db : Db) (entry : Entry) : Db :=
  match Entries.delete db entry.projectId entry.id with
  | .ok (_, after) => after
  | .error _ => db

theorem delete_without
    {db : Db} {entry : Entry} (present : entry ∈ db.entries.rows) :
    Entries.delete db entry.projectId entry.id =
        .ok ((), db.without entry) ∧
      Entries.Deleted db (db.without entry) entry := by
  obtain ⟨after, ran, deleted⟩ := Entries.delete_ok present
  have same : db.without entry = after := by rw [without, ran]
  rw [same]
  exact ⟨ran, deleted⟩

/-- The database after evicting a list of entries. -/
def evicting (db : Db) (victims : List Entry) : Db :=
  victims.foldl without db

@[simp] theorem evicting_nil (db : Db) : db.evicting [] = db := rfl

@[simp] theorem evicting_cons
    (db : Db) (entry : Entry) (victims : List Entry) :
    db.evicting (entry :: victims) = (db.without entry).evicting victims :=
  rfl

theorem evicting_append (db : Db) (first second : List Entry) :
    db.evicting (first ++ second) = (db.evicting first).evicting second :=
  List.foldl_append

/-- Entries to evict: some of the stored ones, each once. -/
structure Victims (db : Db) (victims : List Entry) : Prop where
  stored : ∀ entry ∈ victims, entry ∈ db.entries.rows
  distinct : victims.Nodup

theorem Victims.of_sublist
    {db : Db} {victims fewer : List Entry}
    (valid : Victims db victims) (part : fewer.Sublist victims) :
    Victims db fewer where
  stored _ present := valid.stored _ (part.subset present)
  distinct := valid.distinct.sublist part

theorem victims_nil (db : Db) : Victims db [] where
  stored := by simp
  distinct := .nil

/-- The stored entries that satisfy a condition, in any order. -/
theorem victims_of_perm
    {db : Db} {victims : List Entry} {selects : Entry → Bool}
    (permuted : victims.Perm (db.entries.rows.filter selects)) :
    Victims db victims where
  stored _ present :=
    (List.mem_filter.mp (permuted.mem_iff.mp present)).1
  distinct := permuted.nodup_iff.mpr (db.entries.nodup.filter _)

/-- Deleting the first victim leaves the others to evict. -/
theorem Victims.tail
    {db : Db} {entry : Entry} {rest : List Entry}
    (valid : Victims db (entry :: rest)) :
    Victims (db.without entry) rest := by
  have present := valid.stored entry List.mem_cons_self
  have deleted := (delete_without present).2
  have parts := List.nodup_cons.mp valid.distinct
  refine ⟨fun other waiting => ?_, parts.2⟩
  have otherPresent := valid.stored other (List.mem_cons_of_mem _ waiting)
  rw [deleted.rows, List.mem_filter]
  refine ⟨otherPresent, ?_⟩
  have different : other.id ≠ entry.id := fun same =>
    parts.1 (db.entries.eq_of_id otherPresent present same ▸ waiting)
  simp [different]

/-- What evicting a list of entries does. -/
structure Evicted (before after : Db) (victims : List Entry) : Prop where
  rows : after.entries.rows =
    before.entries.rows.filter fun entry => !victims.contains entry
  blobs : after.blobs.rows = before.blobs.rows.map fun blob =>
    { blob with refcount := blob.refcount - pointers victims blob.hash }
  surplus : ∀ hash, after.surplus hash = before.surplus hash
  storedSize : ∀ hash, after.storedSize hash = before.storedSize hash
  last : after.entries.last = before.entries.last
  tenants : SameTenants before after

theorem evicting_spec
    {db : Db} {victims : List Entry} (valid : Victims db victims) :
    Evicted db (db.evicting victims) victims := by
  induction victims generalizing db with
  | nil =>
      refine ⟨by simp, ?_, fun _ => rfl, fun _ => rfl, rfl, .refl db⟩
      simp
  | cons entry rest inductionHypothesis =>
      have present := valid.stored entry List.mem_cons_self
      have deleted := (delete_without present).2
      have evicted := inductionHypothesis valid.tail
      rw [evicting_cons]
      constructor
      · rw [evicted.rows, deleted.rows, List.filter_filter]
        apply List.filter_congr
        intro other otherPresent
        have selection : other.id = entry.id ↔ other = entry :=
          ⟨db.entries.eq_of_id otherPresent present, by rintro rfl; rfl⟩
        by_cases same : other = entry
        · simp [same]
        · have different : other.id ≠ entry.id := fun equal =>
            same (selection.mp equal)
          simp [same, different]
      · rw [evicted.blobs, deleted.blobs, List.map_map]
        apply List.map_congr_left
        intro blob _
        simp only [Function.comp_apply]
        by_cases same : blob.hash = entry.blobHash
        · rw [if_pos same]
          simp only [pointers_cons, same, if_true]
          congr 1
          push_cast
          omega
        · rw [if_neg same]
          simp [pointers_cons, Ne.symm same]
      · intro hash
        rw [evicted.surplus, deleted.exchange.surplus]
      · intro hash
        rw [evicted.storedSize, deleted.storedSize]
      · rw [evicted.last, deleted.last]
      · exact deleted.tenants.trans evicted.tenants

/-- Evicting in two rounds. -/
theorem Victims.append
    {db : Db} {first second : List Entry}
    (valid : Victims db first) (later : Victims (db.evicting first) second) :
    Victims db (first ++ second) := by
  have rows := (evicting_spec valid).rows
  have remaining : ∀ entry ∈ second,
      entry ∈ db.entries.rows ∧ entry ∉ first := by
    intro entry waiting
    have present := later.stored entry waiting
    rw [rows, List.mem_filter] at present
    simpa using present
  refine ⟨?_, ?_⟩
  · intro entry waiting
    rcases List.mem_append.mp waiting with early | late
    · exact valid.stored entry early
    · exact (remaining entry late).1
  · refine List.nodup_append.mpr ⟨valid.distinct, later.distinct, ?_⟩
    rintro entry early other late rfl
    exact (remaining entry late).2 early

theorem Evicted.covered
    {before after : Db} {victims : List Entry}
    (evicted : Evicted before after victims) (covered : before.Covered) :
    after.Covered := by
  intro hash
  rw [evicted.surplus]
  exact covered hash

theorem Evicted.exact
    {before after : Db} {victims : List Entry}
    (evicted : Evicted before after victims) (exact : before.Exact) :
    after.Exact := by
  intro hash
  rw [evicted.surplus]
  exact exact hash

theorem Evicted.references
    {before after : Db} {victims : List Entry} {hash : String}
    (evicted : Evicted before after victims)
    (references : after.References hash) : before.References hash := by
  obtain ⟨entry, present, rfl⟩ := references
  rw [evicted.rows] at present
  exact ⟨entry, (List.mem_filter.mp present).1, rfl⟩

theorem Evicted.hasBlob
    {before after : Db} {victims : List Entry} {hash : String}
    (evicted : Evicted before after victims) :
    after.HasBlob hash ↔ before.HasBlob hash := by
  rw [hasBlob_iff_storedSize, hasBlob_iff_storedSize, evicted.storedSize]

theorem Evicted.totalSize
    {before after : Db} {victims : List Entry}
    (evicted : Evicted before after victims) :
    Blobs.totalSize after = Blobs.totalSize before := by
  rw [Blobs.totalSize, Blobs.totalSize, evicted.blobs, List.map_map]
  rfl

theorem Evicted.projects
    {before after : Db} {victims : List Entry}
    (evicted : Evicted before after victims) :
    after.projects = before.projects := evicted.tenants.projects

end Db

namespace GcSvc

open Db

variable {env : Env} {config : Config}

/-- Count evicted entries in a report. -/
def counted (rep : GcReport) (victims : List Entry) : GcReport :=
  victims.foldl (fun rep entry => rep.evict entry.sizeBytes) rep

theorem counted_append
    (rep : GcReport) (first second : List Entry) :
    counted rep (first ++ second) = counted (counted rep first) second :=
  List.foldl_append

theorem counted_entries (rep : GcReport) (victims : List Entry) :
    (counted rep victims).evictedEntries =
      rep.evictedEntries + victims.length := by
  induction victims generalizing rep with
  | nil => rfl
  | cons entry rest inductionHypothesis =>
      change (counted (rep.evict entry.sizeBytes) rest).evictedEntries = _
      rw [inductionHypothesis, List.length_cons]
      simp only [GcReport.evict]
      omega

theorem counted_freed (rep : GcReport) (victims : List Entry) :
    (counted rep victims).freedBlobs = rep.freedBlobs := by
  induction victims generalizing rep with
  | nil => rfl
  | cons entry rest inductionHypothesis =>
      exact inductionHypothesis (rep.evict entry.sizeBytes)

theorem run_evict
    {world : World} {entry : Entry}
    (present : entry ∈ world.db.entries.rows) :
    (evict false entry.candidate).run (exec env config) world =
      (.done (), { world with db := world.db.without entry }) :=
  run_transact (delete_without present).1

theorem run_ttlLoop
    {world : World} {victims : List Entry} (rep : GcReport)
    (valid : Victims world.db victims) :
    (ttlLoop false (victims.map Entry.candidate) rep).run (exec env config)
        world =
      (.done (counted rep victims),
        { world with db := world.db.evicting victims }) := by
  induction victims generalizing world rep with
  | nil => rfl
  | cons entry rest inductionHypothesis =>
      have present := valid.stored entry List.mem_cons_self
      simp only [List.map_cons, ttlLoop]
      rw [Program.run_bind_done (run_evict present)]
      exact inductionHypothesis _ valid.tail

/-- The entries that the eviction loop takes: the shortest prefix whose sizes
bring the usage within the quota. -/
def lruVictims (quota : Int) : List Entry → Int → List Entry
  | [], _ => []
  | entry :: rest, usage =>
      if usage ≤ quota then []
      else entry :: lruVictims quota rest (usage - entry.sizeBytes)

theorem lruVictims_initial
    (quota : Int) (entries : List Entry) (usage : Int) :
    lruVictims quota entries usage <+: entries := by
  induction entries generalizing usage with
  | nil => exact List.prefix_rfl
  | cons entry rest inductionHypothesis =>
      unfold lruVictims
      split
      · exact List.nil_prefix
      · rw [List.prefix_cons_inj]
        exact inductionHypothesis _

theorem lruVictims_of_le
    {quota usage : Int} (entries : List Entry) (fits : usage ≤ quota) :
    lruVictims quota entries usage = [] := by
  cases entries with
  | nil => rfl
  | cons entry rest => rw [lruVictims, if_pos fits]

theorem lruVictims_eq_take
    (quota : Int) (entries : List Entry) (usage : Int) :
    lruVictims quota entries usage =
      entries.take (lruVictims quota entries usage).length :=
  List.prefix_iff_eq_take.mp (lruVictims_initial quota entries usage)

/-- The sum of the sizes of some entries. -/
def sizes (entries : List Entry) : Int := (entries.map Entry.sizeBytes).sum

@[simp] theorem sizes_nil : sizes [] = 0 := rfl

@[simp] theorem sizes_cons (entry : Entry) (rest : List Entry) :
    sizes (entry :: rest) = entry.sizeBytes + sizes rest := rfl

/-- The loop takes one more entry as long as those before it do not bring the
usage within the quota. -/
theorem lt_lruVictims_length
    {quota : Int} {entries : List Entry} {usage : Int} {count : Nat} :
    count < (lruVictims quota entries usage).length ↔
      count < entries.length ∧
        ∀ fewer ≤ count, quota < usage - sizes (entries.take fewer) := by
  induction entries generalizing usage count with
  | nil => simp [lruVictims]
  | cons entry rest inductionHypothesis =>
      by_cases fits : usage ≤ quota
      · rw [lruVictims, if_pos fits]
        constructor
        · intro impossible
          exact absurd impossible (Nat.not_lt_zero _)
        · rintro ⟨-, exceeding⟩
          have first := exceeding 0 (Nat.zero_le _)
          simp at first
          omega
      · rw [lruVictims, if_neg fits]
        cases count with
        | zero =>
            simp only [List.length_cons, Nat.zero_lt_succ, true_and,
              Nat.le_zero_eq, forall_eq, List.take_zero, sizes_nil, true_iff]
            omega
        | succ count =>
            simp only [List.length_cons, Nat.succ_lt_succ_iff]
            rw [inductionHypothesis]
            constructor
            · rintro ⟨present, exceeding⟩
              refine ⟨present, fun fewer small => ?_⟩
              cases fewer with
              | zero =>
                  rw [List.take_zero, sizes_nil]
                  omega
              | succ fewer =>
                  have later := exceeding fewer (Nat.le_of_succ_le_succ small)
                  rw [List.take_succ_cons, sizes_cons]
                  omega
            · rintro ⟨present, exceeding⟩
              refine ⟨present, fun fewer small => ?_⟩
              have later := exceeding (fewer + 1) (Nat.succ_le_succ small)
              rw [List.take_succ_cons, sizes_cons] at later
              omega

/-- Once the loop has stopped, it has taken every entry or the usage is within
the quota. -/
theorem lruVictims_stopped
    (quota : Int) (entries : List Entry) (usage : Int) :
    lruVictims quota entries usage = entries ∨
      usage - sizes (lruVictims quota entries usage) ≤ quota := by
  induction entries generalizing usage with
  | nil => exact .inl rfl
  | cons entry rest inductionHypothesis =>
      by_cases fits : usage ≤ quota
      · right
        rw [lruVictims, if_pos fits, sizes_nil]
        omega
      · rw [lruVictims, if_neg fits, sizes_cons]
        rcases inductionHypothesis (usage - entry.sizeBytes) with all | stopped
        · exact .inl (by rw [all])
        · right
          omega

theorem run_lruLoop
    {world : World} {entries : List Entry}
    (quota usage : Int) (rep : GcReport)
    (valid : Victims world.db entries) :
    (lruLoop false quota (entries.map Entry.candidate) usage rep).run
        (exec env config) world =
      (.done (counted rep (lruVictims quota entries usage)),
        { world with
          db := world.db.evicting (lruVictims quota entries usage) }) := by
  induction entries generalizing world usage rep with
  | nil => rfl
  | cons entry rest inductionHypothesis =>
      have present := valid.stored entry List.mem_cons_self
      simp only [List.map_cons, lruLoop, lruVictims]
      split
      · rfl
      · rw [Program.run_bind_done (run_evict present)]
        exact inductionHypothesis _ _ valid.tail

end GcSvc

end Marmotte
