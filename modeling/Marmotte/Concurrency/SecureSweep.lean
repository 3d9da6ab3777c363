import Marmotte.CallEffects
import Marmotte.Effects.Rely
import Marmotte.Sequential.Sweep

/-!
# A sweep among deletions

A sweep evicts from lists that it read before.  It returns, whatever else is
deleted in between, as long as the entries that it is about to evict are still
there when it gets to them.
-/

namespace Marmotte

open Effects Tables

namespace GcSvc

open Db

/-- The reply that a sweep expects of an eviction. -/
def evictions : Program.Expects Call Call.Reply
  | .db (.entriesDelete _ _) => some ()
  | _ => none

/-- The call that evicts an entry. -/
def eviction (projectId id : Int) : Call := .db (.entriesDelete projectId id)

/-! ## What others may do -/

/-- Entries went, but none that is about to be evicted, and no blob. -/
structure Thins (ahead : List Call) (before after : World) : Prop where
  mutex : after.gcRunning = before.gcRunning
  entries : ∀ entry ∈ after.db.entries.rows, entry ∈ before.db.entries.rows
  kept : ∀ entry ∈ before.db.entries.rows,
    eviction entry.projectId entry.id ∈ ahead → entry ∈ after.db.entries.rows
  covered : before.db.Covered → after.db.Covered
  hasBlob : ∀ hash, after.db.HasBlob hash ↔ before.db.HasBlob hash
  rows : after.db.blobs.rows.length = before.db.blobs.rows.length

theorem thins_antitone : Program.Moves.Antitone Thins := by
  intro fewer more before after start thins
  exact { thins with
    kept := fun entry present first =>
      thins.kept entry present (start.subset first) }

theorem Thins.refl (ahead : List Call) (world : World) :
    Thins ahead world world where
  mutex := rfl
  entries _ := id
  kept _ present _ := present
  covered := id
  hasBlob _ := Iff.rfl
  rows := rfl

theorem Thins.unreferenced
    {ahead : List Call} {before after : World} {hash : String}
    (thins : Thins ahead before after) (dead : ¬before.db.References hash) :
    ¬after.db.References hash := by
  rintro ⟨entry, present, points⟩
  exact dead ⟨entry, thins.entries entry present, points⟩

/-- The sweep holds the mutex, counts cover references, and there are fewer
blobs than a bound. -/
structure Inside (bound : Nat) (world : World) : Prop where
  locked : world.gcRunning = true
  covered : world.db.Covered
  bounded : world.db.blobs.rows.length < bound

theorem Inside.thins
    {bound : Nat} {ahead : List Call} {before after : World}
    (inside : Inside bound before) (thins : Thins ahead before after) :
    Inside bound after where
  locked := thins.mutex.trans inside.locked
  covered := thins.covered inside.covered
  bounded := by
    rw [thins.rows]
    exact inside.bounded

/-- The entries that are about to be evicted are there. -/
structure Present (ahead : List Call) (world : World) : Prop where
  distinct : ahead.Nodup
  there : ∀ call ∈ ahead, ∃ entry ∈ world.db.entries.rows,
    call = eviction entry.projectId entry.id

theorem Present.thins
    {ahead : List Call} {before after : World}
    (present : Present ahead before) (thins : Thins ahead before after) :
    Present ahead after where
  distinct := present.distinct
  there call first := by
    obtain ⟨entry, stored, rfl⟩ := present.there call first
    exact ⟨entry, thins.kept entry stored first, rfl⟩

theorem Present.sublist
    {fewer more : List Call} {world : World}
    (present : Present more world) (sublist : fewer.Sublist more) :
    Present fewer world where
  distinct := present.distinct.sublist sublist
  there call first := present.there call (sublist.subset first)

theorem present_nil (world : World) : Present [] world where
  distinct := List.nodup_nil
  there _ first := absurd first List.not_mem_nil

/-- Candidates that were just read are there. -/
theorem present_candidates
    {world : World} {entries : List Entry}
    (valid : Victims world.db entries) :
    Present ((entries.map Entry.candidate).map fun candidate =>
      eviction candidate.projectId candidate.id) world where
  distinct := by
    rw [List.map_map]
    refine (List.nodup_map_iff_inj_on valid.distinct).mpr ?_
    intro first firstIn second secondIn same
    simp only [Function.comp_apply, eviction, Entry.candidate, Call.db.injEq,
      DbCall.entriesDelete.injEq] at same
    exact world.db.entries.eq_of_id (valid.stored _ firstIn)
      (valid.stored _ secondIn) same.2
  there call first := by
    simp only [List.map_map, List.mem_map] at first
    obtain ⟨entry, among, rfl⟩ := first
    exact ⟨entry, valid.stored entry among, rfl⟩

/-- An eviction leaves what is to be evicted next. -/
theorem Present.evicted
    {rest : List Call} {world : World} {db : Db} {entry : Entry}
    (present : Present (eviction entry.projectId entry.id :: rest) world)
    (deleted : Entries.Deleted world.db db entry) :
    Present rest { world with db := db } := by
  have distinct := List.nodup_cons.mp present.distinct
  refine ⟨distinct.2, fun call later => ?_⟩
  obtain ⟨other, stored, rfl⟩ :=
    present.there call (List.mem_cons_of_mem _ later)
  refine ⟨other, ?_, rfl⟩
  simp only [deleted.rows, List.mem_filter, Bool.not_eq_true',
    decide_eq_false_iff_not]
  refine ⟨stored, fun sameId => distinct.1 ?_⟩
  rw [← world.db.entries.eq_of_id stored deleted.present sameId]
  exact later

/-! ## Evictions -/

section Sweeps

variable {env : Env} {config : Config} {bound : Nat} {world : World}

/-- The sweep goes on to return, whatever is deleted behind its back. -/
abbrev Safe
    (env : Env) (config : Config) (post : α → World → Prop)
    (program : App α) (world : World) : Prop :=
  program.Secure (exec env config) evictions Thins post world

theorem ahead_evict
    (candidate : Candidate) (next : Unit → App α) :
    (evict false candidate >>= next).ahead evictions =
      eviction candidate.projectId candidate.id ::
        (next ()).ahead evictions :=
  Program.ahead_call rfl _

/-- An eviction succeeds, and leaves what is to be evicted next. -/
theorem safe_evict
    {candidate : Candidate} {next : Unit → App α} {post : α → World → Prop}
    (inside : Inside bound world)
    (present : Present ((evict false candidate >>= next).ahead evictions)
      world)
    (rest : ∀ after, Inside bound after →
      Present ((next ()).ahead evictions) after →
        Safe env config post (next ()) after) :
    Safe env config post (evict false candidate >>= next) world := by
  refine @Program.secure_perform_bind _ _ _ _ _ _ _ _ _ _ _ _
    (fun world => Inside bound world ∧
      Present ((evict false candidate >>= next).ahead evictions) world)
    (fun before after thins held => ⟨held.1.thins thins, held.2.thins thins⟩)
    ⟨inside, present⟩ ?_
  rintro between ⟨inside, present⟩
  rw [ahead_evict] at present
  obtain ⟨entry, stored, same⟩ := present.there _ List.mem_cons_self
  simp only [eviction, Call.db.injEq, DbCall.entriesDelete.injEq] at same
  obtain ⟨db, ran, deleted⟩ := Entries.delete_ok stored
  rw [← same.1, ← same.2] at ran
  refine ⟨(), { between with db := db }, ?_, rest _ ?_ ?_⟩
  · simp only [exec, DbCall.exec, ran]
  · constructor
    case locked => exact inside.locked
    case covered =>
      intro hash
      rw [deleted.exchange.surplus hash]
      exact inside.covered hash
    case bounded =>
      simp only [deleted.blobs, List.length_map]
      exact inside.bounded
  · rw [same.1, same.2] at present
    exact present.evicted deleted

theorem ahead_ttlLoop (candidates : List Candidate) (rep : GcReport) :
    (ttlLoop false candidates rep).ahead evictions =
      candidates.map fun candidate =>
        eviction candidate.projectId candidate.id := by
  induction candidates generalizing rep with
  | nil => rfl
  | cons candidate rest inductionHypothesis =>
      unfold ttlLoop
      rw [ahead_evict, inductionHypothesis]
      rfl

theorem safe_ttlLoop
    (candidates : List Candidate) (rep : GcReport)
    (inside : Inside bound world)
    (present : Present ((ttlLoop false candidates rep).ahead evictions)
      world) :
    Safe env config (fun _ => Inside bound) (ttlLoop false candidates rep)
      world := by
  induction candidates generalizing rep world with
  | nil => exact inside
  | cons candidate rest inductionHypothesis =>
      exact safe_evict inside present fun after inside present =>
        inductionHypothesis _ inside present

theorem ahead_lruLoop
    (quota : Int) (candidates : List Candidate) (usage : Int)
    (rep : GcReport) :
    ((lruLoop false quota candidates usage rep).ahead evictions).Sublist
      (candidates.map fun candidate =>
        eviction candidate.projectId candidate.id) := by
  induction candidates generalizing usage rep with
  | nil => exact .slnil
  | cons candidate rest inductionHypothesis =>
      unfold lruLoop
      split
      · exact List.nil_sublist _
      · rw [ahead_evict]
        exact (inductionHypothesis _ _).cons_cons _

theorem safe_lruLoop
    (quota : Int) (candidates : List Candidate) (usage : Int)
    (rep : GcReport) (inside : Inside bound world)
    (present : Present
      ((lruLoop false quota candidates usage rep).ahead evictions) world) :
    Safe env config (fun _ => Inside bound)
      (lruLoop false quota candidates usage rep) world := by
  induction candidates generalizing usage rep world with
  | nil => exact inside
  | cons candidate rest inductionHypothesis =>
      unfold lruLoop at present ⊢
      split
      · exact inside
      · rename_i exceeds
        rw [if_neg exceeds] at present
        exact safe_evict inside present fun after inside present =>
          inductionHypothesis _ _ inside present

/-! ## Phases -/

/-- A query succeeds. -/
theorem safe_query
    {call : DbCall} {next : call.Reply → App α} {post : α → World → Prop}
    (inside : Inside bound world)
    (succeeds : ∀ between, Inside bound between →
      ∃ reply, exec env config (.db call) between =
          some (.ok reply, between) ∧
        Safe env config post (next reply) between) :
    Safe env config post (transact call >>= next) world := by
  refine @Program.secure_perform_bind _ _ _ _ _ _ _ _ _ _ _ _ (Inside bound)
    (fun before after thins held => held.thins thins) inside ?_
  intro between inside
  obtain ⟨reply, answered, rest⟩ := succeeds between inside
  exact ⟨reply, between, answered, rest⟩

theorem safe_ttlKind
    (now : Int) (kind : Kind) (rep : GcReport)
    (inside : Inside bound world) :
    Safe env config (fun _ => Inside bound)
      (ttlKind config.gc false now kind rep) world := by
  refine safe_query inside fun between inside => ⟨_, rfl, ?_⟩
  refine safe_ttlLoop _ _ inside ?_
  rw [ahead_ttlLoop]
  exact present_candidates (ttlVictims_valid env config.gc now kind between.db)

theorem safe_ttlPhase (rep : GcReport) (inside : Inside bound world) :
    Safe env config (fun _ => Inside bound) (ttlPhase config.gc false rep)
      world := by
  refine @Program.secure_perform_bind _ _ _ _ _ _ _ _ _ _ _ _ (Inside bound)
    (fun before after thins held => held.thins thins) inside ?_
  intro between inside
  refine ⟨between.now, between, rfl, ?_⟩
  exact (safe_ttlKind _ _ _ inside).bind thins_antitone
    fun rep after inside => safe_ttlKind _ _ _ inside

theorem safe_quotaProject
    (project : Project) (rep : GcReport) (inside : Inside bound world) :
    Safe env config (fun _ => Inside bound) (quotaProject false project rep)
      world := by
  unfold quotaProject
  split
  · exact inside
  · rename_i quota limited
    refine safe_query inside fun between inside => ⟨_, rfl, ?_⟩
    split
    · exact inside
    · refine safe_query inside fun between inside => ⟨_, rfl, ?_⟩
      refine safe_lruLoop _ _ _ _ inside ?_
      exact (present_candidates (projectLru_valid between.db project.id)).sublist
        (ahead_lruLoop _ _ _ _)

theorem safe_quotaLoop
    (projects : List Project) (rep : GcReport)
    (inside : Inside bound world) :
    Safe env config (fun _ => Inside bound) (quotaLoop false projects rep)
      world := by
  induction projects generalizing rep world with
  | nil => exact inside
  | cons project rest inductionHypothesis =>
      exact (safe_quotaProject project rep inside).bind thins_antitone
        fun rep after inside => inductionHypothesis rep inside

theorem safe_quotaPhase (rep : GcReport) (inside : Inside bound world) :
    Safe env config (fun _ => Inside bound) (quotaPhase false rep) world :=
  safe_query inside fun _ inside => ⟨_, rfl, safe_quotaLoop _ rep inside⟩

theorem safe_globalPhase (rep : GcReport) (inside : Inside bound world) :
    Safe env config (fun _ => Inside bound)
      (globalPhase config.gc false rep) world := by
  refine safe_query inside fun between inside => ⟨_, rfl, ?_⟩
  simp only
  split
  · exact inside
  · refine safe_query inside fun between inside => ⟨_, rfl, ?_⟩
    refine safe_lruLoop _ _ _ _ inside ?_
    exact (present_candidates (globalLru_valid between.db)).sublist
      (ahead_lruLoop _ _ _ _)

/-! ## Cleanup -/

/-- Whatever the removal of the file returns, the row is deleted next. -/
theorem freeBlob_eq (hash : String) :
    freeBlob false hash = .call (.fs (.removeFile (blobPath hash)))
      fun _ => transact (.blobsDelete hash) := by
  unfold freeBlob LocalFsStore.deleteBlob
  simp only [Bool.false_eq_true, if_false]
  refine congrArg (Program.call _) (funext fun reply => ?_)
  cases reply with
  | ok value => rfl
  | error error =>
      cases error with
      | io cause => cases cause <;> rfl
      | _ => rfl

/-- None of these hashes is referenced. -/
def Dead (hashes : List String) (world : World) : Prop :=
  ∀ hash ∈ hashes, ¬world.db.References hash

theorem Dead.thins
    {hashes : List String} {ahead : List Call} {before after : World}
    (dead : Dead hashes before) (thins : Thins ahead before after) :
    Dead hashes after :=
  fun hash among => thins.unreferenced (dead hash among)

/-- There are fewer rows than a bound, or as many and one of this hash. -/
def Shrinking (bound : Nat) (hash : String) (world : World) : Prop :=
  world.db.blobs.rows.length < bound ∨
    (world.db.HasBlob hash ∧ world.db.blobs.rows.length < bound + 1)

theorem Shrinking.thins
    {hash : String} {ahead : List Call} {before after : World}
    (shrinking : Shrinking bound hash before)
    (thins : Thins ahead before after) : Shrinking bound hash after := by
  unfold Shrinking
  rw [thins.rows, thins.hasBlob]
  exact shrinking

/-- What the cleanup of a hash needs. -/
structure Freeing
    (bound : Nat) (hash : String) (rest : List String) (world : World) :
    Prop where
  locked : world.gcRunning = true
  covered : world.db.Covered
  dead : Dead (hash :: rest) world
  shrinking : Shrinking bound hash world

theorem Freeing.thins
    {hash : String} {rest : List String} {ahead : List Call}
    {before after : World} (freeing : Freeing bound hash rest before)
    (thins : Thins ahead before after) : Freeing bound hash rest after where
  locked := thins.mutex.trans freeing.locked
  covered := thins.covered freeing.covered
  dead := freeing.dead.thins thins
  shrinking := freeing.shrinking.thins thins

/-- Deleting a row leaves fewer. -/
theorem length_delete_lt
    {db : Db} {hash : String}
    (shrinking : db.blobs.rows.length < bound ∨
      (db.HasBlob hash ∧ db.blobs.rows.length < bound + 1)) :
    (db.blobs.delete fun blob => decide (blob.hash = hash)).rows.length <
      bound := by
  rw [Table.delete_rows]
  rcases shrinking with fewer | ⟨⟨blob, stored, same⟩, fewer⟩
  · exact Nat.lt_of_le_of_lt (List.length_filter_le _ _) fewer
  · have less : (db.blobs.rows.filter fun blob =>
        !decide (blob.hash = hash)).length < db.blobs.rows.length := by
      rw [List.length_filter_lt_length_iff_exists]
      exact ⟨blob, stored, by simp [same]⟩
    exact Nat.lt_of_lt_of_le less (Nat.lt_succ_iff.mp fewer)

theorem safe_freeBlob
    {hash : String} {rest : List String}
    (freeing : Freeing bound hash rest world) :
    Safe env config (fun _ world => Inside bound world ∧ Dead rest world)
      (freeBlob false hash) world := by
  rw [freeBlob_eq]
  intro between moved
  have freeing : Freeing bound hash rest between := by
    induction moved with
    | refl => exact freeing
    | tail _ thins inductionHypothesis => exact inductionHypothesis.thins thins
  refine ⟨_, _, rfl, ?_⟩
  intro later moved
  have freeing : Freeing bound hash rest later := by
    induction moved with
    | refl =>
        exact ⟨freeing.locked, freeing.covered, freeing.dead,
          freeing.shrinking⟩
    | tail _ thins inductionHypothesis => exact inductionHypothesis.thins thins
  have unreferenced := freeing.dead hash List.mem_cons_self
  obtain ⟨db, deleted, entries, blobs, -⟩ := deleteBlob_ok unreferenced
  have ran : DbCall.exec env later.now (.blobsDelete hash) later.db =
      .ok ((), db) := by
    simp only [DbCall.exec, Blobs.delete, bind, Except.bind, deleted]
    rfl
  refine ⟨.ok (), { later with db := db }, by simp only [exec, ran], ?_, ?_⟩
  · constructor
    case locked => exact freeing.locked
    case covered =>
      intro other
      rcases DbCall.exec_surplus ran other with same | zero | ⟨_, same, -⟩
      · rw [same]
        exact freeing.covered other
      · exact zero.ge
      · cases same
    case bounded =>
      simp only [blobs]
      exact length_delete_lt freeing.shrinking
  · intro other among references
    refine freeing.dead other (List.mem_cons_of_mem _ among) ?_
    simpa only [References, entries] using references

theorem safe_cleanupBatch
    (batch : List String) (rep : GcReport) (inside : Inside bound world)
    (dead : Dead batch world) :
    Safe env config (fun _ => Inside bound) (cleanupBatch false batch rep)
      world := by
  induction batch generalizing rep world with
  | nil => exact inside
  | cons hash rest inductionHypothesis =>
      refine (safe_freeBlob ⟨inside.locked, inside.covered, dead,
        .inl inside.bounded⟩).bind thins_antitone ?_
      rintro _ after ⟨inside, dead⟩
      exact inductionHypothesis _ inside dead

/-- A cleanup returns when its budget exceeds the number of blobs. -/
theorem safe_cleanupBlobs
    (budget : Nat) (rep : GcReport) (inside : Inside budget world) :
    Safe env config (fun _ after => ∃ bound, Inside bound after)
      (cleanupBlobs false budget rep) world := by
  induction budget generalizing rep world with
  | zero => exact absurd inside.bounded (Nat.not_lt_zero _)
  | succ budget inductionHypothesis =>
      refine safe_query inside fun between inside => ⟨_, rfl, ?_⟩
      have listed (hash : String)
          (among : hash ∈ Blobs.zeroRefcount env.scan between.db 1000) :
          between.db.HasBlob hash ∧ ¬between.db.References hash := by
        have row := Blobs.mem_zeroRefcount
          (fun _ _ => (Env.mem_scan env _ _).mp) among
        exact ⟨row.1, inside.covered.unreferenced row.2.le⟩
      cases batch : Blobs.zeroRefcount env.scan between.db 1000 with
      | nil => exact ⟨_, inside⟩
      | cons hash rest =>
          rw [batch] at listed
          simp only [List.isEmpty_cons, Bool.false_eq_true, if_false]
          have stored := (listed hash List.mem_cons_self).1
          have freeing : Freeing budget hash rest between :=
            ⟨inside.locked, inside.covered,
              fun other among => (listed other among).2,
              .inr ⟨stored, inside.bounded⟩⟩
          have first : Safe env config (fun _ => Inside budget)
              (cleanupBatch false (hash :: rest) rep) between := by
            refine (safe_freeBlob freeing).bind thins_antitone ?_
            rintro _ after ⟨inside, dead⟩
            exact safe_cleanupBatch _ _ inside dead
          exact first.bind thins_antitone fun rep after inside =>
            inductionHypothesis rep inside

/-! ## The whole sweep -/

theorem safe_sweep
    (budget : Nat) (inside : Inside budget world) :
    Safe env config (fun _ after => after.gcRunning = true)
      (sweep config.gc budget false) world := by
  refine (safe_ttlPhase _ inside).bind thins_antitone
    fun rep after inside => ?_
  refine (safe_quotaPhase rep inside).bind thins_antitone
    fun rep after inside => ?_
  refine (safe_globalPhase rep inside).bind thins_antitone
    fun rep after inside => ?_
  refine (safe_cleanupBlobs budget rep inside).bind thins_antitone
    fun rep after inside => ?_
  obtain ⟨bound, inside⟩ := inside
  exact safe_query inside fun between inside => ⟨_, rfl, inside.locked⟩

/-- A sweep that starts while none is running returns. -/
theorem safe_run
    {budget : Nat} (unlocked : world.gcRunning = false)
    (covered : world.db.Covered)
    (enough : world.db.blobs.rows.length < budget) :
    Safe env config (fun _ _ => True) (run config.gc budget false) world := by
  refine @Program.secure_perform_bind _ _ _ _ _ _ _ _ _ _ _ _
    (fun world => world.gcRunning = false ∧ world.db.Covered ∧
      world.db.blobs.rows.length < budget) ?_ ⟨unlocked, covered, enough⟩ ?_
  · rintro before after thins ⟨unlocked, covered, enough⟩
    refine ⟨thins.mutex.trans unlocked, thins.covered covered, ?_⟩
    rw [thins.rows]
    exact enough
  · rintro between ⟨unlocked, covered, enough⟩
    refine ⟨(), { between with gcRunning := true }, ?_, ?_⟩
    · simp [exec, unlocked]
    · have inside : Inside budget { between with gcRunning := true } :=
        ⟨rfl, covered, enough⟩
      have swept : Safe env config (fun _ after => after.gcRunning = true)
          (sweep config.gc budget false)
          { between with gcRunning := true } := safe_sweep budget inside
      refine swept.ensuring thins_antitone fun rep after _ => ?_
      intro later moved
      exact ⟨.ok (), _, rfl, trivial⟩

end Sweeps

end GcSvc

end Marmotte
