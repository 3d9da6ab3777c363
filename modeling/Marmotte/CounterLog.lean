import Marmotte.UsageCounters

/-!
# The counter table and the log of bumps

The table of counters against a plain log of what was bumped and which projects
were deleted.  The table merges the bumps of one project, kind and day in one
row and keeps each bump without a project in a row of its own; the sums that it
reports are those of the log.
-/

namespace Marmotte

namespace CounterLog

open Tables

/-! ## The log -/

/-- A bump of a counter on a day. -/
structure Bump where
  day : Int
  projectId : Option Int
  kind : String
  count : Int
  bytes : Int
  deriving DecidableEq, Repr

/-- What the log records. -/
inductive LogEntry
  | bumped (bump : Bump)
  | deleted (projectId : Int)
  deriving DecidableEq, Repr

namespace LogEntry

/-- The bump that the record adds. -/
def bumps : LogEntry → List Bump
  | bumped bump => [bump]
  | deleted _ => []

/-- The record takes an earlier bump away. -/
def discards (entry : LogEntry) (bump : Bump) : Bool :=
  match entry with
  | bumped _ => false
  | deleted projectId => bump.projectId = some projectId

end LogEntry

/-- The bumps whose project was not deleted after them, oldest first. -/
def surviving : List LogEntry → List Bump
  | [] => []
  | entry :: later =>
      (entry.bumps.filter fun bump => !later.any (·.discards bump)) ++
        surviving later

/-- A record at the end takes earlier bumps away and adds its own. -/
theorem surviving_append (log : List LogEntry) (last : LogEntry) :
    surviving (log ++ [last]) =
      (surviving log).filter (fun bump => !last.discards bump) ++
        last.bumps := by
  induction log with
  | nil => simp [surviving]
  | cons entry later inductionHypothesis =>
      rw [List.cons_append, surviving, inductionHypothesis, surviving,
        List.filter_append, List.filter_filter, List.append_assoc]
      congr 1
      refine List.filter_congr fun bump _ => ?_
      rw [List.any_append, Bool.not_or, Bool.and_comm]
      simp

example :
    surviving
      [.bumped ⟨3, some 1, "put", 1, 5⟩, .deleted 1,
        .bumped ⟨2, none, "put", 1, 7⟩] =
      [⟨2, none, "put", 1, 7⟩] := by
  decide

/-- The counts of some bumps. -/
def totals (bumps : List Bump) : Int × Int :=
  ((bumps.map Bump.count).sum, (bumps.map Bump.bytes).sum)

theorem totals_append (first second : List Bump) :
    totals (first ++ second) = totals first + totals second := by
  simp [totals]

theorem totals_filter_singleton (selects : Bump → Bool) (bump : Bump) :
    totals ([bump].filter selects) =
      if selects bump then (bump.count, bump.bytes) else 0 := by
  cases chosen : selects bump with
  | true => simp [chosen, totals]
  | false => simp [chosen, totals]

/-- The bump counts towards what is asked: it is of the kind, not before the
day, and of the project, if one is given. -/
def Asked
    (projectId : Option Int) (kind : String) (sinceDay : Int)
    (bump : Bump) : Prop :=
  bump.kind = kind ∧ sinceDay ≤ bump.day ∧
    ∀ id, projectId = some id → bump.projectId = some id

/-- The two roles of the parameter in the query. -/
theorem asked_iff
    {projectId : Option Int} {kind : String} {sinceDay : Int} {bump : Bump} :
    Asked projectId kind sinceDay bump ↔
      bump.kind = kind ∧ sinceDay ≤ bump.day ∧
        (projectId = none ∨ bump.projectId = projectId) := by
  unfold Asked
  cases projectId with
  | none => simp
  | some id => simp

instance
    (projectId : Option Int) (kind : String) (sinceDay : Int) (bump : Bump) :
    Decidable (Asked projectId kind sinceDay bump) :=
  decidable_of_iff _ asked_iff.symm

/-! ## The table beside the log -/

/-- The database, and the log of what was committed. -/
structure Audited where
  db : Db
  log : List LogEntry

/-- What a committed call adds to the log. -/
def records (now : Int) : DbCall → List LogEntry
  | .statsBump projectId kind count bytes =>
      [.bumped ⟨now.tdiv 86400, projectId, kind, count, bytes⟩]
  | .projectsDelete id => [.deleted id]
  | _ => []

/-- A transaction at a clock value; one that fails changes nothing. -/
def step (env : Env) (state : Audited) (request : Int × DbCall) : Audited :=
  match request.2.exec env request.1 state.db with
  | .ok (_, db) => ⟨db, state.log ++ records request.1 request.2⟩
  | .error _ => state

/-- The transactions one after the other, from an empty database. -/
def run (env : Env) (requests : List (Int × DbCall)) : Audited :=
  requests.foldl (step env) ⟨.empty, []⟩

/-! ## The sums -/

/-- A selection by project, kind and day. -/
abbrev Selection := Option Int → String → Int → Bool

def Selection.row (selects : Selection) (counter : StatsCounter) : Bool :=
  selects counter.projectId counter.kind counter.bucketDay

def Selection.bump (selects : Selection) (bump : Bump) : Bool :=
  selects bump.projectId bump.kind bump.day

/-- Whatever is selected, the table and the log have the same sums. -/
def Mirrors (state : Audited) : Prop :=
  ∀ selects : Selection,
    Stats.totals (state.db.statsCounters.rows.filter selects.row) =
      totals ((surviving state.log).filter selects.bump)

theorem Selection.row_keyed (selects : Selection) :
    Stats.Keyed selects.row := by
  intro first second project kind day
  rw [row, row, project, kind, day]

/-- A deleted project takes its counters along. -/
theorem deleted_rows
    {db after : Db} {id : Int} {reply : Unit}
    (ran : Projects.delete db id = .ok (reply, after)) :
    after.statsCounters.rows =
      db.statsCounters.rows.filter fun counter =>
        !decide (counter.projectId = some id) := by
  unfold Projects.delete at ran
  split at ran
  rename_i deleted
  split at ran
  · cases ran
  · cases ran
    unfold Db.deleteProject at deleted
    cases deleted
    rfl

/-- Each committed transaction keeps the table and the log together. -/
theorem mirrors_step
    {env : Env} {state : Audited} (mirrors : Mirrors state)
    (request : Int × DbCall) : Mirrors (step env state request) := by
  obtain ⟨now, call⟩ := request
  unfold step
  cases ran : call.exec env now state.db with
  | error error => exact mirrors
  | ok result =>
      obtain ⟨reply, after⟩ := result
      intro selects
      cases call with
      | statsBump projectId kind count bytes =>
          simp only [records]
          rw [Stats.totals_bump selects.row_keyed ran, mirrors selects,
            surviving_append, List.filter_append, totals_append,
            LogEntry.bumps, totals_filter_singleton]
          have undisturbed : (surviving state.log).filter
              (fun earlier => !LogEntry.discards (.bumped
                ⟨now.tdiv 86400, projectId, kind, count, bytes⟩) earlier) =
              surviving state.log :=
            List.filter_true _
          rw [undisturbed]
          rfl
      | projectsDelete id =>
          -- The rows that stay are a selection of their own.
          have staying := mirrors fun projectId kind day =>
            selects projectId kind day && !decide (projectId = some id)
          simp only [records]
          rw [deleted_rows ran, List.filter_filter, surviving_append,
            LogEntry.bumps, List.append_nil, List.filter_filter]
          exact staying
      | _ =>
          have kept := (DbCall.exec_frame ran).statsCounters
            (by simp [DbCall.writes])
          have unrecorded :
              surviving (state.log ++ []) = surviving state.log := by
            rw [List.append_nil]
          rw [kept]
          exact (mirrors selects).trans (congrArg
            (fun bumps => totals (bumps.filter selects.bump))
            unrecorded.symm)

/-- What the table and the log have in common after a run. -/
theorem mirrors_run (env : Env) (requests : List (Int × DbCall)) :
    Mirrors (run env requests) := by
  have kept : ∀ (remaining : List (Int × DbCall)) (state : Audited),
      Mirrors state → Mirrors (remaining.foldl (step env) state) := by
    intro remaining
    induction remaining with
    | nil => exact fun _ mirrors => mirrors
    | cons request rest inductionHypothesis =>
        exact fun state mirrors =>
          inductionHypothesis _ (mirrors_step mirrors request)
  exact kept requests _ fun _ => rfl

/-- After any sequence of bumps and deletions of projects, at any clock values
and among any other transactions, the table has the sums of the log. -/
theorem sum_eq_log
    (env : Env) (requests : List (Int × DbCall))
    (projectId : Option Int) (kind : String) (sinceDay : Int) :
    Stats.sum (run env requests).db projectId kind sinceDay =
      totals ((surviving (run env requests).log).filter fun bump =>
        decide (Asked projectId kind sinceDay bump)) := by
  have mirrored := mirrors_run env requests
    fun owner bumpKind day => decide
      (bumpKind = kind ∧ sinceDay ≤ day ∧
        (projectId = none ∨ owner = projectId))
  rw [Stats.sum_eq_totals]
  refine mirrored.trans (congrArg totals (List.filter_congr ?_))
  intro bump _
  exact decide_eq_decide.mpr asked_iff.symm

end CounterLog

end Marmotte
