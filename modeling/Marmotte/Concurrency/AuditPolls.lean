import Marmotte.Concurrency.AuditTrail
import Marmotte.Paging.Tail

/-!
# Reading the audit log

A client of the admin API that follows the audit log asks again and again for
the rows since the newest time that it has seen, while the server works.  The
answers hold the newest rows first and are cut off at a limit; within a second
the rows come in any order.
-/

namespace Marmotte

open Effects

/-- The rows since a time, newest first, up to a limit; a negative limit is
none. -/
def Stats.auditSince
    (env : Env) (db : Db) (sinceTs limit : Int) : List AuditRow :=
  let rows := (env.scan (db.auditLog.rows.filter fun row =>
    decide (sinceTs ≤ row.timestamp))).insertionSort fun first second =>
      second.timestamp ≤ first.timestamp
  if limit < 0 then rows else rows.take limit.toNat

/-- The limit of the `audit` handler: a hundred rows unless the query asks for
another number, and from one to a thousand. -/
def Admin.auditLimit (limit : Option Int) : Int :=
  max 1 (min (limit.getD 100) 1000)

/-- The answer of the `audit` handler. -/
def Admin.auditEntries
    (env : Env) (db : Db) (since limit : Option Int) : List AuditRow :=
  Stats.auditSince env db (since.getD 0) (auditLimit limit)

namespace AuditPolls

open Paging

/-- The audit log, with the clock of the server. -/
def logOf (world : World) : Log AuditRow :=
  ⟨world.db.auditLog.rows, world.now⟩

section Answers

variable {env : Env} {world : World} {since : Int} {limit : Option Int}

/-- An answer holds the newest rows since the time. -/
theorem newest_auditEntries :
    Newest AuditRow.timestamp (logOf world).rows since
      (Admin.auditLimit limit).toNat
      (Admin.auditEntries env world.db (some since) limit) := by
  have positive : ¬Admin.auditLimit limit < 0 := by
    unfold Admin.auditLimit
    omega
  refine ⟨_, (List.perm_insertionSort _ _).trans (env.scan_perm _), ?_,
    if_neg positive⟩
  have total : Std.Total fun first second : AuditRow =>
      second.timestamp ≤ first.timestamp :=
    ⟨fun first second => Int.le_total _ _⟩
  have transitive : IsTrans AuditRow fun first second =>
      second.timestamp ≤ first.timestamp :=
    ⟨fun _ _ _ left right => Int.le_trans right left⟩
  exact List.pairwise_insertionSort _ _

/-- An answer is not cut off where the log is short. -/
theorem short_of_rows
    {count : Nat} (counted : world.db.auditLog.rows.length = count)
    (few : count < Admin.auditLimit limit) :
    (Admin.auditEntries env world.db (some since) limit).length <
      Admin.auditLimit limit := by
  obtain ⟨order, same, -, page⟩ :=
    @newest_auditEntries env world since limit
  rw [page, List.length_take, same.length_eq]
  have fewer : (logOf world).rows.length = count := counted
  have filtered := List.length_filter_le
    (fun row : AuditRow => decide (since ≤ row.timestamp)) (logOf world).rows
  omega

end Answers

/-! ## Polls -/

section Polls

open AuditTrail (Steps Tasks Ran)

variable {ι : Type} [DecidableEq ι]

/-- A row was added to the log more than the slack after its time. -/
def Late (slack : Nat) (moments : Steps ι) (row : AuditRow) : Prop :=
  ∃ moment ∈ moments,
    moment.event.after.db.auditLog.rows =
      moment.event.before.db.auditLog.rows ++ [row] ∧
    row.timestamp + slack < moment.event.before.now

omit [DecidableEq ι] in
theorem Late.mono
    {slack : Nat} {moments more : Steps ι} {row : AuditRow}
    (late : Late slack moments row) (within : moments ⊆ more) :
    Late slack more row := by
  obtain ⟨moment, among, adds⟩ := late
  exact ⟨moment, within among, adds⟩

/-- A client has polled the log while the tasks ran, the last time just now, and
no answer has been cut off.  It asks from the newest time that it has seen, less
the slack. -/
inductive Polls
    (env : Env) (config : Config) (budget : Nat) (start : World)
    (tasks : ι → AuditTrail.Task) (slack : Nat) (begin : Int) :
    Steps ι → Tasks ι → Reader AuditRow → Prop
  | first
      {moments : Steps ι} {pool : Tasks ι}
      {limit : Option Int} {page : List AuditRow}
      (ran : Ran env config budget start tasks moments pool)
      (answer : Admin.auditEntries env pool.world.db (some begin) limit = page)
      (short : page.length < Admin.auditLimit limit) :
      Polls env config budget start tasks slack begin moments pool
        ((Reader.from begin).read AuditRow.timestamp page)
  | next
      {moments more : Steps ι} {pool later : Tasks ι}
      {reader : Reader AuditRow} {limit : Option Int} {page : List AuditRow}
      (polls : Polls env config budget start tasks slack begin moments pool
        reader)
      (ran : Pool.Run (Program.within fun _ => True) (Faulty env config) pool
        more later)
      (answer : Admin.auditEntries env later.world.db
        (some (reader.since slack begin)) limit = page)
      (short : page.length < Admin.auditLimit limit) :
      Polls env config budget start tasks slack begin (moments ++ more) later
        (reader.read AuditRow.timestamp page)

variable {env : Env} {config : Config} {budget : Nat} {start : World}
variable {tasks : ι → AuditTrail.Task} {slack : Nat} {begin : Int}
variable {moments more : Steps ι} {pool later : Tasks ι}
variable {reader : Reader AuditRow}

theorem Polls.ran
    (polls : Polls env config budget start tasks slack begin moments pool
      reader) : Ran env config budget start tasks moments pool := by
  induction polls with
  | first ran => exact ran
  | next _ ran _ _ inductionHypothesis => exact inductionHypothesis.trans ran

/-- No row of the log is of the future. -/
theorem timely_of_ran
    (timely : ∀ row ∈ start.db.auditLog.rows, row.timestamp ≤ start.now)
    (ran : Ran env config budget start tasks moments pool) :
    (logOf pool.world).Timely AuditRow.timestamp := by
  obtain ⟨rows, appended, notices, -⟩ := AuditTrail.logged_run ran
  intro row stored
  change row ∈ pool.world.db.auditLog.rows at stored
  rw [appended] at stored
  rcases List.mem_append.mp stored with old | new
  · exact (timely row old).trans (ran.grows Faulty.clock).1
  · have said : row.notice ∈ AuditTrail.notices moments := by
      rw [← notices]
      exact List.mem_map_of_mem new
    obtain ⟨⟨thread, deed⟩, among, shown⟩ := List.mem_filterMap.mp said
    cases deed with
    | notice said =>
        cases shown
        exact (AuditTrail.timestamp_between ran among).2
    | change | clock => cases shown

/-- A call adds at most one row to the log. -/
theorem log_step
    {request : Call} {reply : Except CoreError request.Reply}
    {before after : World}
    (answered : Faulty env config request before reply after) :
    after.db.auditLog.rows = before.db.auditLog.rows ∨
      ∃ row, after.db.auditLog.rows = before.db.auditLog.rows ++ [row] := by
  obtain ⟨rows, appended, notices, -⟩ :=
    (AuditTrail.Logged.refl before).step answered
  cases shown : (AuditTrail.observe request reply).bind
      AuditTrail.Deed.notice? with
  | none =>
      rw [shown] at notices
      have none : rows = [] := List.map_eq_nil_iff.mp notices
      rw [none, List.append_nil] at appended
      exact .inl appended
  | some said =>
      rw [shown] at notices
      obtain ⟨row, same, -⟩ := List.map_eq_singleton_iff.mp notices
      rw [same] at appended
      exact .inr ⟨row, appended⟩

/-- The log grows as time goes by, whatever the programs are. -/
theorem grows_of_run
    (ran : Pool.Run (Program.within fun _ => True) (Faulty env config) pool
      more later) :
    (logOf pool.world).Grows AuditRow.timestamp slack
      {row | Late slack more row} (logOf later.world) := by
  refine ⟨(ran.grows Faulty.clock).1, ?_⟩
  induction ran with
  | refl =>
      exact ⟨[], (List.append_nil _).symm,
        fun _ among => absurd among List.not_mem_nil⟩
  | @tail moments middle final thread request reply earlier step
      inductionHypothesis =>
      obtain ⟨waiting, answered⟩ := step
      obtain ⟨fresh, appended, prompt⟩ := inductionHypothesis
      rcases log_step answered with same | ⟨row, adds⟩
      · exact ⟨fresh, same.trans appended, fun row among punctual =>
          prompt row among fun late =>
            punctual (late.mono (List.subset_append_left _ _))⟩
      · refine ⟨fresh ++ [row], ?_, fun other among punctual => ?_⟩
        · rw [← List.append_assoc, ← appended]
          exact adds
        · rcases List.mem_append.mp among with old | new
          · exact prompt other old fun late =>
            punctual (late.mono (List.subset_append_left _ _))
          · rw [List.mem_singleton.mp new] at punctual ⊢
            by_contra behind
            have clock : pool.world.now ≤ middle.world.now :=
              (earlier.grows Faulty.clock).1
            change ¬pool.world.now ≤ row.timestamp + slack at behind
            refine punctual ⟨_, List.mem_append_right _
              (List.mem_singleton_self _), adds, ?_⟩
            change row.timestamp + slack < middle.world.now
            omega

theorem grows_after
    (ran : Pool.Run (Program.within fun _ => True) (Faulty env config) pool
      more later) :
    (logOf pool.world).Grows AuditRow.timestamp slack
      {row | Late slack (moments ++ more) row} (logOf later.world) :=
  (grows_of_run ran).mono fun _ late =>
    late.mono (List.subset_append_right _ _)

/-- A late row is older than the slack. -/
theorem late_past
    (ran : Ran env config budget start tasks moments pool) {row : AuditRow}
    (late : Late slack moments row) :
    row.timestamp + slack < pool.world.now := by
  obtain ⟨moment, made, -, behind⟩ := late
  exact behind.trans_le ((ran.grows Faulty.clock).2 moment made).2

/-- After every poll the client has caught up with the log. -/
theorem caughtUp_of_polls
    (timely : ∀ row ∈ start.db.auditLog.rows, row.timestamp ≤ start.now)
    (polls : Polls env config budget start tasks slack begin moments pool
      reader) :
    reader.CaughtUp AuditRow.timestamp {row | Late slack moments row} begin
      (logOf pool.world) := by
  induction polls with
  | first ran answer short =>
      subst answer
      exact Reader.caughtUp_first (timely_of_ran timely ran)
        newest_auditEntries (by omega)
  | next polls ran answer short inductionHypothesis =>
      subst answer
      exact (inductionHypothesis.read
        (timely_of_ran timely (polls.ran.trans ran)) (grows_after ran)
        (fun _ late => late.mono (List.subset_append_left _ _))
        newest_auditEntries (by omega)).1

/-- A client that polls the audit log from the newest time that it has seen, less
a slack, and whose answers stay below their limits, has after every poll seen
rows since it began, and all of them but those that were added later than the
slack after their time; and the next answer repeats only rows of the slack from
the time from which it asked. -/
theorem polls_complete
    (timely : ∀ row ∈ start.db.auditLog.rows, row.timestamp ≤ start.now)
    (polls : Polls env config budget start tasks slack begin moments pool
      reader) :
    (∀ row ∈ reader.seen,
      row ∈ pool.world.db.auditLog.rows ∧ begin ≤ row.timestamp) ∧
    (∀ row ∈ pool.world.db.auditLog.rows, begin ≤ row.timestamp →
      row ∉ reader.seen → Late slack moments row) ∧
    ∀ more later limit page,
      Pool.Run (Program.within fun _ => True) (Faulty env config) pool more
        later →
      Admin.auditEntries env later.world.db
        (some (reader.since slack begin)) limit = page →
      page.length < Admin.auditLimit limit →
      ∀ row ∈ page, row ∈ reader.seen →
        reader.since slack begin ≤ row.timestamp ∧
          row.timestamp ≤ reader.since slack begin + slack := by
  have caughtUp := caughtUp_of_polls timely polls
  refine ⟨caughtUp.seen, caughtUp.missed, ?_⟩
  rintro more later limit page ran rfl short
  exact (caughtUp.read (timely_of_ran timely (polls.ran.trans ran))
    (@grows_after _ _ _ _ slack moments _ _ _ ran)
    (fun _ late => late.mono (List.subset_append_left _ _))
    newest_auditEntries (by omega)).2

/-- The rows of the example. -/
abbrev opposed : List (String × Int) :=
  [("project.delete", 1002), ("project.create", 1000)]

/-- A client sees a row although a row of a later time was there before it. -/
theorem polls_complete_opposing :
    ∃ (moments : Steps (Fin 3)) (pool : Tasks (Fin 3))
      (reader : Reader AuditRow),
      Polls AdminControl.plain (Sample.config 1024) 10 AdminControl.staffed
        AuditTrail.opposing 5 0 moments pool reader ∧
      (pool.world.db.auditLog.rows.map fun row =>
        (row.action, row.timestamp)) = opposed ∧
      ∀ row ∈ pool.world.db.auditLog.rows, row ∈ reader.seen := by
  have ran : ((Pool.replay (Program.within fun _ => True)
      (exec AdminControl.plain (Sample.config 1024)) (fun _ _ _ => true)
      [0, 0, 0, 1, 1, 1, 0, 0, 2, 1, 1, 1]
      (AuditTrail.launch AdminControl.plain (Sample.config 1024) 10
        AdminControl.staffed AuditTrail.opposing)).any fun pool =>
          decide (pool.world.db.auditLog.rows.length = 1) &&
          (Pool.replay (Program.within fun _ => True)
            (exec AdminControl.plain (Sample.config 1024)) (fun _ _ _ => true)
            [0] pool).any fun later =>
              decide ((later.world.db.auditLog.rows.map fun row =>
                (row.action, row.timestamp)) = opposed) &&
              decide (later.world.now = 1002)) = true := by
    decide +kernel
  simp only [Option.any_eq_true, Bool.and_eq_true, decide_eq_true_eq] at ran
  obtain ⟨pool, firstPart, one, later, secondPart, rows, clock⟩ := ran
  have reached : Pool.Reaches (Program.within fun _ => True)
      (Faulty AdminControl.plain (Sample.config 1024)) (fun _ _ _ => True)
      _ pool :=
    Pool.reaches_of_free_replay (fun _ _ _ _ => .exact) firstPart
  have wentOn : Pool.Reaches (Program.within fun _ => True)
      (Faulty AdminControl.plain (Sample.config 1024)) (fun _ _ _ => True)
      pool later :=
    Pool.reaches_of_free_replay (fun _ _ _ _ => .exact) secondPart
  obtain ⟨moments, ran⟩ := reached.run
  obtain ⟨more, goesOn⟩ := wentOn.run
  have two : later.world.db.auditLog.rows.length = 2 := by
    rw [← List.length_map (f := fun row => (row.action, row.timestamp)), rows]
    rfl
  have polls : Polls AdminControl.plain (Sample.config 1024) 10
      AdminControl.staffed AuditTrail.opposing 5 0 (moments ++ more) later _ :=
    (Polls.first ran rfl (short_of_rows one (by decide +kernel :
      ((1 : Nat) : Int) < Admin.auditLimit none))).next goesOn rfl
        (short_of_rows two (by decide +kernel :
          ((2 : Nat) : Int) < Admin.auditLimit none))
  have timely : ∀ row ∈ AdminControl.staffed.db.auditLog.rows,
      row.timestamp ≤ AdminControl.staffed.now := by decide +kernel
  refine ⟨_, later, _, polls, rows, fun row stored => ?_⟩
  have recent : 1000 ≤ row.timestamp := by
    have listed : (row.action, row.timestamp) ∈ opposed := by
      rw [← rows]
      exact List.mem_map_of_mem stored
    simp only [opposed, List.mem_cons, Prod.mk.injEq, List.not_mem_nil,
      or_false] at listed
    omega
  by_contra unseen
  have late := (polls_complete timely polls).2.1 row stored (by omega) unseen
  have past := late_past polls.ran late
  rw [clock] at past
  omega

end Polls

end AuditPolls

end Marmotte
