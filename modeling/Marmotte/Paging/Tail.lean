import Mathlib.Data.List.Sort

/-!
# Tailing a log

A log only grows, and its rows bear times of a clock.  A row may be written
later than its time says, so the times need not come in order.  A reader asks
again and again for the rows since the newest time that it has seen, less some
slack.  An answer holds the newest rows, as many as its limit allows, and rows
of one time come in any order.  A reader none of whose answers is cut off misses
only rows that were written later than the slack allows, and what it is shown
twice is of the slack before the newest time that it has seen.
-/

namespace Paging

variable {ρ : Type}

/-- A log, and the clock that stamps its rows. -/
structure Log (ρ : Type) where
  rows : List ρ
  now : Int

/-- What a reader has seen, and the newest time of it. -/
structure Reader (ρ : Type) where
  newest : Int
  seen : List ρ

/-- A reader that has seen nothing. -/
def Reader.from (begin : Int) : Reader ρ := ⟨begin, []⟩

/-- The time from which a reader asks. -/
def Reader.since (reader : Reader ρ) (slack : Nat) (begin : Int) : Int :=
  max begin (reader.newest - slack)

section Tail

variable (stamp : ρ → Int)

/-- No row is of the future. -/
def Log.Timely (log : Log ρ) : Prop := ∀ row ∈ log.rows, stamp row ≤ log.now

/-- The log has grown as time went by, and the rows that were not late were
stamped at most the slack before they were written. -/
structure Log.Grows
    (slack : Nat) (late : Set ρ) (before after : Log ρ) : Prop where
  clock : before.now ≤ after.now
  rows : ∃ fresh, after.rows = before.rows ++ fresh ∧
    ∀ row ∈ fresh, row ∉ late → before.now ≤ stamp row + slack

/-- The page holds the newest rows since a time, as many as the limit
allows. -/
def Newest
    (rows : List ρ) (since : Int) (limit : Nat) (page : List ρ) : Prop :=
  ∃ order : List ρ, order.Perm (rows.filter fun row => decide (since ≤ stamp row)) ∧
    order.Pairwise (fun first second => stamp second ≤ stamp first) ∧
      page = order.take limit

/-- The reader reads a page, whose first row is its newest. -/
def Reader.read (reader : Reader ρ) (page : List ρ) : Reader ρ where
  newest := (page.head?.map stamp).elim reader.newest (max reader.newest)
  seen := reader.seen ++ page

/-- The reader has seen only what the log has had since the beginning, and all
of it but late rows. -/
structure Reader.CaughtUp
    (late : Set ρ) (begin : Int) (reader : Reader ρ) (log : Log ρ) :
    Prop where
  seen : ∀ row ∈ reader.seen, row ∈ log.rows ∧ begin ≤ stamp row
  missed : ∀ row ∈ log.rows, begin ≤ stamp row → row ∉ reader.seen →
    row ∈ late
  recent : reader.newest = begin ∨ reader.newest ≤ log.now
  newest : ∀ row ∈ reader.seen, stamp row ≤ reader.newest

variable {stamp : ρ → Int}
variable {log later : Log ρ} {reader : Reader ρ} {begin since : Int}
variable {slack limit : Nat} {page : List ρ} {late more : Set ρ}

theorem Log.Grows.mono
    (grows : log.Grows stamp slack late later) (kept : late ⊆ more) :
    log.Grows stamp slack more later := by
  obtain ⟨clock, fresh, same, stamped⟩ := grows
  exact ⟨clock, fresh, same, fun row among prompt =>
    stamped row among fun behind => prompt (kept behind)⟩

/-- A page that is not cut off holds all rows that were asked for. -/
theorem Newest.mem_iff
    (newest : Newest stamp log.rows since limit page)
    (short : page.length < limit) {row : ρ} :
    row ∈ page ↔ row ∈ log.rows ∧ since ≤ stamp row := by
  obtain ⟨order, same, -, rfl⟩ := newest
  have whole : order.take limit = order := by
    rw [List.length_take] at short
    exact List.take_of_length_le (by omega)
  rw [whole, same.mem_iff, List.mem_filter, decide_eq_true_eq]

/-- The first row of a page is its newest. -/
theorem Newest.head
    (newest : Newest stamp log.rows since limit page) {first : ρ}
    (heads : page.head? = some first) :
    first ∈ page ∧ ∀ row ∈ page, stamp row ≤ stamp first := by
  obtain ⟨order, -, ordered, rfl⟩ := newest
  refine ⟨List.mem_of_head? heads, fun row among => ?_⟩
  obtain ⟨rest, shown⟩ := List.head?_eq_some_iff.mp heads
  have sorted := ordered.sublist (List.take_sublist limit order)
  rw [shown, List.pairwise_cons] at sorted
  rw [shown] at among
  rcases List.mem_cons.mp among with rfl | behind
  · exact Int.le_refl _
  · exact sorted.1 row behind

/-- What a reader knows after a page that holds all rows since its time. -/
theorem Reader.caughtUp_read
    (timely : log.Timely stamp)
    (recent : reader.newest = begin ∨ reader.newest ≤ log.now)
    (bounded : ∀ row ∈ reader.seen, stamp row ≤ reader.newest)
    (newest : Newest stamp log.rows since limit page)
    (seen : ∀ row ∈ reader.seen ++ page, row ∈ log.rows ∧ begin ≤ stamp row)
    (missed : ∀ row ∈ log.rows, begin ≤ stamp row →
      row ∉ reader.seen ++ page → row ∈ late) :
    (reader.read stamp page).CaughtUp stamp late begin log := by
  cases heads : page.head? with
  | none =>
      have empty := List.head?_eq_none_iff.mp heads
      subst empty
      refine ⟨seen, missed, recent, fun row among => ?_⟩
      simp only [read, List.append_nil] at among
      exact bounded row among
  | some first =>
      obtain ⟨among, latest⟩ := newest.head heads
      have stored := (seen first (List.mem_append_right _ among))
      have past := timely first stored.1
      have top : (reader.read stamp page).newest =
          max reader.newest (stamp first) := by
        simp only [read, heads, Option.map_some, Option.elim_some]
      refine ⟨seen, missed, ?_, fun row present => ?_⟩
      · rw [top]
        omega
      · rw [top]
        rcases List.mem_append.mp present with old | new
        · exact (bounded row old).trans (le_max_left _ _)
        · exact (latest row new).trans (le_max_right _ _)

/-- The first page. -/
theorem Reader.caughtUp_first
    (timely : log.Timely stamp)
    (newest : Newest stamp log.rows begin limit page)
    (short : page.length < limit) :
    ((Reader.from begin).read stamp page).CaughtUp stamp late begin log := by
  refine Reader.caughtUp_read timely (.inl rfl)
    (fun row among => absurd among List.not_mem_nil) newest
    (fun row => (newest.mem_iff short).mp) fun row stored asked unseen => ?_
  exact absurd ((newest.mem_iff short).mpr ⟨stored, asked⟩) unseen

/-- Each further page: the reader stays caught up, and is shown again only rows
of the slack from the time from which it asked. -/
theorem Reader.CaughtUp.read
    (caughtUp : reader.CaughtUp stamp late begin log)
    (timely : later.Timely stamp) (grows : log.Grows stamp slack more later)
    (kept : late ⊆ more)
    (newest : Newest stamp later.rows (reader.since slack begin) limit page)
    (short : page.length < limit) :
    (reader.read stamp page).CaughtUp stamp more begin later ∧
      ∀ row ∈ page, row ∈ reader.seen →
        reader.since slack begin ≤ stamp row ∧
          stamp row ≤ reader.since slack begin + slack := by
  obtain ⟨seen, missed, recent, bounded⟩ := caughtUp
  obtain ⟨clock, fresh, same, stamped⟩ := grows
  have complete {row : ρ} : row ∈ page ↔
      row ∈ later.rows ∧ reader.since slack begin ≤ stamp row :=
    newest.mem_iff short
  refine ⟨Reader.caughtUp_read timely
    (recent.imp id fun past => past.trans clock) bounded newest
    (fun row among => ?_) fun row stored asked unseen => ?_,
    fun row shown again => ?_⟩
  · rcases List.mem_append.mp among with old | new
    · rw [same]
      exact ⟨List.mem_append_left _ (seen row old).1, (seen row old).2⟩
    · obtain ⟨stored, asked⟩ := complete.mp new
      exact ⟨stored, (le_max_left _ _).trans asked⟩
  · rw [List.mem_append, not_or] at unseen
    have origin := stored
    rw [same] at origin
    rcases List.mem_append.mp origin with old | new
    · exact kept (missed row old asked unseen.1)
    · by_contra prompt
      -- the row was written after the newest time was read
      have written := stamped row new prompt
      refine unseen.2 (complete.mpr ⟨stored, ?_⟩)
      unfold Reader.since
      omega
  · have top := bounded row again
    refine ⟨(complete.mp shown).2, ?_⟩
    unfold Reader.since
    omega

end Tail

end Paging
