import Marmotte.Effects.Program

/-!
# Runs with a memory

A world paired with a view of each state that a run has gone through.  What a
run has once seen stays in its past, so a statement about the past never becomes
false.
-/

namespace Effects

/-- A world and the views of the states so far, the latest one first. -/
structure Chronicle (World View : Type) where
  world : World
  past : List View

namespace Chronicle

variable {Call : Type} {Reply : Call → Type} {ε World View : Type}

/-- The chronicle of a run that has not made a step. -/
def begin (view : World → View) (world : World) : Chronicle World View :=
  ⟨world, [view world]⟩

/-- The state after an answer joins the past. -/
def answers
    (view : World → View) (answers : Answers Call Reply ε World) :
    Answers Call Reply ε (Chronicle World View) :=
  fun request before reply after =>
    answers request before.world reply after.world ∧
      after.past = view after.world :: before.past

/-- A handler that keeps a chronicle. -/
def handler
    (view : World → View) (handler : Handler Call Reply ε World) :
    Handler Call Reply ε (Chronicle World View) :=
  fun request before =>
    (handler request before.world).map fun result =>
      (result.1, ⟨result.2, view result.2 :: before.past⟩)

theorem answers_of_handler
    {view : World → View} {exec : Handler Call Reply ε World}
    {answered : Answers Call Reply ε World}
    (contained : ∀ request before reply after,
      exec request before = some (reply, after) →
        answered request before reply after)
    {request : Call} {before after : Chronicle World View}
    {reply : Except ε (Reply request)}
    (handled : handler view exec request before = some (reply, after)) :
    answers view answered request before reply after := by
  obtain ⟨⟨result, world⟩, ran, same⟩ := Option.map_eq_some_iff.mp handled
  cases same
  exact ⟨contained _ _ _ _ ran, rfl⟩

/-- The present state is in the past. -/
def Current (view : World → View) (chronicle : Chronicle World View) : Prop :=
  view chronicle.world ∈ chronicle.past

section Steps

variable {view : World → View} {answered : Answers Call Reply ε World}
variable {request : Call} {before after : Chronicle World View}
variable {reply : Except ε (Reply request)}

theorem current_step
    (step : answers view answered request before reply after) :
    Current view after := by
  rw [Current, step.2]
  exact List.mem_cons_self

/-- The past only grows. -/
theorem past_subset
    (step : answers view answered request before reply after) :
    before.past ⊆ after.past := by
  rw [step.2]
  exact List.subset_cons_self _ _

end Steps

end Chronicle

end Effects
