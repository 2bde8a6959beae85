import Mathlib.Data.List.Basic

/-!
# Reported moves

A machine that reports every change of its state as a pair, where it came from
and where it went. Whoever replays the reports knows the state of the machine
if they form a trail: every move begins where the one before it ended, and none
stays where it is.

> `trail_concat`: one more move extends a trail exactly when it begins at the
> end.
-/

namespace OSimFlow.Lib

variable {α : Type}

/-- Where the moves lead. -/
def endpoint (start : α) : List (α × α) → α
  | [] => start
  | move :: rest => endpoint move.2 rest

/-- Every move begins where the last one ended, and leads elsewhere. -/
def Trail (start : α) : List (α × α) → Prop
  | [] => True
  | move :: rest => move.1 = start ∧ move.1 ≠ move.2 ∧ Trail move.2 rest

instance decidableTrail [DecidableEq α] :
    (start : α) → (moves : List (α × α)) → Decidable (Trail start moves)
  | _, [] => inferInstanceAs (Decidable True)
  | start, move :: rest =>
    have := decidableTrail move.2 rest
    inferInstanceAs (Decidable (move.1 = start ∧ move.1 ≠ move.2 ∧ Trail move.2 rest))

@[simp] theorem endpoint_nil (start : α) : endpoint start [] = start := rfl

@[simp] theorem endpoint_concat (start : α) (moves : List (α × α)) (move : α × α) :
    endpoint start (moves ++ [move]) = move.2 := by
  induction moves generalizing start with
  | nil => rfl
  | cons first rest ih => exact ih first.2

theorem trail_concat (start : α) (moves : List (α × α)) (move : α × α) :
    Trail start (moves ++ [move]) ↔
      Trail start moves ∧ move.1 = endpoint start moves ∧ move.1 ≠ move.2 := by
  induction moves generalizing start with
  | nil =>
    show move.1 = start ∧ move.1 ≠ move.2 ∧ True ↔ True ∧ move.1 = start ∧ move.1 ≠ move.2
    rw [and_true, true_and]
  | cons first rest ih =>
    show first.1 = start ∧ first.1 ≠ first.2 ∧ Trail first.2 (rest ++ [move]) ↔
      (first.1 = start ∧ first.1 ≠ first.2 ∧ Trail first.2 rest) ∧
        move.1 = endpoint first.2 rest ∧ move.1 ≠ move.2
    rw [ih first.2]
    simp only [and_assoc]

end OSimFlow.Lib
