import Mathlib.Data.List.Basic

/-!
# Conditions over columns that may be null

A query compares columns that may hold no value, and such a comparison is
neither true nor false. A row is selected when its condition is true, so that
an unknown condition selects nothing: the null of one side does not meet the
null of the other.

> `eq_isTrue_iff`: an equality is true of two equal values only.
>
> `all_isTrue_iff`, `any_isTrue_iff`: a conjunction is true if its members
> are, a disjunction if one of them is, whatever the others are.
-/

namespace OSimFlow.Lib

/-- The value of a condition. -/
inductive Truth where
  | false
  | unknown
  | true
deriving DecidableEq, Repr

namespace Truth

/-- The condition selects the row. -/
def isTrue : Truth → Bool
  | .true => Bool.true
  | _ => Bool.false

/-- `AND`: the lesser of the two. -/
def and : Truth → Truth → Truth
  | .false, _ => .false
  | _, .false => .false
  | .true, .true => .true
  | _, _ => .unknown

/-- `OR`: the greater of the two. -/
def or : Truth → Truth → Truth
  | .true, _ => .true
  | _, .true => .true
  | .false, .false => .false
  | _, _ => .unknown

/-- The conjunction of some conditions. -/
def all (l : List Truth) : Truth := l.foldr and .true

/-- The disjunction of some conditions. -/
def any (l : List Truth) : Truth := l.foldr or .false

/-- `a = b`: unknown where a side is null. -/
def eq {α : Type} [DecidableEq α] : Option α → Option α → Truth
  | some a, some b => if a = b then .true else .false
  | _, _ => .unknown

@[simp] theorem and_isTrue (s t : Truth) : (and s t).isTrue = (s.isTrue && t.isTrue) := by
  cases s <;> cases t <;> rfl

@[simp] theorem or_isTrue (s t : Truth) : (or s t).isTrue = (s.isTrue || t.isTrue) := by
  cases s <;> cases t <;> rfl

theorem all_isTrue_iff {l : List Truth} :
    (all l).isTrue = Bool.true ↔ ∀ t ∈ l, t.isTrue = Bool.true := by
  induction l with
  | nil => exact iff_of_true rfl fun _ h => nomatch h
  | cons t l ih =>
    show (and t (all l)).isTrue = Bool.true ↔ _
    rw [and_isTrue, Bool.and_eq_true, ih, List.forall_mem_cons]

theorem any_isTrue_iff {l : List Truth} :
    (any l).isTrue = Bool.true ↔ ∃ t ∈ l, t.isTrue = Bool.true := by
  induction l with
  | nil => exact iff_of_false (by decide) fun ⟨_, h, _⟩ => nomatch h
  | cons t l ih =>
    show (or t (any l)).isTrue = Bool.true ↔ _
    rw [or_isTrue, Bool.or_eq_true, ih, List.exists_mem_cons_iff]

@[simp] theorem eq_isTrue_iff {α : Type} [DecidableEq α] {a b : Option α} :
    (eq a b).isTrue = Bool.true ↔ ∃ x, a = some x ∧ b = some x := by
  cases a with
  | none => simp [eq, isTrue]
  | some x =>
    cases b with
    | none => simp [eq, isTrue]
    | some y =>
      unfold eq
      by_cases h : x = y
      · simp [h, isTrue]
      · simp [h, isTrue, eq_comm]

/-- A value that is not null is equal to itself and to nothing else. -/
theorem eq_some_isTrue_iff {α : Type} [DecidableEq α] {x : α} {b : Option α} :
    (eq (some x) b).isTrue = Bool.true ↔ some x = b := by
  rw [eq_isTrue_iff]
  constructor
  · intro ⟨y, hx, hb⟩
    rw [hx, hb]
  · intro h
    exact ⟨x, rfl, h.symm⟩

theorem eq_comm_isTrue {α : Type} [DecidableEq α] (a b : Option α) :
    (eq a b).isTrue = (eq b a).isTrue := by
  rw [Bool.eq_iff_iff, eq_isTrue_iff, eq_isTrue_iff]
  exact exists_congr fun x => and_comm

end Truth

end OSimFlow.Lib
