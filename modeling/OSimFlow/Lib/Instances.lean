import Mathlib.Data.Nat.Cast.Defs

/-!
# Instances with a name

A definition that finds one of these holds a constant in the place of a proof of its own.
-/

namespace OSimFlow.Lib

theorem atLeastTwo_two : Nat.AtLeastTwo 2 := inferInstance

theorem atLeastTwo_three : Nat.AtLeastTwo 3 := inferInstance

theorem atLeastTwo_ten : Nat.AtLeastTwo 10 := inferInstance

theorem atLeastTwo_hundred : Nat.AtLeastTwo 100 := inferInstance

theorem neZero_two : @NeZero Nat Zero.ofOfNat0 2 := Nat.instNeZeroSucc

variable {α β : Type} [DecidableEq α] [DecidableEq β]

theorem lawfulBEq_list : LawfulBEq (List α) := inferInstance

theorem lawfulBEq_option : LawfulBEq (Option α) := inferInstance

theorem lawfulBEq_prod : LawfulBEq (α × β) := inferInstance

end OSimFlow.Lib
