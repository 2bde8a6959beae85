import Mathlib.Data.List.Basic

/-!
# Threads in slots

A list with one entry for each thread, where one thread at a time changes its own. How
many entries have a property changes by that entry only (`countP_set_add`), in a form
that `omega` can use.
-/

namespace OSimFlow.Lib

variable {α : Type} {l : List α} {i : Nat} {a b : α}

theorem lt_length_of_slot (h : l[i]? = some a) : i < l.length :=
  (List.getElem?_eq_some_iff.mp h).1

/-- One thread more with the property, one less, or none. -/
theorem countP_set_add (p : α → Bool) (h : l[i]? = some a) (b : α) :
    (l.set i b).countP p + (p a).toNat = l.countP p + (p b).toNat := by
  induction l generalizing i with
  | nil => exact nomatch h
  | cons x l ih =>
    cases i with
    | zero =>
      cases h
      rw [List.set_cons_zero, List.countP_cons, List.countP_cons]
      cases p a <;> cases p b <;> rfl
    | succ i =>
      have := ih (i := i) h
      rw [List.set_cons_succ, List.countP_cons, List.countP_cons]
      omega

/-- The entry itself, and the others. -/
theorem getElem?_set_slot (h : l[i]? = some a) (j : Nat) (b : α) :
    (l.set i b)[j]? = if i = j then some b else l[j]? := by
  rw [List.getElem?_set]
  split
  · rw [if_pos (lt_length_of_slot h)]
  · rfl

theorem exists_slot_of_countP {p : α → Bool} (h : 0 < l.countP p) :
    ∃ x ∈ l, p x = true :=
  List.countP_pos_iff.mp h

end OSimFlow.Lib
