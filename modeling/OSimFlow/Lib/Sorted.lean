import Mathlib.Order.Defs.LinearOrder
import Mathlib.Data.List.Sort

/-!
# Sorting by a key

What `sorted` makes of a list does not depend on the order it comes in, if different
elements have different keys; what comes in order is left alone.
-/

namespace OSimFlow.Lib

variable {α β : Type} [LinearOrder β] (key : α → β)

/-- `sorted(l, key)`. -/
def sortedBy (l : List α) : List α := l.insertionSort fun a b => key a ≤ key b

instance isTrans_key : IsTrans α fun a b => key a ≤ key b := ⟨fun _ _ _ hab hbc => le_trans hab hbc⟩

instance total_key : Std.Total (α := α) fun a b => key a ≤ key b :=
  ⟨fun a b => le_total (key a) (key b)⟩

theorem sortedBy_perm (l : List α) : (sortedBy key l).Perm l := List.perm_insertionSort _ l

theorem pairwise_sortedBy (l : List α) : (sortedBy key l).Pairwise fun a b => key a ≤ key b :=
  List.pairwise_insertionSort _ l

theorem sortedBy_eq_self {l : List α} (h : l.Pairwise fun a b => key a ≤ key b) :
    sortedBy key l = l :=
  h.insertionSort_eq

variable {key} in
theorem sortedBy_congr {l l' : List α} (hkey : Function.Injective key) (h : l.Perm l') :
    sortedBy key l = sortedBy key l' := by
  refine List.Perm.eq_of_pairwise (fun a b _ _ hab hba => hkey (le_antisymm hab hba))
    (pairwise_sortedBy key l) (pairwise_sortedBy key l') ?_
  exact (sortedBy_perm key l).trans (h.trans (sortedBy_perm key l').symm)

end OSimFlow.Lib
