import Mathlib.Data.List.DropRight

/-!
# Lists without some elements at their ends

What `str.strip` does: drop from the front while `p` holds, then from the back.
-/

namespace OSimFlow.Lib

variable {α β : Type}

/-- `l` without the elements at both ends for which `p` holds. -/
def strip (p : α → Bool) (l : List α) : List α := (l.dropWhile p).rdropWhile p

theorem strip_infix (p : α → Bool) (l : List α) : strip p l <:+: l :=
  (List.rdropWhile_prefix p _).isInfix.trans (List.dropWhile_suffix p).isInfix

theorem length_strip_le (p : α → Bool) (l : List α) : (strip p l).length ≤ l.length :=
  List.IsInfix.length_le ( strip_infix p l)

theorem strip_map (p : β → Bool) (f : α → β) (l : List α) :
    strip p (l.map f) = (strip (p ∘ f) l).map f := by
  unfold strip List.rdropWhile
  rw [List.dropWhile_map, ← List.map_reverse, List.dropWhile_map, List.map_reverse]

/-- The last element stays because `p` does not hold of it. -/
theorem last_strip {p : α → Bool} {l : List α} {a : α} (h : (strip p l).getLast? = some a) :
    p a = false := by
  have hne : strip p l ≠ [] := by
    intro hnil
    rw [hnil] at h
    exact nomatch h
  rw [List.getLast?_eq_some_getLast hne] at h
  have hlast := List.rdropWhile_last_not p (l.dropWhile p) hne
  rw [← Option.some.inj h]
  exact Bool.eq_false_iff.mpr hlast

/-- The first element stays for the same reason. -/
theorem head_strip {p : α → Bool} {l : List α} {a : α} (h : (strip p l).head? = some a) :
    p a = false := by
  obtain ⟨cut, hcut⟩ := List.rdropWhile_prefix p (l.dropWhile p)
  have hhead : (l.dropWhile p).head? = some a := by
    rw [← hcut, List.head?_append]
    show Option.or (strip p l).head? _ = _
    rw [h]
    rfl
  have hnot := List.head?_dropWhile_not p l
  rw [hhead] at hnot
  exact hnot

/-- A list that neither begins nor ends so stays as it is. -/
theorem strip_eq_self {p : α → Bool} {a b : α} {l : List α} (ha : p a = false)
    (hb : p b = false) : strip p (a :: (l ++ [b])) = a :: (l ++ [b]) := by
  have hfront : (a :: (l ++ [b])).dropWhile p = a :: (l ++ [b]) :=
    List.dropWhile_cons_of_neg (by rw [ha]; exact Bool.false_ne_true)
  have hback : (a :: l) ++ [b] = a :: (l ++ [b]) := rfl
  unfold strip
  rw [hfront, ← hback]
  exact List.rdropWhile_concat_neg p (a :: l) b (by rw [hb]; exact Bool.false_ne_true)

end OSimFlow.Lib
