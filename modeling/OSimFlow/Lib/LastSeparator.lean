import Mathlib.Data.List.DropRight

/-!
# Text cut at its last separator

What `str.rpartition` and `str.rsplit` with one split do.
-/

namespace OSimFlow.Lib

variable {α : Type} [DecidableEq α]

/-- `rpartition(sep)`: what stands before the last separator, the separator, and the rest; all
of `l` is the rest if there is none. -/
def rpartition (sep : α) (l : List α) : List α × List α × List α :=
  if sep ∈ l then ((l.rdropWhile (· ≠ sep)).dropLast, [sep], l.rtakeWhile (· ≠ sep))
  else ([], [], l)

/-- `rsplit(sep, 1)[0]`. -/
def beforeLast (sep : α) (l : List α) : List α :=
  if sep ∈ l then (rpartition sep l).1 else l

theorem rpartition_of_notMem {sep : α} {l : List α} (h : sep ∉ l) :
    rpartition sep l = ([], [], l) := if_neg h

theorem rpartition_append {sep : α} (a : List α) {b : List α} (h : sep ∉ b) :
    rpartition sep (a ++ sep :: b) = (a, [sep], b) := by
  have hkeep : ∀ x ∈ b, decide (x ≠ sep) = true := by
    intro x hx
    rw [decide_eq_true_eq]
    rintro rfl
    exact h hx
  have hstop : ¬ (fun x => decide (x ≠ sep)) sep = true := by simp
  have hdrop : (a ++ sep :: b).rdropWhile (· ≠ sep) = a ++ [sep] := by
    unfold List.rdropWhile
    rw [List.reverse_append, List.reverse_cons, List.append_assoc,
      List.dropWhile_append_of_pos fun x hx => hkeep x (List.mem_reverse.mp hx),
      List.singleton_append, List.dropWhile_cons_of_neg (p := fun x => decide (x ≠ sep)) hstop,
      List.reverse_cons, List.reverse_reverse]
  have htake : (a ++ sep :: b).rtakeWhile (· ≠ sep) = b := by
    unfold List.rtakeWhile
    rw [List.reverse_append, List.reverse_cons, List.append_assoc,
      List.takeWhile_append_of_pos fun x hx => hkeep x (List.mem_reverse.mp hx),
      List.singleton_append, List.takeWhile_cons_of_neg (p := fun x => decide (x ≠ sep)) hstop,
      List.append_nil, List.reverse_reverse]
  have hmem : sep ∈ a ++ sep :: b := List.mem_append_right _ (List.mem_cons_self ..)
  rw [rpartition, if_pos hmem, hdrop, htake, List.dropLast_concat]

theorem beforeLast_of_notMem {sep : α} {l : List α} (h : sep ∉ l) : beforeLast sep l = l :=
  if_neg h

theorem beforeLast_append {sep : α} (a : List α) {b : List α} (h : sep ∉ b) :
    beforeLast sep (a ++ sep :: b) = a := by
  rw [beforeLast, if_pos (List.mem_append_right _ (List.mem_cons_self ..)), rpartition_append a h]

omit [DecidableEq α] in
/-- What begins a text and has no separator begins what stands before one. -/
theorem prefix_of_notMem {sep : α} {p a b : List α} (h : p <+: a ++ sep :: b) (hp : sep ∉ p) :
    p <+: a := by
  rcases List.prefix_or_prefix_of_prefix h (List.prefix_append a (sep :: b)) with hle | hle
  · exact hle
  · obtain ⟨z, rfl⟩ := hle
    rw [List.prefix_append_right_inj] at h
    cases z with
    | nil => exact ⟨[], by rw [List.append_nil, List.append_nil]⟩
    | cons x z =>
      obtain ⟨rfl, -⟩ := List.cons_prefix_cons.mp h
      exact absurd (List.mem_append_right _ (List.mem_cons_self ..)) hp

end OSimFlow.Lib
