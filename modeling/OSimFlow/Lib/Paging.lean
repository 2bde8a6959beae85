import Mathlib.Data.List.Perm.Basic

/-!
# Pages of a list

`page k n l` is what a slice from `(n - 1) * k` to `n * k` leaves of a list, with the pages
counted from one. The first `m` pages, one after the other, are the first `m * k` elements
(`flatMap_page`); where several lists are paged side by side, the pages hold the same
elements in another order (`flatMap_pages_perm`).
-/

namespace OSimFlow.Lib

variable {α β γ : Type}

/-- The elements from `start` up to `stop`. -/
def slice (start stop : Nat) (l : List α) : List α := (l.take stop).drop start

/-- The `n`-th page of `k` elements. -/
def page (k n : Nat) (l : List α) : List α := slice ((n - 1) * k) (n * k) l

theorem map_page (f : α → β) (k n : Nat) (l : List α) :
    (page k n l).map f = page k n (l.map f) := by
  simp only [page, slice, List.map_drop, List.map_take]

@[simp] theorem page_nil (k n : Nat) : page k n ([] : List α) = [] := by
  simp [page, slice]

theorem page_one (k : Nat) (l : List α) : page k 1 l = l.take k := by
  simp [page, slice]

theorem page_eq_nil {k n : Nat} {l : List α} (h : l.length ≤ (n - 1) * k) : page k n l = [] := by
  rw [page, slice, List.drop_eq_nil_iff, List.length_take]
  omega

theorem length_page (k n : Nat) (l : List α) :
    (page k (n + 1) l).length = min k (l.length - n * k) := by
  simp only [page, slice, List.length_drop, List.length_take, Nat.add_sub_cancel, Nat.succ_mul]
  omega

/-- No page is longer than the first. -/
theorem length_page_le (k n : Nat) (l : List α) :
    (page k (n + 1) l).length ≤ (page k 1 l).length := by
  rw [length_page, page_one, List.length_take]
  omega

theorem flatMap_page (k m : Nat) (l : List α) :
    (List.range m).flatMap (fun n => page k (n + 1) l) = l.take (m * k) := by
  induction m with
  | zero => simp
  | succ m ih =>
    rw [List.range_succ, List.flatMap_append, ih]
    have htake : l.take (m * k) = (l.take ((m + 1) * k)).take (m * k) := by
      rw [List.take_take, Nat.min_eq_left (Nat.mul_le_mul_right k (Nat.le_succ m))]
    simp only [List.flatMap_cons, List.flatMap_nil, List.append_nil, page, slice,
      Nat.add_sub_cancel]
    rw [htake, List.take_append_drop]

/-- Two nested walks in either order. -/
theorem flatMap_comm_perm (l : List α) (l' : List β) (f : α → β → List γ) :
    (l.flatMap fun a => l'.flatMap (f a)).Perm (l'.flatMap fun b => l.flatMap fun a => f a b) := by
  induction l' with
  | nil => simp
  | cons b l' ih =>
    simp only [List.flatMap_cons]
    exact (List.flatMap_append_perm l _ _).symm.trans (ih.append_left _)

/-- Paged side by side, each list is there once, as soon as the pages reach its end. -/
theorem flatMap_pages_perm {k m : Nat} {ls : List (List α)} (h : ∀ l ∈ ls, l.length ≤ m * k) :
    ((List.range m).flatMap fun n => ls.flatMap (page k (n + 1))).Perm ls.flatten := by
  refine (flatMap_comm_perm _ _ _).trans ?_
  rw [List.flatten_eq_flatMap]
  refine List.Perm.of_eq ?_
  induction ls with
  | nil => rfl
  | cons l ls ih =>
    have hrest := ih fun l' hl' => h l' (List.mem_cons_of_mem _ hl')
    rw [List.flatMap_cons, List.flatMap_cons, hrest, flatMap_page,
      List.take_of_length_le (h l List.mem_cons_self)]
    rfl

end OSimFlow.Lib
