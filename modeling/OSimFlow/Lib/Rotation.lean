import Mathlib.Data.List.Basic
import Mathlib.Data.Nat.Count

/-!
# A queue that goes round

Some items wait in a queue; the first is taken out, and put back at the end or
not. Position `t` of the process is the turn of item `t % k` in round
`t / k + 1`, which takes place if the item is still there (`part t`): an item
that has left never comes back.

> `waiting_of_part`, `waiting_succ`, `waiting_of_not_part`: the queue is what
> waits among the next `k` positions, before and after a turn.
>
> `exists_end`: with any budget of turns there is a position at which either
> the budget is used up or the queue is empty.
-/

namespace OSimFlow.Lib.Rotation

variable {k : ℕ} {part : ℕ → Prop} [DecidablePred part]

/-- The positions that wait at `t`. -/
def waiting (k : ℕ) (part : ℕ → Prop) [DecidablePred part] (t : ℕ) : List ℕ :=
  (List.range' t k).filter fun i => decide (part i)

/-- Those of them that are not the first position. -/
def behind (k : ℕ) (part : ℕ → Prop) [DecidablePred part] (t : ℕ) : List ℕ :=
  (List.range' (t + 1) (k - 1)).filter fun i => decide (part i)

theorem mem_waiting {t i : ℕ} : i ∈ waiting k part t ↔ (t ≤ i ∧ i < t + k) ∧ part i := by
  unfold waiting
  rw [List.mem_filter, List.mem_range'_1, decide_eq_true_iff]

theorem waiting_eq (hk : 0 < k) (t : ℕ) :
    waiting k part t = (if part t then [t] else []) ++ behind k part t := by
  obtain ⟨m, rfl⟩ := Nat.exists_eq_succ_of_ne_zero (Nat.ne_of_gt hk)
  unfold waiting behind
  rw [List.range'_succ, List.filter_cons]
  by_cases h : part t
  · rw [if_pos (decide_eq_true h), if_pos h]
    rfl
  · rw [if_neg (by simpa using h), if_neg h]
    rfl

/-- The turn of an item: it is at the head of the queue. -/
theorem waiting_of_part (hk : 0 < k) {t : ℕ} (h : part t) :
    waiting k part t = t :: behind k part t := by
  rw [waiting_eq hk, if_pos h]
  rfl

/-- After its turn it is at the end, or gone. -/
theorem waiting_succ (hk : 0 < k) (t : ℕ) :
    waiting k part (t + 1) = behind k part t ++ if part (t + k) then [t + k] else [] := by
  obtain ⟨m, rfl⟩ := Nat.exists_eq_succ_of_ne_zero (Nat.ne_of_gt hk)
  unfold waiting behind
  have hlast : t + 1 + m = t + (m + 1) := by omega
  rw [List.range'_1_concat, List.filter_append, Nat.succ_sub_one, hlast]
  congr 1
  by_cases h : part (t + (m + 1))
  · rw [if_pos h, List.filter_singleton, decide_eq_true h, cond_true]
  · rw [if_neg h, List.filter_singleton, decide_eq_false h, cond_false]

/-- The turns are counted: sooner or later the budget is used up, or nothing is left. -/
theorem exists_end (budget : ℕ) :
    ∃ t, Nat.count part t ≤ budget ∧
      (Nat.count part t = budget ∨ waiting k part t = []) := by
  by_contra hno
  have hnext : ∀ t, Nat.count part t ≤ budget →
      Nat.count part t ≠ budget ∧ waiting k part t ≠ [] := by
    intro t ht
    constructor
    · intro heq
      exact hno ⟨t, ht, .inl heq⟩
    · intro hnil
      exact hno ⟨t, ht, .inr hnil⟩
  have hlt : ∀ t, Nat.count part t < budget := by
    intro t
    induction t with
    | zero =>
      have hzero := (hnext 0 (by rw [Nat.count_zero]; exact Nat.zero_le _)).1
      rw [Nat.count_zero] at hzero ⊢
      omega
    | succ t ih =>
      have hstep : Nat.count part (t + 1) ≤ budget := by
        rw [Nat.count_succ]
        split <;> omega
      have hne := (hnext (t + 1) hstep).1
      omega
  -- a round in which something waits counts for one at least
  have hround : ∀ t, Nat.count part t + 1 ≤ Nat.count part (t + k) := by
    intro t
    obtain ⟨i, hi⟩ := List.exists_mem_of_ne_nil _ (hnext t (Nat.le_of_lt (hlt t))).2
    obtain ⟨⟨hlow, hhigh⟩, hpart⟩ := mem_waiting.mp hi
    calc Nat.count part t + 1 ≤ Nat.count part i + 1 := by
          have := Nat.count_monotone part hlow
          omega
      _ = Nat.count part (i + 1) := by rw [Nat.count_succ, if_pos hpart]
      _ ≤ Nat.count part (t + k) := Nat.count_monotone part hhigh
  have hmany : ∀ m, m ≤ Nat.count part (m * k) := by
    intro m
    induction m with
    | zero => exact Nat.zero_le _
    | succ m ih =>
      have := hround (m * k)
      rw [Nat.succ_mul]
      omega
  exact absurd (hmany budget) (Nat.not_le.mpr (hlt _))

variable (hleft : ∀ t, part (t + k) → part t)

include hleft

theorem waiting_of_not_part (hk : 0 < k) {t : ℕ} (h : ¬ part t) :
    waiting k part (t + 1) = waiting k part t := by
  rw [waiting_succ hk, waiting_eq hk t, if_neg h, if_neg fun hnext => h (hleft t hnext),
    List.append_nil]
  rfl

/-- An empty queue stays empty. -/
theorem not_part_of_waiting_eq_nil {t : ℕ} (hk : 0 < k) (h : waiting k part t = []) {i : ℕ}
    (hi : t ≤ i) : ¬ part i := by
  intro hpart
  have hback : ∀ m, ∀ j, part (j + m * k) → part j := by
    intro m
    induction m with
    | zero =>
      intro j hj
      rw [Nat.zero_mul] at hj
      exact hj
    | succ m ih =>
      intro j hj
      refine ih j (hleft _ ?_)
      rw [Nat.add_assoc, ← Nat.succ_mul]
      exact hj
  have hrest := Nat.mod_add_div (i - t) k
  have hlt := Nat.mod_lt (i - t) hk
  have hmem : t + (i - t) % k ∈ waiting k part t := by
    refine mem_waiting.mpr ⟨⟨Nat.le_add_right _ _, by omega⟩, hback ((i - t) / k) _ ?_⟩
    rw [Nat.mul_comm] at hrest
    have heq : t + (i - t) % k + (i - t) / k * k = i := by omega
    rw [heq]
    exact hpart
  rw [h] at hmem
  exact nomatch hmem

end OSimFlow.Lib.Rotation
