import Mathlib.Data.List.Nodup

/-!
# The elements at some positions

`atPositions sel l`: the elements of `l` whose position `sel` selects, in order. A slice
is such a selection; where no element repeats, what has been selected tells the
positions.
-/

namespace OSimFlow.Lib

variable {α β : Type}

/-- `[x for i, x in enumerate(l, start) if sel(i)]`. -/
def positionsFrom (sel : Nat → Bool) : Nat → List α → List α
  | _, [] => []
  | i, x :: l => if sel i then x :: positionsFrom sel (i + 1) l else positionsFrom sel (i + 1) l

/-- `[x for i, x in enumerate(l) if sel(i)]`. -/
def atPositions (sel : Nat → Bool) (l : List α) : List α := positionsFrom sel 0 l

theorem mem_positionsFrom {sel : Nat → Bool} {x : α} {l : List α} {i : Nat} :
    x ∈ positionsFrom sel i l ↔ ∃ p, l[p]? = some x ∧ sel (i + p) = true := by
  induction l generalizing i with
  | nil =>
    constructor
    · exact fun h => nomatch h
    · rintro ⟨p, hp, _⟩
      rw [List.getElem?_nil] at hp
      exact nomatch hp
  | cons y l ih =>
    have htail : x ∈ positionsFrom sel (i + 1) l ↔
        ∃ p, (y :: l)[p + 1]? = some x ∧ sel (i + (p + 1)) = true := by
      rw [ih]
      refine exists_congr fun p => ?_
      rw [List.getElem?_cons_succ, show i + 1 + p = i + (p + 1) by omega]
    unfold positionsFrom
    by_cases hsel : sel i = true
    · rw [if_pos hsel, List.mem_cons, htail]
      constructor
      · rintro (rfl | ⟨p, hp, hs⟩)
        · exact ⟨0, rfl, hsel⟩
        · exact ⟨p + 1, hp, hs⟩
      · rintro ⟨p, hp, hs⟩
        cases p with
        | zero => exact Or.inl (Option.some.inj hp).symm
        | succ p => exact Or.inr ⟨p, hp, hs⟩
    · rw [if_neg hsel, htail]
      constructor
      · rintro ⟨p, hp, hs⟩
        exact ⟨p + 1, hp, hs⟩
      · rintro ⟨p, hp, hs⟩
        cases p with
        | zero => exact absurd hs hsel
        | succ p => exact ⟨p, hp, hs⟩

theorem mem_atPositions {sel : Nat → Bool} {x : α} {l : List α} :
    x ∈ atPositions sel l ↔ ∃ p : Nat, l[p]? = some x ∧ sel p = true := by
  rw [atPositions, mem_positionsFrom]
  simp only [Nat.zero_add]

theorem positionsFrom_map (sel : Nat → Bool) (f : α → β) :
    ∀ (l : List α) (i : Nat),
      positionsFrom sel i (l.map f) = (positionsFrom sel i l).map f
  | [], _ => rfl
  | x :: l, i => by
    rw [List.map_cons, positionsFrom, positionsFrom, positionsFrom_map sel f l]
    split <;> rfl

theorem atPositions_map (sel : Nat → Bool) (f : α → β) (l : List α) :
    atPositions sel (l.map f) = (atPositions sel l).map f := positionsFrom_map sel f l 0

/-- Selecting what lies behind `k` is dropping the first `k`. -/
theorem positionsFrom_eq_drop {sel : Nat → Bool} :
    ∀ {l : List α} {i k : Nat},
      (∀ p < l.length, sel (i + p) = true ↔ k ≤ p) → positionsFrom sel i l = l.drop k
  | [], _, _, _ => by rw [List.drop_nil]; rfl
  | x :: l, i, k, h => by
    have htail : ∀ p < l.length, sel (i + 1 + p) = true ↔ k - 1 ≤ p := by
      intro p hp
      have := h (p + 1) (Nat.succ_lt_succ hp)
      rw [show i + 1 + p = i + (p + 1) by omega, this]
      omega
    have hhead := h 0 (Nat.succ_pos _)
    rw [Nat.add_zero] at hhead
    unfold positionsFrom
    cases k with
    | zero =>
      rw [if_pos (hhead.mpr (Nat.le_refl 0)), positionsFrom_eq_drop htail]
      rfl
    | succ k =>
      have hnot : ¬ sel i = true := fun hs => absurd (hhead.mp hs) (Nat.not_succ_le_zero k)
      rw [if_neg hnot, positionsFrom_eq_drop htail]
      rfl

theorem atPositions_eq_drop {sel : Nat → Bool} {l : List α} {k : Nat}
    (h : ∀ p < l.length, sel p = true ↔ k ≤ p) : atPositions sel l = l.drop k := by
  refine positionsFrom_eq_drop fun p hp => ?_
  rw [Nat.zero_add]
  exact h p hp

/-- If no element repeats, the selection tells the positions. -/
theorem atPositions_eq_drop_iff {sel : Nat → Bool} {l : List α} (hl : l.Nodup) {k : Nat} :
    atPositions sel l = l.drop k ↔ ∀ p < l.length, sel p = true ↔ k ≤ p := by
  refine ⟨fun h p hp => ?_, atPositions_eq_drop⟩
  have hget : l[p]? = some l[p] := List.getElem?_eq_getElem hp
  have hsel : l[p] ∈ atPositions sel l ↔ sel p = true := by
    rw [mem_atPositions]
    constructor
    · rintro ⟨q, hq, hs⟩
      obtain ⟨hlt, heq⟩ := List.getElem?_eq_some_iff.mp hq
      rwa [(hl.getElem_inj_iff).mp heq] at hs
    · exact fun hs => ⟨p, hget, hs⟩
  have hdrop : l[p] ∈ l.drop k ↔ k ≤ p := by
    constructor
    · intro hm
      obtain ⟨q, hq⟩ := List.mem_iff_getElem?.mp hm
      rw [List.getElem?_drop] at hq
      obtain ⟨hlt, heq⟩ := List.getElem?_eq_some_iff.mp hq
      have := (hl.getElem_inj_iff).mp heq
      omega
    · intro hk
      refine List.mem_iff_getElem?.mpr ⟨p - k, ?_⟩
      rw [List.getElem?_drop, Nat.add_sub_cancel' hk, hget]
  rw [← hsel, h, hdrop]

theorem positionsFrom_true {sel : Nat → Bool} {l : List α} {i : Nat}
    (h : ∀ p, i ≤ p → sel p = true) : positionsFrom sel i l = l := by
  induction l generalizing i with
  | nil => rfl
  | cons x l ih =>
    rw [positionsFrom, if_pos (h i (Nat.le_refl i)), ih fun p hp => h p (by omega)]

/-- `[x for i, x in enumerate(l) if sel(i)]`, with the pairs written out. -/
theorem map_filter_zipIdx (sel : Nat → Bool) :
    ∀ (l : List α) (i : Nat),
      ((l.zipIdx i).filter fun x => sel x.2).map Prod.fst = positionsFrom sel i l
  | [], _ => rfl
  | x :: l, i => by
    rw [List.zipIdx_cons, List.filter_cons, positionsFrom]
    by_cases hsel : sel i = true
    · rw [if_pos hsel, if_pos hsel, List.map_cons, map_filter_zipIdx sel l]
    · rw [if_neg hsel, if_neg hsel, map_filter_zipIdx sel l]

/-- A slice. -/
theorem take_drop_eq_positionsFrom :
    ∀ (l : List α) (i start stop : Nat),
      (l.take (stop - i)).drop (start - i) =
        positionsFrom (fun p => decide (start ≤ p ∧ p < stop)) i l
  | [], _, _, _ => by rw [List.take_nil, List.drop_nil]; rfl
  | x :: l, i, start, stop => by
    rw [positionsFrom, ← take_drop_eq_positionsFrom l (i + 1)]
    by_cases hstop : i < stop
    · rw [show stop - i = stop - (i + 1) + 1 by omega, List.take_succ_cons]
      by_cases hstart : start ≤ i
      · rw [if_pos (decide_eq_true ⟨hstart, hstop⟩), show start - i = 0 by omega,
          show start - (i + 1) = 0 by omega, List.drop_zero, List.drop_zero]
      · rw [if_neg (by rw [decide_eq_true_iff]; omega),
          show start - i = start - (i + 1) + 1 by omega, List.drop_succ_cons]
    · rw [if_neg (by rw [decide_eq_true_iff]; omega), show stop - i = 0 by omega,
        show stop - (i + 1) = 0 by omega, List.take_zero, List.take_zero, List.drop_nil,
        List.drop_nil]

end OSimFlow.Lib
