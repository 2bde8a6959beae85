import Mathlib.Algebra.Order.BigOperators.Group.Finset
import Mathlib.Algebra.Order.Field.Basic
import OSimFlow.Lib.Dict

/-!
# Weights and shares

A dictionary of weights, and what share each key has of their sum. Keys without a weight have
the weight zero, so that two dictionaries with the same weights have the same shares however
they are written.
-/

namespace OSimFlow.Lib

variable {κ α K : Type} [DecidableEq κ]

/-- `dict(items)`. -/
def Dict.ofItems (items : List (κ × α)) : Dict κ α :=
  items.foldl (fun d item => d.set item.1 item.2) ∅

/-- A later item stands for the earlier ones under its key. -/
theorem Dict.get?_foldl_set {k : κ} {v : α} (items : List (κ × α)) (d : Dict κ α)
    (h : (items.foldl (fun d item => d.set item.1 item.2) d).get? k = some v) :
    (k, v) ∈ items ∨ d.get? k = some v := by
  induction items generalizing d with
  | nil => exact .inr h
  | cons item items ih =>
    rcases ih (d.set item.1 item.2) h with hmem | hget
    · exact .inl (List.mem_cons_of_mem item hmem)
    · rw [Dict.get?_set] at hget
      split at hget
      next hkey =>
        rw [← hkey, ← Option.some.inj hget]
        exact .inl List.mem_cons_self
      next => exact .inr hget

theorem Dict.mem_of_get?_ofItems {items : List (κ × α)} {k : κ} {v : α}
    (h : (Dict.ofItems items).get? k = some v) : (k, v) ∈ items :=
  (Dict.get?_foldl_set items ∅ h).resolve_right fun hnone => nomatch hnone

theorem Dict.mem_keys_foldl_set {k : κ} (items : List (κ × α)) (d : Dict κ α) :
    k ∈ (items.foldl (fun d item => d.set item.1 item.2) d).keys ↔
      k ∈ items.map Prod.fst ∨ k ∈ d.keys := by
  induction items generalizing d with
  | nil => simp
  | cons item items ih =>
    rw [List.foldl_cons, ih, Dict.mem_keys_set, List.map_cons, List.mem_cons]
    constructor
    · rintro (hmem | hmem | rfl)
      · exact .inl (.inr hmem)
      · exact .inr hmem
      · exact .inl (.inl rfl)
    · rintro ((rfl | hmem) | hmem)
      · exact .inr (.inr rfl)
      · exact .inl hmem
      · exact .inr (.inl hmem)

theorem Dict.mem_keys_ofItems {items : List (κ × α)} {k : κ} :
    k ∈ (Dict.ofItems items).keys ↔ k ∈ items.map Prod.fst := by
  refine (Dict.mem_keys_foldl_set items ∅).trans (or_iff_left ?_)
  exact List.not_mem_nil

variable [Field K]

def weight (d : Dict κ K) (k : κ) : K := (d.get? k).getD 0

def total (d : Dict κ K) : K := d.values.sum

/-- What the weight of `k` is of the sum. -/
def share (d : Dict κ K) (k : κ) : K := weight d k / total d

theorem weight_of_get? {d : Dict κ K} {k : κ} {w : K} (h : d.get? k = some w) :
    weight d k = w := by
  unfold weight
  rw [h]
  rfl

theorem weight_of_notMem {d : Dict κ K} {k : κ} (h : k ∉ d.keys) : weight d k = 0 := by
  unfold weight
  cases hget : d.get? k with
  | none => rfl
  | some w => exact absurd (Dict.mem_keys_of_get? hget) h

theorem mem_keys_of_weight {d : Dict κ K} {k : κ} (h : weight d k ≠ 0) : k ∈ d.keys := by
  by_contra hk
  exact h (weight_of_notMem hk)

/-- The sum runs over any set that has the keys. -/
theorem total_eq_sum {d : Dict κ K} {S : Finset κ} (h : ∀ k ∈ d.keys, k ∈ S) :
    total d = ∑ k ∈ S, weight d k := by
  have hkeys : total d = ∑ k ∈ d.keys.toFinset, weight d k := by
    have hnodup : d.keys.Nodup := d.nodup
    rw [List.sum_toFinset (weight d) hnodup]
    unfold total Dict.values Dict.keys
    rw [List.map_map]
    congr 1
    refine List.map_congr_left fun item hitem => ?_
    exact (weight_of_get? (Dict.mem_items.mp hitem)).symm
  rw [hkeys]
  refine Finset.sum_subset (fun k hk => h k (List.mem_toFinset.mp hk)) fun k _ hk => ?_
  exact weight_of_notMem fun hmem => hk (List.mem_toFinset.mpr hmem)

theorem total_congr {d d' : Dict κ K} (h : ∀ k, weight d k = weight d' k) : total d = total d' := by
  have hd : total d = ∑ k ∈ d.keys.toFinset ∪ d'.keys.toFinset, weight d k :=
    total_eq_sum fun k hk => Finset.mem_union_left _ (List.mem_toFinset.mpr hk)
  have hd' : total d' = ∑ k ∈ d.keys.toFinset ∪ d'.keys.toFinset, weight d' k :=
    total_eq_sum fun k hk => Finset.mem_union_right _ (List.mem_toFinset.mpr hk)
  rw [hd, hd']
  exact Finset.sum_congr rfl fun k _ => h k

theorem share_congr {d d' : Dict κ K} (h : ∀ k, weight d k = weight d' k) (k : κ) :
    share d k = share d' k := by
  unfold share
  rw [h k, total_congr h]

theorem weight_ne_zero_of_share {d : Dict κ K} {k : κ} (h : share d k ≠ 0) : weight d k ≠ 0 := by
  intro hzero
  refine h ?_
  unfold share
  rw [hzero, zero_div]

variable [LinearOrder K] [IsStrictOrderedRing K]

theorem total_pos {d : Dict κ K} (hnonneg : ∀ k, 0 ≤ weight d k) {k : κ} (hk : weight d k ≠ 0) :
    0 < total d := by
  rw [total_eq_sum (S := d.keys.toFinset) fun k hk => List.mem_toFinset.mpr hk]
  refine Finset.sum_pos' (fun k _ => hnonneg k)
    ⟨k, List.mem_toFinset.mpr (mem_keys_of_weight hk), ?_⟩
  exact lt_of_le_of_ne (hnonneg k) (Ne.symm hk)

/-- A key with a weight has a share. -/
theorem share_ne_zero {d : Dict κ K} (hnonneg : ∀ k, 0 ≤ weight d k) {k : κ}
    (hk : weight d k ≠ 0) : share d k ≠ 0 := div_ne_zero hk (total_pos hnonneg hk).ne'

end OSimFlow.Lib
