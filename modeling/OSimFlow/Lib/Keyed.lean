import Mathlib.Data.List.Nodup
import Mathlib.Data.List.Basic

/-!
# Keyed lists: replace the first row with a key, or append

The update every row store of the program performs: scan a list for the
first element filed under a key, overwrite it in place, and append when the
scan runs off the end. `upsert` is that loop; `filed` is what a reader of
the list sees under one key.

The two facts everything else uses:

> `filed_upsert_self`: under a key that occurs at most once, an upsert
> leaves exactly the new row.
>
> `filed_upsert_ne`: under every other key it changes nothing.

`Nodup` of the keys is the invariant that makes the first fact apply for
ever (`nodup_upsert`).
-/

namespace OSimFlow.Lib

variable {κ α : Type} [DecidableEq κ] (key : α → κ)

/-- Replace the first element with `x`'s key by `x`, or append `x`. -/
def upsert (x : α) : List α → List α
  | [] => [x]
  | y :: ys => if key y = key x then x :: ys else y :: upsert x ys

/-- The elements of `l` filed under `k`. -/
def filed (k : κ) (l : List α) : List α :=
  l.filter (fun y => decide (key y = k))

@[simp] theorem filed_nil (k : κ) : filed key k [] = [] := rfl

theorem filed_cons_self {k : κ} {y : α} (h : key y = k) (l : List α) :
    filed key k (y :: l) = y :: filed key k l := by
  simp [filed, h]

theorem filed_cons_ne {k : κ} {y : α} (h : key y ≠ k) (l : List α) :
    filed key k (y :: l) = filed key k l := by
  simp [filed, h]

theorem mem_filed {k : κ} {y : α} {l : List α} :
    y ∈ filed key k l ↔ y ∈ l ∧ key y = k := by
  simp [filed]

/-- A key that does not occur files nothing. -/
theorem filed_eq_nil {k : κ} {l : List α} (h : k ∉ l.map key) :
    filed key k l = [] := by
  rw [filed, List.filter_eq_nil_iff]
  intro y hy hk
  exact h (List.mem_map.mpr ⟨y, hy, of_decide_eq_true hk⟩)

/-- The keys after an upsert: unchanged, or one more at the end. -/
theorem map_key_upsert (x : α) (l : List α) :
    (upsert key x l).map key =
      if key x ∈ l.map key then l.map key else l.map key ++ [key x] := by
  induction l with
  | nil => simp [upsert]
  | cons y ys ih =>
    by_cases h : key y = key x
    · simp [upsert, h]
    · have hne : ¬ key x = key y := fun he => h he.symm
      by_cases hm : key x ∈ ys.map key
      · simp only [upsert, if_neg h, List.map_cons, ih, List.mem_cons, hm,
          or_true, if_true]
      · simp only [upsert, if_neg h, List.map_cons, ih, List.mem_cons, hne,
          hm, or_self, if_false, List.cons_append]

/-- A new key goes to the end. -/
theorem upsert_of_notMem {x : α} {l : List α} (h : key x ∉ l.map key) :
    upsert key x l = l ++ [x] := by
  induction l with
  | nil => rfl
  | cons y ys ih =>
    rw [List.map_cons, List.mem_cons, not_or] at h
    rw [upsert, if_neg fun he => h.1 he.symm, ih h.2, List.cons_append]

/-- Distinct keys stay distinct. -/
theorem nodup_upsert {x : α} {l : List α} (h : (l.map key).Nodup) :
    ((upsert key x l).map key).Nodup := by
  rw [map_key_upsert]
  split
  · exact h
  next hx =>
    rw [List.nodup_append]
    refine ⟨h, List.nodup_singleton _, ?_⟩
    intro a ha b hb hab
    rw [List.mem_singleton] at hb
    exact hx (hb ▸ hab ▸ ha)

/-- Under another key an upsert is invisible. -/
theorem filed_upsert_ne {k : κ} {x : α} (h : key x ≠ k) (l : List α) :
    filed key k (upsert key x l) = filed key k l := by
  induction l with
  | nil => simp [upsert, filed, h]
  | cons y ys ih =>
    by_cases hy : key y = key x
    · have hyk : key y ≠ k := fun he => h (hy ▸ he)
      rw [upsert, if_pos hy, filed_cons_ne key h, filed_cons_ne key hyk]
    · rw [upsert, if_neg hy]
      by_cases hyk : key y = k
      · rw [filed_cons_self key hyk, filed_cons_self key hyk, ih]
      · rw [filed_cons_ne key hyk, filed_cons_ne key hyk, ih]

/-- Under its own key, an upsert into distinct keys leaves exactly the new
row. -/
theorem filed_upsert_self {x : α} {l : List α} (h : (l.map key).Nodup) :
    filed key (key x) (upsert key x l) = [x] := by
  induction l with
  | nil => simp [upsert, filed]
  | cons y ys ih =>
    obtain ⟨hy, hys⟩ := List.nodup_cons.mp h
    by_cases hyx : key y = key x
    · rw [upsert, if_pos hyx, filed_cons_self key rfl,
        filed_eq_nil key (hyx ▸ hy)]
    · rw [upsert, if_neg hyx, filed_cons_ne key hyx, ih hys]

/-- Upserting a list of keys: each key once, in the order of its first
occurrence. -/
theorem mem_upsert_id {x y : κ} {l : List κ} :
    y ∈ upsert id x l ↔ y = x ∨ y ∈ l := by
  have h := map_key_upsert id x l
  rw [List.map_id, List.map_id, id] at h
  rw [h]
  split
  next hx =>
    constructor
    · exact Or.inr
    · rintro (rfl | hy)
      · exact hx
      · exact hy
  next =>
    rw [List.mem_append, List.mem_singleton, or_comm]

theorem nodup_upsert_id {x : κ} {l : List κ} (h : l.Nodup) : (upsert id x l).Nodup := by
  have := nodup_upsert id (x := x) (l := l) (by rwa [List.map_id])
  rwa [List.map_id] at this

/-! ## Each element once -/

/-- Append an element that is not there yet. -/
def appendNew (l : List κ) (x : κ) : List κ := if x ∈ l then l else l ++ [x]

theorem mem_foldl_appendNew {x : κ} {l seen : List κ} :
    x ∈ l.foldl appendNew seen ↔ x ∈ seen ∨ x ∈ l := by
  induction l generalizing seen with
  | nil => exact (or_iff_left List.not_mem_nil).symm
  | cons y l ih =>
    rw [List.foldl_cons, ih, List.mem_cons, ← or_assoc]
    refine or_congr_left ?_
    unfold appendNew
    split
    next hy =>
      refine (or_iff_left_of_imp fun hx => ?_).symm
      rw [hx]
      exact hy
    next => rw [List.mem_append, List.mem_singleton]

theorem nodup_foldl_appendNew {l seen : List κ} (h : seen.Nodup) :
    (l.foldl appendNew seen).Nodup := by
  induction l generalizing seen with
  | nil => exact h
  | cons y l ih =>
    rw [List.foldl_cons]
    apply ih
    unfold appendNew
    split
    next => exact h
    next hy =>
      rw [List.nodup_append]
      refine ⟨h, List.nodup_singleton y, fun a ha b hb hab => hy ?_⟩
      rw [← List.mem_singleton.mp hb, ← hab]
      exact ha

end OSimFlow.Lib
