import Mathlib.Logic.Function.Basic

/-!
# An index as the inverse of the values it indexes

`IsInverse d value`: the index `d` files under each text exactly the one that has it as
its value. Values are then unique (`IsInverse.unique`), and an index that gives up the
old value and takes the new one, if that was free, follows a change of the value
(`IsInverse.move`).

An index is changed slot by slot. `Relocated` is a table of indexes in the middle of it, with the
slots claimed and the slots given up so far; undoing them restores it (`undone`).
-/

namespace OSimFlow.Lib

variable {τ ι κ : Type}

def IsInverse (d : τ → Option ι) (value : ι → Option τ) : Prop :=
  ∀ t i, d t = some i ↔ value i = some t

theorem IsInverse.unique {d : τ → Option ι} {value : ι → Option τ} (h : IsInverse d value)
    {i j : ι} {t : τ} (hi : value i = some t) (hj : value j = some t) : i = j := by
  have hdi := (h t i).mpr hi
  rw [(h t j).mpr hj] at hdi
  exact (Option.some.inj hdi).symm

variable [DecidableEq τ] [DecidableEq ι] [DecidableEq κ]

/-- The index after `i` gives up `old` and takes `new`. -/
def refile (d : τ → Option ι) (i : ι) (old new : Option τ) : τ → Option ι := fun t =>
  if new = some t then some i else if old = some t then none else d t

omit [DecidableEq ι] in
theorem refile_self {d : τ → Option ι} {i : ι} {o : Option τ} (h : ∀ t, o = some t → d t = some i) :
    refile d i o o = d := by
  funext t
  rw [refile]
  split
  next ho => exact (h t ho).symm
  next => rfl

theorem IsInverse.move {d : τ → Option ι} {value : ι → Option τ} (h : IsInverse d value) {i : ι}
    {new : Option τ} (hnew : ∀ t, new = some t → d t = none ∨ d t = some i) :
    IsInverse (refile d i (value i) new) (Function.update value i new) := by
  intro t j
  rw [refile]
  by_cases hj : j = i
  · subst hj
    rw [Function.update_self]
    split
    next hn => exact ⟨fun _ => hn, fun _ => rfl⟩
    next hn =>
      constructor
      · intro hd
        split at hd
        · exact nomatch hd
        next ho => exact absurd ((h t j).mp hd) ho
      · intro hn'
        exact absurd hn' hn
  · rw [Function.update_of_ne hj]
    split
    next hn =>
      constructor
      · intro hd
        exact absurd (Option.some.inj hd).symm hj
      · intro hv
        have hd := (h t j).mpr hv
        rcases hnew t hn with hfree | hown
        · rw [hfree] at hd
          exact nomatch hd
        · rw [hown] at hd
          exact absurd (Option.some.inj hd).symm hj
    next hn =>
      split
      next ho =>
        constructor
        · intro hd
          exact nomatch hd
        · intro hv
          exact absurd (h.unique hv ho) hj
      next ho => exact h t j

/-! ## Slots on the move -/

/-- The table with one slot changed. -/
def setSlot (w : κ → τ → Option ι) (k : κ) (t : τ) (o : Option ι) : κ → τ → Option ι := fun k' t' =>
  if k' = k ∧ t' = t then o else w k' t'

/-- The table with all these slots changed to the same. -/
def setSlots (w : κ → τ → Option ι) (l : List (κ × τ)) (o : Option ι) : κ → τ → Option ι :=
  fun k t => if (k, t) ∈ l then o else w k t

section
variable {w : κ → τ → Option ι} {l : List (κ × τ)} {o : Option ι} {k : κ} {t : τ}

omit [DecidableEq ι] in
@[simp] theorem setSlots_nil : setSlots w [] o = w := by
  funext k t
  simp [setSlots]

omit [DecidableEq ι] in
theorem setSlots_of_mem (h : (k, t) ∈ l) : setSlots w l o k t = o := by
  rw [setSlots, if_pos h]

omit [DecidableEq ι] in
theorem setSlots_of_not_mem (h : (k, t) ∉ l) : setSlots w l o k t = w k t := by
  rw [setSlots, if_neg h]

omit [DecidableEq ι] in
theorem setSlot_setSlots : setSlot (setSlots w l o) k t o = setSlots w (l ++ [(k, t)]) o := by
  funext k' t'
  rw [setSlot, setSlots, setSlots]
  by_cases hs : k' = k ∧ t' = t
  · rw [if_pos hs, if_pos (by rw [hs.1, hs.2]; simp)]
  · have hne : (k', t') ≠ (k, t) := fun he => hs ⟨congrArg Prod.fst he, congrArg Prod.snd he⟩
    rw [if_neg hs]
    simp [hne]

omit [DecidableEq ι] in
theorem setSlots_append_mem (h : (k, t) ∈ l) : setSlots w (l ++ [(k, t)]) o = setSlots w l o := by
  funext k' t'
  by_cases hs : (k', t') ∈ l
  · rw [setSlots_of_mem hs, setSlots_of_mem (List.mem_append_left _ hs)]
  · have hne : (k', t') ≠ (k, t) := fun he => hs (he ▸ h)
    rw [setSlots_of_not_mem hs, setSlots_of_not_mem (by simp [hs, hne])]

end

/-- A table `w` of indexes, under the keys `κ`, that came from `w₀`: `i` has claimed the
slots `claims` and given up its slots `released`. -/
structure Relocated (w₀ w : κ → τ → Option ι) (i : ι) (claims released : List (κ × τ)) : Prop where
  now : ∀ k t, w k t = if (k, t) ∈ claims then some i else if (k, t) ∈ released then none else w₀ k t
  owned : ∀ slot ∈ released, w₀ slot.1 slot.2 = some i
  free : ∀ slot ∈ claims, w₀ slot.1 slot.2 = none ∨ slot ∈ released

namespace Relocated

variable {w₀ w : κ → τ → Option ι} {i : ι} {claims released : List (κ × τ)}

omit [DecidableEq ι] in
theorem start (w : κ → τ → Option ι) (i : ι) : Relocated w w i [] [] where
  now := by simp
  owned := by simp
  free := by simp

omit [DecidableEq ι] in
/-- A free slot is claimed. -/
theorem claim (h : Relocated w₀ w i claims released) {k : κ} {t : τ} (hfree : w k t = none) :
    Relocated w₀ (setSlot w k t (some i)) i (claims ++ [(k, t)]) released where
  now := by
    intro k' t'
    rw [setSlot]
    by_cases hs : k' = k ∧ t' = t
    · rw [if_pos hs, if_pos (by rw [hs.1, hs.2]; simp)]
    · have hne : (k', t') ≠ (k, t) := fun he => hs ⟨congrArg Prod.fst he, congrArg Prod.snd he⟩
      rw [if_neg hs, h.now]
      simp [hne]
  owned := h.owned
  free := by
    intro slot hslot
    rcases List.mem_append.mp hslot with hslot | hslot
    · exact h.free slot hslot
    · rw [List.mem_singleton.mp hslot]
      have hnow := h.now k t
      rw [hfree] at hnow
      split at hnow
      · exact nomatch hnow
      · split at hnow
        next hr => exact Or.inr hr
        next => exact Or.inl hnow.symm

omit [DecidableEq ι] in
/-- A slot that was owned from the start is given up. -/
theorem release (h : Relocated w₀ w i claims released) {k : κ} {t : τ} (howned : w₀ k t = some i)
    (hnew : (k, t) ∉ claims) :
    Relocated w₀ (setSlot w k t none) i claims (released ++ [(k, t)]) where
  now := by
    intro k' t'
    rw [setSlot]
    by_cases hs : k' = k ∧ t' = t
    · rw [if_pos hs, if_neg (by rw [hs.1, hs.2]; exact hnew), if_pos (by rw [hs.1, hs.2]; simp)]
    · have hne : (k', t') ≠ (k, t) := fun he => hs ⟨congrArg Prod.fst he, congrArg Prod.snd he⟩
      rw [if_neg hs, h.now]
      simp [hne]
  owned := by
    intro slot hslot
    rcases List.mem_append.mp hslot with hslot | hslot
    · exact h.owned slot hslot
    · rw [List.mem_singleton.mp hslot]
      exact howned
  free := by
    intro slot hslot
    rcases h.free slot hslot with hfree | hr
    · exact Or.inl hfree
    · exact Or.inr (List.mem_append_left _ hr)

omit [DecidableEq ι] in
/-- Dropping the claims and taking back what was given up restores the table. -/
theorem undone (h : Relocated w₀ w i claims released) :
    setSlots (setSlots w claims none) released (some i) = w₀ := by
  funext k t
  by_cases hr : (k, t) ∈ released
  · rw [setSlots_of_mem hr]
    exact (h.owned (k, t) hr).symm
  · rw [setSlots_of_not_mem hr]
    by_cases hc : (k, t) ∈ claims
    · rw [setSlots_of_mem hc]
      rcases h.free (k, t) hc with hfree | hr'
      · exact hfree.symm
      · exact absurd hr' hr
    · rw [setSlots_of_not_mem hc, h.now, if_neg hc, if_neg hr]

omit [DecidableEq ι] in
/-- The index under one key, when its slots are those of a change of the value. -/
theorem refile_eq (h : Relocated w₀ w i claims released) {k : κ} {old new : Option τ}
    (changed : Prop) (hold : ∀ t, old = some t → w₀ k t = some i)
    (hsame : ¬ changed → new = old)
    (hclaims : ∀ t, (k, t) ∈ claims ↔ changed ∧ new = some t)
    (hreleased : ∀ t, (k, t) ∈ released ↔ changed ∧ old = some t) :
    w k = refile (w₀ k) i old new := by
  by_cases hch : changed
  · funext t
    rw [h.now, refile]
    simp only [hclaims, hreleased, hch, true_and]
  · rw [hsame hch, refile_self hold]
    funext t
    rw [h.now, if_neg fun hc => hch ((hclaims t).mp hc).1,
      if_neg fun hr => hch ((hreleased t).mp hr).1]

end Relocated

end OSimFlow.Lib
