import Mathlib.Data.List.Infix

/-!
# Paths and symbolic links

A location is the list of names from the root. A path is read one component after the
other: `up` leaves the last directory, a name enters it and follows the link that stands
there. Links are given with the location they finally lead to.

> `resolve_resolve`: a resolved location is read as itself.
>
> `Below`: strictly inside a directory.
-/

namespace OSimFlow.Lib

variable {ν : Type} [DecidableEq ν] {up : ν} {link : List ν → Option (List ν)}

/-- Read one component at `cur`. -/
def enter (up : ν) (link : List ν → Option (List ν)) (cur : List ν) (c : ν) : List ν :=
  if c = up then cur.dropLast
  else
    match link (cur ++ [c]) with
    | some target => target
    | none => cur ++ [c]

/-- The location a path from the root leads to. -/
def resolve (up : ν) (link : List ν → Option (List ν)) (path : List ν) : List ν :=
  path.foldl (enter up link) []

/-- No component is `up`, and no link stands on the way. -/
def Resolved (up : ν) (link : List ν → Option (List ν)) (loc : List ν) : Prop :=
  ∀ front c, front ++ [c] <+: loc → c ≠ up ∧ link (front ++ [c]) = none

theorem resolve_concat (path : List ν) (c : ν) :
    resolve up link (path ++ [c]) = enter up link (resolve up link path) c := by
  unfold resolve
  rw [List.foldl_append]
  rfl

omit [DecidableEq ν] in
theorem resolved_nil : Resolved up link [] := by
  intro front c h
  have := List.append_eq_nil_iff.mp (List.prefix_nil.mp h)
  exact absurd this.2 (List.cons_ne_nil c [])

omit [DecidableEq ν] in
theorem Resolved.of_prefix {p q : List ν} (hq : Resolved up link q) (h : p <+: q) :
    Resolved up link p :=
  fun front c hc => hq front c (hc.trans h)

omit [DecidableEq ν] in
theorem Resolved.concat {loc : List ν} {c : ν} (hloc : Resolved up link loc) (hc : c ≠ up)
    (hlink : link (loc ++ [c]) = none) : Resolved up link (loc ++ [c]) := by
  intro front d h
  rcases List.prefix_concat_iff.mp h with h | h
  · obtain ⟨rfl, hd⟩ := List.append_inj' h rfl
    obtain rfl := List.singleton_inj.mp hd
    exact ⟨hc, hlink⟩
  · exact hloc front d h

/-- If links lead to resolved locations, so does every path. -/
theorem resolved_resolve (hlink : ∀ p target, link p = some target → Resolved up link target)
    (path : List ν) : Resolved up link (resolve up link path) := by
  induction path using List.reverseRecOn with
  | nil => exact resolved_nil
  | append_singleton path c ih =>
    rw [resolve_concat]
    unfold enter
    by_cases hc : c = up
    · rw [if_pos hc]
      exact ih.of_prefix (List.dropLast_prefix _)
    · rw [if_neg hc]
      split
      next target htarget => exact hlink _ target htarget
      next hnone => exact ih.concat hc hnone

/-- A resolved location is read as itself. -/
theorem resolve_eq_self {loc : List ν} (h : Resolved up link loc) : resolve up link loc = loc := by
  induction loc using List.reverseRecOn with
  | nil => rfl
  | append_singleton loc c ih =>
    obtain ⟨hc, hnone⟩ := h loc c (List.prefix_refl _)
    rw [resolve_concat, ih (h.of_prefix (List.prefix_append loc [c]))]
    unfold enter
    rw [if_neg hc, hnone]

theorem resolve_resolve (hlink : ∀ p target, link p = some target → Resolved up link target)
    (path : List ν) : resolve up link (resolve up link path) = resolve up link path :=
  resolve_eq_self (resolved_resolve hlink path)

/-! ## Strictly inside a directory -/

/-- `loc` is strictly below `base`. -/
def Below (base loc : List ν) : Prop := base <+: loc ∧ loc ≠ base

instance (base loc : List ν) : Decidable (Below base loc) :=
  inferInstanceAs (Decidable (base <+: loc ∧ loc ≠ base))

omit [DecidableEq ν] in
theorem below_concat (base : List ν) (c : ν) : Below base (base ++ [c]) := by
  refine ⟨List.prefix_append base [c], fun h => ?_⟩
  have := congrArg List.length h
  rw [List.length_append, List.length_singleton] at this
  omega

omit [DecidableEq ν] in
theorem not_below_self (base : List ν) : ¬ Below base base := fun h => h.2 rfl

/-- A name in the directory that a path leads to, where nothing below it is a link. -/
theorem below_resolve_concat {path : List ν} {c : ν} (hc : c ≠ up)
    (hlinks : ∀ loc, Below (resolve up link path) loc → link loc = none) :
    Below (resolve up link path) (resolve up link (path ++ [c])) := by
  have hnone := hlinks _ (below_concat (resolve up link path) c)
  rw [resolve_concat]
  unfold enter
  rw [if_neg hc, hnone]
  exact below_concat _ c

end OSimFlow.Lib
