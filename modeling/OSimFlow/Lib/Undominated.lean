import Mathlib.Data.Fintype.EquivFin
import Mathlib.Data.Set.Finite.List
import Mathlib.Order.WellFounded

/-!
# The undominated elements of a list

`undominated r l` keeps, in order, the elements of `l` that nothing in `l` is
`r`-above. For a strict order this can be done generation by generation: what is
dropped is dominated by something that stays (`exists_undominated`), so dropping
it early loses no verdict later (`undominated_append`, and `foldl_undominated`
for a whole run).
-/

namespace OSimFlow.Lib

variable {α : Type} (r : α → α → Prop) [DecidableRel r]

/-- The elements of `l` that no element of `l` dominates. -/
def undominated (l : List α) : List α :=
  l.filter fun x => decide (∀ y ∈ l, ¬ r y x)

variable {r} {l m : List α} {x y : α}

theorem mem_undominated : x ∈ undominated r l ↔ x ∈ l ∧ ∀ y ∈ l, ¬ r y x := by
  rw [undominated, List.mem_filter, decide_eq_true_iff]

/-- Only the relation counts, not how it is decided. -/
theorem undominated_congr {s : α → α → Prop} [DecidableRel s] (h : ∀ a b, r a b ↔ s a b)
    (l : List α) : undominated r l = undominated s l := by
  refine List.filter_congr fun x _ => decide_eq_decide.mpr ?_
  simp only [h]

variable [IsTrans α r] [Std.Irrefl r]

/-- Who is dominated is dominated by an undominated one. -/
theorem exists_undominated (hy : y ∈ l) (h : r y x) : ∃ z ∈ undominated r l, r z x := by
  have hfin : Finite { z // z ∈ l } := (List.finite_toSet l).to_subtype
  let below : { z // z ∈ l } → { z // z ∈ l } → Prop := fun a b => r a.1 b.1
  have : IsTrans { z // z ∈ l } below := ⟨fun _ _ _ hab hbc => IsTrans.trans _ _ _ hab hbc⟩
  have : Std.Irrefl below := ⟨fun a => Std.Irrefl.irrefl a.1⟩
  have hwf : WellFounded below := Finite.wellFounded_of_trans_of_irrefl below
  obtain ⟨z, hz, hmin⟩ := hwf.has_min { z | r z.1 x } ⟨⟨y, hy⟩, h⟩
  refine ⟨z.1, mem_undominated.mpr ⟨z.2, fun w hw hwz => ?_⟩, hz⟩
  exact hmin ⟨w, hw⟩ (IsTrans.trans _ _ _ hwz hz) hwz

/-- Dominated elements can be dropped before others come. -/
theorem undominated_append (l m : List α) :
    undominated r (undominated r l ++ m) = undominated r (l ++ m) := by
  have hsame : ∀ x, (∀ y ∈ undominated r l ++ m, ¬ r y x) ↔ ∀ y ∈ l ++ m, ¬ r y x := by
    intro x
    rw [List.forall_mem_append, List.forall_mem_append]
    refine and_congr_left fun _ => ⟨fun h y hy hr => ?_, fun h y hy => ?_⟩
    · obtain ⟨z, hz, hzx⟩ := exists_undominated hy hr
      exact h z hz hzx
    · exact h y (mem_undominated.mp hy).1
  have hall : undominated r (undominated r l ++ m) =
      (undominated r l ++ m).filter fun x => decide (∀ y ∈ l ++ m, ¬ r y x) :=
    List.filter_congr fun x _ => decide_eq_decide.mpr (hsame x)
  rw [hall, List.filter_append, undominated, undominated, List.filter_append, List.filter_filter]
  congr 1
  refine List.filter_congr fun x _ => ?_
  rw [Bool.and_eq_left_iff_imp]
  intro h
  exact decide_eq_true fun y hy => of_decide_eq_true h y (List.mem_append_left m hy)

/-- Generation by generation, as all at once. -/
theorem foldl_undominated (gens : List (List α)) :
    gens.foldl (fun front gen => undominated r (front ++ gen)) [] =
      undominated r gens.flatten := by
  have hrun : ∀ l : List α,
      gens.foldl (fun front gen => undominated r (front ++ gen)) (undominated r l) =
        undominated r (l ++ gens.flatten) := by
    induction gens with
    | nil =>
      intro l
      rw [List.flatten_nil, List.append_nil]
      rfl
    | cons gen gens ih =>
      intro l
      rw [List.foldl_cons, undominated_append, ih, List.flatten_cons, List.append_assoc]
  exact hrun []

end OSimFlow.Lib
