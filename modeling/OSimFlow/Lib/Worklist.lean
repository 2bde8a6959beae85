import Mathlib.Algebra.BigOperators.Group.Finset.Basic
import Mathlib.Logic.Relation

/-!
# A worklist with a set of the visited

What is taken from the list is visited, unless it has been, and what it leads to is put on the
list. The order in which this happens does not matter for what is visited in the end.

> `visit_spec`: the loop ends, and it has visited exactly what can be reached.
-/

namespace OSimFlow.Lib.Worklist

open Relation

variable {α : Type}

/-- `y` can be reached from `x`. -/
def Reaches (next : α → List α) : α → α → Prop := ReflTransGen fun x y => y ∈ next x

theorem reaches_iff {next : α → List α} {x z : α} :
    Reaches next x z ↔ x = z ∨ ∃ y ∈ next x, Reaches next y z := by
  constructor
  · intro h
    rcases ReflTransGen.cases_head h with heq | ⟨y, hy, hrest⟩
    · exact Or.inl heq
    · exact Or.inr ⟨y, hy, hrest⟩
  · rintro (rfl | ⟨y, hy, hrest⟩)
    · exact ReflTransGen.refl
    · exact ReflTransGen.head hy hrest

variable {next : α → List α}

/-- What has been visited leads to what has been or is to be. -/
def Covered (next : α → List α) (visited pending : List α) : Prop :=
  ∀ x ∈ visited, ∀ y ∈ next x, y ∈ visited ∨ y ∈ pending

theorem Covered.reaches {visited pending : List α} (h : Covered next visited pending) {x z : α}
    (hx : x ∈ visited) (hz : Reaches next x z) :
    z ∈ visited ∨ ∃ y ∈ pending, Reaches next y z := by
  induction hz using ReflTransGen.head_induction_on with
  | refl => exact Or.inl hx
  | head hedge hrest ih =>
    rcases h _ hx _ hedge with hy | hy
    · exact ih hy
    · exact Or.inr ⟨_, hy, hrest⟩

theorem Covered.skip {visited pending : List α} {x : α}
    (h : Covered next visited (x :: pending)) (hx : x ∈ visited) :
    Covered next visited pending := by
  intro y hy z hz
  rcases h y hy z hz with hz | hz
  · exact Or.inl hz
  · rcases List.mem_cons.mp hz with rfl | hz
    · exact Or.inl hx
    · exact Or.inr hz

theorem Covered.take {visited pending : List α} {x : α}
    (h : Covered next visited (x :: pending)) :
    Covered next (x :: visited) ((next x).reverse ++ pending) := by
  intro y hy z hz
  rcases List.mem_cons.mp hy with rfl | hy
  · exact Or.inr (List.mem_append_left _ (List.mem_reverse.mpr hz))
  · rcases h y hy z hz with hz | hz
    · exact Or.inl (List.mem_cons_of_mem _ hz)
    · rcases List.mem_cons.mp hz with rfl | hz
      · exact Or.inl (List.mem_cons_self ..)
      · exact Or.inr (List.mem_append_right _ hz)

variable [DecidableEq α]

/-- The loop, with the end of the list that is taken from in front; `none` if it is not done. -/
def visit (next : α → List α) : Nat → List α → List α → Option (List α)
  | _, visited, [] => some visited
  | 0, _, _ :: _ => none
  | fuel + 1, visited, x :: pending =>
    if x ∈ visited then visit next fuel visited pending
    else visit next fuel (x :: visited) ((next x).reverse ++ pending)

/-- What is visited in the end: what was, and what can be reached from the list. -/
theorem mem_of_visit {fuel : Nat} {visited pending result : List α}
    (hcovered : Covered next visited pending)
    (h : visit next fuel visited pending = some result) (z : α) :
    z ∈ result ↔ z ∈ visited ∨ ∃ y ∈ pending, Reaches next y z := by
  induction fuel generalizing visited pending with
  | zero =>
    cases pending with
    | nil =>
      obtain rfl := Option.some.inj h
      exact (or_iff_left fun hex => by
        obtain ⟨y, hy, -⟩ := hex
        exact nomatch hy).symm
    | cons x pending => exact nomatch h
  | succ fuel ih =>
    cases pending with
    | nil =>
      obtain rfl := Option.some.inj h
      exact (or_iff_left fun hex => by
        obtain ⟨y, hy, -⟩ := hex
        exact nomatch hy).symm
    | cons x pending =>
      rw [visit] at h
      split at h
      next hx =>
        rw [ih (hcovered.skip hx) h]
        constructor
        · rintro (hz | ⟨y, hy, hyz⟩)
          · exact Or.inl hz
          · exact Or.inr ⟨y, List.mem_cons_of_mem _ hy, hyz⟩
        · rintro (hz | ⟨y, hy, hyz⟩)
          · exact Or.inl hz
          · rcases List.mem_cons.mp hy with rfl | hy
            · exact (hcovered.skip hx).reaches hx hyz
            · exact Or.inr ⟨y, hy, hyz⟩
      next hx =>
        rw [ih hcovered.take h]
        constructor
        · rintro (hz | ⟨y, hy, hyz⟩)
          · rcases List.mem_cons.mp hz with rfl | hz
            · exact Or.inr ⟨_, List.mem_cons_self .., ReflTransGen.refl⟩
            · exact Or.inl hz
          · rcases List.mem_append.mp hy with hy | hy
            · exact Or.inr ⟨x, List.mem_cons_self ..,
                ReflTransGen.head (List.mem_reverse.mp hy) hyz⟩
            · exact Or.inr ⟨y, List.mem_cons_of_mem _ hy, hyz⟩
        · rintro (hz | ⟨y, hy, hyz⟩)
          · exact Or.inl (List.mem_cons_of_mem _ hz)
          · rcases List.mem_cons.mp hy with rfl | hy
            · rcases reaches_iff.mp hyz with rfl | ⟨w, hw, hwz⟩
              · exact Or.inl (List.mem_cons_self ..)
              · exact Or.inr ⟨w, List.mem_append_left _ (List.mem_reverse.mpr hw), hwz⟩
            · exact Or.inr ⟨y, List.mem_append_right _ hy, hyz⟩

/-- Nothing is visited twice. -/
theorem nodup_of_visit {fuel : Nat} {visited pending result : List α} (hnodup : visited.Nodup)
    (h : visit next fuel visited pending = some result) : result.Nodup := by
  induction fuel generalizing visited pending with
  | zero =>
    cases pending with
    | nil => exact Option.some.inj h ▸ hnodup
    | cons x pending => exact nomatch h
  | succ fuel ih =>
    cases pending with
    | nil => exact Option.some.inj h ▸ hnodup
    | cons x pending =>
      rw [visit] at h
      split at h
      next => exact ih hnodup h
      next hx => exact ih (List.nodup_cons.mpr ⟨hx, hnodup⟩) h

/-- Every turn takes one from the list; what is put on it is put on once. -/
theorem visit_ends {nodes : Finset α} (hclosed : ∀ x ∈ nodes, ∀ y ∈ next x, y ∈ nodes)
    {fuel : Nat} {visited pending : List α} (hpending : ∀ x ∈ pending, x ∈ nodes)
    (hfuel : pending.length + ∑ x ∈ nodes \ visited.toFinset, (next x).length ≤ fuel) :
    ∃ result, visit next fuel visited pending = some result := by
  induction fuel generalizing visited pending with
  | zero =>
    cases pending with
    | nil => exact ⟨visited, rfl⟩
    | cons x pending =>
      rw [List.length_cons] at hfuel
      omega
  | succ fuel ih =>
    cases pending with
    | nil => exact ⟨visited, rfl⟩
    | cons x pending =>
      have hx := hpending x (List.mem_cons_self ..)
      have hrest : ∀ y ∈ pending, y ∈ nodes := fun y hy =>
        hpending y (List.mem_cons_of_mem _ hy)
      rw [List.length_cons] at hfuel
      rw [visit]
      split
      next => exact ih hrest (by omega)
      next hnew =>
        refine ih ?_ ?_
        · intro y hy
          rcases List.mem_append.mp hy with hy | hy
          · exact hclosed x hx y (List.mem_reverse.mp hy)
          · exact hrest y hy
        · have hleft : nodes \ (x :: visited).toFinset = (nodes \ visited.toFinset).erase x := by
            rw [List.toFinset_cons, Finset.sdiff_insert]
          have hmem : x ∈ nodes \ visited.toFinset :=
            Finset.mem_sdiff.mpr ⟨hx, fun hv => hnew (List.mem_toFinset.mp hv)⟩
          have hsplit := Finset.add_sum_erase _ (fun x => (next x).length) hmem
          rw [hleft, List.length_append, List.length_reverse]
          omega

theorem visit_spec {nodes : Finset α} (hclosed : ∀ x ∈ nodes, ∀ y ∈ next x, y ∈ nodes)
    {roots : List α} (hroots : ∀ x ∈ roots, x ∈ nodes) {fuel : Nat}
    (hfuel : roots.length + ∑ x ∈ nodes, (next x).length ≤ fuel) :
    ∃ result, visit next fuel [] roots = some result ∧ result.Nodup ∧
      ∀ z, z ∈ result ↔ ∃ x ∈ roots, Reaches next x z := by
  obtain ⟨result, hresult⟩ : ∃ result, visit next fuel [] roots = some result :=
    visit_ends hclosed hroots (by simpa using hfuel)
  refine ⟨result, hresult, nodup_of_visit List.nodup_nil hresult, fun z => ?_⟩
  rw [mem_of_visit (fun x hx => absurd hx List.not_mem_nil) hresult]
  exact or_iff_right List.not_mem_nil

end OSimFlow.Lib.Worklist
