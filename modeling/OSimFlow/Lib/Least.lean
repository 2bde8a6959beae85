import Mathlib.Data.List.Sort
import Mathlib.Order.Defs.LinearOrder

/-!
# The first of the least elements, and the least few

What a loop keeps that replaces its best element by a strictly better one, what the front
of a sorted list is, and which of two elements a stable sort puts first.
-/

namespace OSimFlow.Lib

variable {α β : Type} [LinearOrder β] {key : α → β}

/-- `a` is the first element of `l` with the least key. -/
def FirstLeast (key : α → β) (l : List α) (a : α) : Prop :=
  ∃ before after, l = before ++ a :: after ∧ (∀ x ∈ before, key a < key x) ∧
    ∀ x ∈ after, key a ≤ key x

theorem FirstLeast.mem {l : List α} {a : α} (h : FirstLeast key l a) : a ∈ l := by
  obtain ⟨before, after, rfl, _, _⟩ := h
  exact List.mem_append_right before List.mem_cons_self

theorem FirstLeast.le {l : List α} {a : α} (h : FirstLeast key l a) :
    ∀ x ∈ l, key a ≤ key x := by
  obtain ⟨before, after, rfl, hbefore, hafter⟩ := h
  intro x hx
  rcases List.mem_append.mp hx with hx | hx
  · exact le_of_lt (hbefore x hx)
  · rcases List.mem_cons.mp hx with rfl | hx
    · exact le_refl _
    · exact hafter x hx

theorem FirstLeast.concat {l : List α} {a x : α} (h : FirstLeast key l a)
    (hx : key a ≤ key x) : FirstLeast key (l ++ [x]) a := by
  obtain ⟨before, after, rfl, hbefore, hafter⟩ := h
  refine ⟨before, after ++ [x], by rw [List.append_assoc, List.cons_append], hbefore, ?_⟩
  intro y hy
  rcases List.mem_append.mp hy with hy | hy
  · exact hafter y hy
  · rw [List.mem_singleton.mp hy]
    exact hx

theorem firstLeast_concat_self {l : List α} {x : α} (h : ∀ y ∈ l, key x < key y) :
    FirstLeast key (l ++ [x]) x :=
  ⟨l, [], rfl, h, fun _ hy => nomatch hy⟩

/-- The first least element of a list is carried along by a function of it. -/
theorem FirstLeast.map {γ : Type} (key : γ → β) (f : α → γ) {l : List α} {a : α}
    (h : FirstLeast (fun x => key (f x)) l a) : FirstLeast key (l.map f) (f a) := by
  obtain ⟨before, after, rfl, hbefore, hafter⟩ := h
  refine ⟨before.map f, after.map f, by rw [List.map_append, List.map_cons], ?_, ?_⟩
  · intro y hy
    obtain ⟨x, hx, rfl⟩ := List.mem_map.mp hy
    exact hbefore x hx
  · intro y hy
    obtain ⟨x, hx, rfl⟩ := List.mem_map.mp hy
    exact hafter x hx

theorem FirstLeast.unique {l : List α} {a b : α} (ha : FirstLeast key l a)
    (hb : FirstLeast key l b) : a = b := by
  have hab := ha.le b hb.mem
  have hba := hb.le a ha.mem
  obtain ⟨before, after, hl, hbefore, _⟩ := ha
  obtain ⟨before', after', hl', hbefore', _⟩ := hb
  rcases List.append_eq_append_iff.mp (hl.symm.trans hl') with ⟨m, hm, hrest⟩ | ⟨m, hm, hrest⟩
  · cases m with
    | nil => exact (List.cons.inj hrest).1
    | cons y m =>
      have hay : a = y := (List.cons.inj hrest).1
      have := hbefore' a (by rw [hm, hay]; exact List.mem_append_right _ List.mem_cons_self)
      exact absurd hab (not_le.mpr this)
  · cases m with
    | nil => exact (List.cons.inj hrest).1.symm
    | cons y m =>
      have hby : b = y := (List.cons.inj hrest).1
      have := hbefore b (by rw [hm, hby]; exact List.mem_append_right _ List.mem_cons_self)
      exact absurd hba (not_le.mpr this)

section

variable (r : α → α → Prop) [DecidableRel r] [Std.Total r] [IsTrans α r]

/-- The front of a sorted list stands before what is behind it. -/
theorem rel_take_drop_insertionSort (l : List α) (n : Nat) :
    ∀ a ∈ (l.insertionSort r).take n, ∀ b ∈ (l.insertionSort r).drop n, r a b := by
  have hsorted := List.pairwise_insertionSort r l
  rw [← List.take_append_drop n (l.insertionSort r)] at hsorted
  exact (List.pairwise_append.mp hsorted).2.2

omit [Std.Total r] [IsTrans α r] in
theorem perm_take_drop_insertionSort (l : List α) (n : Nat) :
    l.Perm ((l.insertionSort r).take n ++ (l.insertionSort r).drop n) := by
  rw [List.take_append_drop]
  exact (List.perm_insertionSort r l).symm

omit [Std.Total r] in
theorem pairwise_orderedInsert_iff {R : α → α → Prop} {a : α} {l : List α}
    (hl : l.Pairwise r) :
    (l.orderedInsert r a).Pairwise R ↔
      l.Pairwise R ∧ ∀ b ∈ l, (r a b → R a b) ∧ (¬ r a b → R b a) := by
  induction l with
  | nil => simp
  | cons b l ih =>
    obtain ⟨hb, hl⟩ := List.pairwise_cons.mp hl
    by_cases hab : r a b
    · -- what stands behind `b` stands behind `a`
      have hall : ∀ c ∈ b :: l, r a c := by
        intro c hc
        rcases List.mem_cons.mp hc with rfl | hc
        · exact hab
        · exact trans_of r hab (hb c hc)
      rw [List.orderedInsert_cons_of_le r l hab, List.pairwise_cons, and_comm]
      refine and_congr_right fun _ => forall₂_congr fun c hc => ?_
      exact ⟨fun h => ⟨fun _ => h, fun hn => absurd (hall c hc) hn⟩, fun h => h.1 (hall c hc)⟩
    · rw [List.orderedInsert_of_not_le r l hab, List.pairwise_cons, List.pairwise_cons, ih hl]
      simp only [List.mem_orderedInsert, List.mem_cons, forall_eq_or_imp]
      have hba : ((r a b → R a b) ∧ (¬ r a b → R b a)) ↔ R b a :=
        ⟨fun h => h.2 hab, fun h => ⟨fun hr => absurd hr hab, fun _ => h⟩⟩
      rw [hba]
      tauto

/-- A stable sort puts two elements in an order that only depends on their keys and on which
of them came first. -/
theorem pairwise_insertionSort_iff {R : α → α → Prop} {l : List α} :
    (l.insertionSort r).Pairwise R ↔
      l.Pairwise fun a b => (r a b → R a b) ∧ (¬ r a b → R b a) := by
  induction l with
  | nil => exact iff_of_true List.Pairwise.nil List.Pairwise.nil
  | cons a l ih =>
    rw [List.insertionSort_cons, pairwise_orderedInsert_iff r
      (List.pairwise_insertionSort r l), List.pairwise_cons, ih, and_comm]
    refine and_congr_left fun _ => forall_congr' fun b => ?_
    rw [List.mem_insertionSort]

end

end OSimFlow.Lib
