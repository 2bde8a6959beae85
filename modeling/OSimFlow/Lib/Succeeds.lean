import Mathlib.Data.List.Forall2
import Mathlib.Data.Option.Basic

/-!
# Computations that succeed

`Succeeds x P`: the computation `x`, which may raise, does not, and its value has the
property `P`. One rule for each way to put computations together; for the loops an
invariant.

At the end, what can be said of a list that has been read to the end.
-/

namespace OSimFlow.Lib

variable {ε α β : Type}

/-- `x` returns a value with `P`. -/
def Succeeds (x : Except ε α) (P : α → Prop) : Prop :=
  ∃ a, x = .ok a ∧ P a

theorem succeeds_ok {P : α → Prop} {a : α} (h : P a) : Succeeds (.ok a : Except ε α) P :=
  ⟨a, rfl, h⟩

theorem Succeeds.mono {P Q : α → Prop} {x : Except ε α} (h : Succeeds x P)
    (hPQ : ∀ a, P a → Q a) : Succeeds x Q := by
  obtain ⟨a, hx, ha⟩ := h
  exact ⟨a, hx, hPQ a ha⟩

theorem Succeeds.bind {P : α → Prop} {Q : β → Prop} {x : Except ε α} {f : α → Except ε β}
    (h : Succeeds x P) (hf : ∀ a, P a → Succeeds (f a) Q) : Succeeds (x >>= f) Q := by
  obtain ⟨a, hx, ha⟩ := h
  rw [hx]
  exact hf a ha

/-- A computation that returned did so step by step. -/
theorem bind_eq_ok {x : Except ε α} {f : α → Except ε β} {b : β} :
    x >>= f = .ok b ↔ ∃ a, x = .ok a ∧ f a = .ok b := by
  cases x with
  | error e =>
    refine ⟨fun h => ?_, fun h => ?_⟩
    · exact nomatch h
    · obtain ⟨_, h, _⟩ := h
      exact nomatch h
  | ok a =>
    refine ⟨fun h => ⟨a, rfl, h⟩, fun h => ?_⟩
    obtain ⟨a', ha, h⟩ := h
    cases ha
    exact h

/-- Every element is read: the list of the results, in order. -/
theorem succeeds_mapM {f : α → Except ε β} {P : α → β → Prop} :
    ∀ {l : List α}, (∀ a ∈ l, Succeeds (f a) (P a)) →
      Succeeds (l.mapM f) fun r => List.Forall₂ P l r
  | [], _ => ⟨[], rfl, List.Forall₂.nil⟩
  | a :: l, h => by
    rw [List.mapM_cons]
    refine (h a List.mem_cons_self).bind fun b hb => ?_
    refine (succeeds_mapM fun x hx => h x (List.mem_cons_of_mem a hx)).bind fun bs hbs => ?_
    exact succeeds_ok (List.Forall₂.cons hb hbs)

/-- The same with a property of the results alone. -/
theorem succeeds_mapM_all {f : α → Except ε β} {P : β → Prop} {l : List α}
    (h : ∀ a ∈ l, Succeeds (f a) P) :
    Succeeds (l.mapM f) fun r => r.length = l.length ∧ ∀ b ∈ r, P b := by
  refine (succeeds_mapM h).mono fun r hr => ⟨hr.length_eq.symm, ?_⟩
  induction hr with
  | nil => exact fun _ hb => nomatch hb
  | cons hab _ ih =>
    intro b hb
    rcases List.mem_cons.mp hb with rfl | hb
    · exact hab
    · exact ih (fun a ha => h a (List.mem_cons_of_mem _ ha)) b hb

theorem mapM_ok_of_forall {f : α → Except ε β} {g : α → β} :
    ∀ {l : List α}, (∀ a ∈ l, f a = .ok (g a)) → l.mapM f = .ok (l.map g)
  | [], _ => rfl
  | a :: l, h => by
    rw [List.mapM_cons, h a List.mem_cons_self,
      mapM_ok_of_forall fun x hx => h x (List.mem_cons_of_mem a hx)]
    rfl

/-- A list that is read to the end has been read element by element. -/
theorem forall₂_of_mapM_ok {E : Type} {f : α → Except E β} :
    ∀ {l : List α} {r : List β}, l.mapM f = .ok r → List.Forall₂ (fun x y => f x = .ok y) l r
  | [], r, h => by
    cases h
    exact List.Forall₂.nil
  | a :: l, r, h => by
    rw [List.mapM_cons] at h
    cases ha : f a with
    | error e => rw [ha] at h; exact nomatch h
    | ok b =>
      cases hl : l.mapM f with
      | error e => rw [ha, hl] at h; exact nomatch h
      | ok bs =>
        rw [ha, hl] at h
        cases h
        exact List.Forall₂.cons ha (forall₂_of_mapM_ok hl)

theorem exists_of_forall₂ {R : α → β → Prop} {l : List α} {r : List β}
    (h : List.Forall₂ R l r) : ∀ x ∈ l, ∃ y ∈ r, R x y := by
  induction h with
  | nil => exact fun _ hx => nomatch hx
  | cons hab _ ih =>
    intro x hx
    rcases List.mem_cons.mp hx with rfl | hx
    · exact ⟨_, List.mem_cons_self, hab⟩
    · obtain ⟨y, hy, hxy⟩ := ih x hx
      exact ⟨y, List.mem_cons_of_mem _ hy, hxy⟩

theorem mapM_ok_mem {α β E : Type} {f : α → Except E β} {l : List α} {r : List β}
    (h : l.mapM f = .ok r) : ∀ y ∈ r, ∃ x ∈ l, f x = .ok y :=
  exists_of_forall₂ (forall₂_of_mapM_ok h).flip

/-- A list that is read to the end is the list of the values. -/
theorem mapM_ok_eq_map {α β E : Type} {f : α → Except E β} {g : α → β} {l : List α} {r : List β}
    (h : l.mapM f = .ok r) (hg : ∀ x y, f x = .ok y → g x = y) : r = l.map g := by
  have hall : List.Forall₂ (fun x y => g x = y) l r :=
    (forall₂_of_mapM_ok h).imp fun x y hxy => hg x y hxy
  rw [← List.forall₂_map_left_iff, List.forall₂_eq_eq_eq] at hall
  exact hall.symm

/-! ## Conversions that may give nothing -/

theorem mapM_eq_some_iff {f : α → Option β} {l : List α} {r : List β} :
    l.mapM f = some r ↔ l.map f = r.map some := by
  induction l generalizing r with
  | nil =>
    rw [List.mapM_nil]
    cases r with
    | nil => exact iff_of_true rfl rfl
    | cons y r => exact iff_of_false (fun h => nomatch h) (fun h => nomatch h)
  | cons x l ih =>
    rw [List.mapM_cons, List.map_cons]
    cases hx : f x with
    | none =>
      cases r with
      | nil => exact iff_of_false (fun h => nomatch h) (fun h => nomatch h)
      | cons y r => exact iff_of_false (fun h => nomatch h) (fun h => nomatch h)
    | some y =>
      cases hl : l.mapM f with
      | none =>
        refine iff_of_false (fun h => nomatch h) fun h => ?_
        cases r with
        | nil => exact nomatch h
        | cons z r => exact nomatch hl.symm.trans (ih.mpr (List.cons.inj h).2)
      | some ys =>
        have hys := ih.mp hl
        show some (y :: ys) = some r ↔ some y :: l.map f = r.map some
        rw [hys, Option.some_inj, ← List.map_cons]
        exact (List.map_injective_iff.mpr (Option.some_injective β)).eq_iff.symm

/-- All of a list converts, or nothing does. -/
theorem mapM_eq_filterMap {f : α → Option β} {l : List α} {r : List β} :
    l.mapM f = some r ↔ (∀ x ∈ l, (f x).isSome) ∧ r = l.filterMap f := by
  rw [mapM_eq_some_iff]
  constructor
  · intro h
    refine ⟨fun x hx => ?_, ?_⟩
    · have hmem : f x ∈ r.map some := h ▸ List.mem_map_of_mem hx
      obtain ⟨y, _, hy⟩ := List.mem_map.mp hmem
      rw [← hy]
      rfl
    · have hid : (r.map some).filterMap id = r := by
        rw [List.filterMap_map]
        exact List.filterMap_some
      rw [← hid, ← h, List.filterMap_map]
      rfl
  · intro ⟨hall, hr⟩
    rw [hr, List.map_filterMap]
    induction l generalizing r with
    | nil => rfl
    | cons x l ih =>
      obtain ⟨y, hy⟩ := Option.isSome_iff_exists.mp (hall x List.mem_cons_self)
      rw [List.map_cons, List.filterMap_cons, hy]
      exact congrArg (some y :: ·) (ih (fun z hz => hall z (List.mem_cons_of_mem x hz)) rfl)

end OSimFlow.Lib
