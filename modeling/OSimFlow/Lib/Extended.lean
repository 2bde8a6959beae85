import Mathlib.Algebra.Order.Field.Basic
import Mathlib.Data.List.Forall2
import Mathlib.Order.WithBot
import Mathlib.Tactic.Linarith

/-!
# Numbers with two infinities

The values of an objective function that may be missing: the elements of an
ordered field, and below and above them two infinities. Negation, adding a
number and scaling by a positive number act on them as they do on floats, and
all of them are monotone or antitone (`neg_lt_neg_iff`, `add_lt_add_iff`,
`scale_lt_scale_iff`).

A vector dominates another if it is nowhere above it and somewhere below
(`Dominates`).
-/

namespace OSimFlow.Lib

inductive Extended (K : Type) where
  | negInf
  | finite (x : K)
  | posInf
deriving DecidableEq

namespace Extended

variable {K : Type}

def toWithBot : Extended K → WithBot (WithTop K)
  | negInf => ⊥
  | finite x => ((x : WithTop K) : WithBot (WithTop K))
  | posInf => ((⊤ : WithTop K) : WithBot (WithTop K))

theorem toWithBot_injective : Function.Injective (toWithBot : Extended K → _) := by
  intro a b h
  cases a <;> cases b <;>
    simp_all [toWithBot, -WithBot.coe_top, -WithBot.coe_eq_top, -WithBot.top_eq_coe]

section
variable [LinearOrder K]

instance : LinearOrder (Extended K) := LinearOrder.lift' toWithBot toWithBot_injective

theorem lt_def {a b : Extended K} : a < b ↔ a.toWithBot < b.toWithBot := Iff.rfl

@[simp] theorem finite_lt_finite {x y : K} : finite x < finite y ↔ x < y := by
  simp [lt_def, toWithBot]

@[simp] theorem finite_lt_posInf (x : K) : finite x < posInf :=
  WithBot.coe_lt_coe.mpr (WithTop.coe_lt_top x)

@[simp] theorem negInf_lt_finite (x : K) : (negInf : Extended K) < finite x := by
  simp [lt_def, toWithBot]

@[simp] theorem negInf_lt_posInf : (negInf : Extended K) < posInf := by
  simp [lt_def, toWithBot]

@[simp] theorem not_lt_negInf (a : Extended K) : ¬ a < negInf := by
  simp [lt_def, toWithBot]

@[simp] theorem not_posInf_lt (a : Extended K) : ¬ posInf < a := by
  cases a <;> simp [lt_def, toWithBot]

theorem ne_posInf_iff {x : Extended K} : x ≠ .posInf ↔ x < .posInf := by
  cases x <;> simp

end

section
variable [Field K]

/-- `-v`. -/
def neg : Extended K → Extended K
  | negInf => posInf
  | finite x => finite (-x)
  | posInf => negInf

/-- `v + c`. -/
def add (v : Extended K) (c : K) : Extended K :=
  match v with
  | negInf => negInf
  | finite x => finite (x + c)
  | posInf => posInf

/-- `v * w`, for a positive `w`. -/
def scale (v : Extended K) (w : K) : Extended K :=
  match v with
  | negInf => negInf
  | finite x => finite (x * w)
  | posInf => posInf

/-- To add after the sign is turned is to subtract before. -/
theorem neg_add_eq (v : Extended K) (c : K) : v.neg.add c = (v.add (-c)).neg := by
  cases v with
  | finite x =>
    show Extended.finite (-x + c) = .finite (-(x + -c))
    rw [neg_add, neg_neg]
  | negInf => rfl
  | posInf => rfl

theorem add_zero_eq (v : Extended K) : v.add 0 = v := by
  cases v with
  | finite x => exact congrArg Extended.finite (add_zero x)
  | negInf => rfl
  | posInf => rfl

variable [LinearOrder K] [IsStrictOrderedRing K]

@[simp] theorem neg_lt_neg_iff {a b : Extended K} : a.neg < b.neg ↔ b < a := by
  cases a <;> cases b <;> simp [neg]

@[simp] theorem add_lt_add_iff {a b : Extended K} {c : K} : a.add c < b.add c ↔ a < b := by
  cases a <;> cases b <;> simp [add]

theorem scale_lt_scale_iff {a b : Extended K} {w : K} (hw : 0 < w) :
    a.scale w < b.scale w ↔ a < b := by
  cases a <;> cases b <;> simp [scale, mul_lt_mul_iff_left₀ hw]

end

end Extended

section
variable {α ι : Type} [LinearOrder α]

/-- Nowhere above, and somewhere below. -/
def Dominates (a b : List α) : Prop :=
  List.Forall₂ (fun x y => x ≤ y) a b ∧ ∃ pair ∈ a.zip b, pair.1 < pair.2

/-- Dominance between the values of two functions. -/
theorem dominates_map_iff {f g : ι → α} {l : List ι} :
    Dominates (l.map f) (l.map g) ↔ (∀ i ∈ l, f i ≤ g i) ∧ ∃ i ∈ l, f i < g i := by
  have hall : List.Forall₂ (fun x y => x ≤ y) (l.map f) (l.map g) ↔ ∀ i ∈ l, f i ≤ g i := by
    rw [List.forall₂_map_left_iff, List.forall₂_map_right_iff, List.forall₂_same]
  have hex : (∃ pair ∈ (l.map f).zip (l.map g), pair.1 < pair.2) ↔ ∃ i ∈ l, f i < g i := by
    rw [List.zip_map']
    constructor
    · intro h
      obtain ⟨pair, hp, hlt⟩ := h
      obtain ⟨i, hi, rfl⟩ := List.mem_map.mp hp
      exact ⟨i, hi, hlt⟩
    · intro h
      obtain ⟨i, hi, hlt⟩ := h
      exact ⟨(f i, g i), List.mem_map.mpr ⟨i, hi, rfl⟩, hlt⟩
  rw [Dominates, hall, hex]

/-- One column dominates as it is strictly less. -/
theorem dominates_of_length_one {f g : ι → α} {l : List ι}
    (h : l.length = 1) : Dominates (l.map f) (l.map g) ↔ ∀ i ∈ l, f i < g i := by
  obtain ⟨i, rfl⟩ := List.length_eq_one_iff.mp h
  rw [dominates_map_iff]
  simp only [List.mem_singleton, forall_eq, exists_eq_left]
  constructor
  · intro h
    exact h.2
  · intro h
    exact ⟨le_of_lt h, h⟩

/-- What is not dominated is strictly less somewhere, or nowhere above. -/
theorem not_dominates_iff {f g : ι → α} {l : List ι} :
    ¬ Dominates (l.map g) (l.map f) ↔ (∃ i ∈ l, f i < g i) ∨ ∀ i ∈ l, ¬ g i < f i := by
  rw [dominates_map_iff, not_and_or]
  constructor
  · intro h
    rcases h with h | h
    · left
      push Not at h
      exact h
    · right
      intro i hi hlt
      exact h ⟨i, hi, hlt⟩
  · intro h
    rcases h with ⟨i, hi, hlt⟩ | h
    · left
      intro hall
      exact absurd hlt (not_lt.mpr (hall i hi))
    · right
      intro hex
      obtain ⟨i, hi, hlt⟩ := hex
      exact h i hi hlt

end

end OSimFlow.Lib
