import Mathlib.Algebra.Order.Field.Basic
import Mathlib.Data.Nat.Cast.Order.Ring
import Mathlib.Tactic.Linarith
import Mathlib.Tactic.Ring

/-!
# A bucket that fills at a rate

A bucket holds at most `cap` and gains `rate` in a unit of time. What it holds is settled
when somebody looks: `refill` brings it up to an instant, `take` removes one.

> `levelAt_refill`: looking in between changes nothing.
>
> `Paid.bound`: what was taken in a stretch of time is at most the capacity and what
> the rate gives in it.

The account behind the second is `Paid`: everything taken since an instant was in the bucket
then or has flowed in since, and is not in it any more.
-/

namespace OSimFlow.Lib

/-- What is in it, as of an instant. -/
structure Bucket (K : Type) where
  level : K
  asOf : K

namespace Bucket

variable {K : Type} [Field K] [LinearOrder K] [IsStrictOrderedRing K]

section
variable (cap rate : K)

/-- What is in the bucket at `now`, if nobody takes anything before. -/
def levelAt (b : Bucket K) (now : K) : K :=
  min cap (b.level + (now - b.asOf) * rate)

def refill (b : Bucket K) (now : K) : Bucket K :=
  ⟨b.levelAt cap rate now, now⟩

/-- One less, for a bucket that holds one. -/
def take (b : Bucket K) : Bucket K :=
  ⟨b.level - 1, b.asOf⟩

end

variable {cap rate : K}

theorem levelAt_refill (hrate : 0 ≤ rate) (b : Bucket K) {now later : K} (h : now ≤ later) :
    (b.refill cap rate now).levelAt cap rate later = b.levelAt cap rate later := by
  have hgain : 0 ≤ (later - now) * rate := mul_nonneg (by linarith) hrate
  have hsum : b.level + (now - b.asOf) * rate + (later - now) * rate =
      b.level + (later - b.asOf) * rate := by
    ring
  unfold refill levelAt
  rw [← min_add_add_right, hsum, ← min_assoc, min_eq_left (by linarith : cap ≤ cap + _)]

omit [IsStrictOrderedRing K] in
theorem levelAt_le (b : Bucket K) (now : K) : b.levelAt cap rate now ≤ cap :=
  min_le_left _ _

theorem levelAt_nonneg (hcap : 0 ≤ cap) (hrate : 0 ≤ rate) {b : Bucket K} (hb : 0 ≤ b.level)
    {now : K} (h : b.asOf ≤ now) : 0 ≤ b.levelAt cap rate now := by
  have hgain : 0 ≤ (now - b.asOf) * rate := mul_nonneg (by linarith) hrate
  exact le_min hcap (by linarith)

/-- A bucket that holds less than `x` at `now` holds it from `(x - level) / rate` on, and
not before. -/
theorem le_levelAt_iff (hrate : 0 < rate) {b : Bucket K} {x now later : K} (hx : x ≤ cap)
    (hlow : b.levelAt cap rate now < x) :
    x ≤ b.levelAt cap rate later ↔ now + (x - b.levelAt cap rate now) / rate ≤ later := by
  have heq : b.levelAt cap rate now = b.level + (now - b.asOf) * rate := by
    unfold levelAt at hlow ⊢
    refine min_eq_right (le_of_lt ?_)
    rcases min_lt_iff.mp hlow with hcap | hlevel
    · exact absurd (lt_of_le_of_lt hx hcap) (lt_irrefl x)
    · exact lt_of_lt_of_le hlevel hx
  rw [heq, ← le_sub_iff_add_le', div_le_iff₀ hrate]
  unfold levelAt
  rw [le_min_iff]
  constructor
  · intro h
    linarith [h.2]
  · intro h
    exact ⟨hx, by linarith⟩

/-- The account of what was taken, at the instants `taken`. -/
structure Paid (cap rate : K) (b : Bucket K) (taken : List K) : Prop where
  past : ∀ t ∈ taken, t ≤ b.asOf
  level_nonneg : 0 ≤ b.level
  level_le : b.level ≤ cap
  owed : ∀ s ≤ b.asOf,
    ((taken.countP fun t => decide (s ≤ t) : Nat) : K) + b.level ≤ cap + rate * (b.asOf - s)
  bound : ∀ s T, 0 ≤ T →
    ((taken.countP fun t => decide (s ≤ t ∧ t ≤ s + T) : Nat) : K) ≤ cap + rate * T

theorem Paid.start (hcap : 0 ≤ cap) (hrate : 0 ≤ rate) (now : K) :
    Paid cap rate ⟨cap, now⟩ [] where
  past := fun _ ht => nomatch ht
  level_nonneg := hcap
  level_le := le_refl cap
  owed := fun s hs => by
    have hgain : 0 ≤ rate * (now - s) := mul_nonneg hrate (sub_nonneg.mpr hs)
    simpa using hgain
  bound := fun s T hT => by
    have hgain : 0 ≤ rate * T := mul_nonneg hrate hT
    simpa using add_nonneg hcap hgain

theorem Paid.refill (hrate : 0 ≤ rate) {b : Bucket K} {taken : List K}
    (h : Paid cap rate b taken) {now : K} (hnow : b.asOf ≤ now) :
    Paid cap rate (b.refill cap rate now) taken where
  past := fun t ht => (h.past t ht).trans hnow
  level_nonneg :=
    levelAt_nonneg (h.level_nonneg.trans h.level_le) hrate h.level_nonneg hnow
  level_le := levelAt_le b now
  owed := fun s hs => by
    rcases le_or_gt s b.asOf with hpast | hnew
    · have howed := h.owed s hpast
      have hlevel : b.levelAt cap rate now ≤ b.level + (now - b.asOf) * rate := min_le_right _ _
      show _ + b.levelAt cap rate now ≤ cap + rate * (now - s)
      linarith
    · -- nothing was taken since `s`
      have hnone : (taken.countP fun t => decide (s ≤ t)) = 0 := by
        rw [List.countP_eq_zero]
        intro t ht
        have hle := h.past t ht
        simpa using lt_of_le_of_lt hle hnew
      have hgain : 0 ≤ rate * (now - s) := mul_nonneg hrate (sub_nonneg.mpr hs)
      rw [hnone]
      show ((0 : Nat) : K) + b.levelAt cap rate now ≤ cap + rate * (now - s)
      have hle : b.levelAt cap rate now ≤ cap := levelAt_le b now
      rw [Nat.cast_zero]
      linarith
  bound := h.bound

theorem Paid.take (hrate : 0 ≤ rate) {b : Bucket K} {taken : List K}
    (h : Paid cap rate b taken) (hone : 1 ≤ b.level) :
    Paid cap rate b.take (b.asOf :: taken) where
  past := fun t ht => by
    rcases List.mem_cons.mp ht with rfl | ht
    · exact le_refl _
    · exact h.past t ht
  level_nonneg := by
    show 0 ≤ b.level - 1
    linarith
  level_le := by
    show b.level - 1 ≤ cap
    linarith [h.level_le]
  owed := fun s hs => by
    have howed := h.owed s hs
    have hs' : s ≤ b.asOf := hs
    rw [List.countP_cons_of_pos (by simpa using hs')]
    show ((_ + 1 : Nat) : K) + (b.level - 1) ≤ cap + rate * (b.asOf - s)
    rw [Nat.cast_succ]
    linarith
  bound := fun s T hT => by
    rcases em (s ≤ b.asOf ∧ b.asOf ≤ s + T) with hin | hout
    · rw [List.countP_cons_of_pos (by simpa using hin), Nat.cast_succ]
      have howed := h.owed s hin.1
      have hfewer : (taken.countP fun t => decide (s ≤ t ∧ t ≤ s + T)) ≤
          taken.countP fun t => decide (s ≤ t) := by
        refine List.countP_mono_left fun t _ ht => ?_
        simp only [decide_eq_true_eq] at ht ⊢
        exact ht.1
      have hcast : ((taken.countP fun t => decide (s ≤ t ∧ t ≤ s + T) : Nat) : K) ≤
          ((taken.countP fun t => decide (s ≤ t) : Nat) : K) := Nat.cast_le.mpr hfewer
      have hspan : rate * (b.asOf - s) ≤ rate * T :=
        mul_le_mul_of_nonneg_left (by linarith [hin.2]) hrate
      linarith
    · rw [List.countP_cons_of_neg (by simpa using hout)]
      exact h.bound s T hT

end Bucket

end OSimFlow.Lib
