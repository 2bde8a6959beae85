import Mathlib.Data.String.Basic

/-!
# Zero-padded numbers

`padded w n` writes a number with at least `w` digits. Different numbers are written
differently, whatever their size; in the order of strings they come in their own order
as long as they fit in `w` digits.
-/

namespace OSimFlow.Lib

/-- `f"{n:0wd}"`. -/
def padded (w n : Nat) : String := String.ofList (List.leftpad w '0' (Nat.toDigits 10 n))

theorem toList_padded (w n : Nat) :
    (padded w n).toList = List.replicate (w - (Nat.toDigits 10 n).length) '0' ++
      Nat.toDigits 10 n := by
  rw [padded, String.toList_ofList, List.leftpad]

/-- The padding does not change the value of the digits. -/
theorem ofDigitChars_padded (w n : Nat) : Nat.ofDigitChars 10 (padded w n).toList 0 = n := by
  rw [toList_padded, Nat.ofDigitChars_append, Nat.ofDigitChars_replicate_zero, Nat.mul_zero,
    Nat.ofDigitChars_ten_toDigits]

theorem padded_injective (w : Nat) : Function.Injective (padded w) := by
  intro a b h
  rw [← ofDigitChars_padded w a, h, ofDigitChars_padded]

theorem length_padded {w n : Nat} (hw : 0 < w) (hn : n < 10 ^ w) :
    (padded w n).toList.length = w := by
  have hle : (Nat.toDigits 10 n).length ≤ w :=
    (Nat.length_toDigits_le_iff (by omega) hw).mpr hn
  rw [toList_padded, List.length_append, List.length_replicate]
  omega

/-! ## The order of digits -/

/-- A character that is a digit. -/
def DigitChar (c : Char) : Prop := '0'.toNat ≤ c.toNat ∧ c.toNat ≤ '9'.toNat

theorem digitChar_padded {w n : Nat} : ∀ c ∈ (padded w n).toList, DigitChar c := by
  intro c hc
  rw [toList_padded, List.mem_append] at hc
  rcases hc with hc | hc
  · rw [(List.mem_replicate.mp hc).2]
    exact ⟨Nat.le_refl _, by decide⟩
  · have hdigit := Nat.isDigit_of_mem_toDigits (by omega) (by omega) hc
    rw [Char.isDigit, Bool.and_eq_true, decide_eq_true_iff, decide_eq_true_iff] at hdigit
    exact hdigit

theorem ofDigitChars_lt {l : List Char} (h : ∀ c ∈ l, DigitChar c) :
    Nat.ofDigitChars 10 l 0 < 10 ^ l.length := by
  induction l with
  | nil => exact Nat.zero_lt_one
  | cons c l ih =>
    have hc := h c List.mem_cons_self
    have hl := ih fun c hc => h c (List.mem_cons_of_mem _ hc)
    have h0 : '0'.toNat = 48 := rfl
    have h9 : '9'.toNat = 57 := rfl
    have hle : c.toNat - '0'.toNat ≤ 9 := by
      rw [DigitChar] at hc
      omega
    have hmul := Nat.mul_le_mul_left (10 ^ l.length) hle
    rw [Nat.ofDigitChars_cons, Nat.ofDigitChars_eq_ofDigitChars_zero, List.length_cons,
      Nat.pow_succ, Nat.mul_zero, Nat.zero_add]
    omega

/-- Of equally many digits, those that come first as strings are the smaller number. -/
theorem ofDigitChars_lt_of_lt {l l' : List Char} (hl : ∀ c ∈ l, DigitChar c)
    (hl' : ∀ c ∈ l', DigitChar c) (hlen : l.length = l'.length) (h : l < l') :
    Nat.ofDigitChars 10 l 0 < Nat.ofDigitChars 10 l' 0 := by
  induction l generalizing l' with
  | nil =>
    cases l' with
    | nil => exact absurd h (lt_irrefl _)
    | cons c l' => exact nomatch hlen
  | cons c l ih =>
    cases l' with
    | nil => exact nomatch hlen
    | cons c' l' =>
      have hlen' : l.length = l'.length := Nat.succ.inj hlen
      have hrest := ofDigitChars_lt fun x hx => hl x (List.mem_cons_of_mem c hx)
      rw [Nat.ofDigitChars_cons, Nat.ofDigitChars_cons, Nat.mul_zero, Nat.zero_add,
        Nat.zero_add, Nat.ofDigitChars_eq_ofDigitChars_zero,
        Nat.ofDigitChars_eq_ofDigitChars_zero (l := l')]
      rcases List.cons_lt_cons_iff.mp h with hlt | ⟨rfl, hlt⟩
      · -- the first digit decides
        have hc := hl c List.mem_cons_self
        have hlt' : c.toNat < c'.toNat := hlt
        have hstep : c.toNat - '0'.toNat + 1 ≤ c'.toNat - '0'.toNat := by
          rw [DigitChar] at hc
          omega
        have hmul := Nat.mul_le_mul_left (10 ^ l.length) hstep
        rw [Nat.mul_add, Nat.mul_one] at hmul
        rw [← hlen']
        omega
      · have hih := ih (fun x hx => hl x (List.mem_cons_of_mem c hx))
          (fun x hx => hl' x (List.mem_cons_of_mem c hx)) hlen' hlt
        rw [← hlen']
        omega

theorem padded_lt {w a b : Nat} (hw : 0 < w) (hb : b < 10 ^ w) (hab : a < b) :
    padded w a < padded w b := by
  rcases lt_trichotomy (padded w a) (padded w b) with hlt | heq | hgt
  · exact hlt
  · exact absurd (padded_injective w heq) (by omega)
  · have hlen : (padded w b).toList.length = (padded w a).toList.length := by
      rw [length_padded hw hb, length_padded hw (by omega)]
    have hval := ofDigitChars_lt_of_lt digitChar_padded digitChar_padded hlen
      (String.lt_iff_toList_lt.mp hgt)
    rw [ofDigitChars_padded, ofDigitChars_padded] at hval
    omega

/-- What is put around numbers of one length does not change their order. -/
theorem append_lt_append {l l' : List Char} (hlen : l.length = l'.length) (h : l < l')
    (x y : List Char) : x ++ (l ++ y) < x ++ (l' ++ y) := by
  have hright : l ++ y < l' ++ y := by
    induction l generalizing l' with
    | nil =>
      cases l' with
      | nil => exact absurd h (lt_irrefl _)
      | cons c l' => exact nomatch hlen
    | cons c l ih =>
      cases l' with
      | nil => exact nomatch hlen
      | cons c' l' =>
        rcases List.cons_lt_cons_iff.mp h with hlt | ⟨rfl, hlt⟩
        · exact List.cons_lt_cons_iff.mpr (Or.inl hlt)
        · exact List.cons_lt_cons_iff.mpr (Or.inr ⟨rfl, ih (Nat.succ.inj hlen) hlt⟩)
  induction x with
  | nil => exact hright
  | cons c x ih => exact List.cons_lt_cons_iff.mpr (Or.inr ⟨rfl, ih⟩)

end OSimFlow.Lib
