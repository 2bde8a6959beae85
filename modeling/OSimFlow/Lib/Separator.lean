import Mathlib

/-!
# Reading a string at a separator

Components joined by a separator can be told apart when they do not contain it;
a number written in digits contains no other character.
-/

namespace OSimFlow.Lib

/-- What stands before the first separator is determined. -/
theorem append_sep_inj {α : Type} {sep : α} {s t x y : List α} (hs : sep ∉ s) (ht : sep ∉ t)
    (h : s ++ sep :: x = t ++ sep :: y) : s = t ∧ x = y := by
  induction s generalizing t with
  | nil =>
    cases t with
    | nil =>
      injection h with _ hx
      exact ⟨rfl, hx⟩
    | cons c t =>
      injection h with hc _
      exact absurd (hc ▸ List.mem_cons_self) ht
  | cons c s ih =>
    cases t with
    | nil =>
      injection h with hc _
      exact absurd (hc ▸ List.mem_cons_self) hs
    | cons c' t =>
      injection h with hc hrest
      obtain ⟨rfl, rfl⟩ := ih (fun hm => hs (List.mem_cons_of_mem c hm))
        (fun hm => ht (List.mem_cons_of_mem c' hm)) hrest
      exact ⟨by rw [hc], rfl⟩

/-- Two ways to read one string at a separator are the same, or one goes on behind the other. -/
theorem append_sep_eq_iff {α : Type} {sep : α} {s t x y : List α} :
    s ++ sep :: x = t ++ sep :: y ↔ (s = t ∧ x = y) ∨
      (∃ z, t = s ++ sep :: z ∧ x = z ++ sep :: y) ∨ ∃ z, s = t ++ sep :: z ∧ y = z ++ sep :: x := by
  constructor
  · intro h
    rcases List.append_eq_append_iff.mp h with ⟨z, ht, hx⟩ | ⟨z, hs, hy⟩
    · cases z with
      | nil =>
        injection hx with _ hx
        exact Or.inl ⟨by rw [ht, List.append_nil], hx⟩
      | cons c z =>
        injection hx with hc hx
        exact Or.inr (Or.inl ⟨z, by rw [ht, hc], hx⟩)
    · cases z with
      | nil =>
        injection hy with _ hy
        exact Or.inl ⟨by rw [hs, List.append_nil], hy.symm⟩
      | cons c z =>
        injection hy with hc hy
        exact Or.inr (Or.inr ⟨z, by rw [hs, hc], hy⟩)
  · intro h
    rcases h with ⟨rfl, rfl⟩ | ⟨z, rfl, rfl⟩ | ⟨z, rfl, rfl⟩
    · rfl
    · simp
    · simp

/-- The same of texts. -/
theorem append_char_eq_iff (sep : Char) (s t x y : String) :
    s ++ String.singleton sep ++ x = t ++ String.singleton sep ++ y ↔ (s = t ∧ x = y) ∨
      (∃ z, t = s ++ String.singleton sep ++ z ∧ x = z ++ String.singleton sep ++ y) ∨
      ∃ z, s = t ++ String.singleton sep ++ z ∧ y = z ++ String.singleton sep ++ x := by
  have hback : ∀ a b c d : String,
      (∃ z, b = a ++ String.singleton sep ++ z ∧ c = z ++ String.singleton sep ++ d) ↔
        ∃ z, b.toList = a.toList ++ sep :: z ∧ c.toList = z ++ sep :: d.toList := by
    intro a b c d
    constructor
    · intro h
      obtain ⟨z, rfl, rfl⟩ := h
      exact ⟨z.toList, by simp, by simp⟩
    · intro h
      obtain ⟨z, hb, hc⟩ := h
      exact ⟨String.ofList z, String.toList_inj.mp (by simp [hb]),
        String.toList_inj.mp (by simp [hc])⟩
  rw [hback, hback, ← String.toList_inj, ← String.toList_inj, ← String.toList_inj,
    ← append_sep_eq_iff]
  simp

/-- No text goes on behind itself. -/
theorem ne_append_char (sep : Char) (s x : String) : s ≠ s ++ String.singleton sep ++ x := by
  intro h
  have hlength := congrArg String.length h
  rw [String.length_append, String.length_append, String.length_singleton] at hlength
  omega

/-- What is joined behind something joined is joined to it by a separator. -/
theorem intercalate_append {α : Type} {sep : α} {a b : List (List α)} (ha : a ≠ []) (hb : b ≠ []) :
    [sep].intercalate (a ++ b) = [sep].intercalate a ++ sep :: [sep].intercalate b := by
  induction a with
  | nil => exact absurd rfl ha
  | cons s a ih =>
    cases a with
    | nil =>
      show [sep].intercalate (s :: b) = [sep].intercalate [s] ++ sep :: [sep].intercalate b
      rw [List.intercalate_cons_of_ne_nil hb, List.intercalate_singleton, List.append_assoc]
      rfl
    | cons t a =>
      have hrest := ih (List.cons_ne_nil t a)
      show [sep].intercalate (s :: (t :: a ++ b)) = [sep].intercalate (s :: t :: a) ++ _
      rw [List.intercalate_cons_of_ne_nil (List.append_ne_nil_of_left_ne_nil
        (List.cons_ne_nil t a) b), List.intercalate_cons_of_ne_nil (List.cons_ne_nil t a), hrest]
      simp only [List.append_assoc]

/-- Two components that both end at a separator in one string are the same, or one
begins the other, separator included. -/
theorem sep_comparable {α : Type} {sep : α} {x y l : List α} (hx : x ++ [sep] <+: l)
    (hy : y ++ [sep] <+: l) : x = y ∨ x ++ [sep] <+: y ∨ y ++ [sep] <+: x := by
  have hx' : x <+: l := (List.prefix_append x [sep]).trans hx
  have hy' : y <+: l := (List.prefix_append y [sep]).trans hy
  rcases Nat.lt_trichotomy x.length y.length with hlt | heq | hgt
  · refine Or.inr (Or.inl (List.prefix_of_prefix_length_le hx hy' ?_))
    rw [List.length_append, List.length_singleton]
    omega
  · exact Or.inl ((List.prefix_of_prefix_length_le hx' hy' (Nat.le_of_eq heq)).eq_of_length heq)
  · refine Or.inr (Or.inr (List.prefix_of_prefix_length_le hy hx' ?_))
    rw [List.length_append, List.length_singleton]
    omega

/-- A component has no separator in it. -/
theorem notMem_of_mem_splitOn {α : Type} [BEq α] [LawfulBEq α] {sep : α} :
    ∀ {l s : List α}, s ∈ l.splitOn sep → sep ∉ s
  | [], s, hs => by
    rw [List.splitOn_nil, List.mem_singleton] at hs
    rw [hs]
    exact List.not_mem_nil
  | c :: l, s, hs => by
    rw [List.splitOn_cons_eq_if_modifyHead] at hs
    split at hs
    next =>
      rcases List.mem_cons.mp hs with rfl | htail
      · exact List.not_mem_nil
      · exact notMem_of_mem_splitOn htail
    next hc =>
      obtain ⟨first, rest, hsplit⟩ := List.exists_cons_of_ne_nil (List.splitOn_ne_nil sep l)
      have hall : ∀ t ∈ first :: rest, sep ∉ t := by
        intro t ht
        rw [← hsplit] at ht
        exact notMem_of_mem_splitOn ht
      rw [hsplit, List.modifyHead_cons] at hs
      rcases List.mem_cons.mp hs with rfl | htail
      · intro hmem
        rcases List.mem_cons.mp hmem with heq | hmem
        · exact hc (beq_iff_eq.mpr heq.symm)
        · exact hall first List.mem_cons_self hmem
      · exact hall s (List.mem_cons_of_mem first htail)

/-- A number is written in digits only. -/
theorem notMem_repr {c : Char} (hc : c.isDigit = false) (n : Nat) : c ∉ n.repr.toList := by
  intro h
  rw [Nat.toList_repr] at h
  have hdigit := Nat.isDigit_of_mem_toDigits (by omega) (by omega) h
  rw [hc] at hdigit
  cases hdigit

end OSimFlow.Lib
