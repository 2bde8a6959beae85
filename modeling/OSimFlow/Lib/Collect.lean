import Mathlib.Data.List.Forall2

/-!
# Loops that leave elements out

A loop that converts each element, where a conversion can fail or give nothing. What is known
of the list that comes out if nothing was left out.
-/

namespace OSimFlow.Lib

variable {ε α β γ : Type}

/-- `for a in l:` append what `f a` gives, if anything; the first failure ends the loop. -/
def collect (f : α → Except ε (Option β)) : List α → Except ε (List β)
  | [] => .ok []
  | a :: as =>
    match f a with
    | .error e => .error e
    | .ok b =>
      match collect f as with
      | .error e => .error e
      | .ok bs => .ok (b.toList ++ bs)

variable {f : α → Except ε (Option β)}

/-- Where each element gives something, all that is given is collected. -/
theorem collect_eq_ok {l : List α} {bs : List β}
    (h : List.Forall₂ (fun a b => f a = .ok (some b)) l bs) : collect f l = .ok bs := by
  induction h with
  | nil => rfl
  | @cons a b as bs hhead _ ih =>
    unfold collect
    rw [hhead, ih]
    rfl

/-- A collection has at most an element for each. -/
theorem length_collect_le {l : List α} {bs : List β} (h : collect f l = .ok bs) :
    bs.length ≤ l.length := by
  induction l generalizing bs with
  | nil =>
    rw [← Except.ok.inj h]
    exact Nat.le_refl _
  | cons a as ih =>
    unfold collect at h
    split at h
    · exact nomatch h
    next b _ =>
      split at h
      · exact nomatch h
      next rest hrest =>
        have hle := ih hrest
        have hone : b.toList.length ≤ 1 := Option.length_toList_le
        rw [← Except.ok.inj h, List.length_append, List.length_cons]
        omega

/-- A collection with as many elements left nothing out. -/
theorem forall₂_of_collect {l : List α} {bs : List β} (h : collect f l = .ok bs)
    (hlength : bs.length = l.length) : List.Forall₂ (fun a b => f a = .ok (some b)) l bs := by
  induction l generalizing bs with
  | nil =>
    rw [← Except.ok.inj h]
    exact .nil
  | cons a as ih =>
    unfold collect at h
    split at h
    · exact nomatch h
    next b hhead =>
      split at h
      · exact nomatch h
      next rest hrest =>
        have hle := length_collect_le hrest
        have hbs : b.toList ++ rest = bs := Except.ok.inj h
        rw [← hbs, List.length_append, List.length_cons] at hlength
        rw [← hbs]
        cases b with
        | none =>
          rw [Option.toList_none, List.length_nil] at hlength
          omega
        | some b =>
          rw [Option.toList_some, List.length_singleton] at hlength
          have hrest' : rest.length = as.length := by omega
          exact .cons hhead (ih hrest hrest')

/-- A relation that holds of two lists holds of their elements, in both directions. -/
theorem forall₂_exists_iff {P : α → β → Prop} {l : List α} :
    (∃ bs, List.Forall₂ P l bs) ↔ ∀ a ∈ l, ∃ b, P a b := by
  constructor
  · rintro ⟨bs, h⟩
    induction h with
    | nil => exact nofun
    | cons hhead _ ih => exact List.forall_mem_cons.mpr ⟨⟨_, hhead⟩, ih⟩
  · intro h
    induction l with
    | nil => exact ⟨[], .nil⟩
    | cons a as ih =>
      obtain ⟨⟨b, hb⟩, hrest⟩ := List.forall_mem_cons.mp h
      obtain ⟨bs, hbs⟩ := ih hrest
      exact ⟨b :: bs, .cons hb hbs⟩

theorem forall₂_and {P Q : α → β → Prop} {l : List α} {r : List β} (hP : List.Forall₂ P l r)
    (hQ : List.Forall₂ Q l r) : List.Forall₂ (fun a b => P a b ∧ Q a b) l r := by
  obtain ⟨hlength, hP⟩ := List.forall₂_iff_zip.mp hP
  obtain ⟨-, hQ⟩ := List.forall₂_iff_zip.mp hQ
  exact List.forall₂_iff_zip.mpr ⟨hlength, fun h => ⟨hP h, hQ h⟩⟩

/-- Two relations one after the other. -/
theorem forall₂_comp_iff {P : α → β → Prop} {Q : β → γ → Prop} {l : List α} {cs : List γ} :
    List.Forall₂ (fun a c => ∃ b, P a b ∧ Q b c) l cs ↔
      ∃ bs, List.Forall₂ P l bs ∧ List.Forall₂ Q bs cs := by
  constructor
  · intro h
    induction h with
    | nil => exact ⟨[], .nil, .nil⟩
    | cons hhead _ ih =>
      obtain ⟨b, hb, hc⟩ := hhead
      obtain ⟨bs, hbs, hcs⟩ := ih
      exact ⟨b :: bs, .cons hb hbs, .cons hc hcs⟩
  · rintro ⟨bs, hbs, hcs⟩
    induction hbs generalizing cs with
    | nil =>
      cases hcs
      exact .nil
    | cons hhead _ ih =>
      cases hcs with
      | cons hc hrest => exact .cons ⟨_, hhead, hc⟩ (ih hrest)

end OSimFlow.Lib
