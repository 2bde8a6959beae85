/-!
# Trees of dictionaries and lists

What a two-run statement about nested data needs: `AgreeOff P s t` says that `s` and
`t` differ at most in what stands under a key with `P`, at any depth.

`Clear P t` says that there is no such key in `t`: then agreement is equality. A tree
that is not clear can be varied under a key with `P` so that any given tree occurs in
it.
-/

namespace OSimFlow.Lib

/-- Nested dictionaries and lists; a dictionary is its items in order. -/
inductive Tree (κ α : Type) where
  | leaf (a : α)
  | list (items : List (Tree κ α))
  | dict (items : List (κ × Tree κ α))

namespace Tree

variable {κ α : Type}

mutual

/-- The same tree, except for what stands under keys with `P`. -/
inductive AgreeOff (P : κ → Prop) : Tree κ α → Tree κ α → Prop
  | leaf (a : α) : AgreeOff P (.leaf a) (.leaf a)
  | list {l l' : List (Tree κ α)} : AgreeOffList P l l' → AgreeOff P (.list l) (.list l')
  | dict {d d' : List (κ × Tree κ α)} : AgreeOffDict P d d' → AgreeOff P (.dict d) (.dict d')

inductive AgreeOffList (P : κ → Prop) : List (Tree κ α) → List (Tree κ α) → Prop
  | nil : AgreeOffList P [] []
  | cons {s t : Tree κ α} {l l' : List (Tree κ α)} :
      AgreeOff P s t → AgreeOffList P l l' → AgreeOffList P (s :: l) (t :: l')

inductive AgreeOffDict (P : κ → Prop) : List (κ × Tree κ α) → List (κ × Tree κ α) → Prop
  | nil : AgreeOffDict P [] []
  | secret (k : κ) (s t : Tree κ α) {d d' : List (κ × Tree κ α)} :
      P k → AgreeOffDict P d d' → AgreeOffDict P ((k, s) :: d) ((k, t) :: d')
  | cons (k : κ) {s t : Tree κ α} {d d' : List (κ × Tree κ α)} :
      AgreeOff P s t → AgreeOffDict P d d' → AgreeOffDict P ((k, s) :: d) ((k, t) :: d')

end

mutual

theorem AgreeOff.refl (P : κ → Prop) : ∀ t : Tree κ α, AgreeOff P t t
  | .leaf a => .leaf a
  | .list l => .list (AgreeOffList.refl P l)
  | .dict d => .dict (AgreeOffDict.refl P d)

theorem AgreeOffList.refl (P : κ → Prop) : ∀ l : List (Tree κ α), AgreeOffList P l l
  | [] => .nil
  | t :: l => .cons (AgreeOff.refl P t) (AgreeOffList.refl P l)

theorem AgreeOffDict.refl (P : κ → Prop) : ∀ d : List (κ × Tree κ α), AgreeOffDict P d d
  | [] => .nil
  | (k, t) :: d => .cons k (AgreeOff.refl P t) (AgreeOffDict.refl P d)

end

section Clear

variable (P : κ → Prop)

mutual

/-- No key with `P`, at any depth. -/
def Clear : Tree κ α → Prop
  | .leaf _ => True
  | .list l => ClearList l
  | .dict d => ClearDict d

def ClearList : List (Tree κ α) → Prop
  | [] => True
  | t :: l => Clear t ∧ ClearList l

def ClearDict : List (κ × Tree κ α) → Prop
  | [] => True
  | (k, t) :: d => ¬ P k ∧ Clear t ∧ ClearDict d

end

variable {P}

mutual

/-- Where there is nothing to hide, agreement is equality. -/
theorem Clear.eq_of_agreeOff : ∀ {s t : Tree κ α}, Clear P s → AgreeOff P s t → t = s
  | _, _, _, .leaf _ => rfl
  | _, _, h, .list hl => by rw [ClearList.eq_of_agreeOff h hl]
  | _, _, h, .dict hd => by rw [ClearDict.eq_of_agreeOff h hd]

theorem ClearList.eq_of_agreeOff : ∀ {l l' : List (Tree κ α)}, ClearList P l →
    AgreeOffList P l l' → l' = l
  | _, _, _, .nil => rfl
  | _, _, h, .cons ht hl => by
    rw [Clear.eq_of_agreeOff h.1 ht, ClearList.eq_of_agreeOff h.2 hl]

theorem ClearDict.eq_of_agreeOff : ∀ {d d' : List (κ × Tree κ α)}, ClearDict P d →
    AgreeOffDict P d d' → d' = d
  | _, _, _, .nil => rfl
  | _, _, h, .secret _ _ _ hk _ => absurd hk h.1
  | _, _, h, .cons _ ht hd => by
    rw [Clear.eq_of_agreeOff h.2.1 ht, ClearDict.eq_of_agreeOff h.2.2 hd]

end

end Clear

/-- `s` is a subtree of `t`. -/
inductive Occurs (s : Tree κ α) : Tree κ α → Prop
  | refl : Occurs s s
  | list {t : Tree κ α} {l : List (Tree κ α)} : t ∈ l → Occurs s t → Occurs s (.list l)
  | dict {k : κ} {t : Tree κ α} {d : List (κ × Tree κ α)} :
      (k, t) ∈ d → Occurs s t → Occurs s (.dict d)

section Variants

variable {P : κ → Prop} (s : Tree κ α)

mutual

/-- A tree with a key to hide can be varied under it so that `s` occurs. -/
theorem exists_variant : ∀ {t : Tree κ α}, ¬ Clear P t → ∃ t', AgreeOff P t t' ∧ Occurs s t'
  | .leaf _, h => absurd trivial h
  | .list _, h => by
    obtain ⟨l', hl, t', ht, hs⟩ := exists_variantList h
    exact ⟨.list l', .list hl, .list ht hs⟩
  | .dict _, h => by
    obtain ⟨d', hd, k, t', ht, hs⟩ := exists_variantDict h
    exact ⟨.dict d', .dict hd, .dict ht hs⟩

theorem exists_variantList : ∀ {l : List (Tree κ α)}, ¬ ClearList P l →
    ∃ l', AgreeOffList P l l' ∧ ∃ t' ∈ l', Occurs s t'
  | [], h => absurd trivial h
  | t :: l, h => by
    by_cases ht : Clear P t
    · obtain ⟨l', hl, t', ht', hs⟩ := exists_variantList (fun hl => h ⟨ht, hl⟩)
      exact ⟨t :: l', .cons (AgreeOff.refl P t) hl, t', List.mem_cons_of_mem t ht', hs⟩
    · obtain ⟨t', htt', hs⟩ := exists_variant ht
      exact ⟨t' :: l, .cons htt' (AgreeOffList.refl P l), t', List.mem_cons_self, hs⟩

theorem exists_variantDict : ∀ {d : List (κ × Tree κ α)}, ¬ ClearDict P d →
    ∃ d', AgreeOffDict P d d' ∧ ∃ k t', (k, t') ∈ d' ∧ Occurs s t'
  | [], h => absurd trivial h
  | (k, t) :: d, h => by
    by_cases hk : P k
    · exact ⟨(k, s) :: d, .secret k t s hk (AgreeOffDict.refl P d), k, s, List.mem_cons_self,
        .refl⟩
    by_cases ht : Clear P t
    · obtain ⟨d', hd, k', t', ht', hs⟩ := exists_variantDict (fun hd => h ⟨hk, ht, hd⟩)
      exact ⟨(k, t) :: d', .cons k (AgreeOff.refl P t) hd, k', t', List.mem_cons_of_mem _ ht',
        hs⟩
    · obtain ⟨t', htt', hs⟩ := exists_variant ht
      exact ⟨(k, t') :: d, .cons k htt' (AgreeOffDict.refl P d), k, t', List.mem_cons_self, hs⟩

end

end Variants

end Tree

end OSimFlow.Lib
