import Mathlib.Data.Finset.Card
import OSimFlow.Lib.Keyed

/-!
# Insertion-ordered dictionaries

A Python `dict` as the list of its items in insertion order, no key twice.
Assigning to a present key keeps its position, a new key goes to the end,
and deleting a key and assigning it again moves it to the end — which is
what iteration over `.items()` observes.
-/

namespace OSimFlow.Lib

/-- A dictionary: its items in order, with the proof that no key repeats. -/
structure Dict (κ α : Type) where
  items : List (κ × α)
  nodup : (items.map Prod.fst).Nodup
deriving DecidableEq

namespace Dict

variable {κ α : Type}

/-- `sum(1 for v in d.values() if p(v))`. -/
def countValues (d : Dict κ α) (p : α → Bool) : Nat :=
  d.items.countP fun item => p item.2

instance : EmptyCollection (Dict κ α) := ⟨⟨[], List.nodup_nil⟩⟩

instance : Inhabited (Dict κ α) := ⟨∅⟩

def keys (d : Dict κ α) : List κ := d.items.map Prod.fst

def values (d : Dict κ α) : List α := d.items.map Prod.snd

variable [DecidableEq κ]

/-- `d.get(k)`. -/
def get? (d : Dict κ α) (k : κ) : Option α :=
  (d.items.find? (fun p => decide (p.1 = k))).map Prod.snd

/-- `d[k] = v`. -/
def set (d : Dict κ α) (k : κ) (v : α) : Dict κ α where
  items := upsert Prod.fst (k, v) d.items
  nodup := nodup_upsert Prod.fst d.nodup

/-- `d.pop(k, None)`. -/
def erase (d : Dict κ α) (k : κ) : Dict κ α where
  items := d.items.filter (fun p => decide (p.1 ≠ k))
  nodup := (List.filter_sublist.map Prod.fst).nodup d.nodup

/-- `DELETE … WHERE p(k)`. -/
def eraseIf (d : Dict κ α) (p : κ → Bool) : Dict κ α where
  items := d.items.filter (fun item => !p item.1)
  nodup := (List.filter_sublist.map Prod.fst).nodup d.nodup

/-- `d.setdefault(k, v)`, as the dictionary it leaves. -/
def setDefault (d : Dict κ α) (k : κ) (v : α) : Dict κ α :=
  match d.get? k with
  | some _ => d
  | none => d.set k v

@[simp] theorem get?_empty (k : κ) : (∅ : Dict κ α).get? k = none := rfl

/-- A lookup in a list of items reads the first item filed under the key. -/
theorem find?_eq_head?_filed (k : κ) (l : List (κ × α)) :
    l.find? (fun p => decide (p.1 = k)) = (filed Prod.fst k l).head? := by
  rw [filed, List.head?_filter]

theorem get?_eq_filed (d : Dict κ α) (k : κ) :
    d.get? k = (filed Prod.fst k d.items).head?.map Prod.snd := by
  rw [get?, find?_eq_head?_filed]

@[simp] theorem get?_set_self (d : Dict κ α) (k : κ) (v : α) :
    (d.set k v).get? k = some v := by
  rw [get?_eq_filed]
  show ((filed Prod.fst k (upsert Prod.fst (k, v) d.items)).head?).map _ = _
  rw [show filed Prod.fst k (upsert Prod.fst (k, v) d.items) = [(k, v)] from
    filed_upsert_self Prod.fst (x := (k, v)) d.nodup]
  rfl

@[simp] theorem get?_set_ne (d : Dict κ α) {k k' : κ} (h : k ≠ k') (v : α) :
    (d.set k v).get? k' = d.get? k' := by
  rw [get?_eq_filed, get?_eq_filed]
  show ((filed Prod.fst k' (upsert Prod.fst (k, v) d.items)).head?).map _ = _
  rw [filed_upsert_ne Prod.fst (x := (k, v)) h]

@[simp] theorem get?_erase_self (d : Dict κ α) (k : κ) :
    (d.erase k).get? k = none := by
  rw [get?, Option.map_eq_none_iff, List.find?_eq_none]
  intro p hp
  have := (List.mem_filter.mp hp).2
  simpa using this

@[simp] theorem get?_erase_ne (d : Dict κ α) {k k' : κ} (h : k ≠ k') :
    (d.erase k).get? k' = d.get? k' := by
  simp only [get?, erase, List.find?_filter]
  congr 2
  funext p
  by_cases hp : p.1 = k'
  · have hk : p.1 ≠ k := fun he => h (he ▸ hp)
    simp [hp, h.symm]
  · simp [hp]

theorem get?_set (d : Dict κ α) (k k' : κ) (v : α) :
    (d.set k v).get? k' = if k = k' then some v else d.get? k' := by
  split
  next h => rw [h, get?_set_self]
  next h => rw [get?_set_ne d h]

theorem get?_erase (d : Dict κ α) (k k' : κ) :
    (d.erase k).get? k' = if k = k' then none else d.get? k' := by
  split
  next h => rw [h, get?_erase_self]
  next h => rw [get?_erase_ne d h]

theorem get?_setDefault (d : Dict κ α) (k k' : κ) (v : α) :
    (d.setDefault k v).get? k' = if k = k' then some ((d.get? k).getD v) else d.get? k' := by
  unfold setDefault
  cases hget : d.get? k with
  | some u =>
    show d.get? k' = _
    split
    next h => rw [← h, hget, Option.getD_some]
    next => rfl
  | none =>
    show (d.set k v).get? k' = _
    rw [get?_set, Option.getD_none]

theorem get?_eraseIf (d : Dict κ α) (p : κ → Bool) (k : κ) :
    (d.eraseIf p).get? k = if p k then none else d.get? k := by
  simp only [get?, eraseIf, List.find?_filter]
  by_cases hk : p k
  · rw [if_pos hk, Option.map_eq_none_iff, List.find?_eq_none]
    intro item _ hc
    simp only [Bool.not_eq_true', decide_eq_true_eq] at hc
    rw [hc.2, hk] at hc
    exact nomatch hc.1
  · rw [if_neg hk]
    congr 2
    funext item
    by_cases hi : item.1 = k
    · simp [hi, hk]
    · simp [hi]

theorem mem_items {d : Dict κ α} {k : κ} {v : α} :
    (k, v) ∈ d.items ↔ d.get? k = some v := by
  constructor
  · intro hm
    rw [get?]
    obtain ⟨item, hf⟩ : ∃ item, d.items.find? (fun p => decide (p.1 = k)) = some item := by
      rw [← Option.isSome_iff_exists, List.find?_isSome]
      exact ⟨(k, v), hm, by simp⟩
    have hk : item.1 = k := by simpa using List.find?_some hf
    have heq := List.inj_on_of_nodup_map d.nodup (List.mem_of_find?_eq_some hf) hm hk
    rw [hf, heq]
    rfl
  · intro h
    rw [get?, Option.map_eq_some_iff] at h
    obtain ⟨⟨k', v'⟩, hf, rfl⟩ := h
    have hk : k' = k := by simpa using List.find?_some hf
    exact hk ▸ List.mem_of_find?_eq_some hf

theorem mem_keys_of_get? {d : Dict κ α} {k : κ} {v : α} (h : d.get? k = some v) :
    k ∈ d.keys :=
  List.mem_map.mpr ⟨(k, v), mem_items.mpr h, rfl⟩

theorem get?_of_notMem {d : Dict κ α} {k : κ} (h : k ∉ d.keys) : d.get? k = none := by
  cases hget : d.get? k with
  | none => rfl
  | some v => exact absurd (mem_keys_of_get? hget) h

theorem erase_of_notMem {d : Dict κ α} {k : κ} (h : k ∉ d.keys) : d.erase k = d := by
  unfold erase
  congr 1
  refine List.filter_eq_self.mpr fun item hitem => decide_eq_true fun hk => h ?_
  exact List.mem_map.mpr ⟨item, hitem, hk⟩

theorem mem_keys_iff {d : Dict κ α} {k : κ} : k ∈ d.keys ↔ ∃ v, d.get? k = some v := by
  refine ⟨fun h => ?_, fun ⟨_, hv⟩ => mem_keys_of_get? hv⟩
  obtain ⟨⟨k', v⟩, hm, rfl⟩ := List.mem_map.mp h
  exact ⟨v, mem_items.mp hm⟩

theorem mem_values_iff {d : Dict κ α} {v : α} : v ∈ d.values ↔ ∃ k, d.get? k = some v := by
  constructor
  · intro h
    obtain ⟨⟨k, _⟩, hm, rfl⟩ := List.mem_map.mp h
    exact ⟨k, mem_items.mp hm⟩
  · rintro ⟨k, hk⟩
    exact List.mem_map.mpr ⟨(k, v), mem_items.mpr hk, rfl⟩

theorem mem_values_set_self (d : Dict κ α) (k : κ) (v : α) : v ∈ (d.set k v).values :=
  mem_values_iff.mpr ⟨k, get?_set_self d k v⟩

/-- Only the value that stood under the key can go. -/
theorem mem_values_set_of_ne {d : Dict κ α} {k : κ} {v v' : α} (h : v' ∈ d.values)
    (hne : d.get? k ≠ some v') : v' ∈ (d.set k v).values := by
  obtain ⟨k', hk'⟩ := mem_values_iff.mp h
  have hkk : k ≠ k' := by
    rintro rfl
    exact hne hk'
  exact mem_values_iff.mpr ⟨k', (get?_set_ne d hkk v).trans hk'⟩

theorem mem_values_of_set {d : Dict κ α} {k : κ} {v v' : α} (h : v' ∈ (d.set k v).values) :
    v' = v ∨ v' ∈ d.values := by
  obtain ⟨k', hk'⟩ := mem_values_iff.mp h
  by_cases hkk : k = k'
  · rw [← hkk, get?_set_self] at hk'
    exact .inl (Option.some.inj hk').symm
  · rw [get?_set_ne d hkk] at hk'
    exact .inr (mem_values_iff.mpr ⟨k', hk'⟩)

theorem eq_empty_iff {d : Dict κ α} : d = ∅ ↔ ∀ k, d.get? k = none := by
  refine ⟨fun h k => by rw [h]; rfl, fun h => ?_⟩
  obtain ⟨items, hnodup⟩ := d
  cases items with
  | nil => rfl
  | cons item items =>
    have hmem : (item.1, item.2) ∈ (Dict.mk (item :: items) hnodup).items := List.mem_cons_self
    exact nomatch (h item.1).symm.trans (mem_items.mp hmem)

theorem mem_keys_set {d : Dict κ α} {k k' : κ} {v : α} :
    k' ∈ (d.set k v).keys ↔ k' ∈ d.keys ∨ k = k' := by
  rw [mem_keys_iff, mem_keys_iff, get?_set]
  by_cases h : k = k'
  · rw [if_pos h]
    exact ⟨fun _ => Or.inr h, fun _ => ⟨v, rfl⟩⟩
  · rw [if_neg h]
    exact (or_iff_left h).symm

theorem keys_set (d : Dict κ α) (k : κ) (v : α) :
    (d.set k v).keys = if k ∈ d.keys then d.keys else d.keys ++ [k] :=
  map_key_upsert Prod.fst (k, v) d.items

theorem items_set_of_notMem {d : Dict κ α} {k : κ} (h : k ∉ d.keys) (v : α) :
    (d.set k v).items = d.items ++ [(k, v)] :=
  upsert_of_notMem Prod.fst (x := (k, v)) h

/-- Counting values is counting the keys that have one. -/
theorem countValues_eq_card {d : Dict κ α} {p : α → Bool} {S : Finset κ}
    (h : ∀ k, k ∈ S ↔ ∃ v, d.get? k = some v ∧ p v = true) : d.countValues p = S.card := by
  have hS : S = ((d.items.filter fun item => p item.2).map Prod.fst).toFinset := by
    ext k
    rw [h k, List.mem_toFinset, List.mem_map]
    constructor
    · rintro ⟨v, hv, hp⟩
      exact ⟨(k, v), List.mem_filter.mpr ⟨mem_items.mpr hv, hp⟩, rfl⟩
    · rintro ⟨⟨k', v⟩, hm, rfl⟩
      obtain ⟨hm, hp⟩ := List.mem_filter.mp hm
      exact ⟨v, mem_items.mp hm, hp⟩
  have hnodup : ((d.items.filter fun item => p item.2).map Prod.fst).Nodup :=
    (List.filter_sublist.map Prod.fst).nodup d.nodup
  rw [hS, List.toFinset_card_of_nodup hnodup, List.length_map, countValues,
    List.countP_eq_length_filter]

/-! ## Many assignments -/

/-- `for k, v in items: d[k] = v`. -/
def setAll (d : Dict κ α) (items : List (κ × α)) : Dict κ α :=
  items.foldl (fun d item => d.set item.1 item.2) d

/-- The value that is assigned last. -/
def lastOf (k : κ) : List (κ × α) → Option α
  | [] => none
  | item :: items => (lastOf k items).or (if item.1 = k then some item.2 else none)

theorem get?_setAll (d : Dict κ α) (items : List (κ × α)) (k : κ) :
    (d.setAll items).get? k = (lastOf k items).or (d.get? k) := by
  induction items generalizing d with
  | nil => rfl
  | cons item items ih =>
    show ((d.set item.1 item.2).setAll items).get? k = _
    rw [ih, lastOf, Option.or_assoc, get?_set]
    by_cases hk : item.1 = k
    · rw [if_pos hk, if_pos hk]
      rfl
    · rw [if_neg hk, if_neg hk]
      rfl

theorem lastOf_append (k : κ) (a b : List (κ × α)) :
    lastOf k (a ++ b) = (lastOf k b).or (lastOf k a) := by
  induction a with
  | nil => exact Option.or_none.symm
  | cons item a ih =>
    rw [List.cons_append, lastOf, lastOf, ih, Option.or_assoc]

theorem mem_of_lastOf {k : κ} {v : α} {items : List (κ × α)} (h : lastOf k items = some v) :
    (k, v) ∈ items := by
  induction items with
  | nil => exact nomatch h
  | cons item items ih =>
    rw [lastOf] at h
    rcases Option.or_eq_some_iff.mp h with hrest | ⟨_, hitem⟩
    · exact List.mem_cons_of_mem _ (ih hrest)
    · split at hitem
      next hk =>
        have hv := Option.some.inj hitem
        rw [← hk, ← hv]
        exact List.mem_cons_self
      next => exact nomatch hitem

theorem lastOf_isSome {k : κ} {v : α} {items : List (κ × α)} (h : (k, v) ∈ items) :
    ∃ v', lastOf k items = some v' := by
  induction items with
  | nil => exact nomatch h
  | cons item items ih =>
    rw [lastOf]
    rcases List.mem_cons.mp h with rfl | h
    · rw [if_pos rfl]
      cases lastOf k items with
      | none => exact ⟨v, rfl⟩
      | some v' => exact ⟨v', rfl⟩
    · obtain ⟨v', hv'⟩ := ih h
      rw [hv']
      exact ⟨v', rfl⟩

/-- What several parts assign last is what one of them assigns last. -/
theorem lastOf_flatMap {γ : Type} {k : κ} {v : α} {l : List γ} {f : γ → List (κ × α)}
    (h : lastOf k (l.flatMap f) = some v) : ∃ x ∈ l, lastOf k (f x) = some v := by
  induction l with
  | nil => exact nomatch h
  | cons x l ih =>
    rw [List.flatMap_cons, lastOf_append] at h
    rcases Option.or_eq_some_iff.mp h with hrest | ⟨_, hx⟩
    · obtain ⟨y, hy, hlast⟩ := ih hrest
      exact ⟨y, List.mem_cons_of_mem _ hy, hlast⟩
    · exact ⟨x, List.mem_cons_self, hx⟩

/-- Parts that do not assign to a key may be left out. -/
theorem lastOf_flatMap_filter {γ : Type} {k : κ} {l : List γ} {f : γ → List (κ × α)}
    {p : γ → Prop} [DecidablePred p] (h : ∀ x ∈ l, ¬ p x → lastOf k (f x) = none) :
    lastOf k ((l.filter fun x => decide (p x)).flatMap f) = lastOf k (l.flatMap f) := by
  induction l with
  | nil => rfl
  | cons x l ih =>
    have hrest := ih fun y hy => h y (List.mem_cons_of_mem _ hy)
    rw [List.flatMap_cons, lastOf_append, List.filter_cons]
    by_cases hx : p x
    · rw [if_pos (decide_eq_true hx), List.flatMap_cons, lastOf_append, hrest]
    · rw [if_neg (by simpa using hx), hrest, h x List.mem_cons_self hx, Option.or_none]

/-- Where every assignment under a key is of one value. -/
theorem lastOf_eq_some {k : κ} {v : α} {items : List (κ × α)} (hmem : (k, v) ∈ items)
    (hall : ∀ v', (k, v') ∈ items → v' = v) : lastOf k items = some v := by
  cases hlast : lastOf k items with
  | some v' => rw [hall v' (mem_of_lastOf hlast)]
  | none =>
    exfalso
    induction items with
    | nil => exact nomatch hmem
    | cons item items ih =>
      rw [lastOf, Option.or_eq_none_iff] at hlast
      rcases List.mem_cons.mp hmem with rfl | hmem
      · rw [if_pos rfl] at hlast
        exact nomatch hlast.2
      · exact ih hmem (fun v' h => hall v' (List.mem_cons_of_mem _ h)) hlast.1

/-- The same under other keys, if they are told apart. -/
theorem lastOf_map {κ' : Type} [DecidableEq κ'] (f : κ → κ') {k : κ} {items : List (κ × α)}
    (hf : ∀ item ∈ items, f item.1 = f k → item.1 = k) :
    lastOf (f k) (items.map fun item => (f item.1, item.2)) = lastOf k items := by
  induction items with
  | nil => rfl
  | cons item items ih =>
    rw [List.map_cons, lastOf, lastOf, ih fun i hi => hf i (List.mem_cons_of_mem _ hi)]
    by_cases hk : item.1 = k
    · rw [if_pos hk, if_pos (congrArg f hk)]
    · rw [if_neg hk, if_neg fun h => hk (hf item List.mem_cons_self h)]

/-- Assigning to each of some keys its own value. -/
theorem get?_setAll_map (d : Dict κ α) (l : List κ) (f : κ → α) (k : κ) :
    (d.setAll (l.map fun key => (key, f key))).get? k = if k ∈ l then some (f k) else d.get? k := by
  rw [get?_setAll]
  split
  next hmem =>
    have hlast : lastOf k (l.map fun key => (key, f key)) = some (f k) := by
      refine lastOf_eq_some (List.mem_map.mpr ⟨k, hmem, rfl⟩) fun v hv => ?_
      obtain ⟨key, -, heq⟩ := List.mem_map.mp hv
      injection heq with hkey hvalue
      rw [← hvalue, hkey]
    rw [hlast]
    rfl
  next hnot =>
    cases hlast : lastOf k (l.map fun key => (key, f key)) with
    | none => rfl
    | some v =>
      obtain ⟨key, hkey, heq⟩ := List.mem_map.mp (mem_of_lastOf hlast)
      injection heq with hsame _
      exact absurd (hsame ▸ hkey) hnot

/-- The keys come in the order in which they are first assigned. -/
theorem keys_setAll (d : Dict κ α) (items : List (κ × α)) :
    (d.setAll items).keys = (items.map Prod.fst).foldl appendNew d.keys := by
  induction items generalizing d with
  | nil => rfl
  | cons item items ih =>
    show ((d.set item.1 item.2).setAll items).keys = _
    rw [ih, keys_set]
    rfl

theorem mem_keys_setAll {d : Dict κ α} {items : List (κ × α)} {k : κ} :
    k ∈ (d.setAll items).keys ↔ k ∈ d.keys ∨ k ∈ items.map Prod.fst := by
  induction items generalizing d with
  | nil => exact (or_iff_left List.not_mem_nil).symm
  | cons item items ih =>
    show k ∈ ((d.set item.1 item.2).setAll items).keys ↔ _
    rw [ih, mem_keys_set, List.map_cons, List.mem_cons, or_assoc, eq_comm (a := k)]

end Dict

end OSimFlow.Lib
