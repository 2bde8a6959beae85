import OSimFlow.Errors
import OSimFlow.Lib.Dict

/-!
# What `json.loads` returns

Integers and floats are told apart, as Python does; the type of the floats is a
parameter, and so is the conversion of an integer to one, which an integer out
of range does not survive. An object is its items; `dict` is what Python makes
of them.
-/

namespace OSimFlow

open OSimFlow.Lib (Dict)

/-- A JSON value, with floats in `F`. -/
inductive Json (F : Type) where
  | null
  | bool (b : Bool)
  | int (n : Int)
  | float (x : F)
  | str (s : String)
  | arr (items : List (Json F))
  | obj (items : List (String × Json F))

namespace Json

variable {F : Type}

/-- `isinstance(v, (int, float))`; a `bool` is an `int`. -/
def isNumber : Json F → Bool
  | bool _ | int _ | float _ => true
  | _ => false

/-- `float(v)`, for a number. -/
def toFloat (floatOfInt : Int → Except PyError F) : Json F → Except PyError F
  | bool b => floatOfInt (if b then 1 else 0)
  | int n => floatOfInt n
  | float x => .ok x
  | _ => .error (.exception "float() argument must be a string or a real number")

mutual

/-- The floats that occur in a value. -/
def floats : Json F → List F
  | float x => [x]
  | arr items => floatsItems items
  | obj items => floatsFields items
  | null | bool _ | int _ | str _ => []

def floatsItems : List (Json F) → List F
  | [] => []
  | item :: items => floats item ++ floatsItems items

def floatsFields : List (String × Json F) → List F
  | [] => []
  | (_, value) :: items => floats value ++ floatsFields items

end

theorem mem_floatsItems {x : F} {items : List (Json F)} :
    x ∈ floatsItems items ↔ ∃ item ∈ items, x ∈ item.floats := by
  induction items with
  | nil => simp [floatsItems]
  | cons item items ih => simp [floatsItems, ih]

theorem mem_floatsFields {x : F} {items : List (String × Json F)} :
    x ∈ floatsFields items ↔ ∃ item ∈ items, x ∈ item.2.floats := by
  induction items with
  | nil => simp [floatsFields]
  | cons item items ih => simp [floatsFields, ih]

end Json

/-- `d.update(items)`. -/
def Lib.Dict.update {α : Type} (d : Dict String α) (items : List (String × α)) :
    Dict String α :=
  items.foldl (fun d item => d.set item.1 item.2) d

theorem Lib.Dict.get?_update {α : Type} (d e : Dict String α) (k : String) :
    (Dict.update d e.items).get? k = (e.get? k).or (d.get? k) := by
  obtain ⟨items, hnodup⟩ := e
  show (Dict.update d items).get? k =
    ((items.find? fun item => decide (item.1 = k)).map Prod.snd).or (d.get? k)
  induction items generalizing d with
  | nil => rfl
  | cons item items ih =>
    obtain ⟨hnot, hrest⟩ := List.nodup_cons.mp hnodup
    have htail := ih (d.set item.1 item.2) hrest
    rw [Dict.update, List.foldl_cons]
    refine htail.trans ?_
    rw [List.find?_cons]
    by_cases hk : item.1 = k
    · -- the key does not come again
      have hnone : items.find? (fun item => decide (item.1 = k)) = none := by
        refine List.find?_eq_none.mpr fun item' hitem' => ?_
        rw [decide_eq_true_iff]
        intro hk'
        exact hnot (List.mem_map.mpr ⟨item', hitem', hk'.trans hk.symm⟩)
      rw [hnone, decide_eq_true hk, ← hk, Dict.get?_set_self]
      rfl
    · rw [decide_eq_false hk, Dict.get?_set_ne d hk]

/-- A dictionary is what Python makes of its items. -/
theorem Lib.Dict.get?_update_items {α : Type} (d : Dict String α) (k : String) :
    (Dict.update ∅ d.items).get? k = d.get? k := by
  rw [Dict.get?_update]
  exact Option.or_none

end OSimFlow
