import OSimFlow.Json
import OSimFlow.Lib.PosixPath

/-!
# Values on their way to a worker and back

A step's arguments and its result cross to another machine as JSON, which has no paths.
`encode_transport_value` puts a dictionary with a reserved key in the place of each path, and
`decode_transport_value` makes a path of every dictionary with that key. A dictionary of the
user's that has it too is not marked as such:

> `roundTrip_eq_iff`: a value arrives as it was sent exactly if no dictionary in it has
> `__osimflow_type__` with the value `path`.

Floats are a parameter: the texts of numbers are read back as they were written. So are the
texts that `str` gives to what is not a string.
-/

namespace OSimFlow.Executors

open OSimFlow.Lib (PosixPath)

/-- What a payload is made of; a dictionary is its items in order. -/
inductive Value (F : Type) where
  | none
  | bool (b : Bool)
  | int (n : Int)
  | float (x : F)
  | str (s : String)
  | path (p : PosixPath)
  | list (items : List (Value F))
  | tuple (items : List (Value F))
  | dict (items : List (String × Value F))

namespace Transport

variable {F : Type}

/-- `_PATH_MARKER_KEY`. -/
def pathMarkerKey : String := "__osimflow_type__"

/-- `_PATH_MARKER_VALUE`. -/
def pathMarkerValue : String := "path"

/-- `_PATH_VALUE_KEY`. -/
def pathValueKey : String := "value"

mutual

/-- `encode_transport_value(value)`. -/
def encode : Value F → Value F
  | .path p => .dict [(pathMarkerKey, .str pathMarkerValue),
      (pathValueKey, .str (String.ofList p.str))]
  | .dict items => .dict (encodeItems items)
  | .list items => .list (encodeList items)
  | .tuple items => .list (encodeList items)
  | value => value

def encodeList : List (Value F) → List (Value F)
  | [] => []
  | v :: vs => encode v :: encodeList vs

def encodeItems : List (String × Value F) → List (String × Value F)
  | [] => []
  | (k, v) :: items => (k, encode v) :: encodeItems items

end

mutual

/-- `json.dumps(value)`, as the document it writes: a path is refused. -/
def dumps : Value F → Except PyError (Json F)
  | .none => .ok .null
  | .bool b => .ok (.bool b)
  | .int n => .ok (.int n)
  | .float x => .ok (.float x)
  | .str s => .ok (.str s)
  | .path _ => .error (.exception "Object of type PosixPath is not JSON serializable")
  | .list items => (dumpsList items).map .arr
  | .tuple items => (dumpsList items).map .arr
  | .dict items => (dumpsItems items).map .obj

def dumpsList : List (Value F) → Except PyError (List (Json F))
  | [] => .ok []
  | v :: vs => do
    let first ← dumps v
    let rest ← dumpsList vs
    return first :: rest

def dumpsItems : List (String × Value F) → Except PyError (List (String × Json F))
  | [] => .ok []
  | (k, v) :: items => do
    let first ← dumps v
    let rest ← dumpsItems items
    return (k, first) :: rest

end

mutual

/-- `json.loads`. -/
def loads : Json F → Value F
  | .null => .none
  | .bool b => .bool b
  | .int n => .int n
  | .float x => .float x
  | .str s => .str s
  | .arr items => .list (loadsList items)
  | .obj items => .dict (loadsItems items)

def loadsList : List (Json F) → List (Value F)
  | [] => []
  | v :: vs => loads v :: loadsList vs

def loadsItems : List (String × Json F) → List (String × Value F)
  | [] => []
  | (k, v) :: items => (k, loads v) :: loadsItems items

end

/-- `value.get(key)`. -/
def get? (items : List (String × Value F)) (key : String) : Option (Value F) :=
  (items.find? fun item => decide (item.1 = key)).map Prod.snd

/-- `marker == _PATH_MARKER_VALUE`. -/
def isPathMarker : Option (Value F) → Bool
  | some (.str s) => decide (s = pathMarkerValue)
  | _ => false

variable (strOf : Value F → String)

/-- `str(raw)`, where `raw` may be missing. -/
def textOf : Option (Value F) → String
  | some (.str s) => s
  | some v => strOf v
  | Option.none => "None"

mutual

/-- `decode_transport_value(value)`. -/
def decode : Value F → Value F
  | .dict items =>
    if isPathMarker (get? items pathMarkerKey) then
      .path (PosixPath.parse (textOf strOf (get? items pathValueKey)).toList)
    else .dict (decodeItems items)
  | .list items => .list (decodeList items)
  | value => value

def decodeList : List (Value F) → List (Value F)
  | [] => []
  | v :: vs => decode v :: decodeList vs

def decodeItems : List (String × Value F) → List (String × Value F)
  | [] => []
  | (k, v) :: items => (k, decode v) :: decodeItems items

end

/-- What arrives: `decode_transport_value(json.loads(json.dumps(encode_transport_value(v))))`. -/
def roundTrip (v : Value F) : Except PyError (Value F) :=
  (dumps (encode v)).map fun document => decode strOf (loads document)

/-! ## What JSON keeps -/

variable {strOf}

mutual

/-- An encoded value has no path in it, and JSON gives it back as it is. -/
theorem loads_dumps_encode : ∀ v : Value F,
    ∃ document, dumps (encode v) = .ok document ∧ loads document = encode v
  | .none => ⟨_, rfl, rfl⟩
  | .bool _ => ⟨_, rfl, rfl⟩
  | .int _ => ⟨_, rfl, rfl⟩
  | .float _ => ⟨_, rfl, rfl⟩
  | .str _ => ⟨_, rfl, rfl⟩
  | .path _ => ⟨_, rfl, rfl⟩
  | .list items => by
    obtain ⟨documents, hdumps, hloads⟩ := loads_dumps_encodeList items
    refine ⟨.arr documents, ?_, ?_⟩
    · show (dumpsList (encodeList items)).map Json.arr = _
      rw [hdumps]
      rfl
    · show Value.list (loadsList documents) = _
      rw [hloads]
      rfl
  | .tuple items => by
    obtain ⟨documents, hdumps, hloads⟩ := loads_dumps_encodeList items
    refine ⟨.arr documents, ?_, ?_⟩
    · show (dumpsList (encodeList items)).map Json.arr = _
      rw [hdumps]
      rfl
    · show Value.list (loadsList documents) = _
      rw [hloads]
      rfl
  | .dict items => by
    obtain ⟨documents, hdumps, hloads⟩ := loads_dumps_encodeItems items
    refine ⟨.obj documents, ?_, ?_⟩
    · show (dumpsItems (encodeItems items)).map Json.obj = _
      rw [hdumps]
      rfl
    · show Value.dict (loadsItems documents) = _
      rw [hloads]
      rfl

theorem loads_dumps_encodeList : ∀ vs : List (Value F),
    ∃ documents, dumpsList (encodeList vs) = .ok documents ∧ loadsList documents = encodeList vs
  | [] => ⟨[], rfl, rfl⟩
  | v :: vs => by
    obtain ⟨first, hfirst, hv⟩ := loads_dumps_encode v
    obtain ⟨rest, hrest, hvs⟩ := loads_dumps_encodeList vs
    refine ⟨first :: rest, ?_, ?_⟩
    · rw [encodeList, dumpsList, hfirst, hrest]
      rfl
    · rw [loadsList, encodeList, hv, hvs]

theorem loads_dumps_encodeItems : ∀ items : List (String × Value F),
    ∃ documents, dumpsItems (encodeItems items) = .ok documents ∧
      loadsItems documents = encodeItems items
  | [] => ⟨[], rfl, rfl⟩
  | (k, v) :: items => by
    obtain ⟨first, hfirst, hv⟩ := loads_dumps_encode v
    obtain ⟨rest, hrest, hitems⟩ := loads_dumps_encodeItems items
    refine ⟨(k, first) :: rest, ?_, ?_⟩
    · rw [encodeItems, dumpsItems, hfirst, hrest]
      rfl
    · rw [loadsItems, encodeItems, hv, hitems]

end

theorem roundTrip_eq (v : Value F) : roundTrip strOf v = .ok (decode strOf (encode v)) := by
  obtain ⟨document, hdumps, hloads⟩ := loads_dumps_encode v
  rw [roundTrip, hdumps, ← hloads]
  rfl

/-! ## What the marker keeps -/

theorem get?_encodeItems (items : List (String × Value F)) (key : String) :
    get? (encodeItems items) key = (get? items key).map encode := by
  induction items with
  | nil => rfl
  | cons item items ih =>
    obtain ⟨k, v⟩ := item
    unfold get? at ih ⊢
    rw [encodeItems, List.find?_cons, List.find?_cons]
    by_cases hk : k = key
    · rw [decide_eq_true hk]
      rfl
    · rw [decide_eq_false hk]
      exact ih

/-- Only a string is encoded as one. -/
theorem isPathMarker_encode (v : Option (Value F)) :
    isPathMarker (v.map encode) = isPathMarker v := by
  cases v with
  | none => rfl
  | some v => cases v <;> rfl

mutual

/-- No dictionary in the value has the marker under its key. -/
def Unmarked : Value F → Prop
  | .dict items => isPathMarker (get? items pathMarkerKey) = false ∧ UnmarkedItems items
  | .list items | .tuple items => UnmarkedList items
  | _ => True

def UnmarkedList : List (Value F) → Prop
  | [] => True
  | v :: vs => Unmarked v ∧ UnmarkedList vs

def UnmarkedItems : List (String × Value F) → Prop
  | [] => True
  | (_, v) :: items => Unmarked v ∧ UnmarkedItems items

end

mutual

/-- No tuple in the value; JSON makes a list of it. -/
def Plain : Value F → Prop
  | .dict items => PlainItems items
  | .list items => PlainList items
  | .tuple _ => False
  | _ => True

def PlainList : List (Value F) → Prop
  | [] => True
  | v :: vs => Plain v ∧ PlainList vs

def PlainItems : List (String × Value F) → Prop
  | [] => True
  | (_, v) :: items => Plain v ∧ PlainItems items

end

theorem decode_path (p : PosixPath) : decode strOf (encode (.path p)) = .path p := by
  show Value.path (PosixPath.parse (String.ofList p.str).toList) = _
  rw [String.toList_ofList, PosixPath.parse_str]

mutual

theorem decode_encode_iff : ∀ {v : Value F}, Plain v →
    (decode strOf (encode v) = v ↔ Unmarked v)
  | .none, _ => ⟨fun _ => trivial, fun _ => rfl⟩
  | .bool _, _ => ⟨fun _ => trivial, fun _ => rfl⟩
  | .int _, _ => ⟨fun _ => trivial, fun _ => rfl⟩
  | .float _, _ => ⟨fun _ => trivial, fun _ => rfl⟩
  | .str _, _ => ⟨fun _ => trivial, fun _ => rfl⟩
  | .path p, _ => ⟨fun _ => trivial, fun _ => decode_path p⟩
  | .list items, h => by
    show Value.list (decodeList strOf (encodeList items)) = Value.list items ↔ _
    rw [Value.list.injEq]
    exact decodeList_encodeList_iff h
  | .dict items, h => by
    show (if isPathMarker (get? (encodeItems items) pathMarkerKey) = true then _ else _) = _ ↔ _
    rw [get?_encodeItems, isPathMarker_encode]
    show _ ↔ isPathMarker (get? items pathMarkerKey) = false ∧ UnmarkedItems items
    cases hmarker : isPathMarker (get? items pathMarkerKey) with
    | true =>
      -- the dictionary is taken for a path
      rw [if_pos rfl]
      constructor
      · intro heq
        exact nomatch heq
      · intro hfalse
        exact nomatch hfalse.1
    | false =>
      rw [if_neg Bool.false_ne_true, Value.dict.injEq]
      have hitems : decodeItems strOf (encodeItems items) = items ↔ UnmarkedItems items :=
        decodeItems_encodeItems_iff h
      exact ⟨fun heq => ⟨rfl, hitems.mp heq⟩, fun hun => hitems.mpr hun.2⟩

theorem decodeList_encodeList_iff : ∀ {vs : List (Value F)}, PlainList vs →
    (decodeList strOf (encodeList vs) = vs ↔ UnmarkedList vs)
  | [], _ => ⟨fun _ => trivial, fun _ => rfl⟩
  | v :: vs, h => by
    rw [encodeList, decodeList, List.cons.injEq, decode_encode_iff h.1,
      decodeList_encodeList_iff h.2]
    rfl

theorem decodeItems_encodeItems_iff : ∀ {items : List (String × Value F)}, PlainItems items →
    (decodeItems strOf (encodeItems items) = items ↔ UnmarkedItems items)
  | [], _ => ⟨fun _ => trivial, fun _ => rfl⟩
  | (k, v) :: items, h => by
    rw [encodeItems, decodeItems, List.cons.injEq, Prod.mk.injEq, decode_encode_iff h.1,
      decodeItems_encodeItems_iff h.2]
    exact ⟨fun hall => ⟨hall.1.2, hall.2⟩, fun hall => ⟨⟨rfl, hall.1⟩, hall.2⟩⟩

end

/-- A value without tuples arrives as it was sent if and only if no dictionary in it has the
reserved key with the value that marks a path. -/
theorem roundTrip_eq_iff (strOf : Value F → String) {v : Value F} (h : Plain v) :
    roundTrip strOf v = .ok v ↔ Unmarked v := by
  rw [roundTrip_eq, Except.ok.injEq]
  exact decode_encode_iff h

/-- A list with a path under a key. -/
def nestedArguments : Value Nat :=
  .list [.dict [("osw", .path (PosixPath.parse ['a', '/', 'b']))], .int 3]

theorem roundTrip_nestedArguments :
    roundTrip (fun _ => "") nestedArguments = .ok nestedArguments :=
  (roundTrip_eq_iff (v := nestedArguments) (fun _ => "") ⟨⟨trivial, trivial⟩, trivial, trivial⟩).mpr
    ⟨⟨rfl, trivial, trivial⟩, trivial, trivial⟩

/-- A dictionary of the user's comes back as a path. -/
theorem marked_dictionary_becomes_path :
    roundTrip (fun _ => "") (.dict [("__osimflow_type__", .str "path"), ("value", .str "x")] :
        Value Nat) = .ok (.path (PosixPath.parse ['x'])) ∧
      roundTrip (fun _ => "") (.dict [("__osimflow_type__", .str "path"), ("value", .str "x")]) ≠
        .ok (.dict [("__osimflow_type__", .str "path"), ("value", .str "x")] : Value Nat) := by
  have hpath : roundTrip (fun _ => "")
      (.dict [("__osimflow_type__", .str "path"), ("value", .str "x")] : Value Nat) =
        .ok (.path (PosixPath.parse ['x'])) := by
    rw [roundTrip_eq]
    rfl
  refine ⟨hpath, ?_⟩
  rw [hpath]
  intro heq
  exact nomatch Except.ok.inj heq

end Transport

end OSimFlow.Executors
