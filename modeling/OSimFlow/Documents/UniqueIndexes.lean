import Mathlib.Data.Countable.Basic
import Mathlib.Data.Fintype.EquivFin
import Mathlib.Logic.Equiv.List
import OSimFlow.Documents.RedisDocumentStore
import OSimFlow.Lib.InverseIndex
import OSimFlow.Lib.Run
import OSimFlow.Lib.Triple

/-!
# Unique indexes

Clients of one Redis server insert, update and delete documents whose fields are
strings and integers, and create indexes. The surroundings decide at every call whether
it fails and with what; a command that fails does nothing.

> `Consistent`: the hash of a unique index holds exactly the pairs of a value and the
> document that has it, and no two documents share a value.
>
> `Kept`: the store is consistent after the call, and a call that raises leaves every
> hash as it was.

A claim that fails with a Redis error counts as a claim, and the claims made before one
that is refused are not given back by `insert_one`, nor the entries that `create_index`
made before it raised; a document that is overwritten leaves its entries behind. `Sound`
rules these out, and `kept_of_sound` is the rest: the rollback of `update_one` and that of
a document that could not be written restore the table (`Relocated.undone`).
-/

namespace OSimFlow.Documents.UniqueIndexes

open OSimFlow.Lib

/-- A field value: a string or an integer. -/
inductive Scalar where
  | str (s : String)
  | int (n : Int)
deriving DecidableEq

instance : PyValue Scalar where
  str
    | .str s => s
    | .int n => toString n
  isNone _ := false
  truthy
    | .str s => s != ""
    | .int n => n != 0
  eq v w := decide (v = w)
  ofString := .str

/-- Redis, and the clients' `_indexes`. `known` are the indexes that any client has
created. -/
structure World where
  hashes : String → Dict String String
  sets : String → List String
  counters : String → Nat
  tick : Nat
  registry : Nat → List Index
  known : List Index

/-- What the hashes hold: under a key, the value of a field. -/
abbrev Table := String → String → Option String

namespace World

def empty : World := ⟨fun _ => ∅, fun _ => [], fun _ => 0, 0, fun _ => [], []⟩

def view (s : World) : Table := fun key field => (s.hashes key).get? field

/-- The world after a call, before the call has an effect. -/
def ticked (s : World) : World := { s with tick := s.tick + 1 }

/-- A command that Redis executes. -/
def exec (s : World) : (c : Command) → c.Reply × World
  | .sadd key member => ((), { s with
      sets := Function.update s.sets key
        (if member ∈ s.sets key then s.sets key else s.sets key ++ [member]) })
  | .smembers key => (s.sets key, s)
  | .incr key => (s.counters key + 1, { s with
      counters := Function.update s.counters key (s.counters key + 1) })
  | .hget key field => ((s.hashes key).get? field, s)
  | .hset key field value => ((), { s with
      hashes := Function.update s.hashes key ((s.hashes key).set field value) })
  | .hsetnx key field value =>
    match (s.hashes key).get? field with
    | some _ => (false, s)
    | none => (true, { s with
        hashes := Function.update s.hashes key ((s.hashes key).set field value) })
  | .hdel key field => ((), { s with
      hashes := Function.update s.hashes key ((s.hashes key).erase field) })
  | .hgetall key => ((s.hashes key).items, s)

/-- `self._indexes.add(index)`. -/
def addIndex (s : World) (client : Nat) (ix : Index) : World :=
  { s with
    registry := Function.update s.registry client
      (if ix ∈ s.registry client then s.registry client else s.registry client ++ [ix])
    known := if ix ∈ s.known then s.known else s.known ++ [ix] }

end World

variable (env : Nat → Option StoreError)

/-- The `n`-th call fails with `env n`. -/
def redis : Prog.Handler Call Call.Answer World
  | .getClient, s =>
    match env s.tick with
    | some e => (.error e, s.ticked)
    | none => (.ok (), s.ticked)
  | .command c, s =>
    match env s.tick with
    | some e => (.error e, s.ticked)
    | none => (.ok (s.ticked.exec c).1, (s.ticked.exec c).2)

inductive Change where
  | insertOne (collection : String) (document : Document Scalar)
  | updateOne (collection : String) (filter : Filter Scalar)
      (update : Document Scalar → Except StoreError (Document Scalar))
  | deleteOne (collection : String) (filter : Filter Scalar)
  | createIndex (collection field : String) (unique : Bool)

/-- A call by a client, with the order in which it goes over its `_indexes`. -/
structure Request where
  client : Nat
  indexes : List Index
  change : Change

section
variable [Codec Scalar] (ns : String)

/-- What a call raises, and the world it leaves. -/
def perform (s : World) (r : Request) : Option StoreError × World :=
  match r.change with
  | .insertOne collection document =>
    let out := (insertOne ns r.indexes collection document).run (redis env) s
    (Prog.raised out.1, out.2)
  | .updateOne collection filter update =>
    let out := (updateOne ns r.indexes collection filter update).run (redis env) s
    (Prog.raised out.1, out.2)
  | .deleteOne collection filter =>
    let out := (deleteOne ns r.indexes collection filter).run (redis env) s
    (Prog.raised out.1, out.2)
  | .createIndex collection field unique =>
    match (createIndex Scalar ns collection field unique).run (redis env) s with
    | (.ok ix, s') => (none, s'.addIndex r.client ix)
    | (.error e, s') => (some e, s')

def step (s : World) (r : Request) : World := (perform env ns s r).2

/-- The document under an id. -/
def documentAt (w : Table) (collection id : String) : Option (Document Scalar) :=
  (w (collKey ns collection) id).bind Codec.decode

/-- `str(doc[field])`, if the document has the field. -/
def textOf (field : String) (doc : Document Scalar) : Option String :=
  (fieldValue doc field).map PyValue.str

def textAt (w : Table) (collection field id : String) : Option String :=
  (documentAt ns w collection id).bind (textOf field)

structure Consistent (s : World) : Prop where
  exact : ∀ ix ∈ s.known, ix.unique = true →
    IsInverse (s.view ix.key) (textAt ns s.view ix.collection ix.field)
  distinct : ∀ ix ∈ s.known, ix.unique = true → ∀ id id' doc doc' v,
    documentAt ns s.view ix.collection id = some doc →
    documentAt ns s.view ix.collection id' = some doc' →
    fieldValue doc ix.field = some v → fieldValue doc' ix.field = some v → id = id'

/-- What is claimed of a call. -/
structure Kept (s : World) (r : Request) : Prop where
  consistent : Consistent ns (step env ns s r)
  restored : ∀ e, (perform env ns s r).1 = some e → (step env ns s r).view = s.view

/-- The client goes over its own indexes, and has created all unique indexes on the
collection that any client has. -/
def InStep (s : World) (r : Request) (collection : String) : Prop :=
  r.indexes.Perm (s.registry r.client) ∧
    ∀ ix ∈ s.known, ix.collection = collection → ix.unique = true → ix ∈ s.registry r.client

def Admissible (s : World) (r : Request) : Prop :=
  match r.change with
  | .insertOne collection _ => InStep s r collection
  | .updateOne collection _ _ => InStep s r collection
  | .deleteOne collection _ => InStep s r collection
  | .createIndex _ _ _ => True

/-! ## The parts of an operation -/

/-- `insert_one` up to the claims. -/
def prepare (collection : String) (document : Document Scalar) : Program (Document Scalar) := do
  getClient
  ensureCollectionTracked ns collection
  withId ns collection document

/-- `insert_one` from the claims on. -/
def storeDocument (indexes : List Index) (collection : String) (doc : Document Scalar) :
    Program String := do
  claimAll ns collection (idText doc) (uniqueValues indexes collection doc)
  tryCatch (send (.hset (collKey ns collection) (idText doc) (Codec.encode doc))) fun _ => do
    releaseAll ns collection (idText doc)
      ((uniqueValues indexes collection doc).map fun slot => (slot.1, PyValue.str slot.2))
    throw (.failed "insert_one" collection)
  pure (idText doc)

/-- The document that `update_one` is about. -/
def target (collection : String) (filter : Filter Scalar) :
    Program (Option (String × Document Scalar)) := do
  getClient
  match filter.byId with
  | some targetId => do
    match ← send (.hget (collKey ns collection) targetId) with
    | none => pure none
    | some text =>
      match Codec.decode text with
      | none => throw .corrupted
      | some doc => pure (some (targetId, doc))
  | none => locate ns collection filter

/-- The id that `delete_one` is about. -/
def doomed (collection : String) (filter : Filter Scalar) : Program (Option String) := do
  getClient
  match filter.byId with
  | some targetId => pure (some targetId)
  | none => do
    let found ← locate ns collection filter
    pure (found.map Prod.fst)

/-- The documents that `create_index` goes over. -/
def present (collection : String) : Program (List (String × Document Scalar)) := do
  getClient
  send (.sadd (collectionsKey ns) collection)
  loadCollection ns collection

/-! ## What it takes -/

/-- A command that writes or deletes a document. -/
def OnDocuments (collection : String) : Call → Prop
  | .command (.hset key _ _) => key = collKey ns collection
  | .command (.hdel key _) => key = collKey ns collection
  | _ => False

/-- A call about an index fails with what is no Redis error, and before a hash has changed. -/
def Undisturbed (collection : String) (w : Table) (call : Call) (s : World) : Prop :=
  ∀ e, env s.tick = some e →
    OnDocuments ns collection call ∨ e.isRedis = false ∧ s.view = w

/-- The slot of a field value, as the key of a hash and a field in it. -/
def slotOf (collection : String) (slot : String × String) : String × String :=
  (indexKey ns collection slot.1, slot.2)

/-- The slots of the unique fields that the document has. -/
def slots (indexes : List Index) (collection : String) (doc : Document Scalar) :
    List (String × String) :=
  (uniqueValues indexes collection doc).map fun slot =>
    slotOf ns collection (slot.1, PyValue.str slot.2)

/-- And a document that gets written replaces none with unique fields. -/
def Careful (indexes : List Index) (collection : String) (doc : Document Scalar) (w : Table)
    (call : Call) (s : World) : Prop :=
  Undisturbed env ns collection w call s ∧
    (env s.tick = none → OnDocuments ns collection call →
      ∀ field ∈ uniqueFields indexes collection, textAt ns w collection field (idText doc) = none)

/-- If a slot is taken, the first one is. -/
structure InsertSound (indexes : List Index) (collection : String) (doc : Document Scalar)
    (s : World) : Prop where
  careful : Prog.AlongRun (redis env) (Careful env ns indexes collection doc s.view)
    (storeDocument ns indexes collection doc) s
  firstTaken : (∃ slot ∈ slots ns indexes collection doc, s.view slot.1 slot.2 ≠ none) →
    ∃ slot, (slots ns indexes collection doc).head? = some slot ∧ s.view slot.1 slot.2 ≠ none

/-- A call of `create_index` fails with a Redis error when it looks for a duplicate, or
before a hash has changed. -/
def Untouched (w : Table) (call : Call) (s : World) : Prop :=
  ∀ e, env s.tick = some e →
    (∀ key f v, call ≠ .command (.hset key f v)) ∧ e.isRedis = true ∨ s.view = w

/-- The index is there; or its key is its own, it starts with nothing wrong, no two documents
share a value, and an entry fails to be written only while all is as it was. -/
def CreateSound (collection field : String) (unique : Bool) (docs : List (String × Document Scalar))
    (s : World) : Prop :=
  (∃ ix ∈ s.known, ix.collection = collection ∧ ix.field = field ∧ ix.unique = true) ∨
    (∀ ix ∈ s.known, ix.key = indexKey ns collection field →
      ix.collection = collection ∧ ix.field = field) ∧
    (unique = true →
      (∀ t id, s.view (indexKey ns collection field) t = some id →
        textAt ns s.view collection field id = some t) ∧
      ∀ t id id', textAt ns s.view collection field id = some t →
        textAt ns s.view collection field id' = some t → id = id') ∧
    Prog.AlongRun (redis env) (Untouched env s.view)
      (docs.forM (indexDocument ns collection field unique)) s

/-- The call does not run into the ways to lose track. -/
def Sound (s : World) (r : Request) : Prop :=
  match r.change with
  | .insertOne collection document => ∀ doc s',
    (prepare ns collection document).run (redis env) s = (.ok doc, s') →
      InsertSound env ns r.indexes collection doc s'
  | .updateOne collection filter update => ∀ id doc s',
    (target ns collection filter).run (redis env) s = (.ok (some (id, doc)), s') →
      Prog.AlongRun (redis env) (Undisturbed env ns collection s'.view)
        (updateFound ns r.indexes collection id doc update) s'
  | .deleteOne collection filter => ∀ id s',
    (doomed ns collection filter).run (redis env) s = (.ok (some id), s') →
      Prog.AlongRun (redis env) (Undisturbed env ns collection s'.view)
        (deleteFound ns r.indexes collection id) s'
  | .createIndex collection field unique => ∀ docs s',
    (present ns collection).run (redis env) s = (.ok docs, s') →
      CreateSound env ns collection field unique docs s'

end

/-! ## One call -/

section

variable {env : Nat → Option StoreError} {G : Call → World → Prop} {w : Table} {key field : String}

namespace World

@[simp] theorem view_ticked (s : World) : s.ticked.view = s.view := rfl

@[simp] theorem view_addIndex (s : World) (client : Nat) (ix : Index) :
    (s.addIndex client ix).view = s.view := rfl

/-- The hashes with one of them replaced. -/
theorem view_update {s : World} {d : Dict String String} {o : Option String}
    (hd : ∀ f, d.get? f = if f = field then o else (s.hashes key).get? f) :
    ({ s with hashes := Function.update s.hashes key d } : World).view =
      setSlot s.view key field o := by
  funext k f
  show (Function.update s.hashes key d k).get? f = _
  rw [setSlot]
  by_cases hk : k = key
  · subst hk
    rw [Function.update_self, hd]
    simp only [true_and]
    rfl
  · rw [Function.update_of_ne hk, if_neg fun h => hk h.1]
    rfl

theorem view_exec_hset (s : World) (value : String) :
    (s.exec (.hset key field value)).2.view = setSlot s.view key field (some value) :=
  view_update fun f => by rw [Dict.get?_set]; simp only [eq_comm]

theorem view_exec_hdel (s : World) :
    (s.exec (.hdel key field)).2.view = setSlot s.view key field none :=
  view_update fun f => by rw [Dict.get?_erase]; simp only [eq_comm]

/-- `HSETNX` writes to a free field, and says so. -/
theorem exec_hsetnx (s : World) (key field value : String) :
    ((s.exec (.hsetnx key field value)).1 : Bool) = (s.view key field).isNone ∧
      (s.exec (.hsetnx key field value)).2.view =
        if (s.view key field).isNone then setSlot s.view key field (some value) else s.view := by
  show (match (s.hashes key).get? field with
    | some _ => (false, s)
    | none => (true, _) : Bool × World).1 = ((s.hashes key).get? field).isNone ∧ _
  cases hget : (s.hashes key).get? field with
  | some v =>
    have hview : s.view key field = some v := hget
    refine ⟨rfl, ?_⟩
    rw [hview]
    simp only [exec, hget]
    rfl
  | none =>
    have hview : s.view key field = none := hget
    refine ⟨rfl, ?_⟩
    rw [hview]
    simp only [exec, hget]
    exact s.view_exec_hset value

end World

/-- A command, whether it fails or not. -/
theorem send_spec {P : World → Prop} {c : Command} {Q : c.Reply → World → Prop}
    {E : StoreError → World → Prop}
    (hok : ∀ s, P s → G (.command c) s → env s.tick = none →
      Q (s.ticked.exec c).1 (s.ticked.exec c).2)
    (herr : ∀ s e, P s → G (.command c) s → env s.tick = some e → E e s.ticked) :
    Prog.Triple (redis env) G P (send c) Q E := by
  refine Prog.Triple.bind (Q := fun r s => Prog.Post Q E (r, s)) (Prog.Triple.ask ?_) ?_
  · intro s hP hG
    show Prog.Post Q E (match env s.tick with
      | some e => (.error e, s.ticked)
      | none => (.ok (s.ticked.exec c).1, (s.ticked.exec c).2) : Except StoreError c.Reply × World)
    cases he : env s.tick with
    | some e => exact herr s e hP hG he
    | none => exact hok s hP hG he
  · intro r s hs _
    exact hs

theorem getClient_spec {P : World → Prop} {E : StoreError → World → Prop} {Q : World → Prop}
    (hok : ∀ s, P s → env s.tick = none → Q s.ticked)
    (herr : ∀ s e, P s → G .getClient s → env s.tick = some e → E e s.ticked) :
    Prog.Triple (redis env) G P getClient (fun _ => Q) E := by
  refine Prog.Triple.bind (Q := fun r s => Prog.Post (fun _ => Q) E (r, s)) (Prog.Triple.ask ?_) ?_
  · intro s hP hG
    show Prog.Post (fun _ => Q) E (match env s.tick with
      | some e => (.error e, s.ticked)
      | none => (.ok (), s.ticked) : Except StoreError Unit × World)
    cases he : env s.tick with
    | some e => exact herr s e hP hG he
    | none => exact hok s hP he
  · intro r s hs _
    exact hs

/-- The end of an operation that has to leave the hashes as they were. -/
def Escaped (w : Table) (e : StoreError) (s : World) : Prop :=
  e.isRedis = false ∧ s.view = w

/-- An exception that is no Redis error passes the `except`. -/
theorem exceptRedis_spec {α : Type} {P : World → Prop} {body handler : Program α}
    {Q : α → World → Prop} (hbody : Prog.Triple (redis env) G P body Q (Escaped w)) :
    Prog.Triple (redis env) G P (exceptRedis body handler) Q (Escaped w) := by
  refine Prog.Triple.tryCatch hbody ?_
  intro e s hs hG
  rw [if_neg (by rw [hs.1]; rintro ⟨⟩)] at hG ⊢
  exact hs

/-! ## Slots -/

variable {ns collection : String} {w₀ : Table} {f text id : String}

/-- `Undisturbed`, for a call that is not about a document. -/
theorem Undisturbed.escaped {call : Call} {s : World}
    (h : Undisturbed env ns collection w₀ call s) (hcall : ¬ OnDocuments ns collection call)
    {e : StoreError} (he : env s.tick = some e) : Escaped w₀ e s.ticked := by
  rcases h e he with hdoc | hescaped
  · exact absurd hdoc hcall
  · exact hescaped

theorem idx_ne_coll {x y : String} : "osimflow:docs:idx:" ++ x ≠ "osimflow:docs:coll:" ++ y := by
  intro h
  have hlist : ("osimflow:docs:idx:" ++ x).toList = ("osimflow:docs:coll:" ++ y).toList :=
    congrArg String.toList h
  rw [String.toList_append, String.toList_append] at hlist
  simp at hlist

theorem indexKey_ne_collKey (collection field collection' : String) :
    indexKey ns collection field ≠ collKey ns collection' := by
  intro h
  unfold indexKey collKey at h
  simp only [String.append_assoc] at h
  exact idx_ne_coll h

theorem indexKey_injective {g : String} (h : indexKey ns collection f = indexKey ns collection g) :
    f = g := by
  unfold indexKey at h
  exact (String.append_right_inj _).mp h

theorem collKey_injective {collection' : String}
    (h : collKey ns collection = collKey ns collection') : collection = collection' := by
  unfold collKey at h
  exact (String.append_right_inj _).mp h

theorem claimUniqueIndexSlot_spec :
    Prog.Triple (redis env) (Undisturbed env ns collection w₀) (fun s => s.view = w)
      (claimUniqueIndexSlot ns collection f text id)
      (fun claimed s => claimed = (w (indexKey ns collection f) text).isNone ∧
        s.view = if (w (indexKey ns collection f) text).isNone then
          setSlot w (indexKey ns collection f) text (some id) else w)
      (Escaped w₀) := by
  apply exceptRedis_spec
  refine Prog.Triple.bind (Q := fun _ s => s.view = w) ?_ fun _ => ?_
  · exact getClient_spec (fun s hs _ => hs) fun s e _ hG he => hG.escaped (fun hd => hd) he
  · refine send_spec ?_ ?_
    · intro s hs _ _
      have hexec := s.ticked.exec_hsetnx (indexKey ns collection f) text id
      rw [World.view_ticked, hs] at hexec
      exact hexec
    · intro s e _ hG he
      exact hG.escaped (fun hd => hd) he

theorem releaseUniqueIndexSlot_spec :
    Prog.Triple (redis env) (Undisturbed env ns collection w₀) (fun s => s.view = w)
      (releaseUniqueIndexSlot ns collection f text id)
      (fun _ s => s.view = if w (indexKey ns collection f) text = some id then
        setSlot w (indexKey ns collection f) text none else w)
      (Escaped w₀) := by
  apply exceptRedis_spec
  refine Prog.Triple.bind (Q := fun _ s => s.view = w) ?_ fun _ => ?_
  · exact getClient_spec (fun s hs _ => hs) fun s e _ hG he => hG.escaped (fun hd => hd) he
  refine Prog.Triple.bind
    (Q := fun existing s => existing = w (indexKey ns collection f) text ∧ s.view = w) ?_
    fun existing => ?_
  · refine send_spec ?_ ?_
    · intro s hs _ _
      exact ⟨congrFun (congrFun hs _) _, hs⟩
    · intro s e _ hG he
      exact hG.escaped (fun hd => hd) he
  · refine Prog.Triple.ite ?_ ?_
    · intro hex
      refine send_spec ?_ ?_
      · intro s hs _ _
        rw [if_pos (by rw [← hs.1]; exact hex), World.view_exec_hdel, World.view_ticked, hs.2]
      · intro s e _ hG he
        exact hG.escaped (fun hd => indexKey_ne_collKey collection f collection hd) he
    · intro hex
      refine Prog.Triple.ret_ok ?_
      intro s hs
      rw [if_neg (by rw [← hs.1]; exact hex)]
      exact hs.2

/-! ## Loops over slots -/

theorem slotOf_injective {a b : String × String}
    (h : slotOf ns collection a = slotOf ns collection b) : a = b := by
  have hkey : indexKey ns collection a.1 = indexKey ns collection b.1 := congrArg Prod.fst h
  have htext : (slotOf ns collection a).2 = (slotOf ns collection b).2 := congrArg Prod.snd h
  exact Prod.ext (indexKey_injective hkey) htext

theorem mem_map_slotOf {a : String × String} {l : List (String × String)} :
    (indexKey ns collection a.1, a.2) ∈ l.map (slotOf ns collection) ↔ a ∈ l := by
  show slotOf ns collection a ∈ _ ↔ _
  rw [List.mem_map]
  constructor
  · intro h
    obtain ⟨b, hb, heq⟩ := h
    exact slotOf_injective heq ▸ hb
  · intro h
    exact ⟨a, h, rfl⟩

theorem map_slotOf_append (l : List (String × String)) (a : String × String) :
    (l ++ [a]).map (slotOf ns collection) =
      l.map (slotOf ns collection) ++ [(indexKey ns collection a.1, a.2)] := by
  rw [List.map_append]
  rfl

/-- Slots that the document owns are released. -/
theorem releaseAll_spec {l : List (String × String)}
    (hl : ∀ slot ∈ l, w (indexKey ns collection slot.1) slot.2 = some id) :
    Prog.Triple (redis env) (Undisturbed env ns collection w₀) (fun s => s.view = w)
      (releaseAll ns collection id l)
      (fun _ s => s.view = setSlots w (l.map (slotOf ns collection)) none) (Escaped w₀) := by
  refine Prog.Triple.strengthen (Prog.Triple.forM (I := fun done (s : World) =>
    s.view = setSlots w (done.map (slotOf ns collection)) none) ?_) ?_
  · intro done slot rest hsplit
    refine releaseUniqueIndexSlot_spec.conseq (fun s hs => hs) ?_ (fun _ _ he => he)
    intro _ s hs
    rw [hs, map_slotOf_append]
    have hslot := hl slot (by rw [hsplit]; simp)
    by_cases hdone : slot ∈ done
    · have hmem : (indexKey ns collection slot.1, slot.2) ∈ done.map (slotOf ns collection) :=
        mem_map_slotOf.mpr hdone
      rw [setSlots_of_mem hmem, if_neg nofun, setSlots_append_mem hmem]
    · have hmem : (indexKey ns collection slot.1, slot.2) ∉ done.map (slotOf ns collection) :=
        fun h => hdone (mem_map_slotOf.mp h)
      rw [setSlots_of_not_mem hmem, if_pos hslot, setSlot_setSlots]
  · intro s hs
    rw [hs, List.map_nil, setSlots_nil]

/-- Free slots are claimed. -/
theorem reclaimAll_spec {l : List (String × String)}
    (hl : ∀ slot ∈ l, w (indexKey ns collection slot.1) slot.2 = none) :
    Prog.Triple (redis env) (Undisturbed env ns collection w₀) (fun s => s.view = w)
      (reclaimAll ns collection id l)
      (fun _ s => s.view = setSlots w (l.map (slotOf ns collection)) (some id)) (Escaped w₀) := by
  refine Prog.Triple.strengthen (Prog.Triple.forM (I := fun done (s : World) =>
    s.view = setSlots w (done.map (slotOf ns collection)) (some id)) ?_) ?_
  · intro done slot rest hsplit
    refine Prog.Triple.bind claimUniqueIndexSlot_spec fun claimed => Prog.Triple.ret_ok ?_
    intro s hs
    rw [hs.2, map_slotOf_append]
    have hslot := hl slot (by rw [hsplit]; simp)
    by_cases hdone : slot ∈ done
    · have hmem : (indexKey ns collection slot.1, slot.2) ∈ done.map (slotOf ns collection) :=
        mem_map_slotOf.mpr hdone
      rw [setSlots_of_mem hmem, if_neg nofun, setSlots_append_mem hmem]
    · have hmem : (indexKey ns collection slot.1, slot.2) ∉ done.map (slotOf ns collection) :=
        fun h => hdone (mem_map_slotOf.mp h)
      rw [setSlots_of_not_mem hmem, hslot,
        if_pos (Option.isNone_none (α := String)), setSlot_setSlots]
  · intro s hs
    rw [hs, List.map_nil, setSlots_nil]

/-- The rollback restores the table. -/
theorem undoMoves_spec {claims released : List (String × String)}
    (h : Relocated w₀ w id (claims.map (slotOf ns collection)) (released.map (slotOf ns collection))) :
    Prog.Triple (redis env) (Undisturbed env ns collection w₀) (fun s => s.view = w)
      (undoMoves ns collection id claims released) (fun _ s => s.view = w₀) (Escaped w₀) := by
  have hclaims : ∀ slot ∈ claims, w (indexKey ns collection slot.1) slot.2 = some id := by
    intro slot hslot
    rw [h.now, if_pos (mem_map_slotOf.mpr hslot)]
  refine Prog.Triple.bind (releaseAll_spec hclaims) fun _ => ?_
  refine (reclaimAll_spec ?_).conseq (fun s hs => hs) ?_ (fun _ _ he => he)
  · intro slot hslot
    by_cases hc : slot ∈ claims
    · exact setSlots_of_mem (mem_map_slotOf.mpr hc)
    · rw [setSlots_of_not_mem fun hm => hc (mem_map_slotOf.mp hm), h.now,
        if_neg fun hm => hc (mem_map_slotOf.mp hm), if_pos (mem_map_slotOf.mpr hslot)]
  · intro _ s hs
    rw [hs, h.undone]

/-! ## Claims -/

/-- `(field, str(value))`. -/
def slotText (slot : String × Scalar) : String × String := (slot.1, PyValue.str slot.2)

/-- The slots of an insert, by field and text. -/
def fieldSlots (indexes : List Index) (collection : String) (doc : Document Scalar) :
    List (String × String) :=
  (uniqueValues indexes collection doc).map slotText

variable {indexes : List Index} {doc : Document Scalar} {fields : List String}

theorem slots_eq :
    slots ns indexes collection doc = (fieldSlots indexes collection doc).map (slotOf ns collection) := by
  rw [slots, fieldSlots, List.map_map]
  rfl

theorem mem_fieldSlots {t : String} :
    (f, t) ∈ fieldSlots indexes collection doc ↔
      f ∈ uniqueFields indexes collection ∧ textOf f doc = some t := by
  rw [fieldSlots, uniqueValues, List.map_filterMap, List.mem_filterMap]
  constructor
  · intro h
    obtain ⟨g, hg, hslot⟩ := h
    cases hv : fieldValue doc g with
    | none =>
      rw [hv] at hslot
      exact nomatch hslot
    | some v =>
      rw [hv] at hslot
      cases hslot
      exact ⟨hg, by rw [textOf, hv]; rfl⟩
  · intro h
    obtain ⟨hf, ht⟩ := h
    refine ⟨f, hf, ?_⟩
    cases hv : fieldValue doc f with
    | none =>
      rw [textOf, hv] at ht
      exact nomatch ht
    | some v =>
      rw [textOf, hv] at ht
      cases ht
      rfl

/-- If all slots are free, all are claimed. -/
theorem claimAll_free (hnodup : (uniqueFields indexes collection).Nodup)
    (hfree : ∀ slot ∈ fieldSlots indexes collection doc,
      w₀ (indexKey ns collection slot.1) slot.2 = none) :
    Prog.Triple (redis env) (Undisturbed env ns collection w₀) (fun s => s.view = w₀)
      (claimAll ns collection id (uniqueValues indexes collection doc))
      (fun _ s => Relocated w₀ s.view id
        ((fieldSlots indexes collection doc).map (slotOf ns collection)) [])
      (Escaped w₀) := by
  have hfields : ((uniqueValues indexes collection doc).map Prod.fst).Nodup := by
    have hsub : ((uniqueValues indexes collection doc).map Prod.fst).Sublist
        (uniqueFields indexes collection) := by
      rw [uniqueValues, List.map_filterMap]
      have hfilter : (fun g => Option.map Prod.fst ((fieldValue doc g).map fun v => (g, v))) =
          Option.guard fun g => (fieldValue doc g).isSome := by
        funext g
        cases hg : fieldValue doc g <;> simp [Option.guard, hg]
      rw [hfilter, List.filterMap_eq_filter]
      exact List.filter_sublist
    exact hsub.nodup hnodup
  refine Prog.Triple.conseq (Prog.Triple.forM (I := fun done (s : World) => Relocated w₀ s.view id
    ((done.map slotText).map (slotOf ns collection)) []) ?_)
    ?_ (fun _ s hs => hs) (fun _ _ he => he)
  · intro done slot rest hsplit s hs hG
    have hmem : slotText slot ∈ fieldSlots indexes collection doc :=
      List.mem_map.mpr ⟨slot, by rw [hsplit]; simp, rfl⟩
    have hnew : slotText slot ∉ done.map slotText := by
      intro hdone
      obtain ⟨other, hother, heq⟩ := List.mem_map.mp hdone
      rw [hsplit, List.map_append, List.map_cons] at hfields
      have hdisj := (List.nodup_append.mp hfields).2.2
      have hfield : (slotText other).1 = (slotText slot).1 := congrArg Prod.fst heq
      exact hdisj _ (List.mem_map.mpr ⟨other, hother, rfl⟩) _ List.mem_cons_self hfield
    have hnone : s.view (indexKey ns collection slot.1) (PyValue.str slot.2) = none := by
      have hnot : ¬ (indexKey ns collection slot.1, PyValue.str slot.2) ∈
          (done.map slotText).map (slotOf ns collection) :=
        fun hm => hnew (mem_map_slotOf (a := slotText slot) |>.mp hm)
      rw [hs.now, if_neg hnot, if_neg List.not_mem_nil]
      exact hfree _ hmem
    refine Prog.Triple.bind (claimUniqueIndexSlot_spec (w := s.view)) (fun claimed => ?_) s rfl hG
    refine Prog.Triple.ite ?_ ?_
    · intro _
      refine Prog.Triple.ret_ok ?_
      intro s' hs'
      rw [hs'.2, hnone, if_pos (Option.isNone_none (α := String)), List.map_append, List.map_append]
      exact hs.claim hnone
    · intro hclaimed
      refine Prog.Triple.throw ?_
      intro s' hs'
      rw [hs'.1, hnone] at hclaimed
      exact absurd (Option.isNone_none (α := String)) hclaimed
  · intro s hs
    rw [hs]
    exact Relocated.start w₀ id

/-- If the first slot is taken, nothing is claimed. -/
theorem claimAll_taken {slot : String × Scalar} {rest : List (String × Scalar)}
    (htaken : w₀ (indexKey ns collection slot.1) (PyValue.str slot.2) ≠ none) :
    Prog.Triple (redis env) (Undisturbed env ns collection w₀) (fun s => s.view = w₀)
      (claimAll ns collection id (slot :: rest)) (fun _ _ => False) (Escaped w₀) := by
  refine Prog.Triple.bind (Q := fun _ _ => False) ?_ fun _ => ?_
  · refine Prog.Triple.bind claimUniqueIndexSlot_spec fun claimed => ?_
    have hsome : (w₀ (indexKey ns collection slot.1) (PyValue.str slot.2)).isNone = false := by
      cases hw : w₀ (indexKey ns collection slot.1) (PyValue.str slot.2) with
      | none => exact absurd hw htaken
      | some v => rfl
    refine Prog.Triple.ite ?_ ?_
    · intro hclaimed
      refine Prog.Triple.ret_ok ?_
      intro s hs
      rw [hs.1, hsome] at hclaimed
      cases hclaimed
    · intro _
      refine Prog.Triple.throw ?_
      intro s hs
      rw [hsome] at hs
      exact ⟨rfl, hs.2⟩
  · intro s hs
    exact hs.elim

/-! ## Moves -/

/-- The claims and releases of an update that has gone over the fields in `done`. -/
structure Traced (before after : Document Scalar) (done : List String)
    (claims released : List (String × String)) : Prop where
  claims : ∀ f t, (f, t) ∈ claims ↔ f ∈ done ∧
    sameValue (fieldValue after f) (fieldValue before f) = false ∧ textOf f after = some t
  released : ∀ f t, (f, t) ∈ released ↔ f ∈ done ∧
    sameValue (fieldValue after f) (fieldValue before f) = false ∧ textOf f before = some t

variable {before after : Document Scalar}

/-- `moveSlots` at a field that changes, after the old slot is released. -/
def claimNew (ns collection id : String) (before after : Document Scalar) (field : String)
    (fields : List String) (claims released : List (String × String)) : Program Moved :=
  match fieldValue after field with
  | none => moveSlots ns collection id before after fields claims released
  | some new => do
    let claimed ← claimUniqueIndexSlot ns collection field (PyValue.str new) id
    if claimed then
      moveSlots ns collection id before after fields
        (claims ++ [(field, PyValue.str new)]) released
    else pure ⟨some (.duplicate field collection), claims, released⟩

theorem moveSlots_changed {claims released : List (String × String)}
    (h : sameValue (fieldValue after f) (fieldValue before f) = false) :
    moveSlots ns collection id before after (f :: fields) claims released =
      match fieldValue before f with
      | none => claimNew ns collection id before after f fields claims released
      | some old =>
        releaseUniqueIndexSlot ns collection f (PyValue.str old) id >>= fun _ =>
          claimNew ns collection id before after f fields claims
            (released ++ [(f, PyValue.str old)]) := by
  rw [moveSlots]
  simp only [h, Bool.false_eq_true, if_false, claimNew]
  cases fieldValue before f <;> cases fieldValue after f <;> rfl

/-- The release of the old slot of `f`, and what comes after it. -/
theorem release_old_spec {claims released : List (String × String)} {old : Scalar}
    {p : Program Moved} {Q : Moved → World → Prop}
    (howned : w₀ (indexKey ns collection f) (PyValue.str old) = some id)
    (hclaims : (f, PyValue.str old) ∉ claims) (hreleased : (f, PyValue.str old) ∉ released)
    (hk : Prog.Triple (redis env) (Undisturbed env ns collection w₀)
      (fun s => Relocated w₀ s.view id (claims.map (slotOf ns collection))
        ((released ++ [(f, PyValue.str old)]).map (slotOf ns collection)))
      p Q (Escaped w₀)) :
    Prog.Triple (redis env) (Undisturbed env ns collection w₀)
      (fun s => Relocated w₀ s.view id (claims.map (slotOf ns collection))
        (released.map (slotOf ns collection)))
      (releaseUniqueIndexSlot ns collection f (PyValue.str old) id >>= fun _ => p) Q
      (Escaped w₀) := by
  intro s hs hG
  have hnow : s.view (indexKey ns collection f) (PyValue.str old) = some id := by
    rw [hs.now, if_neg fun hm => hclaims (mem_map_slotOf (a := (f, PyValue.str old)) |>.mp hm),
      if_neg fun hm => hreleased (mem_map_slotOf (a := (f, PyValue.str old)) |>.mp hm)]
    exact howned
  refine Prog.Triple.bind (releaseUniqueIndexSlot_spec (w := s.view))
    (fun _ => hk.strengthen ?_) s rfl hG
  intro s' hs'
  rw [hs', if_pos hnow, map_slotOf_append]
  exact hs.release howned fun hm =>
    hclaims (mem_map_slotOf (a := (f, PyValue.str old)) |>.mp hm)

/-- The claims of an update, with what was claimed and released on the way. -/
theorem moveSlots_spec : ∀ (fields done : List String) (claims released : List (String × String)),
    (done ++ fields).Nodup →
    (∀ f ∈ fields, ∀ t, textOf f before = some t → w₀ (indexKey ns collection f) t = some id) →
    Traced before after done claims released →
    Prog.Triple (redis env) (Undisturbed env ns collection w₀)
      (fun s => Relocated w₀ s.view id (claims.map (slotOf ns collection))
        (released.map (slotOf ns collection)))
      (moveSlots ns collection id before after fields claims released)
      (fun moved s =>
        Relocated w₀ s.view id (moved.newClaims.map (slotOf ns collection))
          (moved.oldClaimsReleased.map (slotOf ns collection)) ∧
        match moved.duplicate with
        | some e => e.isRedis = false
        | none => Traced before after (done ++ fields) moved.newClaims moved.oldClaimsReleased)
      (Escaped w₀)
  | [], done, claims, released, _, _, htraced => by
    rw [List.append_nil]
    exact Prog.Triple.ret_ok fun s hs => ⟨hs, htraced⟩
  | f :: fields, done, claims, released, hnodup, howned, htraced => by
    have hnext : done ++ f :: fields = (done ++ [f]) ++ fields := by
      rw [List.append_assoc]
      rfl
    have hf : f ∉ done := by
      intro hmem
      exact (List.nodup_append.mp hnodup).2.2 f hmem f List.mem_cons_self rfl
    have hrest : ∀ g ∈ fields, ∀ t, textOf g before = some t →
        w₀ (indexKey ns collection g) t = some id :=
      fun g hg => howned g (List.mem_cons_of_mem f hg)
    rw [hnext] at hnodup ⊢
    by_cases hsame : sameValue (fieldValue after f) (fieldValue before f) = true
    · rw [moveSlots]
      simp only [hsame, if_true]
      refine moveSlots_spec fields (done ++ [f]) claims released hnodup hrest ?_
      constructor
      · intro g t
        rw [htraced.claims, List.mem_append, List.mem_singleton]
        grind
      · intro g t
        rw [htraced.released, List.mem_append, List.mem_singleton]
        grind
    · have hchanged := Bool.not_eq_true _ |>.mp hsame
      rw [moveSlots_changed hchanged]
      have hk : ∀ released', (∀ g t, (g, t) ∈ released' ↔
            (g, t) ∈ released ∨ g = f ∧ textOf f before = some t) →
          Prog.Triple (redis env) (Undisturbed env ns collection w₀)
            (fun s => Relocated w₀ s.view id (claims.map (slotOf ns collection))
              (released'.map (slotOf ns collection)))
            (claimNew ns collection id before after f fields claims released')
            (fun moved s =>
              Relocated w₀ s.view id (moved.newClaims.map (slotOf ns collection))
                (moved.oldClaimsReleased.map (slotOf ns collection)) ∧
              match moved.duplicate with
              | some e => e.isRedis = false
              | none =>
                Traced before after ((done ++ [f]) ++ fields) moved.newClaims moved.oldClaimsReleased)
            (Escaped w₀) := by
        intro released' hreleased
        have hdone : ∀ g t, (g, t) ∈ released' ↔ g ∈ done ++ [f] ∧
            sameValue (fieldValue after g) (fieldValue before g) = false ∧
            textOf g before = some t := by
          intro g t
          rw [hreleased, htraced.released, List.mem_append, List.mem_singleton]
          grind
        unfold claimNew
        cases hvalue : fieldValue after f with
        | none =>
          have hnone : textOf f after = none := by rw [textOf, hvalue]; rfl
          refine moveSlots_spec fields (done ++ [f]) claims released' hnodup hrest ⟨?_, hdone⟩
          intro g t
          rw [htraced.claims, List.mem_append, List.mem_singleton]
          grind
        | some new =>
          have hsome : textOf f after = some (PyValue.str new) := by rw [textOf, hvalue]; rfl
          intro s hs hG
          refine Prog.Triple.bind (claimUniqueIndexSlot_spec (w := s.view)) (fun claimed => ?_)
            s rfl hG
          refine Prog.Triple.ite ?_ ?_
          · intro hclaimed s' hs' hG'
            rw [hs'.1, Option.isNone_iff_eq_none] at hclaimed
            refine moveSlots_spec fields (done ++ [f]) (claims ++ [(f, PyValue.str new)]) released'
              hnodup hrest ⟨?_, hdone⟩ s' ?_ hG'
            · intro g t
              rw [List.mem_append, htraced.claims, List.mem_append, List.mem_singleton,
                List.mem_singleton, Prod.mk.injEq]
              grind
            · show Relocated w₀ s'.view id _ _
              rw [hs'.2, hclaimed, if_pos (Option.isNone_none (α := String)), map_slotOf_append]
              exact hs.claim hclaimed
          · intro hclaimed
            refine Prog.Triple.ret_ok ?_
            intro s' hs'
            have hview : s'.view = s.view := by
              rw [hs'.2, if_neg (by rw [← hs'.1]; exact hclaimed)]
            refine ⟨?_, rfl⟩
            rw [hview]
            exact hs
      cases hold : fieldValue before f with
      | none =>
        refine hk released ?_
        intro g t
        rw [textOf, hold]
        simp
      | some old =>
        have hsome : textOf f before = some (PyValue.str old) := by rw [textOf, hold]; rfl
        refine release_old_spec 
          (howned f List.mem_cons_self _ hsome) (fun hm => hf ((htraced.claims _ _).mp hm).1)
          (fun hm => hf ((htraced.released _ _).mp hm).1) (hk _ ?_)
        intro g t
        rw [hsome, List.mem_append, List.mem_singleton, Prod.mk.injEq, Option.some.injEq,
          @eq_comm _ t]

/-! ## The first part of an operation -/

section
variable [Codec Scalar] {w : Table} {filter : Filter Scalar}

/-- The table is as it was, however the call ends. -/
abbrev Unread {α : Type} (env : Nat → Option StoreError) (w : Table) (p : Program α)
    (Q : α → Prop) : Prop :=
  Prog.Triple (redis env) (fun _ _ => True) (fun s => s.view = w) p
    (fun a s => s.view = w ∧ Q a) (fun _ s => s.view = w)

omit [Codec Scalar] in
theorem getClient_reads : Unread env w getClient fun _ => True :=
  getClient_spec (fun _ hs _ => ⟨hs, trivial⟩) fun _ _ hs _ _ => hs

omit [Codec Scalar] in
/-- A command that only reads. -/
theorem send_reads {c : Command} {Q : c.Reply → Prop}
    (hc : ∀ s : World, s.view = w → (s.exec c).2.view = w ∧ Q (s.exec c).1) :
    Unread env w (send c) Q :=
  send_spec (fun s hs _ _ => hc s.ticked hs) fun _ _ hs _ _ => hs

omit [Codec Scalar] in
theorem prepare_spec (env : Nat → Option StoreError) (ns collection : String) (w : Table)
    (document : Document Scalar) :
    Unread env w (prepare ns collection document) fun _ => True := by
  refine Prog.Triple.bind getClient_reads fun _ => ?_
  refine Prog.Triple.bind (Q := fun _ s => s.view = w) ?_ fun _ => ?_
  · refine Prog.Triple.bind (getClient_reads.strengthen fun s hs => hs.1) fun _ => ?_
    exact send_spec (fun s hs _ _ => hs.1) fun _ _ hs _ _ => hs.1
  unfold withId
  cases document.get? "_id" with
  | some v => exact Prog.Triple.ret_ok fun s hs => ⟨hs, trivial⟩
  | none =>
    refine Prog.Triple.bind (Q := fun _ s => s.view = w) ?_
      fun id => Prog.Triple.ret_ok fun s hs => ⟨hs, trivial⟩
    refine Prog.Triple.bind getClient_reads fun _ => ?_
    refine Prog.Triple.bind (Q := fun _ s => s.view = w) ?_
      fun n => Prog.Triple.ret_ok fun s hs => hs
    exact send_spec (fun s hs _ _ => hs.1) fun _ _ hs _ _ => hs.1

/-- What `_load_collection` returns. -/
def Loaded (ns collection : String) (w : Table) (docs : List (String × Document Scalar)) : Prop :=
  ∀ id doc, (id, doc) ∈ docs ↔ documentAt ns w collection id = some doc

theorem loadCollection_spec :
    Unread env w (loadCollection ns collection) (Loaded ns collection w) := by
  refine Prog.Triple.bind getClient_reads fun _ => ?_
  refine Prog.Triple.bind (Q := fun (raw : List (String × String)) s => s.view = w ∧
    ∀ id text, (id, text) ∈ raw ↔ w (collKey ns collection) id = some text) ?_ fun raw => ?_
  · refine Prog.Triple.tryCatch (F := fun _ s => s.view = w) (send_spec ?_ ?_) ?_
    · intro s hs _ _
      refine ⟨hs.1, ?_⟩
      intro id text
      rw [← hs.1]
      exact Dict.mem_items
    · intro s e hs _ _
      exact hs.1
    · intro e
      exact Prog.Triple.throw fun s hs => hs
  · refine Prog.Triple.ret_ok ?_
    intro s hs
    refine ⟨hs.1, ?_⟩
    intro id doc
    rw [List.mem_filterMap, documentAt]
    constructor
    · intro h
      obtain ⟨entry, hentry, hdoc⟩ := h
      rw [Option.map_eq_some_iff] at hdoc
      obtain ⟨doc', hdecode, heq⟩ := hdoc
      cases heq
      rw [(hs.2 _ _).mp hentry]
      exact hdecode
    · intro h
      rw [Option.bind_eq_some_iff] at h
      obtain ⟨text, htext, hdecode⟩ := h
      exact ⟨(id, text), (hs.2 _ _).mpr htext, by rw [hdecode]; rfl⟩

omit [Codec Scalar] in
theorem firstMatch_mem {accepts : Document Scalar → Except StoreError Bool} :
    ∀ {docs : List (String × Document Scalar)} {entry : String × Document Scalar},
      firstMatch accepts docs = .ok (some entry) → entry ∈ docs
  | [], _, h => nomatch h
  | first :: rest, entry, h => by
    rw [firstMatch] at h
    cases ha : accepts first.2 with
    | error e =>
      rw [ha] at h
      exact nomatch h
    | ok b =>
      rw [ha] at h
      cases b with
      | true =>
        cases h
        exact List.mem_cons_self
      | false => exact List.mem_cons_of_mem _ (firstMatch_mem h)

theorem locate_spec : Unread env w (locate ns collection filter) fun found =>
    ∀ entry, found = some entry → documentAt ns w collection entry.1 = some entry.2 := by
  refine Prog.Triple.bind loadCollection_spec fun docs => ?_
  intro s hs _
  rw [Prog.run_ret]
  cases hm : firstMatch filter.accepts docs with
  | error e => exact hs.1
  | ok found =>
    refine ⟨hs.1, ?_⟩
    intro entry hentry
    rw [hentry] at hm
    exact (hs.2 _ _).mp (firstMatch_mem hm)

theorem target_spec (env : Nat → Option StoreError) (ns collection : String) (w : Table)
    (filter : Filter Scalar) : Unread env w (target ns collection filter) fun found =>
    ∀ entry, found = some entry → documentAt ns w collection entry.1 = some entry.2 := by
  refine Prog.Triple.bind getClient_reads fun _ => ?_
  cases filter.byId with
  | none => exact locate_spec.strengthen fun s hs => hs.1
  | some targetId =>
    refine Prog.Triple.bind (Q := fun (raw : Option String) s => s.view = w ∧
      raw = w (collKey ns collection) targetId) ?_ fun raw => ?_
    · refine (send_reads ?_).strengthen fun s hs => hs.1
      intro s hs
      exact ⟨hs, congrFun (congrFun hs _) _⟩
    · cases raw with
      | none => exact Prog.Triple.ret_ok fun s hs => ⟨hs.1, nofun⟩
      | some text =>
        cases hdecode : (Codec.decode text : Option (Document Scalar)) with
        | none =>
          simp only [hdecode]
          exact Prog.Triple.throw fun s hs => hs.1
        | some doc =>
          simp only [hdecode]
          refine Prog.Triple.ret_ok ?_
          intro s hs
          refine ⟨hs.1, ?_⟩
          intro entry hentry
          cases hentry
          rw [documentAt, ← hs.2]
          exact hdecode

theorem doomed_spec (env : Nat → Option StoreError) (ns collection : String) (w : Table)
    (filter : Filter Scalar) : Unread env w (doomed ns collection filter) fun _ => True := by
  refine Prog.Triple.bind getClient_reads fun _ => ?_
  cases filter.byId with
  | some targetId => exact Prog.Triple.ret_ok fun s hs => hs
  | none =>
    refine Prog.Triple.bind (locate_spec.strengthen fun s hs => hs.1) fun found => ?_
    exact Prog.Triple.ret_ok fun s hs => ⟨hs.1, trivial⟩

theorem present_spec (env : Nat → Option StoreError) (ns collection : String) (w : Table) :
    Unread env w (present ns collection) (Loaded ns collection w) := by
  refine Prog.Triple.bind getClient_reads fun _ => ?_
  refine Prog.Triple.bind (Q := fun _ s => s.view = w) ?_ fun _ => loadCollection_spec
  exact send_spec (fun s hs _ _ => hs.1) fun _ _ hs _ _ => hs.1

/-! ## The second part -/

variable {w₀ : Table} {indexes : List Index} {doc : Document Scalar} {id : String}

omit [Codec Scalar] in
/-- The write of a document, with a way back. -/
theorem write_spec {text : String} {α : Type} {rollback : Program α}
    {P : World → Prop} {Q : World → Prop}
    (hok : ∀ s, P s → G (.command (.hset (collKey ns collection) id text)) s → env s.tick = none →
      Q (s.ticked.exec (.hset (collKey ns collection) id text)).2)
    (hG : ∀ call s, G call s → Undisturbed env ns collection w₀ call s)
    (hback : Prog.Triple (redis env) (Undisturbed env ns collection w₀)
      (fun s => ∃ s', P s' ∧ s = s'.ticked) rollback (fun _ s => s.view = w₀) (Escaped w₀))
    {e : StoreError} :
    Prog.Triple (redis env) G P
      (tryCatch (send (.hset (collKey ns collection) id text)) fun _ => do
        let _ ← rollback
        throw e)
      (fun _ => Q) (fun _ s => s.view = w₀) := by
  refine Prog.Triple.tryCatch (F := fun _ s => ∃ s', P s' ∧ s = s'.ticked) (send_spec hok ?_) ?_
  · intro s e' hs _ _
    exact ⟨s, hs, rfl⟩
  · intro e'
    refine Prog.Triple.bind (Q := fun _ s => s.view = w₀) ?_ fun _ =>
      Prog.Triple.throw fun s hs => hs
    exact (hback.guard hG).conseq (fun s hs => hs) (fun _ _ hq => hq) (fun _ _ he => he.2)

/-- `insert_one` when all slots are free: all are claimed, and the document is written. -/
theorem storeDocument_free (hnodup : (uniqueFields indexes collection).Nodup)
    (hfree : ∀ slot ∈ fieldSlots indexes collection doc,
      w₀ (indexKey ns collection slot.1) slot.2 = none) :
    Prog.Triple (redis env) (Careful env ns indexes collection doc w₀) (fun s => s.view = w₀)
      (storeDocument ns indexes collection doc)
      (fun _ s => ∃ w, Relocated w₀ w (idText doc)
          ((fieldSlots indexes collection doc).map (slotOf ns collection)) [] ∧
        (∀ field ∈ uniqueFields indexes collection,
          textAt ns w₀ collection field (idText doc) = none) ∧
        s.view = setSlot w (collKey ns collection) (idText doc) (some (Codec.encode doc)))
      (fun _ s => s.view = w₀) := by
  have hG : ∀ call s, Careful env ns indexes collection doc w₀ call s →
      Undisturbed env ns collection w₀ call s := fun _ _ h => h.1
  refine Prog.Triple.bind (((claimAll_free hnodup hfree).guard hG).conseq (fun s hs => hs)
    (fun _ _ hq => hq) (fun _ _ he => he.2)) fun _ => ?_
  refine Prog.Triple.bind (write_spec ?_ hG ?_) fun _ => Prog.Triple.ret_ok fun s hs => hs
  · intro s hs hcareful he
    refine ⟨s.view, hs, hcareful.2 he rfl, ?_⟩
    rw [World.view_exec_hset, World.view_ticked]
  · intro s hs hrun
    obtain ⟨s', hs', rfl⟩ := hs
    have hclaims : ∀ slot ∈ fieldSlots indexes collection doc,
        s'.view (indexKey ns collection slot.1) slot.2 = some (idText doc) := by
      intro slot hslot
      rw [hs'.now, if_pos (mem_map_slotOf.mpr hslot)]
    refine (releaseAll_spec (w := s'.view) hclaims).conseq (fun s hs => hs) ?_ (fun _ _ he => he)
      s'.ticked rfl hrun
    intro _ s hs
    have hundone := hs'.undone
    rw [setSlots_nil] at hundone
    rw [hs, hundone]

/-- `insert_one` when the first slot is taken. -/
theorem storeDocument_taken {slot : String × String}
    (hhead : (slots ns indexes collection doc).head? = some slot) (htaken : w₀ slot.1 slot.2 ≠ none) :
    Prog.Triple (redis env) (Careful env ns indexes collection doc w₀) (fun s => s.view = w₀)
      (storeDocument ns indexes collection doc) (fun _ _ => False) (fun _ s => s.view = w₀) := by
  have hG : ∀ call s, Careful env ns indexes collection doc w₀ call s →
      Undisturbed env ns collection w₀ call s := fun _ _ h => h.1
  cases hvalues : uniqueValues indexes collection doc with
  | nil =>
    rw [slots, hvalues] at hhead
    exact nomatch hhead
  | cons first rest =>
    rw [slots, hvalues] at hhead
    cases hhead
    unfold storeDocument
    rw [hvalues]
    refine Prog.Triple.bind (Q := fun _ _ => False) ?_ fun _ s hs => hs.elim
    exact ((claimAll_taken htaken).guard hG).conseq (fun s hs => hs) (fun _ _ hq => hq)
      (fun _ _ he => he.2)

/-- `update_one`, for a document that owns the slots of its unique fields. -/
theorem updateFound_spec {update : Document Scalar → Except StoreError (Document Scalar)}
    (hnodup : (uniqueFields indexes collection).Nodup)
    (howned : ∀ f ∈ uniqueFields indexes collection, ∀ t, textOf f doc = some t →
      w₀ (indexKey ns collection f) t = some id) :
    Prog.Triple (redis env) (Undisturbed env ns collection w₀) (fun s => s.view = w₀)
      (updateFound ns indexes collection id doc update)
      (fun _ s => ∃ w updated claims released,
        Relocated w₀ w id (claims.map (slotOf ns collection)) (released.map (slotOf ns collection)) ∧
        Traced doc updated (uniqueFields indexes collection) claims released ∧
        s.view = setSlot w (collKey ns collection) id (some (Codec.encode updated)))
      (fun _ s => s.view = w₀) := by
  refine Prog.Triple.bind (Q := fun _ s => s.view = w₀) ?_ fun updated => ?_
  · intro s hs _
    rw [Prog.run_ret]
    cases update doc with
    | error e => exact hs
    | ok updated => exact hs
  refine Prog.Triple.bind ((moveSlots_spec (uniqueFields indexes collection) [] [] [] hnodup howned
    ⟨by simp, by simp⟩).conseq ?_ (fun _ _ hq => hq) (fun _ _ he => he.2)) fun moved => ?_
  · intro s hs
    show Relocated w₀ s.view id [] []
    rw [hs]
    exact Relocated.start w₀ id
  cases hdup : moved.duplicate with
  | some duplicate =>
    refine Prog.Triple.bind (Q := fun _ s => s.view = w₀) ?_ fun _ =>
      Prog.Triple.throw fun s hs => hs
    intro s hs hG
    exact (undoMoves_spec hs.1).conseq (fun s hs => hs) (fun _ _ hq => hq) (fun _ _ he => he.2)
      s rfl hG
  | none =>
    refine Prog.Triple.bind (write_spec ?_ (fun _ _ h => h) ?_) fun _ =>
      Prog.Triple.ret_ok fun s hs => hs
    · intro s hs _ _
      refine ⟨s.view, updated, moved.newClaims, moved.oldClaimsReleased, hs.1, hs.2, ?_⟩
      rw [World.view_exec_hset, World.view_ticked]
    · intro s hs hG
      obtain ⟨s', hs', rfl⟩ := hs
      exact undoMoves_spec (w := s'.view) hs'.1 s'.ticked rfl hG

/-- The table without the entries of a document under some keys. -/
def withoutEntries (w : Table) (keys : List String) (id : String) : Table := fun k t =>
  if k ∈ keys ∧ w k t = some id then none else w k t

omit [Codec Scalar] in
theorem dropEntries_spec (hkey : key ≠ collKey ns collection) :
    Prog.Triple (redis env) (Undisturbed env ns collection w₀) (fun s => s.view = w)
      (dropEntries id key) (fun _ s => s.view = withoutEntries w [key] id) (Escaped w₀) := by
  refine Prog.Triple.bind (Q := fun (entries : List (String × String)) s => s.view = w ∧
    ∀ t v, (t, v) ∈ entries ↔ w key t = some v) ?_ fun entries => ?_
  · refine exceptRedis_spec (send_spec ?_ ?_)
    · intro s hs _ _
      refine ⟨hs, ?_⟩
      intro t v
      rw [← hs]
      exact Dict.mem_items
    · intro s e _ hG he
      exact hG.escaped (fun hd => hd) he
  intro s hs hG
  obtain ⟨hview, hentries⟩ := hs
  refine Prog.Triple.conseq (A := fun s => s.view = w)
    (Prog.Triple.forM (I := fun done (s : World) => s.view = fun k t =>
      if k = key ∧ (t, id) ∈ done then none else w k t) ?_) ?_ ?_ (fun _ _ he => he) s hview hG
  · intro done entry rest hsplit
    refine Prog.Triple.ite ?_ ?_
    · intro hid
      refine exceptRedis_spec (send_spec ?_ ?_)
      · intro s hs _ _
        rw [World.view_exec_hdel, World.view_ticked, hs]
        funext k t
        have hentry : (t, id) ∈ done ++ [entry] ↔ (t, id) ∈ done ∨ t = entry.1 := by
          rw [List.mem_append, List.mem_singleton, Prod.ext_iff, hid]
          simp
        rw [setSlot]
        by_cases hk : k = key
        · by_cases ht : t = entry.1
          · rw [if_pos ⟨hk, ht⟩, if_pos ⟨hk, hentry.mpr (Or.inr ht)⟩]
          · rw [if_neg fun h => ht h.2]
            simp only [hk, true_and, hentry, ht, or_false]
        · rw [if_neg fun h => hk h.1, if_neg fun h => hk h.1, if_neg fun h => hk h.1]
      · intro s e _ hG he
        exact hG.escaped (fun hd => hkey hd) he
    · intro hid
      refine Prog.Triple.ret_ok ?_
      intro s hs
      rw [hs]
      funext k t
      have hentry : (t, id) ∈ done ++ [entry] ↔ (t, id) ∈ done := by
        rw [List.mem_append, List.mem_singleton, Prod.ext_iff]
        simp [Ne.symm hid]
      simp only [hentry]
  · intro s hs
    rw [hs]
    simp
  · intro _ s hs
    rw [hs]
    funext k t
    simp only [withoutEntries, List.mem_singleton, hentries]
    by_cases hk : k = key
    · simp only [hk]
    · rw [if_neg fun h => hk h.1, if_neg fun h => hk h.1]

omit [Codec Scalar] in
theorem deleteFound_spec
    (hkeys : ∀ ix ∈ indexes, ix.collection = collection → ix.key ≠ collKey ns collection) :
    Prog.Triple (redis env) (Undisturbed env ns collection w₀) (fun s => s.view = w₀)
      (deleteFound ns indexes collection id)
      (fun _ s => s.view = withoutEntries (setSlot w₀ (collKey ns collection) id none)
        ((indexes.filter fun ix => ix.collection = collection).map Index.key) id)
      (fun _ s => s.view = w₀) := by
  refine Prog.Triple.bind (Q := fun _ s => s.view = setSlot w₀ (collKey ns collection) id none)
    ?_ fun _ => ?_
  · refine Prog.Triple.tryCatch (F := fun _ s => s.view = w₀) (send_spec ?_ ?_) ?_
    · intro s hs _ _
      rw [World.view_exec_hdel, World.view_ticked, hs]
    · intro s e hs _ _
      exact hs
    · intro e
      exact Prog.Triple.throw fun s hs => hs
  refine Prog.Triple.bind (Q := fun _ s => s.view = withoutEntries
    (setSlot w₀ (collKey ns collection) id none)
    ((indexes.filter fun ix => ix.collection = collection).map Index.key) id) ?_
    fun _ => Prog.Triple.ret_ok fun s hs => hs
  refine Prog.Triple.conseq (E := Escaped w₀) (Prog.Triple.forM (I := fun done (s : World) =>
    s.view = withoutEntries (setSlot w₀ (collKey ns collection) id none) done id) ?_) ?_
    (fun _ _ hq => hq) (fun _ _ he => he.2)
  · intro done key' rest hsplit
    have hkey' : key' ≠ collKey ns collection := by
      have hmem : key' ∈ (indexes.filter fun ix => ix.collection = collection).map Index.key := by
        rw [hsplit]
        simp
      obtain ⟨ix, hix, rfl⟩ := List.mem_map.mp hmem
      obtain ⟨hix, hcoll⟩ := List.mem_filter.mp hix
      exact hkeys ix hix (of_decide_eq_true hcoll)
    refine (dropEntries_spec hkey').conseq (fun s hs => hs) ?_ (fun _ _ he => he)
    intro _ s hs
    rw [hs]
    funext k t
    simp only [withoutEntries, List.mem_append, List.mem_singleton]
    grind
  · intro s hs
    rw [hs]
    funext k t
    simp [withoutEntries]

/-! ## A new index -/

/-- The table while `create_index` goes over the documents: nothing else has changed, and the
index of a unique field has the entries of those done. -/
structure Filling (ns collection field : String) (unique : Bool) (w₀ w : Table)
    (done : List (String × Document Scalar)) : Prop where
  frame : ∀ k, k ≠ indexKey ns collection field → w k = w₀ k
  filled : unique = true → ∀ t id, w (indexKey ns collection field) t = some id ↔
    w₀ (indexKey ns collection field) t = some id ∨
      ∃ doc, (id, doc) ∈ done ∧ textOf field doc = some t

omit [Codec Scalar] in
theorem checkUniqueIndex_spec {value : Scalar}
    (hG : ∀ call s e, s.view = w → G call s → env s.tick = some e →
      e.isRedis = true ∨ s.view = w₀)
    (howner : ∀ owner, w (indexKey ns collection field) (PyValue.str value) = some owner →
      owner = id) :
    Prog.Triple (redis env) G (fun s => s.view = w)
      (checkUniqueIndex ns collection field value id) (fun _ s => s.view = w)
      (fun _ s => s.view = w₀) := by
  refine Prog.Triple.bind (Q := fun (existing : Option String) s => s.view = w ∧
    ∀ owner, existing = some owner → owner = id) ?_ fun existing => ?_
  · refine Prog.Triple.tryCatch (F := fun e s => s.view = w ∧ (e.isRedis = true ∨ s.view = w₀))
      (Prog.Triple.bind (Q := fun _ s => s.view = w) ?_ fun _ => ?_) fun e => ?_
    · exact getClient_spec (fun s hs _ => hs) fun s e hs hg he => ⟨hs, hG _ s e hs hg he⟩
    · refine send_spec ?_ fun s e hs hg he => ⟨hs, hG _ s e hs hg he⟩
      intro s hs _ _
      refine ⟨hs, ?_⟩
      intro owner hget
      apply howner
      rw [← hs]
      exact hget
    · refine Prog.Triple.ite ?_ ?_
      · intro _
        exact Prog.Triple.ret_ok fun s hs => ⟨hs.1, nofun⟩
      · intro hredis
        refine Prog.Triple.throw ?_
        intro s hs
        exact hs.2.resolve_left hredis
  · cases existing with
    | none => exact Prog.Triple.ret_ok fun s hs => hs.1
    | some owner =>
      refine Prog.Triple.ite ?_ ?_
      · intro _
        exact Prog.Triple.ret_ok fun s hs => hs.1
      · intro hne
        refine Prog.Triple.throw ?_
        intro s hs
        exact absurd (hs.2 owner rfl) hne

omit [Codec Scalar] in
theorem indexDocument_eq {unique : Bool} {entry : String × Document Scalar} {value : Scalar}
    (h : fieldValue entry.2 field = some value) :
    indexDocument ns collection field unique entry =
      (if unique = true then checkUniqueIndex ns collection field value entry.1 else pure ()) >>=
        fun _ => send (.hset (indexKey ns collection field) (PyValue.str value) entry.1) := by
  rw [indexDocument, h]
  cases unique <;> rfl

/-- An index whose key is its own is filled with the documents. -/
theorem indexDocuments_spec (env : Nat → Option StoreError) (field : String) (unique : Bool)
    {docs : List (String × Document Scalar)}
    (hdocs : Loaded ns collection w₀ docs)
    (hright : unique = true → ∀ t id, w₀ (indexKey ns collection field) t = some id →
      textAt ns w₀ collection field id = some t)
    (hdistinct : unique = true → ∀ t id id', textAt ns w₀ collection field id = some t →
      textAt ns w₀ collection field id' = some t → id = id') :
    Prog.Triple (redis env) (Untouched env w₀) (fun s => s.view = w₀)
      (docs.forM (indexDocument ns collection field unique))
      (fun _ s => Filling ns collection field unique w₀ s.view docs) (fun _ s => s.view = w₀) := by
  refine Prog.Triple.strengthen (Prog.Triple.forM (I := fun done (s : World) =>
    Filling ns collection field unique w₀ s.view done) ?_) ?_
  · intro done entry rest hsplit
    have hentry : textAt ns w₀ collection field entry.1 = textOf field entry.2 := by
      have hdoc := (hdocs entry.1 entry.2).mp (by rw [hsplit]; simp)
      rw [textAt, hdoc]
      rfl
    have hdone : ∀ id doc t, (id, doc) ∈ done → textOf field doc = some t →
        textAt ns w₀ collection field id = some t := by
      intro id doc t hmem ht
      have hdoc := (hdocs id doc).mp (by rw [hsplit]; exact List.mem_append_left _ hmem)
      rw [textAt, hdoc]
      exact ht
    cases hvalue : fieldValue entry.2 field with
    | none =>
      have hnone : textOf field entry.2 = none := by rw [textOf, hvalue]; rfl
      rw [indexDocument, hvalue]
      refine Prog.Triple.ret_ok ?_
      intro s hs
      refine ⟨hs.frame, ?_⟩
      intro hunique t id
      rw [hs.filled hunique]
      refine or_congr Iff.rfl (exists_congr fun doc => ?_)
      rw [List.mem_append, List.mem_singleton]
      constructor
      · intro h
        exact ⟨Or.inl h.1, h.2⟩
      · intro h
        rcases h.1 with hmem | heq
        · exact ⟨hmem, h.2⟩
        · rw [← heq] at hnone
          exact absurd h.2 (by rw [hnone]; exact nofun)
    | some value =>
      have hsome : textOf field entry.2 = some (PyValue.str value) := by rw [textOf, hvalue]; rfl
      rw [indexDocument_eq hvalue]
      intro s hs hG
      have hcheck : Prog.Triple (redis env) (Untouched env w₀) (fun s' => s'.view = s.view)
          (if unique = true then checkUniqueIndex ns collection field value entry.1 else pure ())
          (fun _ s' => s'.view = s.view) (fun _ s => s.view = w₀) := by
        refine Prog.Triple.ite ?_ fun _ => Prog.Triple.ret_ok fun s hs => hs
        intro hunique
        refine checkUniqueIndex_spec (fun _ s e _ hg he => (hg e he).imp_left And.right) ?_
        intro owner howner
        -- the owner has the value, as the document does
        apply hdistinct hunique (PyValue.str value) _ _ _ (hentry.trans hsome)
        rcases (hs.filled hunique _ _).mp howner with hw | hd
        · exact hright hunique _ _ hw
        · obtain ⟨doc, hmem, ht⟩ := hd
          exact hdone _ _ _ hmem ht
      refine Prog.Triple.bind hcheck (fun _ => send_spec ?_ ?_) s rfl hG
      · intro s' hs' _ _
        rw [World.view_exec_hset, World.view_ticked, hs']
        constructor
        · intro k hk
          rw [← hs.frame k hk]
          funext t
          rw [setSlot, if_neg fun h => hk h.1]
        · intro hunique t id
          rw [setSlot]
          by_cases ht : t = PyValue.str value
          · rw [if_pos ⟨rfl, ht⟩, Option.some.injEq]
            constructor
            · intro hid
              exact Or.inr ⟨entry.2, by rw [← hid]; simp, by rw [ht]; exact hsome⟩
            · intro h
              apply hdistinct hunique t _ _ (by rw [hentry, ht]; exact hsome)
              rcases h with hw | hd
              · exact hright hunique _ _ hw
              · obtain ⟨doc, hmem, hdoc⟩ := hd
                rcases List.mem_append.mp hmem with hmem | hmem
                · exact hdone _ _ _ hmem hdoc
                · rw [← List.mem_singleton.mp hmem] at hentry
                  exact hentry.trans hdoc
          · rw [if_neg fun h => ht h.2, hs.filled hunique]
            refine or_congr Iff.rfl (exists_congr fun doc => ?_)
            rw [List.mem_append, List.mem_singleton]
            constructor
            · intro h
              exact ⟨Or.inl h.1, h.2⟩
            · intro h
              rcases h.1 with hmem | heq
              · exact ⟨hmem, h.2⟩
              · rw [← heq] at hsome
                exact absurd (Option.some.inj (h.2.symm.trans hsome)) ht
      · intro s' e hs' hG' he
        rcases hG' e he with hnot | hview
        · exact absurd rfl (hnot.1 _ _ _)
        · exact hview
  · intro s hs
    rw [hs]
    exact ⟨fun _ _ => rfl, by simp⟩

/-- An index that is exact stays as it is, whatever fails. -/
theorem reindexDocuments_spec {unique : Bool} {docs : List (String × Document Scalar)}
    (hdocs : Loaded ns collection w₀ docs)
    (hexact : IsInverse (w₀ (indexKey ns collection field)) (textAt ns w₀ collection field)) :
    Prog.Triple (redis env) (fun _ _ => True) (fun s => s.view = w₀)
      (docs.forM (indexDocument ns collection field unique)) (fun _ s => s.view = w₀)
      (fun _ s => s.view = w₀) := by
  refine Prog.Triple.forM (I := fun _ (s : World) => s.view = w₀) ?_
  intro done entry rest hsplit
  have hdoc := (hdocs entry.1 entry.2).mp (by rw [hsplit]; simp)
  cases hvalue : fieldValue entry.2 field with
  | none =>
    rw [indexDocument, hvalue]
    exact Prog.Triple.ret_ok fun s hs => hs
  | some value =>
    have hslot : w₀ (indexKey ns collection field) (PyValue.str value) = some entry.1 := by
      rw [hexact, textAt, hdoc]
      show textOf field entry.2 = _
      rw [textOf, hvalue]
      rfl
    rw [indexDocument_eq hvalue]
    refine Prog.Triple.bind (Q := fun _ s => s.view = w₀) ?_ fun _ => send_spec ?_ ?_
    · refine Prog.Triple.ite ?_ fun _ => Prog.Triple.ret_ok fun s hs => hs
      intro _
      refine checkUniqueIndex_spec (fun _ _ _ hview _ _ => Or.inr hview) ?_
      intro owner howner
      rw [hslot] at howner
      exact (Option.some.inj howner).symm
    · intro s hs _ _
      rw [World.view_exec_hset, World.view_ticked, hs]
      funext k t
      rw [setSlot]
      split
      next h => rw [h.1, h.2]; exact hslot.symm
      next => rfl
    · intro s e hs _ _
      exact hs

end

end

/-! ## The invariant -/

section
variable {env : Nat → Option StoreError} [Codec Scalar] {ns collection : String}
  {indexes : List Index} {w w₀ : Table} {s : World}

/-- The registries: the keys are those of the fields, and no two fields share one. -/
structure WellFormed (ns : String) (s : World) : Prop where
  keys : ∀ ix ∈ s.known, ix.key = indexKey ns ix.collection ix.field
  own : ∀ ix ∈ s.known, ∀ ix' ∈ s.known, ix.key = ix'.key →
    ix.collection = ix'.collection ∧ ix.field = ix'.field
  registered : ∀ client, ∀ ix ∈ s.registry client, ix ∈ s.known
  nodup : ∀ client, (s.registry client).Nodup

def Inv (ns : String) (s : World) : Prop := WellFormed ns s ∧ Consistent ns s

omit [Codec Scalar] in
theorem mem_uniqueFields {f : String} :
    f ∈ uniqueFields indexes collection ↔
      ∃ ix ∈ indexes, ix.collection = collection ∧ ix.unique = true ∧ ix.field = f := by
  rw [uniqueFields, List.mem_map]
  constructor
  · intro h
    obtain ⟨ix, hix, hf⟩ := h
    obtain ⟨hmem, hcond⟩ := List.mem_filter.mp hix
    rw [Bool.and_eq_true, decide_eq_true_eq] at hcond
    exact ⟨ix, hmem, hcond.1, hcond.2, hf⟩
  · intro h
    obtain ⟨ix, hmem, hc, hu, hf⟩ := h
    exact ⟨ix, List.mem_filter.mpr ⟨hmem, by simp [hc, hu]⟩, hf⟩

omit [Codec Scalar] in
/-- What being in step gives: the unique fields are those of the known indexes. -/
theorem InStep.known {r : Request} (hwf : WellFormed ns s) (h : InStep s r collection) {ix : Index} :
    ix ∈ r.indexes → ix ∈ s.known :=
  fun hix => hwf.registered r.client ix (h.1.mem_iff.mp hix)

omit [Codec Scalar] in
theorem InStep.fields {r : Request} (h : InStep s r collection) {ix : Index} (hix : ix ∈ s.known)
    (hc : ix.collection = collection) (hu : ix.unique = true) :
    ix.field ∈ uniqueFields r.indexes collection :=
  mem_uniqueFields.mpr ⟨ix, h.1.mem_iff.mpr (h.2 ix hix hc hu), hc, hu, rfl⟩

omit [Codec Scalar] in
theorem InStep.nodup {r : Request} (hwf : WellFormed ns s) (h : InStep s r collection) :
    (uniqueFields r.indexes collection).Nodup := by
  rw [uniqueFields]
  refine List.Nodup.map_on ?_ ((h.1.nodup_iff.mpr (hwf.nodup r.client)).filter _)
  intro ix hix ix' hix' hfield
  obtain ⟨hmem, hcond⟩ := List.mem_filter.mp hix
  obtain ⟨hmem', hcond'⟩ := List.mem_filter.mp hix'
  rw [Bool.and_eq_true, decide_eq_true_eq] at hcond hcond'
  have hkey := hwf.keys ix (h.known hwf hmem)
  have hkey' := hwf.keys ix' (h.known hwf hmem')
  have hcoll : ix.collection = ix'.collection := hcond.1.trans hcond'.1.symm
  have hunique : ix.unique = ix'.unique := hcond.2.trans hcond'.2.symm
  rw [hcoll, hfield, ← hkey'] at hkey
  cases ix
  cases ix'
  simp_all

theorem consistent_of_exact (hexact : ∀ ix ∈ s.known, ix.unique = true →
    IsInverse (s.view ix.key) (textAt ns s.view ix.collection ix.field)) : Consistent ns s where
  exact := hexact
  distinct := by
    intro ix hix hunique id id' doc doc' v hdoc hdoc' hv hv'
    refine (hexact ix hix hunique).unique (t := PyValue.str v) ?_ ?_
    · rw [textAt, hdoc]
      show textOf ix.field doc = _
      rw [textOf, hv]
      rfl
    · rw [textAt, hdoc']
      show textOf ix.field doc' = _
      rw [textOf, hv']
      rfl

/-- A table in which a document of the collection has been replaced, and the indexes with it. -/
structure Replaced (ns collection : String) (known : List Index) (w₀ w : Table) (id : String)
    (doc : Option (Document Scalar)) : Prop where
  documents : documentAt ns w collection = Function.update (documentAt ns w₀ collection) id doc
  elsewhere : ∀ ix ∈ known, ix.collection ≠ collection →
    w ix.key = w₀ ix.key ∧ documentAt ns w ix.collection = documentAt ns w₀ ix.collection
  refiled : ∀ ix ∈ known, ix.collection = collection → ix.unique = true →
    w ix.key = refile (w₀ ix.key) id (textAt ns w₀ collection ix.field id)
      (doc.bind (textOf ix.field)) ∧
    ∀ t, doc.bind (textOf ix.field) = some t → w₀ ix.key t = none ∨ w₀ ix.key t = some id

/-- The indexes follow the document. -/
theorem Replaced.exact {known : List Index} {id : String} {doc : Option (Document Scalar)}
    (h : Replaced ns collection known w₀ w id doc)
    (hexact : ∀ ix ∈ known, ix.unique = true →
      IsInverse (w₀ ix.key) (textAt ns w₀ ix.collection ix.field)) :
    ∀ ix ∈ known, ix.unique = true → IsInverse (w ix.key) (textAt ns w ix.collection ix.field) := by
  intro ix hix hunique
  have hinverse := hexact ix hix hunique
  by_cases hc : ix.collection = collection
  · obtain ⟨hrefile, hfree⟩ := h.refiled ix hix hc hunique
    have htext : textAt ns w ix.collection ix.field =
        Function.update (textAt ns w₀ ix.collection ix.field) id (doc.bind (textOf ix.field)) := by
      funext id'
      rw [textAt, hc, h.documents]
      by_cases hid : id' = id
      · rw [hid, Function.update_self, Function.update_self]
      · rw [Function.update_of_ne hid, Function.update_of_ne hid]
        rfl
    rw [htext, hrefile, ← hc]
    exact hinverse.move hfree
  · obtain ⟨hkey, hdoc⟩ := h.elsewhere ix hix hc
    have htext : textAt ns w ix.collection ix.field = textAt ns w₀ ix.collection ix.field := by
      funext id'
      rw [textAt, hdoc]
      rfl
    rw [hkey, htext]
    exact hinverse

omit [Codec Scalar] in
/-- No slot of the collection is under a key that is not one of its indexes. -/
theorem not_mem_slots {l : List (String × String)} {k t : String}
    (hk : ∀ slot ∈ l, k ≠ indexKey ns collection slot.1) :
    (k, t) ∉ l.map (slotOf ns collection) := by
  intro hmem
  obtain ⟨slot, hslot, heq⟩ := List.mem_map.mp hmem
  exact hk slot hslot (congrArg Prod.fst heq).symm

omit [Codec Scalar] in
theorem relocated_frame {id : String} {claims released : List (String × String)} {k : String}
    (h : Relocated w₀ w id (claims.map (slotOf ns collection)) (released.map (slotOf ns collection)))
    (hclaims : ∀ slot ∈ claims, k ≠ indexKey ns collection slot.1)
    (hreleased : ∀ slot ∈ released, k ≠ indexKey ns collection slot.1) : w k = w₀ k := by
  funext t
  rw [h.now, if_neg (not_mem_slots hclaims), if_neg (not_mem_slots hreleased)]

/-- The table after an insert or an update. -/
theorem replaced_of_relocated {id : String} {claims : List (String × String)}
    (doc : Document Scalar) (fields : List String) (released : List (String × String))
    (changed : String → Prop) (hwf : WellFormed ns s)
    (hknown : ∀ f ∈ fields, ∃ ix ∈ s.known, ix.collection = collection ∧ ix.field = f)
    (hfields : ∀ ix ∈ s.known, ix.collection = collection → ix.unique = true → ix.field ∈ fields)
    (hrel : Relocated w₀ w id (claims.map (slotOf ns collection))
      (released.map (slotOf ns collection)))
    (hclaims : ∀ f t, (f, t) ∈ claims ↔ f ∈ fields ∧ changed f ∧ textOf f doc = some t)
    (hreleased : ∀ f t, (f, t) ∈ released ↔
      f ∈ fields ∧ changed f ∧ textAt ns w₀ collection f id = some t)
    (hsame : ∀ f ∈ fields, ¬ changed f → textOf f doc = textAt ns w₀ collection f id)
    (howned : ∀ f ∈ fields, ∀ t, textAt ns w₀ collection f id = some t →
      w₀ (indexKey ns collection f) t = some id) :
    Replaced ns collection s.known w₀
      (setSlot w (collKey ns collection) id (some (Codec.encode doc))) id (some doc) := by
  have hcoll : ∀ collection', w (collKey ns collection') = w₀ (collKey ns collection') := by
    intro collection'
    exact relocated_frame hrel (fun slot _ he => indexKey_ne_collKey _ _ _ he.symm)
      fun slot _ he => indexKey_ne_collKey _ _ _ he.symm
  have hkey : ∀ ix ∈ s.known, ix.key ≠ collKey ns collection := by
    intro ix hix
    rw [hwf.keys ix hix]
    exact indexKey_ne_collKey _ _ _
  constructor
  · funext id'
    rw [documentAt, setSlot, hcoll]
    by_cases hid : id' = id
    · rw [hid, Function.update_self, if_pos ⟨rfl, rfl⟩]
      exact Codec.decode_encode doc
    · rw [Function.update_of_ne hid, if_neg fun h => hid h.2]
      rfl
  · intro ix hix hne
    have hother : ∀ f ∈ fields, ix.key ≠ indexKey ns collection f := by
      intro f hf he
      obtain ⟨ix', hix', hc', hf'⟩ := hknown f hf
      rw [← hc', ← hf', ← hwf.keys ix' hix'] at he
      exact hne ((hwf.own ix hix ix' hix' he).1.trans hc')
    constructor
    · rw [← relocated_frame hrel (fun slot hslot => hother _ ((hclaims slot.1 slot.2).mp hslot).1)
        fun slot hslot => hother _ ((hreleased slot.1 slot.2).mp hslot).1]
      funext t
      rw [setSlot, if_neg fun h => hkey ix hix h.1]
    · funext id'
      rw [documentAt, setSlot, if_neg fun h => hne (collKey_injective h.1), hcoll]
      rfl
  · intro ix hix hc hunique
    have hf := hfields ix hix hc hunique
    have hk : ix.key = indexKey ns collection ix.field := by rw [hwf.keys ix hix, hc]
    have hslot : ∀ t l, (ix.key, t) ∈ List.map (slotOf ns collection) l ↔ (ix.field, t) ∈ l := by
      intro t l
      rw [hk]
      exact mem_map_slotOf (a := (ix.field, t))
    constructor
    · have hset : setSlot w (collKey ns collection) id (some (Codec.encode doc)) ix.key = w ix.key := by
        funext t
        rw [setSlot, if_neg fun h => hkey ix hix h.1]
      rw [hset]
      refine hrel.refile_eq (changed ix.field) ?_ (hsame ix.field hf) ?_ ?_
      · intro t ht
        rw [hk]
        exact howned ix.field hf t ht
      · intro t
        rw [hslot, hclaims]
        exact and_iff_right hf
      · intro t
        rw [hslot, hreleased]
        exact and_iff_right hf
    · intro t ht
      by_cases hch : changed ix.field
      · rcases hrel.free (ix.key, t) ((hslot t _).mpr ((hclaims _ _).mpr ⟨hf, hch, ht⟩)) with
          hfree | hr
        · exact Or.inl hfree
        · exact Or.inr (hrel.owned (ix.key, t) hr)
      · refine Or.inr ?_
        rw [hk]
        exact howned ix.field hf t ((hsame ix.field hf hch).symm.trans ht)

/-- The table after a delete. -/
theorem replaced_of_without (id : String) (hwf : WellFormed ns s)
    (hexact : ∀ ix ∈ s.known, ix.unique = true →
      IsInverse (w₀ ix.key) (textAt ns w₀ ix.collection ix.field))
    (hknown : ∀ ix ∈ indexes, ix ∈ s.known)
    (hindexes : ∀ ix ∈ s.known, ix.collection = collection → ix.unique = true → ix ∈ indexes) :
    Replaced ns collection s.known w₀
      (withoutEntries (setSlot w₀ (collKey ns collection) id none)
        ((indexes.filter fun ix => ix.collection = collection).map Index.key) id) id none := by
  have hmem : ∀ k, k ∈ (indexes.filter fun ix => ix.collection = collection).map Index.key ↔
      ∃ ix ∈ indexes, ix.collection = collection ∧ ix.key = k := by
    intro k
    simp [and_assoc]
  have hcoll : ∀ collection', collKey ns collection' ∉
      (indexes.filter fun ix => ix.collection = collection).map Index.key := by
    intro collection' hm
    obtain ⟨ix, hix, -, hk⟩ := (hmem _).mp hm
    rw [hwf.keys ix (hknown ix hix)] at hk
    exact indexKey_ne_collKey _ _ _ hk
  have hkey : ∀ ix ∈ s.known, ix.key ≠ collKey ns collection := by
    intro ix hix
    rw [hwf.keys ix hix]
    exact indexKey_ne_collKey _ _ _
  constructor
  · funext id'
    rw [documentAt, withoutEntries, if_neg fun h => hcoll _ h.1, setSlot]
    by_cases hid : id' = id
    · rw [hid, Function.update_self, if_pos ⟨rfl, rfl⟩]
      rfl
    · rw [Function.update_of_ne hid, if_neg fun h => hid h.2]
      rfl
  · intro ix hix hne
    constructor
    · funext t
      have hnot : ix.key ∉ (indexes.filter fun ix => ix.collection = collection).map Index.key := by
        intro hm
        obtain ⟨ix', hix', hc', hk'⟩ := (hmem _).mp hm
        exact hne ((hwf.own ix hix ix' (hknown ix' hix') hk'.symm).1.trans hc')
      rw [withoutEntries, if_neg fun h => hnot h.1, setSlot, if_neg fun h => hkey ix hix h.1]
    · funext id'
      rw [documentAt, withoutEntries, if_neg fun h => hcoll _ h.1, setSlot,
        if_neg fun h => hne (collKey_injective h.1)]
      rfl
  · intro ix hix hc hunique
    refine ⟨?_, by rintro _ ⟨⟩⟩
    funext t
    have hin := (hmem ix.key).mpr ⟨ix, hindexes ix hix hc hunique, hc, rfl⟩
    have hold : textAt ns w₀ collection ix.field id = some t ↔ w₀ ix.key t = some id := by
      rw [← hc]
      exact (hexact ix hix hunique t id).symm
    have hset : setSlot w₀ (collKey ns collection) id none ix.key t = w₀ ix.key t := by
      rw [setSlot, if_neg fun h => hkey ix hix h.1]
    rw [withoutEntries, refile, hset]
    simp only [hin, true_and, Option.bind_none, hold, reduceCtorEq, if_false]

omit [Codec Scalar] in
/-- Values that are equal have the same text. -/
theorem textOf_eq_of_same {before after : Document Scalar} {f : String}
    (h : sameValue (fieldValue after f) (fieldValue before f) = true) :
    textOf f after = textOf f before := by
  rw [textOf, textOf]
  cases ha : fieldValue after f with
  | none =>
    cases hb : fieldValue before f with
    | none => rfl
    | some v =>
      rw [ha, hb] at h
      exact nomatch h
  | some v =>
    cases hb : fieldValue before f with
    | none =>
      rw [ha, hb] at h
      exact nomatch h
    | some v' =>
      rw [ha, hb] at h
      have heq : v = v' := of_decide_eq_true h
      rw [heq]

/-! ## The operations -/

variable {filter : Filter Scalar} {field : String}

theorem insertOne_eq {document : Document Scalar} :
    insertOne ns indexes collection document =
      prepare ns collection document >>= storeDocument ns indexes collection := by
  rw [insertOne, prepare, Prog.bind_assoc]
  refine congrArg (getClient >>= ·) (funext fun _ => ?_)
  rw [Prog.bind_assoc]
  rfl

theorem updateOne_eq {update : Document Scalar → Except StoreError (Document Scalar)} :
    updateOne ns indexes collection filter update = target ns collection filter >>= fun found =>
      match found with
      | none => pure false
      | some entry => updateFound ns indexes collection entry.1 entry.2 update := by
  rw [updateOne, target, Prog.bind_assoc]
  refine congrArg (getClient >>= ·) (funext fun _ => ?_)
  cases filter.byId with
  | none =>
    refine congrArg (locate ns collection filter >>= ·) (funext fun found => ?_)
    cases found <;> rfl
  | some targetId =>
    simp only
    rw [Prog.bind_assoc]
    refine congrArg (send (.hget (collKey ns collection) targetId) >>= ·) (funext fun raw => ?_)
    cases (raw : Option String) with
    | none => rfl
    | some text =>
      cases hdecode : (Codec.decode text : Option (Document Scalar)) with
      | none => simp only [hdecode]; rfl
      | some doc => simp only [hdecode]; rfl

theorem deleteOne_eq : deleteOne ns indexes collection filter =
    doomed ns collection filter >>= fun found =>
      match found with
      | none => pure false
      | some id => deleteFound ns indexes collection id := by
  rw [deleteOne, doomed, Prog.bind_assoc]
  refine congrArg (getClient >>= ·) (funext fun _ => ?_)
  cases filter.byId with
  | some targetId => rfl
  | none =>
    simp only
    rw [Prog.bind_assoc]
    refine congrArg (locate ns collection filter >>= ·) (funext fun found => ?_)
    cases found <;> rfl

theorem createIndex_eq {unique : Bool} : createIndex Scalar ns collection field unique =
    present ns collection >>= fun docs =>
      docs.forM (indexDocument ns collection field unique) >>= fun _ =>
        pure ⟨collection, field, indexKey ns collection field, unique⟩ := by
  rw [createIndex, present, Prog.bind_assoc]
  refine congrArg (getClient >>= ·) (funext fun _ => ?_)
  exact (Prog.bind_assoc _ _ _).symm

omit [Codec Scalar] in
/-- No call touches the registries. -/
theorem run_registries {α : Type} (env : Nat → Option StoreError) (p : Program α) (s : World) :
    (p.run (redis env) s).2.known = s.known ∧ (p.run (redis env) s).2.registry = s.registry := by
  refine Prog.run_inv (redis env) (I := fun s' => s'.known = s.known ∧ s'.registry = s.registry)
    ?_ p ⟨rfl, rfl⟩
  intro call s' hs'
  cases call with
  | getClient =>
    rw [redis]
    cases env s'.tick <;> exact hs'
  | command c =>
    rw [redis]
    cases env s'.tick with
    | some e => exact hs'
    | none =>
      cases c with
      | hsetnx key field value =>
        simp only [World.exec]
        split <;> exact hs'
      | sadd key member => exact hs'
      | smembers key => exact hs'
      | incr key => exact hs'
      | hget key field => exact hs'
      | hset key field value => exact hs'
      | hdel key field => exact hs'
      | hgetall key => exact hs'

/-- How a call may end: with the table as it was, or in a table that is consistent again. -/
def Ends (ns : String) (s : World) (raised : Option StoreError) (s' : World) : Prop :=
  match raised with
  | some _ => s'.view = s.view
  | none => ∀ ix ∈ s.known, ix.unique = true →
    IsInverse (s'.view ix.key) (textAt ns s'.view ix.collection ix.field)

theorem Ends.of_view {s' : World} (hs : Consistent ns s) (raised : Option StoreError)
    (h : s'.view = s.view) : Ends ns s raised s' := by
  cases raised with
  | some e => exact h
  | none =>
    intro ix hix hunique
    rw [h]
    exact hs.exact ix hix hunique

theorem Ends.of_post {α : Type} {Q : α → World → Prop} {out : Except StoreError α × World}
    (h : Prog.Post Q (fun _ s' => s'.view = s.view) out)
    (hQ : ∀ a s', Q a s' → Ends ns s none s') : Ends ns s (Prog.raised out.1) out.2 := by
  rcases out with ⟨r, s'⟩
  cases r with
  | error e => exact h
  | ok a => exact hQ a s' h

omit [Codec Scalar] in
/-- What the unique fields of the collection are, for a client in step. -/
theorem InStep.hasField {r : Request} (hwf : WellFormed ns s) (h : InStep s r collection)
    {f : String} (hf : f ∈ uniqueFields r.indexes collection) :
    ∃ ix ∈ s.known, ix.collection = collection ∧ ix.unique = true ∧ ix.field = f := by
  obtain ⟨ix, hix, hc, hu, hfield⟩ := mem_uniqueFields.mp hf
  exact ⟨ix, h.known hwf hix, hc, hu, hfield⟩

/-- The slots of a document are its own. -/
theorem Consistent.owned {r : Request} (hs : Consistent ns s) (hwf : WellFormed ns s)
    (h : InStep s r collection) {f id t : String} (hf : f ∈ uniqueFields r.indexes collection)
    (ht : textAt ns s.view collection f id = some t) :
    s.view (indexKey ns collection f) t = some id := by
  obtain ⟨ix, hix, hc, hu, hfield⟩ := h.hasField hwf hf
  have hexact := hs.exact ix hix hu
  rw [hwf.keys ix hix, hc, hfield] at hexact
  exact (hexact t id).mpr ht

theorem insertOne_ends {r : Request} {document : Document Scalar} (hwf : WellFormed ns s)
    (hs : Consistent ns s) (hstep : InStep s r collection)
    (hsound : ∀ doc s', (prepare ns collection document).run (redis env) s = (.ok doc, s') →
      InsertSound env ns r.indexes collection doc s') :
    Ends ns s (Prog.raised ((insertOne ns r.indexes collection document).run (redis env) s).1)
      ((insertOne ns r.indexes collection document).run (redis env) s).2 := by
  have hprepare := (prepare_spec env ns collection s.view document).post (s := s) rfl
  rw [insertOne_eq, Prog.run_bind]
  rcases hrun : (prepare ns collection document).run (redis env) s with ⟨out, s₁⟩
  rw [hrun] at hprepare
  cases out with
  | error e => exact hprepare
  | ok doc =>
    have hview : s₁.view = s.view := hprepare.1
    have hinsert := hsound doc s₁ hrun
    have hcareful := hinsert.careful
    have hfirst := hinsert.firstTaken
    rw [hview] at hcareful hfirst
    by_cases htaken : ∃ slot ∈ slots ns r.indexes collection doc, s.view slot.1 slot.2 ≠ none
    · obtain ⟨slot, hhead, hslot⟩ := hfirst htaken
      exact Ends.of_post (storeDocument_taken hhead hslot s₁ hview hcareful)
        fun _ _ hfalse => hfalse.elim
    · have hfree : ∀ slot ∈ fieldSlots r.indexes collection doc,
          s.view (indexKey ns collection slot.1) slot.2 = none := by
        intro slot hslot
        by_contra hne
        refine htaken ⟨slotOf ns collection slot, ?_, hne⟩
        rw [slots_eq]
        exact List.mem_map.mpr ⟨slot, hslot, rfl⟩
      refine Ends.of_post (storeDocument_free (hstep.nodup hwf) hfree s₁ hview hcareful) ?_
      intro _ s' hpost
      obtain ⟨w, hrel, hnew, hview'⟩ := hpost
      have hreplaced := replaced_of_relocated doc (uniqueFields r.indexes collection) []
        (fun _ => True) hwf
        (fun f hf => by
          obtain ⟨ix, hix, hc, -, hfield⟩ := hstep.hasField hwf hf
          exact ⟨ix, hix, hc, hfield⟩)
        (fun ix hix hc hu => hstep.fields hix hc hu) hrel
        (fun f t => by rw [mem_fieldSlots]; simp)
        (fun f t => by
          constructor
          · intro h
            exact absurd h List.not_mem_nil
          · intro h
            rw [hnew f h.1] at h
            exact nomatch h.2.2)
        (fun f _ h => absurd trivial h) (fun f hf t ht => hs.owned hwf hstep hf ht)
      rw [← hview'] at hreplaced
      exact hreplaced.exact hs.exact

theorem updateOne_ends {r : Request}
    {update : Document Scalar → Except StoreError (Document Scalar)} (hwf : WellFormed ns s)
    (hs : Consistent ns s) (hstep : InStep s r collection)
    (hsound : ∀ id doc s', (target ns collection filter).run (redis env) s =
        (.ok (some (id, doc)), s') →
      Prog.AlongRun (redis env) (Undisturbed env ns collection s'.view)
        (updateFound ns r.indexes collection id doc update) s') :
    Ends ns s (Prog.raised ((updateOne ns r.indexes collection filter update).run (redis env) s).1)
      ((updateOne ns r.indexes collection filter update).run (redis env) s).2 := by
  have htarget := (target_spec env ns collection s.view filter).post (s := s) rfl
  rw [updateOne_eq, Prog.run_bind]
  rcases hrun : (target ns collection filter).run (redis env) s with ⟨out, s₁⟩
  rw [hrun] at htarget
  cases out with
  | error e => exact htarget
  | ok found =>
    have hview : s₁.view = s.view := htarget.1
    cases found with
    | none => exact Ends.of_view hs none hview
    | some entry =>
      have hdoc : documentAt ns s.view collection entry.1 = some entry.2 := htarget.2 entry rfl
      have hold : ∀ f, textAt ns s.view collection f entry.1 = textOf f entry.2 := by
        intro f
        rw [textAt, hdoc]
        rfl
      have hcalm := hsound entry.1 entry.2 s₁ hrun
      rw [hview] at hcalm
      refine Ends.of_post (updateFound_spec (hstep.nodup hwf)
        (fun f hf t ht => hs.owned hwf hstep hf ((hold f).trans ht)) s₁ hview hcalm) ?_
      intro _ s' hpost
      obtain ⟨w, updated, claims, released, hrel, htraced, hview'⟩ := hpost
      have hreplaced := replaced_of_relocated updated (uniqueFields r.indexes collection) released
        (fun f => sameValue (fieldValue updated f) (fieldValue entry.2 f) = false) hwf
        (fun f hf => by
          obtain ⟨ix, hix, hc, -, hfield⟩ := hstep.hasField hwf hf
          exact ⟨ix, hix, hc, hfield⟩)
        (fun ix hix hc hu => hstep.fields hix hc hu) hrel htraced.claims
        (fun f t => by rw [htraced.released, hold])
        (fun f _ hsame => by
          rw [hold]
          exact textOf_eq_of_same (Bool.not_eq_false _ |>.mp hsame))
        (fun f hf t ht => hs.owned hwf hstep hf ht)
      rw [← hview'] at hreplaced
      exact hreplaced.exact hs.exact

theorem deleteOne_ends {r : Request} (hwf : WellFormed ns s)
    (hs : Consistent ns s) (hstep : InStep s r collection)
    (hsound : ∀ id s', (doomed ns collection filter).run (redis env) s = (.ok (some id), s') →
      Prog.AlongRun (redis env) (Undisturbed env ns collection s'.view)
        (deleteFound ns r.indexes collection id) s') :
    Ends ns s (Prog.raised ((deleteOne ns r.indexes collection filter).run (redis env) s).1)
      ((deleteOne ns r.indexes collection filter).run (redis env) s).2 := by
  have hdoomed := (doomed_spec env ns collection s.view filter).post (s := s) rfl
  rw [deleteOne_eq, Prog.run_bind]
  rcases hrun : (doomed ns collection filter).run (redis env) s with ⟨out, s₁⟩
  rw [hrun] at hdoomed
  cases out with
  | error e => exact hdoomed
  | ok found =>
    have hview : s₁.view = s.view := hdoomed.1
    cases found with
    | none => exact Ends.of_view hs none hview
    | some id =>
      have hcalm := hsound id s₁ hrun
      rw [hview] at hcalm
      have hkeys : ∀ ix ∈ r.indexes, ix.collection = collection → ix.key ≠ collKey ns collection := by
        intro ix hix _
        rw [hwf.keys ix (hstep.known hwf hix)]
        exact indexKey_ne_collKey _ _ _
      refine Ends.of_post (deleteFound_spec hkeys s₁ hview hcalm) ?_
      intro _ s' hview'
      have hreplaced := replaced_of_without id hwf hs.exact
        (fun ix hix => hstep.known hwf hix)
        (fun ix hix hc hu => hstep.1.mem_iff.mpr (hstep.2 ix hix hc hu))
      rw [← hview'] at hreplaced
      exact hreplaced.exact hs.exact

/-- The index that `create_index` adds. -/
def newIndex (ns collection field : String) (unique : Bool) : Index :=
  ⟨collection, field, indexKey ns collection field, unique⟩

theorem createIndex_ends (field : String) (unique : Bool) (hwf : WellFormed ns s) (hs : Consistent ns s)
    (hsound : ∀ docs s', (present ns collection).run (redis env) s = (.ok docs, s') →
      CreateSound env ns collection field unique docs s') :
    Prog.Post
      (fun ix s' => ix = newIndex ns collection field unique ∧ Ends ns s none s' ∧
        (∀ ix' ∈ s.known, ix'.key = ix.key → ix'.collection = collection ∧ ix'.field = field) ∧
        (unique = true →
          IsInverse (s'.view ix.key) (textAt ns s'.view collection field)))
      (fun _ s' => s'.view = s.view)
      ((createIndex Scalar ns collection field unique).run (redis env) s) := by
  have hpresent := (present_spec env ns collection s.view).post (s := s) rfl
  rw [createIndex_eq, Prog.run_bind]
  have hstatic := run_registries env (present ns collection) s
  rcases hrun : (present ns collection).run (redis env) s with ⟨out, s₁⟩
  rw [hrun] at hpresent hstatic
  cases out with
  | error e => exact hpresent
  | ok docs =>
    obtain ⟨hview, hloaded⟩ : s₁.view = s.view ∧ Loaded ns collection s.view docs := hpresent
    by_cases hthere : ∃ ix ∈ s.known, ix.collection = collection ∧ ix.field = field ∧ ix.unique = true
    · obtain ⟨ix, hix, hc, hf, hu⟩ := hthere
      have hkey : ix.key = indexKey ns collection field := by rw [hwf.keys ix hix, hc, hf]
      have hexact := hs.exact ix hix hu
      rw [hkey, hc, hf] at hexact
      refine Prog.Triple.post (P := fun s' => s'.view = s.view) ?_ hview
      refine Prog.Triple.bind (reindexDocuments_spec hloaded hexact) fun _ =>
        Prog.Triple.ret_ok ?_
      intro s' hview'
      refine ⟨rfl, Ends.of_view hs none hview', ?_, ?_⟩
      · intro ix' hix' hkey'
        have hown := hwf.own ix' hix' ix hix (hkey'.trans hkey.symm)
        exact ⟨hown.1.trans hc, hown.2.trans hf⟩
      · intro _
        rw [hview']
        exact hexact
    · rcases hsound docs s₁ hrun with hknown | ⟨hown, hright, hrun'⟩
      · rw [hstatic.1] at hknown
        exact absurd hknown hthere
      · rw [hstatic.1] at hown
        rw [hview] at hright hrun'
        have hkeys : ∀ ix ∈ s.known, ix.unique = true → ix.key ≠ indexKey ns collection field := by
          intro ix hix hu hkey
          obtain ⟨hc, hf⟩ := hown ix hix hkey
          exact hthere ⟨ix, hix, hc, hf, hu⟩
        have hfill := Prog.Triple.bind (R := fun ix s' => ix = newIndex ns collection field unique ∧
            Filling ns collection field unique s.view s'.view docs)
          (indexDocuments_spec env field unique hloaded
            (fun hu => (hright hu).1) fun hu => (hright hu).2)
          (fun _ => Prog.Triple.ret_ok (a := newIndex ns collection field unique)
            fun s' hs' => ⟨rfl, hs'⟩)
        have hpost := hfill s₁ hview (Prog.alongRun_bind.mpr ⟨hrun', fun _ _ _ => trivial⟩)
        refine Prog.Post.mono hpost ?_
        intro ix s' hix
        obtain ⟨rfl, hfilling⟩ := hix
        have hdocs : ∀ collection', documentAt ns s'.view collection' =
            documentAt ns s.view collection' := by
          intro collection'
          funext id
          rw [documentAt, hfilling.frame _ fun he => indexKey_ne_collKey _ _ _ he.symm]
          rfl
        have htexts : ∀ collection' field', textAt ns s'.view collection' field' =
            textAt ns s.view collection' field' := by
          intro collection' field'
          funext id
          rw [textAt, hdocs]
          rfl
        refine ⟨rfl, ?_, hown, ?_⟩
        · intro ix hix hu
          rw [hfilling.frame _ (hkeys ix hix hu), htexts]
          exact hs.exact ix hix hu
        · intro hu t id
          show s'.view (indexKey ns collection field) t = _ ↔ _
          rw [hfilling.filled hu, htexts]
          constructor
          · intro h
            rcases h with hw | ⟨doc, hmem, hdoc⟩
            · exact (hright hu).1 t id hw
            · rw [textAt, (hloaded id doc).mp hmem]
              exact hdoc
          · intro h
            obtain ⟨doc, hdoc, ht⟩ := Option.bind_eq_some_iff.mp h
            exact Or.inr ⟨doc, (hloaded id doc).mpr hdoc, ht⟩

/-- An operation that leaves the registries alone keeps the invariant as it ends. -/
theorem kept_of_ends {r : Request} (hwf : WellFormed ns s)
    (hknown : (step env ns s r).known = s.known)
    (hregistry : (step env ns s r).registry = s.registry) (hs : Consistent ns s)
    (hends : Ends ns s (perform env ns s r).1 (step env ns s r)) :
    Inv ns (step env ns s r) ∧ Kept env ns s r := by
  have hexact : Ends ns s none (step env ns s r) := by
    cases hraised : (perform env ns s r).1 with
    | none =>
      rw [hraised] at hends
      exact hends
    | some e =>
      rw [hraised] at hends
      exact Ends.of_view hs none hends
  have hconsistent : Consistent ns (step env ns s r) := by
    refine consistent_of_exact ?_
    rw [hknown]
    exact hexact
  refine ⟨⟨⟨?_, ?_, ?_, ?_⟩, hconsistent⟩, ⟨hconsistent, ?_⟩⟩
  · rw [hknown]
    exact hwf.keys
  · rw [hknown]
    exact hwf.own
  · rw [hknown, hregistry]
    exact hwf.registered
  · rw [hregistry]
    exact hwf.nodup
  · intro e he
    rw [he] at hends
    exact hends

omit [Codec Scalar] in
theorem mem_known_addIndex {client : Nat} {ix ix' : Index} :
    ix' ∈ (s.addIndex client ix).known ↔ ix' ∈ s.known ∨ ix' = ix := by
  show ix' ∈ (if ix ∈ s.known then s.known else s.known ++ [ix]) ↔ _
  split
  next h =>
    constructor
    · intro hmem
      exact Or.inl hmem
    · intro hmem
      rcases hmem with hmem | heq
      · exact hmem
      · rw [heq]
        exact h
  next => rw [List.mem_append, List.mem_singleton]

omit [Codec Scalar] in
/-- A new index with a key of its own. -/
theorem WellFormed.addIndex {client : Nat} {field : String} {unique : Bool} (hwf : WellFormed ns s)
    (hown : ∀ ix' ∈ s.known, ix'.key = indexKey ns collection field →
      ix'.collection = collection ∧ ix'.field = field) :
    WellFormed ns (s.addIndex client (newIndex ns collection field unique)) where
  keys := by
    intro ix hix
    rcases mem_known_addIndex.mp hix with hix | rfl
    · exact hwf.keys ix hix
    · rfl
  own := by
    intro ix hix ix' hix' hkey
    rcases mem_known_addIndex.mp hix with hix | rfl
    · rcases mem_known_addIndex.mp hix' with hix' | rfl
      · exact hwf.own ix hix ix' hix' hkey
      · exact hown ix hix hkey
    · rcases mem_known_addIndex.mp hix' with hix' | rfl
      · have hsame := hown ix' hix' hkey.symm
        exact ⟨hsame.1.symm, hsame.2.symm⟩
      · exact ⟨rfl, rfl⟩
  registered := by
    intro client' ix hix
    rw [mem_known_addIndex]
    have hix' : ix ∈ Function.update s.registry client (if newIndex ns collection field unique ∈
        s.registry client then s.registry client else
        s.registry client ++ [newIndex ns collection field unique]) client' := hix
    by_cases hc : client' = client
    · rw [hc, Function.update_self] at hix'
      split at hix'
      · exact Or.inl (hwf.registered client ix hix')
      · rcases List.mem_append.mp hix' with hmem | hmem
        · exact Or.inl (hwf.registered client ix hmem)
        · exact Or.inr (List.mem_singleton.mp hmem)
    · rw [Function.update_of_ne hc] at hix'
      exact Or.inl (hwf.registered client' ix hix')
  nodup := by
    intro client'
    show (Function.update s.registry client _ client').Nodup
    by_cases hc : client' = client
    · rw [hc, Function.update_self]
      split
      · exact hwf.nodup client
      next hnew =>
        refine List.nodup_append.mpr ⟨hwf.nodup client, List.nodup_singleton _, ?_⟩
        intro a ha b hb hab
        rw [List.mem_singleton.mp hb] at hab
        exact hnew (hab ▸ ha)
    · rw [Function.update_of_ne hc]
      exact hwf.nodup client'

/-- The step lemma. -/
theorem step_inv {r : Request} (hi : Inv ns s) (hadmissible : Admissible s r)
    (hsound : Sound env ns s r) : Inv ns (step env ns s r) ∧ Kept env ns s r := by
  obtain ⟨hwf, hs⟩ := hi
  obtain ⟨client, indexes, change⟩ := r
  cases change with
  | insertOne collection document =>
    obtain ⟨hknown, hregistry⟩ := run_registries env
      (insertOne ns indexes collection document) s
    exact kept_of_ends hwf hknown hregistry hs (insertOne_ends hwf hs hadmissible hsound)
  | updateOne collection filter update =>
    obtain ⟨hknown, hregistry⟩ := run_registries env
      (updateOne ns indexes collection filter update) s
    exact kept_of_ends hwf hknown hregistry hs (updateOne_ends hwf hs hadmissible hsound)
  | deleteOne collection filter =>
    obtain ⟨hknown, hregistry⟩ := run_registries env
      (deleteOne ns indexes collection filter) s
    exact kept_of_ends hwf hknown hregistry hs (deleteOne_ends hwf hs hadmissible hsound)
  | createIndex collection field unique =>
    obtain ⟨hknown, hregistry⟩ := run_registries env
      (createIndex Scalar ns collection field unique) s
    have hpost := createIndex_ends field unique hwf hs hsound
    rcases hrun : (createIndex Scalar ns collection field unique).run (redis env) s with ⟨out, s'⟩
    rw [hrun] at hpost hknown hregistry
    have hperform : perform env ns s ⟨client, indexes, .createIndex collection field unique⟩ =
        match (out, s') with
        | (.ok ix, s') => (none, s'.addIndex client ix)
        | (.error e, s') => (some e, s') := by
      simp only [perform, hrun]
    cases out with
    | error e =>
      refine kept_of_ends hwf ?_ ?_ hs ?_
      · rw [step, hperform]
        exact hknown
      · rw [step, hperform]
        exact hregistry
      · rw [step, hperform]
        exact hpost
    | ok ix =>
      obtain ⟨rfl, hends, hown, hnew⟩ := hpost
      have hwf' : WellFormed ns s' :=
        ⟨hknown ▸ hwf.keys, hknown ▸ hwf.own, hknown ▸ hregistry ▸ hwf.registered,
          hregistry ▸ hwf.nodup⟩
      have hconsistent : Consistent ns (s'.addIndex client (newIndex ns collection field unique)) := by
        refine consistent_of_exact ?_
        intro ix hix hu
        rw [World.view_addIndex]
        rcases mem_known_addIndex.mp hix with hix | rfl
        · exact hends ix (hknown ▸ hix) hu
        · exact hnew hu
      have hstep : step env ns s ⟨client, indexes, .createIndex collection field unique⟩ =
          s'.addIndex client (newIndex ns collection field unique) := by
        rw [step, hperform]
      refine ⟨⟨?_, ?_⟩, ⟨?_, ?_⟩⟩
      · rw [hstep]
        exact hwf'.addIndex (hknown.symm ▸ hown)
      · rw [hstep]
        exact hconsistent
      · rw [hstep]
        exact hconsistent
      · intro e he
        rw [hperform] at he
        exact nomatch he

/-- In a run that never runs into one of the ways to lose track, the store is consistent after
every call, and a call that raises changes nothing. -/
theorem kept_of_sound (env : Nat → Option StoreError) (ns : String) (requests : List Request)
    (hadmissible : Along (step env ns) Admissible World.empty requests)
    (hsound : Along (step env ns) (Sound env ns) World.empty requests) :
    Along (step env ns) (Kept env ns) World.empty requests := by
  have hinit : Inv ns World.empty :=
    ⟨⟨nofun, nofun, nofun, fun _ => List.nodup_nil⟩, consistent_of_exact nofun⟩
  exact Along.imp (step env ns) (I := Inv ns)
    (fun s r hi h => (step_inv hi h.1 h.2).1) (fun s r hi h => (step_inv hi h.1 h.2).2) hinit
    ((along_and (step env ns) World.empty requests).mpr ⟨hadmissible, hsound⟩)

end

/-! ## Runs

Documents can be told apart by a text: there are only countably many. -/

theorem countable_document : Countable (Document Scalar) := by
  have hchar : Countable Char :=
    Function.Injective.countable (f := Char.toNat) fun _ _ h => Char.toNat_inj.mp h
  have hstring : Countable String :=
    Function.Injective.countable (f := String.toList) fun _ _ h => String.toList_inj.mp h
  have hscalar : Countable Scalar := by
    refine Function.Injective.countable (β := String ⊕ ℤ) (f := fun
      | .str s => Sum.inl s
      | .int n => Sum.inr n) ?_
    intro v v' h
    cases v <;> cases v' <;> simp_all
  refine Function.Injective.countable (f := Dict.items) ?_
  intro d d' h
  cases d
  cases d'
  cases h
  rfl

@[reducible] noncomputable def numbering : Codec Scalar :=
  have := countable_document
  { encode := fun doc => Infinite.natEmbedding String ((exists_injective_nat (Document Scalar)).choose doc)
    decode := fun text => open Classical in
      if h : ∃ doc : Document Scalar, Infinite.natEmbedding String
        ((exists_injective_nat (Document Scalar)).choose doc) = text then some h.choose else none
    decode_encode := by
      intro doc
      have h : ∃ doc' : Document Scalar, Infinite.natEmbedding String
          ((exists_injective_nat (Document Scalar)).choose doc') = Infinite.natEmbedding String
          ((exists_injective_nat (Document Scalar)).choose doc) := ⟨doc, rfl⟩
      rw [dif_pos h]
      exact congrArg some ((exists_injective_nat (Document Scalar)).choose_spec
        ((Infinite.natEmbedding String).injective h.choose_spec)) }

def document (fields : List (String × Scalar)) : Document Scalar :=
  fields.foldl (fun d item => d.set item.1 item.2) ∅

/-- Two unique fields, and a document with the second. -/
def twoFields : List Request :=
  [⟨0, [], .createIndex "c" "f" true⟩, ⟨0, [], .createIndex "c" "g" true⟩,
    ⟨0, [newIndex "" "c" "f" true, newIndex "" "c" "g" true],
      .insertOne "c" (document [("_id", .str "1"), ("g", .str "x")])⟩]

/-- A document whose first field is new and whose second is taken. -/
def halfNew : Request :=
  ⟨0, [newIndex "" "c" "f" true, newIndex "" "c" "g" true],
    .insertOne "c" (document [("_id", .str "2"), ("f", .str "a"), ("g", .str "x")])⟩

instance (s : World) (r : Request) (collection : String) : Decidable (InStep s r collection) :=
  inferInstanceAs (Decidable (_ ∧ _))

instance (s : World) (r : Request) : Decidable (Admissible s r) :=
  match r with
  | ⟨client, indexes, .insertOne collection doc⟩ =>
    inferInstanceAs (Decidable (InStep s ⟨client, indexes, .insertOne collection doc⟩ collection))
  | ⟨client, indexes, .updateOne collection filter update⟩ =>
    inferInstanceAs (Decidable
      (InStep s ⟨client, indexes, .updateOne collection filter update⟩ collection))
  | ⟨client, indexes, .deleteOne collection filter⟩ =>
    inferInstanceAs (Decidable (InStep s ⟨client, indexes, .deleteOne collection filter⟩ collection))
  | ⟨_, _, .createIndex _ _ _⟩ => inferInstanceAs (Decidable True)

theorem orphaned_claim : ¬ ∀ (_ : Codec Scalar) (env : Nat → Option StoreError) (ns : String)
    (requests : List Request), Along (step env ns) Admissible World.empty requests →
      Along (step env ns) (Kept env ns) World.empty requests := by
  intro h
  have hadmissible : Along (@step (fun _ => none) numbering "") Admissible World.empty
      (twoFields ++ [halfNew]) := by decide +kernel
  obtain ⟨-, -, -, hkept, -⟩ := h numbering (fun _ => none) "" (twoFields ++ [halfNew]) hadmissible
  have hraised : (@perform (fun _ => none) numbering ""
      (@run _ _ (@step (fun _ => none) numbering "") World.empty twoFields) halfNew).1 =
      some (.duplicate "g" "c") := by decide +kernel
  have hbefore : (@run _ _ (@step (fun _ => none) numbering "") World.empty twoFields).view
      (indexKey "" "c" "f") "a" = none := by decide +kernel
  have hafter : (@run _ _ (@step (fun _ => none) numbering "") World.empty
      (twoFields ++ [halfNew])).view (indexKey "" "c" "f") "a" = some "2" := by decide +kernel
  have hsame := congrFun (congrFun (@Kept.restored _ numbering _ _ _ hkept _ hraised)
    (indexKey "" "c" "f")) "a"
  exact nomatch hafter.symm.trans (hsame.trans hbefore)

/-- One unique field, and a document with it. -/
def oneField : List Request :=
  [⟨0, [], .createIndex "c" "f" true⟩,
    ⟨0, [newIndex "" "c" "f" true], .insertOne "c" (document [("_id", .str "1"), ("f", .str "x")])⟩]

theorem textAt_of_empty [Codec Scalar] {ns collection field id : String} {w : Table}
    (hempty : ∀ k t, w k t = none) : textAt ns w collection field id = none := by
  rw [textAt, documentAt, hempty]
  rfl

/-- What no call disturbs, and where nothing is stored, is sound. -/
theorem careful_of_empty [Codec Scalar] {ns collection : String} {indexes : List Index}
    {doc : Document Scalar} {s : World} (hempty : ∀ k t, s.view k t = none) :
    InsertSound (fun _ => none) ns indexes collection doc s where
  careful := by
    refine Prog.alongRun_of (fun call s' => ⟨(fun e he => nomatch he), ?_⟩) _ s
    intro _ _ field _
    exact textAt_of_empty hempty
  firstTaken := by
    intro h
    obtain ⟨slot, _, htaken⟩ := h
    exact absurd (hempty slot.1 slot.2) htaken

theorem kept_oneField : Along (@step (fun _ => none) numbering "")
    (@Kept (fun _ => none) numbering "") World.empty oneField := by
  have := numbering
  refine @kept_of_sound numbering (fun _ => none) "" oneField (by decide +kernel) ⟨?_, ?_, trivial⟩
  · intro docs s' hrun
    have hview := (@present_spec numbering (fun _ => none) "" "c" World.empty.view).post
      (s := World.empty) rfl
    have hknown := (run_registries (fun _ => none) (@present numbering "" "c") World.empty).1
    rw [hrun] at hview hknown
    have hempty : ∀ k t, s'.view k t = none := fun k t => by rw [hview.1]; rfl
    refine Or.inr ⟨?_, fun _ => ⟨?_, ?_⟩, ?_⟩
    · rw [hknown]
      exact nofun
    · intro t id h
      rw [hempty] at h
      exact nomatch h
    · intro t id id' h
      exact nomatch (@textAt_of_empty numbering "" "c" "f" id _ hempty).symm.trans h
    · exact Prog.alongRun_of (fun call s e he => nomatch he) _ s'
  · intro doc s' hrun
    have hview := (prepare_spec (fun _ => none) "" "c" World.empty.view
      (document [("_id", .str "1"), ("f", .str "x")])).post
      (s := @step (fun _ => none) numbering "" World.empty ⟨0, [], .createIndex "c" "f" true⟩) rfl
    rw [hrun] at hview
    exact @careful_of_empty numbering _ _ _ _ _ fun k t => by rw [hview.1]; rfl

end OSimFlow.Documents.UniqueIndexes
