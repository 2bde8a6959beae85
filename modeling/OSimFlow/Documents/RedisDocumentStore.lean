import OSimFlow.Lib.Dict
import OSimFlow.Lib.Prog

/-!
# `RedisDocumentStore`

The operations of the Redis document store as programs over two kinds of calls:
`_get_client()`, which builds the client on first use, and the Redis commands
that go through it. A call may raise: `redis` is an error of Redis or of the
socket, `unavailable` what both layers raise while the circuit is open. Nothing
is said here about when they do, nor about what Redis answers.

Redis holds strings. A document is stored as its JSON text, an index entry under
`str(value)` with the document's id.
-/

namespace OSimFlow.Documents

open OSimFlow.Lib

/-- What the stores ask of a field value: `str(v)`, `v is None`, `bool(v)`, `v == w`, and
the value that a string is. -/
class PyValue (V : Type) where
  str : V → String
  isNone : V → Bool
  truthy : V → Bool
  eq : V → V → Bool
  ofString : String → V

/-- A document, a JSON object. -/
abbrev Document (V : Type) := Dict String V

/-- `_encode_value` and `json.loads`. -/
class Codec (V : Type) where
  encode : Document V → String
  decode : String → Option (Document V)
  decode_encode : ∀ doc, decode (encode doc) = some doc

/-- What an operation raises. -/
inductive StoreError where
  | redis
  | unavailable
  | duplicate (field collection : String)
  | failed (operation collection : String)
  | corrupted
  | raised (text : String)
deriving DecidableEq

/-- `isinstance(exc, _redis_errors())`. -/
def StoreError.isRedis : StoreError → Bool
  | redis => true
  | _ => false

inductive Command where
  | sadd (key member : String)
  | smembers (key : String)
  | incr (key : String)
  | hget (key field : String)
  | hset (key field value : String)
  | hsetnx (key field value : String)
  | hdel (key field : String)
  | hgetall (key : String)
deriving DecidableEq

def Command.Reply : Command → Type
  | sadd _ _ => Unit
  | smembers _ => List String
  | incr _ => Nat
  | hget _ _ => Option String
  | hset _ _ _ => Unit
  | hsetnx _ _ _ => Bool
  | hdel _ _ => Unit
  | hgetall _ => List (String × String)

/-- `self._get_client()`, and a method of the client it returns. -/
inductive Call where
  | getClient
  | command (c : Command)

def Call.Answer : Call → Type
  | getClient => Except StoreError Unit
  | command c => Except StoreError c.Reply

abbrev Program := Prog Call Call.Answer StoreError

/-- `self._get_client()`. -/
def getClient : Program Unit := do
  let answer : Except StoreError Unit ← Prog.ask Call.getClient
  Prog.ret answer

/-- A command of the client. -/
def send (c : Command) : Program c.Reply := do
  let answer : Except StoreError c.Reply ← Prog.ask (Call.command c)
  Prog.ret answer

/-- `except _redis_errors()`: other exceptions go on. -/
def exceptRedis {α : Type} (body : Program α) (handler : Program α) : Program α :=
  tryCatch body fun e => if e.isRedis then handler else throw e

/-- An entry of `_indexes`. -/
structure Index where
  collection : String
  field : String
  key : String
  unique : Bool
deriving DecidableEq

/-- A filter: the id of a filter `{"_id": <string>}`, and `_document_matches`. -/
structure Filter (V : Type) where
  byId : Option String
  accepts : Document V → Except StoreError Bool

section
variable {V : Type}

def collKey (ns collection : String) : String := "osimflow:docs:coll:" ++ ns ++ ":" ++ collection

def counterKey (ns collection : String) : String :=
  "osimflow:docs:counter:" ++ ns ++ ":" ++ collection

def collectionsKey (ns : String) : String := "osimflow:docs:collections:" ++ ns

def indexKey (ns collection field : String) : String :=
  "osimflow:docs:idx:" ++ ns ++ ":" ++ collection ++ ":" ++ field

variable [PyValue V] (ns : String)

/-- `doc.get(field)`, with `None` for a field that holds it. -/
def fieldValue (doc : Document V) (field : String) : Option V :=
  (doc.get? field).filter fun v => !PyValue.isNone v

/-- `a == b`, `None` included. -/
def sameValue : Option V → Option V → Bool
  | some v, some w => PyValue.eq v w
  | none, none => true
  | _, _ => false

/-- `str(doc["_id"])`. -/
def idText (doc : Document V) : String :=
  ((doc.get? "_id").map PyValue.str).getD ""

/-- The fields of the unique indexes on the collection. -/
def uniqueFields (indexes : List Index) (collection : String) : List String :=
  (indexes.filter fun ix => ix.collection = collection && ix.unique).map Index.field

/-- The unique fields that the document has, with their values. -/
def uniqueValues (indexes : List Index) (collection : String) (doc : Document V) :
    List (String × V) :=
  (uniqueFields indexes collection).filterMap fun field =>
    (fieldValue doc field).map fun v => (field, v)

/-- `_next_id`. -/
def nextId (collection : String) : Program String := do
  getClient
  let n ← send (.incr (counterKey ns collection))
  pure ("doc_" ++ Nat.repr n)

/-- `_ensure_collection_tracked`. -/
def ensureCollectionTracked (collection : String) : Program Unit := do
  getClient
  send (.sadd (collectionsKey ns) collection)

/-- `_check_unique_index`. -/
def checkUniqueIndex (collection field : String) (value : V) (excludeDocId : String) :
    Program Unit := do
  let existing : Option String ← exceptRedis
    (do getClient
        send (.hget (indexKey ns collection field) (PyValue.str value)))
    (pure none)
  match existing with
  | none => pure ()
  | some owner =>
    if owner = excludeDocId then pure () else throw (.duplicate field collection)

/-- `_claim_unique_index_slot`; a Redis error counts as a claim. -/
def claimUniqueIndexSlot (collection field text docId : String) : Program Bool :=
  exceptRedis
    (do getClient
        send (.hsetnx (indexKey ns collection field) text docId))
    (pure true)

/-- `_release_unique_index_slot`. -/
def releaseUniqueIndexSlot (collection field text docId : String) : Program Unit :=
  exceptRedis
    (do getClient
        let existing : Option String ← send (.hget (indexKey ns collection field) text)
        if existing = some docId then send (.hdel (indexKey ns collection field) text)
        else pure ())
    (pure ())

/-- `doc = dict(document)`, with an id if it has none. -/
def withId (collection : String) (document : Document V) : Program (Document V) :=
  match document.get? "_id" with
  | some _ => pure document
  | none => do
    let id ← nextId ns collection
    pure (document.set "_id" (PyValue.ofString id))

/-- The claims of an insert, one field after another. -/
def claimAll (collection docId : String) (slots : List (String × V)) : Program Unit :=
  slots.forM fun slot => do
    let claimed ← claimUniqueIndexSlot ns collection slot.1 (PyValue.str slot.2) docId
    if claimed then pure () else throw (.duplicate slot.1 collection)

/-- The release of every slot of a document. -/
def releaseAll (collection docId : String) (slots : List (String × String)) : Program Unit :=
  slots.forM fun slot => releaseUniqueIndexSlot ns collection slot.1 slot.2 docId

/-- Claiming slots back, whether or not they are free. -/
def reclaimAll (collection docId : String) (slots : List (String × String)) : Program Unit :=
  slots.forM fun slot => do
    let _ ← claimUniqueIndexSlot ns collection slot.1 slot.2 docId
    pure ()

variable [Codec V]

/-- `insert_one`. -/
def insertOne (indexes : List Index) (collection : String) (document : Document V) :
    Program String := do
  getClient
  ensureCollectionTracked ns collection
  let doc ← withId ns collection document
  let docId := idText doc
  let slots := uniqueValues indexes collection doc
  claimAll ns collection docId slots
  tryCatch (send (.hset (collKey ns collection) docId (Codec.encode doc))) fun _ => do
    releaseAll ns collection docId (slots.map fun slot => (slot.1, PyValue.str slot.2))
    throw (.failed "insert_one" collection)
  pure docId

/-- `_load_collection`: corrupted documents are skipped. -/
def loadCollection (collection : String) : Program (List (String × Document V)) := do
  getClient
  let raw ← tryCatch (send (.hgetall (collKey ns collection)))
    fun _ => throw (.failed "_load_collection" collection)
  pure (raw.filterMap fun entry =>
    (Codec.decode entry.2).map fun (doc : Document V) => (entry.1, doc))

/-- The first document that matches. -/
def firstMatch (accepts : Document V → Except StoreError Bool) :
    List (String × Document V) → Except StoreError (Option (String × Document V))
  | [] => .ok none
  | entry :: rest => do
    if ← accepts entry.2 then pure (some entry) else firstMatch accepts rest

/-- `find_one`; `cached` is what the LRU holds for the id asked for. -/
def findOne (cached : Option (Document V)) (collection : String) (filter : Filter V) :
    Program (Option (Document V)) :=
  match filter.byId with
  | some targetId =>
    match cached with
    | some doc => pure (some doc)
    | none => do
      let raw ← tryCatch
        (do getClient
            send (.hget (collKey ns collection) targetId))
        fun _ => throw (.failed "find_one" collection)
      match raw with
      | none => pure none
      | some text => pure (Codec.decode text)
  | none => do
    let docs ← loadCollection ns collection
    let found ← Prog.ret (firstMatch filter.accepts docs)
    pure (found.map Prod.snd)

/-- `str(d.get(f) or "")`. -/
def sortKey (field : String) (doc : Document V) : String :=
  (((doc.get? field).filter fun v => PyValue.truthy v).map PyValue.str).getD ""

/-- The sort of `find_many`: a stable sort for each field, the last one first. -/
def sortDocuments (sort : List (String × Int)) (docs : List (Document V)) :
    List (Document V) :=
  sort.foldr (fun key docs =>
    if key.2 < 0 then docs.mergeSort fun d e => decide (sortKey key.1 e ≤ sortKey key.1 d)
    else docs.mergeSort fun d e => decide (sortKey key.1 d ≤ sortKey key.1 e)) docs

/-- `find_many`. -/
def findMany (collection : String) (filter : Filter V) (limit skip : Nat)
    (sort : List (String × Int)) : Program (List (Document V)) := do
  let docs ← loadCollection ns collection
  let matched ← Prog.ret ((docs.map Prod.snd).filterM filter.accepts)
  let sorted := (sortDocuments sort matched).drop skip
  pure (if limit = 0 then sorted else sorted.take limit)

/-- What the claims of an update came to: the duplicate they met, the slots claimed and
the slots released. -/
structure Moved where
  duplicate : Option StoreError
  newClaims : List (String × String)
  oldClaimsReleased : List (String × String)

/-- The claims of an update: for every field that changes, the old slot is released and
the new one claimed. -/
def moveSlots (collection docId : String) (before after : Document V) :
    List String → List (String × String) → List (String × String) → Program Moved
  | [], newClaims, released => pure ⟨none, newClaims, released⟩
  | field :: fields, newClaims, released => do
    let newValue := fieldValue after field
    let oldValue := fieldValue before field
    if sameValue newValue oldValue then
      moveSlots collection docId before after fields newClaims released
    else do
      let released ← match oldValue with
        | none => pure released
        | some old => do
          releaseUniqueIndexSlot ns collection field (PyValue.str old) docId
          pure (released ++ [(field, PyValue.str old)])
      match newValue with
      | none => moveSlots collection docId before after fields newClaims released
      | some new => do
        let claimed ← claimUniqueIndexSlot ns collection field (PyValue.str new) docId
        if claimed then
          moveSlots collection docId before after fields
            (newClaims ++ [(field, PyValue.str new)]) released
        else pure ⟨some (.duplicate field collection), newClaims, released⟩

/-- The rollback of an update. -/
def undoMoves (collection docId : String) (newClaims released : List (String × String)) :
    Program Unit := do
  releaseAll ns collection docId newClaims
  reclaimAll ns collection docId released

/-- The document that an update or a delete is about. -/
def locate (collection : String) (filter : Filter V) : Program (Option (String × Document V)) := do
  let docs ← loadCollection ns collection
  Prog.ret (firstMatch filter.accepts docs)

/-- `update_one` from `old_values` on, for the document found. -/
def updateFound (indexes : List Index) (collection targetId : String) (doc : Document V)
    (update : Document V → Except StoreError (Document V)) : Program Bool := do
  let updated ← Prog.ret (update doc)
  let moved ← moveSlots ns collection targetId doc updated (uniqueFields indexes collection) [] []
  match moved.duplicate with
  | some duplicate => do
    undoMoves ns collection targetId moved.newClaims moved.oldClaimsReleased
    throw duplicate
  | none => do
    tryCatch (send (.hset (collKey ns collection) targetId (Codec.encode updated))) fun _ => do
      undoMoves ns collection targetId moved.newClaims moved.oldClaimsReleased
      throw (.failed "update_one" collection)
    pure true

/-- `update_one`; `update` is `apply_update_operators`. -/
def updateOne (indexes : List Index) (collection : String) (filter : Filter V)
    (update : Document V → Except StoreError (Document V)) : Program Bool := do
  getClient
  match filter.byId with
  | some targetId => do
    match ← send (.hget (collKey ns collection) targetId) with
    | none => pure false
    | some text =>
      match Codec.decode text with
      | none => throw .corrupted
      | some doc => updateFound ns indexes collection targetId doc update
  | none => do
    match ← locate ns collection filter with
    | none => pure false
    | some (targetId, doc) => updateFound ns indexes collection targetId doc update

/-- The index entries of a deleted document. -/
def dropEntries (docId : String) (key : String) : Program Unit := do
  let entries : List (String × String) ← exceptRedis (send (.hgetall key)) (pure [])
  entries.forM fun entry =>
    if entry.2 = docId then exceptRedis (send (.hdel key entry.1)) (pure ()) else pure ()

/-- `delete_one` from `client.hdel(coll_key, target_id)` on. -/
def deleteFound (indexes : List Index) (collection targetId : String) : Program Bool := do
  tryCatch (send (.hdel (collKey ns collection) targetId)) fun _ =>
    throw (.failed "delete_one" collection)
  ((indexes.filter fun ix => ix.collection = collection).map Index.key).forM
    (dropEntries targetId)
  pure true

/-- `delete_one`; an id is taken without a look whether a document has it. -/
def deleteOne (indexes : List Index) (collection : String) (filter : Filter V) :
    Program Bool := do
  getClient
  match filter.byId with
  | some targetId => deleteFound ns indexes collection targetId
  | none => do
    match ← locate ns collection filter with
    | none => pure false
    | some (targetId, _) => deleteFound ns indexes collection targetId

/-- An entry of a new index. -/
def indexDocument (collection field : String) (unique : Bool) (entry : String × Document V) :
    Program Unit :=
  match fieldValue entry.2 field with
  | none => pure ()
  | some value => do
    if unique then checkUniqueIndex ns collection field value entry.1 else pure ()
    send (.hset (indexKey ns collection field) (PyValue.str value) entry.1)

variable (V) in
/-- `create_index`: the entry for `_indexes`. -/
def createIndex (collection field : String) (unique : Bool) : Program Index := do
  getClient
  send (.sadd (collectionsKey ns) collection)
  let docs : List (String × Document V) ← loadCollection ns collection
  docs.forM (indexDocument ns collection field unique)
  pure ⟨collection, field, indexKey ns collection field, unique⟩

/-- `list_collections`. -/
def listCollections : Program (List String) := do
  let members : List String ← tryCatch
    (do getClient
        send (.smembers (collectionsKey ns)))
    fun _ => throw (.failed "list_collections" "")
  pure (members.mergeSort fun a b => decide (a ≤ b))

/-- `count_documents`. -/
def countDocuments (collection : String) (filter : Filter V) : Program Nat := do
  let docs ← loadCollection ns collection
  let matched ← Prog.ret ((docs.map Prod.snd).filterM filter.accepts)
  pure matched.length

end

end OSimFlow.Documents
