import OSimFlow.Json
import OSimFlow.Lib.Padded
import OSimFlow.Lib.Run
import OSimFlow.Lib.Succeeds

/-!
# Requests that edit `run.json`

Four endpoints of one campaign write its `run.json`: pause, resume, the upload of samples
and the requeue of a sample. The two pause endpoints of the single-campaign server only
set and clear the `.pause` flag. A handler has no `await` in it, so it runs as one step.

> `Kept`: what the record held before a request it holds after it, but for what the
> request is to change; new samples have new ids, and uploaded ones their values.

`kept_iff` says which requests keep a record: all of the single-campaign ones; a pause or
a resume that finds nothing but a status; an upload of samples without values; and a
requeue whose new id nobody has.
-/

namespace OSimFlow.CampaignRecord

open OSimFlow.Lib

/-- What `run.json` holds: text that does not parse, with the error, or a value. -/
inductive RunJson (F : Type) where
  | unparsable (error : String)
  | json (data : Json F)

/-- The campaign's directory: `run.json`, and the time in the `.pause` flag. -/
structure State (F : Type) where
  runJson : Option (RunJson F)
  pauseFlag : Option F

/-- Why a request is not served: an `HTTPException`, another exception, or a loop that
went on for too long. -/
inductive Failure where
  | http (statusCode : Nat) (detail : String)
  | raises (error : PyError)
  | loops

/-- The bodies of the responses, as far as they differ. -/
inductive Response where
  | status (status : String)
  | uploaded (sampleIds : List String)
  | requeued (newSampleId : String)

/-- What the handlers take from Python: the digits outside ASCII, with their value if they
are decimal; `str` of a value; truth, successor and `repr` of a float; and how long
a loop is followed. -/
structure Env (F : Type) where
  unicodeDigit : Char → Option (Option Nat)
  str : Option (Json F) → String
  floatTruth : F → Bool
  floatSucc : F → F
  floatRepr : F → String
  fuel : Nat

/-- `BatchUploadSampleItem`. -/
structure SampleItem (F : Type) where
  values : Dict String (Json F)
  kpiValues : Option (Dict String (Json F))
  generation : Option Int

inductive Endpoint (F : Type) where
  | pauseCampaign
  | resumeCampaign
  | batchUploadSamples (samples : List (SampleItem F))
  | requeueSample (sampleId : String)
  /-- `POST /campaign/pause`. -/
  | campaignPause
  /-- `DELETE /campaign/pause`. -/
  | campaignResume

/-- A request: whether its user may write, and when it is served. -/
structure Request (F : Type) where
  endpoint : Endpoint F
  write : Bool
  now : F

section

variable {F : Type} (env : Env F) (campaignId : String)

/-! ## Reading JSON values -/

/-- A value as a `dict`. -/
def asDict : Json F → Except PyError (Dict String (Json F))
  | .obj items => .ok (Dict.update ∅ items)
  | _ => .error (.exception "object has no attribute 'get'")

/-- `v is not None`, for `v = d.get(key)`. -/
def isNotNone : Option (Json F) → Bool
  | none | some .null => false
  | some _ => true

def isStr (s : String) : Option (Json F) → Bool
  | some (.str t) => t == s
  | _ => false

def truth : Json F → Bool
  | .null => false
  | .bool b => b
  | .int n => n != 0
  | .float x => env.floatTruth x
  | .str s => s != ""
  | .arr items => !items.isEmpty
  | .obj items => !items.isEmpty

/-- `for s in data.get("per_sample", [])`. -/
def iterate : Option (Json F) → Except PyError (List (Json F))
  | none => .ok []
  | some (.arr rows) => .ok rows
  | some (.obj items) => .ok ((Dict.update ∅ items).keys.map .str)
  | some (.str s) => .ok (s.toList.map fun c => .str (String.singleton c))
  | some _ => .error (.exception "object is not iterable")

/-- `per_sample.append`. -/
def appendable : Option (Json F) → Bool
  | none | some (.arr _) => true
  | _ => false

/-- `data.get("summary", {})`, to be assigned to. -/
def summaryOf : Option (Json F) → Except PyError (Dict String (Json F))
  | none => .ok ∅
  | some (.obj items) => .ok (Dict.update ∅ items)
  | some _ => .error (.exception "object does not support item assignment")

/-! ## Numbers in ids -/

/-- `sys.get_int_max_str_digits()`. -/
def maxStrDigits : Nat := 4300

def charDigit (c : Char) : Option (Option Nat) :=
  if c.isDigit then some (some (c.toNat - '0'.toNat))
  else if c.toNat < 128 then none
  else env.unicodeDigit c

/-- `part.isdigit()`. -/
def isdigit (part : List Char) : Bool :=
  !part.isEmpty && part.all fun c => (charDigit env c).isSome

/-- `int(part)`, for a part that is digits. -/
def intOfDigits (part : List Char) : Except PyError Nat :=
  if maxStrDigits < part.length then
    .error (.exception "Exceeds the limit (4300 digits) for integer string conversion")
  else
    part.foldlM (fun n c =>
      match charDigit env c with
      | some (some digit) => .ok (10 * n + digit)
      | _ => .error (.exception "invalid literal for int() with base 10")) 0

/-- The number that an id gives: its first part that is digits. -/
def idNumber (sid : String) : Except PyError Nat :=
  match (sid.toList.splitOn '_').find? (isdigit env) with
  | some part => intOfDigits env part
  | none => .ok 0

/-- `max_num`. -/
def maxNumber (ids : List String) : Except PyError Nat :=
  ids.foldlM (fun n sid => do return max n (← idNumber env sid)) 0

/-- `str(n)`, of a number that is to be written in decimal. -/
def strOfNat (w n : Nat) : Except PyError String :=
  if maxStrDigits < (Nat.toDigits 10 n).length then
    .error (.exception "Exceeds the limit (4300 digits) for integer string conversion")
  else .ok (padded w n)

/-- `f"sample_{sample_num:04d}"`. -/
def newSampleId (n : Nat) : Except PyError String := do
  return "sample_" ++ (← strOfNat 4 n)

/-! ## The handlers -/

def raised {α : Type} : Except PyError α → Except Failure α
  | .ok a => .ok a
  | .error error => .error (.raises error)

/-- `json.loads(run_json_path.read_text())`, with what it raises. -/
def loads : RunJson F → Except Failure (Dict String (Json F))
  | .unparsable error => .error (.raises (.exception error))
  | .json data => raised (asDict data)

/-- Where the error is caught. -/
def loadsOr500 : RunJson F → Except Failure (Dict String (Json F))
  | .unparsable error => .error (.http 500 ("Failed to read run.json: " ++ error))
  | .json data => raised (asDict data)

/-- `if not ok: raise`. -/
def ensure (ok : Bool) (failure : Failure) : Except Failure Unit :=
  if ok then .ok () else .error failure

/-- The checks of `pause_campaign` on a `run.json` that exists. -/
def pausable : Option (RunJson F) → Except Failure Unit
  | none => .ok ()
  | some content => do
    let data ← loads content
    ensure (!isNotNone (data.get? "finished_at"))
      (.http 409 ("Campaign '" ++ campaignId ++ "' has already completed"))
    ensure (!isStr "paused" (data.get? "status"))
      (.http 409 ("Campaign '" ++ campaignId ++ "' is already paused"))

/-- What `pause_campaign` writes. -/
def pausedJson (now : F) : Json F :=
  .obj [("status", .str "paused"), ("paused_at", .float now)]

def pauseCampaign (write : Bool) (now : F) (s : State F) :
    Except Failure (Response × State F) := do
  ensure write (.http 403 "read-only mode: write permission required for campaign pause")
  pausable campaignId s.runJson
  return (.status "paused", ⟨some (.json (pausedJson now)), some now⟩)

/-- The checks of `resume_campaign`. -/
def resumable : Option (RunJson F) → Except Failure Unit
  | none => .ok ()
  | some content => do
    let data ← loads content
    ensure (!isNotNone (data.get? "finished_at"))
      (.http 409 ("Campaign '" ++ campaignId ++ "' has already completed"))
    ensure (isStr "paused" (data.get? "status"))
      (.http 409 ("Campaign '" ++ campaignId ++ "' is not currently paused"))

/-- What `resume_campaign` writes. -/
def resumedJson : Json F := .obj [("status", .str "running"), ("paused_at", .null)]

def resumeCampaign (write : Bool) (s : State F) : Except Failure (Response × State F) := do
  ensure write (.http 403 "read-only mode: write permission required for campaign resume")
  resumable campaignId s.runJson
  return (.status "running", ⟨some (.json resumedJson), none⟩)

/-- `s.get("sample_id", "")`, to be split. -/
def sampleIdOf (row : Json F) : Except PyError String := do
  match (← asDict row).get? "sample_id" with
  | none => return ""
  | some (.str sid) => return sid
  | some _ => throw (.exception "object has no attribute 'split'")

/-- `while new_id in existing_ids`. The ids that the loop makes are taken, too. -/
def skipTaken : Nat → List String → Nat → String → Except Failure (List String × String)
  | 0, existing, _, newId => if newId ∈ existing then .error .loops else .ok (existing, newId)
  | fuel + 1, existing, n, newId =>
    if newId ∈ existing then do
      let newId ← raised (newSampleId (n + 1))
      skipTaken fuel (newId :: existing) (n + 1) newId
    else .ok (existing, newId)

/-- `sample_entry`. -/
def sampleEntry (now : F) (newId : String) (item : SampleItem F) : Json F :=
  .obj ([("sample_id", .str newId), ("status", .str "pending"),
      ("generation", .int (item.generation.getD 1)), ("created_at", .float now)] ++
    match item.kpiValues with
    | some kpis => [("kpi_values", .obj kpis.items)]
    | none => [])

/-- The loop over the uploaded samples, from number `n` on. -/
def newEntries (now : F) : Nat → List String → List (SampleItem F) →
    Except Failure (List (String × Json F))
  | _, _, [] => .ok []
  | n, existing, item :: items => do
    let newId ← raised (newSampleId n)
    let (existing, newId) ← skipTaken env.fuel existing n newId
    let rest ← newEntries now (n + 1) existing items
    return (newId, sampleEntry now newId item) :: rest

/-- `data` with its samples, and their number in the summary. -/
def withSamples (data : Dict String (Json F)) (rows : List (Json F))
    (summary : Dict String (Json F)) : Json F :=
  .obj ((data.set "per_sample" (.arr rows)).set "summary"
    (.obj (summary.set "n_samples" (.int rows.length)).items)).items

/-- `if x is None: raise`. -/
def found {α : Type} (failure : Failure) : Option α → Except Failure α
  | some a => .ok a
  | none => .error failure

def batchUploadSamples (samples : List (SampleItem F)) (write : Bool) (now : F) (s : State F) :
    Except Failure (Response × State F) := do
  -- the schema asks for one sample at least
  ensure (!samples.isEmpty)
    (.http 422 "List should have at least 1 item after validation, not 0")
  ensure write (.http 403 "read-only mode: write permission required for batch upload")
  let content ← found (.http 404 ("Campaign '" ++ campaignId ++
    "' has no run.json — campaign may not have started")) s.runJson
  let data ← loadsOr500 content
  let rows ← raised (iterate (data.get? "per_sample"))
  let existing ← raised (rows.mapM sampleIdOf)
  let maxNum ← raised (maxNumber env existing)
  let entries ← newEntries env now (maxNum + 1) existing samples
  ensure (appendable (data.get? "per_sample"))
    (.raises (.exception "object has no attribute 'append'"))
  let summary ← raised (summaryOf (data.get? "summary"))
  let rows := rows ++ entries.map Prod.snd
  return (.uploaded (entries.map Prod.fst),
    { s with runJson := some (.json (withSamples data rows summary)) })

/-- The first row with the id, and where it is. -/
def findSample (sampleId : String) : List (Json F) →
    Except PyError (Option (Nat × Dict String (Json F)))
  | [] => .ok none
  | row :: rows => do
    let fields ← asDict row
    if isStr sampleId (fields.get? "sample_id") then return some (0, fields)
    return (← findSample sampleId rows).map fun found => (found.1 + 1, found.2)

/-- `status in ("ok", "completed", "failed")`. -/
def requeueable (status : Option (Json F)) : Bool :=
  isStr "ok" status || isStr "completed" status || isStr "failed" status

def strOfInt (n : Int) : Except PyError String := do
  let digits ← strOfNat 0 n.natAbs
  return if n < 0 then "-" ++ digits else digits

/-- `reanalyze_count + 1`, and how it is written. -/
def nextCount : Option (Json F) → Except PyError (Json F × String)
  | none => .ok (.int 1, "1")
  | some (.int n) => do return (.int (n + 1), ← strOfInt (n + 1))
  | some (.bool b) => do return (.int (b.toNat + 1), ← strOfInt (b.toNat + 1))
  | some (.float x) => .ok (.float (env.floatSucc x), env.floatRepr (env.floatSucc x))
  | some _ => .error (.exception "unsupported operand type(s) for +")

/-- `f"{sample_id}_reanalyze_{reanalyze_count + 1}"`. -/
def reanalyzeId (sampleId count : String) : String := sampleId ++ "_reanalyze_" ++ count

/-- `new_entry`. -/
def requeuedEntry (now : F) (newId sampleId : String) (source : Dict String (Json F)) : Json F :=
  .obj [("sample_id", .str newId), ("status", .str "pending"),
    ("generation", (source.get? "generation").getD (.int 1)), ("created_at", .float now),
    ("original_sample_id", .str sampleId)]

def requeueSample (sampleId : String) (write : Bool) (now : F) (s : State F) :
    Except Failure (Response × State F) := do
  ensure write (.http 403 "read-only mode: write permission required for requeue")
  let content ← found (.http 404 ("Campaign '" ++ campaignId ++ "' has no run.json")) s.runJson
  let data ← loadsOr500 content
  let rows ← raised (iterate (data.get? "per_sample"))
  let sample ← raised (findSample sampleId rows)
  let (i, source) ← found (.http 404 ("Sample '" ++ sampleId ++ "' not found in campaign '" ++
    campaignId ++ "'")) sample
  ensure (requeueable (source.get? "status"))
    (.http 422 ("Sample '" ++ sampleId ++ "' has status '" ++
      env.str (some ((source.get? "status").getD (.str ""))) ++
      "' — only COMPLETED/FAILED samples can be requeued"))
  let (count, text) ← raised (nextCount env (source.get? "reanalyze_count"))
  let newId := reanalyzeId sampleId text
  let rows := rows.set i (.obj (source.set "reanalyze_count" count).items) ++
    [requeuedEntry now newId sampleId source]
  let summary ← raised (summaryOf (data.get? "summary"))
  return (.requeued newId, { s with runJson := some (.json (withSamples data rows summary)) })

/-- `_read_json_with_lock`. -/
def readJsonWithLock : Option (RunJson F) → Json F
  | none | some (.unparsable _) => .obj []
  | some (.json data) => data

def campaignPause (write : Bool) (now : F) (s : State F) :
    Except Failure (Response × State F) := do
  ensure write (.http 403 "read-only mode: write permission required")
  let data ← raised (asDict (readJsonWithLock s.runJson))
  ensure (!isNotNone (data.get? "finished_at")) (.http 409 "campaign has already completed")
  if isStr "paused" (data.get? "status") then return (.status "already_paused", s)
  else return (.status "pausing", { s with pauseFlag := some now })

/-- `if run_data and run_data.get("status") != "paused": raise`. -/
def checkPaused (data : Json F) : Except Failure Unit :=
  if truth env data then do
    let data ← raised (asDict data)
    ensure (isStr "paused" (data.get? "status"))
      (.http 409 ("campaign is not paused (status=" ++ env.str (data.get? "status") ++ ")"))
  else .ok ()

def campaignResume (write : Bool) (s : State F) : Except Failure (Response × State F) := do
  ensure write (.http 403 "read-only mode: write permission required")
  checkPaused env (readJsonWithLock s.runJson)
  return (.status "resuming", { s with pauseFlag := none })

def respond (s : State F) (r : Request F) : Except Failure (Response × State F) :=
  match r.endpoint with
  | .pauseCampaign => pauseCampaign campaignId r.write r.now s
  | .resumeCampaign => resumeCampaign campaignId r.write s
  | .batchUploadSamples samples => batchUploadSamples env campaignId samples r.write r.now s
  | .requeueSample sampleId => requeueSample env campaignId sampleId r.write r.now s
  | .campaignPause => campaignPause r.write r.now s
  | .campaignResume => campaignResume env r.write s

/-- A request that fails has changed nothing. -/
def step (s : State F) (r : Request F) : State F :=
  match respond env campaignId s r with
  | .ok (_, s') => s'
  | .error _ => s

/-! ## The properties -/

/-- What `run.json` holds; nothing if it is no object. -/
def record (s : State F) : Dict String (Json F) :=
  match s.runJson with
  | some (.json (.obj items)) => Dict.update ∅ items
  | _ => ∅

/-- A field of an object. -/
def field? (v : Json F) (field : String) : Option (Json F) :=
  match v with
  | .obj items => (Dict.update ∅ items).get? field
  | _ => none

/-- The per-sample rows. -/
def rows (s : State F) : List (Json F) :=
  match (record s).get? "per_sample" with
  | some (.arr rows) => rows
  | _ => []

/-- The fields that a request is documented to replace. -/
def Endpoint.replaces : Endpoint F → List String
  | .pauseCampaign | .resumeCampaign | .campaignPause | .campaignResume => ["status", "paused_at"]
  | .batchUploadSamples _ | .requeueSample _ => []

/-- Two objects that agree but in one field. -/
def SameBut (field : String) (v v' : Json F) : Prop :=
  ∃ items items', v = .obj items ∧ v' = .obj items' ∧
    ∀ other, other ≠ field → field? v' other = field? v other

/-- The rows stay in their places; a requeue may count in those of its sample. -/
def RowsKept (e : Endpoint F) (rows rows' : List (Json F)) : Prop :=
  ∀ (i : Nat) row, rows[i]? = some row → ∃ row', rows'[i]? = some row' ∧
    (row' = row ∨ ∃ sampleId, e = .requeueSample sampleId ∧
      field? row "sample_id" = some (.str sampleId) ∧ SameBut "reanalyze_count" row row')

/-- A field keeps its value: the rows may be added to, and counted in the summary. -/
def FieldKept (e : Endpoint F) (field : String) (v v' : Json F) : Prop :=
  v' = v ∨
    field = "per_sample" ∧ (∃ rows rows', v = .arr rows ∧ v' = .arr rows' ∧
      RowsKept e rows rows') ∨
    field = "summary" ∧ SameBut "n_samples" v v'

/-- The fields of a row that are not for values. -/
def rowFields : List String := ["sample_id", "status", "generation", "created_at", "kpi_values"]

/-- A row has the value, in a field of its name or in an object. -/
def Holds (row : Json F) (name : String) (value : Json F) : Prop :=
  ∃ field v, field ∉ rowFields ∧ field? row field = some v ∧
    (field = name ∧ v = value ∨ field? v name = some value)

/-- What a request keeps, and what it adds. -/
structure Kept (s : State F) (r : Request F) : Prop where
  fields : ∀ field v, (record s).get? field = some v → field ∉ r.endpoint.replaces →
    ∃ v', (record (step env campaignId s r)).get? field = some v' ∧
      FieldKept r.endpoint field v v'
  newIds : ∀ (i j : Nat) row row', (rows s).length ≤ i → j < i →
    (rows (step env campaignId s r))[i]? = some row →
    (rows (step env campaignId s r))[j]? = some row' →
      field? row "sample_id" ≠ field? row' "sample_id"
  values : ∀ samples answer s', r.endpoint = .batchUploadSamples samples →
    respond env campaignId s r = .ok (answer, s') →
    ∀ (k : Nat) item, samples[k]? = some item →
      ∃ row, (rows s')[(rows s).length + k]? = some row ∧
        ∀ name value, item.values.get? name = some value → Holds row name value

/-- The record can be read, and so many numbers after the last one can be written. -/
def Uploadable (data : Dict String (Json F)) (count : Nat) : Prop :=
  appendable (data.get? "per_sample") = true ∧
    ∃ rows ids maxNum summary, iterate (data.get? "per_sample") = .ok rows ∧
      rows.mapM sampleIdOf = .ok ids ∧ maxNumber env ids = .ok maxNum ∧
      summaryOf (data.get? "summary") = .ok summary ∧
      ∀ k < count, ∃ newId, newSampleId (maxNum + 1 + k) = .ok newId

/-- The requests that keep a record. -/
def Harmless (s : State F) (r : Request F) : Prop :=
  match r.endpoint with
  -- there is nothing but a status to be overwritten
  | .pauseCampaign => r.write = true → isNotNone ((record s).get? "finished_at") = false →
      isStr "paused" ((record s).get? "status") = false →
        ∀ field ∈ (record s).keys, field ∈ ["status", "paused_at"]
  | .resumeCampaign => r.write = true → isNotNone ((record s).get? "finished_at") = false →
      isStr "paused" ((record s).get? "status") = true →
        ∀ field ∈ (record s).keys, field ∈ ["status", "paused_at"]
  -- the samples have no values
  | .batchUploadSamples samples => r.write = true → ∀ items,
      s.runJson = some (.json (.obj items)) → Uploadable env (record s) samples.length →
        ∀ item ∈ samples, item.values = ∅
  -- nobody has the new id
  | .requeueSample sampleId => r.write = true → ∀ items,
      s.runJson = some (.json (.obj items)) → ∀ rows i source count text summary,
        iterate ((record s).get? "per_sample") = .ok rows →
        findSample sampleId rows = .ok (some (i, source)) →
        requeueable (source.get? "status") = true →
        nextCount env (source.get? "reanalyze_count") = .ok (count, text) →
        summaryOf ((record s).get? "summary") = .ok summary →
          ∀ row ∈ rows, field? row "sample_id" ≠ some (.str (reanalyzeId sampleId text))
  | .campaignPause | .campaignResume => True

/-- A pause that a resume follows leaves the rows as they were. -/
def RowsRestored (s : State F) (rs : List (Request F)) : Prop :=
  ∀ before pause resume after, rs = before ++ pause :: resume :: after →
    (pause.endpoint = .pauseCampaign ∨ pause.endpoint = .campaignPause) →
    (resume.endpoint = .resumeCampaign ∨ resume.endpoint = .campaignResume) →
      rows (run (step env campaignId) s (before ++ [pause, resume])) =
        rows (run (step env campaignId) s before)

/-! ## Reading a computation that returned -/

@[simp] theorem ensure_eq_ok {ok : Bool} {failure : Failure} {u : Unit} :
    ensure ok failure = .ok u ↔ ok = true := by
  cases ok with
  | false => constructor <;> rintro ⟨⟩
  | true => exact ⟨fun _ => rfl, fun _ => rfl⟩

@[simp] theorem raised_eq_ok {α : Type} {x : Except PyError α} {a : α} :
    raised x = .ok a ↔ x = .ok a := by
  cases x with
  | error e => exact ⟨nofun, nofun⟩
  | ok b =>
    refine ⟨fun h => ?_, fun h => ?_⟩
    · cases h
      rfl
    · cases h
      rfl

@[simp] theorem found_eq_ok {α : Type} {failure : Failure} {o : Option α} {a : α} :
    found failure o = .ok a ↔ o = some a := by
  cases o with
  | none => exact ⟨nofun, nofun⟩
  | some b =>
    refine ⟨fun h => ?_, fun h => ?_⟩
    · cases h
      rfl
    · cases h
      rfl

theorem asDict_eq_ok {v : Json F} {d : Dict String (Json F)} :
    asDict v = .ok d ↔ ∃ items, v = .obj items ∧ Dict.update ∅ items = d := by
  cases v with
  | obj items =>
    refine ⟨fun h => ⟨items, rfl, Except.ok.inj h⟩, fun h => ?_⟩
    obtain ⟨items', hv, rfl⟩ := h
    cases hv
    rfl
  | _ =>
    refine ⟨nofun, fun h => ?_⟩
    obtain ⟨_, hv, _⟩ := h
    exact nomatch hv

theorem loads_eq_ok {content : RunJson F} {d : Dict String (Json F)} :
    loads content = .ok d ↔ ∃ items, content = .json (.obj items) ∧ Dict.update ∅ items = d := by
  cases content with
  | unparsable error =>
    refine ⟨nofun, fun h => ?_⟩
    obtain ⟨_, hv, _⟩ := h
    exact nomatch hv
  | json data =>
    rw [loads, raised_eq_ok, asDict_eq_ok]
    simp only [RunJson.json.injEq]

theorem loadsOr500_eq_ok {content : RunJson F} {d : Dict String (Json F)} :
    loadsOr500 content = .ok d ↔
      ∃ items, content = .json (.obj items) ∧ Dict.update ∅ items = d := by
  rw [← loads_eq_ok]
  cases content with
  | unparsable error => exact ⟨nofun, nofun⟩
  | json data => rfl

/-! ## Pause and resume -/

variable {env campaignId} {s s' : State F} {r : Request F}

/-- A record that a pause finds no fault with. -/
theorem pausable_of_obj {items : List (String × Json F)}
    (hs : s.runJson = some (.json (.obj items))) :
    pausable campaignId s.runJson = .ok () ↔
      isNotNone ((record s).get? "finished_at") = false ∧
        isStr "paused" ((record s).get? "status") = false := by
  have hrecord : record s = Dict.update ∅ items := by rw [record, hs]
  rw [hs, hrecord, pausable]
  simp only [bind_eq_ok, ensure_eq_ok, loads_eq_ok]
  refine ⟨fun h => ?_, fun h => ⟨_, ⟨items, rfl, rfl⟩, (), ?_, ?_⟩⟩
  · obtain ⟨d, ⟨items', heq, rfl⟩, _, hfin, hstat⟩ := h
    cases heq
    exact ⟨by simpa using hfin, by simpa using hstat⟩
  · simpa using h.1
  · simpa using h.2

theorem resumable_of_obj {items : List (String × Json F)}
    (hs : s.runJson = some (.json (.obj items))) :
    resumable campaignId s.runJson = .ok () ↔
      isNotNone ((record s).get? "finished_at") = false ∧
        isStr "paused" ((record s).get? "status") = true := by
  have hrecord : record s = Dict.update ∅ items := by rw [record, hs]
  rw [hs, hrecord, resumable]
  simp only [bind_eq_ok, ensure_eq_ok, loads_eq_ok]
  refine ⟨fun h => ?_, fun h => ⟨_, ⟨items, rfl, rfl⟩, (), ?_, h.2⟩⟩
  · obtain ⟨d, ⟨items', heq, rfl⟩, _, hfin, hstat⟩ := h
    cases heq
    exact ⟨by simpa using hfin, hstat⟩
  · simpa using h.1

/-- A record that has a field is an object. -/
theorem obj_of_get? {field : String} {v : Json F} (h : (record s).get? field = some v) :
    ∃ items, s.runJson = some (.json (.obj items)) := by
  unfold record at h
  split at h
  · next items hs => exact ⟨items, hs⟩
  · cases h

theorem step_ok {answer : Response} (h : respond env campaignId s r = .ok (answer, s')) :
    step env campaignId s r = s' := by
  rw [step, h]

theorem step_error {failure : Failure} (h : respond env campaignId s r = .error failure) :
    step env campaignId s r = s := by
  rw [step, h]

/-- A request that leaves the record, and uploads nothing. -/
theorem kept_of_same (hrecord : record (step env campaignId s r) = record s)
    (hupload : ∀ samples answer s', r.endpoint = .batchUploadSamples samples →
      respond env campaignId s r ≠ .ok (answer, s')) : Kept env campaignId s r := by
  refine ⟨fun field v hv _ => ⟨v, by rw [hrecord]; exact hv, Or.inl rfl⟩, ?_,
    fun samples answer s' hr hok => absurd hok (hupload samples answer s' hr)⟩
  intro i j row row' hi _ hrow _
  rw [rows, hrecord, ← rows, List.getElem?_eq_none hi] at hrow
  exact nomatch hrow

theorem kept_of_error {failure : Failure} (h : respond env campaignId s r = .error failure) :
    Kept env campaignId s r := by
  refine kept_of_same (by rw [step_error h]) fun samples answer s' _ hok => ?_
  exact nomatch h.symm.trans hok

/-- What pause and resume write has two fields. -/
theorem get?_status {a b v : Json F} {field : String}
    (h : (Dict.update ∅ [("status", a), ("paused_at", b)]).get? field = some v) :
    field ∈ ["status", "paused_at"] := by
  show field ∈ ([("status", a), ("paused_at", b)].map Prod.fst)
  have hitems : (Dict.update (∅ : Dict String (Json F)) [("status", a), ("paused_at", b)]).items =
      [("status", a), ("paused_at", b)] := rfl
  rw [← hitems]
  exact Dict.mem_keys_of_get? h

/-- A request that overwrites the record keeps it just if it held no more. -/
theorem kept_overwrite_iff {answer : Response} {a b : Json F}
    (h : respond env campaignId s r = .ok (answer, s'))
    (hs' : s'.runJson = some (.json (.obj [("status", a), ("paused_at", b)])))
    (hreplaces : r.endpoint.replaces = ["status", "paused_at"])
    (hupload : ∀ samples, r.endpoint ≠ .batchUploadSamples samples) :
    Kept env campaignId s r ↔ ∀ field ∈ (record s).keys, field ∈ ["status", "paused_at"] := by
  have hrecord : record s' = Dict.update ∅ [("status", a), ("paused_at", b)] := by
    rw [record, hs']
  refine ⟨fun hk field hfield => ?_, fun hsmall => ⟨fun field v hv hnot => ?_, ?_, ?_⟩⟩
  · obtain ⟨v, hv⟩ := Dict.mem_keys_iff.mp hfield
    by_cases hin : field ∈ ["status", "paused_at"]
    · exact hin
    · obtain ⟨v', hv', _⟩ := hk.fields field v hv (by rw [hreplaces]; exact hin)
      rw [step_ok h, hrecord] at hv'
      exact get?_status hv'
  · rw [hreplaces] at hnot
    exact absurd (hsmall field (Dict.mem_keys_of_get? hv)) hnot
  · intro i j row row' _ _ hrow _
    have hrows : rows s' = [] := by
      rw [rows, hrecord]
      rfl
    rw [step_ok h, hrows] at hrow
    exact nomatch hrow
  · intro samples _ _ hr
    exact absurd hr (hupload samples)

theorem pauseCampaign_eq_ok {write : Bool} {now : F} {answer : Response} :
    pauseCampaign campaignId write now s = .ok (answer, s') ↔
      write = true ∧ pausable campaignId s.runJson = .ok () ∧ answer = .status "paused" ∧
        s' = ⟨some (.json (pausedJson now)), some now⟩ := by
  rw [pauseCampaign]
  simp only [bind_eq_ok, ensure_eq_ok, pure, Except.pure, Except.ok.injEq, Prod.mk.injEq,
    exists_const]
  exact ⟨fun ⟨hw, _, hp, ha, hs⟩ => ⟨hw, hp, ha.symm, hs.symm⟩,
    fun ⟨hw, hp, ha, hs⟩ => ⟨hw, (), hp, ha.symm, hs.symm⟩⟩

theorem resumeCampaign_eq_ok {write : Bool} {answer : Response} :
    resumeCampaign campaignId write s = .ok (answer, s') ↔
      write = true ∧ resumable campaignId s.runJson = .ok () ∧ answer = .status "running" ∧
        s' = ⟨some (.json resumedJson), none⟩ := by
  rw [resumeCampaign]
  simp only [bind_eq_ok, ensure_eq_ok, pure, Except.pure, Except.ok.injEq, Prod.mk.injEq,
    exists_const]
  exact ⟨fun ⟨hw, _, hp, ha, hs⟩ => ⟨hw, hp, ha.symm, hs.symm⟩,
    fun ⟨hw, hp, ha, hs⟩ => ⟨hw, (), hp, ha.symm, hs.symm⟩⟩

/-- Pause and resume, where `P` is what they ask of an object. -/
theorem kept_iff_of_overwrite {P : Prop} {a b : Json F}
    (hreplaces : r.endpoint.replaces = ["status", "paused_at"])
    (hupload : ∀ samples, r.endpoint ≠ .batchUploadSamples samples)
    (hwrites : ∀ answer s', respond env campaignId s r = .ok (answer, s') →
      s'.runJson = some (.json (.obj [("status", a), ("paused_at", b)])))
    (hserves : ∀ items, s.runJson = some (.json (.obj items)) →
      ((∃ answer s', respond env campaignId s r = .ok (answer, s')) ↔ r.write = true ∧ P)) :
    Kept env campaignId s r ↔
      (r.write = true → P → ∀ field ∈ (record s).keys, field ∈ ["status", "paused_at"]) := by
  cases hres : respond env campaignId s r with
  | error failure =>
    refine ⟨fun _ hw hP field hfield => ?_, fun _ => kept_of_error hres⟩
    obtain ⟨v, hv⟩ := Dict.mem_keys_iff.mp hfield
    obtain ⟨items, hobj⟩ := obj_of_get? hv
    obtain ⟨answer, s', hok⟩ := (hserves items hobj).mpr ⟨hw, hP⟩
    exact nomatch hres.symm.trans hok
  | ok served =>
    obtain ⟨answer, s'⟩ := served
    rw [kept_overwrite_iff hres (hwrites answer s' hres) hreplaces hupload]
    refine ⟨fun hsmall _ _ => hsmall, fun h field hfield => ?_⟩
    obtain ⟨v, hv⟩ := Dict.mem_keys_iff.mp hfield
    obtain ⟨items, hobj⟩ := obj_of_get? hv
    obtain ⟨hw, hP⟩ := (hserves items hobj).mp ⟨answer, s', hres⟩
    exact h hw hP field hfield

theorem kept_pauseCampaign_iff (hr : r.endpoint = .pauseCampaign) :
    Kept env campaignId s r ↔ Harmless env s r := by
  have hrespond : respond env campaignId s r = pauseCampaign campaignId r.write r.now s := by
    rw [respond, hr]
  have hserves : ∀ items, s.runJson = some (.json (.obj items)) →
      ((∃ answer s', respond env campaignId s r = .ok (answer, s')) ↔
        r.write = true ∧ isNotNone ((record s).get? "finished_at") = false ∧
          isStr "paused" ((record s).get? "status") = false) := by
    intro items hobj
    simp only [hrespond, pauseCampaign_eq_ok]
    rw [← pausable_of_obj hobj]
    constructor
    · rintro ⟨_, _, hw, hp, _⟩
      exact ⟨hw, hp⟩
    · rintro ⟨hw, hp⟩
      exact ⟨_, _, hw, hp, rfl, rfl⟩
  have hwrites : ∀ answer s', respond env campaignId s r = .ok (answer, s') →
      s'.runJson = some (.json (pausedJson r.now)) := by
    intro answer s' hok
    rw [hrespond, pauseCampaign_eq_ok] at hok
    rw [hok.2.2.2]
  rw [kept_iff_of_overwrite (by rw [hr]; rfl) (fun _ he => by cases hr.symm.trans he) hwrites
    hserves, Harmless, hr]
  simp only [and_imp]

theorem kept_resumeCampaign_iff (hr : r.endpoint = .resumeCampaign) :
    Kept env campaignId s r ↔ Harmless env s r := by
  have hrespond : respond env campaignId s r = resumeCampaign campaignId r.write s := by
    rw [respond, hr]
  have hserves : ∀ items, s.runJson = some (.json (.obj items)) →
      ((∃ answer s', respond env campaignId s r = .ok (answer, s')) ↔
        r.write = true ∧ isNotNone ((record s).get? "finished_at") = false ∧
          isStr "paused" ((record s).get? "status") = true) := by
    intro items hobj
    simp only [hrespond, resumeCampaign_eq_ok]
    rw [← resumable_of_obj hobj]
    constructor
    · rintro ⟨_, _, hw, hp, _⟩
      exact ⟨hw, hp⟩
    · rintro ⟨hw, hp⟩
      exact ⟨_, _, hw, hp, rfl, rfl⟩
  have hwrites : ∀ answer s', respond env campaignId s r = .ok (answer, s') →
      s'.runJson = some (.json (resumedJson)) := by
    intro answer s' hok
    rw [hrespond, resumeCampaign_eq_ok] at hok
    rw [hok.2.2.2]
  rw [kept_iff_of_overwrite (by rw [hr]; rfl) (fun _ he => by cases hr.symm.trans he) hwrites
    hserves, Harmless, hr]
  simp only [and_imp]

/-- The single-campaign endpoints leave `run.json` alone. -/
theorem runJson_campaignPause {write : Bool} {now : F} {answer : Response}
    (h : campaignPause write now s = .ok (answer, s')) : s'.runJson = s.runJson := by
  rw [campaignPause] at h
  simp only [bind_eq_ok] at h
  obtain ⟨_, _, _, _, _, _, h⟩ := h
  split at h
  · cases h
    rfl
  · cases h
    rfl

theorem runJson_campaignResume {write : Bool} {answer : Response}
    (h : campaignResume env write s = .ok (answer, s')) : s'.runJson = s.runJson := by
  rw [campaignResume] at h
  simp only [bind_eq_ok] at h
  obtain ⟨_, _, _, _, h⟩ := h
  cases h
  rfl

theorem record_step_flag (hr : r.endpoint = .campaignPause ∨ r.endpoint = .campaignResume) :
    record (step env campaignId s r) = record s := by
  have hjson : (step env campaignId s r).runJson = s.runJson := by
    cases hres : respond env campaignId s r with
    | error failure => rw [step_error hres]
    | ok served =>
      rw [step_ok hres]
      rcases hr with hr | hr
      · rw [respond, hr] at hres
        exact runJson_campaignPause hres
      · rw [respond, hr] at hres
        exact runJson_campaignResume hres
  rw [record, hjson, ← record]

theorem kept_flag (hr : r.endpoint = .campaignPause ∨ r.endpoint = .campaignResume) :
    Kept env campaignId s r := by
  refine kept_of_same (record_step_flag hr) fun samples _ _ he => ?_
  rcases hr with hr | hr <;> exact nomatch hr.symm.trans he

/-! ## New ids -/

theorem strOfNat_eq_ok {w n : Nat} {text : String} :
    strOfNat w n = .ok text ↔
      (Nat.toDigits 10 n).length ≤ maxStrDigits ∧ text = padded w n := by
  unfold strOfNat
  split
  · next h => exact ⟨nofun, fun h' => absurd h'.1 (by omega)⟩
  · next h => exact ⟨fun h' => ⟨by omega, (Except.ok.inj h').symm⟩, fun h' => by rw [h'.2]⟩

theorem newSampleId_eq_ok {n : Nat} {newId : String} :
    newSampleId n = .ok newId ↔
      (Nat.toDigits 10 n).length ≤ maxStrDigits ∧ newId = "sample_" ++ padded 4 n := by
  unfold newSampleId
  simp only [bind_eq_ok, strOfNat_eq_ok, pure, Except.pure, Except.ok.injEq]
  refine ⟨fun ⟨_, ⟨hlen, htext⟩, hid⟩ => ⟨hlen, by rw [← hid, htext]⟩,
    fun ⟨hlen, hid⟩ => ⟨_, ⟨hlen, rfl⟩, hid.symm⟩⟩

/-- Different numbers make different ids. -/
theorem newSampleId_injective {n n' : Nat} {newId : String} (h : newSampleId n = .ok newId)
    (h' : newSampleId n' = .ok newId) : n = n' := by
  have hid := (newSampleId_eq_ok.mp h).2
  rw [(newSampleId_eq_ok.mp h').2] at hid
  exact (padded_injective 4 ((String.append_right_inj _).mp hid)).symm

theorem charDigit_of_digitChar {c : Char} (h : DigitChar c) :
    charDigit env c = some (some (c.toNat - '0'.toNat)) := by
  have hdigit : c.isDigit = true := by
    rw [Char.isDigit, Bool.and_eq_true, decide_eq_true_iff, decide_eq_true_iff]
    exact h
  rw [charDigit, if_pos hdigit]

/-- The value of digits, as `int` reads them. -/
theorem foldlM_digits {l : List Char} (h : ∀ c ∈ l, DigitChar c) (n : Nat) :
    (l.foldlM (fun n c =>
      match charDigit env c with
      | some (some digit) => Except.ok (10 * n + digit)
      | _ => .error (PyError.exception "invalid literal for int() with base 10")) n) =
      .ok (Nat.ofDigitChars 10 l n) := by
  induction l generalizing n with
  | nil => rfl
  | cons c l ih =>
    rw [List.foldlM_cons, charDigit_of_digitChar (h c List.mem_cons_self), Nat.ofDigitChars_cons]
    exact ih (fun c' hc' => h c' (List.mem_cons_of_mem c hc')) _

theorem isdigit_padded (n : Nat) : isdigit env (padded 4 n).toList = true := by
  have hne : (padded 4 n).toList ≠ [] := by
    rw [toList_padded]
    intro h
    exact Nat.toDigits_ne_nil (List.append_eq_nil_iff.mp h).2
  rw [isdigit, Bool.and_eq_true, Bool.not_eq_true', List.isEmpty_eq_false_iff, List.all_eq_true]
  refine ⟨hne, fun c hc => ?_⟩
  rw [charDigit_of_digitChar (digitChar_padded c hc)]
  rfl

/-- The number of a new id is read back. -/
theorem idNumber_newSampleId {n : Nat} {newId : String} (h : newSampleId n = .ok newId) :
    idNumber env newId = .ok n := by
  obtain ⟨hlen, rfl⟩ := newSampleId_eq_ok.mp h
  have hsplit : ("sample_" ++ padded 4 n).toList.splitOn '_' =
      ["sample".toList, (padded 4 n).toList] := by
    have hlist : ("sample_" ++ padded 4 n).toList =
        ['s', 'a', 'm', 'p', 'l', 'e'] ++ '_' :: (padded 4 n).toList := by
      rw [String.toList_append]
      rfl
    have hsample : ∀ c ∈ ['s', 'a', 'm', 'p', 'l', 'e'], (c == '_') = false := by
      intro c hc
      rw [beq_eq_false_iff_ne]
      rintro rfl
      exact absurd hc (by decide)
    have hpadded : ∀ c ∈ (padded 4 n).toList, (c == '_') = false := by
      intro c hc
      have hdigit := digitChar_padded c hc
      rw [beq_eq_false_iff_ne]
      rintro rfl
      exact absurd hdigit.2 (by decide)
    rw [hlist, List.splitOn_eq_splitOnP,
      List.splitOnP_append_cons_of_forall_mem hsample '_' (by rfl),
      List.splitOnP_eq_singleton hpadded]
    rfl
  have hsample : isdigit env "sample".toList = false := by
    rfl
  have hlength : ¬ maxStrDigits < (padded 4 n).toList.length := by
    rw [toList_padded, List.length_append, List.length_replicate]
    unfold maxStrDigits at hlen ⊢
    omega
  rw [idNumber, hsplit, List.find?_cons, hsample, List.find?_cons, isdigit_padded]
  show intOfDigits env (padded 4 n).toList = .ok n
  rw [intOfDigits, if_neg hlength, foldlM_digits digitChar_padded, ofDigitChars_padded]

theorem foldlM_max_le {ids : List String} {n m : Nat}
    (h : ids.foldlM (fun n sid => do return max n (← idNumber env sid)) n =
      (.ok m : Except PyError Nat)) :
    n ≤ m ∧ ∀ sid ∈ ids, ∃ k, idNumber env sid = .ok k ∧ k ≤ m := by
  induction ids generalizing n with
  | nil =>
    cases h
    exact ⟨Nat.le_refl _, fun _ hm => nomatch hm⟩
  | cons sid ids ih =>
    rw [List.foldlM_cons] at h
    simp only [bind_eq_ok, pure, Except.pure, Except.ok.injEq] at h
    obtain ⟨n', ⟨k, hk, rfl⟩, hrest⟩ := h
    obtain ⟨hle, hall⟩ := ih hrest
    refine ⟨by omega, fun sid' hsid' => ?_⟩
    rcases List.mem_cons.mp hsid' with rfl | hsid'
    · exact ⟨k, hk, by omega⟩
    · exact hall sid' hsid'

/-- A number above the maximum makes an id that is not there. -/
theorem notMem_of_maxNumber {ids : List String} {maxNum n : Nat} {newId : String}
    (hmax : maxNumber env ids = .ok maxNum) (hn : maxNum < n) (h : newSampleId n = .ok newId) :
    newId ∉ ids := by
  intro hmem
  obtain ⟨k, hk, hle⟩ := (foldlM_max_le hmax).2 newId hmem
  rw [idNumber_newSampleId h] at hk
  cases hk
  omega

/-! ## The upload of samples -/

theorem skipTaken_of_notMem {fuel n : Nat} {existing : List String} {newId : String}
    (h : newId ∉ existing) : skipTaken fuel existing n newId = .ok (existing, newId) := by
  cases fuel <;> rw [skipTaken, if_neg h]

/-- Where no number from `n` on is taken, the loop over the samples numbers them. -/
theorem newEntries_eq_ok {now : F} {existing : List String} {items : List (SampleItem F)} {n : Nat}
    (hfree : ∀ k newId, n ≤ k → newSampleId k = .ok newId → newId ∉ existing)
    {entries : List (String × Json F)} :
    newEntries env now n existing items = .ok entries ↔
      entries.length = items.length ∧ ∀ (k : Nat) item, items[k]? = some item →
        ∃ newId, newSampleId (n + k) = .ok newId ∧
          entries[k]? = some (newId, sampleEntry now newId item) := by
  induction items generalizing n entries with
  | nil =>
    rw [newEntries, Except.ok.injEq, List.length_nil, List.length_eq_zero_iff]
    exact ⟨fun h => ⟨h.symm, fun _ _ hk => nomatch hk⟩, fun h => h.1.symm⟩
  | cons item items ih =>
    have hrest := @ih (n + 1) fun k newId hk => hfree k newId (by omega)
    rw [newEntries]
    simp only [bind_eq_ok, raised_eq_ok, pure, Except.pure, Except.ok.injEq]
    constructor
    · rintro ⟨newId, hnew, ⟨existing', newId'⟩, hskip, rest, hentries, rfl⟩
      rw [skipTaken_of_notMem (hfree n newId (Nat.le_refl n) hnew)] at hskip
      cases hskip
      obtain ⟨hlength, hall⟩ := hrest.mp hentries
      refine ⟨by rw [List.length_cons, List.length_cons, hlength], fun k item' hk => ?_⟩
      cases k with
      | zero =>
        cases hk
        exact ⟨newId, hnew, rfl⟩
      | succ k =>
        obtain ⟨id, hid, hentry⟩ := hall k item' hk
        exact ⟨id, by rw [← hid]; congr 1; omega, hentry⟩
    · rintro ⟨hlength, hall⟩
      obtain ⟨newId, hnew, hentry⟩ := hall 0 item rfl
      cases entries with
      | nil => exact nomatch hlength
      | cons entry rest =>
        cases hentry
        refine ⟨newId, hnew, _, skipTaken_of_notMem (hfree n newId (Nat.le_refl n) hnew), rest,
          hrest.mpr ⟨Nat.succ.inj hlength, fun k item' hk => ?_⟩, rfl⟩
        obtain ⟨id, hid, hentry⟩ := hall (k + 1) item' hk
        exact ⟨id, by rw [← hid]; congr 1; omega, hentry⟩

/-- The record after the rows and their number were written. -/
theorem get?_withSamples {data summary : Dict String (Json F)} {rows : List (Json F)}
    (hs' : s'.runJson = some (.json (withSamples data rows summary))) (field : String) :
    (record s').get? field =
      if "summary" = field then some (.obj (summary.set "n_samples" (.int rows.length)).items)
      else if "per_sample" = field then some (.arr rows)
      else data.get? field := by
  have hrecord : record s' = Dict.update ∅ ((data.set "per_sample" (.arr rows)).set "summary"
      (.obj (summary.set "n_samples" (.int rows.length)).items)).items := by
    rw [record, hs']
    rfl
  rw [hrecord, Dict.get?_update_items, Dict.get?_set, Dict.get?_set]

theorem rows_withSamples {data summary : Dict String (Json F)} {samples : List (Json F)}
    (hs' : s'.runJson = some (.json (withSamples data samples summary))) :
    rows s' = samples := by
  rw [rows, get?_withSamples hs', if_neg (by decide), if_pos rfl]

theorem rows_of_iterate {samples : List (Json F)}
    (happend : appendable ((record s).get? "per_sample") = true)
    (hrows : iterate ((record s).get? "per_sample") = .ok samples) : rows s = samples := by
  rw [rows]
  cases hper : (record s).get? "per_sample" with
  | none =>
    rw [hper] at hrows
    cases hrows
    rfl
  | some v =>
    rw [hper] at hrows happend
    cases v with
    | arr items =>
      cases hrows
      rfl
    | _ => exact nomatch happend

/-- What an upload or a requeue does to the fields. -/
theorem fieldKept_withSamples {e : Endpoint F} {summary : Dict String (Json F)}
    {samples samples' : List (Json F)}
    (happend : appendable ((record s).get? "per_sample") = true)
    (hrows : iterate ((record s).get? "per_sample") = .ok samples)
    (hsummary : summaryOf ((record s).get? "summary") = .ok summary)
    (hkept : RowsKept e samples samples')
    (hs' : s'.runJson = some (.json (withSamples (record s) samples' summary)))
    {field : String} {v : Json F} (hv : (record s).get? field = some v) :
    ∃ v', (record s').get? field = some v' ∧ FieldKept e field v v' := by
  rw [get?_withSamples hs']
  by_cases hsum : "summary" = field
  · subst hsum
    rw [if_pos rfl]
    rw [hv] at hsummary
    refine ⟨_, rfl, Or.inr (Or.inr ⟨rfl, ?_⟩)⟩
    cases v with
    | obj items =>
      cases hsummary
      refine ⟨items, _, rfl, rfl, fun other hother => ?_⟩
      show (Dict.update ∅ (Dict.items _)).get? other = _
      rw [Dict.get?_update_items, Dict.get?_set_ne _ hother.symm]
      rfl
    | _ => exact nomatch hsummary
  · rw [if_neg hsum]
    by_cases hper : "per_sample" = field
    · subst hper
      rw [if_pos rfl]
      rw [hv] at hrows happend
      refine ⟨_, rfl, Or.inr (Or.inl ⟨rfl, ?_⟩)⟩
      cases v with
      | arr items =>
        cases hrows
        exact ⟨_, samples', rfl, rfl, hkept⟩
      | _ => exact nomatch happend
    · rw [if_neg hper]
      exact ⟨v, hv, Or.inl rfl⟩

theorem batchUploadSamples_eq_ok {samples : List (SampleItem F)} {write : Bool} {now : F}
    {answer : Response} :
    batchUploadSamples env campaignId samples write now s = .ok (answer, s') ↔
      samples ≠ [] ∧ write = true ∧
        ∃ items, s.runJson = some (.json (.obj items)) ∧
        ∃ rows, iterate ((record s).get? "per_sample") = .ok rows ∧
        ∃ ids, rows.mapM sampleIdOf = .ok ids ∧
        ∃ maxNum, maxNumber env ids = .ok maxNum ∧
        ∃ entries, newEntries env now (maxNum + 1) ids samples = .ok entries ∧
        appendable ((record s).get? "per_sample") = true ∧
        ∃ summary, summaryOf ((record s).get? "summary") = .ok summary ∧
        answer = .uploaded (entries.map Prod.fst) ∧
        s' = ⟨some (.json (withSamples (record s) (rows ++ entries.map Prod.snd) summary)),
          s.pauseFlag⟩ := by
  have hrecord : ∀ items, s.runJson = some (.json (.obj items)) →
      record s = Dict.update ∅ items := fun items h => by rw [record, h]
  rw [batchUploadSamples]
  simp only [bind_eq_ok, ensure_eq_ok, found_eq_ok, raised_eq_ok, loadsOr500_eq_ok, pure,
    Except.pure, Except.ok.injEq, Prod.mk.injEq]
  constructor
  · rintro ⟨_, hne, _, hw, _, hobj, _, ⟨items, rfl, rfl⟩, rows, hrows, ids, hids, maxNum, hmax,
      entries, hentries, _, happend, summary, hsummary, rfl, rfl⟩
    rw [← hrecord items hobj] at hrows happend hsummary ⊢
    refine ⟨?_, hw, items, hobj, rows, hrows, ids, hids, maxNum, hmax, entries, hentries, happend,
      summary, hsummary, rfl, rfl⟩
    rintro rfl
    cases hne
  · rintro ⟨hne, hw, items, hobj, rows, hrows, ids, hids, maxNum, hmax, entries, hentries,
      happend, summary, hsummary, rfl, rfl⟩
    rw [hrecord items hobj] at hrows happend hsummary ⊢
    refine ⟨(), ?_, (), hw, _, hobj, _, ⟨items, rfl, rfl⟩, rows, hrows, ids, hids, maxNum, hmax,
      entries, hentries, (), happend, summary, hsummary, rfl, rfl⟩
    cases samples with
    | nil => exact absurd rfl hne
    | cons item samples => rfl

/-- The id that an old row has, if any, is among those that were read. -/
theorem field?_of_sampleIdOf {row : Json F} {sid : String} (h : sampleIdOf row = .ok sid) :
    field? row "sample_id" = none ∨ field? row "sample_id" = some (.str sid) := by
  rw [sampleIdOf] at h
  simp only [bind_eq_ok, asDict_eq_ok] at h
  obtain ⟨_, ⟨items, rfl, rfl⟩, h⟩ := h
  rw [field?]
  split at h
  · next hnone => exact Or.inl hnone
  · next sid' hsid =>
    cases h
    exact Or.inr hsid
  · cases h

theorem oldIds {samples : List (Json F)} {ids : List String}
    (h : samples.mapM sampleIdOf = .ok ids) {newId : String} (hnew : newId ∉ ids) :
    ∀ row ∈ samples, field? row "sample_id" ≠ some (.str newId) := by
  intro row hrow heq
  obtain ⟨sid, hsid, hok⟩ := exists_of_forall₂ (forall₂_of_mapM_ok h) row hrow
  rcases field?_of_sampleIdOf hok with hnone | hsome
  · exact nomatch hnone.symm.trans heq
  · have hstr := Option.some.inj (hsome.symm.trans heq)
    injection hstr with hstr
    exact hnew (hstr ▸ hsid)

theorem field?_sampleEntry_id (now : F) (newId : String) (item : SampleItem F) :
    field? (sampleEntry now newId item) "sample_id" = some (.str newId) := by
  rw [sampleEntry]
  cases item.kpiValues <;> rfl

/-- A new row has no field but its own. -/
theorem mem_rowFields {now : F} {newId : String} {item : SampleItem F} {field : String}
    {v : Json F} (h : field? (sampleEntry now newId item) field = some v) :
    field ∈ rowFields := by
  rw [sampleEntry] at h
  cases hkpis : item.kpiValues with
  | none =>
    rw [hkpis] at h
    have hkeys : field ∈ rowFields.dropLast := Dict.mem_keys_of_get? h
    exact List.mem_of_mem_dropLast hkeys
  | some kpis =>
    rw [hkpis] at h
    exact Dict.mem_keys_of_get? h

theorem not_holds_sampleEntry {now : F} {newId : String} {item : SampleItem F} {name : String}
    {value : Json F} : ¬ Holds (sampleEntry now newId item) name value := by
  rintro ⟨field, v, hnot, hfield, _⟩
  exact hnot (mem_rowFields hfield)

theorem rowsKept_append (e : Endpoint F) (samples new : List (Json F)) :
    RowsKept e samples (samples ++ new) := by
  intro i row hrow
  refine ⟨row, ?_, Or.inl rfl⟩
  rw [List.getElem?_append_left (List.getElem?_eq_some_iff.mp hrow).1]
  exact hrow

/-- An upload that is served keeps the record, and loses the values. -/
theorem kept_served_upload_iff {samples : List (SampleItem F)} {answer : Response}
    (hr : r.endpoint = .batchUploadSamples samples)
    (hok : respond env campaignId s r = .ok (answer, s')) :
    Kept env campaignId s r ↔ ∀ item ∈ samples, ∀ name, item.values.get? name = none := by
  have hstep := step_ok hok
  have hserved := hok
  rw [respond, hr, batchUploadSamples_eq_ok] at hserved
  obtain ⟨hne, hw, items, hobj, old, hold, ids, hids, maxNum, hmax, entries, hentries, happend,
    summary, hsummary, -, hs'⟩ := hserved
  have hjson : s'.runJson =
      some (.json (withSamples (record s) (old ++ entries.map Prod.snd) summary)) := by rw [hs']
  have hrows : rows s = old := rows_of_iterate happend hold
  have hrows' : rows s' = old ++ entries.map Prod.snd := rows_withSamples hjson
  obtain ⟨hlength, hall⟩ := (newEntries_eq_ok fun k newId hk hnew =>
    notMem_of_maxNumber hmax (by omega) hnew).mp hentries
  -- the new row at each place
  have hnewRow : ∀ (i : Nat) row, old.length ≤ i → (old ++ entries.map Prod.snd)[i]? = some row →
      ∃ item newId, samples[i - old.length]? = some item ∧
        newSampleId (maxNum + 1 + (i - old.length)) = .ok newId ∧
          row = sampleEntry r.now newId item := by
    intro i row hi hrow
    rw [List.getElem?_append_right hi, List.getElem?_map, Option.map_eq_some_iff] at hrow
    obtain ⟨entry, hentry, rfl⟩ := hrow
    have hlt : i - old.length < samples.length := by
      rw [← hlength]
      exact (List.getElem?_eq_some_iff.mp hentry).1
    obtain ⟨newId, hnew, hat⟩ := hall _ _ (List.getElem?_eq_getElem hlt)
    rw [hat] at hentry
    cases hentry
    exact ⟨_, newId, List.getElem?_eq_getElem hlt, hnew, rfl⟩
  refine ⟨fun hk item hitem name => ?_, fun hempty => ⟨fun field v hv _ => ?_, ?_, ?_⟩⟩
  · obtain ⟨k, hlt, rfl⟩ := List.getElem_of_mem hitem
    obtain ⟨row, hrow, hvalues⟩ := hk.values samples answer s' hr hok k _
      (List.getElem?_eq_getElem hlt)
    rw [hrows', hrows] at hrow
    obtain ⟨_, newId, _, _, rfl⟩ := hnewRow _ row (Nat.le_add_right _ _) hrow
    cases hvalue : samples[k].values.get? name with
    | none => rfl
    | some value => exact absurd (hvalues name value hvalue) not_holds_sampleEntry
  · rw [hstep]
    exact fieldKept_withSamples happend hold hsummary (rowsKept_append _ _ _) hjson hv
  · intro i j row row' hi hj hrow hrow'
    rw [hrows] at hi
    rw [hstep, hrows'] at hrow hrow'
    obtain ⟨item, newId, _, hnew, rfl⟩ := hnewRow i row hi hrow
    rw [field?_sampleEntry_id]
    rcases Nat.lt_or_ge j old.length with hlt | hge
    · rw [List.getElem?_append_left hlt] at hrow'
      have hfree := notMem_of_maxNumber hmax (by omega) hnew
      exact (oldIds hids hfree row' (List.mem_of_getElem? hrow')).symm
    · obtain ⟨item', newId', _, hnew', rfl⟩ := hnewRow j row' hge hrow'
      rw [field?_sampleEntry_id]
      intro heq
      have hstr := Option.some.inj heq
      injection hstr with hstr
      have := newSampleId_injective hnew (hstr ▸ hnew')
      omega
  · intro samples' answer' s'' hr' hok' k item hitem
    rw [hr] at hr'
    cases hr'
    rw [hok] at hok'
    cases hok'
    obtain ⟨newId, _, hat⟩ := hall k item hitem
    refine ⟨sampleEntry r.now newId item, ?_, fun name value hvalue => ?_⟩
    · rw [hrows', hrows, List.getElem?_append_right (Nat.le_add_right _ _), Nat.add_sub_cancel_left,
        List.getElem?_map, hat]
      rfl
    · have hnone := hempty item (List.mem_of_getElem? hitem) name
      exact nomatch hnone.symm.trans hvalue

theorem kept_batchUploadSamples_iff {samples : List (SampleItem F)}
    (hr : r.endpoint = .batchUploadSamples samples) :
    Kept env campaignId s r ↔ Harmless env s r := by
  have hrespond : respond env campaignId s r =
      batchUploadSamples env campaignId samples r.write r.now s := by
    rw [respond, hr]
  rw [Harmless, hr]
  dsimp only
  simp only [Dict.eq_empty_iff]
  cases hres : respond env campaignId s r with
  | error failure =>
    refine ⟨fun _ hw items hobj hup item hitem => ?_, fun _ => kept_of_error hres⟩
    obtain ⟨happend, old, ids, maxNum, summary, hold, hids, hmax, hsummary, hprint⟩ := hup
    -- such an upload would have been served
    have hfree : ∀ k newId, maxNum + 1 ≤ k → newSampleId k = .ok newId → newId ∉ ids :=
      fun k newId hk hnew => notMem_of_maxNumber hmax (by omega) hnew
    have hchoose : ∀ k : Fin samples.length, ∃ newId, newSampleId (maxNum + 1 + k) = .ok newId :=
      fun k => hprint k k.isLt
    choose newIds hnewIds using hchoose
    have hentries : newEntries env r.now (maxNum + 1) ids samples =
        .ok (List.ofFn fun k => (newIds k, sampleEntry r.now (newIds k) samples[k])) := by
      rw [newEntries_eq_ok hfree]
      refine ⟨List.length_ofFn, fun k item' hk => ?_⟩
      obtain ⟨hlt, rfl⟩ := List.getElem?_eq_some_iff.mp hk
      refine ⟨newIds ⟨k, hlt⟩, hnewIds ⟨k, hlt⟩, ?_⟩
      rw [List.getElem?_ofFn, dif_pos hlt]
      rfl
    rw [hrespond] at hres
    cases hres.symm.trans (batchUploadSamples_eq_ok.mpr ⟨List.ne_nil_of_mem hitem, hw,
      items, hobj, old, hold, ids, hids, maxNum, hmax, _, hentries, happend, summary, hsummary,
      rfl, rfl⟩)
  | ok served =>
    obtain ⟨answer, s'⟩ := served
    rw [kept_served_upload_iff hr hres]
    refine ⟨fun h _ _ _ _ => h, fun h => ?_⟩
    rw [hrespond, batchUploadSamples_eq_ok] at hres
    obtain ⟨-, hw, items, hobj, old, hold, ids, hids, maxNum, hmax, entries, hentries, happend,
      summary, hsummary, -, -⟩ := hres
    refine h hw items hobj ⟨happend, old, ids, maxNum, summary, hold, hids, hmax, hsummary,
      fun k hk => ?_⟩
    have hfree : ∀ k newId, maxNum + 1 ≤ k → newSampleId k = .ok newId → newId ∉ ids :=
      fun k newId hk hnew => notMem_of_maxNumber hmax (by omega) hnew
    obtain ⟨newId, hnew, _⟩ := ((newEntries_eq_ok hfree).mp hentries).2 k _
      (List.getElem?_eq_getElem hk)
    exact ⟨newId, hnew⟩

/-! ## The requeue of a sample -/

theorem isStr_eq_true {t : String} {v : Option (Json F)} :
    isStr t v = true ↔ v = some (.str t) := by
  cases v with
  | none => exact ⟨nofun, nofun⟩
  | some v =>
    cases v with
    | str u =>
      rw [isStr, beq_iff_eq]
      refine ⟨fun h => by rw [h], fun h => ?_⟩
      injection Option.some.inj h
    | _ => exact ⟨nofun, nofun⟩

theorem findSample_eq_some {sampleId : String} {samples : List (Json F)} {i : Nat}
    {source : Dict String (Json F)} (h : findSample sampleId samples = .ok (some (i, source))) :
    ∃ items, samples[i]? = some (.obj items) ∧ Dict.update ∅ items = source ∧
      source.get? "sample_id" = some (.str sampleId) := by
  induction samples generalizing i with
  | nil => exact nomatch h
  | cons row samples ih =>
    rw [findSample] at h
    simp only [bind_eq_ok, asDict_eq_ok] at h
    obtain ⟨_, ⟨items, rfl, rfl⟩, h⟩ := h
    split at h
    · next hid =>
      cases h
      exact ⟨items, rfl, rfl, isStr_eq_true.mp hid⟩
    · simp only [bind_eq_ok, pure, Except.pure, Except.ok.injEq, Option.map_eq_some_iff] at h
      obtain ⟨_, hrest, ⟨i', source'⟩, rfl, heq⟩ := h
      cases heq
      exact ih hrest

/-- A row that is an object comes from a list of rows. -/
theorem appendable_of_findSample {v : Option (Json F)} {samples : List (Json F)}
    {sampleId : String} {found : Nat × Dict String (Json F)} (hrows : iterate v = .ok samples)
    (h : findSample sampleId samples = .ok (some found)) : appendable v = true := by
  obtain ⟨items, hat, _⟩ := findSample_eq_some h
  have hmem := List.mem_of_getElem? hat
  cases v with
  | none => rfl
  | some v =>
    cases v with
    | arr rows => rfl
    | obj fields =>
      cases hrows
      obtain ⟨_, _, hstr⟩ := List.mem_map.mp hmem
      exact nomatch hstr
    | str text =>
      cases hrows
      obtain ⟨_, _, hstr⟩ := List.mem_map.mp hmem
      exact nomatch hstr
    | _ => exact nomatch hrows

/-- The source sample, with its count. -/
def counted (source : Dict String (Json F)) (count : Json F) : Json F :=
  .obj (source.set "reanalyze_count" count).items

theorem requeueSample_eq_ok {sampleId : String} {write : Bool} {now : F} {answer : Response} :
    requeueSample env campaignId sampleId write now s = .ok (answer, s') ↔
      write = true ∧
        ∃ items, s.runJson = some (.json (.obj items)) ∧
        ∃ rows, iterate ((record s).get? "per_sample") = .ok rows ∧
        ∃ i source, findSample sampleId rows = .ok (some (i, source)) ∧
        requeueable (source.get? "status") = true ∧
        ∃ count text, nextCount env (source.get? "reanalyze_count") = .ok (count, text) ∧
        ∃ summary, summaryOf ((record s).get? "summary") = .ok summary ∧
        answer = .requeued (reanalyzeId sampleId text) ∧
        s' = ⟨some (.json (withSamples (record s) (rows.set i (counted source count) ++
          [requeuedEntry now (reanalyzeId sampleId text) sampleId source]) summary)),
            s.pauseFlag⟩ := by
  have hrecord : ∀ items, s.runJson = some (.json (.obj items)) →
      record s = Dict.update ∅ items := fun items h => by rw [record, h]
  rw [requeueSample]
  simp only [bind_eq_ok, ensure_eq_ok, found_eq_ok, raised_eq_ok, loadsOr500_eq_ok, pure,
    Except.pure, Except.ok.injEq, Prod.mk.injEq]
  constructor
  · rintro ⟨_, hw, _, hobj, _, ⟨items, rfl, rfl⟩, rows, hrows, _, hfind, ⟨i, source⟩, rfl, _,
      hstatus, ⟨count, text⟩, hcount, summary, hsummary, rfl, rfl⟩
    rw [← hrecord items hobj] at hrows hsummary ⊢
    exact ⟨hw, items, hobj, rows, hrows, i, source, hfind, hstatus, count, text, hcount, summary,
      hsummary, rfl, rfl⟩
  · rintro ⟨hw, items, hobj, rows, hrows, i, source, hfind, hstatus, count, text, hcount, summary,
      hsummary, rfl, rfl⟩
    rw [hrecord items hobj] at hrows hsummary ⊢
    exact ⟨(), hw, _, hobj, _, ⟨items, rfl, rfl⟩, rows, hrows, _, hfind, (i, source), rfl, (),
      hstatus, (count, text), hcount, summary, hsummary, rfl, rfl⟩

theorem field?_counted (source : Dict String (Json F)) (count : Json F) {field : String}
    (hne : "reanalyze_count" ≠ field) : field? (counted source count) field = source.get? field := by
  rw [counted, field?, Dict.get?_update_items, Dict.get?_set_ne _ hne]

/-- The row of the source is the only one that changes, and keeps its id. -/
theorem getElem?_counted {samples : List (Json F)} {i : Nat} {items : List (String × Json F)}
    {count : Json F} (hat : samples[i]? = some (.obj items)) (j : Nat) :
    ((samples.set i (counted (Dict.update ∅ items) count))[j]?).map (field? · "sample_id") =
      (samples[j]?).map (field? · "sample_id") := by
  rw [List.getElem?_set]
  split
  · next hij =>
    subst hij
    rw [if_pos (List.getElem?_eq_some_iff.mp hat).1, hat]
    show some (field? (counted _ _) "sample_id") = some (field? _ "sample_id")
    rw [field?_counted _ _ (by decide)]
    rfl
  · rfl

theorem rowsKept_counted {sampleId : String} {samples new : List (Json F)} {i : Nat}
    {items : List (String × Json F)} {count : Json F} (hat : samples[i]? = some (.obj items))
    (hid : (Dict.update ∅ items).get? "sample_id" = some (.str sampleId)) :
    RowsKept (.requeueSample sampleId) samples
      (samples.set i (counted (Dict.update ∅ items) count) ++ new) := by
  intro j row hrow
  have hlt : j < samples.length := (List.getElem?_eq_some_iff.mp hrow).1
  rw [List.getElem?_append_left (by rw [List.length_set]; exact hlt), List.getElem?_set]
  split
  · next hij =>
    subst hij
    rw [if_pos hlt]
    rw [hat] at hrow
    cases hrow
    refine ⟨_, rfl, Or.inr ⟨sampleId, rfl, hid, items, _, rfl, rfl, fun other hother => ?_⟩⟩
    exact field?_counted _ count hother.symm
  · exact ⟨row, hrow, Or.inl rfl⟩

theorem kept_served_requeue_iff {sampleId newId : String} {answer : Response} {i : Nat}
    {old : List (Json F)} {items : List (String × Json F)} {count : Json F}
    {summary : Dict String (Json F)} (hr : r.endpoint = .requeueSample sampleId)
    (hok : respond env campaignId s r = .ok (answer, s'))
    (hold : iterate ((record s).get? "per_sample") = .ok old)
    (happend : appendable ((record s).get? "per_sample") = true)
    (hat : old[i]? = some (.obj items))
    (hid : (Dict.update ∅ items).get? "sample_id" = some (.str sampleId))
    (hsummary : summaryOf ((record s).get? "summary") = .ok summary)
    (hjson : s'.runJson = some (.json (withSamples (record s)
      (old.set i (counted (Dict.update ∅ items) count) ++
        [requeuedEntry r.now newId sampleId (Dict.update ∅ items)]) summary))) :
    Kept env campaignId s r ↔ ∀ row ∈ old, field? row "sample_id" ≠ some (.str newId) := by
  have hstep := step_ok hok
  have hrows : rows s = old := rows_of_iterate happend hold
  have hrows' := rows_withSamples hjson
  have hlength : (old.set i (counted (Dict.update ∅ items) count)).length = old.length :=
    List.length_set
  have hentry : field? (requeuedEntry r.now newId sampleId (Dict.update ∅ items)) "sample_id" =
      some (.str newId) := rfl
  have hlast : (rows s')[old.length]? =
      some (requeuedEntry r.now newId sampleId (Dict.update ∅ items)) := by
    rw [hrows', ← hlength, List.getElem?_concat_length]
  -- the rows before the new one have the ids that they had
  have hbefore : ∀ j, j < old.length →
      ((rows s')[j]?).map (field? · "sample_id") = (old[j]?).map (field? · "sample_id") := by
    intro j hj
    rw [hrows', List.getElem?_append_left (by rw [hlength]; exact hj)]
    exact getElem?_counted hat j
  refine ⟨fun hk row hrow heq => ?_, fun hfree => ⟨fun field v hv _ => ?_, ?_, ?_⟩⟩
  · obtain ⟨j, hj, rfl⟩ := List.getElem_of_mem hrow
    have hj' := hbefore j hj
    rw [List.getElem?_eq_getElem hj, Option.map_some, Option.map_eq_some_iff] at hj'
    obtain ⟨row', hrow', hsame⟩ := hj'
    refine hk.newIds old.length j _ row' (by rw [hrows]) hj (by rw [hstep]; exact hlast)
      (by rw [hstep]; exact hrow') ?_
    rw [hentry, hsame, heq]
  · rw [hstep]
    rw [hr]
    exact fieldKept_withSamples happend hold hsummary (rowsKept_counted hat hid) hjson hv
  · intro k j row row' hk hj hrow hrow'
    rw [hrows] at hk
    rw [hstep] at hrow hrow'
    have hlt : k < (rows s').length := (List.getElem?_eq_some_iff.mp hrow).1
    rw [hrows', List.length_append, hlength, List.length_singleton] at hlt
    obtain rfl : k = old.length := by omega
    rw [hlast] at hrow
    cases hrow
    have hj' := hbefore j hj
    rw [hrow', List.getElem?_eq_getElem hj, Option.map_some, Option.map_some] at hj'
    rw [hentry, Option.some.inj hj']
    exact (hfree _ (List.getElem_mem hj)).symm
  · intro samples _ _ hr'
    exact nomatch hr.symm.trans hr'

theorem kept_requeueSample_iff {sampleId : String} (hr : r.endpoint = .requeueSample sampleId) :
    Kept env campaignId s r ↔ Harmless env s r := by
  have hrespond : respond env campaignId s r =
      requeueSample env campaignId sampleId r.write r.now s := by
    rw [respond, hr]
  rw [Harmless, hr]
  dsimp only
  cases hres : respond env campaignId s r with
  | error failure =>
    refine ⟨fun _ hw items hobj old i source count text summary hold hfind hstatus hcount hsummary
      => ?_, fun _ => kept_of_error hres⟩
    rw [hrespond] at hres
    exact nomatch hres.symm.trans (requeueSample_eq_ok.mpr ⟨hw, items, hobj, old, hold, i, source,
      hfind, hstatus, count, text, hcount, summary, hsummary, rfl, rfl⟩)
  | ok served =>
    obtain ⟨answer, s'⟩ := served
    have hserved := hres
    rw [hrespond, requeueSample_eq_ok] at hserved
    obtain ⟨hw, items, hobj, old, hold, i, _, hfind, hstatus, count, text, hcount, summary,
      hsummary, -, hs'⟩ := hserved
    obtain ⟨fields, hat, rfl, hid⟩ := findSample_eq_some hfind
    rw [kept_served_requeue_iff hr hres hold (appendable_of_findSample hold hfind) hat hid hsummary
      (by rw [hs'])]
    refine ⟨fun h _ _ _ old' i' source' count' text' _ hold' hfind' _ hcount' _ => ?_, fun h =>
      h hw items hobj old i _ count text summary hold hfind hstatus hcount hsummary⟩
    cases hold.symm.trans hold'
    cases hfind.symm.trans hfind'
    rw [hcount, Except.ok.injEq, Prod.mk.injEq] at hcount'
    rw [← hcount'.2]
    exact h

/-! ## Runs -/

theorem kept_step_iff (s : State F) (r : Request F) :
    Kept env campaignId s r ↔ Harmless env s r := by
  cases hr : r.endpoint with
  | pauseCampaign => exact kept_pauseCampaign_iff hr
  | resumeCampaign => exact kept_resumeCampaign_iff hr
  | batchUploadSamples samples => exact kept_batchUploadSamples_iff hr
  | requeueSample sampleId => exact kept_requeueSample_iff hr
  | campaignPause =>
    rw [Harmless, hr]
    exact ⟨fun _ => trivial, fun _ => kept_flag (Or.inl hr)⟩
  | campaignResume =>
    rw [Harmless, hr]
    exact ⟨fun _ => trivial, fun _ => kept_flag (Or.inr hr)⟩

theorem rows_overwrite {answer : Response} {a b : Json F}
    (h : respond env campaignId s r = .ok (answer, s'))
    (hs' : s'.runJson = some (.json (.obj [("status", a), ("paused_at", b)])))
    (hreplaces : r.endpoint.replaces = ["status", "paused_at"])
    (hupload : ∀ samples, r.endpoint ≠ .batchUploadSamples samples)
    (hk : Kept env campaignId s r) : rows (step env campaignId s r) = rows s := by
  have hsmall := (kept_overwrite_iff h hs' hreplaces hupload).mp hk
  have hrecord : record s' = Dict.update ∅ [("status", a), ("paused_at", b)] := by
    rw [record, hs']
  have hnone : (record s).get? "per_sample" = none := by
    cases hper : (record s).get? "per_sample" with
    | none => rfl
    | some v => exact absurd (hsmall _ (Dict.mem_keys_of_get? hper)) (by decide)
  rw [step_ok h, rows, rows, hrecord, hnone]
  rfl

/-- A pause or a resume that keeps the record keeps the rows. -/
theorem rows_step (hr : r.endpoint = .pauseCampaign ∨ r.endpoint = .resumeCampaign ∨
      r.endpoint = .campaignPause ∨ r.endpoint = .campaignResume)
    (hk : Kept env campaignId s r) : rows (step env campaignId s r) = rows s := by
  cases hres : respond env campaignId s r with
  | error failure => rw [step_error hres]
  | ok served =>
    obtain ⟨answer, s'⟩ := served
    have hserved := hres
    rcases hr with hr | hr | hr
    · rw [respond, hr, pauseCampaign_eq_ok] at hserved
      exact rows_overwrite hres (by rw [hserved.2.2.2]; rfl) (by rw [hr]; rfl)
        (fun _ he => nomatch hr.symm.trans he) hk
    · rw [respond, hr, resumeCampaign_eq_ok] at hserved
      exact rows_overwrite hres (by rw [hserved.2.2.2]; rfl) (by rw [hr]; rfl)
        (fun _ he => nomatch hr.symm.trans he) hk
    · rw [rows, record_step_flag hr, ← rows]

/-- A run of requests keeps the record, and the rows from each pause to its resume, just
when each of its requests is one that keeps a record. -/
theorem kept_iff (env : Env F) (campaignId : String) (s : State F) (rs : List (Request F)) :
    Along (step env campaignId) (Kept env campaignId) s rs ∧ RowsRestored env campaignId s rs ↔
      Along (step env campaignId) (Harmless env) s rs := by
  have hcongr : Along (step env campaignId) (Kept env campaignId) s rs ↔
      Along (step env campaignId) (Harmless env) s rs :=
    along_congr (I := fun _ => True) _ (fun _ _ _ => trivial) (fun s r _ => kept_step_iff s r)
      trivial rs
  rw [← hcongr]
  refine ⟨fun h => h.1, fun h => ⟨h, ?_⟩⟩
  rintro before pause resume after rfl hpause hresume
  obtain ⟨-, hkp, hkr, -⟩ := (along_append _ _ _ _).mp h
  rw [run_append]
  show rows (step env campaignId (step env campaignId _ pause) resume) = _
  rw [rows_step _ hkr, rows_step _ hkp]
  · rcases hpause with hp | hp
    · exact Or.inl hp
    · exact Or.inr (Or.inr (Or.inl hp))
  · rcases hresume with hq | hq
    · exact Or.inr (Or.inl hq)
    · exact Or.inr (Or.inr (Or.inr hq))

end

/-! ## A pause -/

/-- A server without digits beyond ASCII, whose floats are the rationals. -/
def plainEnv : Env Rat where
  unicodeDigit _ := none
  str _ := ""
  floatTruth x := x != 0
  floatSucc x := x + 1
  floatRepr _ := "1.0"
  fuel := 0

/-- A campaign with one sample. -/
def oneSample : State Rat where
  runJson := some (.json (.obj [("campaign_id", .str "c"),
    ("per_sample", .arr [.obj [("sample_id", .str "s0"), ("status", .str "ok")]])]))
  pauseFlag := none

def pauseRequest : Request Rat := ⟨.pauseCampaign, true, 0⟩

/-- A pause takes its row. -/
theorem pause_loses_rows :
    ¬ (Along (step plainEnv "c") (Kept plainEnv "c") oneSample [pauseRequest] ∧
      RowsRestored plainEnv "c" oneSample [pauseRequest]) := by
  rintro ⟨⟨hk, -⟩, -⟩
  obtain ⟨v, hv, -⟩ := hk.fields "per_sample" _ rfl (by decide)
  exact nomatch hv

end OSimFlow.CampaignRecord
