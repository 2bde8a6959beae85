import Mathlib.Data.List.Sort
import OSimFlow.Json
import OSimFlow.Lib.Run
import OSimFlow.Lib.Wal

/-!
# The results database

An instance of the database writes through one connection, which opens a transaction before
its first write and commits when it is closed. Until then no other instance can read what it
has written, or write at all.

> `durable_of_good`: in every run where an instance queries while no other one has unsaved
> results and none that has crashes, every query has the value that was added last, and the
> ingestion of a file whose values are finite numbers or no numbers stores and counts them.
>
> `ingest_right_iff`: where the database can be written, other files are not ingested right.

The rows of a table are its items, with the primary key as the key; rows that the order of a
query does not tell apart come in the order of the table.
-/

namespace OSimFlow.Registry.ResultsDb

open OSimFlow.Lib (Dict Wal Written Along)

/-! ## The table -/

/-- What the database uses of Python's numbers: `float(n)` raises where the integer is too
large, and `str(v)`. -/
structure Python (F : Type) where
  ofInt : Int → Option F
  isNan : F → Bool
  isInf : F → Bool
  le : F → F → Bool
  str : Json F → String
  ofInt_finite : ∀ n x, ofInt n = some x → isNan x = false ∧ isInf x = false

/-- The primary key of a result. -/
structure Key where
  sampleId : String
  kpiName : String
  campaignId : String
  generation : Int
deriving DecidableEq

structure Record (F T : Type) where
  kpiValue : F
  unit : Option String
  timestamp : T
deriving DecidableEq

abbrev Rows (F T : Type) := Dict Key (Record F T)

/-- The file, with the connections of the instances. -/
abbrev Database (I F T : Type) := Wal I (Rows F T)

inductive Raised where
  /-- The database is locked. -/
  | operationalError
  /-- A value is stored as `NULL`. -/
  | integrityError
  | overflowError
  | attributeError
  /-- `UnicodeDecodeError` is one, and is not caught. -/
  | valueError
deriving DecidableEq

variable {I F T : Type} [DecidableEq I] (py : Python F)

/-- `INSERT OR REPLACE`; NaN is stored as `NULL`, which the column refuses. -/
def insertOrReplace (key : Key) (record : Record F T) (rows : Rows F T) : Option (Rows F T) :=
  if py.isNan record.kpiValue then none else some ((rows.erase key).set key record)

/-- `add_result`. -/
def addResult (db : Database I F T) (i : I) (key : Key) (record : Record F T) :
    Database I F T × Except Raised Unit :=
  let (db, written) := db.write i (insertOrReplace py key record)
  (db, match written with
    | .done => .ok ()
    | .aborted => .error .integrityError
    | .busy => .error .operationalError)

/-! ## Files of KPIs -/

/-- What there is to read in a file. -/
inductive KpiFile (F : Type) where
  /-- It cannot be opened, or is no JSON. -/
  | unreadable
  /-- It is no UTF-8. -/
  | undecodable
  | json (value : Json F)

/-- The arguments of `add_results_from_kpi_file`; `fallbackId` is what the name of the file
gives for a sample id, `clock` the time when the entries are stored. -/
structure Ingestion (F T : Type) where
  file : KpiFile F
  fallbackId : String
  campaignId : String
  generation : Int
  clock : Nat → T

/-- `float(v)` for what is an `int` or a `float`, and a `bool` is. -/
def numberOf : Json F → Option (Option F)
  | .bool b => some (py.ofInt (if b then 1 else 0))
  | .int n => some (py.ofInt n)
  | .float x => some (some x)
  | _ => none

/-- The sample id and the KPIs of a file, if they have the shape for it. -/
def kpisOf (g : Ingestion F T) : Except Raised (Option (String × List (String × Json F))) :=
  match g.file with
  | .unreadable => .ok none
  | .undecodable => .error .valueError
  | .json (.obj items) =>
    let data := Dict.update ∅ items
    let sampleId := ((data.get? "sample_id").map py.str).getD g.fallbackId
    match data.get? "kpis" with
    | none => .ok (some (sampleId, []))
    | some (.obj kpis) => .ok (some (sampleId, (Dict.update ∅ kpis).items))
    | some _ => .ok none
  | .json _ => .error .attributeError

/-- The key of an entry, and what is stored for it. -/
def Ingestion.keyOf (g : Ingestion F T) (sampleId kpiName : String) : Key :=
  ⟨sampleId, kpiName, g.campaignId, g.generation⟩

def Ingestion.recordOf (g : Ingestion F T) (n : Nat) (x : F) : Record F T := ⟨x, none, g.clock n⟩

/-- The loop over the entries, from the `n`-th on. -/
def addAll (i : I) (g : Ingestion F T) (sampleId : String) :
    Database I F T → Nat → Nat → List (String × Json F) → Database I F T × Except Raised Nat
  | db, _, count, [] => (db, .ok count)
  | db, n, count, (kpiName, kpiValue) :: rest =>
    match numberOf py kpiValue with
    | none => addAll i g sampleId db (n + 1) count rest
    | some none => (db, .error .overflowError)
    | some (some x) =>
      match addResult py db i (g.keyOf sampleId kpiName) (g.recordOf n x) with
      | (db, .ok ()) => addAll i g sampleId db (n + 1) (count + 1) rest
      | (db, .error e) => (db, .error e)

/-- `add_results_from_kpi_file`. -/
def addResultsFromKpiFile (db : Database I F T) (i : I) (g : Ingestion F T) :
    Database I F T × Except Raised Nat :=
  match kpisOf py g with
  | .error e => (db, .error e)
  | .ok none => (db, .ok 0)
  | .ok (some (sampleId, kpis)) => addAll py i g sampleId db 0 0 kpis

/-! ## Queries -/

structure Filter (F : Type) where
  kpiName : Option String
  minValue : Option F
  maxValue : Option F
  campaignId : Option String
  generation : Option Int

/-- The `WHERE` clause. -/
def Filter.satisfied (f : Filter F) (row : Key × Record F T) : Bool :=
  f.kpiName.all (fun name => row.1.kpiName = name) &&
  f.minValue.all (fun x => py.le x row.2.kpiValue) &&
  f.maxValue.all (fun x => py.le row.2.kpiValue x) &&
  f.campaignId.all (fun id => row.1.campaignId = id) &&
  f.generation.all (fun n => row.1.generation = n)

/-- The order of the campaign, the sample and the name of the KPI. -/
def precedes (row row' : Key × Record F T) : Prop :=
  row.1.campaignId < row'.1.campaignId ∨ row.1.campaignId = row'.1.campaignId ∧
    (row.1.sampleId < row'.1.sampleId ∨ row.1.sampleId = row'.1.sampleId ∧
      row.1.kpiName ≤ row'.1.kpiName)

instance : DecidableRel (precedes (F := F) (T := T)) := fun _ _ =>
  inferInstanceAs (Decidable (_ ∨ _))

/-- `query_results`. -/
def queryResults (db : Database I F T) (i : I) (f : Filter F) :
    Database I F T × List (Key × Record F T) :=
  let (db, rows) := db.read i
  (db, (rows.items.filter (f.satisfied py)).insertionSort precedes)

/-! ## What the database is for -/

/-- A durable map: the value that was added last, for each key. -/
abbrev Stored (F T : Type) := Key → Option (Record F T)

def Stored.add (stored : Stored F T) (row : Key × Record F T) : Stored F T :=
  Function.update stored row.1 (some row.2)

/-- A finite numeric KPI value. -/
def finiteOf : Json F → Option F
  | .int n => py.ofInt n
  | .float x => if py.isNan x || py.isInf x then none else some x
  | _ => none

/-- The rows of the finite values among the entries, from the `n`-th on. -/
def finiteRows (g : Ingestion F T) (sampleId : String) :
    Nat → List (String × Json F) → List (Key × Record F T)
  | _, [] => []
  | n, (kpiName, kpiValue) :: rest =>
    (finiteOf py kpiValue).toList.map (fun x => (g.keyOf sampleId kpiName, g.recordOf n x)) ++
      finiteRows g sampleId (n + 1) rest

/-- The rows that a file is to be stored as. -/
def rowsOfFile (g : Ingestion F T) : List (Key × Record F T) :=
  match kpisOf py g with
  | .ok (some (sampleId, kpis)) => finiteRows py g sampleId 0 kpis
  | _ => []

/-- A call, the end of an instance that is closed, or that of one that is not. -/
inductive Event (I F T : Type) where
  | addResult (i : I) (key : Key) (record : Record F T)
  | addResultsFromKpiFile (i : I) (g : Ingestion F T)
  | queryResults (i : I) (f : Filter F)
  | close (i : I)
  | crash (i : I)

/-- The database, and the values that were added by calls that returned. -/
structure State (I F T : Type) where
  db : Database I F T
  stored : Stored F T

def State.new : State I F T := ⟨Wal.new ∅, fun _ => none⟩

def step (s : State I F T) : Event I F T → State I F T
  | .addResult i key record =>
    let (db, result) := addResult py s.db i key record
    ⟨db, match result with
      | .ok _ => s.stored.add (key, record)
      | .error _ => s.stored⟩
  | .addResultsFromKpiFile i g =>
    let (db, result) := addResultsFromKpiFile py s.db i g
    ⟨db, match result with
      | .ok _ => (rowsOfFile py g).foldl Stored.add s.stored
      | .error _ => s.stored⟩
  | .queryResults i f => ⟨(queryResults py s.db i f).1, s.stored⟩
  | .close i => ⟨s.db.commit i, s.stored⟩
  | .crash i => ⟨s.db.crash i, s.stored⟩

/-- What an event is to do: an ingestion counts the finite values, and raises for no reason
but the lock; a query has the latest value of each key that satisfies the filters. -/
def Right (s : State I F T) : Event I F T → Prop
  | .addResultsFromKpiFile i g =>
    match (addResultsFromKpiFile py s.db i g).2 with
    | .ok count => count = (rowsOfFile py g).length
    | .error e => e = .operationalError
  | .queryResults i f =>
    ((queryResults py s.db i f).2.map Prod.fst).Nodup ∧
      ∀ row, row ∈ (queryResults py s.db i f).2 ↔
        s.stored row.1 = some row.2 ∧ f.satisfied py row = true
  | _ => True

/-- A finite number, or none at all. -/
def Fit : Json F → Prop
  | .bool _ => False
  | .int n => py.ofInt n ≠ none
  | .float x => py.isNan x = false ∧ py.isInf x = false
  | _ => True

/-- A file that holds an object, and among the KPIs only numbers that fit. -/
def Clean (g : Ingestion F T) : Prop :=
  match kpisOf py g with
  | .error _ => False
  | .ok none => True
  | .ok (some (_, kpis)) => ∀ item ∈ kpis, Fit py item.2

/-- The events that go well. -/
def Good (s : State I F T) : Event I F T → Prop
  | .addResultsFromKpiFile _ g => Clean py g
  | .queryResults i _ => s.db.Current i
  | .crash i => ∀ w, s.db.writer = some w → w.owner = i → w.dirty = false
  | _ => True

/-! ## One call -/

section

variable {py} {db : Database I F T} {i : I}

theorem get?_erase_set (rows : Rows F T) (key k : Key) (record : Record F T) :
    ((rows.erase key).set key record).get? k = Stored.add rows.get? (key, record) k := by
  rw [Dict.get?_set, Stored.add, Function.update_apply]
  by_cases hk : key = k
  · rw [if_pos hk, if_pos hk.symm]
  · rw [if_neg hk, if_neg fun h => hk h.symm, Dict.get?_erase_ne _ hk]

variable (py) in
/-- A call that returns has stored its value, and another one nothing. -/
theorem addResult_spec (hs : db.Consistent) (key : Key) (record : Record F T) :
    (addResult py db i key record).1.Consistent ∧
      match (addResult py db i key record).2 with
      | .ok _ => (addResult py db i key record).1.latest.get? =
          Stored.add db.latest.get? (key, record) ∧
          ((addResult py db i key record).1.acquire i).isSome
      | .error e => (addResult py db i key record).1.latest = db.latest ∧
          (e = .integrityError ∧ py.isNan record.kpiValue = true ∨
            e = .operationalError ∧ db.acquire i = none) := by
  have hwrite := Wal.write_spec (i := i) hs (insertOrReplace py key record)
  have hdone : (db.write i (insertOrReplace py key record)).2 = .done → _ := Wal.acquire_of_done
  rw [addResult]
  generalize db.write i (insertOrReplace py key record) = result at hwrite hdone
  obtain ⟨db', written⟩ := result
  refine ⟨hwrite.1, ?_⟩
  have hspec := hwrite.2
  cases written with
  | done =>
    have hinsert : insertOrReplace py key record db.latest = some db'.latest := hspec
    refine ⟨?_, hdone rfl⟩
    rw [insertOrReplace] at hinsert
    split at hinsert
    next => cases hinsert
    next =>
      funext k
      rw [← Option.some.inj hinsert, get?_erase_set]
  | aborted =>
    obtain ⟨hnone, hlatest⟩ := hspec
    rw [insertOrReplace] at hnone
    split at hnone
    next hnan => exact ⟨hlatest, .inl ⟨rfl, hnan⟩⟩
    next => cases hnone
  | busy => exact ⟨hspec.2, .inr ⟨rfl, hspec.1⟩⟩

/-- What fits is stored as it is read, and is not NaN. -/
theorem numberOf_of_fit {v : Json F} (h : Fit py v) :
    numberOf py v = (finiteOf py v).map some ∧
      ∀ x, finiteOf py v = some x → py.isNan x = false := by
  cases v with
  | bool b => exact h.elim
  | int n =>
    obtain ⟨x, hx⟩ := Option.ne_none_iff_exists'.mp h
    refine ⟨?_, fun y hy => (py.ofInt_finite n y hy).1⟩
    rw [numberOf, finiteOf, hx]
    rfl
  | float x =>
    have hx : (py.isNan x || py.isInf x) = false := by rw [h.1, h.2]; rfl
    rw [numberOf, finiteOf, if_neg (by rw [hx]; decide)]
    refine ⟨rfl, fun y hy => ?_⟩
    obtain rfl := Option.some.inj hy
    exact h.1
  | null => exact ⟨rfl, fun _ hy => (nomatch hy)⟩
  | str s => exact ⟨rfl, fun _ hy => (nomatch hy)⟩
  | arr items => exact ⟨rfl, fun _ hy => (nomatch hy)⟩
  | obj items => exact ⟨rfl, fun _ hy => (nomatch hy)⟩

/-- Entries that fit are all stored, or the database is locked and none is. -/
theorem addAll_spec (g : Ingestion F T) (sampleId : String) {kpis : List (String × Json F)}
    (hfit : ∀ item ∈ kpis, Fit py item.2) (hs : db.Consistent) (n count : Nat) :
    (addAll py i g sampleId db n count kpis).1.Consistent ∧
      match (addAll py i g sampleId db n count kpis).2 with
      | .ok total => total = count + (finiteRows py g sampleId n kpis).length ∧
          (addAll py i g sampleId db n count kpis).1.latest.get? =
            (finiteRows py g sampleId n kpis).foldl Stored.add db.latest.get?
      | .error e => e = .operationalError ∧ db.acquire i = none ∧
          (addAll py i g sampleId db n count kpis).1.latest = db.latest := by
  induction kpis generalizing db n count with
  | nil => exact ⟨hs, rfl, rfl⟩
  | cons item kpis ih =>
    obtain ⟨kpiName, kpiValue⟩ := item
    obtain ⟨hnumber, hnan⟩ := numberOf_of_fit (hfit _ List.mem_cons_self)
    have hrest := fun item hitem => hfit item (List.mem_cons_of_mem _ hitem)
    rw [addAll, hnumber, finiteRows]
    cases hfinite : finiteOf py kpiValue with
    | none => exact ih hrest hs (n + 1) count
    | some x =>
      obtain ⟨hs', hadd⟩ := addResult_spec py (i := i) hs (g.keyOf sampleId kpiName)
        (g.recordOf n x)
      dsimp only [Option.map_some]
      cases hresult : addResult py db i (g.keyOf sampleId kpiName) (g.recordOf n x) with
      | mk db' result =>
        rw [hresult] at hs' hadd
        cases result with
        | error e =>
          obtain ⟨hlatest, hcause⟩ := hadd
          rcases hcause with ⟨-, htrue⟩ | ⟨he, hlock⟩
          · have hfalse := hnan x hfinite
            rw [show py.isNan x = true from htrue] at hfalse
            cases hfalse
          · exact ⟨hs', he, hlock, hlatest⟩
        | ok done =>
          obtain ⟨hlatest, hlock⟩ := hadd
          have htail := ih hrest hs' (n + 1) (count + 1)
          refine ⟨htail.1, ?_⟩
          have hcase := htail.2
          dsimp only
          revert hcase
          cases (addAll py i g sampleId db' (n + 1) (count + 1) kpis).2 with
          | ok total =>
            intro hcase
            refine ⟨?_, ?_⟩
            · rw [hcase.1]
              simp only [Option.toList_some, List.map_cons, List.map_nil, List.singleton_append,
                List.length_cons]
              omega
            · rw [hcase.2, hlatest]
              rfl
          | error e =>
            intro hcase
            -- who has stored one entry has the lock for the others
            rw [hcase.2.1] at hlock
            cases hlock

/-- A clean file is stored and counted, or the database is locked. -/
theorem ingest_spec {g : Ingestion F T} (hclean : Clean py g) (hs : db.Consistent) :
    (addResultsFromKpiFile py db i g).1.Consistent ∧
      match (addResultsFromKpiFile py db i g).2 with
      | .ok count => count = (rowsOfFile py g).length ∧
          (addResultsFromKpiFile py db i g).1.latest.get? =
            (rowsOfFile py g).foldl Stored.add db.latest.get?
      | .error e => e = .operationalError ∧ db.acquire i = none ∧
          (addResultsFromKpiFile py db i g).1.latest = db.latest := by
  rw [Clean] at hclean
  rw [addResultsFromKpiFile, rowsOfFile]
  cases hkpis : kpisOf py g with
  | error e =>
    rw [hkpis] at hclean
    exact hclean.elim
  | ok found =>
    rw [hkpis] at hclean
    cases found with
    | none => exact ⟨hs, rfl, rfl⟩
    | some entry =>
      have hall := addAll_spec (i := i) g entry.1 hclean hs 0 0
      refine ⟨hall.1, ?_⟩
      have hcase := hall.2
      dsimp only
      revert hcase
      cases (addAll py i g entry.1 db 0 0 entry.2).2 with
      | ok total =>
        intro hcase
        exact ⟨by rw [hcase.1, Nat.zero_add], hcase.2⟩
      | error e => exact id

variable (py) in
/-- A query by a connection that is current has the rows that were written last. -/
theorem queryResults_spec (hs : db.Consistent) (hi : db.Current i) (f : Filter F) :
    ((queryResults py db i f).2.map Prod.fst).Nodup ∧
      ∀ row, row ∈ (queryResults py db i f).2 ↔
        db.latest.get? row.1 = some row.2 ∧ f.satisfied py row = true := by
  have hread := Wal.read_spec hs hi
  have hrows : (queryResults py db i f).2 =
      (db.latest.items.filter (f.satisfied py)).insertionSort precedes := by
    rw [← hread]
    rfl
  have hperm := List.perm_insertionSort precedes (db.latest.items.filter (f.satisfied py))
  rw [hrows]
  refine ⟨?_, fun row => ?_⟩
  · rw [(hperm.map Prod.fst).nodup_iff]
    exact (List.filter_sublist.map Prod.fst).nodup db.latest.nodup
  · rw [hperm.mem_iff, List.mem_filter, ← Dict.mem_items]

/-! ### Other files -/

/-- The entries that are stored, whether they are to be or not. -/
def numbers (py : Python F) (kpis : List (String × Json F)) : List (String × Json F) :=
  kpis.filter fun item => (numberOf py item.2).isSome

variable (py) in
/-- What is returned counts the numbers, and what is raised is not the lock. -/
theorem addAll_count (g : Ingestion F T) (sampleId : String) (hs : db.Consistent)
    (hlock : (db.acquire i).isSome) (n count : Nat) (kpis : List (String × Json F)) :
    match (addAll py i g sampleId db n count kpis).2 with
    | .ok total => total = count + (numbers py kpis).length ∧
        ∀ item ∈ kpis, numberOf py item.2 ≠ some none
    | .error e => e ≠ .operationalError := by
  induction kpis generalizing db n count with
  | nil => exact ⟨rfl, fun _ h => (nomatch h)⟩
  | cons item kpis ih =>
    obtain ⟨kpiName, kpiValue⟩ := item
    rw [addAll, numbers, List.filter_cons]
    cases hnumber : numberOf py kpiValue with
    | none =>
      have htail := ih hs hlock (n + 1) count
      dsimp only
      revert htail
      cases (addAll py i g sampleId db (n + 1) count kpis).2 with
      | ok total =>
        intro htail
        refine ⟨htail.1, List.forall_mem_cons.mpr ⟨?_, htail.2⟩⟩
        rw [hnumber]
        exact fun h => (nomatch h)
      | error e => exact id
    | some number =>
      cases number with
      | none => exact fun h => (nomatch h)
      | some x =>
        obtain ⟨hs', hadd⟩ := addResult_spec py (i := i) hs (g.keyOf sampleId kpiName)
          (g.recordOf n x)
        dsimp only
        cases hresult : addResult py db i (g.keyOf sampleId kpiName) (g.recordOf n x) with
        | mk db' result =>
          rw [hresult] at hs' hadd
          cases result with
          | error e =>
            rcases hadd.2 with ⟨he, -⟩ | ⟨-, hnone⟩
            · show e ≠ .operationalError
              rw [he]
              exact fun h => (nomatch h)
            · rw [hnone] at hlock
              cases hlock
          | ok done =>
            have htail := ih hs' hadd.2 (n + 1) (count + 1)
            dsimp only
            revert htail
            cases (addAll py i g sampleId db' (n + 1) (count + 1) kpis).2 with
            | ok total =>
              intro htail
              refine ⟨?_, List.forall_mem_cons.mpr ⟨?_, htail.2⟩⟩
              · rw [htail.1]
                simp only [Option.isSome_some, if_true, List.length_cons, numbers]
                omega
              · rw [hnumber]
                exact fun h => (nomatch h)
            | error e => exact id

/-- A finite number is a number, and every other number is one that does not fit. -/
theorem finiteOf_numberOf {v : Json F} (h : numberOf py v ≠ some none) :
    ((finiteOf py v).isSome → (numberOf py v).isSome) ∧
      ((finiteOf py v).isSome = (numberOf py v).isSome → Fit py v) := by
  cases v with
  | bool b => exact ⟨fun h => (nomatch h), fun h => (nomatch h)⟩
  | int n => exact ⟨fun _ => rfl, fun _ hnone => h (congrArg some hnone)⟩
  | float x =>
    refine ⟨fun _ => rfl, fun hsome => ?_⟩
    rw [finiteOf] at hsome
    split at hsome
    next => cases hsome
    next hfit => simpa [Fit] using hfit
  | null => exact ⟨id, fun _ => trivial⟩
  | str s => exact ⟨id, fun _ => trivial⟩
  | arr items => exact ⟨id, fun _ => trivial⟩
  | obj items => exact ⟨id, fun _ => trivial⟩

/-- Among the numbers are the finite ones, and no others only if all of them fit. -/
theorem length_finiteRows {kpis : List (String × Json F)}
    (h : ∀ item ∈ kpis, numberOf py item.2 ≠ some none) (g : Ingestion F T) (sampleId : String)
    (n : Nat) :
    (finiteRows py g sampleId n kpis).length ≤ (numbers py kpis).length ∧
      ((numbers py kpis).length = (finiteRows py g sampleId n kpis).length →
        ∀ item ∈ kpis, Fit py item.2) := by
  induction kpis generalizing n with
  | nil => exact ⟨Nat.le_refl _, fun _ _ h => (nomatch h)⟩
  | cons item kpis ih =>
    obtain ⟨kpiName, kpiValue⟩ := item
    obtain ⟨hhead, htail⟩ := List.forall_mem_cons.mp h
    obtain ⟨hle, heq⟩ := ih htail (n + 1)
    obtain ⟨himp, hfit⟩ := finiteOf_numberOf hhead
    rw [finiteRows, numbers, List.filter_cons, List.length_append, List.length_map]
    rw [numbers] at hle heq
    cases hfinite : finiteOf py kpiValue with
    | some x =>
      rw [hfinite] at himp hfit
      have hnumber := himp rfl
      rw [if_pos hnumber]
      simp only [Option.toList_some, List.length_cons, List.length_nil]
      refine ⟨by omega, fun hlength => List.forall_mem_cons.mpr ⟨hfit hnumber.symm, heq ?_⟩⟩
      omega
    | none =>
      rw [hfinite] at hfit
      simp only [Option.toList_none, List.length_nil, Nat.zero_add]
      split
      next =>
        rw [List.length_cons]
        -- the entry is counted, and none of the others makes up for it
        exact ⟨by omega, fun hlength => by omega⟩
      next hnumber =>
        refine ⟨hle, fun hlength => List.forall_mem_cons.mpr ⟨hfit ?_, heq hlength⟩⟩
        exact (Bool.eq_false_iff.mpr hnumber).symm

end

/-- Where the database can be written, exactly the clean files are ingested right. -/
theorem ingest_right_iff {s : State I F T} {i : I} (hs : s.db.Consistent)
    (hlock : (s.db.acquire i).isSome) (g : Ingestion F T) :
    Right py s (.addResultsFromKpiFile i g) ↔ Clean py g := by
  constructor
  · intro hright
    rw [Right, addResultsFromKpiFile, rowsOfFile] at hright
    rw [Clean]
    cases hkpis : kpisOf py g with
    | error e =>
      rw [hkpis] at hright
      have he : e = .operationalError := hright
      rw [kpisOf] at hkpis
      split at hkpis
      · cases hkpis
      · exact absurd (Except.error.inj hkpis) (by rw [he]; decide)
      · dsimp only at hkpis
        split at hkpis
        · cases hkpis
        · cases hkpis
        · cases hkpis
      · exact absurd (Except.error.inj hkpis) (by rw [he]; decide)
    | ok found =>
      rw [hkpis] at hright
      cases found with
      | none => trivial
      | some entry =>
        have hcount := addAll_count py g entry.1 hs hlock 0 0 entry.2
        dsimp only at hright ⊢
        revert hcount hright
        cases (addAll py i g entry.1 s.db 0 0 entry.2).2 with
        | error e => exact fun hright hcount => absurd hright hcount
        | ok total =>
          intro hright hcount
          have htotal : total = (finiteRows py g entry.1 0 entry.2).length := hright
          refine (length_finiteRows hcount.2 g entry.1 0).2 ?_
          rw [← htotal, hcount.1, Nat.zero_add]
  · intro hclean
    have hspec := (ingest_spec (i := i) hclean hs).2
    rw [Right]
    revert hspec
    cases (addResultsFromKpiFile py s.db i g).2 with
    | ok count => exact fun hspec => hspec.1
    | error e => exact fun hspec => hspec.1

/-! ## Runs -/

/-- What was written last is what was added by the calls that returned. -/
structure Inv (s : State I F T) : Prop where
  consistent : s.db.Consistent
  saved : s.db.latest.get? = s.stored

theorem inv_new : Inv (State.new : State I F T) := ⟨Wal.consistent_new ∅, rfl⟩

variable {py} in
theorem inv_step {s : State I F T} {e : Event I F T} (h : Inv s) (hgood : Good py s e) :
    Inv (step py s e) := by
  cases e with
  | addResult i key record =>
    obtain ⟨hs, hspec⟩ := addResult_spec py (i := i) h.consistent key record
    rw [step]
    refine ⟨hs, ?_⟩
    dsimp only
    revert hspec
    cases (addResult py s.db i key record).2 with
    | ok done => exact fun hspec => by rw [hspec.1, h.saved]
    | error e => exact fun hspec => by rw [hspec.1, h.saved]
  | addResultsFromKpiFile i g =>
    obtain ⟨hs, hspec⟩ := ingest_spec (i := i) hgood h.consistent
    rw [step]
    refine ⟨hs, ?_⟩
    dsimp only
    revert hspec
    cases (addResultsFromKpiFile py s.db i g).2 with
    | ok count => exact fun hspec => by rw [hspec.2, h.saved]
    | error e => exact fun hspec => by rw [hspec.2.2, h.saved]
  | queryResults i f =>
    obtain ⟨hs, hlatest⟩ := Wal.read_consistent (i := i) h.consistent
    exact ⟨hs, (congrArg Dict.get? hlatest).trans h.saved⟩
  | close i =>
    obtain ⟨hs, hlatest⟩ := Wal.commit_spec (i := i) h.consistent
    exact ⟨hs, (congrArg Dict.get? hlatest).trans h.saved⟩
  | crash i =>
    obtain ⟨hs, hlatest⟩ := Wal.crash_spec h.consistent hgood
    exact ⟨hs, (congrArg Dict.get? hlatest).trans h.saved⟩

variable {py} in
theorem right_of_inv {s : State I F T} {e : Event I F T} (h : Inv s) (hgood : Good py s e) :
    Right py s e := by
  cases e with
  | addResultsFromKpiFile i g =>
    have hspec := (ingest_spec (i := i) hgood h.consistent).2
    rw [Right]
    revert hspec
    cases (addResultsFromKpiFile py s.db i g).2 with
    | ok count => exact fun hspec => hspec.1
    | error e => exact fun hspec => hspec.1
  | queryResults i f =>
    have hspec := queryResults_spec py h.consistent hgood f
    rw [h.saved] at hspec
    exact hspec
  | _ => trivial

/-- A run whose events are good has a durable map behind it. -/
theorem durable_of_good (es : List (Event I F T)) (h : Along (step py) (Good py) State.new es) :
    Along (step py) (Right py) State.new es :=
  Along.imp (step py) (I := Inv) (fun _ _ => inv_step) (fun _ _ => right_of_inv) inv_new h

/-! ## Two instances -/

/-- Integers for the floats. -/
def wholeNumbers : Python Int where
  ofInt n := some n
  isNan _ := false
  isInf _ := false
  le a b := decide (a ≤ b)
  str _ := "0001"
  ofInt_finite _ _ _ := ⟨rfl, rfl⟩

def eui : Key := ⟨"0001", "eui", "default", 0⟩

/-- All results. -/
def noFilter : Filter Int := ⟨none, none, none, none, none⟩

/-- The second instance queries while the first one is open. -/
def openWriter : List (Event Bool Int Unit) :=
  [.addResult true eui ⟨150, none, ()⟩, .queryResults false noFilter]

/-- The result is not found. -/
theorem unsaved_not_found :
    ¬ Along (step wholeNumbers) (Right wholeNumbers) State.new openWriter := by
  intro h
  have hquery := h.2.1.2 (eui, ⟨150, none, ()⟩)
  have hmem := hquery.mpr ⟨by decide +kernel, by decide +kernel⟩
  exact absurd hmem (by decide +kernel)

/-- The first instance is closed before. -/
def closedWriter : List (Event Bool Int Unit) :=
  [.addResult true eui ⟨150, none, ()⟩, .close true, .queryResults false noFilter]

theorem closed_found :
    Along (step wholeNumbers) (Good wholeNumbers) State.new closedWriter ∧
      Along (step wholeNumbers) (Right wholeNumbers) State.new closedWriter := by
  have hgood : Along (step wholeNumbers) (Good wholeNumbers) State.new closedWriter :=
    ⟨trivial, trivial, ⟨fun _ h => (nomatch h), fun _ h => (nomatch h)⟩, trivial⟩
  exact ⟨hgood, durable_of_good wholeNumbers closedWriter hgood⟩

/-- A file with a boolean among its KPIs. -/
def booleanFile : Ingestion Int Unit :=
  ⟨.json (.obj [("kpis", .obj [("comfortable", .bool true)])]), "0001", "default", 0, fun _ => ()⟩

/-- The boolean is stored as a number, and counted. -/
theorem boolean_ingested_wrong :
    ¬ Right wholeNumbers (State.new : State Bool Int Unit)
      (.addResultsFromKpiFile true booleanFile) := by
  intro h
  have hclean := (ingest_right_iff wholeNumbers (Wal.consistent_new _) rfl booleanFile).mp h
  exact hclean ("comfortable", .bool true) (List.mem_singleton.mpr rfl)

end OSimFlow.Registry.ResultsDb
