import OSimFlow.Aggregation.CompileAggregation

/-!
# `aggregate_results.py`: the local aggregation

The script reads the failures off the simulation directories and the KPIs off the
KPI files, one pass each, and puts the samples into two tables: a KPI row for each
file that was read, but for those of failed samples, and a failure row for each
failed directory, but for one that only lacks `eplusout.sql` while a usable KPI row
goes by its name.

> `Partitions`: the script returns; the KPI rows are those of the files with usable
> values whose simulation did not fail, each under its own sample id and with its
> own values; every other sample has one failure row.

A directory knows its sample by its name, a KPI row by what the file says.
`Sound` lists what the files have to be for the two passes to agree, and
`partitions_iff` that it takes exactly that: above all no file that is missing,
unparsable or carries an error next to a directory without failure.
-/

namespace OSimFlow.Aggregation.Local

open OSimFlow.Lib OSimFlow.Aggregation

variable {F : Type}

/-- What the script sees of a simulation directory: whether it exists, its `eplusout.err`
with the first severe line and the scan of the whole file, `eplusout.sql`, and the verdicts
of `has_osw_or_marker_failure` and `failure_message`. -/
structure SimDir where
  name : String
  present : Bool
  errPath : String
  errExists : Bool
  severeLine : Option String
  totalSevere : Nat
  rootCause : String
  sqlExists : Bool
  oswOrMarkerFailed : Bool
  failureMessage : Option String

inductive KpiContent (F : Type) where
  | absent
  | unreadable
  | json (data : Json F)

/-- The KPI file `kpi_<owner>.json` of a sample. -/
structure KpiFile (F : Type) where
  owner : String
  content : KpiContent F

def KpiFile.present {F : Type} (k : KpiFile F) : Bool :=
  match k.content with
  | .absent => false
  | _ => true

/-- How `dict.update` ends that does not return. -/
inductive UpdateError where
  | valueError
  | typeError
deriving DecidableEq

/-- What the script uses of Python: `str(v)`, whether a float is zero, and the items that
`dict.update(v)` takes from a value that is no object. -/
structure Python (F : Type) where
  str : Json F → String
  str_str : ∀ s, str (.str s) = s
  isZero : F → Bool
  updateItems : Json F → Except UpdateError (List (String × Json F))

/-- `bool(v)`. -/
def truthy (py : Python F) : Json F → Bool
  | .null => false
  | .bool b => b
  | .int n => n != 0
  | .float x => !py.isZero x
  | .str s => s != ""
  | .arr items => !items.isEmpty
  | .obj items => !items.isEmpty

/-- Where a column of the table comes from. -/
inductive Origin where
  | row
  | parameter
  | improvement
deriving DecidableEq

structure Column (F : Type) where
  name : String
  origin : Origin
  cells : List (Option (Json F))

/-- What the script uses of pandas: `select_dtypes(include="number")`, whether a baseline
value is present and not zero, and the improvement of a value over it in per cent. -/
structure Pandas (F : Type) where
  numericColumns : List (Column F) → List String
  improves : Option (Json F) → Bool
  improvement : Option (Json F) → Option (Json F) → Option (Json F)

/-- A row of KPIs, as `parse_kpi_json` returns it. -/
abbrev KpiRow (F : Type) := Dict String (Json F)

/-- A row that was read, with the file it was read from for the account. -/
abbrev Parsed (F : Type) := KpiFile F × KpiRow F

/-- The command line: the files and directories of samples with distinct ids, the baseline,
and the entries of `samples.json`. -/
structure Inputs (F : Type) where
  kpis : List (KpiFile F)
  dirs : List SimDir
  baseline : Option String
  samples : Option (List (String × List (String × Json F)))
  kpis_nodup : (kpis.map KpiFile.owner).Nodup
  dirs_nodup : (dirs.map SimDir.name).Nodup

structure LocalResult (F : Type) where
  kept : List (Parsed F)
  table : List (Column F)
  failures : List FailureRow

def sqlMissing : String := "eplusout.sql missing"

/-! ## The failures -/

/-- `text[:500]`. -/
def head500 (text : String) : String := String.ofList (text.toList.take 500)

/-- The first severe line of `eplusout.err`. -/
def severe (d : SimDir) : Option String :=
  if d.errExists then d.severeLine.filter fun t => t != "" else none

/-- `extract_failure`: the summary, if there is a failure. -/
def failureSummary (d : SimDir) : Option String :=
  let found :=
    if (severe d).isNone && (!d.sqlExists || d.oswOrMarkerFailed) then
      d.failureMessage.filter fun t => t != ""
    else severe d
  if found.isSome || !d.sqlExists || d.oswOrMarkerFailed then
    some (found.getD (if d.sqlExists then "OpenStudio workflow failed" else sqlMissing))
  else none

/-- `extract_failure`: the row, with the diagnosis of the severe line. -/
def failureRow (env : Env F) (d : SimDir) (summary : String) : FailureRow :=
  let row : FailureRow :=
    { sampleId := d.name
      failureCategory := ""
      rootCauseLine := ""
      totalSevereErrors := 0
      errorSummary := summary
      exitCode := 1
      logPath := if d.errExists then d.errPath else ""
      diagnosisSuggestion := "" }
  match severe d with
  | none => row
  | some line =>
    { row with
      failureCategory := env.classifyLine line
      rootCauseLine := if d.rootCause = "" then head500 line else head500 d.rootCause
      totalSevereErrors := d.totalSevere
      diagnosisSuggestion := env.suggestion (env.classifyLine line) }

/-- `extract_failure`. -/
def extractFailure (env : Env F) (d : SimDir) : Option FailureRow :=
  (failureSummary d).map (failureRow env d)

@[simp] theorem failureRow_sampleId (env : Env F) (d : SimDir) (summary : String) :
    (failureRow env d summary).sampleId = d.name := by
  rw [failureRow]
  cases severe d <;> rfl

@[simp] theorem failureRow_errorSummary (env : Env F) (d : SimDir) (summary : String) :
    (failureRow env d summary).errorSummary = summary := by
  rw [failureRow]
  cases severe d <;> rfl

/-! ## The KPI rows -/

section
variable (py : Python F)

/-- `kpi_path.exists() and not _has_top_level_error(kpi_path)`. -/
def reads (k : KpiFile F) : Bool :=
  match k.content with
  | .absent => false
  | .unreadable => true
  | .json (.obj items) => !((Dict.update ∅ items).get? "error").any (truthy py)
  | .json _ => true

/-- `{"sample_id": kpi_path.stem.replace("kpi_", "")}`. -/
def bareRow (k : KpiFile F) : KpiRow F :=
  Dict.set ∅ "sample_id" (.str (("kpi_" ++ k.owner).replace "kpi_" ""))

/-- `parse_kpi_json`: a `TypeError` is not caught. -/
def parseKpiJson (k : KpiFile F) : Except UpdateError (KpiRow F) :=
  match k.content with
  | .json (.obj items) =>
    let data := Dict.update ∅ items
    let res := match data.get? "sample_id" with
      | some v => Dict.set ∅ "sample_id" v
      | none => bareRow k
    match data.get? "kpis" with
    | none => .ok res
    | some (.obj kpis) => .ok (Dict.update res kpis)
    | some v =>
      match py.updateItems v with
      | .ok kpis => .ok (Dict.update res kpis)
      | .error .valueError => .ok (bareRow k)
      | .error .typeError => .error .typeError
  | _ => .ok (bareRow k)

/-- The loop over the KPI files. -/
def readKpis : List (KpiFile F) → Except UpdateError (List (Parsed F))
  | [] => .ok []
  | k :: ks =>
    if reads py k then
      match parseKpiJson py k with
      | .error e => .error e
      | .ok row =>
        match readKpis ks with
        | .error e => .error e
        | .ok rest => .ok ((k, row) :: rest)
    else readKpis ks

/-- `str(r["sample_id"])`. -/
def rowId (row : KpiRow F) : String :=
  ((row.get? "sample_id").map py.str).getD ""

/-- `len(r) > 1 and not r.get("error")`. -/
def usableRow (row : KpiRow F) : Bool :=
  decide (1 < row.items.length) && !(row.get? "error").any (truthy py)

/-! ## The tables -/

/-- `pd.DataFrame(all_kpis)`. -/
def frame (kept : List (Parsed F)) : List (Column F) :=
  if kept.isEmpty then [⟨"sample_id", .row, []⟩]
  else (firstSeen (kept.flatMap fun p => p.2.keys)).map
    fun name => ⟨name, .row, kept.map fun p => p.2.get? name⟩

/-- The cells of a column. -/
def cellsOf (t : List (Column F)) (name : String) : List (Option (Json F)) :=
  ((t.find? fun c => c.name == name).map Column.cells).getD []

def improvementName (name : String) : String := name ++ "_pct_improvement"

/-- The row of the baseline sample. -/
def baselineRow (baseline : Option String) (kept : List (Parsed F)) : Option (KpiRow F) :=
  match baseline with
  | none => none
  | some b =>
    if b = "" then none
    else (kept.find? fun p =>
      match p.2.get? "sample_id" with
      | some (.str s) => s == b
      | _ => false).map Prod.snd

/-- The numeric columns that the baseline has a value for. -/
def improvedColumns (pandas : Pandas F) (baseline : Option String) (kept : List (Parsed F)) :
    List String :=
  match baselineRow baseline kept with
  | none => []
  | some row => (pandas.numericColumns (frame kept)).filter fun name => pandas.improves (row.get? name)

/-- The columns of the baseline comparison, one after another. -/
def addImprovements (pandas : Pandas F) (baseline : Option String) (kept : List (Parsed F)) :
    List (Column F) :=
  (improvedColumns pandas baseline kept).foldl (fun t name =>
    upsert Column.name
      ⟨improvementName name, .improvement, (cellsOf t name).map
        (pandas.improvement ((baselineRow baseline kept).bind fun row => row.get? name))⟩ t)
    (frame kept)

/-- `_load_samples_params`. -/
def loadSamplesParams (samples : Option (List (String × List (String × Json F)))) :
    Dict String (Dict String (Json F)) :=
  (samples.getD []).foldl (fun result sample =>
    result.set sample.1 (Dict.update ∅ (sample.2.map fun item =>
      match item.2 with
      | .obj fields =>
        match (Dict.update ∅ fields : Dict String (Json F)).get? "label" with
        | some label => (item.1, label)
        | none => item
      | _ => item))) ∅

/-- `params_map.get(sid, {})`. -/
def paramsOf (params : Dict String (Dict String (Json F))) (sid : String) : Dict String (Json F) :=
  (params.get? sid).getD ∅

/-- The columns of the parameters, between the id and the KPIs. -/
def mergeParams (params : Dict String (Dict String (Json F))) (kept : List (Parsed F))
    (t : List (Column F)) : List (Column F) :=
  if params.items.isEmpty || kept.isEmpty then t
  else
    (t.filter fun c => c.name == "sample_id") ++
      (firstSeen (kept.flatMap fun p => (paramsOf params (rowId py p.2)).keys)).map
        (fun name => ⟨name, .parameter,
          kept.map fun p => (paramsOf params (rowId py p.2)).get? name⟩) ++
      t.filter fun c => c.name != "sample_id"

end

section
variable (env : Env F) (py : Python F) (pandas : Pandas F) (inputs : Inputs F)

/-- `failures` before the KPIs are read. -/
def dirFailures : List FailureRow :=
  (inputs.dirs.filter SimDir.present).filterMap (extractFailure env)

/-- `failures`, with the directories that only lack `eplusout.sql` excused. -/
def failuresOf (raw : List (Parsed F)) : List FailureRow :=
  let validIds := (raw.filter fun p => usableRow py p.2).map fun p => rowId py p.2
  (dirFailures env inputs).filter fun f =>
    !(f.errorSummary == sqlMissing && validIds.contains f.sampleId)

/-- `main`, up to the writing of the two tables. -/
def aggregate : Except UpdateError (LocalResult F) :=
  match readKpis py inputs.kpis with
  | .error e => .error e
  | .ok raw =>
    let failures := failuresOf env py inputs raw
    let failedIds := failures.map FailureRow.sampleId
    let kept := raw.filter fun p => !failedIds.contains (rowId py p.2)
    .ok
      { kept := kept
        table := mergeParams py (loadSamplesParams inputs.samples) kept
          (addImprovements pandas inputs.baseline kept)
        failures := failures }

/-! ## What it should come to -/

/-- The row of a KPI file that is read and parsed. -/
def row? (k : KpiFile F) : Option (KpiRow F) :=
  if reads py k then (parseKpiJson py k).toOption else none

/-- The directory shows a failure, other than the lack of `eplusout.sql`. -/
def hardFailure (d : SimDir) : Bool :=
  d.present && (failureSummary d).any fun summary => summary != sqlMissing

/-- The file holds usable values, and the simulation of its sample did not fail. -/
def succeeded (k : KpiFile F) : Bool :=
  (row? py k).any (usableRow py) &&
    !inputs.dirs.any fun d => d.name == k.owner && hardFailure d

/-- A sample of the inputs: it has a directory or a KPI file. -/
def IsSample (s : String) : Prop :=
  (∃ d ∈ inputs.dirs, d.present = true ∧ d.name = s) ∨
    ∃ k ∈ inputs.kpis, k.present = true ∧ k.owner = s

/-- The values of the table are those of the rows and of the samples' own parameters. -/
structure OwnValues (result : LocalResult F) : Prop where
  kpis : ∀ p ∈ result.kept, ∀ name ∈ p.2.keys,
    (⟨name, .row, result.kept.map fun p => p.2.get? name⟩ : Column F) ∈ result.table
  parameters : ∀ c ∈ result.table, c.origin = .parameter →
    c.cells = result.kept.map fun p =>
      (paramsOf (loadSamplesParams inputs.samples) p.1.owner).get? c.name

/-- The script returns, every sample has its row, and no other. -/
def Partitions : Prop :=
  ∃ result, aggregate env py pandas inputs = .ok result ∧
    result.kept.map Prod.fst = inputs.kpis.filter (succeeded py inputs) ∧
    (∀ p ∈ result.kept, rowId py p.2 = p.1.owner) ∧
    (result.failures.map FailureRow.sampleId).Nodup ∧
    (∀ s, s ∈ result.failures.map FailureRow.sampleId ↔
      IsSample inputs s ∧ ∀ k ∈ inputs.kpis, k.owner = s → succeeded py inputs k = false) ∧
    OwnValues inputs result

/-- The rows that are read. -/
def rowsOf : List (Parsed F) :=
  inputs.kpis.filterMap fun k => (row? py k).map fun row => (k, row)

/-- The rows that belong into the table. -/
def expected : List (Parsed F) :=
  (rowsOf py inputs).filter fun p => succeeded py inputs p.1

/-- The sample has a directory with a failure, and no usable row excuses it. -/
def Failed (s : String) : Prop :=
  ∃ d ∈ inputs.dirs, d.present = true ∧ d.name = s ∧ ∃ summary, failureSummary d = some summary ∧
    ¬ (summary = sqlMissing ∧
      ∃ p ∈ rowsOf py inputs, usableRow py p.2 = true ∧ rowId py p.2 = s)

/-- What the files have to be. -/
structure Sound : Prop where
  parses : ∀ k ∈ inputs.kpis, reads py k = true → ∃ row, parseKpiJson py k = .ok row
  settled : ∀ s, IsSample inputs s →
    (∃ k ∈ inputs.kpis, k.owner = s ∧ succeeded py inputs k = true) ∨
      ∃ d ∈ inputs.dirs, d.present = true ∧ d.name = s ∧ ∃ summary, failureSummary d = some summary
  ownId : ∀ p ∈ rowsOf py inputs, succeeded py inputs p.1 = true → rowId py p.2 = p.1.owner
  strays : ∀ p ∈ rowsOf py inputs, succeeded py inputs p.1 = false →
    Failed py inputs (rowId py p.2)
  noClash : ∀ p ∈ expected py inputs, ∀ name ∈ p.2.keys,
    name ∉ (improvedColumns pandas inputs.baseline (expected py inputs)).map improvementName

end

/-! ## The passes -/

section
variable {env : Env F} {py : Python F} {pandas : Pandas F} {inputs : Inputs F}

theorem readKpis_ok {ks : List (KpiFile F)} :
    (∃ raw, readKpis py ks = .ok raw) ↔
      ∀ k ∈ ks, reads py k = true → ∃ row, parseKpiJson py k = .ok row := by
  induction ks with
  | nil => exact ⟨fun _ k hk => absurd hk List.not_mem_nil, fun _ => ⟨[], rfl⟩⟩
  | cons k ks ih =>
    rw [readKpis, List.forall_mem_cons, ← ih]
    cases hreads : reads py k with
    | false =>
      simp only [Bool.false_eq_true, if_false, false_implies, true_and]
    | true =>
      simp only [if_true, forall_const]
      cases parseKpiJson py k with
      | error e =>
        refine ⟨fun h => ?_, fun h => ?_⟩
        · obtain ⟨raw, h⟩ := h
          exact nomatch h
        · obtain ⟨row, h⟩ := h.1
          exact nomatch h
      | ok row =>
        cases readKpis py ks with
        | error e =>
          refine ⟨fun h => ?_, fun h => ?_⟩
          · obtain ⟨raw, h⟩ := h
            exact nomatch h
          · obtain ⟨raw, h⟩ := h.2
            exact nomatch h
        | ok rest => exact ⟨fun _ => ⟨⟨row, rfl⟩, rest, rfl⟩, fun _ => ⟨_, rfl⟩⟩

theorem readKpis_eq {ks : List (KpiFile F)} {raw : List (Parsed F)}
    (h : readKpis py ks = .ok raw) :
    raw = ks.filterMap fun k => (row? py k).map fun row => (k, row) := by
  induction ks generalizing raw with
  | nil =>
    rw [readKpis, Except.ok.injEq] at h
    exact h.symm
  | cons k ks ih =>
    rw [readKpis] at h
    rw [List.filterMap_cons, row?]
    cases hreads : reads py k with
    | false =>
      rw [hreads] at h
      exact ih h
    | true =>
      rw [hreads] at h
      simp only [if_true] at h ⊢
      cases hparse : parseKpiJson py k with
      | error e =>
        rw [hparse] at h
        exact nomatch h
      | ok row =>
        rw [hparse] at h
        cases hrest : readKpis py ks with
        | error e =>
          rw [hrest] at h
          exact nomatch h
        | ok rest =>
          rw [hrest] at h
          simp only [Except.ok.injEq] at h
          rw [← h, ← ih hrest]
          rfl

theorem mem_rowsOf {p : Parsed F} :
    p ∈ rowsOf py inputs ↔ p.1 ∈ inputs.kpis ∧ row? py p.1 = some p.2 := by
  rw [rowsOf, List.mem_filterMap]
  constructor
  · intro h
    obtain ⟨k, hk, hrow⟩ := h
    rw [Option.map_eq_some_iff] at hrow
    obtain ⟨row, hrow, rfl⟩ := hrow
    exact ⟨hk, hrow⟩
  · intro h
    exact ⟨p.1, h.1, by rw [h.2]; rfl⟩

/-- A file that succeeds has a row. -/
theorem exists_row {k : KpiFile F} (hk : k ∈ inputs.kpis) (h : succeeded py inputs k = true) :
    ∃ row, (k, row) ∈ rowsOf py inputs ∧ usableRow py row = true := by
  rw [succeeded, Bool.and_eq_true] at h
  cases hrow : row? py k with
  | none =>
    rw [hrow] at h
    exact nomatch h.1
  | some row =>
    rw [hrow] at h
    exact ⟨row, mem_rowsOf.mpr ⟨hk, hrow⟩, h.1⟩

/-- The ids of the failure rows. -/
theorem mem_failuresOf {s : String} :
    s ∈ (failuresOf env py inputs (rowsOf py inputs)).map FailureRow.sampleId ↔
      Failed py inputs s := by
  have hexcused : ∀ t, (((rowsOf py inputs).filter fun p => usableRow py p.2).map
      fun p => rowId py p.2).contains t = true ↔
        ∃ p ∈ rowsOf py inputs, usableRow py p.2 = true ∧ rowId py p.2 = t := by
    intro t
    rw [List.contains_iff_mem, List.mem_map]
    constructor
    · intro h
      obtain ⟨p, hp, hid⟩ := h
      exact ⟨p, (List.mem_filter.mp hp).1, (List.mem_filter.mp hp).2, hid⟩
    · intro h
      obtain ⟨p, hp, husable, hid⟩ := h
      exact ⟨p, List.mem_filter.mpr ⟨hp, husable⟩, hid⟩
  constructor
  · intro h
    obtain ⟨f, hf, rfl⟩ := List.mem_map.mp h
    obtain ⟨hf, hkeep⟩ := List.mem_filter.mp hf
    obtain ⟨d, hd, hfd⟩ := List.mem_filterMap.mp hf
    obtain ⟨hd, hpresent⟩ := List.mem_filter.mp hd
    obtain ⟨summary, hsummary, rfl⟩ := Option.map_eq_some_iff.mp hfd
    refine ⟨d, hd, hpresent, (failureRow_sampleId env d summary).symm, summary, hsummary, ?_⟩
    intro hex
    rw [failureRow_sampleId] at hex hkeep
    rw [failureRow_errorSummary, (hexcused d.name).mpr hex.2, hex.1] at hkeep
    exact absurd hkeep (by simp)
  · intro h
    obtain ⟨d, hd, hpresent, rfl, summary, hsummary, hkeep⟩ := h
    refine List.mem_map.mpr ⟨failureRow env d summary, List.mem_filter.mpr ⟨?_, ?_⟩,
      failureRow_sampleId env d summary⟩
    · refine List.mem_filterMap.mpr ⟨d, List.mem_filter.mpr ⟨hd, hpresent⟩, ?_⟩
      rw [extractFailure, hsummary]
      rfl
    · rw [failureRow_errorSummary, failureRow_sampleId, Bool.not_eq_true',
        Bool.and_eq_false_imp, beq_iff_eq]
      intro hmissing
      rw [← Bool.not_eq_true, hexcused]
      exact fun hex => hkeep ⟨hmissing, hex⟩

theorem nodup_failuresOf (raw : List (Parsed F)) :
    ((failuresOf env py inputs raw).map FailureRow.sampleId).Nodup := by
  have hnames : (dirFailures env inputs).map FailureRow.sampleId =
      ((inputs.dirs.filter SimDir.present).filter fun d => (failureSummary d).isSome).map
        SimDir.name := by
    rw [dirFailures]
    induction inputs.dirs.filter SimDir.present with
    | nil => rfl
    | cons d ds ih =>
      rw [List.filterMap_cons, List.filter_cons, extractFailure]
      cases failureSummary d with
      | none => exact ih
      | some summary =>
        simp only [Option.map_some, Option.isSome_some, if_true, List.map_cons,
          failureRow_sampleId, ih]
  have hsub : ((failuresOf env py inputs raw).map FailureRow.sampleId).Sublist
      (inputs.dirs.map SimDir.name) := by
    refine ((List.filter_sublist (p := _)).map FailureRow.sampleId).trans ?_
    rw [hnames]
    exact ((List.filter_sublist (p := _)).trans (List.filter_sublist (p := _))).map SimDir.name
  exact hsub.nodup inputs.dirs_nodup

/-! ## The table -/

theorem mem_firstSeen {names : List String} {name : String} :
    name ∈ firstSeen names ↔ name ∈ names := by
  have h : ∀ seen : List String, name ∈ names.foldl (fun seen name => upsert id name seen) seen ↔
      name ∈ seen ∨ name ∈ names := by
    induction names with
    | nil => exact fun seen => by simp
    | cons n ns ih =>
      intro seen
      rw [List.foldl_cons, ih, mem_upsert_id, List.mem_cons]
      constructor
      · rintro ((h | h) | h)
        · exact Or.inr (Or.inl h)
        · exact Or.inl h
        · exact Or.inr (Or.inr h)
      · rintro (h | h | h)
        · exact Or.inl (Or.inr h)
        · exact Or.inl (Or.inl h)
        · exact Or.inr h
  rw [firstSeen, h]
  simp

theorem nodup_firstSeen (names : List String) : (firstSeen names).Nodup := by
  have h : ∀ seen : List String, seen.Nodup →
      (names.foldl (fun seen name => upsert id name seen) seen).Nodup := by
    induction names with
    | nil => exact fun seen hseen => hseen
    | cons n ns ih => exact fun seen hseen => ih _ (nodup_upsert_id hseen)
  exact h [] List.nodup_nil

theorem mem_frame {kept : List (Parsed F)} {p : Parsed F} (hp : p ∈ kept) {name : String}
    (hname : name ∈ p.2.keys) :
    (⟨name, .row, kept.map fun p => p.2.get? name⟩ : Column F) ∈ frame kept := by
  have hne : kept.isEmpty = false := by
    cases kept with
    | nil => exact nomatch hp
    | cons _ _ => rfl
  rw [frame, hne]
  exact List.mem_map.mpr ⟨name, mem_firstSeen.mpr (List.mem_flatMap.mpr ⟨p, hp, hname⟩), rfl⟩

theorem frame_names (kept : List (Parsed F)) : ((frame kept).map Column.name).Nodup := by
  rw [frame]
  split
  · exact List.nodup_singleton _
  · rw [List.map_map]
    have : (Column.name ∘ fun name => (⟨name, .row, kept.map fun p => p.2.get? name⟩ : Column F))
        = id := rfl
    rw [this, List.map_id]
    exact nodup_firstSeen _

theorem frame_origin {kept : List (Parsed F)} {c : Column F} (hc : c ∈ frame kept) :
    c.origin = .row := by
  rw [frame] at hc
  split at hc
  · rw [List.mem_singleton.mp hc]
  · obtain ⟨name, -, rfl⟩ := List.mem_map.mp hc
    rfl

theorem mem_upsert_column {c x : Column F} {t : List (Column F)} (hc : c ∈ upsert Column.name x t) :
    c = x ∨ c ∈ t := by
  induction t with
  | nil => exact Or.inl (List.mem_singleton.mp hc)
  | cons y ys ih =>
    rw [upsert] at hc
    split at hc
    · rcases List.mem_cons.mp hc with h | h
      · exact Or.inl h
      · exact Or.inr (List.mem_cons_of_mem _ h)
    · rcases List.mem_cons.mp hc with h | h
      · exact Or.inr (List.mem_cons.mpr (Or.inl h))
      · rcases ih h with h | h
        · exact Or.inl h
        · exact Or.inr (List.mem_cons_of_mem _ h)

/-- The columns of the comparison, over any table and with any values. -/
theorem foldl_improvements (value : List (Column F) → String → List (Option (Json F)))
    (names : List String) {t : List (Column F)} (hnames : (t.map Column.name).Nodup) :
    let t' := names.foldl (fun t name =>
      upsert Column.name ⟨improvementName name, .improvement, value t name⟩ t) t
    (∀ c ∈ t, c.name ∉ names.map improvementName → c ∈ t') ∧
      (∀ c ∈ t', c ∈ t ∨ c.origin = .improvement) ∧
      ∀ c ∈ t', c.name ∈ names.map improvementName → c.origin = .improvement := by
  induction names generalizing t with
  | nil => exact ⟨fun c hc _ => hc, fun c hc => Or.inl hc, fun c _ h => absurd h List.not_mem_nil⟩
  | cons n ns ih =>
    obtain ⟨hstay, horigin, htaken⟩ := ih (t := upsert Column.name
      ⟨improvementName n, .improvement, value t n⟩ t) (nodup_upsert Column.name hnames)
    refine ⟨fun c hc hname => ?_, fun c hc => ?_, fun c hc hname => ?_⟩
    · rw [List.map_cons, List.mem_cons, not_or] at hname
      refine hstay c ?_ hname.2
      have hfiled := filed_upsert_ne Column.name
        (x := ⟨improvementName n, .improvement, value t n⟩) (Ne.symm hname.1) t
      have : c ∈ filed Column.name c.name t := (mem_filed Column.name).mpr ⟨hc, rfl⟩
      rw [← hfiled] at this
      exact ((mem_filed Column.name).mp this).1
    · rcases horigin c hc with h | h
      · rcases mem_upsert_column h with rfl | h
        · exact Or.inr rfl
        · exact Or.inl h
      · exact Or.inr h
    · rw [List.map_cons, List.mem_cons] at hname
      by_cases hin : c.name ∈ ns.map improvementName
      · exact htaken c hc hin
      · rcases horigin c hc with h | h
        · have hn : c.name = improvementName n := hname.resolve_right hin
          have hfiled := filed_upsert_self Column.name
            (x := ⟨improvementName n, .improvement, value t n⟩) hnames
          have : c ∈ filed Column.name (improvementName n) (upsert Column.name
            ⟨improvementName n, .improvement, value t n⟩ t) := (mem_filed Column.name).mpr ⟨h, hn⟩
          rw [hfiled] at this
          rw [List.mem_singleton.mp this]
        · exact h

theorem mem_mergeParams {params : Dict String (Dict String (Json F))} {kept : List (Parsed F)}
    {t : List (Column F)} {c : Column F} (hc : c ∈ mergeParams py params kept t) :
    c ∈ t ∨ c.origin = .parameter ∧
      c.cells = kept.map fun p => (paramsOf params (rowId py p.2)).get? c.name := by
  rw [mergeParams] at hc
  split at hc
  · exact Or.inl hc
  · rcases List.mem_append.mp hc with hc | hc
    · rcases List.mem_append.mp hc with hc | hc
      · exact Or.inl (List.mem_filter.mp hc).1
      · obtain ⟨name, -, rfl⟩ := List.mem_map.mp hc
        exact Or.inr ⟨rfl, rfl⟩
    · exact Or.inl (List.mem_filter.mp hc).1

theorem mem_mergeParams_of_mem {params : Dict String (Dict String (Json F))}
    {kept : List (Parsed F)} {t : List (Column F)} {c : Column F} (hc : c ∈ t) :
    c ∈ mergeParams py params kept t := by
  rw [mergeParams]
  split
  · exact hc
  · by_cases hname : c.name = "sample_id"
    · exact List.mem_append_left _ (List.mem_append_left _
        (List.mem_filter.mpr ⟨hc, beq_iff_eq.mpr hname⟩))
    · exact List.mem_append_right _ (List.mem_filter.mpr ⟨hc, bne_iff_ne.mpr hname⟩)

/-- The values of a table are the samples' own if no row has a value under the name of an
improvement. -/
theorem ownValues_iff {kept : List (Parsed F)} {failures : List FailureRow}
    (hown : ∀ p ∈ kept, rowId py p.2 = p.1.owner) :
    OwnValues inputs
        { kept := kept
          table := mergeParams py (loadSamplesParams inputs.samples) kept
            (addImprovements pandas inputs.baseline kept)
          failures := failures } ↔
      ∀ p ∈ kept, ∀ name ∈ p.2.keys,
        name ∉ (improvedColumns pandas inputs.baseline kept).map improvementName := by
  obtain ⟨hstay, horigin, htaken⟩ := foldl_improvements
    (fun t name => (cellsOf t name).map
      (pandas.improvement ((baselineRow inputs.baseline kept).bind fun row => row.get? name)))
    (improvedColumns pandas inputs.baseline kept) (frame_names kept)
  constructor
  · intro h p hp name hname hclash
    have hmem := h.kpis p hp name hname
    rcases mem_mergeParams hmem with hc | hc
    · exact nomatch htaken _ hc hclash
    · exact nomatch hc.1
  · intro h
    refine ⟨fun p hp name hname => ?_, fun c hc hparameter => ?_⟩
    · exact mem_mergeParams_of_mem (hstay _ (mem_frame hp hname) (h p hp name hname))
    · rcases mem_mergeParams hc with hc | hc
      · rcases horigin c hc with h | h
        · rw [frame_origin h] at hparameter
          exact nomatch hparameter
        · rw [h] at hparameter
          exact nomatch hparameter
      · rw [hc.2]
        refine List.map_congr_left fun p hp => ?_
        rw [hown p hp]

/-! ## When every sample has its row -/

/-- The rows that are kept, in terms of the files. -/
theorem aggregate_ok {result : LocalResult F} :
    aggregate env py pandas inputs = .ok result ↔
      (∀ k ∈ inputs.kpis, reads py k = true → ∃ row, parseKpiJson py k = .ok row) ∧
        let kept := (rowsOf py inputs).filter fun p =>
          !((failuresOf env py inputs (rowsOf py inputs)).map FailureRow.sampleId).contains
            (rowId py p.2)
        result =
          { kept := kept
            table := mergeParams py (loadSamplesParams inputs.samples) kept
              (addImprovements pandas inputs.baseline kept)
            failures := failuresOf env py inputs (rowsOf py inputs) } := by
  rw [← readKpis_ok, aggregate]
  cases hraw : readKpis py inputs.kpis with
  | error e =>
    refine ⟨(fun h => nomatch h), fun h => ?_⟩
    obtain ⟨raw, h⟩ := h.1
    exact nomatch h
  | ok raw =>
    have heq : raw = rowsOf py inputs := readKpis_eq hraw
    subst heq
    simp only [Except.ok.injEq, exists_eq', true_and]
    exact eq_comm

/-- A row is kept unless it goes by the id of a failed sample. -/
theorem keeps_iff {p : Parsed F} :
    (!((failuresOf env py inputs (rowsOf py inputs)).map FailureRow.sampleId).contains
      (rowId py p.2)) = true ↔ ¬ Failed py inputs (rowId py p.2) := by
  rw [Bool.not_eq_true', ← Bool.not_eq_true, List.contains_iff_mem, mem_failuresOf]

/-- The kept files, as a filter of the files. -/
theorem map_fst_kept (keep : Parsed F → Bool) :
    ((rowsOf py inputs).filter keep).map Prod.fst =
      inputs.kpis.filter fun k => (row? py k).any fun row => keep (k, row) := by
  rw [rowsOf]
  induction inputs.kpis with
  | nil => rfl
  | cons k ks ih =>
    rw [List.filterMap_cons, List.filter_cons]
    cases hrow : row? py k with
    | none => exact ih
    | some row =>
      simp only [Option.map_some, List.filter_cons, Option.any_some]
      by_cases hkeep : keep (k, row) = true
      · rw [if_pos hkeep, if_pos hkeep, List.map_cons, ih]
      · rw [if_neg hkeep, if_neg hkeep, ih]

/-- The kept files are those that succeed exactly if the kept rows are the expected ones. -/
theorem kept_eq_iff (keep : Parsed F → Bool) :
    ((rowsOf py inputs).filter keep).map Prod.fst = inputs.kpis.filter (succeeded py inputs) ↔
      ∀ p ∈ rowsOf py inputs, (keep p = true ↔ succeeded py inputs p.1 = true) := by
  rw [map_fst_kept]
  constructor
  · intro h p hp
    obtain ⟨hk, hrow⟩ := mem_rowsOf.mp hp
    have hmem : p.1 ∈ inputs.kpis.filter (fun k => (row? py k).any fun row => keep (k, row)) ↔
        p.1 ∈ inputs.kpis.filter (succeeded py inputs) := by rw [h]
    rw [List.mem_filter, List.mem_filter, hrow] at hmem
    exact ⟨fun hkeep => (hmem.mp ⟨hk, hkeep⟩).2, fun hs => (hmem.mpr ⟨hk, hs⟩).2⟩
  · intro h
    refine List.filter_congr fun k hk => ?_
    cases hrow : row? py k with
    | none =>
      show false = succeeded py inputs k
      rw [succeeded, hrow]
      rfl
    | some row => exact Bool.eq_iff_iff.mpr (h (k, row) (mem_rowsOf.mpr ⟨hk, hrow⟩))

/-- A file that succeeds does not belong to a failed sample, if its row has the sample's id. -/
theorem not_failed_of_succeeded {p : Parsed F} (hp : p ∈ rowsOf py inputs)
    (hs : succeeded py inputs p.1 = true) (hid : rowId py p.2 = p.1.owner) :
    ¬ Failed py inputs p.1.owner := by
  intro h
  obtain ⟨d, hd, hpresent, hname, summary, hsummary, hkeep⟩ := h
  obtain ⟨hk, hrow⟩ := mem_rowsOf.mp hp
  rw [succeeded, Bool.and_eq_true, hrow, Bool.not_eq_true', List.any_eq_false] at hs
  have hsoft := hs.2 d hd
  rw [hname, beq_self_eq_true, Bool.true_and, hardFailure, hpresent, hsummary, Bool.true_and,
    Option.any_some, bne_iff_ne, ne_eq, not_not] at hsoft
  exact hkeep ⟨hsoft, p, hp, hs.1, hid⟩

theorem Partitions.sound (h : Partitions env py pandas inputs) : Sound py pandas inputs := by
  obtain ⟨result, hresult, hkept, hown, -, hfailed, hvalues⟩ := h
  obtain ⟨hparses, rfl⟩ := aggregate_ok.mp hresult
  simp only at hkept hown hfailed hvalues
  have hkeep := (kept_eq_iff _).mp hkept
  have hexpected : ((rowsOf py inputs).filter fun p =>
      !((failuresOf env py inputs (rowsOf py inputs)).map FailureRow.sampleId).contains
        (rowId py p.2)) = expected py inputs :=
    List.filter_congr fun p hp => Bool.eq_iff_iff.mpr (hkeep p hp)
  rw [ownValues_iff hown, hexpected] at hvalues
  rw [hexpected] at hown
  refine ⟨hparses, fun s hs => ?_, fun p hp hsucc => ?_, fun p hp hsucc => ?_, hvalues⟩
  · by_cases hsucc : ∃ k ∈ inputs.kpis, k.owner = s ∧ succeeded py inputs k = true
    · exact Or.inl hsucc
    · right
      have hnone : ∀ k ∈ inputs.kpis, k.owner = s → succeeded py inputs k = false := by
        intro k hk hks
        rw [← Bool.not_eq_true]
        exact fun hs => hsucc ⟨k, hk, hks, hs⟩
      obtain ⟨d, hd, hpresent, hname, summary, hsummary, -⟩ :=
        mem_failuresOf.mp ((hfailed s).mpr ⟨hs, hnone⟩)
      exact ⟨d, hd, hpresent, hname, summary, hsummary⟩
  · exact hown p (List.mem_filter.mpr ⟨hp, hsucc⟩)
  · have hdrop := (hkeep p hp).not.mpr (by rw [hsucc]; exact Bool.false_ne_true)
    rw [keeps_iff, not_not] at hdrop
    exact hdrop

theorem Sound.partitions (h : Sound py pandas inputs) : Partitions env py pandas inputs := by
  have hkeep : ∀ p ∈ rowsOf py inputs,
      ((!((failuresOf env py inputs (rowsOf py inputs)).map FailureRow.sampleId).contains
        (rowId py p.2)) = true ↔ succeeded py inputs p.1 = true) := by
    intro p hp
    rw [keeps_iff]
    cases hs : succeeded py inputs p.1 with
    | false => exact ⟨fun hn => absurd (h.strays p hp hs) hn, (fun hn => by cases hn)⟩
    | true =>
      have hid := h.ownId p hp hs
      refine ⟨fun _ => rfl, fun _ => ?_⟩
      rw [hid]
      exact not_failed_of_succeeded hp hs hid
  have hexpected : ((rowsOf py inputs).filter fun p =>
      !((failuresOf env py inputs (rowsOf py inputs)).map FailureRow.sampleId).contains
        (rowId py p.2)) = expected py inputs :=
    List.filter_congr fun p hp => Bool.eq_iff_iff.mpr (hkeep p hp)
  have hown : ∀ p ∈ expected py inputs, rowId py p.2 = p.1.owner := fun p hp =>
    h.ownId p (List.mem_filter.mp hp).1 (List.mem_filter.mp hp).2
  refine ⟨_, aggregate_ok.mpr ⟨h.parses, rfl⟩, (kept_eq_iff _).mpr hkeep, ?_,
    nodup_failuresOf _, fun s => ?_, ?_⟩
  · simp only [hexpected]
    exact hown
  · simp only [mem_failuresOf]
    constructor
    · intro hf
      obtain ⟨d, hd, hpresent, hname, -⟩ := id hf
      refine ⟨Or.inl ⟨d, hd, hpresent, hname⟩, fun k hk hks => ?_⟩
      rw [← Bool.not_eq_true]
      intro hs
      obtain ⟨row, hrow, -⟩ := exists_row hk hs
      exact not_failed_of_succeeded hrow hs (h.ownId _ hrow hs) (hks ▸ hf)
    · intro hs
      obtain ⟨hsample, hnone⟩ := hs
      rcases h.settled s hsample with hsucc | hdir
      · obtain ⟨k, hk, hks, hs⟩ := hsucc
        rw [hnone k hk hks] at hs
        cases hs
      · obtain ⟨d, hd, hpresent, hname, summary, hsummary⟩ := hdir
        by_cases hex : ∃ p ∈ rowsOf py inputs, usableRow py p.2 = true ∧ rowId py p.2 = s
        · -- a row that goes by the name of the sample is that of a failed one
          obtain ⟨p, hp, -, hid⟩ := hex
          cases hs : succeeded py inputs p.1 with
          | false => exact hid ▸ h.strays p hp hs
          | true =>
            have howner : p.1.owner = s := (h.ownId p hp hs).symm.trans hid
            rw [hnone p.1 (mem_rowsOf.mp hp).1 howner] at hs
            cases hs
        · exact ⟨d, hd, hpresent, hname, summary, hsummary, fun hc => hex hc.2⟩
  · simp only [hexpected]
    exact (ownValues_iff hown).mpr h.noClash

/-- The two tables are a partition of the samples exactly if the files are sound. -/
theorem partitions_iff (env : Env F) (py : Python F) (pandas : Pandas F) (inputs : Inputs F) :
    Partitions env py pandas inputs ↔ Sound py pandas inputs :=
  ⟨Partitions.sound, Sound.partitions⟩

end

/-! ## A KPI file that carries an error -/

/-- Python and pandas as far as a table of texts needs them. -/
def plainPython : Python ℚ where
  str v := match v with
    | .str s => s
    | _ => ""
  str_str _ := rfl
  isZero x := decide (x = 0)
  updateItems _ := .error .typeError

def plainPandas : Pandas ℚ := ⟨fun _ => [], fun _ => false, fun _ _ => none⟩

/-- The simulation of sample "0001" went well; extracting its KPIs did not. -/
def erroredExtraction : Inputs ℚ where
  kpis := [⟨"0001", .json (.obj [("sample_id", .str "0001"), ("error", .str "no such table")])⟩]
  dirs := [⟨"0001", true, "0001/eplusout.err", true, none, 0, "", true, false, none⟩]
  baseline := none
  samples := none
  kpis_nodup := List.nodup_singleton _
  dirs_nodup := List.nodup_singleton _

/-- Sample "0001" is in neither table. -/
theorem errored_sample_vanishes :
    ¬ ∀ inputs, Partitions plainEnv plainPython plainPandas inputs := by
  intro h
  have hsample : IsSample erroredExtraction "0001" :=
    Or.inl ⟨_, List.mem_cons_self, rfl, rfl⟩
  rcases (h erroredExtraction).sound.settled "0001" hsample with hk | hd
  · obtain ⟨k, hk, -, hs⟩ := hk
    rw [List.mem_singleton.mp hk] at hs
    exact absurd hs (by decide)
  · obtain ⟨d, hd, -, -, summary, hsummary⟩ := hd
    rw [List.mem_singleton.mp hd] at hsummary
    exact nomatch hsummary

end OSimFlow.Aggregation.Local
