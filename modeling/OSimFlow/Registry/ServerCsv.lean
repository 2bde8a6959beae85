import OSimFlow.Lib.Dict
import OSimFlow.Lib.Succeeds

/-!
# The export in the layout of the server

The rows of the aggregated table whose sample has not failed, and behind them those of the
table of failures, each as a dictionary that gets the identity, the variables, the outputs
and the failure message; and the frames of several campaigns, one below the other.

> `rows_of_noClash`: each sample has one row, with its own values.
>
> `exports_iff`: the frames of some campaigns are faithful, and their combination keeps every
> cell, exactly if there is one and no name of theirs clashes with a column of the layout.

A cell that is `None` or NaN is no value. The tables have sample ids, and are read with
different names for different columns.
-/

namespace OSimFlow.Registry.ServerCsv

open OSimFlow.Lib (Dict)

def simulationFailedCol : String := "simulation_failed_message"

def identityColumns : List String := ["name", "_id", "status", "status_message"]

/-- The columns that the server has no equivalent of. -/
def droppedColumns : List String :=
  ["sample_id", "status", "_campaign", "error_summary", "exit_code", "log_path"]

/-! ## Tables and samples -/

/-- What is used of cells: a text as a cell, and `str(v)`. -/
structure Cells (C : Type) where
  ofString : String → C
  str : Option C → String

/-- A table as it is read. -/
structure Table (C : Type) where
  columns : List String
  rows : List (Dict String (Option C))
  nodup : columns.Nodup
  keyed : ∀ row ∈ rows, row.keys = columns
  identified : rows ≠ [] → "sample_id" ∈ columns

/-- A value in a samples file; a categorical one has a label. -/
inductive SampleValue (C : Type) where
  | plain (v : Option C)
  | labelled (label : Option C)

/-- What is in the directory of a campaign; the samples with their ids as texts. -/
structure Campaign (C : Type) where
  aggregated : Table C
  failed : Table C
  samples : List (String × Dict String (SampleValue C))

variable {C : Type} (cells : Cells C)

/-- `names.append(key)`, if it is new. -/
def addNew (names : List String) (key : String) : List String :=
  if key ∈ names then names else names ++ [key]

/-- The names that `_load_samples` finds. -/
def Campaign.variableNames (c : Campaign C) : List String :=
  c.samples.foldl (fun names sample => sample.2.keys.foldl addNew names) []

def SampleValue.flat : SampleValue C → Option C
  | .plain v => v
  | .labelled label => label

/-- The values that `_load_samples` finds, by sample. -/
def Campaign.sampleValues (c : Campaign C) : Dict String (Dict String (Option C)) :=
  Dict.setAll ∅ (c.samples.map fun sample =>
    (sample.1, Dict.setAll ∅ (sample.2.items.map fun item => (item.1, item.2.flat))))

/-- `rec.get(col)`. -/
def cellOf (record : Dict String (Option C)) (col : String) : Option C := (record.get? col).join

/-- `str(rec["sample_id"])`. -/
def sampleId (record : Dict String (Option C)) : String := cells.str (cellOf record "sample_id")

def idsOf (t : Table C) : List String := t.rows.map (sampleId cells)

/-! ## One campaign -/

/-- A frame, with the variables in its attributes. -/
structure Frame (C : Type) where
  columns : List String
  rows : List (List (Option C))
  vars : List String

section

variable (c : Campaign C)

/-- The rows of the samples that have not failed. -/
def okRows : List (Dict String (Option C)) :=
  c.aggregated.rows.filter fun record => sampleId cells record ∉ idsOf cells c.failed

def outputs : List String :=
  if (okRows cells c).isEmpty then []
  else c.aggregated.columns.filter fun col =>
    col ∉ droppedColumns ∧ col ∉ c.variableNames ∧ col ≠ simulationFailedCol

def frameColumns : List String :=
  identityColumns ++ c.variableNames ++ outputs cells c ++ [simulationFailedCol]

/-- `sample_values.get(sid, {}).get(col, default)`. -/
def sampleValue (sid col : String) (default : Option C) : Option C :=
  ((c.sampleValues.get? sid).bind fun values => values.get? col).getD default

def identity (sid message : String) : Dict String (Option C) :=
  (((Dict.set ∅ "name" (some (cells.ofString sid))).set "_id" (some (cells.ofString sid))).set
    "status" (some (cells.ofString "completed"))).set "status_message"
      (some (cells.ofString message))

/-- `rec.get(key, "")`. -/
def textOf (record : Dict String (Option C)) (key : String) : Option C :=
  (record.get? key).getD (some (cells.ofString ""))

/-- The row of a sample that has not failed. -/
def okRow (record : Dict String (Option C)) : Dict String (Option C) :=
  let sid := sampleId cells record
  let row := identity cells sid "completed normal"
  let row := row.setAll (c.variableNames.map fun col =>
    (col, sampleValue c sid col (cellOf record col)))
  let row := row.setAll ((outputs cells c).map fun col => (col, cellOf record col))
  row.set simulationFailedCol (textOf cells record simulationFailedCol)

/-- The row of a failure. -/
def failedRow (record : Dict String (Option C)) : Dict String (Option C) :=
  let sid := sampleId cells record
  let row := (identity cells sid "datapoint failure").set simulationFailedCol
    (textOf cells record "error_summary")
  row.setAll (c.variableNames.map fun col => (col, sampleValue c sid col none))

/-- A row of the frame, with an empty failure message for none. -/
def cellsOf (columns : List String) (row : Dict String (Option C)) : List (Option C) :=
  columns.map fun col =>
    if col = simulationFailedCol then (cellOf row col).or (some (cells.ofString ""))
    else cellOf row col

/-- `build_server_csv_frame`. -/
def buildServerCsvFrame : Frame C :=
  if c.aggregated.rows.isEmpty && c.failed.rows.isEmpty then
    ⟨identityColumns ++ c.variableNames ++ [simulationFailedCol], [], c.variableNames⟩
  else
    ⟨frameColumns cells c,
      ((okRows cells c).map (okRow cells c) ++ c.failed.rows.map (failedRow cells c)).map
        (cellsOf cells (frameColumns cells c)), c.variableNames⟩

end

/-! ## Several campaigns -/

/-- The variables and the outputs of the frames. -/
def combinedNames (frames : List (Frame C)) : List String × List String :=
  frames.foldl (fun names f =>
    (f.vars.foldl addNew names.1,
      f.columns.foldl (fun outputs col =>
        if col ∉ identityColumns ∧ col ≠ simulationFailedCol ∧ col ∉ f.vars then
          addNew outputs col
        else outputs) names.2)) ([], [])

def combinedColumns (frames : List (Frame C)) : List String :=
  let (variableNames, outputs) := combinedNames frames
  identityColumns ++ variableNames ++ outputs.filter (fun col => col ∉ variableNames) ++
    [simulationFailedCol]

/-- The cell in a column, of a row below some columns. -/
def cellAt (columns : List String) (row : List (Option C)) (col : String) : Option (Option C) :=
  (columns.zip row).lookup col

/-- `f.reindex(columns=columns)`; it raises where a column is there twice, and the columns are
not the same already. -/
def reindex (columns : List String) (f : Frame C) : Option (List (List (Option C))) :=
  if f.columns = columns then some f.rows
  else if f.columns.Nodup then
    some (f.rows.map fun row => columns.map fun col => (cellAt f.columns row col).join)
  else none

/-- `combine_server_frames`; there is nothing to concatenate without a frame. -/
def combineServerFrames (frames : List (Frame C)) :
    Option (List String × List (List (Option C))) :=
  if frames = [] then none
  else do
    let columns := combinedColumns frames
    let parts ← frames.mapM (reindex columns)
    return (columns, parts.flatten)

/-! ## What the export is for -/

/-- The row of a sample in a table. -/
def recordOf (t : Table C) (sid : String) : Option (Dict String (Option C)) :=
  t.rows.find? fun record => sampleId cells record = sid

/-- The row of a sample that has not failed. -/
def measured (c : Campaign C) (sid : String) : Option (Dict String (Option C)) :=
  if (recordOf cells c.failed sid).isSome then none else recordOf cells c.aggregated sid

/-- The failure message of a sample. -/
def messageOf (c : Campaign C) (sid : String) : Option C :=
  match recordOf cells c.failed sid with
  | some record => textOf cells record "error_summary"
  | none =>
    match recordOf cells c.aggregated sid with
    | some record => textOf cells record simulationFailedCol
    | none => none

/-- The sample's own value in a column: of its identity, of a variable, or of an output. -/
def ownCell (c : Campaign C) (sid col : String) : Option C :=
  if col = "name" ∨ col = "_id" then some (cells.ofString sid)
  else if col = "status" then some (cells.ofString "completed")
  else if col = "status_message" then
    some (cells.ofString
      (if (recordOf cells c.failed sid).isSome then "datapoint failure" else "completed normal"))
  else if col = simulationFailedCol then (messageOf cells c sid).or (some (cells.ofString ""))
  else
    let own := (measured cells c sid).bind fun record => cellOf record col
    if col ∈ c.variableNames then sampleValue c sid col own else own

/-- One row for each sample of the two tables, with its own values, below different columns in
the order of the layout. -/
structure Faithful (c : Campaign C) : Prop where
  distinct : (buildServerCsvFrame cells c).columns.Nodup
  ordered : (buildServerCsvFrame cells c).columns =
    identityColumns ++ c.variableNames ++ outputs cells c ++ [simulationFailedCol]
  rows : ∃ ids : List String, ids.Nodup ∧
    (∀ sid, sid ∈ ids ↔ sid ∈ idsOf cells c.aggregated ∨ sid ∈ idsOf cells c.failed) ∧
    (buildServerCsvFrame cells c).rows =
      ids.map fun sid => (buildServerCsvFrame cells c).columns.map (ownCell cells c sid)

/-- The combination has every row of every frame, with every cell. -/
def Kept (frames : List (Frame C)) : Prop :=
  ∃ columns rows, combineServerFrames frames = some (columns, rows) ∧
    List.Forall₂ (fun (row : Frame C × List (Option C)) (combined : List (Option C)) =>
        ∀ col ∈ row.1.columns, cellAt columns combined col = cellAt row.1.columns row.2 col)
      (frames.flatMap fun f => f.rows.map fun row => (f, row)) rows

/-- The sample ids differ within each table. -/
def Identified (c : Campaign C) : Prop :=
  (idsOf cells c.aggregated).Nodup ∧ (idsOf cells c.failed).Nodup

/-- No variable is called like a column of the identity or that of the failure message, and no
column of the aggregated table like one of the identity, if a sample there has not failed; a
column that is dropped may be. -/
def NoClash (c : Campaign C) : Prop :=
  (∀ col ∈ c.variableNames, col ∉ identityColumns ∧ col ≠ simulationFailedCol) ∧
    ∀ col ∈ c.aggregated.columns, col ∈ identityColumns → col ∉ droppedColumns →
      ∀ sid ∈ idsOf cells c.aggregated, sid ∈ idsOf cells c.failed

/-! ## Names -/

theorem mem_foldl_addNew {names keys : List String} {k : String} :
    k ∈ keys.foldl addNew names ↔ k ∈ names ∨ k ∈ keys := by
  induction keys generalizing names with
  | nil => simp
  | cons key keys ih =>
    rw [List.foldl_cons, ih, addNew, List.mem_cons]
    split
    next hmem =>
      constructor
      · exact fun h => h.imp id Or.inr
      · intro h
        rcases h with h | rfl | h
        · exact .inl h
        · exact .inl hmem
        · exact .inr h
    next => rw [List.mem_append, List.mem_singleton, or_assoc]

theorem nodup_foldl_addNew {names keys : List String} (h : names.Nodup) :
    (keys.foldl addNew names).Nodup := by
  induction keys generalizing names with
  | nil => exact h
  | cons key keys ih =>
    rw [List.foldl_cons]
    refine ih ?_
    rw [addNew]
    split
    next => exact h
    next hnot => exact List.nodup_append.mpr ⟨h, List.nodup_singleton _, fun a ha b hb heq =>
        hnot (List.mem_singleton.mp hb ▸ heq ▸ ha)⟩

theorem foldl_if_addNew (p : String → Prop) [DecidablePred p] (names keys : List String) :
    keys.foldl (fun names key => if p key then addNew names key else names) names =
      (keys.filter fun key => decide (p key)).foldl addNew names := by
  rw [List.foldl_filter]
  simp only [decide_eq_true_iff]

theorem nodup_variableNames (c : Campaign C) : c.variableNames.Nodup := by
  have hfold : ∀ (samples : List (String × Dict String (SampleValue C))) (names : List String),
      names.Nodup →
        (samples.foldl (fun names sample => sample.2.keys.foldl addNew names) names).Nodup := by
    intro samples
    induction samples with
    | nil => exact fun _ h => h
    | cons sample samples ih => exact fun names h => ih _ (nodup_foldl_addNew h)
  exact hfold c.samples [] List.nodup_nil

section

variable {cells} {c : Campaign C}

theorem mem_outputs {col : String} :
    col ∈ outputs cells c ↔ okRows cells c ≠ [] ∧ col ∈ c.aggregated.columns ∧
      col ∉ droppedColumns ∧ col ∉ c.variableNames ∧ col ≠ simulationFailedCol := by
  rw [outputs]
  cases hrows : okRows cells c with
  | nil => simp
  | cons row rows => simp

theorem okRows_eq_nil_iff :
    okRows cells c = [] ↔ ∀ sid ∈ idsOf cells c.aggregated, sid ∈ idsOf cells c.failed := by
  rw [okRows, List.filter_eq_nil_iff]
  constructor
  · intro h sid hsid
    obtain ⟨record, hrecord, rfl⟩ := List.mem_map.mp hsid
    by_contra hnot
    exact h record hrecord (decide_eq_true hnot)
  · intro h record hrecord hkept
    exact of_decide_eq_true hkept (h _ (List.mem_map.mpr ⟨record, hrecord, rfl⟩))

/-- The columns are different ones exactly if no name clashes. -/
theorem nodup_frameColumns_iff : (frameColumns cells c).Nodup ↔ NoClash cells c := by
  have hidentity : identityColumns.Nodup := by decide
  have houtputs : (outputs cells c).Nodup := by
    rw [outputs]
    split
    next => exact List.nodup_nil
    next => exact c.aggregated.nodup.filter _
  have hfailed : simulationFailedCol ∉ identityColumns := by decide
  have hstatus : ∀ col ∈ outputs cells c, col ∉ c.variableNames ∧ col ≠ simulationFailedCol :=
    fun col hcol => (mem_outputs.mp hcol).2.2.2
  have hnodup : (frameColumns cells c).Nodup ↔
      (∀ col ∈ c.variableNames, col ∉ identityColumns ∧ col ≠ simulationFailedCol) ∧
        ∀ col ∈ outputs cells c, col ∉ identityColumns := by
    simp only [frameColumns, List.nodup_append, List.mem_append, List.nodup_singleton,
      List.mem_singleton]
    constructor
    · intro h
      obtain ⟨⟨⟨-, -, hvars⟩, -, houts⟩, -, hlast⟩ := h
      refine ⟨fun col hcol => ⟨fun hid => hvars col hid col hcol rfl, fun heq => ?_⟩,
        fun col hcol hid => houts col (.inl hid) col hcol rfl⟩
      exact hlast col (.inl (.inr hcol)) _ rfl heq
    · intro h
      obtain ⟨hvars, houts⟩ := h
      refine ⟨⟨⟨hidentity, nodup_variableNames c, fun a ha b hb heq => ?_⟩, houtputs,
        fun a ha b hb heq => ?_⟩, trivial, fun a ha b hb heq => ?_⟩
      · exact (hvars b hb).1 (heq ▸ ha)
      · rcases ha with ha | ha
        · exact houts b hb (heq ▸ ha)
        · exact (hstatus b hb).1 (heq ▸ ha)
      · rw [hb] at heq
        rcases ha with (ha | ha) | ha
        · exact hfailed (heq ▸ ha)
        · exact (hvars a ha).2 heq
        · exact (hstatus a ha).2 heq
  rw [hnodup, NoClash]
  refine and_congr_right fun hvars => ?_
  constructor
  · intro h col hcol hid hkept
    rw [← okRows_eq_nil_iff]
    by_contra hne
    refine h col (mem_outputs.mpr ⟨hne, hcol, hkept, fun hvar => (hvars col hvar).1 hid, ?_⟩) hid
    exact fun heq => hfailed (heq ▸ hid)
  · intro h col hcol hid
    obtain ⟨hne, hin, hkept, -, -⟩ := mem_outputs.mp hcol
    exact hne (okRows_eq_nil_iff.mpr (h col hin hid hkept))

/-! ## Rows -/

theorem columns_build : (buildServerCsvFrame cells c).columns = frameColumns cells c := by
  rw [buildServerCsvFrame]
  split
  next hempty =>
    rw [Bool.and_eq_true, List.isEmpty_iff] at hempty
    have hnone : outputs cells c = [] := by
      rw [outputs, okRows, hempty.1]
      rfl
    rw [frameColumns, hnone, List.append_nil]
  next => rfl

theorem rows_build : (buildServerCsvFrame cells c).rows =
    ((okRows cells c).map (okRow cells c) ++ c.failed.rows.map (failedRow cells c)).map
      (cellsOf cells (frameColumns cells c)) := by
  rw [buildServerCsvFrame]
  split
  next hempty =>
    rw [Bool.and_eq_true, List.isEmpty_iff, List.isEmpty_iff] at hempty
    rw [okRows, hempty.1, hempty.2]
    rfl
  next => rfl

theorem recordOf_eq_some {t : Table C} (hids : (idsOf cells t).Nodup)
    {record : Dict String (Option C)} (hmem : record ∈ t.rows) :
    recordOf cells t (sampleId cells record) = some record := by
  rw [recordOf]
  cases hfind : t.rows.find? fun r => sampleId cells r = sampleId cells record with
  | none =>
    have hnot := List.find?_eq_none.mp hfind record hmem
    exact absurd (decide_eq_true rfl) hnot
  | some found =>
    have hid : sampleId cells found = sampleId cells record := by
      simpa using List.find?_some hfind
    rw [List.inj_on_of_nodup_map hids (List.mem_of_find?_eq_some hfind) hmem hid]

theorem recordOf_eq_none {t : Table C} {sid : String} (h : sid ∉ idsOf cells t) :
    recordOf cells t sid = none := by
  rw [recordOf, List.find?_eq_none]
  intro record hrecord hid
  exact h (List.mem_map.mpr ⟨record, hrecord, of_decide_eq_true hid⟩)

/-- What a row begins with. -/
theorem get?_identity (sid message col : String) :
    (identity cells sid message).get? col =
      if col = "status_message" then some (some (cells.ofString message))
      else if col = "status" then some (some (cells.ofString "completed"))
      else if col = "_id" then some (some (cells.ofString sid))
      else if col = "name" then some (some (cells.ofString sid))
      else none := by
  simp only [identity, Dict.get?_set, Dict.get?_empty, eq_comm (b := col)]

variable (cells c) in
/-- What the rows have in the columns of the identity. -/
theorem ownCell_identity {sid col : String} (hcol : col ∈ identityColumns) :
    ownCell cells c sid col = ((identity cells sid
      (if (recordOf cells c.failed sid).isSome then "datapoint failure"
        else "completed normal")).get? col).join := by
  rw [get?_identity, ownCell]
  simp only [identityColumns, List.mem_cons, List.not_mem_nil, or_false] at hcol
  rcases hcol with rfl | rfl | rfl | rfl <;> simp

theorem get?_okRow (record : Dict String (Option C)) (col : String) :
    (okRow cells c record).get? col =
      if col = simulationFailedCol then some (textOf cells record simulationFailedCol)
      else if col ∈ outputs cells c then some (cellOf record col)
      else if col ∈ c.variableNames then
        some (sampleValue c (sampleId cells record) col (cellOf record col))
      else (identity cells (sampleId cells record) "completed normal").get? col := by
  rw [okRow, Dict.get?_set, Dict.get?_setAll_map, Dict.get?_setAll_map]
  simp only [eq_comm (b := col)]

theorem get?_failedRow (record : Dict String (Option C)) (col : String) :
    (failedRow cells c record).get? col =
      if col ∈ c.variableNames then some (sampleValue c (sampleId cells record) col none)
      else if col = simulationFailedCol then some (textOf cells record "error_summary")
      else (identity cells (sampleId cells record) "datapoint failure").get? col := by
  rw [failedRow, Dict.get?_setAll_map, Dict.get?_set]
  simp only [eq_comm (b := col)]

/-- The columns of the layout, kept apart. -/
theorem column_cases (h : NoClash cells c) {col : String} (hcol : col ∈ frameColumns cells c) :
    (col ∈ identityColumns ∧ col ∉ c.variableNames ∧ col ∉ outputs cells c ∧
      col ≠ simulationFailedCol) ∨
    (col ∈ c.variableNames ∧ col ∉ identityColumns ∧ col ∉ outputs cells c ∧
      col ≠ simulationFailedCol) ∨
    (col ∈ outputs cells c ∧ col ∉ identityColumns ∧ col ∉ c.variableNames ∧
      col ≠ simulationFailedCol) ∨
    (col = simulationFailedCol ∧ col ∉ identityColumns ∧ col ∉ c.variableNames ∧
      col ∉ outputs cells c) := by
  have hfailed : simulationFailedCol ∉ identityColumns := by decide
  have hvars : ∀ col ∈ c.variableNames, col ∉ identityColumns ∧ col ≠ simulationFailedCol := h.1
  have hkept : ∀ col ∈ outputs cells c, col ∉ identityColumns := by
    intro col hcol hid
    obtain ⟨hne, hin, hdropped, -, -⟩ := mem_outputs.mp hcol
    exact hne (okRows_eq_nil_iff.mpr (h.2 col hin hid hdropped))
  have houtputs : ∀ col ∈ outputs cells c, col ∉ c.variableNames ∧ col ≠ simulationFailedCol :=
    fun col hcol => (mem_outputs.mp hcol).2.2.2
  simp only [frameColumns, List.mem_append, List.mem_singleton] at hcol
  rcases hcol with ((hid | hvar) | hout) | hlast
  · refine .inl ⟨hid, fun hvar => (hvars col hvar).1 hid, fun hout => hkept col hout hid, ?_⟩
    exact fun heq => hfailed (heq ▸ hid)
  · obtain ⟨hnot, hne⟩ := hvars col hvar
    exact .inr (.inl ⟨hvar, hnot, fun hout => (houtputs col hout).1 hvar, hne⟩)
  · obtain ⟨hnot, hne⟩ := houtputs col hout
    exact .inr (.inr (.inl ⟨hout, hkept col hout, hnot, hne⟩))
  · refine .inr (.inr (.inr ⟨hlast, ?_, fun hvar => (hvars col hvar).2 hlast,
      fun hout => (houtputs col hout).2 hlast⟩))
    rw [hlast]
    exact hfailed

/-- Outside of the identity and the failure message, a sample has the values of variables and
outputs. -/
theorem ownCell_value {sid col : String} (hid : col ∉ identityColumns)
    (hne : col ≠ simulationFailedCol) :
    ownCell cells c sid col =
      if col ∈ c.variableNames then
        sampleValue c sid col ((measured cells c sid).bind fun record => cellOf record col)
      else (measured cells c sid).bind fun record => cellOf record col := by
  simp only [identityColumns, List.mem_cons, List.not_mem_nil, or_false, not_or] at hid
  obtain ⟨hname, hid, hstatus, hmessage⟩ := hid
  rw [ownCell, if_neg (by rw [not_or]; exact ⟨hname, hid⟩), if_neg hstatus, if_neg hmessage,
    if_neg hne]

theorem ownCell_failed (sid : String) :
    ownCell cells c sid simulationFailedCol =
      (messageOf cells c sid).or (some (cells.ofString "")) := by
  rw [ownCell, if_neg (by decide), if_neg (by decide), if_neg (by decide), if_pos rfl]

/-- The row of a sample that has not failed has its own values. -/
theorem cellsOf_okRow (h : NoClash cells c) (hids : Identified cells c)
    {record : Dict String (Option C)} (hmem : record ∈ okRows cells c) :
    cellsOf cells (frameColumns cells c) (okRow cells c record) =
      (frameColumns cells c).map (ownCell cells c (sampleId cells record)) := by
  obtain ⟨hin, hkept⟩ := List.mem_filter.mp hmem
  have hagg := recordOf_eq_some hids.1 hin
  have hfailed := recordOf_eq_none (of_decide_eq_true hkept)
  have hmeasured : measured cells c (sampleId cells record) = some record := by
    rw [measured, hfailed, hagg]
    rfl
  refine List.map_congr_left fun col hcol => ?_
  rw [cellOf, get?_okRow]
  rcases column_cases h hcol with ⟨hid, hvar, hout, hne⟩ | ⟨hvar, hid, hout, hne⟩ |
    ⟨hout, hid, hvar, hne⟩ | ⟨rfl, hid, hvar, hout⟩
  · rw [if_neg hne, if_neg hne, if_neg hout, if_neg hvar, ownCell_identity cells c hid, hfailed]
    rfl
  · rw [if_neg hne, if_neg hne, if_neg hout, if_pos hvar, ownCell_value hid hne, if_pos hvar,
      hmeasured]
    rfl
  · rw [if_neg hne, if_neg hne, if_pos hout, ownCell_value hid hne, if_neg hvar, hmeasured]
    rfl
  · rw [if_pos rfl, if_pos rfl, ownCell_failed, messageOf, hfailed, hagg]
    rfl

/-- The row of a failure has its own values. -/
theorem cellsOf_failedRow (h : NoClash cells c) (hids : Identified cells c)
    {record : Dict String (Option C)} (hmem : record ∈ c.failed.rows) :
    cellsOf cells (frameColumns cells c) (failedRow cells c record) =
      (frameColumns cells c).map (ownCell cells c (sampleId cells record)) := by
  have hfailed := recordOf_eq_some hids.2 hmem
  have hmeasured : measured cells c (sampleId cells record) = none := by
    rw [measured, hfailed]
    rfl
  refine List.map_congr_left fun col hcol => ?_
  rw [cellOf, get?_failedRow]
  rcases column_cases h hcol with ⟨hid, hvar, hout, hne⟩ | ⟨hvar, hid, hout, hne⟩ |
    ⟨hout, hid, hvar, hne⟩ | ⟨rfl, hid, hvar, hout⟩
  · rw [if_neg hne, if_neg hvar, if_neg hne, ownCell_identity cells c hid, hfailed]
    rfl
  · rw [if_neg hne, if_pos hvar, ownCell_value hid hne, if_pos hvar, hmeasured]
    rfl
  · -- an output has no value where the sample has failed
    rw [if_neg hne, if_neg hvar, if_neg hne, ownCell_value hid hne, if_neg hvar, hmeasured,
      get?_identity]
    simp only [identityColumns, List.mem_cons, List.not_mem_nil, or_false, not_or] at hid
    obtain ⟨hname, hid, hstatus, hmessage⟩ := hid
    rw [if_neg hmessage, if_neg hstatus, if_neg hid, if_neg hname]
    rfl
  · rw [if_pos rfl, if_neg hvar, if_pos rfl, ownCell_failed, messageOf, hfailed]
    rfl

/-- Each sample of the two tables has one row, with its own values. -/
theorem rows_of_noClash (h : NoClash cells c) (hids : Identified cells c) : Faithful cells c := by
  refine ⟨?_, columns_build, (okRows cells c).map (sampleId cells) ++ idsOf cells c.failed,
    ?_, ?_, ?_⟩
  · rw [columns_build]
    exact nodup_frameColumns_iff.mpr h
  · refine List.nodup_append.mpr ⟨(List.filter_sublist.map _).nodup hids.1, hids.2, ?_⟩
    intro sid hok sid' hfailed heq
    obtain ⟨record, hrecord, rfl⟩ := List.mem_map.mp hok
    exact of_decide_eq_true (List.mem_filter.mp hrecord).2 (heq ▸ hfailed)
  · intro sid
    rw [List.mem_append]
    constructor
    · intro hsid
      refine hsid.imp (fun hok => ?_) id
      obtain ⟨record, hrecord, rfl⟩ := List.mem_map.mp hok
      exact List.mem_map.mpr ⟨record, (List.mem_filter.mp hrecord).1, rfl⟩
    · intro hsid
      by_cases hfailed : sid ∈ idsOf cells c.failed
      · exact .inr hfailed
      · obtain ⟨record, hrecord, rfl⟩ := List.mem_map.mp (hsid.resolve_right hfailed)
        exact .inl (List.mem_map.mpr
          ⟨record, List.mem_filter.mpr ⟨hrecord, decide_eq_true hfailed⟩, rfl⟩)
  · rw [rows_build, columns_build, idsOf, ← List.map_append, List.map_map, List.map_append,
      List.map_append, List.map_map, List.map_map]
    congr 1
    · exact List.map_congr_left fun record hrecord => cellsOf_okRow h hids hrecord
    · exact List.map_congr_left fun record hrecord => cellsOf_failedRow h hids hrecord

/-! ## Combining -/

theorem mem_combinedNames {frames : List (Frame C)} {names : List String × List String} :
    let combined := frames.foldl (fun names f =>
      (f.vars.foldl addNew names.1,
        f.columns.foldl (fun outputs col =>
          if col ∉ identityColumns ∧ col ≠ simulationFailedCol ∧ col ∉ f.vars then
            addNew outputs col
          else outputs) names.2)) names
    (∀ col, col ∈ names.1 ∨ (∃ f ∈ frames, col ∈ f.vars) → col ∈ combined.1) ∧
      ∀ col, col ∈ names.2 ∨ (∃ f ∈ frames, col ∈ f.columns ∧ col ∉ identityColumns ∧
        col ≠ simulationFailedCol ∧ col ∉ f.vars) → col ∈ combined.2 := by
  induction frames generalizing names with
  | nil =>
    refine ⟨fun col h => h.resolve_right fun hex => ?_, fun col h => h.resolve_right fun hex => ?_⟩
    · obtain ⟨f, hf, -⟩ := hex
      exact List.not_mem_nil hf
    · obtain ⟨f, hf, -⟩ := hex
      exact List.not_mem_nil hf
  | cons frame frames ih =>
    rw [List.foldl_cons]
    obtain ⟨hvars, houts⟩ := @ih (_, _)
    refine ⟨fun col h => hvars col ?_, fun col h => houts col ?_⟩
    · rw [mem_foldl_addNew]
      rcases h with h | ⟨f, hf, hcol⟩
      · exact .inl (.inl h)
      · rcases List.mem_cons.mp hf with rfl | hf
        · exact .inl (.inr hcol)
        · exact .inr ⟨f, hf, hcol⟩
    · rw [foldl_if_addNew, mem_foldl_addNew, List.mem_filter, decide_eq_true_iff]
      rcases h with h | ⟨f, hf, hcol⟩
      · exact .inl (.inl h)
      · rcases List.mem_cons.mp hf with rfl | hf
        · exact .inl (.inr hcol)
        · exact .inr ⟨f, hf, hcol⟩

/-- Every column of a frame is one of the combination. -/
theorem mem_combinedColumns {frames : List (Frame C)} {f : Frame C} (hf : f ∈ frames)
    {col : String} (hcol : col ∈ f.columns) : col ∈ combinedColumns frames := by
  obtain ⟨hvars, houts⟩ := @mem_combinedNames C frames ([], [])
  change (∀ col, _ → col ∈ (combinedNames frames).1) at hvars
  change (∀ col, _ → col ∈ (combinedNames frames).2) at houts
  simp only [combinedColumns, List.mem_append, List.mem_filter, List.mem_singleton,
    decide_eq_true_iff]
  by_cases hid : col ∈ identityColumns
  · exact .inl (.inl (.inl hid))
  · by_cases hlast : col = simulationFailedCol
    · exact .inr hlast
    · by_cases hvar : col ∈ (combinedNames frames).1
      · exact .inl (.inl (.inr hvar))
      · refine .inl (.inr ⟨houts col (.inr ⟨f, hf, hcol, hid, hlast, fun hin => ?_⟩), hvar⟩)
        exact hvar (hvars col (.inr ⟨f, hf, hin⟩))

theorem cellAt_map {columns : List String} {col : String} (hcol : col ∈ columns)
    (value : String → Option C) : cellAt columns (columns.map value) col = some (value col) := by
  rw [cellAt]
  induction columns with
  | nil => exact absurd hcol List.not_mem_nil
  | cons first columns ih =>
    rw [List.map_cons, List.zip_cons_cons, List.lookup_cons]
    by_cases hfirst : col = first
    · rw [hfirst, beq_self_eq_true]
    · rw [beq_false_of_ne hfirst]
      exact ih ((List.mem_cons.mp hcol).resolve_left hfirst)

/-- A frame whose rows have a cell in every column keeps the cells in more columns. -/
theorem reindex_spec {columns : List String} {f : Frame C} (hnodup : f.columns.Nodup)
    (hrows : ∀ row ∈ f.rows, ∃ value, row = f.columns.map value)
    (hcolumns : ∀ col ∈ f.columns, col ∈ columns) :
    ∃ rows, reindex columns f = some rows ∧
      List.Forall₂ (fun row combined =>
        ∀ col ∈ f.columns, cellAt columns combined col = cellAt f.columns row col) f.rows rows := by
  rw [reindex]
  split
  next hsame =>
    refine ⟨f.rows, rfl, ?_⟩
    rw [hsame]
    exact List.forall₂_same.mpr fun row _ col _ => rfl
  next =>
    refine ⟨_, rfl, ?_⟩
    rw [List.forall₂_map_right_iff]
    refine List.forall₂_same.mpr fun row hrow col hcol => ?_
    obtain ⟨value, rfl⟩ := hrows row hrow
    rw [cellAt_map (hcolumns col hcol) _, cellAt_map hcol]
    rfl

/-- Frames without columns that are there twice are combined with all their cells. -/
theorem kept_of_nodup {frames : List (Frame C)} (hne : frames ≠ [])
    (hnodup : ∀ f ∈ frames, f.columns.Nodup)
    (hrows : ∀ f ∈ frames, ∀ row ∈ f.rows, ∃ value, row = f.columns.map value) : Kept frames := by
  have hparts : ∀ part : List (Frame C), (∀ f ∈ part, f ∈ frames) →
      ∃ parts, part.mapM (reindex (combinedColumns frames)) = some parts ∧
        List.Forall₂ (fun (row : Frame C × List (Option C)) (combined : List (Option C)) =>
            ∀ col ∈ row.1.columns,
              cellAt (combinedColumns frames) combined col = cellAt row.1.columns row.2 col)
          (part.flatMap fun f => f.rows.map fun row => (f, row)) parts.flatten := by
    intro part hpart
    induction part with
    | nil => exact ⟨[], rfl, .nil⟩
    | cons f part ih =>
      have hf := hpart f List.mem_cons_self
      obtain ⟨parts, hmapM, hall⟩ := ih fun g hg => hpart g (List.mem_cons_of_mem _ hg)
      obtain ⟨rows, hreindex, hkept⟩ := reindex_spec (hnodup f hf) (hrows f hf)
        fun col hcol => mem_combinedColumns hf hcol
      refine ⟨rows :: parts, ?_, ?_⟩
      · rw [List.mapM_cons, hreindex, hmapM]
        rfl
      · rw [List.flatMap_cons, List.flatten_cons]
        refine List.rel_append ?_ hall
        rw [List.forall₂_map_left_iff]
        exact hkept
  obtain ⟨parts, hmapM, hall⟩ := hparts frames fun _ hf => hf
  refine ⟨combinedColumns frames, parts.flatten, ?_, hall⟩
  rw [combineServerFrames, if_neg hne]
  show (frames.mapM (reindex (combinedColumns frames)) >>= _) = _
  rw [hmapM]
  rfl

theorem cellsOf_eq_map (columns : List String) (row : Dict String (Option C)) :
    ∃ value, cellsOf cells columns row = columns.map value := ⟨_, rfl⟩

end

/-- The exports of some campaigns are faithful and are combined without a loss, exactly if there
is one and no name clashes. -/
theorem exports_iff (cs : List (Campaign C)) (hids : ∀ c ∈ cs, Identified cells c) :
    (∀ c ∈ cs, Faithful cells c) ∧ Kept (cs.map (buildServerCsvFrame cells)) ↔
      cs ≠ [] ∧ ∀ c ∈ cs, NoClash cells c := by
  constructor
  · intro h
    obtain ⟨hfaithful, hkept⟩ := h
    refine ⟨fun hnil => ?_, fun c hc => ?_⟩
    · obtain ⟨columns, rows, hcombine, -⟩ := hkept
      rw [hnil] at hcombine
      cases hcombine
    · have hdistinct := (hfaithful c hc).distinct
      rw [columns_build] at hdistinct
      exact nodup_frameColumns_iff.mp hdistinct
  · intro h
    obtain ⟨hne, hclash⟩ := h
    refine ⟨fun c hc => rows_of_noClash (hclash c hc) (hids c hc), kept_of_nodup ?_ ?_ ?_⟩
    · rwa [ne_eq, List.map_eq_nil_iff]
    · intro f hf
      obtain ⟨c, hc, rfl⟩ := List.mem_map.mp hf
      rw [columns_build]
      exact nodup_frameColumns_iff.mpr (hclash c hc)
    · intro f hf row hrow
      obtain ⟨c, hc, rfl⟩ := List.mem_map.mp hf
      rw [rows_build] at hrow
      obtain ⟨record, -, rfl⟩ := List.mem_map.mp hrow
      rw [columns_build]
      exact cellsOf_eq_map _ _

/-! ## A KPI called `name` -/

/-- Cells that are texts. -/
def textCells : Cells String where
  ofString s := s
  str v := v.getD "nan"

/-- A table without rows. -/
def noRows : Table String := ⟨[], [], List.nodup_nil, by simp, by simp⟩

/-- One sample, with one more column. -/
def oneRow (column : String) (h : column ≠ "sample_id") : Table String where
  columns := ["sample_id", column]
  rows := [(Dict.set ∅ "sample_id" (some "0001")).set column (some "12")]
  nodup := by simp [h.symm]
  keyed := by
    intro row hrow
    obtain rfl := List.mem_singleton.mp hrow
    rw [Dict.keys, Dict.items_set_of_notMem]
    · rfl
    · rw [Dict.keys]
      exact fun hmem => h (List.mem_singleton.mp hmem)
  identified _ := List.mem_cons_self

/-- The column `name` is there twice, with the value of the KPI. -/
theorem name_clashes : Identified textCells ⟨oneRow "name" (by decide), noRows, []⟩ ∧
    ¬ Faithful textCells ⟨oneRow "name" (by decide), noRows, []⟩ := by
  refine ⟨⟨by decide, by decide⟩, fun h => ?_⟩
  exact absurd h.distinct (by decide +kernel)

/-- A KPI with another name. -/
theorem eui_exported :
    (∀ c ∈ [(⟨oneRow "eui" (by decide), noRows, []⟩ : Campaign String)],
      Identified textCells c) ∧
    (∀ c ∈ [(⟨oneRow "eui" (by decide), noRows, []⟩ : Campaign String)], Faithful textCells c) ∧
      Kept ([(⟨oneRow "eui" (by decide), noRows, []⟩ : Campaign String)].map
        (buildServerCsvFrame textCells)) := by
  have hids : ∀ c ∈ [(⟨oneRow "eui" (by decide), noRows, []⟩ : Campaign String)],
      Identified textCells c := by
    intro c hc
    obtain rfl := List.mem_singleton.mp hc
    exact ⟨by decide, by decide⟩
  refine ⟨hids, (exports_iff textCells _ hids).mpr ⟨List.cons_ne_nil _ _, fun c hc => ?_⟩⟩
  obtain rfl := List.mem_singleton.mp hc
  exact ⟨by decide, by decide⟩

end OSimFlow.Registry.ServerCsv
