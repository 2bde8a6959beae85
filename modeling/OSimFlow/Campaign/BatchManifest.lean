import OSimFlow.Detached.Download
import OSimFlow.Lib.Instances
import OSimFlow.Lib.Squeeze
import OSimFlow.Lib.Succeeds

/-!
# The campaigns of a batch manifest

Every row of a manifest gets the name of its campaign directory: its own
`campaign`, or the `name_template` of the manifest with the id and the name of
the row put in. The name is cleaned up, and an empty name and a name that
differs from an earlier one in case only are refused, as are rows and templates
of the wrong form.

The names that come out are safe directory names and different ones. There are
three ways for the rest to fail.

* The file is not UTF-8, or a value in it is not one of its type: what is
  raised is neither an `OSError` nor a `YAMLError`.
* The template is looked through before the `try`, so that a brace that is not
  closed raises a `ValueError` of its own.
* The name is that of the summary, which the driver writes next to the
  campaigns.

> `givesSafeNames_iff`: these are all.
-/

namespace OSimFlow.Campaign.BatchManifest

open OSimFlow.Lib (strip squeeze either mem_squeeze strip_squeeze_eq_iff strip_infix head_strip
  strip_eq_self exists_of_forall₂)

/-! ## The manifest -/

/-- A value of a YAML document; `other` is a number, a truth value, nothing or a date, by its
truth and its `str`. -/
inductive Yaml where
  | str (s : String)
  | list (items : List Yaml)
  | mapping (items : List (Yaml × Yaml))
  | other (truthy : Bool) (text : String)

abbrev Mapping := List (Yaml × Yaml)

/-- The key is this string. -/
def Yaml.isKey (key : String) : Yaml → Bool
  | .str s => s == key
  | _ => false

/-- `bool(value)`. -/
def Yaml.truthy : Yaml → Bool
  | .str s => s != ""
  | .list items => !items.isEmpty
  | .mapping items => !items.isEmpty
  | .other truthy _ => truthy

/-- `m.get(key)`. -/
def get (m : Mapping) (key : String) : Option Yaml :=
  (m.find? fun item => item.1.isKey key).map Prod.snd

/-- `m[key] = value`. -/
def assign (m : Mapping) (key : String) (value : Yaml) : Mapping :=
  match m with
  | [] => [(.str key, value)]
  | item :: rest => if item.1.isKey key then (item.1, value) :: rest
    else item :: assign rest key value

/-- `m.setdefault(key, value)`. -/
def setDefault (m : Mapping) (key : String) (value : Yaml) : Mapping :=
  match get m key with
  | some _ => m
  | none => assign m key value

/-- What `yaml.safe_load(path.read_text())` does. -/
inductive Reading where
  | data (value : Yaml)
  /-- An `OSError` or a `YAMLError`. -/
  | unreadable
  /-- Any other exception: the bytes are no text, a date does not exist. -/
  | raises

/-- What `BatchManifestError` is raised for. -/
inductive ManifestError where
  | cannotRead
  | notMapping
  | common
  | template
  | needsName (i : Nat)
  | blank (i : Nat) (key : String)
  | invalidTemplate
  | emptyName
  | duplicate (name : List Char)
  | noBatches
deriving DecidableEq

inductive LoadError where
  | manifest (e : ManifestError)
  /-- An exception that is no `BatchManifestError`. -/
  | escapes
deriving DecidableEq

/-! ## `string.Formatter().parse` -/

/-- A replacement field: its name, and whether it has a format spec or a conversion. -/
structure Field where
  name : List Char
  spec : Bool
  conv : Bool
deriving DecidableEq

structure Piece where
  literal : List Char
  field : Option Field
deriving DecidableEq

/-- The format spec, up to the brace that closes the field; `depth` braces are open in it. -/
def scanSpec : Nat → Bool → List Char → Option (Bool × List Char)
  | _, _, [] => none
  | depth, spec, c :: rest =>
    if c = '{' then scanSpec (depth + 1) true rest
    else if c = '}' then
      match depth with
      | 0 => some (spec, rest)
      | depth + 1 => scanSpec depth true rest
    else scanSpec depth true rest

/-- What follows a `!`: one character, and the end of the field or its format spec. -/
def scanConversion : List Char → Option (Bool × List Char)
  | [] => none
  | [_] => none
  | _ :: c :: rest =>
    if c = '}' then some (false, rest)
    else if c = ':' then scanSpec 0 false rest
    else none

/-- The field behind a brace. Between square brackets nothing ends its name. -/
def scanField : Bool → List Char → List Char → Option (Field × List Char)
  | _, _, [] => none
  | true, name, c :: rest => scanField (c != ']') (name ++ [c]) rest
  | false, name, c :: rest =>
    if c = '{' then none
    else if c = '[' then scanField true (name ++ [c]) rest
    else if c = '}' then some (⟨name, false, false⟩, rest)
    else if c = ':' then
      (scanSpec 0 false rest).map fun r => (⟨name, r.1, false⟩, r.2)
    else if c = '!' then
      (scanConversion rest).map fun r => (⟨name, r.1, true⟩, r.2)
    else scanField false (name ++ [c]) rest

def notBrace (c : Char) : Bool := c != '\x7b' && c != '\x7d'

/-- The next piece of a template: a literal, and the field behind it, if any. A doubled brace
is a literal one. -/
def nextPiece (template : List Char) : Option (Piece × List Char) :=
  let literal := template.takeWhile notBrace
  match template.dropWhile notBrace with
  | [] => some (⟨literal, none⟩, [])
  | [_] => none
  | c :: d :: rest =>
    if c = d then some (⟨literal ++ [c], none⟩, rest)
    else if c = '}' then none
    else (scanField false [] (d :: rest)).map fun r => (⟨literal, some r.1⟩, r.2)

/-- The pieces of a template, up to its end or to where it is malformed. -/
def pieces : Nat → List Char → List Piece × Bool
  | 0, _ => ([], false)
  | _ + 1, [] => ([], false)
  | fuel + 1, c :: template =>
    match nextPiece (c :: template) with
    | none => ([], true)
    | some (piece, rest) =>
      let more := pieces fuel rest
      (piece :: more.1, more.2)

def parseTemplate (template : List Char) : List Piece × Bool := pieces template.length template

/-! ## The name of a campaign -/

/-- `[^A-Za-z0-9_.-]`. -/
def disallowed (c : Char) : Bool :=
  !(c.isAlphanum || c == '_' || c == '.' || c == '-')

/-- `.strip(".-")`. -/
def trimmed (c : Char) : Bool := c == '.' || c == '-'

/-- `_NAME_RE.sub("-", text)`. -/
def sub (text : List Char) : List Char := squeeze disallowed '-' false text

/-- A field that is not a plain `id` or `name`. -/
def Field.foreign (field : Field) : Bool :=
  (field.name != "id".toList && field.name != "name".toList) || field.spec || field.conv

/-- The loop over the fields of a template. It looks at what the parser has found before the
parser fails. -/
def checkFields (malformed : Bool) : List Piece → Except LoadError Unit
  | [] => if malformed then .error .escapes else .ok ()
  | piece :: rest =>
    if piece.field.any Field.foreign then .error (.manifest .invalidTemplate)
    else checkFields malformed rest

/-- `template.format(id=…, name=…)`, of plain fields. -/
def format (batchId name : List Char) : List Piece → List Char
  | [] => []
  | piece :: rest =>
    let value := match piece.field with
      | none => []
      | some field => if field.name = "id".toList then sub batchId else sub name
    piece.literal ++ value ++ format batchId name rest

/-- `_NAME_RE.sub("-", rendered).strip(".-")`. -/
def clean (rendered : List Char) : List Char := strip trimmed (sub rendered)

/-- `batch_campaign_name`. -/
def batchCampaignName (batchId name template : List Char) : Except LoadError (List Char) :=
  let parsed := parseTemplate template
  match checkFields parsed.2 parsed.1 with
  | .error e => .error e
  | .ok () =>
    let cname := clean (format batchId name parsed.1)
    if cname = [] then .error (.manifest .emptyName) else .ok cname

/-! ## `load_manifest` -/

/-- `DEFAULT_NAME_TEMPLATE`. -/
def defaultNameTemplate : String := "\x7bname\x7d"

/-- `s.strip()` is empty. -/
def blank (s : String) : Bool := s.toList.all Detached.isSpace

/-- What is asked of a row, and of its two names. -/
def checkRow (i : Nat) (raw : Yaml) : Except LoadError Mapping :=
  match raw with
  | .mapping row =>
    if (get row "name").isNone && (get row "campaign").isNone then
      .error (.manifest (.needsName i))
    else
      let bad := ["name", "campaign"].find? fun key =>
        match get row key with
        | none => false
        | some (.str s) => blank s
        | some _ => true
      match bad with
      | some key => .error (.manifest (.blank i key))
      | none => .ok row
  | _ => .error (.manifest (.needsName i))

/-- `str(value)`; `repr` gives that of a list or a mapping. -/
def pyStr (repr : Yaml → String) : Yaml → String
  | .str s => s
  | .other _ text => text
  | value => repr value

/-- The row with its defaults. -/
def withDefaults (i : Nat) (row : Mapping) : Mapping :=
  let entry := setDefault row "id" (.other true (toString (i + 1)))
  setDefault entry "name" ((get entry "campaign").getD (.other false "None"))

/-- The name of the campaign of an entry. -/
def campaignName (repr : Yaml → String) (template : String) (entry : Mapping) :
    Except LoadError (List Char) :=
  let text key := (pyStr repr ((get entry key).getD (.other false "None"))).toList
  match get entry "campaign" with
  | some _ => batchCampaignName (text "id") (text "campaign") defaultNameTemplate.toList
  | none => batchCampaignName (text "id") (text "name") template.toList

/-- `cname.casefold()`, of a name of ASCII characters. -/
def casefold (cname : List Char) : List Char := cname.map Char.toLower

attribute [local instance] Lib.lawfulBEq_list in
/-- The loop over the rows. -/
def loadRows (repr : Yaml → String) (template : String) :
    Nat → List (List Char) → List Yaml → Except LoadError (List Mapping)
  | _, _, [] => .ok []
  | i, seen, raw :: rows =>
    match checkRow i raw with
    | .error e => .error e
    | .ok row =>
      let entry := withDefaults i row
      match campaignName repr template entry with
      | .error e => .error e
      | .ok cname =>
        if casefold cname ∈ seen then .error (.manifest (.duplicate cname))
        else
          match loadRows repr template (i + 1) (seen ++ [casefold cname]) rows with
          | .error e => .error e
          | .ok batches => .ok (assign entry "campaign" (.str (String.ofList cname)) :: batches)

/-- The template of `common`. -/
def nameTemplate (common : Mapping) : Except LoadError String :=
  match get common "name_template" with
  | none => .ok defaultNameTemplate
  | some (.str s) => if s = "" then .error (.manifest .template) else .ok s
  | some _ => .error (.manifest .template)

/-- `data.get("common") or {}`. -/
def commonOf (data : Mapping) : Except LoadError Mapping :=
  match get data "common" with
  | none => .ok []
  | some value =>
    if value.truthy then
      match value with
      | .mapping common => .ok common
      | _ => .error (.manifest .common)
    else .ok []

/-- The batches of a manifest with these rows. -/
def loadBatches (repr : Yaml → String) (data : Mapping) (rows : List Yaml) :
    Except LoadError (Mapping × List Mapping) := do
  let common ← commonOf data
  let template ← nameTemplate common
  let batches ← loadRows repr template 0 [] rows
  if batches = [] then .error (.manifest .noBatches) else .ok (common, batches)

/-- `load_manifest`. -/
def loadManifest (repr : Yaml → String) :
    Reading → Except LoadError (Mapping × List Mapping)
  | .unreadable => .error (.manifest .cannotRead)
  | .raises => .error .escapes
  | .data (.mapping data) =>
    match get data "batches" with
    | some (.list rows) => loadBatches repr data rows
    | _ => .error (.manifest .notMapping)
  | .data _ => .error (.manifest .notMapping)

/-! ## What is wrong with a row -/

/-- The field of a template that is not a plain one, where the parser finds it. -/
def Foreign (template : String) : Prop :=
  ∃ piece ∈ (parseTemplate template.toList).1, piece.field.any Field.foreign = true

/-- A brace is not closed, or not opened. -/
def Malformed (template : String) : Prop := (parseTemplate template.toList).2 = true

/-- What the name of a row is cleaned up from. -/
def rowText (repr : Yaml → String) (template : String) (i : Nat) (row : Mapping) : List Char :=
  let entry := withDefaults i row
  let text key := (pyStr repr ((get entry key).getD (.other false "None"))).toList
  match get row "campaign" with
  | some _ => sub (text "campaign")
  | none => format (text "id") (text "name") (parseTemplate template.toList).1

def rowName (repr : Yaml → String) (template : String) (i : Nat) (row : Mapping) : List Char :=
  clean (rowText repr template i row)

/-- The names of the rows, as they are compared. -/
def spellings (repr : Yaml → String) (template : String) : Nat → List Yaml → List (List Char)
  | _, [] => []
  | i, raw :: rows =>
    let name := match checkRow i raw with
      | .ok row => casefold (rowName repr template i row)
      | .error _ => []
    name :: spellings repr template (i + 1) rows

/-- The template is parsed for this row, and that fails. -/
def Breaks (template : String) (i : Nat) (raw : Yaml) : Prop :=
  ∃ row, checkRow i raw = .ok row ∧ get row "campaign" = none ∧ ¬ Foreign template ∧
    Malformed template

/-- The row is reported as a wrong one: its form is wrong, or the template, or nothing is left of
its name, or it is the name of an earlier row. -/
def Refused (repr : Yaml → String) (template : String) (earlier : List (List Char)) (i : Nat)
    (raw : Yaml) : Prop :=
  (∃ e, checkRow i raw = .error e) ∨ ∃ row, checkRow i raw = .ok row ∧
    ((get row "campaign" = none ∧ Foreign template) ∨
      ((get row "campaign" = none → ¬ Foreign template ∧ ¬ Malformed template) ∧
        (rowName repr template i row = [] ∨
          casefold (rowName repr template i row) ∈ earlier)))

/-- `SUMMARY_NAME`, which is `"batches_summary.json"`. -/
def summaryName : List Char :=
  ['b', 'a', 't', 'c', 'h', 'e', 's', '_', 's', 'u', 'm', 'm', 'a', 'r', 'y', '.', 'j', 's', 'o', 'n']

/-- The text is that of the summary's name, but for what is cleaned off. -/
def NamesSummary (text : List Char) : Prop :=
  ∃ a b, text = a ++ summaryName ++ b ∧
    (∀ c ∈ a, either disallowed trimmed c = true) ∧ ∀ c ∈ b, either disallowed trimmed c = true

/-! ## One row -/

@[simp] theorem isKey_str (key s : String) : (Yaml.str s).isKey key = (s == key) := rfl

theorem get_cons_of_key {item : Yaml × Yaml} {key : String} (rest : Mapping)
    (h : item.1.isKey key = true) : get (item :: rest) key = some item.2 := by
  simp [get, h]

theorem get_cons_of_not_key {item : Yaml × Yaml} {key : String} (rest : Mapping)
    (h : ¬ item.1.isKey key = true) : get (item :: rest) key = get rest key := by
  simp [get, h]

theorem get_assign_self (m : Mapping) (key : String) (value : Yaml) :
    get (assign m key value) key = some value := by
  induction m with
  | nil => simp [assign, get]
  | cons item rest ih =>
    unfold assign
    by_cases hkey : item.1.isKey key = true
    · rw [if_pos hkey, @get_cons_of_key (item.1, value) _ _ hkey]
    · rw [if_neg hkey, get_cons_of_not_key _ hkey, ih]

theorem get_assign_ne (m : Mapping) {key key' : String} (hne : key' ≠ key) (value : Yaml) :
    get (assign m key value) key' = get m key' := by
  have hstr : ∀ y : Yaml, y.isKey key = true → ¬ y.isKey key' = true := by
    intro y hy hy'
    cases y with
    | str s => exact hne ((eq_of_beq hy').symm.trans (eq_of_beq hy))
    | list => exact nomatch hy
    | mapping => exact nomatch hy
    | other => exact nomatch hy
  induction m with
  | nil => exact get_cons_of_not_key [] (hstr _ (beq_self_eq_true key))
  | cons item rest ih =>
    unfold assign
    by_cases hkey : item.1.isKey key = true
    · rw [if_pos hkey, @get_cons_of_not_key (item.1, value) _ _ (hstr _ hkey),
        get_cons_of_not_key _ (hstr _ hkey)]
    · rw [if_neg hkey]
      by_cases hkey' : item.1.isKey key' = true
      · rw [get_cons_of_key _ hkey', get_cons_of_key _ hkey']
      · rw [get_cons_of_not_key _ hkey', get_cons_of_not_key _ hkey', ih]

theorem get_setDefault_ne (m : Mapping) {key key' : String} (hne : key' ≠ key) (value : Yaml) :
    get (setDefault m key value) key' = get m key' := by
  unfold setDefault
  cases get m key with
  | some _ => rfl
  | none => exact get_assign_ne m hne value

/-- The defaults do not give a row a campaign. -/
theorem get_withDefaults_campaign (i : Nat) (row : Mapping) :
    get (withDefaults i row) "campaign" = get row "campaign" := by
  unfold withDefaults
  rw [get_setDefault_ne _ (by decide), get_setDefault_ne _ (by decide)]

theorem checkFields_of_foreign {ps : List Piece} (malformed : Bool)
    (h : ∃ piece ∈ ps, piece.field.any Field.foreign = true) :
    checkFields malformed ps = .error (.manifest .invalidTemplate) := by
  induction ps with
  | nil =>
    obtain ⟨_, hmem, _⟩ := h
    exact nomatch hmem
  | cons piece rest ih =>
    unfold checkFields
    by_cases hforeign : piece.field.any Field.foreign = true
    · rw [if_pos hforeign]
    · rw [if_neg hforeign]
      obtain ⟨found, hmem, hfound⟩ := h
      rcases List.mem_cons.mp hmem with rfl | hmem
      · exact absurd hfound hforeign
      · exact ih ⟨found, hmem, hfound⟩

theorem checkFields_of_not_foreign {ps : List Piece} (malformed : Bool)
    (h : ¬ ∃ piece ∈ ps, piece.field.any Field.foreign = true) :
    checkFields malformed ps = if malformed then .error .escapes else .ok () := by
  induction ps with
  | nil => rfl
  | cons piece rest ih =>
    unfold checkFields
    have hpiece : ¬ piece.field.any Field.foreign = true := fun hforeign =>
      h ⟨piece, List.mem_cons_self, hforeign⟩
    rw [if_neg hpiece]
    exact ih fun ⟨found, hmem, hfound⟩ => h ⟨found, List.mem_cons_of_mem _ hmem, hfound⟩

theorem batchCampaignName_of_foreign {template : String} (h : Foreign template)
    (batchId name : List Char) :
    batchCampaignName batchId name template.toList = .error (.manifest .invalidTemplate) := by
  have hcheck : checkFields (parseTemplate template.toList).2
      (parseTemplate template.toList).1 =
      .error (.manifest .invalidTemplate) := checkFields_of_foreign _ h
  unfold batchCampaignName
  simp only [hcheck]

theorem batchCampaignName_of_malformed {template : String} (hforeign : ¬ Foreign template)
    (h : Malformed template) (batchId name : List Char) :
    batchCampaignName batchId name template.toList = .error .escapes := by
  have hcheck : checkFields (parseTemplate template.toList).2
      (parseTemplate template.toList).1 = .error .escapes :=
    (checkFields_of_not_foreign _ hforeign).trans (if_pos h)
  unfold batchCampaignName
  simp only [hcheck]

theorem batchCampaignName_of_fit {template : String} (hforeign : ¬ Foreign template)
    (h : ¬ Malformed template) (batchId name : List Char) :
    batchCampaignName batchId name template.toList =
      if clean (format batchId name (parseTemplate template.toList).1) = [] then
        .error (.manifest .emptyName)
      else .ok (clean (format batchId name (parseTemplate template.toList).1)) := by
  have hcheck : checkFields (parseTemplate template.toList).2
      (parseTemplate template.toList).1 = .ok () :=
    (checkFields_of_not_foreign _ hforeign).trans (if_neg h)
  unfold batchCampaignName
  simp only [hcheck]

theorem fit_defaultNameTemplate :
    ¬ Foreign defaultNameTemplate ∧ ¬ Malformed defaultNameTemplate := by
  have hparse : parseTemplate defaultNameTemplate.toList =
      ([⟨[], some ⟨"name".toList, false, false⟩⟩], false) := by decide
  unfold Foreign Malformed
  rw [hparse]
  decide

/-- With its own `campaign` a row is named by it, whatever the template. -/
theorem format_defaultNameTemplate (batchId name : List Char) :
    format batchId name (parseTemplate defaultNameTemplate.toList).1 = sub name := by
  have hparse : parseTemplate defaultNameTemplate.toList =
      ([⟨[], some ⟨"name".toList, false, false⟩⟩], false) := by decide
  rw [hparse]
  have hname : ¬ "name".toList = "id".toList := by decide
  simp only [format, if_neg hname, List.nil_append, List.append_nil]

variable {repr : Yaml → String} {template : String}

/-- The name of a row whose template is in order. -/
theorem campaignName_of_fit {i : Nat} {row : Mapping}
    (hfit : get row "campaign" = none → ¬ Foreign template ∧ ¬ Malformed template) :
    campaignName repr template (withDefaults i row) =
      if rowName repr template i row = [] then .error (.manifest .emptyName)
      else .ok (rowName repr template i row) := by
  unfold campaignName rowName rowText
  rw [get_withDefaults_campaign]
  cases hcampaign : get row "campaign" with
  | none =>
    obtain ⟨hforeign, hmalformed⟩ := hfit hcampaign
    exact batchCampaignName_of_fit hforeign hmalformed _ _
  | some value =>
    obtain ⟨hforeign, hmalformed⟩ := fit_defaultNameTemplate
    show batchCampaignName _ _ defaultNameTemplate.toList = _
    rw [batchCampaignName_of_fit hforeign hmalformed, format_defaultNameTemplate]

theorem campaignName_of_foreign {i : Nat} {row : Mapping} (hcampaign : get row "campaign" = none)
    (h : Foreign template) :
    campaignName repr template (withDefaults i row) = .error (.manifest .invalidTemplate) := by
  unfold campaignName
  rw [get_withDefaults_campaign, hcampaign]
  exact batchCampaignName_of_foreign h _ _

theorem campaignName_of_malformed {i : Nat} {row : Mapping}
    (hcampaign : get row "campaign" = none) (hforeign : ¬ Foreign template)
    (h : Malformed template) :
    campaignName repr template (withDefaults i row) = .error .escapes := by
  unfold campaignName
  rw [get_withDefaults_campaign, hcampaign]
  exact batchCampaignName_of_malformed hforeign h _ _

/-- What is wrong with the form of a row is reported as such. -/
theorem checkRow_error {i : Nat} {raw : Yaml} {e : LoadError} (h : checkRow i raw = .error e) :
    ∃ m, e = .manifest m := by
  unfold checkRow at h
  split at h
  · split_ifs at h with hname
    · exact ⟨_, (Except.error.inj h).symm⟩
    · simp only at h
      split at h
      · exact ⟨_, (Except.error.inj h).symm⟩
      · exact nomatch h
  · exact ⟨_, (Except.error.inj h).symm⟩

/-- What the loop does with a row. -/
theorem row_cases (i : Nat) (seen : List (List Char)) (raw : Yaml) :
    (Refused repr template seen i raw ∧
      ∃ m, ∀ rows, loadRows repr template i seen (raw :: rows) = .error (.manifest m)) ∨
    (Breaks template i raw ∧
      ∀ rows, loadRows repr template i seen (raw :: rows) = .error .escapes) ∨
    ∃ row, checkRow i raw = .ok row ∧ ¬ Refused repr template seen i raw ∧
      ¬ Breaks template i raw ∧ casefold (rowName repr template i row) ∉ seen ∧
      ∃ entry, ∀ rows, loadRows repr template i seen (raw :: rows) =
        match loadRows repr template (i + 1)
          (seen ++ [casefold (rowName repr template i row)]) rows with
        | .error e => .error e
        | .ok batches => .ok (assign entry "campaign"
            (.str (String.ofList (rowName repr template i row))) :: batches) := by
  cases hrow : checkRow i raw with
  | error e =>
    obtain ⟨m, rfl⟩ := checkRow_error hrow
    refine .inl ⟨.inl ⟨_, hrow⟩, m, fun rows => ?_⟩
    unfold loadRows
    simp only [hrow]
  | ok row =>
    by_cases hforeign : get row "campaign" = none ∧ Foreign template
    · refine .inl ⟨.inr ⟨row, hrow, .inl hforeign⟩, .invalidTemplate, fun rows => ?_⟩
      unfold loadRows
      simp only [hrow, campaignName_of_foreign hforeign.1 hforeign.2]
    by_cases hmalformed : get row "campaign" = none ∧ Malformed template
    · have hno : ¬ Foreign template := fun h => hforeign ⟨hmalformed.1, h⟩
      refine .inr (.inl ⟨⟨row, hrow, hmalformed.1, hno, hmalformed.2⟩, fun rows => ?_⟩)
      unfold loadRows
      simp only [hrow, campaignName_of_malformed hmalformed.1 hno hmalformed.2]
    have hfit : get row "campaign" = none → ¬ Foreign template ∧ ¬ Malformed template :=
      fun hnone => ⟨fun h => hforeign ⟨hnone, h⟩, fun h => hmalformed ⟨hnone, h⟩⟩
    have hname := @campaignName_of_fit repr template i row hfit
    by_cases hempty : rowName repr template i row = []
    · refine .inl ⟨.inr ⟨row, hrow, .inr ⟨hfit, .inl hempty⟩⟩, .emptyName, fun rows => ?_⟩
      unfold loadRows
      simp only [hrow, hname, if_pos hempty]
    rw [if_neg hempty] at hname
    by_cases hseen : casefold (rowName repr template i row) ∈ seen
    · refine .inl ⟨.inr ⟨row, hrow, .inr ⟨hfit, .inr hseen⟩⟩,
        .duplicate (rowName repr template i row), fun rows => ?_⟩
      unfold loadRows
      simp only [hrow, hname, if_pos hseen]
    refine .inr (.inr ⟨row, rfl, ?_, ?_, hseen, withDefaults i row, fun rows => ?_⟩)
    · rintro (⟨e, he⟩ | ⟨row', hrow', hwrong⟩)
      · exact nomatch hrow.symm.trans he
      · obtain rfl := Except.ok.inj (hrow.symm.trans hrow')
        rcases hwrong with hwrong | ⟨-, hwrong | hwrong⟩
        · exact hforeign hwrong
        · exact hempty hwrong
        · exact hseen hwrong
    · intro ⟨row', hrow', hnone, _, hwrong⟩
      obtain rfl := Except.ok.inj (hrow.symm.trans hrow')
      exact hmalformed ⟨hnone, hwrong⟩
    · conv_lhs => unfold loadRows
      simp only [hrow, hname, if_neg hseen]

/-! ## All rows -/

/-- The name an entry is given. -/
def campaignOf (entry : Mapping) : List Char :=
  match get entry "campaign" with
  | some (.str s) => s.toList
  | _ => []

theorem campaignOf_assign (entry : Mapping) (cname : List Char) :
    campaignOf (assign entry "campaign" (.str (String.ofList cname))) = cname := by
  unfold campaignOf
  rw [get_assign_self]
  exact String.toList_ofList

/-- The row at `k` breaks the loop off. -/
def BreaksAt (template : String) (i : Nat) (rows : List Yaml) (k : Nat) : Prop :=
  ∃ raw, rows[k]? = some raw ∧ Breaks template (i + k) raw

/-- The row at `k` is refused, after the rows before it. -/
def RefusedAt (repr : Yaml → String) (template : String) (seen : List (List Char)) (i : Nat)
    (rows : List Yaml) (k : Nat) : Prop :=
  ∃ raw, rows[k]? = some raw ∧
    Refused repr template (seen ++ (spellings repr template i rows).take k) (i + k) raw

theorem breaksAt_succ (i : Nat) (raw : Yaml) (rows : List Yaml) (k : Nat) :
    BreaksAt template i (raw :: rows) (k + 1) ↔ BreaksAt template (i + 1) rows k := by
  unfold BreaksAt
  rw [List.getElem?_cons_succ, Nat.add_right_comm, Nat.add_assoc]

theorem refusedAt_succ {i : Nat} {raw : Yaml} {row : Mapping} (hrow : checkRow i raw = .ok row)
    (seen : List (List Char)) (rows : List Yaml) (k : Nat) :
    RefusedAt repr template seen i (raw :: rows) (k + 1) ↔
      RefusedAt repr template (seen ++ [casefold (rowName repr template i row)]) (i + 1) rows
        k := by
  unfold RefusedAt
  have hspell : spellings repr template i (raw :: rows) =
      casefold (rowName repr template i row) :: spellings repr template (i + 1) rows := by
    conv_lhs => unfold spellings
    simp only [hrow]
  rw [hspell, List.getElem?_cons_succ, List.take_succ_cons, List.append_assoc,
    List.singleton_append, show i + 1 + k = i + (k + 1) by omega]

/-- The names of all rows are there, each for the first time. -/
structure Named (repr : Yaml → String) (template : String) (i : Nat) (seen : List (List Char))
    (rows : List Yaml) (batches : List Mapping) : Prop where
  named : List.Forall₂ (fun (entry : Mapping) (item : Yaml × Nat) =>
    ∃ row, checkRow item.2 item.1 = .ok row ∧
      campaignOf entry = rowName repr template item.2 row) batches (rows.zipIdx i)
  nodup : (batches.map fun entry => casefold (campaignOf entry)).Nodup
  fresh : ∀ entry ∈ batches, casefold (campaignOf entry) ∉ seen

/-- What the loop ends with: the first row that is refused or breaks it off decides. -/
theorem loadRows_cases (i : Nat) (seen : List (List Char)) (rows : List Yaml) :
    (∃ k, RefusedAt repr template seen i rows k ∧ (∀ j < k, ¬ BreaksAt template i rows j) ∧
      ∃ m, loadRows repr template i seen rows = .error (.manifest m)) ∨
    (∃ k, BreaksAt template i rows k ∧ (∀ j < k, ¬ RefusedAt repr template seen i rows j) ∧
      loadRows repr template i seen rows = .error .escapes) ∨
    ((∀ k, ¬ RefusedAt repr template seen i rows k) ∧ (∀ k, ¬ BreaksAt template i rows k) ∧
      ∃ batches, loadRows repr template i seen rows = .ok batches ∧
        Named repr template i seen rows batches) := by
  induction rows generalizing i seen with
  | nil =>
    have hno : ∀ k : Nat, ∀ raw : Yaml, ¬ ([] : List Yaml)[k]? = some raw := by
      intro k raw h
      rw [List.getElem?_nil] at h
      exact nomatch h
    refine .inr (.inr ⟨fun k ⟨raw, hk, _⟩ => hno k raw hk, fun k ⟨raw, hk, _⟩ => hno k raw hk,
      [], rfl, .nil, List.nodup_nil, fun _ h => ?_⟩)
    exact nomatch h
  | cons raw rows ih =>
    have htake : seen ++ (spellings repr template i (raw :: rows)).take 0 = seen := by
      rw [List.take_zero, List.append_nil]
    rcases @row_cases repr template i seen raw with ⟨hrefused, m, hload⟩ | ⟨hbreaks, hload⟩ |
      ⟨row, hrow, hrefused, hbreaks, hfresh, entry, hload⟩
    · exact .inl ⟨0, ⟨raw, rfl, htake.symm ▸ hrefused⟩, fun j hj => absurd hj (Nat.not_lt_zero j),
        m, hload rows⟩
    · exact .inr (.inl ⟨0, ⟨raw, rfl, hbreaks⟩, fun j hj => absurd hj (Nat.not_lt_zero j),
        hload rows⟩)
    have hrefused0 : ¬ RefusedAt repr template seen i (raw :: rows) 0 := by
      intro ⟨raw', hraw, h⟩
      obtain rfl := Option.some.inj hraw
      exact hrefused (htake ▸ h)
    have hbreaks0 : ¬ BreaksAt template i (raw :: rows) 0 := by
      intro ⟨raw', hraw, h⟩
      obtain rfl := Option.some.inj hraw
      exact hbreaks h
    rw [hload rows]
    rcases ih (i + 1) (seen ++ [casefold (rowName repr template i row)]) with
      ⟨k, hk, hbefore, m, heq⟩ | ⟨k, hk, hbefore, heq⟩ | ⟨hnone, hnone', batches, heq, hnamed⟩
    · refine .inl ⟨k + 1, (refusedAt_succ hrow seen rows k).mpr hk, fun j hj => ?_, m, ?_⟩
      · cases j with
        | zero => exact hbreaks0
        | succ j =>
          rw [breaksAt_succ]
          exact hbefore j (Nat.lt_of_succ_lt_succ hj)
      · rw [heq]
    · refine .inr (.inl ⟨k + 1, (breaksAt_succ i raw rows k).mpr hk, fun j hj => ?_, ?_⟩)
      · cases j with
        | zero => exact hrefused0
        | succ j =>
          rw [refusedAt_succ hrow]
          exact hbefore j (Nat.lt_of_succ_lt_succ hj)
      · rw [heq]
    · refine .inr (.inr ⟨fun k => ?_, fun k => ?_, _, by rw [heq], ?_, ?_, ?_⟩)
      · cases k with
        | zero => exact hrefused0
        | succ k =>
          rw [refusedAt_succ hrow]
          exact hnone k
      · cases k with
        | zero => exact hbreaks0
        | succ k =>
          rw [breaksAt_succ]
          exact hnone' k
      · exact .cons ⟨row, hrow, campaignOf_assign _ _⟩ hnamed.named
      · rw [List.map_cons, campaignOf_assign]
        refine List.nodup_cons.mpr ⟨fun hmem => ?_, hnamed.nodup⟩
        obtain ⟨other, hother, hsame⟩ := List.mem_map.mp hmem
        exact hnamed.fresh other hother
          (List.mem_append_right _ (List.mem_singleton.mpr hsame))
      · intro other hother hseen
        rcases List.mem_cons.mp hother with rfl | hother
        · rw [campaignOf_assign] at hseen
          exact hfresh hseen
        · exact hnamed.fresh other hother (List.mem_append_left _ hseen)

/-! ## The names -/

/-- `LOCK_NAME`. -/
def lockName : List Char := ".submit.lock".toList

/-- The name of a directory next to the files of the driver. -/
structure SafeName (cname : List Char) : Prop where
  allowed : ∀ c ∈ cname, disallowed c = false
  not_dot : cname ≠ ['.']
  not_dots : cname ≠ ['.', '.']
  not_summary : cname ≠ summaryName
  not_lock : cname ≠ lockName

theorem allowed_clean (text : List Char) : ∀ c ∈ clean text, disallowed c = false := by
  intro c hc
  rcases mem_squeeze (( strip_infix trimmed (sub text)).subset hc) with rfl | hallowed
  · decide
  · exact hallowed

/-- The summary's name is cleaned up already. -/
theorem disallowed_summaryName : ∀ c ∈ summaryName, disallowed c = false := by
  unfold summaryName
  simp only [List.forall_mem_cons]
  refine ⟨rfl, rfl, rfl, rfl, rfl, rfl, rfl, rfl, rfl, rfl, rfl, rfl, rfl, rfl, rfl, rfl, rfl,
    rfl, rfl, rfl, fun _ h => nomatch h⟩

theorem clean_eq_summaryName_iff (text : List Char) :
    clean text = summaryName ↔ NamesSummary text := by
  have hdash : '-' ∉ summaryName := by simp [summaryName]
  have hends : strip (either disallowed trimmed) summaryName = summaryName :=
    @strip_eq_self Char (either disallowed trimmed) 'b' 'n' summaryName.tail.dropLast rfl rfl
  exact strip_squeeze_eq_iff (by rfl) hdash disallowed_summaryName hends

/-- Of what is cleaned up only the summary's name is not safe. -/
theorem safeName_clean_iff (text : List Char) : SafeName (clean text) ↔ ¬ NamesSummary text := by
  constructor
  · intro hsafe hnames
    exact hsafe.not_summary ((clean_eq_summaryName_iff text).mpr hnames)
  · intro hnames
    have hfirst : ∀ rest, clean text ≠ '.' :: rest := by
      intro rest heq
      have hhead : (clean text).head? = some '.' := by rw [heq]; rfl
      exact absurd (head_strip hhead) (by decide)
    exact
      { allowed := allowed_clean text
        not_dot := hfirst []
        not_dots := hfirst ['.']
        not_summary := fun heq => hnames ((clean_eq_summaryName_iff text).mp heq)
        not_lock := hfirst "submit.lock".toList }

/-- The manifest is refused as one, or its names are safe ones and differ in more than case. -/
def GivesSafeNames : Except LoadError (Mapping × List Mapping) → Prop
  | .error e => ∃ m, e = .manifest m
  | .ok (_, batches) =>
    (batches.map fun entry => casefold (campaignOf entry)).Nodup ∧
      ∀ entry ∈ batches, SafeName (campaignOf entry)

/-- A broken template is only parsed behind a row that is refused, and without such a row none
has the name of the summary. -/
structure WellNamed (repr : Yaml → String) (template : String) (rows : List Yaml) : Prop where
  parsed : ∀ k, BreaksAt template 0 rows k → ∃ j < k, RefusedAt repr template [] 0 rows j
  apart : (∀ k, ¬ RefusedAt repr template [] 0 rows k) →
    ∀ k raw row, rows[k]? = some raw → checkRow k raw = .ok row →
      ¬ NamesSummary (rowText repr template k row)

/-- The rows are such for the template of the manifest, if it comes to them. -/
def Loads (repr : Yaml → String) : Reading → Prop
  | .raises => False
  | .unreadable => True
  | .data value => ∀ data rows common template, value = .mapping data →
      get data "batches" = some (.list rows) → commonOf data = .ok common →
      nameTemplate common = .ok template → WellNamed repr template rows

theorem commonOf_error {data : Mapping} {e : LoadError} (h : commonOf data = .error e) :
    e = .manifest .common := by
  unfold commonOf at h
  split at h
  · exact nomatch h
  · split_ifs at h
    split at h
    · exact nomatch h
    · exact (Except.error.inj h).symm

theorem nameTemplate_error {common : Mapping} {e : LoadError}
    (h : nameTemplate common = .error e) : e = .manifest .template := by
  unfold nameTemplate at h
  split at h
  · exact nomatch h
  · split_ifs at h
    exact (Except.error.inj h).symm
  · exact (Except.error.inj h).symm

/-- A row does not do both. -/
theorem not_refusedAt_of_breaksAt {seen : List (List Char)} {i k : Nat} {rows : List Yaml}
    (h : BreaksAt template i rows k) : ¬ RefusedAt repr template seen i rows k := by
  obtain ⟨raw, hraw, row, hrow, hcampaign, hforeign, hmalformed⟩ := h
  intro ⟨raw', hraw', hrefused⟩
  obtain rfl := Option.some.inj (hraw.symm.trans hraw')
  rcases hrefused with ⟨e, he⟩ | ⟨row', hrow', hwrong⟩
  · exact nomatch hrow.symm.trans he
  · obtain rfl := Except.ok.inj (hrow.symm.trans hrow')
    rcases hwrong with ⟨_, h⟩ | ⟨h, _⟩
    · exact hforeign h
    · exact (h hcampaign).2 hmalformed

/-- The names are safe if the texts they come from do not name the summary. -/
theorem Named.safe_iff {rows : List Yaml} {batches : List Mapping}
    (h : Named repr template 0 [] rows batches) :
    (∀ entry ∈ batches, SafeName (campaignOf entry)) ↔
      ∀ k raw row, rows[k]? = some raw → checkRow k raw = .ok row →
        ¬ NamesSummary (rowText repr template k row) := by
  constructor
  · intro hsafe k raw row hraw hrow
    have hitem : (raw, k) ∈ rows.zipIdx := List.mk_mem_zipIdx_iff_getElem?.mpr hraw
    obtain ⟨entry, hentry, row', hrow', hname⟩ := exists_of_forall₂ h.named.flip _ hitem
    obtain rfl := Except.ok.inj (hrow.symm.trans hrow')
    apply (safeName_clean_iff _).mp
    have hthis := hsafe entry hentry
    rw [hname] at hthis
    exact hthis
  · intro hnames entry hentry
    obtain ⟨⟨raw, k⟩, hitem, row, hrow, hname⟩ := exists_of_forall₂ h.named entry hentry
    have hraw : rows[k]? = some raw := List.mk_mem_zipIdx_iff_getElem?.mp hitem
    rw [hname]
    exact (safeName_clean_iff _).mpr (hnames k raw row hraw hrow)

/-- The rows of a manifest, without the rest. -/
theorem loadRows_gives_iff (rows : List Yaml) :
    (match loadRows repr template 0 [] rows with
      | .error e => ∃ m, e = LoadError.manifest m
      | .ok batches => (batches.map fun entry => casefold (campaignOf entry)).Nodup ∧
          ∀ entry ∈ batches, SafeName (campaignOf entry)) ↔ WellNamed repr template rows := by
  rcases @loadRows_cases repr template 0 [] rows with
    ⟨k, hk, hbefore, m, heq⟩ | ⟨k, hk, hbefore, heq⟩ | ⟨hrefused, hbreaks, batches, heq, hnamed⟩
  · rw [heq]
    refine iff_of_true ⟨m, rfl⟩ ⟨fun j hj => ?_, fun hnone => absurd hk (hnone k)⟩
    rcases Nat.lt_or_ge k j with hless | hge
    · exact ⟨k, hless, hk⟩
    · rcases Nat.lt_or_eq_of_le hge with hless | rfl
      · exact absurd hj (hbefore j hless)
      · exact absurd hk (not_refusedAt_of_breaksAt hj)
  · rw [heq]
    refine iff_of_false (fun ⟨m, hm⟩ => nomatch hm) fun hwell => ?_
    obtain ⟨j, hless, hj⟩ := hwell.parsed k hk
    exact hbefore j hless hj
  · rw [heq]
    show (_ ∧ ∀ entry ∈ batches, SafeName (campaignOf entry)) ↔ _
    rw [hnamed.safe_iff]
    constructor
    · intro ⟨_, hnames⟩
      exact ⟨fun k hk => absurd hk (hbreaks k), fun _ => hnames⟩
    · intro hwell
      exact ⟨hnamed.nodup, hwell.apart hrefused⟩

theorem loadManifest_of_rows {data : Mapping} {rows : List Yaml}
    (h : get data "batches" = some (.list rows)) :
    loadManifest repr (.data (.mapping data)) = loadBatches repr data rows := by
  simp only [loadManifest, h]

theorem loadManifest_of_no_rows {data : Mapping}
    (h : ∀ rows, get data "batches" ≠ some (.list rows)) :
    loadManifest repr (.data (.mapping data)) = .error (.manifest .notMapping) := by
  simp only [loadManifest]

theorem loadBatches_of_template_error {data common : Mapping} {rows : List Yaml} {e : LoadError}
    (hcommon : commonOf data = .ok common) (htemplate : nameTemplate common = .error e) :
    loadBatches repr data rows = .error e := by
  unfold loadBatches
  rw [hcommon]
  show (nameTemplate common >>= _) = _
  rw [htemplate]
  rfl

theorem loadBatches_of_template {data common : Mapping} {rows : List Yaml}
    (hcommon : commonOf data = .ok common) (htemplate : nameTemplate common = .ok template) :
    loadBatches repr data rows =
      match loadRows repr template 0 [] rows with
      | .error e => .error e
      | .ok batches =>
        if batches = [] then .error (.manifest .noBatches) else .ok (common, batches) := by
  unfold loadBatches
  rw [hcommon]
  show (nameTemplate common >>= _) = _
  rw [htemplate]
  show (loadRows repr template 0 [] rows >>= _) = _
  cases loadRows repr template 0 [] rows <;> rfl

theorem loadBatches_gives_iff (data : Mapping) (rows : List Yaml) :
    GivesSafeNames (loadBatches repr data rows) ↔ ∀ common template,
      commonOf data = .ok common → nameTemplate common = .ok template →
      WellNamed repr template rows := by
  cases hcommon : commonOf data with
  | error e =>
    obtain rfl := commonOf_error hcommon
    unfold loadBatches
    rw [hcommon]
    exact iff_of_true ⟨.common, rfl⟩ fun _ _ h => nomatch h
  | ok common =>
    cases htemplate : nameTemplate common with
    | error e =>
      obtain rfl := nameTemplate_error htemplate
      rw [loadBatches_of_template_error hcommon htemplate]
      refine iff_of_true ⟨.template, rfl⟩ fun _ template h h' => ?_
      obtain rfl := Except.ok.inj h
      exact nomatch htemplate.symm.trans h'
    | ok template =>
      have hone : (∀ common' template', (Except.ok common : Except LoadError Mapping) =
          .ok common' → nameTemplate common' = .ok template' → WellNamed repr template' rows) ↔
          WellNamed repr template rows := by
        constructor
        · intro h
          exact h common template rfl htemplate
        · intro h common' template' hcommon' htemplate'
          obtain rfl := Except.ok.inj hcommon'
          obtain rfl := Except.ok.inj (htemplate.symm.trans htemplate')
          exact h
      rw [hone, ← loadRows_gives_iff, loadBatches_of_template hcommon htemplate]
      cases loadRows repr template 0 [] rows with
      | error e => exact Iff.rfl
      | ok batches =>
        cases batches with
        | nil =>
          exact iff_of_true ⟨.noBatches, rfl⟩ ⟨List.nodup_nil, fun _ h => nomatch h⟩
        | cons entry batches => exact Iff.rfl

/-- `load_manifest` gives safe and different names or refuses the manifest, but for three
defects. -/
theorem givesSafeNames_iff (repr : Yaml → String) (reading : Reading) :
    GivesSafeNames (loadManifest repr reading) ↔ Loads repr reading := by
  match reading with
  | .unreadable => exact iff_of_true ⟨_, rfl⟩ trivial
  | .raises => exact iff_of_false (fun ⟨m, hm⟩ => nomatch hm) id
  | .data (.str _) | .data (.list _) | .data (.other _ _) =>
    exact iff_of_true ⟨_, rfl⟩ fun data rows common template hvalue => nomatch hvalue
  | .data (.mapping data) =>
    have hloads : Loads repr (.data (.mapping data)) ↔ ∀ rows,
        get data "batches" = some (.list rows) → ∀ common template, commonOf data = .ok common →
        nameTemplate common = .ok template → WellNamed repr template rows := by
      constructor
      · intro h rows hrows common template
        exact h data rows common template rfl hrows
      · intro h data' rows common template hvalue hrows
        obtain rfl := Yaml.mapping.inj hvalue
        exact h rows hrows common template
    rw [hloads]
    by_cases hrows : ∃ rows, get data "batches" = some (.list rows)
    · obtain ⟨rows, hrows⟩ := hrows
      rw [loadManifest_of_rows hrows, loadBatches_gives_iff]
      constructor
      · intro h rows' hrows'
        obtain rfl := Yaml.list.inj (Option.some.inj (hrows.symm.trans hrows'))
        exact h
      · intro h
        exact h rows hrows
    · rw [loadManifest_of_no_rows fun rows h => hrows ⟨rows, h⟩]
      exact iff_of_true ⟨.notMapping, rfl⟩ fun rows h => absurd ⟨rows, h⟩ hrows

/-- A template whose brace is not closed leaves the loader with an exception of its own. -/
theorem open_brace_escapes : ¬ GivesSafeNames (loadManifest (fun _ => "")
    (.data (.mapping
      [(.str "common", .mapping [(.str "name_template", .str "\x7b")]),
        (.str "batches", .list [.mapping [(.str "name", .str "a")]])]))) := by
  intro ⟨m, hm⟩
  exact nomatch hm

end OSimFlow.Campaign.BatchManifest
