import OSimFlow.Lib.Dict
import OSimFlow.Lib.PosixPath
import OSimFlow.Lib.Strip
import OSimFlow.Lib.Succeeds

/-!
# Weather files before and during a campaign

Before the samples are applied, the preflight looks for every file that the mapping of an
`epw_file` variable names, and checks that it is a weather file. For each sample, the
resolver takes the value of the variable, or the override of the sample, and injects the
file that is mapped to it.

> `good_of_preflight`: a file that is mapped can be found and is a weather file.
>
> `resolves_iff`: behind a preflight that passes, a sample resolves to such a file exactly if
> its override is one, or every variable with a value in the sample has a mapping with an
> entry for the value. The label of a categorical variable is a string, and is not found
> where the keys of the mapping are numbers.

YAML values and what JSON makes of them are of one type; a mapping is the list of its
items.
-/

namespace OSimFlow.Campaign.WeatherPreflight

open OSimFlow.Lib (Dict PosixPath strip mapM_ok_mem forall₂_of_mapM_ok bind_eq_ok)

/-! ## YAML -/

/-- A YAML value, with floats in `F`. -/
inductive Yaml (F : Type) where
  | null
  | bool (b : Bool)
  | int (n : Int)
  | float (x : F)
  | str (s : String)
  /-- A date or a time, as it is written. -/
  | date (iso : String)
  | seq (items : List (Yaml F))
  | map (items : List (Yaml F × Yaml F))

/-- What is used of Python's floats and strings: the integer that a float equals, `==`,
`str(v)`, and what `strip` takes for white space. -/
structure Python (F : Type) where
  whole : F → Option Int
  eq : F → F → Bool
  str : Yaml F → String
  isSpace : Char → Bool

/-- How a preflight or a resolution raises. -/
inductive Raised where
  | fileNotFoundError
  | epwValidationError
  | attributeError
  | keyError
  | typeError
  | valueError
deriving DecidableEq

variable {F : Type} (py : Python F)

/-- A number, as an integer where it is one; `True` is 1. -/
def number : Yaml F → Option (F ⊕ Int)
  | .bool b => some (.inr (if b then 1 else 0))
  | .int n => some (.inr n)
  | .float x => some (match py.whole x with
    | some n => .inr n
    | none => .inl x)
  | _ => none

/-- `==` of two keys. -/
def keyEq (a b : Yaml F) : Bool :=
  match a, b with
  | .null, .null => true
  | .str s, .str t => s = t
  | .date s, .date t => s = t
  | a, b =>
    match number py a, number py b with
    | some (.inr m), some (.inr n) => m = n
    | some (.inl x), some (.inl y) => py.eq x y
    | _, _ => false

def hashable : Yaml F → Bool
  | .seq _ | .map _ => false
  | _ => true

/-- The value under a key. -/
def lookup (items : List (Yaml F × Yaml F)) (key : Yaml F) : Option (Yaml F) :=
  (items.find? fun item => keyEq py item.1 key).map Prod.snd

/-- `v.get(key)`. -/
def get (v key : Yaml F) : Except Raised (Option (Yaml F)) :=
  match v with
  | .map items => if hashable key then .ok (lookup py items key) else .error .typeError
  | _ => .error .attributeError

/-- `var["name"]`. -/
def nameOf (var : Yaml F) : Except Raised (Yaml F) :=
  match var with
  | .map items => match lookup py items (.str "name") with
    | some name => .ok name
    | none => .error .keyError
  | _ => .error .typeError

/-! ## The template package -/

/-- The package and the configuration, with what the file system has there. -/
structure Package (F : Type) where
  templateDir : PosixPath
  weatherDir : String
  isFile : PosixPath → Bool
  /-- The first line; `None` where the file is empty or cannot be read. -/
  firstLine : PosixPath → Option (List Char)
  /-- `None` where the file cannot be read, or is no JSON. -/
  readJson : PosixPath → Option (Yaml F)
  resolve : PosixPath → PosixPath
  /-- `sorted(directory.glob("*.epw"))`, empty where there is no directory. -/
  epwFiles : PosixPath → List PosixPath

variable (pkg : Package F)

/-- `p.is_relative_to(root)`. -/
def isRelativeTo (p root : PosixPath) : Bool := root.parts.isPrefixOf p.parts

/-- The entries of `file_paths` in `workflow.osw` that stay in the package. -/
def filePaths : List PosixPath :=
  let osw := pkg.templateDir.div "workflow.osw".toList
  if pkg.isFile osw then
    match pkg.readJson osw with
    | some (.map items) =>
      match lookup py items (.str "file_paths") with
      | some (.seq paths) =>
        let root := pkg.resolve pkg.templateDir
        paths.filterMap fun p =>
          match p with
          | .str p =>
            if p ≠ "" ∧ isRelativeTo (pkg.resolve (root.div p.toList)) root then
              some (pkg.templateDir.div p.toList)
            else none
          | _ => none
      | _ => []
    | _ => []
  else []

/-- `weather_search_dirs`. -/
def weatherSearchDirs : List PosixPath :=
  let dirs := pkg.templateDir :: filePaths py pkg ++
    [pkg.templateDir.div "files".toList, pkg.templateDir.div pkg.weatherDir.toList]
  dirs.foldl (fun unique d => if d ∈ unique then unique else unique ++ [d]) []

/-- `find_weather_file`. -/
def findWeatherFile (rel : String) : Option PosixPath :=
  let candidate := PosixPath.parse rel.toList
  if candidate.root ≠ .relative then
    if pkg.isFile candidate then some candidate else none
  else ((weatherSearchDirs py pkg).map fun base => base.div rel.toList).find? pkg.isFile

/-- `validate_epw`. -/
def validateEpw (path : PosixPath) : Bool :=
  pkg.isFile path && match pkg.firstLine path with
    | none => false
    | some line => "LOCATION".toList.isPrefixOf (strip py.isSpace line)

/-! ## The preflight -/

/-- `var.get("target") == "epw_file"`. -/
def isEpwFile : Option (Yaml F) → Bool
  | some (.str s) => s = "epw_file"
  | _ => false

/-- `collect_epw_mappings`. -/
def collectEpwMappings :
    List (Yaml F) → Except Raised (List (Yaml F × List (Yaml F × Yaml F)))
  | [] => .ok []
  | var :: defs => do
    let target ← get py var (.str "target")
    if isEpwFile target then
      match ← get py var (.str "mapping") with
      | some (.map (item :: items)) =>
        let name ← nameOf py var
        let rest ← collectEpwMappings defs
        return (name, item :: items) :: rest
      | _ => collectEpwMappings defs
    else collectEpwMappings defs

/-- `_check_epw_existence`. -/
def checkEpwExistence (mappings : List (Yaml F × List (Yaml F × Yaml F))) : Except Raised Unit :=
  if mappings.all fun m => m.2.all fun item => (findWeatherFile py pkg (py.str item.2)).isSome then
    .ok ()
  else .error .fileNotFoundError

/-- `_check_osw_weather_file`. -/
def checkOswWeatherFile : Except Raised (Option PosixPath) :=
  let osw := pkg.templateDir.div "workflow.osw".toList
  if pkg.isFile osw then
    match pkg.readJson osw with
    | some (.map items) =>
      match lookup py items (.str "weather_file") with
      | some (.str weather) =>
        if strip py.isSpace weather.toList = [] then .ok none
        else match findWeatherFile py pkg weather with
          | some found => .ok (some found)
          | none => .error .fileNotFoundError
      | _ => .ok none
    | _ => .ok none
  else .ok none

/-- `_check_epw_format`. -/
def checkEpwFormat (mappings : List (Yaml F × List (Yaml F × Yaml F))) (extra : List PosixPath) :
    Except Raised Unit :=
  let mapped := mappings.flatMap fun m => m.2.map fun item =>
    (findWeatherFile py pkg (py.str item.2)).getD
      (pkg.templateDir.div (py.str item.2).toList)
  let discovered := pkg.epwFiles (pkg.templateDir.div pkg.weatherDir.toList)
  if (extra ++ mapped ++ discovered).all (validateEpw py pkg) then .ok ()
  else .error .epwValidationError

/-- `preflight_validate_epw_files`. -/
def preflightValidateEpwFiles (defs : List (Yaml F)) (oswWeatherReplaced : Bool) :
    Except Raised Unit := do
  let mappings ← collectEpwMappings py defs
  checkEpwExistence py pkg mappings
  let oswWeather ←
    (if oswWeatherReplaced || !mappings.isEmpty then .ok none else checkOswWeatherFile py pkg)
  checkEpwFormat py pkg mappings oswWeather.toList

/-! ## The samples -/

/-- `params.get(name)`. -/
def valueOf (params : Dict String (Yaml F)) (name : Yaml F) : Except Raised (Option (Yaml F)) :=
  match name with
  | .str s => .ok (params.get? s)
  | .seq _ | .map _ => .error .typeError
  | _ => .ok none

/-- The label of a structured value, or the value. -/
def labelOf (raw : Yaml F) : Yaml F :=
  match raw with
  | .map items => (lookup py items (.str "label")).getD raw
  | raw => raw

/-- The path that a variable injects, if it has a value in the sample. -/
def injectedBy (params : Dict String (Yaml F)) (var : Yaml F) : Except Raised (Option String) := do
  let name ← nameOf py var
  let mapping := (← get py var (.str "mapping")).getD (.map [])
  match ← valueOf params name with
  | none | some .null => return none
  | some raw =>
    match ← get py mapping (labelOf py raw) with
    | none | some .null => .error .valueError
    | some path => return some (py.str path)

/-- The variables with `target: epw_file`. -/
def epwVars : List (Yaml F) → Except Raised (List (Yaml F))
  | [] => .ok []
  | var :: defs => do
    let target ← get py var (.str "target")
    let rest ← epwVars defs
    return if isEpwFile target then var :: rest else rest

/-- The paths that are injected, one over the other. -/
def injections (params : Dict String (Yaml F)) (defs : List (Yaml F))
    (weatherFileOverride : Option String) : Except Raised (List String) :=
  match weatherFileOverride.filter fun path => path ≠ "" with
  | some path => .ok [path]
  | none => do
    let paths ← (← epwVars py defs).mapM (injectedBy py params)
    return paths.reduceOption

/-- `resolve_epw_targets`. -/
def resolveEpwTargets (params : Dict String (Yaml F)) (defs : List (Yaml F))
    (weatherFileOverride : Option String) : Except Raised (Dict String (Yaml F)) := do
  let paths ← injections py params defs weatherFileOverride
  return paths.foldl (fun resolved path => resolved.set "__epw_file__" (.str path)) params

/-! ## Soundness -/

/-- A path that is found in the package, as a weather file. -/
def Accepted (path : String) : Prop :=
  ∃ file, findWeatherFile py pkg path = some file ∧ validateEpw py pkg file = true

/-- Behind a preflight that passes, the sample is resolved, and what is injected last is
accepted. -/
def Sound (defs : List (Yaml F)) (oswWeatherReplaced : Bool) (params : Dict String (Yaml F))
    (weatherFileOverride : Option String) : Prop :=
  preflightValidateEpwFiles py pkg defs oswWeatherReplaced = .ok () →
    ∃ paths resolved, injections py params defs weatherFileOverride = .ok paths ∧
      resolveEpwTargets py params defs weatherFileOverride = .ok resolved ∧
      ∀ path, paths.getLast? = some path →
        (∃ value, resolved.get? "__epw_file__" = some value ∧ value = .str path) ∧
          Accepted py pkg path

/-- An `epw_file` variable that has no value in the sample, or a mapping with an entry for
its label. -/
def Mapped (params : Dict String (Yaml F)) (var : Yaml F) : Prop :=
  ∃ name raw, nameOf py var = .ok name ∧ valueOf params name = .ok raw ∧
    ((raw = none ∨ raw = some .null) ∨
      ∃ value items path, raw = some value ∧ get py var (.str "mapping") = .ok (some (.map items)) ∧
        hashable (labelOf py value) = true ∧ lookup py items (labelOf py value) = some path ∧
        path ≠ .null)

/-- `target: epw_file`. -/
def IsEpwVar (var : Yaml F) : Prop :=
  ∃ target, get py var (.str "target") = .ok target ∧ isEpwFile target = true

/-- The override is a weather file of the package, or there is none and every `epw_file`
variable is mapped. -/
def Resolvable (defs : List (Yaml F)) (params : Dict String (Yaml F))
    (weatherFileOverride : Option String) : Prop :=
  match weatherFileOverride.filter fun path => path ≠ "" with
  | some path => Accepted py pkg path
  | none => ∀ var ∈ defs, IsEpwVar py var → Mapped py params var

section

variable {py pkg} {defs : List (Yaml F)} {params : Dict String (Yaml F)}

/-! ### What the preflight has seen -/

/-- A variable with a mapping is collected. -/
theorem mem_collect {mappings : List (Yaml F × List (Yaml F × Yaml F))}
    (h : collectEpwMappings py defs = .ok mappings) {var : Yaml F} (hvar : var ∈ defs)
    (hepw : IsEpwVar py var) {items : List (Yaml F × Yaml F)} (hne : items ≠ [])
    (hmapping : get py var (.str "mapping") = .ok (some (.map items))) :
    ∃ name, (name, items) ∈ mappings := by
  induction defs generalizing mappings with
  | nil => exact absurd hvar List.not_mem_nil
  | cons head defs ih =>
    rw [collectEpwMappings] at h
    obtain ⟨target, htarget, h⟩ := bind_eq_ok.mp h
    rcases List.mem_cons.mp hvar with rfl | hvar
    · obtain ⟨target', htarget', hepw⟩ := hepw
      obtain rfl := Except.ok.inj (htarget.symm.trans htarget')
      rw [if_pos hepw] at h
      obtain ⟨item, items, rfl⟩ := List.exists_cons_of_ne_nil hne
      rw [hmapping] at h
      obtain ⟨mapping, hget, h⟩ := bind_eq_ok.mp h
      obtain rfl := Except.ok.inj hget
      obtain ⟨name, -, h⟩ := bind_eq_ok.mp h
      obtain ⟨rest, -, h⟩ := bind_eq_ok.mp h
      obtain rfl := Except.ok.inj h
      exact ⟨name, List.mem_cons_self⟩
    · split at h
      next =>
        obtain ⟨mapping, -, h⟩ := bind_eq_ok.mp h
        split at h
        next =>
          obtain ⟨name, -, h⟩ := bind_eq_ok.mp h
          obtain ⟨rest, hrest, h⟩ := bind_eq_ok.mp h
          obtain rfl := Except.ok.inj h
          obtain ⟨name', hmem⟩ := ih hrest hvar
          exact ⟨name', List.mem_cons_of_mem _ hmem⟩
        next => exact ih h hvar
      next => exact ih h hvar

/-- Every variable can be asked for its target. -/
theorem epwVars_of_collect {mappings : List (Yaml F × List (Yaml F × Yaml F))}
    (h : collectEpwMappings py defs = .ok mappings) :
    ∃ vars, epwVars py defs = .ok vars ∧
      ∀ var, var ∈ vars ↔ var ∈ defs ∧ IsEpwVar py var := by
  induction defs generalizing mappings with
  | nil => exact ⟨[], rfl, fun var => by simp⟩
  | cons head defs ih =>
    rw [collectEpwMappings] at h
    obtain ⟨target, htarget, h⟩ := bind_eq_ok.mp h
    have hrest : ∃ rest, collectEpwMappings py defs = .ok rest := by
      split at h
      next =>
        obtain ⟨mapping, -, h⟩ := bind_eq_ok.mp h
        split at h
        next =>
          obtain ⟨name, -, h⟩ := bind_eq_ok.mp h
          obtain ⟨rest, hrest, -⟩ := bind_eq_ok.mp h
          exact ⟨rest, hrest⟩
        next => exact ⟨_, h⟩
      next => exact ⟨_, h⟩
    obtain ⟨rest, hrest⟩ := hrest
    obtain ⟨vars, hvars, hmem⟩ := ih hrest
    have hhead : IsEpwVar py head ↔ isEpwFile target = true := by
      constructor
      · intro hepw
        obtain ⟨target', htarget', hepw⟩ := hepw
        obtain rfl := Except.ok.inj (htarget.symm.trans htarget')
        exact hepw
      · exact fun hepw => ⟨target, htarget, hepw⟩
    rw [epwVars, htarget, hvars]
    refine ⟨_, rfl, fun var => ?_⟩
    by_cases hepw : isEpwFile target = true
    · rw [if_pos hepw, List.mem_cons, hmem, List.mem_cons]
      constructor
      · intro hvar
        rcases hvar with rfl | hvar
        · exact ⟨.inl rfl, hhead.mpr hepw⟩
        · exact ⟨.inr hvar.1, hvar.2⟩
      · intro hvar
        exact hvar.1.imp id fun hin => ⟨hin, hvar.2⟩
    · rw [if_neg hepw, hmem, List.mem_cons]
      constructor
      · exact fun hvar => ⟨.inr hvar.1, hvar.2⟩
      · intro hvar
        obtain ⟨hin, hvar⟩ := hvar
        refine ⟨hin.resolve_left fun heq => ?_, hvar⟩
        rw [heq] at hvar
        exact hepw (hhead.mp hvar)

theorem collect_of_preflight {replaced : Bool}
    (h : preflightValidateEpwFiles py pkg defs replaced = .ok ()) :
    ∃ mappings, collectEpwMappings py defs = .ok mappings ∧
      ∀ m ∈ mappings, ∀ item ∈ m.2, Accepted py pkg (py.str item.2) := by
  rw [preflightValidateEpwFiles] at h
  obtain ⟨mappings, hmappings, h⟩ := bind_eq_ok.mp h
  obtain ⟨_, hexist, h⟩ := bind_eq_ok.mp h
  obtain ⟨oswWeather, -, hformat⟩ := bind_eq_ok.mp h
  refine ⟨mappings, hmappings, fun m hm item hitem => ?_⟩
  rw [checkEpwExistence] at hexist
  rw [checkEpwFormat] at hformat
  split at hexist
  next hall =>
    split at hformat
    next hvalid =>
      obtain ⟨file, hfile⟩ := Option.isSome_iff_exists.mp
        (List.all_eq_true.mp (List.all_eq_true.mp hall m hm) item hitem)
      refine ⟨file, hfile, List.all_eq_true.mp hvalid file ?_⟩
      refine List.mem_append_left _ (List.mem_append_right _ ?_)
      refine List.mem_flatMap.mpr ⟨m, hm, List.mem_map.mpr ⟨item, hitem, ?_⟩⟩
      rw [hfile]
      rfl
    next => cases hformat
  next => cases hexist

/-- A file that is mapped is found, and is a weather file. -/
theorem accepted_of_preflight {replaced : Bool}
    (h : preflightValidateEpwFiles py pkg defs replaced = .ok ()) {var : Yaml F}
    (hvar : var ∈ defs) (hepw : IsEpwVar py var) {items : List (Yaml F × Yaml F)}
    (hmapping : get py var (.str "mapping") = .ok (some (.map items))) {item : Yaml F × Yaml F}
    (hitem : item ∈ items) : Accepted py pkg (py.str item.2) := by
  obtain ⟨mappings, hcollect, hall⟩ := collect_of_preflight h
  obtain ⟨name, hmem⟩ := mem_collect hcollect hvar hepw (List.ne_nil_of_mem hitem) hmapping
  exact hall _ hmem item hitem

/-! ### What a variable injects -/

/-- An entry that is found is one of the items. -/
theorem mem_of_lookup {items : List (Yaml F × Yaml F)} {key value : Yaml F}
    (h : lookup py items key = some value) : ∃ item ∈ items, item.2 = value := by
  rw [lookup, Option.map_eq_some_iff] at h
  obtain ⟨item, hitem, hvalue⟩ := h
  exact ⟨item, List.mem_of_find?_eq_some hitem, hvalue⟩

/-- What has a target is a mapping, and can be asked for the others. -/
theorem get_of_isEpwVar {var : Yaml F} (h : IsEpwVar py var) :
    ∃ mapping, get py var (.str "mapping") = .ok mapping := by
  obtain ⟨target, htarget, -⟩ := h
  cases var with
  | map items => exact ⟨_, rfl⟩
  | _ => cases htarget

/-- A variable injects a path of its mapping, or nothing. -/
theorem mapped_of_injectedBy {var : Yaml F} {injected : Option String}
    (h : injectedBy py params var = .ok injected) :
    Mapped py params var ∧ ∀ path, injected = some path →
      ∃ items, get py var (.str "mapping") = .ok (some (.map items)) ∧
        ∃ item ∈ items, path = py.str item.2 := by
  rw [injectedBy] at h
  obtain ⟨name, hname, h⟩ := bind_eq_ok.mp h
  obtain ⟨mapping, hmapping, h⟩ := bind_eq_ok.mp h
  obtain ⟨raw, hraw, h⟩ := bind_eq_ok.mp h
  split at h
  next =>
    obtain rfl := Except.ok.inj h
    exact ⟨⟨name, none, hname, hraw, .inl (.inl rfl)⟩, fun _ hpath => (nomatch hpath)⟩
  next =>
    obtain rfl := Except.ok.inj h
    exact ⟨⟨name, some .null, hname, hraw, .inl (.inr rfl)⟩, fun _ hpath => (nomatch hpath)⟩
  next value _ =>
    obtain ⟨entry, hentry, h⟩ := bind_eq_ok.mp h
    -- only a mapping has a `get`, and the empty one that stands for none has no entry
    have hmap : ∃ items, mapping = some (.map items) ∧ hashable (labelOf py value) = true ∧
        entry = lookup py items (labelOf py value) ∨ entry = none := by
      cases mapping with
      | none =>
        rw [Option.getD_none, get] at hentry
        split at hentry
        next => exact ⟨[], .inr (Except.ok.inj hentry).symm⟩
        next => cases hentry
      | some m =>
        cases m with
        | map items =>
          rw [Option.getD_some, get] at hentry
          split at hentry
          next hhash => exact ⟨items, .inl ⟨rfl, hhash, (Except.ok.inj hentry).symm⟩⟩
          next => cases hentry
        | _ => cases hentry
    obtain ⟨items, hfound⟩ := hmap
    split at h
    next => cases h
    next => cases h
    next path hpath =>
      obtain rfl := Except.ok.inj h
      rcases hfound with ⟨rfl, hhash, hlookup⟩ | hnone
      · have hentry' := hlookup.symm.trans rfl
        refine ⟨⟨name, some value, hname, hraw, .inr ⟨value, items, path, rfl, hmapping, hhash,
          hentry', fun hnull => ?_⟩⟩, fun text htext => ⟨items, hmapping, ?_⟩⟩
        · exact hpath hnull
        · obtain ⟨item, hitem, hvalue⟩ := mem_of_lookup hentry'
          exact ⟨item, hitem, by rw [hvalue]; exact (Option.some.inj htext).symm⟩
      · cases hnone

/-- A variable that is mapped raises nothing. -/
theorem injectedBy_of_mapped {var : Yaml F} (hepw : IsEpwVar py var)
    (h : Mapped py params var) : ∃ injected, injectedBy py params var = .ok injected := by
  obtain ⟨mapping, hmapping⟩ := get_of_isEpwVar hepw
  obtain ⟨name, raw, hname, hraw, hcase⟩ := h
  rw [injectedBy, hname, hmapping]
  show ∃ injected, (valueOf params name >>= _) = Except.ok injected
  rw [hraw]
  rcases hcase with (rfl | rfl) | ⟨value, items, path, rfl, hitems, hhash, hlookup, hnull⟩
  · exact ⟨none, rfl⟩
  · exact ⟨none, rfl⟩
  · obtain rfl := Except.ok.inj (hmapping.symm.trans hitems)
    have hget : get py (.map items) (labelOf py value) = .ok (some path) := by
      rw [get, if_pos hhash, hlookup]
    have hentry : ∃ injected, (get py (.map items) (labelOf py value) >>= fun entry =>
        match entry with
        | none | some .null => Except.error Raised.valueError
        | some path => pure (some (py.str path))) = .ok injected := by
      rw [hget]
      cases path with
      | null => exact absurd rfl hnull
      | _ => exact ⟨_, rfl⟩
    cases value with
    | null => exact ⟨none, rfl⟩
    | _ => exact hentry

/-! ## When a sample resolves -/

theorem resolve_of_injections {override : Option String} {paths : List String}
    (h : injections py params defs override = .ok paths) :
    resolveEpwTargets py params defs override =
      .ok (paths.foldl (fun resolved path => resolved.set "__epw_file__" (.str path)) params) := by
  rw [resolveEpwTargets, h]
  rfl

/-- The path that is injected last is what the sample has. -/
theorem get?_injected {paths : List String} {path : String} (h : paths.getLast? = some path) :
    (paths.foldl (fun resolved path => resolved.set "__epw_file__" (.str path)) params).get?
      "__epw_file__" = some (.str path) := by
  obtain ⟨before, rfl⟩ := List.getLast?_eq_some_iff.mp h
  rw [List.foldl_append, List.foldl_cons, List.foldl_nil, Dict.get?_set_self]

variable (py defs params) in
/-- An override is injected whatever it is. -/
theorem injections_override {override : Option String} {path : String}
    (h : (override.filter fun path => path ≠ "") = some path) :
    injections py params defs override = .ok [path] := by
  rw [injections, h]

theorem injections_of_mapped {replaced : Bool} {override : Option String}
    (hpreflight : preflightValidateEpwFiles py pkg defs replaced = .ok ())
    (hnone : (override.filter fun path => path ≠ "") = none)
    (h : ∀ var ∈ defs, IsEpwVar py var → Mapped py params var) :
    ∃ paths, injections py params defs override = .ok paths ∧
      ∀ path ∈ paths, Accepted py pkg path := by
  obtain ⟨mappings, hcollect, -⟩ := collect_of_preflight hpreflight
  obtain ⟨vars, hvars, hmem⟩ := epwVars_of_collect hcollect
  have hall : ∀ var ∈ vars, ∃ injected, injectedBy py params var = .ok injected := by
    intro var hvar
    obtain ⟨hin, hepw⟩ := (hmem var).mp hvar
    exact injectedBy_of_mapped hepw (h var hin hepw)
  have hmapM : ∃ paths, vars.mapM (injectedBy py params) = .ok paths := by
    clear hmem hvars
    induction vars with
    | nil => exact ⟨[], rfl⟩
    | cons var vars ih =>
      obtain ⟨injected, hinjected⟩ := hall var List.mem_cons_self
      obtain ⟨paths, hpaths⟩ := ih fun v hv => hall v (List.mem_cons_of_mem _ hv)
      rw [List.mapM_cons, hinjected]
      show ∃ r, (List.mapM _ vars >>= _) = Except.ok r
      rw [hpaths]
      exact ⟨_, rfl⟩
  obtain ⟨paths, hpaths⟩ := hmapM
  refine ⟨paths.reduceOption, ?_, fun path hpath => ?_⟩
  · rw [injections, hnone, hvars]
    show (List.mapM (injectedBy py params) vars >>= _) = _
    rw [hpaths]
    rfl
  · obtain ⟨var, hvar, hinjected⟩ := mapM_ok_mem hpaths _ (List.reduceOption_mem_iff.mp hpath)
    obtain ⟨hin, hepw⟩ := (hmem var).mp hvar
    obtain ⟨items, hmapping, item, hitem, rfl⟩ := (mapped_of_injectedBy hinjected).2 path rfl
    exact accepted_of_preflight hpreflight hin hepw hmapping hitem

theorem mapped_of_injections {replaced : Bool} {override : Option String} {paths : List String}
    (hpreflight : preflightValidateEpwFiles py pkg defs replaced = .ok ())
    (hnone : (override.filter fun path => path ≠ "") = none)
    (h : injections py params defs override = .ok paths) :
    ∀ var ∈ defs, IsEpwVar py var → Mapped py params var := by
  obtain ⟨mappings, hcollect, -⟩ := collect_of_preflight hpreflight
  obtain ⟨vars, hvars, hmem⟩ := epwVars_of_collect hcollect
  rw [injections, hnone, hvars] at h
  obtain ⟨vars', hsame, h⟩ := bind_eq_ok.mp h
  obtain rfl := Except.ok.inj hsame
  obtain ⟨injected, hinjected, -⟩ := bind_eq_ok.mp h
  intro var hvar hepw
  obtain ⟨r, -, hr⟩ := OSimFlow.Lib.exists_of_forall₂ (forall₂_of_mapM_ok hinjected) var
    ((hmem var).mpr ⟨hvar, hepw⟩)
  exact (mapped_of_injectedBy hr).1

end

/-- Behind a preflight that passes, a sample is sound exactly if it is resolvable. -/
theorem resolves_iff (defs : List (Yaml F)) (oswWeatherReplaced : Bool)
    (params : Dict String (Yaml F)) (weatherFileOverride : Option String) :
    Sound py pkg defs oswWeatherReplaced params weatherFileOverride ↔
      (preflightValidateEpwFiles py pkg defs oswWeatherReplaced = .ok () →
        Resolvable py pkg defs params weatherFileOverride) := by
  rw [Sound]
  refine imp_congr_right fun hpreflight => ?_
  rw [Resolvable]
  cases hoverride : weatherFileOverride.filter fun path => path ≠ "" with
  | some path =>
    have hpaths := injections_override py defs params hoverride
    constructor
    · intro h
      obtain ⟨paths, resolved, hinjections, -, hlast⟩ := h
      obtain rfl := Except.ok.inj (hpaths.symm.trans hinjections)
      exact (hlast path rfl).2
    · intro h
      refine ⟨_, _, hpaths, resolve_of_injections hpaths, fun path' hpath' => ?_⟩
      obtain rfl : path = path' := Option.some.inj hpath'
      exact ⟨⟨_, get?_injected rfl, rfl⟩, h⟩
  | none =>
    constructor
    · intro h
      obtain ⟨paths, resolved, hinjections, -, -⟩ := h
      exact mapped_of_injections hpreflight hoverride hinjections
    · intro h
      obtain ⟨paths, hinjections, haccepted⟩ := injections_of_mapped hpreflight hoverride h
      refine ⟨paths, _, hinjections, resolve_of_injections hinjections, fun path hlast => ?_⟩
      exact ⟨⟨_, get?_injected hlast, rfl⟩, haccepted path (List.mem_of_getLast? hlast)⟩

/-! ## A label that is no key -/

/-- A value that a variable with the fields `spec` can be sampled with. -/
inductive Draws (py : Python F) : List (Yaml F × Yaml F) → Yaml F → Prop where
  | static {spec : List (Yaml F × Yaml F)} {value : Yaml F} :
    lookup py spec (.str "distribution") = some (.str "static") →
    lookup py spec (.str "value") = some value → value ≠ .null → Draws py spec value
  | discrete {spec values : List _} {value : Yaml F} :
    lookup py spec (.str "distribution") = some (.str "discrete") →
    lookup py spec (.str "values") = some (.seq values) → value ∈ values → Draws py spec value
  /-- The label is the value as a string. -/
  | categorical {spec : List (Yaml F × Yaml F)} {values : List (Yaml F)} {value : Yaml F}
    {index : Nat} {more : List (Yaml F × Yaml F)} :
    lookup py spec (.str "distribution") = some (.str "categorical") →
    lookup py spec (.str "values") = some (.seq values) → values[index]? = some value →
    (∀ item ∈ more, keyEq py item.1 (.str "mapping") = true) →
    Draws py spec (.map ((.str "label", .str (py.str value)) :: (.str "index", .int index) :: more))
  /-- The other distributions give floats. -/
  | continuous {spec : List (Yaml F × Yaml F)} {distribution : String} {x : F} :
    lookup py spec (.str "distribution") = some (.str distribution) →
    distribution ∈ ["uniform", "normal", "lognormal", "triangular", "beta", "gamma",
      "exponential"] → Draws py spec (.float x)
  | conditional {spec conditions sub : List (Yaml F × Yaml F)} {key value : Yaml F} :
    lookup py spec (.str "distribution") = some (.str "conditional") →
    lookup py spec (.str "conditions") = some (.map conditions) → (key, .map sub) ∈ conditions →
    Draws py sub value → Draws py spec value

/-- A sample drawn from the definitions. -/
def Drawn (defs : List (Yaml F)) (params : Dict String (Yaml F)) : Prop :=
  List.Forall₂ (fun var item => ∃ spec, var = .map spec ∧
    lookup py spec (.str "name") = some (.str item.1) ∧ Draws py spec item.2) defs params.items

/-- Python, without floats. -/
def noFloats : Python Empty where
  whole x := x.elim
  eq x := x.elim
  str
    | .int n => toString n
    | .str s => s
    | _ => ""
  isSpace c := c = ' '

/-- Every file is there, and is a weather file. -/
def fullPackage : Package Empty where
  templateDir := PosixPath.parse "/package".toList
  weatherDir := "weather"
  isFile _ := true
  firstLine _ := some "LOCATION".toList
  readJson _ := none
  resolve p := p
  epwFiles _ := []

/-- A variable with the values 2020 and 2050, and a mapping with these keys. -/
def climate : List (Yaml Empty × Yaml Empty) :=
  [(.str "name", .str "climate"), (.str "target", .str "epw_file"),
    (.str "distribution", .str "categorical"), (.str "values", .seq [.int 2020, .int 2050]),
    (.str "mapping", .map [(.int 2020, .str "now.epw"), (.int 2050, .str "later.epw")])]

/-- The first value, sampled. -/
def firstClimate : Dict String (Yaml Empty) :=
  ⟨[("climate", .map [(.str "label", .str "2020"), (.str "index", .int 0),
    (.str "mapping", .null)])], by decide⟩

/-- The label is the string, and the key is the number. -/
theorem label_not_mapped : Drawn noFloats [.map climate] firstClimate ∧
    ¬ Sound noFloats fullPackage [.map climate] false firstClimate none := by
  refine ⟨.cons ⟨climate, rfl, rfl, ?_⟩ .nil, fun h => ?_⟩
  · have hvalues : lookup noFloats climate (.str "values") =
        some (.seq [.int 2020, .int 2050]) := rfl
    have hfirst : [Yaml.int 2020, .int 2050][0]? = some (.int (2020 : Int) : Yaml Empty) := rfl
    have hmore : ∀ item ∈ [((.str "mapping", .null) : Yaml Empty × Yaml Empty)],
        keyEq noFloats item.1 (.str "mapping") = true := by
      intro item hitem
      obtain rfl := List.mem_singleton.mp hitem
      rfl
    exact .categorical rfl hvalues hfirst hmore
  · obtain ⟨paths, resolved, hinjections, -, -⟩ := h (by rfl)
    have hraised : injections noFloats firstClimate [.map climate] none = .error .valueError := rfl
    rw [hraised] at hinjections
    cases hinjections

end OSimFlow.Campaign.WeatherPreflight
