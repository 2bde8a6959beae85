import Mathlib
import OSimFlow.Lib.Tree

/-!
# Audit lines and the secrets in them

`AuditEvent.to_json_line` renders an event as one line of JSON, its `details` passed
through `_redact_dict` first. The property is about two runs: events that differ only
in what stands under sensitive names must give the same line.

A name is sensitive when the normaliser (lower case, no `_`, no `-`) takes it where it
takes a name of the list. The code normalises the key and looks the result up in the
list as it is written, so the names of the list that contain a `_` or a `-` are never
found; and a list that is an item of a list is kept without a look inside. `Covered`
says that neither comes into play, and `hidden_iff` that this is exactly when nothing
leaks. What is not sensitive is kept in every case (`redactDict_agreeOff`).
-/

namespace OSimFlow.Observability.Audit

open OSimFlow.Lib (Tree)
open OSimFlow.Lib.Tree (AgreeOff AgreeOffList AgreeOffDict Clear ClearList Occurs)

/-- A value that is neither a list nor a dict: a string, or anything else. -/
inductive Atom (A : Type) where
  | str (s : String)
  | other (a : A)

abbrev Value (A : Type) := Tree String (Atom A)

/-- A `dict`, as its items: its keys are distinct. -/
abbrev Items (A : Type) := List (String × Value A)

/-- What Python's library does with the values the code hands it. -/
structure Runtime (A T : Type) where
  /-- `str.lower`; beyond ASCII it follows Unicode. -/
  lower : String → String
  lower_ascii : ∀ s : String, s.toList.all (fun c => decide (c.toNat < 128)) = true →
    lower s = s.toLower
  /-- `datetime.isoformat`. -/
  isoformat : T → String
  /-- What `json.dumps(…, default=str)` writes for a value that is not a string, a list
  or a dict. -/
  dumpsOther : A → String

/-! ## Redaction -/

/-- `s.replace(c, "")`. -/
def remove (c : Char) (s : String) : String :=
  String.ofList (s.toList.filter fun x => decide (x ≠ c))

/-- `_SENSITIVE_FIELD_NAMES`. -/
def sensitiveFieldNames : List String :=
  ["password", "secret", "api_key", "apikey", "api-key", "token", "access_key", "access-key",
    "access_key_id", "secret_key", "secret-key", "credentials", "auth", "authorization",
    "bearer", "x-api-key", "aws_access_key_id", "aws_secret_access_key"]

/-- `_REDACTED`. -/
def redacted : String := "[REDACTED]"

section

variable {A T : Type} (py : Runtime A T)

/-- `key.lower().replace("_", "").replace("-", "")`. -/
def lowerKey (key : String) : String := remove '-' (remove '_' (py.lower key))

mutual

/-- `_redact_dict`. -/
def redactDict : Items A → Items A
  | [] => []
  | (key, value) :: items =>
    (key, if lowerKey py key ∈ sensitiveFieldNames then .leaf (.str redacted)
      else redactValue value) :: redactDict items

def redactValue : Value A → Value A
  | .dict value => .dict (redactDict value)
  | .list items => .list (redactItems items)
  | .leaf value => .leaf value

def redactItems : List (Value A) → List (Value A)
  | [] => []
  | item :: items => redactItem item :: redactItems items

/-- An item of a list. The source's `_REDACTED` for an item is in a branch for dicts
that the branch for dicts before it has already taken. -/
def redactItem : Value A → Value A
  | .dict item => .dict (redactDict item)
  | .list items => .list items
  | .leaf value => .leaf value

end

end

/-! ## `json.dumps` -/

/-- Four hexadecimal digits. -/
def hex4 (n : Nat) : String :=
  String.ofList [Nat.digitChar (n / 4096 % 16), Nat.digitChar (n / 256 % 16),
    Nat.digitChar (n / 16 % 16), Nat.digitChar (n % 16)]

/-- One character of a string, `ensure_ascii`. -/
def escapeChar (c : Char) : String :=
  if c = '"' then "\\\""
  else if c = '\\' then "\\\\"
  else if c = '\n' then "\\n"
  else if c = '\r' then "\\r"
  else if c = '\t' then "\\t"
  else if c = '\x0c' then "\\f"
  else if c = '\x08' then "\\b"
  else if ' ' ≤ c ∧ c ≤ '~' then String.ofList [c]
  else if c.toNat < 0x10000 then "\\u" ++ hex4 c.toNat
  else "\\u" ++ hex4 (0xd800 + (c.toNat - 0x10000) / 1024 % 1024)
    ++ "\\u" ++ hex4 (0xdc00 + (c.toNat - 0x10000) % 1024)

def escape : List Char → String
  | [] => ""
  | c :: cs => escapeChar c ++ escape cs

def dumpsStr (s : String) : String := "\"" ++ escape s.toList ++ "\""

section

variable {A T : Type} (py : Runtime A T)

mutual

/-- `json.dumps(value, default=str)`. -/
def dumps : Value A → String
  | .leaf (.str s) => dumpsStr s
  | .leaf (.other a) => py.dumpsOther a
  | .list items => "[" ++ ", ".intercalate (dumpsItems items) ++ "]"
  | .dict items => "\x7b" ++ ", ".intercalate (dumpsEntries items) ++ "\x7d"

def dumpsItems : List (Value A) → List String
  | [] => []
  | item :: items => dumps item :: dumpsItems items

def dumpsEntries : Items A → List String
  | [] => []
  | (key, value) :: items => (dumpsStr key ++ ": " ++ dumps value) :: dumpsEntries items

end

end

/-! ## `AuditEvent` -/

inductive AuditOutcome where
  | success
  | failure
deriving DecidableEq

/-- `outcome.value`. -/
def AuditOutcome.value : AuditOutcome → String
  | success => "SUCCESS"
  | failure => "FAILURE"

structure AuditEvent (A T : Type) where
  timestamp : T
  actor : String
  action : String
  resource : String
  details : Items A
  outcome : AuditOutcome

namespace AuditEvent

variable {A T : Type} (py : Runtime A T)

/-- `to_dict`. -/
def toDict (e : AuditEvent A T) : Items A :=
  [("timestamp", .leaf (.str (py.isoformat e.timestamp))),
    ("actor", .leaf (.str e.actor)),
    ("action", .leaf (.str e.action)),
    ("resource", .leaf (.str e.resource)),
    ("details", .dict (redactDict py e.details)),
    ("outcome", .leaf (.str e.outcome.value))]

/-- `to_json_line`. -/
def toJsonLine (e : AuditEvent A T) : String := dumps py (.dict (e.toDict py))

end AuditEvent

/-! ## What must not show -/

section

variable {A T : Type} (py : Runtime A T)

/-- A name of the list, or one the normaliser does not tell from it. -/
def Sensitive (key : String) : Prop :=
  ∃ name ∈ sensitiveFieldNames, lowerKey py key = lowerKey py name

/-- Two events that differ only in values stored under sensitive names. -/
structure SameButSecrets (e e' : AuditEvent A T) : Prop where
  timestamp : e'.timestamp = e.timestamp
  actor : e'.actor = e.actor
  action : e'.action = e.action
  resource : e'.resource = e.resource
  outcome : e'.outcome = e.outcome
  details : AgreeOffDict (Sensitive py) e.details e'.details

/-- No event that differs in secrets only has another line, and what is not a secret is
kept. -/
structure Hidden (e : AuditEvent A T) : Prop where
  hides : ∀ e', SameButSecrets py e e' → e'.toJsonLine py = e.toJsonLine py
  keeps : AgreeOffDict (Sensitive py) e.details (redactDict py e.details)

mutual

/-- Each sensitive name is found by the lookup, or stands under one that is, and none
is inside a list in a list. -/
def Covered : Items A → Prop
  | [] => True
  | (key, value) :: items =>
    (lowerKey py key ∈ sensitiveFieldNames ∨ ¬ Sensitive py key ∧ CoveredValue value) ∧
      Covered items

def CoveredValue : Value A → Prop
  | .dict value => Covered value
  | .list items => CoveredItems items
  | .leaf _ => True

def CoveredItems : List (Value A) → Prop
  | [] => True
  | item :: items => CoveredItem item ∧ CoveredItems items

def CoveredItem : Value A → Prop
  | .dict item => Covered item
  | .list items => ClearList (Sensitive py) items
  | .leaf _ => True

end

end

/-! ## The lookup and the names -/

section

variable {A T : Type} (py : Runtime A T)

theorem remove_remove_self (c : Char) (s : String) : remove c (remove c s) = remove c s := by
  simp only [remove, String.toList_ofList, List.filter_filter, Bool.and_self]

theorem remove_comm (c c' : Char) (s : String) : remove c (remove c' s) = remove c' (remove c s) := by
  simp only [remove, String.toList_ofList, List.filter_filter, Bool.and_comm]

/-- The names are ASCII and in lower case. -/
theorem lower_of_mem {name : String} (h : name ∈ sensitiveFieldNames) : py.lower name = name := by
  have hascii : ∀ n ∈ sensitiveFieldNames,
      n.toList.all (fun c => decide (c.toNat < 128)) = true := by decide +kernel
  have hlower : ∀ n ∈ sensitiveFieldNames, n.toLower = n := by decide +kernel
  rw [py.lower_ascii name (hascii name h), hlower name h]

/-- Only sensitive names are found. -/
theorem sensitive_of_found {key : String} (h : lowerKey py key ∈ sensitiveFieldNames) :
    Sensitive py key := by
  refine ⟨lowerKey py key, h, ?_⟩
  have hlower := lower_of_mem py h
  rw [lowerKey, lowerKey] at *
  rw [hlower, remove_comm '_' '-', remove_remove_self, remove_remove_self]

end

/-! ## What is kept -/

section

variable {A T : Type} (py : Runtime A T)

mutual

theorem redactDict_agreeOff : ∀ items : Items A,
    AgreeOffDict (Sensitive py) items (redactDict py items)
  | [] => by
    rw [redactDict]
    exact .nil
  | (key, value) :: items => by
    rw [redactDict]
    split
    next hfound =>
      exact .secret key _ _ (sensitive_of_found py hfound) (redactDict_agreeOff items)
    next => exact .cons key (redactValue_agreeOff value) (redactDict_agreeOff items)

theorem redactValue_agreeOff : ∀ value : Value A,
    AgreeOff (Sensitive py) value (redactValue py value)
  | .dict value => by
    rw [redactValue]
    exact .dict (redactDict_agreeOff value)
  | .list items => by
    rw [redactValue]
    exact .list (redactItems_agreeOff items)
  | .leaf value => by
    rw [redactValue]
    exact .leaf value

theorem redactItems_agreeOff : ∀ items : List (Value A),
    AgreeOffList (Sensitive py) items (redactItems py items)
  | [] => by
    rw [redactItems]
    exact .nil
  | item :: items => by
    rw [redactItems]
    exact .cons (redactItem_agreeOff item) (redactItems_agreeOff items)

theorem redactItem_agreeOff : ∀ item : Value A,
    AgreeOff (Sensitive py) item (redactItem py item)
  | .dict item => by
    rw [redactItem]
    exact .dict (redactDict_agreeOff item)
  | .list items => by
    rw [redactItem]
    exact .refl _ _
  | .leaf value => by
    rw [redactItem]
    exact .leaf value

end

end

/-! ## What does not show -/

section

variable {A T : Type} {py : Runtime A T}

mutual

/-- Where everything is covered, the redacted details do not depend on a secret. -/
theorem Covered.redactDict_eq : ∀ {items items' : Items A}, Covered py items →
    AgreeOffDict (Sensitive py) items items' → redactDict py items' = redactDict py items
  | _, _, _, .nil => rfl
  | _, _, h, .secret _ _ _ hkey hitems => by
    rcases h.1 with hfound | hplain
    · rw [redactDict, redactDict, if_pos hfound, if_pos hfound, Covered.redactDict_eq h.2 hitems]
    · exact absurd hkey hplain.1
  | _, _, h, .cons _ hvalue hitems => by
    rw [redactDict, redactDict, Covered.redactDict_eq h.2 hitems]
    rcases h.1 with hfound | hplain
    · rw [if_pos hfound, if_pos hfound]
    · rw [CoveredValue.redactValue_eq hplain.2 hvalue]

theorem CoveredValue.redactValue_eq : ∀ {value value' : Value A}, CoveredValue py value →
    AgreeOff (Sensitive py) value value' → redactValue py value' = redactValue py value
  | _, _, _, .leaf _ => rfl
  | _, _, h, .list hitems => by
    rw [redactValue, redactValue, CoveredItems.redactItems_eq h hitems]
  | _, _, h, .dict hitems => by
    rw [redactValue, redactValue, Covered.redactDict_eq h hitems]

theorem CoveredItems.redactItems_eq : ∀ {items items' : List (Value A)},
    CoveredItems py items → AgreeOffList (Sensitive py) items items' →
      redactItems py items' = redactItems py items
  | _, _, _, .nil => rfl
  | _, _, h, .cons hitem hitems => by
    rw [redactItems, redactItems, CoveredItem.redactItem_eq h.1 hitem,
      CoveredItems.redactItems_eq h.2 hitems]

theorem CoveredItem.redactItem_eq : ∀ {item item' : Value A}, CoveredItem py item →
    AgreeOff (Sensitive py) item item' → redactItem py item' = redactItem py item
  | _, _, _, .leaf _ => rfl
  | _, _, h, .list hitems => by rw [ClearList.eq_of_agreeOff h hitems]
  | _, _, h, .dict hitems => by
    rw [redactItem, redactItem, Covered.redactDict_eq h hitems]

end

end

/-! ## What shows -/

section

variable {A T : Type} {py : Runtime A T} (a : Atom A)

mutual

/-- Where something is not covered, a change of secrets puts any given atom into the
redacted details. -/
theorem exists_shown : ∀ {items : Items A}, ¬ Covered py items →
    ∃ items', AgreeOffDict (Sensitive py) items items' ∧
      ∃ key value, (key, value) ∈ redactDict py items' ∧ Occurs (.leaf a) value
  | [], h => absurd trivial h
  | (key, value) :: items, h => by
    by_cases hitems : Covered py items
    · have hfound : lowerKey py key ∉ sensitiveFieldNames := fun hf => h ⟨Or.inl hf, hitems⟩
      by_cases hkey : Sensitive py key
      · -- the key is sensitive and not found: the value passes
        refine ⟨(key, .leaf a) :: items, .secret key value _ hkey (.refl _ _), key, .leaf a, ?_,
          .refl⟩
        rw [redactDict, if_neg hfound, redactValue]
        exact List.mem_cons_self
      · have hvalue : ¬ CoveredValue py value := fun hv => h ⟨Or.inr ⟨hkey, hv⟩, hitems⟩
        obtain ⟨value', hagree, hs⟩ := exists_shownValue hvalue
        refine ⟨(key, value') :: items, .cons key hagree (.refl _ _), key,
          redactValue py value', ?_, hs⟩
        rw [redactDict, if_neg hfound]
        exact List.mem_cons_self
    · obtain ⟨items', hagree, key', value', hmem, hs⟩ := exists_shown hitems
      refine ⟨(key, value) :: items', .cons key (.refl _ _) hagree, key', value', ?_, hs⟩
      rw [redactDict]
      exact List.mem_cons_of_mem _ hmem

theorem exists_shownValue : ∀ {value : Value A}, ¬ CoveredValue py value →
    ∃ value', AgreeOff (Sensitive py) value value' ∧ Occurs (.leaf a) (redactValue py value')
  | .leaf _, h => absurd trivial h
  | .list _, h => by
    obtain ⟨items', hagree, item, hmem, hs⟩ := exists_shownItems h
    refine ⟨.list items', .list hagree, ?_⟩
    rw [redactValue]
    exact .list hmem hs
  | .dict _, h => by
    obtain ⟨items', hagree, key, value, hmem, hs⟩ := exists_shown h
    refine ⟨.dict items', .dict hagree, ?_⟩
    rw [redactValue]
    exact .dict hmem hs

theorem exists_shownItems : ∀ {items : List (Value A)}, ¬ CoveredItems py items →
    ∃ items', AgreeOffList (Sensitive py) items items' ∧
      ∃ item ∈ redactItems py items', Occurs (.leaf a) item
  | [], h => absurd trivial h
  | item :: items, h => by
    by_cases hitems : CoveredItems py items
    · have hitem : ¬ CoveredItem py item := fun hi => h ⟨hi, hitems⟩
      obtain ⟨item', hagree, hs⟩ := exists_shownItem hitem
      refine ⟨item' :: items, .cons hagree (.refl _ _), redactItem py item', ?_, hs⟩
      rw [redactItems]
      exact List.mem_cons_self
    · obtain ⟨items', hagree, item', hmem, hs⟩ := exists_shownItems hitems
      refine ⟨item :: items', .cons (.refl _ _) hagree, item', ?_, hs⟩
      rw [redactItems]
      exact List.mem_cons_of_mem _ hmem

theorem exists_shownItem : ∀ {item : Value A}, ¬ CoveredItem py item →
    ∃ item', AgreeOff (Sensitive py) item item' ∧ Occurs (.leaf a) (redactItem py item')
  | .leaf _, h => absurd trivial h
  | .list items, h => by
    -- the inner list is kept as it is, with every name in it
    obtain ⟨items', hagree, item, hmem, hs⟩ := Lib.Tree.exists_variantList (.leaf a) h
    refine ⟨.list items', .list hagree, ?_⟩
    rw [redactItem]
    exact .list hmem hs
  | .dict _, h => by
    obtain ⟨items', hagree, key, value, hmem, hs⟩ := exists_shown h
    refine ⟨.dict items', .dict hagree, ?_⟩
    rw [redactItem]
    exact .dict hmem hs

end

end

/-! ## The length of a line -/

theorem length_le_intercalate (sep : String) {t : String} : ∀ {l : List String}, t ∈ l →
    t.length ≤ (sep.intercalate l).length
  | [], h => absurd h List.not_mem_nil
  | [x], h => by
    have ht := List.mem_singleton.mp h
    subst ht
    exact Nat.le_of_eq (congrArg String.length String.intercalate_singleton.symm)
  | x :: y :: l, h => by
    rw [String.intercalate_cons_cons, String.length_append, String.length_append]
    rcases List.mem_cons.mp h with rfl | h
    · omega
    · have hle := length_le_intercalate sep h
      omega

theorem one_le_length_escapeChar (c : Char) : 1 ≤ (escapeChar c).length := by
  have hu : "\\u".length = 2 := by decide
  unfold escapeChar
  split_ifs
  case pos | pos | pos | pos | pos | pos | pos => decide
  case pos => rw [String.length_ofList]; exact Nat.le_refl 1
  case pos => rw [String.length_append, hu]; omega
  case neg => rw [String.length_append, String.length_append, hu]; omega

theorem length_le_escape : ∀ cs : List Char, cs.length ≤ (escape cs).length
  | [] => Nat.zero_le _
  | c :: cs => by
    have hc := one_le_length_escapeChar c
    have hcs := length_le_escape cs
    rw [escape, String.length_append, List.length_cons]
    omega

theorem length_le_dumpsStr (s : String) : s.length ≤ (dumpsStr s).length := by
  have h := length_le_escape s.toList
  rw [String.length_toList] at h
  rw [dumpsStr, String.length_append, String.length_append]
  omega

section

variable {A T : Type} (py : Runtime A T)

theorem dumps_mem_dumpsItems {item : Value A} : ∀ {items : List (Value A)}, item ∈ items →
    dumps py item ∈ dumpsItems py items
  | _ :: items, h => by
    rw [dumpsItems]
    rcases List.mem_cons.mp h with rfl | h
    · exact List.mem_cons_self
    · exact List.mem_cons_of_mem _ (dumps_mem_dumpsItems h)

theorem dumps_mem_dumpsEntries {key : String} {value : Value A} : ∀ {items : Items A},
    (key, value) ∈ items → dumpsStr key ++ ": " ++ dumps py value ∈ dumpsEntries py items
  | (_, _) :: items, h => by
    rw [dumpsEntries]
    rcases List.mem_cons.mp h with heq | h
    · cases heq
      exact List.mem_cons_self
    · exact List.mem_cons_of_mem _ (dumps_mem_dumpsEntries h)

/-- A value is written no longer than what it occurs in. -/
theorem length_dumps_le {s t : Value A} (h : Occurs s t) :
    (dumps py s).length ≤ (dumps py t).length := by
  induction h with
  | refl => exact Nat.le_refl _
  | list hmem _ ih =>
    have hle := length_le_intercalate ", " (dumps_mem_dumpsItems py hmem)
    rw [dumps, String.length_append, String.length_append]
    omega
  | dict hmem _ ih =>
    have hle := length_le_intercalate ", " (dumps_mem_dumpsEntries py hmem)
    rw [String.length_append] at hle
    rw [dumps, String.length_append, String.length_append]
    omega

end

/-! ## Exactly when nothing shows -/

section

variable {A T : Type} (py : Runtime A T)

theorem hidden_of_covered {e : AuditEvent A T} (h : Covered py e.details) : Hidden py e where
  hides := by
    intro e' hsame
    rw [AuditEvent.toJsonLine, AuditEvent.toJsonLine, AuditEvent.toDict, AuditEvent.toDict,
      hsame.timestamp, hsame.actor, hsame.action, hsame.resource, hsame.outcome,
      h.redactDict_eq hsame.details]
  keeps := redactDict_agreeOff py e.details

/-- Otherwise some secret is visible in the length of the line alone. -/
theorem exists_longer {e : AuditEvent A T} (h : ¬ Covered py e.details) (n : Nat) :
    ∃ e', SameButSecrets py e e' ∧ n ≤ (e'.toJsonLine py).length := by
  obtain ⟨details', hagree, key, value, hmem, hoccurs⟩ :=
    exists_shown (.str (String.ofList (List.replicate n 'x'))) h
  have hinside : Occurs (.leaf (.str (String.ofList (List.replicate n 'x'))))
      (.dict (AuditEvent.toDict py { e with details := details' }) : Value A) := by
    refine .dict (k := "details") (t := .dict (redactDict py details')) ?_ (.dict hmem hoccurs)
    simp [AuditEvent.toDict]
  refine ⟨{ e with details := details' }, ⟨rfl, rfl, rfl, rfl, rfl, hagree⟩, ?_⟩
  have hle := length_dumps_le py hinside
  have hstr := length_le_dumpsStr (String.ofList (List.replicate n 'x'))
  rw [String.length_ofList, List.length_replicate] at hstr
  rw [dumps] at hle
  rw [AuditEvent.toJsonLine]
  omega

/-- An audit line hides the secrets of its event, and keeps everything else, exactly
when every sensitive name in it is covered. -/
theorem hidden_iff (e : AuditEvent A T) : Hidden py e ↔ Covered py e.details := by
  refine ⟨fun h => ?_, hidden_of_covered py⟩
  by_contra hcov
  obtain ⟨e', hsame, hle⟩ := exists_longer py hcov ((e.toJsonLine py).length + 1)
  rw [h.hides e' hsame] at hle
  omega

end

/-! ## An access key -/

/-- ASCII text, and numbers for the values of other types. -/
def plainRuntime : Runtime Int String where
  lower := String.toLower
  lower_ascii := fun _ _ => rfl
  isoformat := id
  dumpsOther := toString

/-- An event with a cloud key in its details. -/
def keyEvent (key : String) : AuditEvent Int String where
  timestamp := "2026-01-01T00:00:00+00:00"
  actor := "system"
  action := "config.changed"
  resource := "campaign"
  details := [("executor", .leaf (.str "aws_batch")), ("secret_key", .leaf (.str key))]
  outcome := .success

/-- `secret_key` is in the list, and its value is written out: `secretkey`, which the
key becomes, is not in the list. -/
theorem secret_key_shown : ¬ ∀ e, Hidden plainRuntime e := by
  intro h
  have hsame : SameButSecrets plainRuntime (keyEvent "hunter2") (keyEvent "swordfish") := by
    refine ⟨rfl, rfl, rfl, rfl, rfl, .cons _ (.refl _ _) (.secret _ _ _ ?_ .nil)⟩
    exact ⟨"secret_key", by decide, rfl⟩
  have hline := (h (keyEvent "hunter2")).hides _ hsame
  revert hline
  decide +kernel

end OSimFlow.Observability.Audit
