import Mathlib
import OSimFlow.Cache.SQLiteCache
import OSimFlow.Lib.Glob
import OSimFlow.Lib.Run
import OSimFlow.Lib.Separator

/-!
# The shared store: a map keyed by a string

`DistributedCache` keeps the entries of all processes in one Redis hash. The
field of a key is its components joined by `|` — all but `n_samples` — and an
invalidation deletes the fields that match a glob built from its arguments.

What it should be is a map keyed by the `CacheKey`. `faithful_iff` says for
which keys and invalidations every run is: those on which `fieldForKey` is
injective and the globs match the fields they mean (`Separated`).
`fieldForKey_inj` and `pattern_matches` say what that takes of the components:
no `|` inside, no special character in an invalidated step or sample id, and
the same `n_samples` wherever the rest is the same.
-/

namespace OSimFlow.Cache

open OSimFlow.Lib

/-- `_field_for_key`. -/
def fieldForKey (key : CacheKey) : String :=
  "|".intercalate [key.step, key.sampleId, key.openstudioVersion, key.inputsSha256,
    key.codeSha256, key.containerDigest, key.generation.repr]

/-- The `pattern` handed to `_shared_invalidate`. -/
def Invalidation.pattern : Invalidation → String
  | step s => s ++ "|*"
  | sample s x => s ++ "|" ++ x ++ "|*"

/-- The value of a hash field, and, for the account, the key it was stored for. -/
structure SharedEntry where
  row : CacheRow
  storedFor : CacheKey
deriving DecidableEq

/-- The Redis hash. -/
abbrev SharedStore := Dict String SharedEntry

namespace SharedStore

/-- An operation of any instance. -/
inductive Op where
  | store (key : CacheKey) (row : CacheRow)
  | lookup (key : CacheKey) (pathExists : Bool)
  | invalidate (inv : Invalidation)

/-- `_shared_store`: `HSET`. -/
def sharedStore (h : SharedStore) (key : CacheKey) (row : CacheRow) : SharedStore :=
  h.set (fieldForKey key) ⟨row, key⟩

/-- `_shared_lookup`: `HGET`, decoded. -/
def sharedLookup (h : SharedStore) (pathExists : String → Bool) (key : CacheKey) :
    Option String :=
  (h.get? (fieldForKey key)).bind fun entry => entry.row.hit pathExists

/-- The field matches the pattern of the invalidation. -/
def matched (inv : Invalidation) (field : String) : Bool :=
  Glob.globMatch inv.pattern.toList field.toList

/-- `_shared_invalidate`: `HSCAN`, `HDEL`. -/
def sharedInvalidate (h : SharedStore) (inv : Invalidation) : SharedStore :=
  h.eraseIf (matched inv)

theorem get?_sharedStore_ne {h : SharedStore} {key key' : CacheKey} {row : CacheRow}
    (hf : fieldForKey key ≠ fieldForKey key') :
    (h.sharedStore key row).get? (fieldForKey key') = h.get? (fieldForKey key') :=
  Dict.get?_set_ne h hf ⟨row, key⟩

def step (h : SharedStore) : Op → SharedStore
  | .store key row => h.sharedStore key row
  | .lookup _ _ => h
  | .invalidate inv => h.sharedInvalidate inv

/-- A lookup returns an entry only if it was stored for its key; an invalidation
removes exactly the entries it is about. -/
def Faithful (h : SharedStore) : Op → Prop
  | .store _ _ => True
  | .lookup key pathExists => ∀ path,
      h.sharedLookup (fun _ => pathExists) key = some path →
      ∃ entry, h.get? (fieldForKey key) = some entry ∧ entry.storedFor = key
  | .invalidate inv => ∀ field entry, h.get? field = some entry →
      ((h.sharedInvalidate inv).get? field = none ↔ inv.covers entry.storedFor = true)

/-- The operation is on keys and invalidations of these kinds. -/
def Op.over (K : CacheKey → Prop) (I : Invalidation → Prop) : Op → Prop
  | store key _ => K key
  | lookup key _ => K key
  | invalidate inv => I inv

/-- Different keys have different fields, and a pattern matches the fields of the
keys it is about. -/
structure Separated (K : CacheKey → Prop) (I : Invalidation → Prop) : Prop where
  inj : ∀ key key', K key → K key' → fieldForKey key = fieldForKey key' → key = key'
  pattern : ∀ inv, I inv → ∀ key, K key →
    (matched inv (fieldForKey key) = true ↔ inv.covers key = true)

/-- Every entry is under the field of its key. -/
def Filed (K : CacheKey → Prop) (h : SharedStore) : Prop :=
  ∀ field entry, h.get? field = some entry →
    field = fieldForKey entry.storedFor ∧ K entry.storedFor

variable {K : CacheKey → Prop} {I : Invalidation → Prop}

theorem filed_empty (K : CacheKey → Prop) : Filed K ∅ :=
  fun _ _ h => nomatch h

theorem step_filed {h : SharedStore} (hf : Filed K h) {op : Op} (ho : op.over K I) :
    Filed K (h.step op) := by
  cases op with
  | store key row =>
    intro field entry he
    rw [step, sharedStore, Dict.get?_set] at he
    split at he
    next hk =>
      injection he with he
      rw [← he]
      exact ⟨hk.symm, ho⟩
    next => exact hf field entry he
  | lookup key pathExists => exact hf
  | invalidate inv =>
    intro field entry he
    rw [step, sharedInvalidate, Dict.get?_eraseIf] at he
    split at he
    next => cases he
    next => exact hf field entry he

theorem step_faithful (hsep : Separated K I) {h : SharedStore} (hf : Filed K h) {op : Op}
    (ho : op.over K I) : Faithful h op := by
  cases op with
  | store key row => trivial
  | lookup key pathExists =>
    intro path hp
    rw [sharedLookup, Option.bind_eq_some_iff] at hp
    obtain ⟨entry, he, -⟩ := hp
    obtain ⟨hfield, hkey⟩ := hf _ entry he
    exact ⟨entry, he, (hsep.inj key entry.storedFor ho hkey hfield).symm⟩
  | invalidate inv =>
    intro field entry he
    obtain ⟨hfield, hkey⟩ := hf field entry he
    rw [sharedInvalidate, Dict.get?_eraseIf, ← hsep.pattern inv ho _ hkey, ← hfield]
    cases hm : matched inv field with
    | true => simp
    | false => simp [he]

/-- The hash behaves as a map keyed by the whole `CacheKey`, whatever is done with
keys `K` and invalidations `I`, exactly when these are separated. -/
theorem faithful_iff (K : CacheKey → Prop) (I : Invalidation → Prop) :
    (∀ ops : List Op, (∀ op ∈ ops, op.over K I) → Along step Faithful ∅ ops) ↔
      Separated K I := by
  constructor
  · intro hall
    constructor
    · intro key key' hk hk' hfield
      have hrun := hall [.store key' ⟨"", 0⟩, .lookup key true] (by
        intro op ho
        simp only [List.mem_cons, List.not_mem_nil, or_false] at ho
        rcases ho with rfl | rfl
        · exact hk'
        · exact hk)
      have hget : (Dict.set (∅ : SharedStore) (fieldForKey key') ⟨⟨"", 0⟩, key'⟩).get?
          (fieldForKey key) = some ⟨⟨"", 0⟩, key'⟩ := by
        rw [hfield]
        exact Dict.get?_set_self _ _ _
      obtain ⟨entry, he, hkey⟩ := hrun.2.1 "" (by
        show ((Dict.set (∅ : SharedStore) (fieldForKey key') ⟨⟨"", 0⟩, key'⟩).get?
          (fieldForKey key)).bind _ = _
        rw [hget]
        rfl)
      have heq : entry = ⟨⟨"", 0⟩, key'⟩ := Option.some.inj (he.symm.trans hget)
      rw [heq] at hkey
      exact hkey.symm
    · intro inv hi key hk
      have hrun := hall [.store key ⟨"", 0⟩, .invalidate inv] (by
        intro op ho
        simp only [List.mem_cons, List.not_mem_nil, or_false] at ho
        rcases ho with rfl | rfl
        · exact hk
        · exact hi)
      have hgone := hrun.2.1 (fieldForKey key) ⟨⟨"", 0⟩, key⟩ (Dict.get?_set_self _ _ _)
      rw [sharedInvalidate, Dict.get?_eraseIf] at hgone
      rw [← hgone]
      constructor
      · intro hm
        rw [if_pos hm]
      · intro hnone
        by_contra hm
        rw [if_neg hm] at hnone
        have hget : (Dict.set (∅ : SharedStore) (fieldForKey key) ⟨⟨"", 0⟩, key⟩).get?
          (fieldForKey key) = some ⟨⟨"", 0⟩, key⟩ := Dict.get?_set_self _ _ _
        exact nomatch hget.symm.trans hnone
  · intro hsep ops hops
    have hrun : ∀ {h : SharedStore}, Filed K h → Along step Faithful h ops := by
      induction ops with
      | nil => exact fun _ => trivial
      | cons op ops ih =>
        intro h hf
        have ho := hops op List.mem_cons_self
        exact ⟨step_faithful hsep hf ho,
          ih (fun op' h' => hops op' (List.mem_cons_of_mem op h')) (step_filed hf ho)⟩
    exact hrun (filed_empty K)

/-! ## The map it stands for -/

/-- The store as it is meant: a map keyed by the whole key. -/
abbrev KeyMap := CacheKey → Option CacheRow

def KeyMap.step (m : KeyMap) : Op → KeyMap
  | .store key row => Function.update m key (some row)
  | .lookup _ _ => m
  | .invalidate inv => fun key => if inv.covers key then none else m key

/-- The hash holds what the map holds, on the keys `K`. -/
def Represents (K : CacheKey → Prop) (h : SharedStore) (m : KeyMap) : Prop :=
  ∀ key, K key → (h.get? (fieldForKey key)).map SharedEntry.row = m key

theorem step_represents (hsep : Separated K I) {h : SharedStore} {m : KeyMap}
    (hr : Represents K h m) {op : Op} (ho : op.over K I) :
    Represents K (h.step op) (m.step op) := by
  intro key hk
  cases op with
  | store key' row =>
    rw [step, sharedStore, Dict.get?_set, KeyMap.step]
    by_cases he : key = key'
    · rw [he, if_pos rfl, Function.update_self]
      rfl
    · have hf : fieldForKey key' ≠ fieldForKey key :=
        fun hf => he (hsep.inj key' key ho hk hf).symm
      rw [if_neg hf, Function.update_of_ne he]
      exact hr key hk
  | lookup key' pathExists => exact hr key hk
  | invalidate inv =>
    rw [step, sharedInvalidate, Dict.get?_eraseIf, KeyMap.step]
    have hp := hsep.pattern inv ho key hk
    dsimp only
    cases hm : matched inv (fieldForKey key) with
    | true =>
      rw [if_pos rfl, if_pos (hp.mp hm)]
      rfl
    | false =>
      have hc : ¬ inv.covers key = true := fun hc => by
        rw [hp.mpr hc] at hm
        exact nomatch hm
      rw [if_neg Bool.false_ne_true, if_neg hc]
      exact hr key hk

/-- On separated keys the hash refines the map: after any run they agree. -/
theorem refines_map (hsep : Separated K I) {ops : List Op}
    (hops : ∀ op ∈ ops, op.over K I) :
    Represents K (run step ∅ ops) (run KeyMap.step (fun _ => none) ops) := by
  have hrun : ∀ {h : SharedStore} {m : KeyMap}, Represents K h m →
      Represents K (run step h ops) (run KeyMap.step m ops) := by
    induction ops with
    | nil => exact fun hr => hr
    | cons op ops ih =>
      intro h m hr
      exact ih (fun op' h' => hops op' (List.mem_cons_of_mem op h'))
        (step_represents hsep hr (hops op List.mem_cons_self))
  exact hrun fun _ _ => rfl

/-- A key as the sample step makes it. -/
def generateKey (nSamples : Nat) : CacheKey :=
  ⟨"GENERATE_LHS_SAMPLES", "ALL", "N/A", "inputs", "code", "python", 0, nSamples⟩

/-- `n_samples` is not in the field: ten samples are handed out for twenty. -/
theorem nSamples_not_in_field :
    ¬ ∀ ops : List Op, Along step Faithful ∅ ops := by
  intro h
  have hrun := h [.store (generateKey 10) ⟨"samples.json", 0⟩, .lookup (generateKey 20) true]
  obtain ⟨entry, he, hkey⟩ := hrun.2.1 "samples.json" rfl
  have heq : entry = ⟨⟨"samples.json", 0⟩, generateKey 10⟩ := (Option.some.inj he).symm
  rw [heq] at hkey
  exact absurd hkey (by decide)

/-! ## When the encoding is right -/

/-- No component contains the separator. -/
def Clean (key : CacheKey) : Prop :=
  ∀ part ∈ [key.step, key.sampleId, key.openstudioVersion, key.inputsSha256,
    key.codeSha256, key.containerDigest], '|' ∉ part.toList

/-- The components of a clean key can be read off its field. -/
theorem splitOn_fieldForKey {key : CacheKey} (hc : Clean key) :
    (fieldForKey key).toList.splitOn '|' =
      [key.step, key.sampleId, key.openstudioVersion, key.inputsSha256, key.codeSha256,
        key.containerDigest, key.generation.repr].map String.toList := by
  rw [fieldForKey, String.toList_intercalate]
  refine List.splitOn_intercalate '|' (fun l hl => ?_) (List.cons_ne_nil _ _)
  obtain ⟨part, hp, rfl⟩ := List.mem_map.mp hl
  have happ : part ∈ [key.step, key.sampleId, key.openstudioVersion, key.inputsSha256,
    key.codeSha256, key.containerDigest] ++ [key.generation.repr] := hp
  rcases List.mem_append.mp happ with hp | hp
  · exact hc part hp
  · rw [List.mem_singleton.mp hp]
    exact notMem_repr (by decide) key.generation

/-- Clean keys with one field differ in `n_samples` at most. -/
theorem fieldForKey_inj {key key' : CacheKey} (hk : Clean key) (hk' : Clean key')
    (h : fieldForKey key = fieldForKey key') :
    { key with nSamples := key'.nSamples } = key' := by
  have hparts : (fieldForKey key).toList.splitOn '|' =
      (fieldForKey key').toList.splitOn '|' := by rw [h]
  rw [splitOn_fieldForKey hk, splitOn_fieldForKey hk'] at hparts
  have hinj := List.map_injective_iff.mpr (fun _ _ he => String.toList_inj.mp he) hparts
  injection hinj with hstep hinj
  injection hinj with hsample hinj
  injection hinj with hversion hinj
  injection hinj with hinputs hinj
  injection hinj with hcode hinj
  injection hinj with hcontainer hinj
  injection hinj with hgeneration
  obtain ⟨step, sample, version, inputs, code, container, generation, n⟩ := key
  obtain ⟨step', sample', version', inputs', code', container', generation', n'⟩ := key'
  have hg : generation = generation' := Nat.repr_injective hgeneration
  simp only [CacheKey.mk.injEq]
  exact ⟨hstep, hsample, hversion, hinputs, hcode, hcontainer, hg, trivial⟩

/-- A field begins with the step and the sample id. -/
theorem toList_fieldForKey (key : CacheKey) : ∃ rest, (fieldForKey key).toList =
    key.step.toList ++ '|' :: (key.sampleId.toList ++ '|' :: rest) := by
  rw [fieldForKey, String.toList_intercalate]
  simp only [List.map_cons, List.map_nil, List.intercalate_cons_cons,
    show "|".toList = ['|'] from rfl, List.append_assoc, List.singleton_append]
  exact ⟨_, rfl⟩

/-- An invalidation whose arguments hold no separator and nothing special. -/
def CleanInvalidation : Invalidation → Prop
  | .step s => '|' ∉ s.toList ∧ Glob.Plain s.toList
  | .sample s x => ('|' ∉ s.toList ∧ Glob.Plain s.toList) ∧
      '|' ∉ x.toList ∧ Glob.Plain x.toList

/-- Nothing special in the arguments. -/
def PlainInvalidation : Invalidation → Prop
  | .step s => Glob.Plain s.toList
  | .sample s x => Glob.Plain s.toList ∧ Glob.Plain x.toList

/-- What a pattern has before its `*`. -/
def stem : Invalidation → List Char
  | .step s => s.toList ++ ['|']
  | .sample s x => s.toList ++ '|' :: (x.toList ++ ['|'])

/-- A pattern with nothing special in it asks for a prefix. -/
theorem matched_iff_stem {inv : Invalidation} (hi : PlainInvalidation inv) (field : String) :
    matched inv field = true ↔ stem inv <+: field.toList := by
  have hbar : Glob.Plain ['|'] := Glob.plain_singleton (by decide)
  cases inv with
  | step s =>
    have hpat : (Invalidation.step s).pattern.toList = (s.toList ++ ['|']) ++ ['*'] := by
      rw [Invalidation.pattern, String.toList_append, List.append_assoc]
      rfl
    rw [matched, hpat]
    exact Glob.globMatch_literal_star (Glob.plain_append.mpr ⟨hi, hbar⟩) _
  | sample s x =>
    have hpat : (Invalidation.sample s x).pattern.toList =
        (s.toList ++ '|' :: (x.toList ++ ['|'])) ++ ['*'] := by
      simp only [Invalidation.pattern, String.toList_append, show "|".toList = ['|'] from rfl,
        show "|*".toList = ['|'] ++ ['*'] from rfl, List.append_assoc, List.nil_append,
        List.cons_append]
    have hplain : Glob.Plain (s.toList ++ '|' :: (x.toList ++ ['|'])) :=
      Glob.plain_append.mpr ⟨hi.1, Glob.plain_append.mpr ⟨hbar, Glob.plain_append.mpr ⟨hi.2, hbar⟩⟩⟩
    rw [matched, hpat]
    exact Glob.globMatch_literal_star hplain _

/-- The fields of the keys an invalidation is about begin with its stem. -/
theorem starts_with_stem {inv : Invalidation} {key : CacheKey} (hc : inv.covers key = true) :
    stem inv <+: (fieldForKey key).toList := by
  obtain ⟨rest, hfield⟩ := toList_fieldForKey key
  rw [hfield]
  cases inv with
  | step s =>
    rw [beq_iff_eq.mp hc]
    exact ⟨key.sampleId.toList ++ '|' :: rest, by simp [stem]⟩
  | sample s x =>
    rw [Invalidation.covers, Bool.and_eq_true, beq_iff_eq, beq_iff_eq] at hc
    rw [hc.1, hc.2]
    exact ⟨rest, by simp [stem]⟩

/-- A plain pattern misses none of the fields it is about. -/
theorem matched_of_covers {inv : Invalidation} (hi : PlainInvalidation inv) {key : CacheKey}
    (hc : inv.covers key = true) : matched inv (fieldForKey key) = true :=
  (matched_iff_stem hi _).mpr (starts_with_stem hc)

theorem CleanInvalidation.plain {inv : Invalidation} (hi : CleanInvalidation inv) :
    PlainInvalidation inv := by
  cases inv with
  | step s => exact hi.2
  | sample s x => exact ⟨hi.1.2, hi.2.2⟩

/-- A clean pattern matches the clean fields it is about. -/
theorem pattern_matches {inv : Invalidation} (hi : CleanInvalidation inv) {key : CacheKey}
    (hk : Clean key) : matched inv (fieldForKey key) = true ↔ inv.covers key = true := by
  refine ⟨fun hm => ?_, matched_of_covers hi.plain⟩
  obtain ⟨rest, hfield⟩ := toList_fieldForKey key
  have hstep : '|' ∉ key.step.toList := hk _ (by simp)
  have hsample : '|' ∉ key.sampleId.toList := hk _ (by simp)
  obtain ⟨tail, ht⟩ := (matched_iff_stem hi.plain _).mp hm
  rw [hfield] at ht
  cases inv with
  | step s =>
    rw [stem, List.append_assoc] at ht
    rw [Invalidation.covers, beq_iff_eq]
    exact (String.toList_inj.mp (append_sep_inj hi.1 hstep ht).1).symm
  | sample s x =>
    simp only [stem, List.append_assoc, List.cons_append] at ht
    obtain ⟨hs, hrest⟩ := append_sep_inj hi.1.1 hstep ht
    have hx := (append_sep_inj hi.2.1 hsample hrest).1
    rw [Invalidation.covers, Bool.and_eq_true, beq_iff_eq, beq_iff_eq]
    exact ⟨(String.toList_inj.mp hs).symm, (String.toList_inj.mp hx).symm⟩

/-- Clean keys that agree in `n_samples` wherever they agree in the rest, and clean
invalidations, are separated. -/
theorem clean_separated {K : CacheKey → Prop} (hK : ∀ key, K key → Clean key)
    (hn : ∀ key key', K key → K key' →
      { key with nSamples := key'.nSamples } = key' → key = key') :
    Separated K CleanInvalidation where
  inj := fun key key' hk hk' h =>
    hn key key' hk hk' (fieldForKey_inj (hK key hk) (hK key' hk') h)
  pattern := fun _ hi key hk => pattern_matches hi (hK key hk)

/-- On clean keys, and with clean invalidations, the hash refines the map: after any run it
holds under the field of a key what the map holds under the key. -/
theorem represents_of_clean {K : CacheKey → Prop} (hK : ∀ key, K key → Clean key)
    (hn : ∀ key key', K key → K key' →
      { key with nSamples := key'.nSamples } = key' → key = key')
    {ops : List Op} (hops : ∀ op ∈ ops, op.over K CleanInvalidation) :
    Represents K (run step ∅ ops) (run KeyMap.step (fun _ => none) ops) :=
  refines_map (clean_separated hK hn) hops

/-- A key of the step that runs the simulations. -/
def simulationKey (sampleId : String) : CacheKey :=
  ⟨"RUN_SIM", sampleId, "3.7.0", "inputs", "code", "python", 0, 1⟩

theorem represents_two_samples :
    Represents (fun key => key = simulationKey "0001" ∨ key = simulationKey "0002")
      (run step ∅ [.store (simulationKey "0001") ⟨"a", 0⟩, .store (simulationKey "0002") ⟨"b", 0⟩,
        .invalidate (.sample "RUN_SIM" "0001")])
      (run KeyMap.step (fun _ => none) [.store (simulationKey "0001") ⟨"a", 0⟩,
        .store (simulationKey "0002") ⟨"b", 0⟩, .invalidate (.sample "RUN_SIM" "0001")]) := by
  refine represents_of_clean (fun key hkey => ?_) (fun key key' hkey hkey' h => ?_) fun op ho => ?_
  · rcases hkey with rfl | rfl <;> unfold Clean <;> decide +kernel
  · rcases hkey with rfl | rfl <;> rcases hkey' with rfl | rfl <;> revert h <;> decide +kernel
  · rcases List.mem_cons.mp ho with rfl | ho
    · exact Or.inl rfl
    · rcases List.mem_cons.mp ho with rfl | ho
      · exact Or.inr rfl
      · rw [List.mem_singleton.mp ho]
        exact ⟨⟨by decide +kernel, by simp [Glob.Plain]⟩, by decide +kernel, by simp [Glob.Plain]⟩

end SharedStore

end OSimFlow.Cache
