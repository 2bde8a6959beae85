import OSimFlow.Cache.SQLiteCache
import OSimFlow.Lib.Nullable
import Mathlib.Data.Finset.Card

/-!
# Many lookups in one query

A step asks the cache for all of its samples at once. Few keys are put in one
`IN` of row values; from the threshold on they go through a temporary table
that is joined to `cache_entries`. Either way the rows that come back are filed
under the key columns, and each distinct key is then treated as `lookup` treats
it: no row, a failed run and a path that is gone are misses.

> `lookupMany_refines`: of any table, for any keys, `lookup_many` gives every
> distinct key what `lookup` gives it, and leaves the statistics that one
> `lookup` of each distinct key leaves.

A key is bound as it is, so that a field may be null. Null is equal to nothing,
in the one query as in the other, and to nothing that is stored: the columns of
the table are `NOT NULL`.
-/

namespace OSimFlow.Cache.Batched

open OSimFlow.Lib (Dict Truth)

/-- A key as its fields are bound in a statement. -/
structure BoundKey where
  step : Option String
  sampleId : Option String
  openstudioVersion : Option String
  inputsSha256 : Option String
  codeSha256 : Option String
  containerDigest : Option String
  generation : Option Int
  nSamples : Option Int
deriving DecidableEq, Repr

/-- `CacheEntry`. -/
structure CacheEntry (τ : Type) where
  outputPath : String
  startedAt : τ
  finishedAt : τ
  exitCode : Int
deriving DecidableEq

/-- A row of `cache_entries`. -/
structure EntryRow (τ : Type) where
  step : String
  sampleId : String
  openstudioVersion : String
  inputsSha256 : String
  codeSha256 : String
  containerDigest : String
  generation : Int
  nSamples : Int
  entry : CacheEntry τ

variable {τ : Type}

/-- The key columns of a row. -/
def EntryRow.key (row : EntryRow τ) : BoundKey where
  step := some row.step
  sampleId := some row.sampleId
  openstudioVersion := some row.openstudioVersion
  inputsSha256 := some row.inputsSha256
  codeSha256 := some row.codeSha256
  containerDigest := some row.containerDigest
  generation := some row.generation
  nSamples := some row.nSamples

/-- The table; its key columns are the primary key. -/
structure CacheEntries (τ : Type) where
  rows : List (EntryRow τ)
  unique : (rows.map EntryRow.key).Nodup

/-- `CacheStats`. -/
structure CacheStats where
  hits : Nat
  misses : Nat
deriving DecidableEq, Repr

def CacheStats.hit (stats : CacheStats) : CacheStats := { stats with hits := stats.hits + 1 }

def CacheStats.miss (stats : CacheStats) : CacheStats := { stats with misses := stats.misses + 1 }

def CacheStats.total (stats : CacheStats) : Nat := stats.hits + stats.misses

@[simp] theorem CacheStats.total_hit (stats : CacheStats) : stats.hit.total = stats.total + 1 := by
  show stats.hits + 1 + stats.misses = stats.hits + stats.misses + 1
  omega

@[simp] theorem CacheStats.total_miss (stats : CacheStats) :
    stats.miss.total = stats.total + 1 := by
  show stats.hits + (stats.misses + 1) = stats.hits + stats.misses + 1
  omega

/-! ## The conditions of the queries -/

/-- The equality of the eight key columns. -/
def BoundKey.sameAs (a b : BoundKey) : Truth :=
  Truth.all [Truth.eq a.step b.step, Truth.eq a.sampleId b.sampleId,
    Truth.eq a.openstudioVersion b.openstudioVersion, Truth.eq a.inputsSha256 b.inputsSha256,
    Truth.eq a.codeSha256 b.codeSha256, Truth.eq a.containerDigest b.containerDigest,
    Truth.eq a.generation b.generation, Truth.eq a.nSamples b.nSamples]

/-- A stored row is met by the key that is its own. -/
theorem EntryRow.sameAs_iff (row : EntryRow τ) (key : BoundKey) :
    (row.key.sameAs key).isTrue = true ↔ row.key = key := by
  cases key
  simp only [BoundKey.sameAs, EntryRow.key, Truth.all_isTrue_iff, List.forall_mem_cons,
    Truth.eq_some_isTrue_iff, BoundKey.mk.injEq, List.not_mem_nil, false_imp_iff,
    implies_true, and_true]

theorem BoundKey.sameAs_comm (a b : BoundKey) : (a.sameAs b).isTrue = (b.sameAs a).isTrue := by
  rw [Bool.eq_iff_iff]
  simp only [BoundKey.sameAs, Truth.all_isTrue_iff, List.forall_mem_cons, List.not_mem_nil,
    false_imp_iff, implies_true, and_true, Truth.eq_comm_isTrue a.step,
    Truth.eq_comm_isTrue a.sampleId, Truth.eq_comm_isTrue a.openstudioVersion,
    Truth.eq_comm_isTrue a.inputsSha256, Truth.eq_comm_isTrue a.codeSha256,
    Truth.eq_comm_isTrue a.containerDigest, Truth.eq_comm_isTrue a.generation,
    Truth.eq_comm_isTrue a.nSamples]

/-- Keys that meet in every column are one key, without nulls. -/
theorem BoundKey.eq_of_sameAs {a b : BoundKey} (h : (a.sameAs b).isTrue = true) : a = b := by
  have heq : ∀ {α : Type} [DecidableEq α] {x y : Option α},
      (Truth.eq x y).isTrue = true → x = y := by
    intro α _ x y h
    obtain ⟨z, hx, hy⟩ := Truth.eq_isTrue_iff.mp h
    rw [hx, hy]
  cases a
  cases b
  simp only [BoundKey.sameAs, Truth.all_isTrue_iff, List.forall_mem_cons] at h
  obtain ⟨h₁, h₂, h₃, h₄, h₅, h₆, h₇, h₈, -⟩ := h
  rw [heq h₁, heq h₂, heq h₃, heq h₄, heq h₅, heq h₆, heq h₇, heq h₈]

/-! ## One key -/

/-- `lookup`. -/
def lookup (db : CacheEntries τ) (pathExists : String → Bool) (key : BoundKey)
    (stats : CacheStats) : Option String × CacheStats :=
  match db.rows.find? fun row => (row.key.sameAs key).isTrue with
  | none => (none, stats.miss)
  | some row =>
    if row.entry.exitCode ≠ 0 then (none, stats.miss)
    else if pathExists row.entry.outputPath = false then (none, stats.miss)
    else (some row.entry.outputPath, stats.hit)

/-! ## Many keys -/

/-- `_LOOKUP_MANY_IN_THRESHOLD`. -/
def lookupManyInThreshold : Nat := 100

/-- `_row_to_cache_dict`, of the key columns and the other columns of the selected rows. -/
def rowToCacheDict (rows : List (BoundKey × CacheEntry τ)) : Dict BoundKey (CacheEntry τ) :=
  Dict.setAll ∅ rows

/-- `_lookup_many_in`. -/
def lookupManyIn (db : CacheEntries τ) (keys : List BoundKey) : Dict BoundKey (CacheEntry τ) :=
  let rows := db.rows.filter fun row => (Truth.any (keys.map row.key.sameAs)).isTrue
  rowToCacheDict (rows.map fun row => (row.key, row.entry))

/-- `INSERT OR IGNORE` into the temporary table, whose key columns may be null. -/
def insertOrIgnore (table : List BoundKey) (key : BoundKey) : List BoundKey :=
  if table.any fun k => (k.sameAs key).isTrue then table else table ++ [key]

/-- `LEFT JOIN cache_entries`: every row of the temporary table with each row that meets it,
or once with nulls. -/
def leftJoin (table : List BoundKey) (db : CacheEntries τ) :
    List (BoundKey × Option (CacheEntry τ)) :=
  table.flatMap fun k =>
    match db.rows.filter fun row => (k.sameAs row.key).isTrue with
    | [] => [(k, none)]
    | row :: rows => (row :: rows).map fun row => (k, some row.entry)

/-- `_lookup_many_temp_table`. -/
def lookupManyTempTable (db : CacheEntries τ) (keys : List BoundKey) :
    Dict BoundKey (CacheEntry τ) :=
  let table := keys.foldl insertOrIgnore []
  -- `WHERE e.output_path IS NOT NULL`
  rowToCacheDict ((leftJoin table db).filterMap fun joined => joined.2.map (joined.1, ·))

/-- The keys without their repetitions. -/
def uniqueKeys (keys : List BoundKey) : List BoundKey :=
  keys.foldl Lib.appendNew []

/-- What the loop over the distinct keys does with one of them. -/
def settle (pathExists : String → Bool) (rawHits : Dict BoundKey (CacheEntry τ))
    (acc : Dict BoundKey (Option (CacheEntry τ)) × CacheStats) (key : BoundKey) :
    Dict BoundKey (Option (CacheEntry τ)) × CacheStats :=
  match rawHits.get? key with
  | none => (acc.1.set key none, acc.2.miss)
  | some row =>
    if row.exitCode ≠ 0 then (acc.1.set key none, acc.2.miss)
    else if pathExists row.outputPath = false then (acc.1.set key none, acc.2.miss)
    else (acc.1.set key (some row), acc.2.hit)

/-- The rows of the distinct keys, by the one query or the other. -/
def rawHits (db : CacheEntries τ) (unique : List BoundKey) : Dict BoundKey (CacheEntry τ) :=
  if unique.length ≤ lookupManyInThreshold then lookupManyIn db unique
  else lookupManyTempTable db unique

/-- `lookup_many`; `none` where `result[k]` raises `KeyError`. -/
def lookupMany (db : CacheEntries τ) (pathExists : String → Bool) (keys : List BoundKey)
    (stats : CacheStats) : Option (Dict BoundKey (Option (CacheEntry τ)) × CacheStats) :=
  if keys = [] then some (∅, stats)
  else
    let unique := uniqueKeys keys
    let settled := unique.foldl (settle pathExists (rawHits db unique)) (∅, stats)
    let found := keys.foldlM (fun found k => (settled.1.get? k).map (found.set k)) ∅
    found.map (·, settled.2)

/-! ## The table as a dictionary -/

/-- What the table holds under each key. -/
def CacheEntries.dict (db : CacheEntries τ) : Dict BoundKey (CacheEntry τ) where
  items := db.rows.map fun row => (row.key, row.entry)
  nodup := by
    rw [List.map_map]
    exact db.unique

theorem CacheEntries.get?_dict_eq_some_iff (db : CacheEntries τ) (key : BoundKey)
    (entry : CacheEntry τ) :
    db.dict.get? key = some entry ↔ ∃ row ∈ db.rows, row.key = key ∧ row.entry = entry := by
  rw [← Dict.mem_items]
  show (key, entry) ∈ db.rows.map (fun row => (row.key, row.entry)) ↔ _
  rw [List.mem_map]
  exact exists_congr fun row => and_congr_right fun _ => Prod.mk_inj

/-- The entry of a row that counts as a hit. -/
def usable (pathExists : String → Bool) (found : Option (CacheEntry τ)) : Option (CacheEntry τ) :=
  found.filter fun row => decide (row.exitCode = 0) && pathExists row.outputPath

/-- The statistics after a hit or a miss. -/
def CacheStats.count (stats : CacheStats) (hit : Bool) : CacheStats :=
  if hit then stats.hit else stats.miss

theorem CacheStats.total_count (stats : CacheStats) (hit : Bool) :
    (stats.count hit).total = stats.total + 1 := by
  cases hit with
  | true => exact stats.total_hit
  | false => exact stats.total_miss

variable (pathExists : String → Bool)

/-- A row that is found, tested the way both methods test it. -/
theorem usable_some (row : CacheEntry τ) :
    usable pathExists (some row) =
      if row.exitCode ≠ 0 then none
      else if pathExists row.outputPath = false then none else some row := by
  unfold usable
  by_cases hcode : row.exitCode = 0
  · rw [if_neg (not_not.mpr hcode)]
    by_cases hpath : pathExists row.outputPath = false
    · rw [if_pos hpath, Option.filter_some, if_neg (by simp [hpath])]
    · rw [if_neg hpath, Option.filter_some, if_pos (by simp [hcode, hpath])]
  · rw [if_pos hcode, Option.filter_some, if_neg (by simp [hcode])]

/-- `lookup` reads the dictionary. -/
theorem lookup_eq (db : CacheEntries τ) (key : BoundKey) (stats : CacheStats) :
    lookup db pathExists key stats =
      ((usable pathExists (db.dict.get? key)).map CacheEntry.outputPath,
        stats.count (usable pathExists (db.dict.get? key)).isSome) := by
  have hfind : db.dict.get? key =
      (db.rows.find? fun row => (row.key.sameAs key).isTrue).map EntryRow.entry := by
    show ((db.rows.map fun row => (row.key, row.entry)).find? _).map _ = _
    have hcond : (fun p : BoundKey × CacheEntry τ => decide (p.1 = key)) ∘
        (fun row : EntryRow τ => (row.key, row.entry)) =
        fun row => (row.key.sameAs key).isTrue := by
      funext row
      rw [Bool.eq_iff_iff, row.sameAs_iff]
      exact decide_eq_true_iff
    rw [List.find?_map, Option.map_map, hcond]
    rfl
  unfold lookup
  rw [hfind]
  cases db.rows.find? fun row => (row.key.sameAs key).isTrue with
  | none => rfl
  | some row =>
    rw [Option.map_some, usable_some]
    by_cases hcode : row.entry.exitCode ≠ 0
    · simp only [if_pos hcode]
      rfl
    · simp only [if_neg hcode]
      by_cases hpath : pathExists row.entry.outputPath = false
      · simp only [if_pos hpath]
        rfl
      · simp only [if_neg hpath]
        rfl

/-- One round of the loop, of the same two tests. -/
theorem settle_eq (raw : Dict BoundKey (CacheEntry τ))
    (acc : Dict BoundKey (Option (CacheEntry τ)) × CacheStats) (key : BoundKey) :
    settle pathExists raw acc key =
      (acc.1.set key (usable pathExists (raw.get? key)),
        acc.2.count (usable pathExists (raw.get? key)).isSome) := by
  unfold settle
  cases raw.get? key with
  | none => rfl
  | some row =>
    rw [usable_some]
    by_cases hcode : row.exitCode ≠ 0
    · simp only [if_pos hcode]
      rfl
    · simp only [if_neg hcode]
      by_cases hpath : pathExists row.outputPath = false
      · simp only [if_pos hpath]
        rfl
      · simp only [if_neg hpath]
        rfl

/-! ## The two queries -/

/-- The rows come back under the key if they are the rows of the key. -/
theorem get?_rowToCacheDict {db : CacheEntries τ} {key : BoundKey}
    {rows : List (BoundKey × CacheEntry τ)}
    (h : ∀ entry, (key, entry) ∈ rows ↔ db.dict.get? key = some entry) :
    (rowToCacheDict rows).get? key = db.dict.get? key := by
  unfold rowToCacheDict
  rw [Dict.get?_setAll, Dict.get?_empty, Option.or_none]
  cases hget : db.dict.get? key with
  | some entry =>
    refine Dict.lastOf_eq_some ((h entry).mpr hget) fun entry' hentry' => ?_
    have hget' := (h entry').mp hentry'
    exact Option.some.inj (hget'.symm.trans hget)
  | none =>
    cases hlast : Dict.lastOf key rows with
    | none => rfl
    | some entry =>
      have hget' := (h entry).mp (Dict.mem_of_lastOf hlast)
      exact nomatch hget.symm.trans hget'

theorem get?_lookupManyIn (db : CacheEntries τ) {keys : List BoundKey} {key : BoundKey}
    (hkey : key ∈ keys) : (lookupManyIn db keys).get? key = db.dict.get? key := by
  refine get?_rowToCacheDict fun entry => ?_
  rw [db.get?_dict_eq_some_iff, List.mem_map]
  constructor
  · intro ⟨row, hrow, heq⟩
    obtain ⟨hsame, hentry⟩ := Prod.mk_inj.mp heq
    exact ⟨row, List.mem_of_mem_filter hrow, hsame, hentry⟩
  · intro ⟨row, hrow, hsame, hentry⟩
    refine ⟨row, List.mem_filter.mpr ⟨hrow, ?_⟩, by rw [hsame, hentry]⟩
    have hmeets := (row.sameAs_iff key).mpr hsame
    exact Truth.any_isTrue_iff.mpr ⟨_, List.mem_map.mpr ⟨key, hkey, rfl⟩, hmeets⟩

theorem mem_insertOrIgnore {table : List BoundKey} {key k : BoundKey}
    (h : k = key ∨ k ∈ table) : k ∈ insertOrIgnore table key := by
  unfold insertOrIgnore
  split
  next hany =>
    rcases h with rfl | h
    · -- a row that conflicts with the key is the key
      obtain ⟨k', hk', hsame⟩ := List.any_eq_true.mp hany
      rw [← BoundKey.eq_of_sameAs hsame]
      exact hk'
    · exact h
  next =>
    rcases h with rfl | h
    · exact List.mem_append_right _ List.mem_cons_self
    · exact List.mem_append_left _ h

/-- Every key gets into the temporary table. -/
theorem mem_foldl_insertOrIgnore {keys table : List BoundKey} {k : BoundKey}
    (h : k ∈ keys ∨ k ∈ table) : k ∈ keys.foldl insertOrIgnore table := by
  induction keys generalizing table with
  | nil => exact h.resolve_left List.not_mem_nil
  | cons key keys ih =>
    rw [List.foldl_cons]
    apply ih
    rcases h with h | h
    · rcases List.mem_cons.mp h with rfl | h
      · exact .inr (mem_insertOrIgnore (.inl rfl))
      · exact .inl h
    · exact .inr (mem_insertOrIgnore (.inr h))

/-- What is left of the join by the condition on `output_path`. -/
theorem mem_joined {table : List BoundKey} {db : CacheEntries τ} {key : BoundKey}
    {entry : CacheEntry τ} :
    (key, entry) ∈ (leftJoin table db).filterMap (fun joined => joined.2.map (joined.1, ·)) ↔
      key ∈ table ∧ db.dict.get? key = some entry := by
  have hmeets : (∃ row ∈ db.rows.filter fun row => (key.sameAs row.key).isTrue,
      row.entry = entry) ↔ db.dict.get? key = some entry := by
    rw [db.get?_dict_eq_some_iff]
    refine exists_congr fun row => ?_
    rw [List.mem_filter, BoundKey.sameAs_comm, row.sameAs_iff, and_assoc]
  rw [← hmeets, List.mem_filterMap]
  constructor
  · intro ⟨⟨k, found⟩, hmem, heq⟩
    obtain ⟨entry', hfound, hpair⟩ := Option.map_eq_some_iff.mp heq
    obtain ⟨rfl, rfl⟩ := Prod.mk_inj.mp hpair
    obtain ⟨k', hk', hrow⟩ := List.mem_flatMap.mp hmem
    cases hrows : db.rows.filter fun row => (k'.sameAs row.key).isTrue with
    | nil =>
      rw [hrows, List.mem_singleton] at hrow
      obtain ⟨-, hnone⟩ := Prod.mk_inj.mp hrow
      exact nomatch hnone.symm.trans hfound
    | cons row rows =>
      rw [hrows] at hrow
      obtain ⟨row', hrow', hpair'⟩ := List.mem_map.mp hrow
      obtain ⟨rfl, hentry⟩ := Prod.mk_inj.mp hpair'
      exact ⟨hk', row', by rw [hrows]; exact hrow', Option.some.inj (hentry.trans hfound)⟩
  · intro ⟨hkey, row, hrow, hentry⟩
    refine ⟨(key, some row.entry), List.mem_flatMap.mpr ⟨key, hkey, ?_⟩, by rw [hentry]; rfl⟩
    cases hrows : db.rows.filter fun row => (key.sameAs row.key).isTrue with
    | nil =>
      rw [hrows] at hrow
      exact nomatch hrow
    | cons row' rows =>
      rw [hrows] at hrow
      exact List.mem_map.mpr ⟨row, hrow, rfl⟩

theorem get?_lookupManyTempTable (db : CacheEntries τ) {keys : List BoundKey} {key : BoundKey}
    (hkey : key ∈ keys) : (lookupManyTempTable db keys).get? key = db.dict.get? key := by
  refine get?_rowToCacheDict fun entry => ?_
  rw [mem_joined]
  exact and_iff_right (mem_foldl_insertOrIgnore (.inl hkey))

/-- On either side of the threshold. -/
theorem get?_rawHits (db : CacheEntries τ) {keys : List BoundKey} {key : BoundKey}
    (hkey : key ∈ keys) : (rawHits db keys).get? key = db.dict.get? key := by
  unfold rawHits
  split
  · exact get?_lookupManyIn db hkey
  · exact get?_lookupManyTempTable db hkey

/-! ## The loops over the keys -/

/-- What the loop over the distinct keys leaves: an answer for each, and the statistics that
`lookup` of one after another leaves. -/
theorem foldl_settle (db : CacheEntries τ) {raw : Dict BoundKey (CacheEntry τ)}
    {unique : List BoundKey} (hraw : ∀ key ∈ unique, raw.get? key = db.dict.get? key)
    (acc : Dict BoundKey (Option (CacheEntry τ)) × CacheStats) :
    unique.foldl (settle pathExists raw) acc =
      (acc.1.setAll (unique.map fun key => (key, usable pathExists (db.dict.get? key))),
        unique.foldl (fun stats key => (lookup db pathExists key stats).2) acc.2) := by
  induction unique generalizing acc with
  | nil => rfl
  | cons key unique ih =>
    rw [List.foldl_cons, ih (fun k hk => hraw k (List.mem_cons_of_mem _ hk)), settle_eq,
      hraw key List.mem_cons_self, List.foldl_cons, lookup_eq]
    rfl

/-- The dictionary that is returned, where every key has an answer. -/
theorem foldlM_result {settled : Dict BoundKey (Option (CacheEntry τ))}
    {answer : BoundKey → Option (CacheEntry τ)} {keys : List BoundKey}
    (h : ∀ key ∈ keys, settled.get? key = some (answer key))
    (found : Dict BoundKey (Option (CacheEntry τ))) :
    keys.foldlM (fun found k => (settled.get? k).map (found.set k)) found =
      some (found.setAll (keys.map fun key => (key, answer key))) := by
  induction keys generalizing found with
  | nil => rfl
  | cons key keys ih =>
    rw [List.foldlM_cons, h key List.mem_cons_self]
    exact ih (fun k hk => h k (List.mem_cons_of_mem _ hk)) _

/-- One lookup counts for one. -/
theorem total_foldl_lookup (db : CacheEntries τ) (unique : List BoundKey) (stats : CacheStats) :
    (unique.foldl (fun stats key => (lookup db pathExists key stats).2) stats).total =
      stats.total + unique.length := by
  induction unique generalizing stats with
  | nil => rfl
  | cons key unique ih =>
    rw [List.foldl_cons, ih, lookup_eq, CacheStats.total_count, List.length_cons]
    omega

theorem mem_uniqueKeys {keys : List BoundKey} {key : BoundKey} :
    key ∈ uniqueKeys keys ↔ key ∈ keys := by
  unfold uniqueKeys
  rw [Lib.mem_foldl_appendNew]
  exact or_iff_right List.not_mem_nil

/-- `lookup_many`, in terms of the dictionary and of the distinct keys. -/
theorem lookupMany_eq (db : CacheEntries τ) (keys : List BoundKey) (stats : CacheStats) :
    lookupMany db pathExists keys stats =
      some (Dict.setAll ∅ (keys.map fun key => (key, usable pathExists (db.dict.get? key))),
        (uniqueKeys keys).foldl (fun stats key => (lookup db pathExists key stats).2) stats) := by
  unfold lookupMany
  split
  next h =>
    rw [h]
    rfl
  next =>
    have hraw : ∀ key ∈ uniqueKeys keys,
        (rawHits db (uniqueKeys keys)).get? key = db.dict.get? key :=
      fun key hkey => get?_rawHits db hkey
    have hanswers : ∀ key ∈ keys, (Dict.setAll ∅ ((uniqueKeys keys).map fun key =>
        (key, usable pathExists (db.dict.get? key)))).get? key =
          some (usable pathExists (db.dict.get? key)) := by
      intro key hkey
      rw [Dict.get?_setAll_map, if_pos (mem_uniqueKeys.mpr hkey)]
    simp only [foldl_settle pathExists db hraw]
    rw [foldlM_result hanswers]
    rfl

/-- Whatever the table holds and however many keys there are, `lookup_many` answers every
distinct key, and no other, as `lookup` does, and counts what one `lookup` of each distinct
key counts: one for each of them. -/
theorem lookupMany_refines (db : CacheEntries τ) (keys : List BoundKey) (stats : CacheStats) :
    ∃ found after, lookupMany db pathExists keys stats = some (found, after) ∧
      (∀ key, key ∈ found.keys ↔ key ∈ keys) ∧
      (∀ key ∈ keys, ∀ before, (found.get? key).map (Option.map CacheEntry.outputPath) =
        some (lookup db pathExists key before).1) ∧
      after = found.keys.foldl (fun stats key => (lookup db pathExists key stats).2) stats ∧
      after.hits + after.misses = stats.hits + stats.misses + keys.toFinset.card := by
  have hkeys : (Dict.setAll ∅ (keys.map fun key =>
      (key, usable pathExists (db.dict.get? key)))).keys = uniqueKeys keys := by
    rw [Dict.keys_setAll, List.map_map]
    show (keys.map id).foldl Lib.appendNew [] = _
    rw [List.map_id]
    rfl
  refine ⟨_, _, lookupMany_eq pathExists db keys stats, fun key => ?_, fun key hkey before => ?_,
    ?_, ?_⟩
  · rw [hkeys, mem_uniqueKeys]
  · rw [Dict.get?_setAll_map, if_pos hkey, lookup_eq]
    rfl
  · rw [hkeys]
  · have hcard : keys.toFinset.card = (uniqueKeys keys).length := by
      have hnodup : (uniqueKeys keys).Nodup := Lib.nodup_foldl_appendNew List.nodup_nil
      rw [← List.toFinset_card_of_nodup hnodup]
      congr 1
      ext key
      rw [List.mem_toFinset, List.mem_toFinset, mem_uniqueKeys]
    rw [hcard]
    exact total_foldl_lookup pathExists db (uniqueKeys keys) stats

/-! ## The table of the cache -/

/-- A key whose fields are all there. -/
def bound (key : CacheKey) : BoundKey where
  step := some key.step
  sampleId := some key.sampleId
  openstudioVersion := some key.openstudioVersion
  inputsSha256 := some key.inputsSha256
  codeSha256 := some key.codeSha256
  containerDigest := some key.containerDigest
  generation := some key.generation
  nSamples := some key.nSamples

theorem bound_injective : Function.Injective bound := by
  intro a b h
  cases a
  cases b
  simpa only [bound, BoundKey.mk.injEq, CacheKey.mk.injEq, Option.some.injEq, Int.natCast_inj]
    using h

/-- The rows of a cache, with the times at which they were written. -/
def SQLiteCache.entries (c : SQLiteCache) (writtenAt : CacheKey → τ) : CacheEntries τ where
  rows := c.items.map fun item => {
    step := item.1.step
    sampleId := item.1.sampleId
    openstudioVersion := item.1.openstudioVersion
    inputsSha256 := item.1.inputsSha256
    codeSha256 := item.1.codeSha256
    containerDigest := item.1.containerDigest
    generation := item.1.generation
    nSamples := item.1.nSamples
    entry := ⟨item.2.outputPath, writtenAt item.1, writtenAt item.1, item.2.exitCode⟩ }
  unique := by
    have h := c.nodup.map bound_injective
    rw [List.map_map] at h ⊢
    exact h

/-- The lookup by the query is the lookup in the table the other modules read. -/
theorem lookup_entries (c : SQLiteCache) (writtenAt : CacheKey → τ) (key : CacheKey)
    (stats : CacheStats) :
    (lookup (SQLiteCache.entries c writtenAt) pathExists (bound key) stats).1 =
      Cache.SQLiteCache.lookup c pathExists key := by
  have hget : (SQLiteCache.entries c writtenAt).dict.get? (bound key) = (c.get? key).map fun row =>
      ⟨row.outputPath, writtenAt key, writtenAt key, row.exitCode⟩ := by
    cases hrow : c.get? key with
    | some row =>
      rw [Option.map_some, CacheEntries.get?_dict_eq_some_iff]
      exact ⟨_, List.mem_map.mpr ⟨(key, row), Dict.mem_items.mpr hrow, rfl⟩, rfl, rfl⟩
    | none =>
      refine Dict.get?_of_notMem fun hmem => ?_
      obtain ⟨entry, hentry⟩ := Dict.mem_keys_iff.mp hmem
      obtain ⟨row, hmem', hkey, -⟩ := (CacheEntries.get?_dict_eq_some_iff _ _ _).mp hentry
      obtain ⟨item, hitem, rfl⟩ := List.mem_map.mp hmem'
      have hitem' : c.get? item.1 = some item.2 := Dict.mem_items.mp hitem
      rw [@bound_injective item.1 key hkey, hrow] at hitem'
      exact nomatch hitem'
  rw [lookup_eq, hget]
  unfold Cache.SQLiteCache.lookup
  cases c.get? key with
  | none => rfl
  | some row =>
    rw [Option.map_some, usable_some, Option.bind_some]
    unfold CacheRow.hit
    by_cases hcode : row.exitCode = 0
    · rw [if_neg (not_not.mpr hcode)]
      by_cases hpath : pathExists row.outputPath = false
      · rw [if_pos hpath, if_neg (by simp [hpath])]
        rfl
      · rw [if_neg hpath, if_pos ⟨hcode, by simpa using hpath⟩]
        rfl
    · rw [if_pos hcode, if_neg fun h => hcode h.1]
      rfl

end OSimFlow.Cache.Batched
