import OSimFlow.Lib.Dict

/-!
# The local cache

`CacheKey` and the table it is the primary key of. A lookup is a hit when the
row is there, its exit code is 0 and its output path still exists; what is on
the path now is nobody's business here.
-/

namespace OSimFlow.Cache

open OSimFlow.Lib (Dict)

/-- Inputs that, if any one changes, invalidate the cached output. -/
structure CacheKey where
  step : String
  sampleId : String
  openstudioVersion : String
  inputsSha256 : String
  codeSha256 : String
  containerDigest : String
  generation : Nat
  nSamples : Nat
deriving DecidableEq, Repr

/-- A row of `cache_entries`. -/
structure CacheRow where
  outputPath : String
  exitCode : Int
deriving DecidableEq

/-- The path a row gives, if the run was a success and the path exists. -/
def CacheRow.hit (row : CacheRow) (pathExists : String → Bool) : Option String :=
  if row.exitCode = 0 ∧ pathExists row.outputPath = true then some row.outputPath else none

/-- `SQLiteCache`: the table. -/
abbrev SQLiteCache := Dict CacheKey CacheRow

namespace SQLiteCache

/-- `lookup`. -/
def lookup (c : SQLiteCache) (pathExists : String → Bool) (key : CacheKey) :
    Option String :=
  (c.get? key).bind fun row => row.hit pathExists

/-- `store`: `INSERT OR REPLACE`. -/
def store (c : SQLiteCache) (key : CacheKey) (outputPath : String) (exitCode : Int) :
    SQLiteCache :=
  c.set key ⟨outputPath, exitCode⟩

/-- `invalidate_step`. -/
def invalidateStep (c : SQLiteCache) (step : String) : SQLiteCache :=
  c.eraseIf fun key => key.step == step

/-- `invalidate_sample`. -/
def invalidateSample (c : SQLiteCache) (step sampleId : String) : SQLiteCache :=
  c.eraseIf fun key => key.step == step && key.sampleId == sampleId

end SQLiteCache

/-- The two kinds of invalidation. -/
inductive Invalidation where
  | step (step : String)
  | sample (step sampleId : String)
deriving DecidableEq, Repr

/-- The keys an invalidation is about. -/
def Invalidation.covers : Invalidation → CacheKey → Bool
  | step s, key => key.step == s
  | sample s x, key => key.step == s && key.sampleId == x

/-- Either of them, on the table. -/
def SQLiteCache.invalidate (c : SQLiteCache) : Invalidation → SQLiteCache
  | .step s => SQLiteCache.invalidateStep c s
  | .sample s x => SQLiteCache.invalidateSample c s x

theorem SQLiteCache.get?_invalidate (c : SQLiteCache) (inv : Invalidation) (key : CacheKey) :
    (SQLiteCache.invalidate c inv).get? key = if inv.covers key then none else c.get? key := by
  cases inv with
  | step s => exact Dict.get?_eraseIf c _ key
  | sample s x => exact Dict.get?_eraseIf c _ key

end OSimFlow.Cache
