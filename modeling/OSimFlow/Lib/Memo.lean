import OSimFlow.Lib.InPlace
import OSimFlow.Lib.Run

/-!
# A table of results that are overwritten in place

A memoising step: on a hit it returns the location the table gives, on a miss it
works there in place. The table says nothing of what is on the location since.

What a hit returns is fresh when it is what a cold run on the present inputs
would leave. `warm_iff`: a session has only fresh hits, whatever the work is,
exactly when at each of them the location was settled on the present inputs.
The sessions are compared by their logs: who worked where, on which inputs, and
how far (`Logged`). The table decides nothing here but when there is a hit.
-/

namespace OSimFlow.Lib

open InPlace

/-- A memoising step: what is kept beside the locations, what a call does to it, what is done
on the locations, and the hits a call takes. -/
structure Memo (H E L I : Type) where
  next : H → E → H
  tries : H → E → List (L × Attempt I)
  hits : H → E → List (L × I)

namespace Memo

variable {H E L I P B : Type}

/-- The locations as they are. -/
structure Disk (H L P B : Type) where
  base : H
  dirs : L → Tree P B

/-- The locations by their history. -/
structure Logged (H L I : Type) where
  base : H
  log : L → List (Attempt I)

/-- Nothing was done yet. -/
def Disk.start (base : H) : Disk H L P B :=
  ⟨base, fun _ _ => none⟩

def Logged.start (base : H) : Logged H L I :=
  ⟨base, fun _ => []⟩

variable [DecidableEq L]

/-- An attempt is made on a location. -/
def record (log : L → List (Attempt I)) (try_ : L × Attempt I) : L → List (Attempt I) :=
  Function.update log try_.1 (log try_.1 ++ [try_.2])

def logStep (m : Memo H E L I) (s : Logged H L I) (e : E) : Logged H L I :=
  ⟨m.next s.base e, (m.tries s.base e).foldl record s.log⟩

/-- At each hit the location was settled. -/
def Current [DecidableEq P] (prepare : I → List (FileOp P B)) (m : Memo H E L I)
    (s : Logged H L I) (e : E) : Prop :=
  ∀ hit ∈ m.hits s.base e, Settled prepare hit.2 ((m.logStep s e).log hit.1)

variable [DecidableEq P] (prepare work : I → List (FileOp P B))

/-- It is made on the disk. -/
def perform (dirs : L → Tree P B) (try_ : L × Attempt I) : L → Tree P B :=
  Function.update dirs try_.1 ((dirs try_.1).after (try_.2.ops prepare work))

def diskStep (m : Memo H E L I) (s : Disk H L P B) (e : E) : Disk H L P B :=
  ⟨m.next s.base e, (m.tries s.base e).foldl (perform prepare work) s.dirs⟩

/-- Each hit returns what a cold run would leave. -/
def Warm (m : Memo H E L I) (s : Disk H L P B) (e : E) : Prop :=
  ∀ hit ∈ m.hits s.base e, (m.diskStep prepare work s e).dirs hit.1 = cold prepare work hit.2

/-- The disk a history leads to. -/
def Logged.disk (s : Logged H L I) : Disk H L P B :=
  ⟨s.base, fun l => replay prepare work (s.log l)⟩

theorem perform_replay (log : L → List (Attempt I)) (try_ : L × Attempt I) :
    perform prepare work (fun l => replay prepare work (log l)) try_ =
      fun l => replay prepare work (record log try_ l) := by
  funext l
  rw [perform, record]
  by_cases hl : l = try_.1
  · rw [hl, Function.update_self, Function.update_self, replay_snoc]
  · rw [Function.update_of_ne hl, Function.update_of_ne hl]

theorem foldl_perform_replay (tries : List (L × Attempt I)) (log : L → List (Attempt I)) :
    tries.foldl (perform prepare work) (fun l => replay prepare work (log l)) =
      fun l => replay prepare work (tries.foldl record log l) := by
  induction tries generalizing log with
  | nil => rfl
  | cons try_ tries ih =>
    rw [List.foldl_cons, List.foldl_cons, perform_replay]
    exact ih (record log try_)

variable {prepare work}

/-- The disk follows the history. -/
theorem diskStep_disk (m : Memo H E L I) (s : Logged H L I) (e : E) :
    m.diskStep prepare work (s.disk prepare work) e = (m.logStep s e).disk prepare work := by
  rw [diskStep, Logged.disk, foldl_perform_replay]
  rfl

variable [Infinite P] [Nontrivial B]

/-- In which sessions every hit is fresh, whatever the work is. -/
theorem warm_iff (m : Memo H E L I) (base : H) (es : List E) :
    (∀ work, Along (m.diskStep prepare work) (m.Warm prepare work) (Disk.start base) es) ↔
      Along m.logStep (m.Current prepare) (Logged.start base) es := by
  have hrun : ∀ work : I → List (FileOp P B),
      Along (m.diskStep prepare work) (m.Warm prepare work) (Disk.start base) es ↔
        Along m.logStep (fun s e => m.Warm prepare work (s.disk prepare work) e)
          (Logged.start base) es := by
    intro work
    have hstart : (Disk.start base : Disk H L P B) =
        (Logged.start base : Logged H L I).disk prepare work := rfl
    rw [hstart]
    exact along_map _ (Logged.disk prepare work) (diskStep_disk m) _ _ es
  rw [forall_congr' hrun, along_forall]
  refine along_congr m.logStep (I := fun _ => True) (fun _ _ _ => trivial) ?_ trivial es
  intro s e _
  have hhit : ∀ hit : L × I,
      (∀ work, replay prepare work ((m.logStep s e).log hit.1) = cold prepare work hit.2) ↔
        Settled prepare hit.2 ((m.logStep s e).log hit.1) := fun _ => forall_work_iff
  simp only [Warm, diskStep_disk]
  constructor
  · intro h hit hmem
    exact (hhit hit).mp fun work => h work hit hmem
  · intro h work hit hmem
    exact (hhit hit).mpr (h hit hmem) work

end Memo

end OSimFlow.Lib
