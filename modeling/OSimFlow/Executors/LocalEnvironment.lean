import Mathlib.Data.List.Nodup
import Mathlib.Logic.Function.Basic
import OSimFlow.Lib.Run

/-!
# The environment of local tasks

`LocalExecutor` runs its tasks on threads of one process. A task with overrides enters a
`patch.dict` of `os.environ`, which copies the whole environment and updates it, and leaves
it when it is done, which puts the copy back. The tasks of the pool start and end in any
order.

> `NoLeak`: while no task with overrides is running, the environment is the one of the
> beginning.
>
> `noLeak_iff`: a run stays so exactly if each task that leaves as the last one with
> overrides has found that environment when it started.

This is so if the tasks with overrides leave in the reverse of the order they started in
(`noLeak_of_nested`). The tasks themselves leave the environment alone.
-/

namespace OSimFlow.Executors.LocalEnvironment

open OSimFlow.Lib (run Always Along always_iff_along_within)

/-- `os.environ`. -/
abbrev Environ := String → Option String

abbrev Overrides := List (String × String)

/-- `in_dict.update(values)`. -/
def update (environ : Environ) (env : Overrides) : Environ :=
  env.foldl (fun environ item => Function.update environ item.1 (some item.2)) environ

/-- `max_workers` and `max_concurrent_samples`. -/
structure LocalExecutor where
  maxWorkers : Nat
  semaphore : Option Nat

/-- A task that is running, with the copy its `patch.dict` holds. -/
structure Running where
  task : Nat
  original : Option Environ

/-- The process; the newest of the running tasks is the first. -/
structure Process where
  environ : Environ
  running : List Running

inductive Event where
  | start (task : Nat)
  | finish (task : Nat)

/-- Before the first task. -/
def idle (environ : Environ) : Process := ⟨environ, []⟩

/-- A thread of the pool is free, and the semaphore if there is one. -/
def LocalExecutor.hasRoom (ex : LocalExecutor) (p : Process) : Bool :=
  decide (p.running.length < ex.maxWorkers) &&
    ex.semaphore.all fun limit => decide (p.running.length < limit)

/-- The task enters `patch.dict`, if it was submitted with overrides. -/
def Process.enter (p : Process) (task : Nat) : Overrides → Process
  | [] => { p with running := ⟨task, none⟩ :: p.running }
  | item :: env =>
    ⟨update p.environ (item :: env), ⟨task, some p.environ⟩ :: p.running⟩

/-- The task is done, and what it has copied comes back. -/
def Process.leave (p : Process) (r : Running) : Process where
  environ := r.original.getD p.environ
  running := p.running.filter fun r' => decide (r'.task ≠ r.task)

/-- What happens on the pool; `env` is what each task was submitted with. -/
def step (ex : LocalExecutor) (env : Nat → Overrides) (p : Process) : Event → Process
  | .start task =>
    if ex.hasRoom p && p.running.all fun r => decide (r.task ≠ task) then
      p.enter task (env task)
    else p
  | .finish task =>
    match p.running.find? fun r => decide (r.task = task) with
    | none => p
    | some r => p.leave r

/-! ## What should hold, and what it takes -/

/-- No task with overrides is running. -/
def Quiet (running : List Running) : Prop := ∀ r ∈ running, r.original = none

/-- Then the environment is that of the beginning. -/
def NoLeak (environ : Environ) (p : Process) : Prop := Quiet p.running → p.environ = environ

/-- A task that leaves as the last one with overrides has copied the environment of the
beginning. -/
def FoundOriginal (environ : Environ) (p : Process) : Event → Prop
  | .start _ => True
  | .finish task => ∀ r ∈ p.running, r.task = task →
      Quiet (p.running.filter fun r' => decide (r'.task ≠ task)) →
        ∀ copy, r.original = some copy → copy = environ

/-- A task is running once. -/
def Distinct (p : Process) : Prop := (p.running.map Running.task).Nodup

/-- A task with overrides leaves before those that started before it. -/
def Nested (p : Process) : Event → Prop
  | .start _ => True
  | .finish task => ∀ r ∈ p.running, r.task = task → r.original ≠ none →
      (p.running.filter fun r' => r'.original.isSome).head? = some r

variable {ex : LocalExecutor} {env : Nat → Overrides} {environ : Environ} {p : Process}

/-! ## One step -/

variable (ex env) in
/-- All that a step can do. -/
theorem step_cases (p : Process) (e : Event) :
    (step ex env p e = p ∧ ∀ task, e = .finish task → ∀ r ∈ p.running, r.task ≠ task) ∨
    (∃ task, e = .start task ∧ ex.hasRoom p = true ∧ (∀ r ∈ p.running, r.task ≠ task) ∧
      step ex env p e = p.enter task (env task)) ∨
    ∃ r ∈ p.running, e = .finish r.task ∧ step ex env p e = p.leave r := by
  cases e with
  | start task =>
    rw [step]
    split
    next h =>
      rw [Bool.and_eq_true, List.all_eq_true] at h
      exact Or.inr (Or.inl ⟨task, rfl, h.1, fun r hr => of_decide_eq_true (h.2 r hr), rfl⟩)
    next => exact Or.inl ⟨rfl, fun _ he => nomatch he⟩
  | finish task =>
    rw [step]
    split
    next hnone =>
      refine Or.inl ⟨rfl, fun task' he r hr htask => ?_⟩
      cases he
      exact List.find?_eq_none.mp hnone r hr (decide_eq_true htask)
    next r hr =>
      have htask : r.task = task := by
        simpa using List.find?_some hr
      subst htask
      exact Or.inr (Or.inr ⟨r, List.mem_of_find?_eq_some hr, rfl, rfl⟩)

variable (ex env) in
theorem step_distinct (e : Event) (h : Distinct p) : Distinct (step ex env p e) := by
  rcases step_cases ex env p e with ⟨hsame, _⟩ | ⟨task, _, _, hnew, hstep⟩ |
    ⟨r, _, _, hstep⟩
  · rw [hsame]
    exact h
  · have hnotMem : task ∉ p.running.map Running.task := by
      intro hmem
      obtain ⟨r, hr, htask⟩ := List.mem_map.mp hmem
      exact hnew r hr htask
    rw [hstep]
    cases env task with
    | nil => exact List.nodup_cons.mpr ⟨hnotMem, h⟩
    | cons item rest => exact List.nodup_cons.mpr ⟨hnotMem, h⟩
  · rw [hstep]
    exact h.sublist ((List.filter_sublist).map Running.task)

theorem Distinct.eq_of_task (h : Distinct p) {r r' : Running} (hr : r ∈ p.running)
    (hr' : r' ∈ p.running) (htask : r'.task = r.task) : r' = r :=
  List.inj_on_of_nodup_map h hr' hr htask

/-- The others are quiet, and so is the task itself. -/
theorem quiet_of_filter {running : List Running} {r : Running} (h : Distinct p)
    (hp : p.running = running) (hr : r ∈ running) (hplain : r.original = none)
    (hothers : Quiet (running.filter fun r' => decide (r'.task ≠ r.task))) : Quiet running := by
  intro r' hr'
  by_cases htask : r'.task = r.task
  · subst hp
    rw [h.eq_of_task hr hr' htask]
    exact hplain
  · exact hothers r' (List.mem_filter.mpr ⟨hr', decide_eq_true htask⟩)

/-- A task that starts leaks nothing. -/
theorem enter_noLeak (task : Nat) (overrides : Overrides) (h : NoLeak environ p) :
    NoLeak environ (p.enter task overrides) := by
  cases overrides with
  | nil => exact fun hquiet => h fun r hr => hquiet r (List.mem_cons_of_mem _ hr)
  | cons item rest => exact fun hquiet => nomatch hquiet _ List.mem_cons_self

/-- One that leaves does unless what it has copied is what should be there. -/
theorem leave_noLeak_iff {r : Running} (hdistinct : Distinct p) (h : NoLeak environ p)
    (hr : r ∈ p.running) :
    NoLeak environ (p.leave r) ↔ FoundOriginal environ p (.finish r.task) := by
  constructor
  · intro hleak r' hr' htask hothers copy hcopy
    have hsame := hleak hothers
    rw [← hdistinct.eq_of_task hr hr' htask, Process.leave, hcopy] at hsame
    exact hsame
  · intro hfound hothers
    show r.original.getD p.environ = environ
    cases hcopy : r.original with
    | none => exact h (quiet_of_filter hdistinct rfl hr hcopy hothers)
    | some copy => exact hfound r hr rfl hothers copy hcopy

variable (ex env) in
theorem step_noLeak_iff (e : Event) (hdistinct : Distinct p) (h : NoLeak environ p) :
    NoLeak environ (step ex env p e) ↔ FoundOriginal environ p e := by
  rcases step_cases ex env p e with ⟨hsame, hnone⟩ | ⟨task, rfl, _, _, hstep⟩ |
    ⟨r, hr, rfl, hstep⟩
  · rw [hsame]
    refine iff_of_true h ?_
    cases e with
    | start task => trivial
    | finish task => exact fun r hr htask => absurd htask (hnone task rfl r hr)
  · rw [hstep]
    exact iff_of_true (enter_noLeak task (env task) h) trivial
  · rw [hstep]
    exact leave_noLeak_iff hdistinct h hr

/-! ## Runs -/

/-- In a run the environment is that of the beginning whenever no task with overrides is
running, exactly if every task that leaves as the last one with overrides has found that
environment when it started. -/
theorem noLeak_iff (ex : LocalExecutor) (env : Nat → Overrides) (environ : Environ)
    (events : List Event) :
    Always (step ex env) (NoLeak environ) (idle environ) events ↔
      Along (step ex env) (FoundOriginal environ) (idle environ) events :=
  always_iff_along_within (step ex env) (I := Distinct)
    (fun _ e hdistinct _ => step_distinct ex env e hdistinct)
    (fun _ e hdistinct h => step_noLeak_iff ex env e hdistinct h)
    (show Distinct (idle environ) from List.nodup_nil) (fun _ => rfl) events

/-- What the first of two tasks has copied comes back first, and what the second has
copied, with the value of the first in it, stays. -/
theorem overlap_leaks :
    ¬ Always (step ⟨2, none⟩ fun task => [("RUN", if task = 0 then "a" else "b")])
      (NoLeak fun _ => none) (idle fun _ => none)
      [.start 0, .start 1, .finish 0, .finish 1] := by
  intro h
  have hquiet := Always.last _ h (fun r hr => (nomatch hr))
  have hrun := congrFun hquiet "RUN"
  exact nomatch hrun

/-! ## Tasks that leave in the reverse order -/

/-- The tasks with overrides, the newest first. -/
def overriding (p : Process) : List Running := p.running.filter fun r => r.original.isSome

/-- The oldest of them has copied the environment of the beginning. -/
def Stacked (environ : Environ) (p : Process) : Prop :=
  Distinct p ∧ NoLeak environ p ∧
    ∀ r, (overriding p).getLast? = some r → r.original = some environ

theorem mem_overriding {r : Running} :
    r ∈ overriding p ↔ r ∈ p.running ∧ r.original.isSome = true :=
  List.mem_filter

/-- The one that leaves last is the oldest. -/
theorem Stacked.foundOriginal (h : Stacked environ p) (e : Event) :
    FoundOriginal environ p e := by
  obtain ⟨hdistinct, _, hlast⟩ := h
  cases e with
  | start task => trivial
  | finish task =>
    intro r hr htask hothers copy hcopy
    have hmem : r ∈ overriding p := mem_overriding.mpr ⟨hr, by rw [hcopy, Option.isSome_some]⟩
    have hne : overriding p ≠ [] := List.ne_nil_of_mem hmem
    obtain ⟨hr', hsome⟩ := mem_overriding.mp (List.getLast_mem hne)
    have heq : (overriding p).getLast hne = r := by
      by_cases htask' : ((overriding p).getLast hne).task = task
      · exact hdistinct.eq_of_task hr hr' (htask'.trans htask.symm)
      · have hnone := hothers _ (List.mem_filter.mpr ⟨hr', decide_eq_true htask'⟩)
        rw [hnone] at hsome
        exact nomatch hsome
    have horiginal := hlast r (by rw [List.getLast?_eq_some_getLast hne, heq])
    rw [hcopy] at horiginal
    exact Option.some.inj horiginal

theorem overriding_leave (p : Process) (r : Running) :
    overriding (p.leave r) = (overriding p).filter fun r' => decide (r'.task ≠ r.task) := by
  rw [overriding, Process.leave, overriding, List.filter_filter, List.filter_filter]
  exact List.filter_congr fun _ _ => Bool.and_comm _ _

/-- A task that leaves in its turn takes the newest entry away, or none. -/
theorem getLast?_leave {r last : Running} (hdistinct : Distinct p) (hr : r ∈ p.running)
    (hnested : Nested p (.finish r.task))
    (hlast : (overriding (p.leave r)).getLast? = some last) :
    (overriding p).getLast? = some last := by
  rw [overriding_leave] at hlast
  by_cases hplain : r.original = none
  · have hsame : ((overriding p).filter fun r' => decide (r'.task ≠ r.task)) = overriding p := by
      refine List.filter_eq_self.mpr fun r' hr' => decide_eq_true fun htask => ?_
      obtain ⟨hmem, hsome⟩ := mem_overriding.mp hr'
      rw [hdistinct.eq_of_task hr hmem htask, hplain] at hsome
      exact nomatch hsome
    rw [hsame] at hlast
    exact hlast
  · obtain ⟨rest, hrest⟩ := List.head?_eq_some_iff.mp (hnested r hr rfl hplain)
    have hover : overriding p = r :: rest := hrest
    have htasks : ((overriding p).map Running.task).Nodup :=
      hdistinct.sublist ((List.filter_sublist).map Running.task)
    rw [hover, List.map_cons, List.nodup_cons] at htasks
    have hsame : (rest.filter fun r' => decide (r'.task ≠ r.task)) = rest := by
      refine List.filter_eq_self.mpr fun r' hr' => decide_eq_true fun htask => ?_
      exact htasks.1 (htask ▸ List.mem_map_of_mem hr')
    rw [hover, List.filter_cons_of_neg (by simp), hsame] at hlast
    rw [hover, List.getLast?_cons, hlast]
    rfl

theorem step_stacked (e : Event) (h : Stacked environ p) (hnested : Nested p e) :
    Stacked environ (step ex env p e) := by
  have hdistinct := step_distinct ex env e h.1
  have hnoLeak := (step_noLeak_iff ex env e h.1 h.2.1).mpr (h.foundOriginal e)
  refine ⟨hdistinct, hnoLeak, ?_⟩
  rcases step_cases ex env p e with ⟨hsame, _⟩ | ⟨task, rfl, _, _, hstep⟩ |
    ⟨r, hr, rfl, hstep⟩
  · rw [hsame]
    exact h.2.2
  · rw [hstep]
    cases env task with
    | nil => exact h.2.2
    | cons item rest =>
      intro r hr
      have hover : overriding (p.enter task (item :: rest)) =
          ⟨task, some p.environ⟩ :: overriding p := rfl
      rw [hover, List.getLast?_cons] at hr
      cases hlast : (overriding p).getLast? with
      | some last =>
        rw [hlast] at hr
        cases hr
        exact h.2.2 last hlast
      | none =>
        rw [hlast] at hr
        cases hr
        have hquiet : Quiet p.running := by
          intro r' hr'
          by_contra hne
          have hmem : r' ∈ overriding p :=
            mem_overriding.mpr ⟨hr', Option.isSome_iff_ne_none.mpr hne⟩
          rw [List.getLast?_eq_none_iff.mp hlast] at hmem
          exact nomatch hmem
        exact congrArg some (h.2.1 hquiet)
  · rw [hstep]
    exact fun last hlast => h.2.2 last (getLast?_leave h.1 hr hnested hlast)

/-- No leak where the tasks with overrides leave in the reverse of the order they started
in. -/
theorem noLeak_of_nested (ex : LocalExecutor) (env : Nat → Overrides) (environ : Environ)
    {events : List Event} (h : Along (step ex env) Nested (idle environ) events) :
    Always (step ex env) (NoLeak environ) (idle environ) events := by
  have hstart : Stacked environ (idle environ) :=
    ⟨List.nodup_nil, fun _ => rfl, fun _ hr => nomatch hr⟩
  exact (h.always _ (fun _ e hs hg => step_stacked e hs hg) hstart).mono _ fun _ hs => hs.2.1

/-- The second of two tasks is done first. -/
theorem noLeak_second_first :
    Always (step ⟨2, none⟩ fun task => [("RUN", if task = 0 then "a" else "b")])
      (NoLeak fun _ => none) (idle fun _ => none)
      [.start 0, .start 1, .finish 1, .finish 0] := by
  refine noLeak_of_nested _ _ _ ⟨trivial, trivial, fun r hr htask _ => ?_,
    fun r hr htask _ => ?_, trivial⟩
  · rcases List.mem_cons.mp hr with rfl | hr
    · rfl
    · rw [List.mem_singleton.mp hr] at htask
      exact nomatch htask
  · rw [List.mem_singleton.mp hr]
    rfl

end OSimFlow.Executors.LocalEnvironment
