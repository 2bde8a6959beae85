import OSimFlow.Lib.Dict
import OSimFlow.Lib.Run

/-!
# Cancelling an executor's jobs

`BaseExecutor.submit` starts a job and then registers its handle; `result` may start another job
for the same handle; `cancel` takes the registered handles out of the registry and sends a kill
for each. Submitting threads, `result` loops and sweeps interleave: the events are the points at
which they touch what they share.

> `noOrphan_of_timely`: if handles are registered before the sweep, new jobs get into their
> handles before the kill for them is sent, no handle leaves the registry while its job runs, and
> kills are accepted, then after a sweep no job is left running that no kill was sent for.
>
> `late_register_leaves_orphan`: a submission that the sweep overtakes.

Jobs and handles are numbered as they come; a job's identifier, under which its handle is
registered, is the substrate's choice.
-/

namespace OSimFlow.Executors.CancelSweep

open OSimFlow.Lib

variable {κ : Type}

/-- The substrate's jobs and the executor's handles. -/
structure State (κ : Type) where
  /-- Jobs started so far. -/
  jobs : Nat
  /-- Jobs that have reached a terminal state by themselves. -/
  ended : List Nat
  /-- Jobs for which a kill was issued. -/
  killed : List Nat
  handles : Nat
  /-- The job a handle stands for. -/
  jobOf : Nat → Nat
  /-- `_cancel_issued` -/
  cancelIssued : List Nat
  /-- `_future.done()` -/
  mirrorDone : List Nat
  /-- Handles between `_do_submit` and `_register_handle`, with their `job_id`. -/
  submitting : List (Nat × κ)
  /-- `_live_handles` -/
  live : Dict κ Nat
  /-- Calls of `result`, by handle. -/
  awaiting : List Nat
  /-- Jobs that a `result` loop has submitted again and not yet stored in its handle. -/
  resubmitted : List (Nat × Nat)
  /-- A sweep has taken its snapshot. -/
  swept : Bool
  /-- Handles of snapshots that `cancel()` has not been called for. -/
  pending : List Nat
  /-- Handles in `cancel()`, before `_cancel_job()`. -/
  killing : List Nat

def State.init : State κ where
  jobs := 0
  ended := []
  killed := []
  handles := 0
  jobOf := fun _ => 0
  cancelIssued := []
  mirrorDone := []
  submitting := []
  live := ∅
  awaiting := []
  resubmitted := []
  swept := false
  pending := []
  killing := []

inductive Event (κ : Type) where
  /-- `_do_submit` returns a handle for a new job. -/
  | submits (jobId : κ)
  /-- `_register_handle`. -/
  | registers (h : Nat) (jobId : κ)
  | awaits (h : Nat)
  /-- The job of the handle is terminal, and a new one is submitted: `_resubmit` or
  `_submit_on_demand`. -/
  | resubmits (h : Nat)
  /-- The new job is stored in the handle. -/
  | updates (h job : Nat)
  /-- `result` sets the mirror future, with whatever outcome. -/
  | settles (h : Nat)
  /-- `result` returns or raises, also with a timeout. -/
  | returns (h : Nat)
  | ends (job : Nat)
  /-- `cancel` of the executor takes its snapshot and clears the registry. -/
  | sweeps
  /-- `cancel` of a handle, up to `_cancel_issued`. -/
  | cancels (h : Nat)
  /-- `_cancel_job()`. -/
  | kills (h : Nat) (accepted : Bool)

section Steps

variable [DecidableEq κ]

/-- `del live[job_id]` for the handles whose mirror is done, if the registry is large. -/
def prune (threshold : Nat) (mirrorDone : List Nat) (live : Dict κ Nat) : Dict κ Nat :=
  if live.items.length > threshold then
    live.eraseIf fun jobId =>
      match live.get? jobId with
      | some h => decide (h ∈ mirrorDone)
      | none => false
  else live

/-- Some call of `result` for the handle is not inside a resubmission. -/
def idle (s : State κ) (h : Nat) : Bool :=
  decide ((s.resubmitted.map Prod.fst).count h < s.awaiting.count h)

/-- One event; one that cannot happen leaves the state as it is. -/
def step (threshold : Nat) (s : State κ) : Event κ → State κ
  | .submits jobId =>
    { s with
      jobs := s.jobs + 1
      handles := s.handles + 1
      jobOf := fun h => if h = s.handles then s.jobs else s.jobOf h
      submitting := (s.handles, jobId) :: s.submitting }
  | .registers h jobId =>
    if (h, jobId) ∈ s.submitting then
      { s with
        submitting := s.submitting.erase (h, jobId)
        live := prune threshold s.mirrorDone (s.live.set jobId h) }
    else s
  | .awaits h =>
    if h < s.handles ∧ h ∉ s.submitting.map Prod.fst then { s with awaiting := h :: s.awaiting }
    else s
  | .resubmits h =>
    if idle s h ∧ s.jobOf h ∈ s.ended then
      { s with jobs := s.jobs + 1, resubmitted := (h, s.jobs) :: s.resubmitted }
    else s
  | .updates h job =>
    if (h, job) ∈ s.resubmitted then
      { s with
        jobOf := fun h' => if h' = h then job else s.jobOf h'
        resubmitted := s.resubmitted.erase (h, job) }
    else s
  | .settles h => if idle s h then { s with mirrorDone := h :: s.mirrorDone } else s
  | .returns h => if idle s h then { s with awaiting := s.awaiting.erase h } else s
  | .ends job => if job < s.jobs then { s with ended := job :: s.ended } else s
  | .sweeps => { s with pending := s.pending ++ s.live.values, live := ∅, swept := true }
  | .cancels h =>
    if h ∈ s.pending then
      if h ∈ s.cancelIssued then { s with pending := s.pending.erase h }
      else
        { s with
          pending := s.pending.erase h
          cancelIssued := h :: s.cancelIssued
          killing := h :: s.killing }
    else s
  | .kills h accepted =>
    if h ∈ s.killing then
      { s with
        killing := s.killing.erase h
        killed := if accepted then s.jobOf h :: s.killed else s.killed }
    else s

end Steps

/-! ## What is asked -/

/-- The job has ended by itself, or a kill was issued for it. -/
def Done (s : State κ) (job : Nat) : Prop := job ∈ s.ended ∨ job ∈ s.killed

instance (s : State κ) (job : Nat) : Decidable (Done s job) := by
  unfold Done
  infer_instance

/-- Every submission, `result` and cancellation has returned. -/
def Quiescent (s : State κ) : Prop :=
  s.submitting = [] ∧ s.awaiting = [] ∧ s.resubmitted = [] ∧ s.pending = [] ∧ s.killing = []

instance (s : State κ) : Decidable (Quiescent s) := by
  unfold Quiescent
  infer_instance

/-- After a sweep, when all calls have returned, no job is left running without a kill. -/
def NoOrphan (s : State κ) : Prop :=
  s.swept = true → Quiescent s → ∀ job < s.jobs, Done s job

instance (s : State κ) : Decidable (NoOrphan s) := by
  unfold NoOrphan
  infer_instance

/-- A kill for the handle's job is still to come: it was marked and not yet killed, or is still
to be marked, or is registered and no sweep has been. -/
def Reachable (s : State κ) (h : Nat) : Prop :=
  h ∈ s.killing ∨ h ∉ s.cancelIssued ∧ (h ∈ s.pending ∨ s.swept = false ∧ h ∈ s.live.values)

instance (s : State κ) (h : Nat) : Decidable (Reachable s h) := by
  unfold Reachable
  infer_instance

/-- What an event must not miss: a handle is registered before the sweep, displaces no handle with
a running job and prunes none; a new job gets into its handle before the kill is sent, in the place
of one that is done; a kill is accepted. Jobs that are done do not matter. -/
def Timely [DecidableEq κ] (threshold : Nat) (s : State κ) : Event κ → Prop
  | .registers h jobId => (h, jobId) ∈ s.submitting →
      (s.swept = false ∨ Done s (s.jobOf h)) ∧
      (∀ h' ∈ s.live.get? jobId, Done s (s.jobOf h')) ∧
      ((s.live.set jobId h).items.length > threshold →
        ∀ h' ∈ (s.live.set jobId h).values, h' ∈ s.mirrorDone → Done s (s.jobOf h'))
  | .updates h job => (h, job) ∈ s.resubmitted →
      (Reachable s h ∨ Done s job) ∧ Done s (s.jobOf h)
  | .kills h accepted => h ∈ s.killing → accepted = true ∨ Done s (s.jobOf h)
  | _ => True

instance [DecidableEq κ] (threshold : Nat) (s : State κ) :
    (e : Event κ) → Decidable (Timely threshold s e)
  | .registers h jobId => by
    unfold Timely
    infer_instance
  | .updates h job => by
    unfold Timely
    infer_instance
  | .kills h accepted => by
    unfold Timely
    infer_instance
  | .submits _ | .awaits _ | .resubmits _ | .settles _ | .returns _ | .ends _ | .sweeps
  | .cancels _ => inferInstanceAs (Decidable True)

/-! ## Every job is done or will be -/

/-- The job is done, or is on its way into a handle, or is in one that a kill will reach. -/
def Covered (s : State κ) (job : Nat) : Prop :=
  Done s job ∨ (∃ p ∈ s.submitting, s.jobOf p.1 = job) ∨ (∃ p ∈ s.resubmitted, p.2 = job) ∨
    ∃ h, Reachable s h ∧ s.jobOf h = job

structure Inv (s : State κ) : Prop where
  covered : ∀ job < s.jobs, Covered s job
  /-- Handles are numbered as they come. -/
  submitting_lt : ∀ p ∈ s.submitting, p.1 < s.handles
  live_lt : ∀ h ∈ s.live.values, h < s.handles
  pending_lt : ∀ h ∈ s.pending, h < s.handles
  killing_lt : ∀ h ∈ s.killing, h < s.handles
  unswept : s.swept = false → s.cancelIssued = [] ∧ s.pending = [] ∧ s.killing = []

theorem inv_init : Inv (State.init : State κ) where
  covered := fun job h => absurd h (Nat.not_lt_zero job)
  submitting_lt := fun _ h => nomatch h
  live_lt := fun _ h => nomatch h
  pending_lt := fun _ h => nomatch h
  killing_lt := fun _ h => nomatch h
  unswept := fun _ => ⟨rfl, rfl, rfl⟩

theorem Inv.reachable_lt {s : State κ} (hi : Inv s) {h : Nat} (hr : Reachable s h) :
    h < s.handles := by
  rcases hr with hk | ⟨_, hp | ⟨_, hl⟩⟩
  · exact hi.killing_lt h hk
  · exact hi.pending_lt h hp
  · exact hi.live_lt h hl

/-- A job stays covered if what covered it still does. -/
theorem Covered.mono {s s' : State κ} {job : Nat} (hc : Covered s job)
    (hdone : Done s job → Done s' job)
    (hsub : ∀ p ∈ s.submitting, s.jobOf p.1 = job → Covered s' job)
    (hres : ∀ p ∈ s.resubmitted, p.2 = job → Covered s' job)
    (hreach : ∀ h, Reachable s h → s.jobOf h = job → Covered s' job) : Covered s' job := by
  rcases hc with hd | ⟨p, hp, hj⟩ | ⟨p, hp, hj⟩ | ⟨h, hr, hj⟩
  · exact .inl (hdone hd)
  · exact hsub p hp hj
  · exact hres p hp hj
  · exact hreach h hr hj

/-- The same where no job changes hands. -/
theorem Covered.frame {s s' : State κ} {job : Nat} (hc : Covered s job)
    (hjob : s'.jobOf = s.jobOf) (hsub : s'.submitting = s.submitting)
    (hres : s'.resubmitted = s.resubmitted) (hdone : Done s job → Done s' job)
    (hreach : ∀ h, Reachable s h → s.jobOf h = job → Done s' job ∨ Reachable s' h) :
    Covered s' job := by
  refine hc.mono hdone ?_ ?_ ?_
  · intro p hp hj
    exact .inr (.inl ⟨p, hsub ▸ hp, hjob ▸ hj⟩)
  · intro p hp hj
    exact .inr (.inr (.inl ⟨p, hres ▸ hp, hj⟩))
  · intro h hr hj
    rcases hreach h hr hj with hd | hr'
    · exact .inl hd
    · exact .inr (.inr (.inr ⟨h, hr', hjob ▸ hj⟩))

variable [DecidableEq κ]

/-- A new handle is none of the old ones, so those keep their jobs. -/
theorem inv_submits {threshold : Nat} {s : State κ} (hi : Inv s) (jobId : κ) :
    Inv (step threshold s (.submits jobId)) := by
  have hjob : ∀ h, h < s.handles →
      (step threshold s (.submits jobId)).jobOf h = s.jobOf h := by
    intro h hlt
    show (if h = s.handles then s.jobs else s.jobOf h) = s.jobOf h
    rw [if_neg (by omega)]
  constructor
  · intro job hlt
    have hlt' : job < s.jobs + 1 := hlt
    by_cases hnew : job = s.jobs
    · refine .inr (.inl ⟨(s.handles, jobId), List.mem_cons_self, ?_⟩)
      show (if s.handles = s.handles then s.jobs else s.jobOf s.handles) = job
      rw [if_pos rfl, hnew]
    · refine (hi.covered job (by omega)).mono id ?_ ?_ ?_
      · intro p hp hj
        refine .inr (.inl ⟨p, List.mem_cons_of_mem _ hp, ?_⟩)
        rw [hjob p.1 (hi.submitting_lt p hp), hj]
      · intro p hp hj
        exact .inr (.inr (.inl ⟨p, hp, hj⟩))
      · intro h hr hj
        refine .inr (.inr (.inr ⟨h, hr, ?_⟩))
        rw [hjob h (hi.reachable_lt hr), hj]
  · intro p hp
    show p.1 < s.handles + 1
    rcases List.mem_cons.mp hp with rfl | hp
    · exact Nat.lt_succ_self _
    · exact Nat.lt_succ_of_lt (hi.submitting_lt p hp)
  · intro h hh
    exact Nat.lt_succ_of_lt (hi.live_lt h hh)
  · intro h hh
    exact Nat.lt_succ_of_lt (hi.pending_lt h hh)
  · intro h hh
    exact Nat.lt_succ_of_lt (hi.killing_lt h hh)
  · exact hi.unswept

/-- What stays registered when the registry is pruned. -/
theorem mem_values_prune {threshold : Nat} {mirrorDone : List Nat} {live : Dict κ Nat} {h : Nat}
    (hh : h ∈ live.values)
    (hdone : live.items.length > threshold → h ∉ mirrorDone) :
    h ∈ (prune threshold mirrorDone live).values := by
  unfold prune
  split
  next hlong =>
    obtain ⟨k, hk⟩ := Dict.mem_values_iff.mp hh
    refine Dict.mem_values_iff.mpr ⟨k, ?_⟩
    rw [Dict.get?_eraseIf, hk]
    simp [hdone hlong]
  next => exact hh

theorem mem_values_of_prune {threshold : Nat} {mirrorDone : List Nat} {live : Dict κ Nat}
    {h : Nat} (hh : h ∈ (prune threshold mirrorDone live).values) : h ∈ live.values := by
  unfold prune at hh
  split at hh
  next =>
    obtain ⟨item, hm, rfl⟩ := List.mem_map.mp hh
    exact List.mem_map.mpr ⟨item, (List.mem_filter.mp hm).1, rfl⟩
  next => exact hh

/-- Before a sweep nothing is marked, so a handle just registered is in reach. -/
theorem inv_registers {threshold : Nat} {s : State κ} (hi : Inv s) {h : Nat} {jobId : κ}
    (ht : Timely threshold s (.registers h jobId)) :
    Inv (step threshold s (.registers h jobId)) := by
  rw [step]
  split
  next hmem =>
    obtain ⟨hearly, hdisplaced, hpruned⟩ := ht hmem
    have hkept : ∀ h' ∈ (s.live.set jobId h).values, ¬ Done s (s.jobOf h') →
        h' ∈ (prune threshold s.mirrorDone (s.live.set jobId h)).values := by
      intro h' hh' hrunning
      refine mem_values_prune hh' fun hlong hdone => ?_
      exact hrunning (hpruned hlong h' hh' hdone)
    constructor
    · intro job hlt
      by_cases hd : Done s job
      · exact .inl hd
      refine (hi.covered job hlt).mono id ?_ ?_ ?_
      · intro p hp hj
        by_cases hpe : p = (h, jobId)
        · subst hpe
          have hrunning : ¬ Done s (s.jobOf h) := by
            rw [show s.jobOf h = job from hj]
            exact hd
          have hunswept := hearly.resolve_right hrunning
          refine .inr (.inr (.inr ⟨h, .inr ⟨?_, .inr ⟨hunswept, ?_⟩⟩, hj⟩))
          · show h ∉ s.cancelIssued
            rw [(hi.unswept hunswept).1]
            exact List.not_mem_nil
          · exact hkept h (Dict.mem_values_set_self _ _ _) hrunning
        · exact .inr (.inl ⟨p, (List.mem_erase_of_ne hpe).mpr hp, hj⟩)
      · intro p hp hj
        exact .inr (.inr (.inl ⟨p, hp, hj⟩))
      · rintro h' hr rfl
        rcases hr with hk | ⟨hc, hp | ⟨hs, hl⟩⟩
        · exact .inr (.inr (.inr ⟨h', .inl hk, rfl⟩))
        · exact .inr (.inr (.inr ⟨h', .inr ⟨hc, .inl hp⟩, rfl⟩))
        · have hstay : h' ∈ (s.live.set jobId h).values := by
            refine Dict.mem_values_set_of_ne hl fun hstood => ?_
            exact hd (hdisplaced h' hstood)
          exact .inr (.inr (.inr ⟨h', .inr ⟨hc, .inr ⟨hs, hkept h' hstay hd⟩⟩, rfl⟩))
    · intro p hp
      exact hi.submitting_lt p (List.mem_of_mem_erase hp)
    · intro h' hl
      rcases Dict.mem_values_of_set (mem_values_of_prune hl) with rfl | hold
      · exact hi.submitting_lt _ hmem
      · exact hi.live_lt h' hold
    · exact hi.pending_lt
    · exact hi.killing_lt
    · exact hi.unswept
  next => exact hi

theorem inv_resubmits {threshold : Nat} {s : State κ} (hi : Inv s) (h : Nat) :
    Inv (step threshold s (.resubmits h)) := by
  rw [step]
  split
  next =>
    constructor
    · intro job hlt
      have hlt' : job < s.jobs + 1 := hlt
      by_cases hnew : job = s.jobs
      · exact .inr (.inr (.inl ⟨(h, s.jobs), List.mem_cons_self, hnew.symm⟩))
      · refine (hi.covered job (by omega)).mono id ?_ ?_ ?_
        · intro p hp hj
          exact .inr (.inl ⟨p, hp, hj⟩)
        · intro p hp hj
          exact .inr (.inr (.inl ⟨p, List.mem_cons_of_mem _ hp, hj⟩))
        · intro h' hr hj
          exact .inr (.inr (.inr ⟨h', hr, hj⟩))
    · exact hi.submitting_lt
    · exact hi.live_lt
    · exact hi.pending_lt
    · exact hi.killing_lt
    · exact hi.unswept
  next => exact hi

/-- The new job takes the place of one that is done, so nothing else changes hands. -/
theorem inv_updates {threshold : Nat} {s : State κ} (hi : Inv s) {h job : Nat}
    (ht : Timely threshold s (.updates h job)) : Inv (step threshold s (.updates h job)) := by
  rw [step]
  split
  next hmem =>
    obtain ⟨hreach, hold⟩ := ht hmem
    constructor
    · intro j hlt
      by_cases hd : Done s j
      · exact .inl hd
      -- a handle that holds `j` is not the one that changes
      have hother : ∀ h', s.jobOf h' = j → (if h' = h then job else s.jobOf h') = j := by
        intro h' hj
        have hne : h' ≠ h := by
          rintro rfl
          exact hd (hj ▸ hold)
        rw [if_neg hne, hj]
      refine (hi.covered j hlt).mono id ?_ ?_ ?_
      · intro p hp hj
        exact .inr (.inl ⟨p, hp, hother p.1 hj⟩)
      · intro p hp hj
        by_cases hpe : p = (h, job)
        · subst hpe
          obtain rfl : job = j := hj
          refine .inr (.inr (.inr ⟨h, hreach.resolve_right hd, ?_⟩))
          show (if h = h then job else s.jobOf h) = job
          rw [if_pos rfl]
        · exact .inr (.inr (.inl ⟨p, (List.mem_erase_of_ne hpe).mpr hp, hj⟩))
      · intro h' hr hj
        exact .inr (.inr (.inr ⟨h', hr, hother h' hj⟩))
    · exact hi.submitting_lt
    · exact hi.live_lt
    · exact hi.pending_lt
    · exact hi.killing_lt
    · exact hi.unswept
  next => exact hi

theorem inv_ends {threshold : Nat} {s : State κ} (hi : Inv s) (job : Nat) :
    Inv (step threshold s (.ends job)) := by
  rw [step]
  split
  next =>
    refine ⟨fun j hlt => ?_, hi.submitting_lt, hi.live_lt, hi.pending_lt, hi.killing_lt,
      hi.unswept⟩
    refine (hi.covered j hlt).frame rfl rfl rfl ?_ fun h hr _ => .inr hr
    rintro (he | hk)
    · exact .inl (List.mem_cons_of_mem _ he)
    · exact .inr hk
  next => exact hi

/-- What was registered is now pending, and nothing else was in reach. -/
theorem reachable_sweeps {threshold : Nat} (s : State κ) (h : Nat) :
    Reachable (step threshold s .sweeps) h ↔
      h ∈ s.killing ∨ h ∉ s.cancelIssued ∧ (h ∈ s.pending ∨ h ∈ s.live.values) := by
  show (h ∈ s.killing ∨ h ∉ s.cancelIssued ∧ (h ∈ s.pending ++ s.live.values ∨ _)) ↔ _
  rw [List.mem_append]
  constructor
  · rintro (hk | ⟨hc, hp | ⟨hs, _⟩⟩)
    · exact .inl hk
    · exact .inr ⟨hc, hp⟩
    · exact nomatch hs
  · rintro (hk | ⟨hc, hp⟩)
    · exact .inl hk
    · exact .inr ⟨hc, .inl hp⟩

theorem inv_sweeps {threshold : Nat} {s : State κ} (hi : Inv s) :
    Inv (step threshold s .sweeps) := by
  constructor
  · intro job hlt
    refine (hi.covered job hlt).frame rfl rfl rfl id fun h hr _ => ?_
    refine .inr ((reachable_sweeps s h).mpr ?_)
    rcases hr with hk | ⟨hc, hp | ⟨_, hl⟩⟩
    · exact .inl hk
    · exact .inr ⟨hc, .inl hp⟩
    · exact .inr ⟨hc, .inr hl⟩
  · exact hi.submitting_lt
  · exact fun h hh => nomatch hh
  · intro h hp
    rcases List.mem_append.mp hp with hp | hl
    · exact hi.pending_lt h hp
    · exact hi.live_lt h hl
  · exact hi.killing_lt
  · exact fun hs => nomatch hs

theorem inv_cancels {threshold : Nat} {s : State κ} (hi : Inv s) (h : Nat) :
    Inv (step threshold s (.cancels h)) := by
  rw [step]
  split
  next hmem =>
    have hswept : s.swept ≠ false := by
      intro hs
      rw [(hi.unswept hs).2.1] at hmem
      exact nomatch hmem
    split
    next hissued =>
      refine ⟨fun j hlt => ?_, hi.submitting_lt, hi.live_lt, ?_, hi.killing_lt, ?_⟩
      · refine (hi.covered j hlt).frame rfl rfl rfl id fun h' hr _ => .inr ?_
        rcases hr with hk | ⟨hc, hp | hl⟩
        · exact .inl hk
        · have hne : h' ≠ h := by
            rintro rfl
            exact hc hissued
          exact .inr ⟨hc, .inl ((List.mem_erase_of_ne hne).mpr hp)⟩
        · exact .inr ⟨hc, .inr hl⟩
      · exact fun h' hp => hi.pending_lt h' (List.mem_of_mem_erase hp)
      · exact fun hs => absurd hs hswept
    next =>
      refine ⟨fun j hlt => ?_, hi.submitting_lt, hi.live_lt, ?_, ?_, ?_⟩
      · refine (hi.covered j hlt).frame rfl rfl rfl id fun h' hr _ => .inr ?_
        by_cases hne : h' = h
        · exact .inl (hne ▸ List.mem_cons_self)
        rcases hr with hk | ⟨hc, hrest⟩
        · exact .inl (List.mem_cons_of_mem _ hk)
        have hc' : h' ∉ h :: s.cancelIssued :=
          fun hm => (List.mem_cons.mp hm).elim hne hc
        rcases hrest with hp | hl
        · exact .inr ⟨hc', .inl ((List.mem_erase_of_ne hne).mpr hp)⟩
        · exact .inr ⟨hc', .inr hl⟩
      · exact fun h' hp => hi.pending_lt h' (List.mem_of_mem_erase hp)
      · intro h' hk
        rcases List.mem_cons.mp hk with rfl | hk
        · exact hi.pending_lt _ hmem
        · exact hi.killing_lt h' hk
      · exact fun hs => absurd hs hswept
  next => exact hi

theorem inv_kills {threshold : Nat} {s : State κ} (hi : Inv s) {h : Nat} {accepted : Bool}
    (ht : Timely threshold s (.kills h accepted)) :
    Inv (step threshold s (.kills h accepted)) := by
  rw [step]
  split
  next hmem =>
    have hdone : ∀ j, Done s j ∨ j = s.jobOf h →
        j ∈ s.ended ∨ j ∈ (if accepted then s.jobOf h :: s.killed else s.killed) := by
      intro j hj
      cases accepted with
      | true =>
        rcases hj with (he | hk) | rfl
        · exact .inl he
        · exact .inr (List.mem_cons_of_mem _ hk)
        · exact .inr List.mem_cons_self
      | false =>
        rcases hj with hd | rfl
        · exact hd
        · exact (ht hmem).resolve_left Bool.false_ne_true
    refine ⟨fun j hlt => ?_, hi.submitting_lt, hi.live_lt, hi.pending_lt, ?_, ?_⟩
    · refine (hi.covered j hlt).frame rfl rfl rfl (fun hd => hdone j (.inl hd)) ?_
      intro h' hr hj
      by_cases hne : h' = h
      · exact .inl (hdone j (.inr (hne ▸ hj).symm))
      rcases hr with hk | hrest
      · exact .inr (.inl ((List.mem_erase_of_ne hne).mpr hk))
      · exact .inr (.inr hrest)
    · exact fun h' hk => hi.killing_lt h' (List.mem_of_mem_erase hk)
    · intro hs
      obtain ⟨_, _, hk⟩ := hi.unswept hs
      rw [hk] at hmem
      exact nomatch hmem
  next => exact hi

theorem inv_step {threshold : Nat} {s : State κ} {e : Event κ} (hi : Inv s)
    (ht : Timely threshold s e) : Inv (step threshold s e) := by
  cases e with
  | submits jobId => exact inv_submits hi jobId
  | registers h jobId => exact inv_registers hi ht
  | resubmits h => exact inv_resubmits hi h
  | updates h job => exact inv_updates hi ht
  | ends job => exact inv_ends hi job
  | sweeps => exact inv_sweeps hi
  | cancels h => exact inv_cancels hi h
  | kills h accepted => exact inv_kills hi ht
  -- what `result` notes about itself is no part of the invariant
  | awaits h | settles h | returns h =>
    rw [step]
    split
    · exact ⟨hi.covered, hi.submitting_lt, hi.live_lt, hi.pending_lt, hi.killing_lt, hi.unswept⟩
    · exact hi

omit [DecidableEq κ] in
/-- After a sweep with no call running, nothing is left that could still be done. -/
theorem Inv.noOrphan {s : State κ} (hi : Inv s) : NoOrphan s := by
  rintro hswept ⟨hsub, _, hres, hpend, hkill⟩ job hlt
  rcases hi.covered job hlt with hd | ⟨p, hp, _⟩ | ⟨p, hp, _⟩ | ⟨h, hr, _⟩
  · exact hd
  · rw [hsub] at hp
    exact nomatch hp
  · rw [hres] at hp
    exact nomatch hp
  · rcases hr with hk | ⟨_, hp | ⟨hs, _⟩⟩
    · rw [hkill] at hk
      exact nomatch hk
    · rw [hpend] at hp
      exact nomatch hp
    · exact nomatch hswept.symm.trans hs

/-! ## The result -/

/-- In a run where nothing comes too late, no state has an orphan. -/
theorem noOrphan_of_timely (threshold : Nat) (es : List (Event κ))
    (h : Along (step threshold) (Timely threshold) State.init es) :
    Always (step threshold) NoOrphan State.init es :=
  (Along.always (step threshold) (fun _ _ => inv_step) inv_init h).mono (step threshold)
    fun _ => Inv.noOrphan

/-- A job that is interrupted and submitted again before the sweep: the kill is for the second. -/
def resubmittedRun : List (Event Nat) :=
  [.submits 7, .registers 0 7, .awaits 0, .ends 0, .resubmits 0, .updates 0 1, .sweeps,
    .cancels 0, .kills 0 true, .ends 1, .settles 0, .returns 0]

theorem noOrphan_resubmittedRun :
    Always (step 512) NoOrphan State.init resubmittedRun ∧
      (run (step 512) State.init resubmittedRun).killed = [1] :=
  ⟨noOrphan_of_timely 512 resubmittedRun (by decide), by decide⟩

/-- The sweep comes between `_do_submit` and `_register_handle`: the handle is registered in a
registry that nobody sweeps any more. -/
theorem late_register_leaves_orphan :
    ¬ Always (step 512) NoOrphan State.init [Event.submits 7, .sweeps, .registers 0 7] := by
  decide

end OSimFlow.Executors.CancelSweep
