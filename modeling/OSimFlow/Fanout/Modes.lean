import Mathlib.Data.List.Perm.Basic
import OSimFlow.Fanout.Accounting
import OSimFlow.Fanout.Protocol
import OSimFlow.Fanout.WaitLoop

/-!
# The two modes of a fan-out, sample by sample

Samples only share what the campaign thread does with their results: each
awaits, marks and records on its own job files and its own state row. So a
call of `submit_and_await_all` is described by what `_await_one` does on each
sample alone (`alone`), and the modes differ in which samples get that far:

> `sequential_spec`: the loop attempts the samples up to the first that
> raises, and raises that.
>
> `Tracked.returned`: the pool attempts every sample whatever the schedule,
> returns, and has recorded one accounting error for each that raised.

The invariant behind the second, `Tracked`, holds under every event that is
not a cancel; a pause only stops the recording.
-/

namespace OSimFlow.Fanout

open OSimFlow.Lib
open OSimFlow.Campaign (Step)
open OSimFlow.Observability (AccountingError)
open OSimFlow.Queues (JobFiles)
open OSimFlow.Queues.JobFiles (Recovered)
open AwaitProg (invoke)

/-! ## What `_await_one` can raise here -/

/-- Over a `checkpoint_sample` that is a callback: nothing but ordinary
exceptions. -/
def ordinaryProtocol : Prog.Protocol Unit FanoutOp Ans PyError where
  next _ _ _ := some ()
  ends _ o := ∀ e, o = some e → Ordinary e

theorem ordinaryProtocol_plain : Plain ordinaryProtocol () where
  next _ _ _ := rfl
  ok := fun _ h => nomatch h
  raises := by
    rintro e he e' h
    cases h
    exact he
  idle _ _ := rfl

/-! ## One call, sample by sample -/

/-- What a fan-out is called with: each sample once, and what its handle and
the callbacks answer. -/
structure Submissions where
  sids : List String
  nodup : sids.Nodup
  script : String → Script

namespace Submissions

variable (subs : Submissions) (cfg : FanoutConfig) (W : String → SampleWorld)

/-- The worlds once every sample has been enqueued. -/
def enqueued (sid : String) : SampleWorld :=
  if sid ∈ subs.sids then
    { jobs := (W sid).jobs.enqueue ⟨sid, cfg.step⟩ 0 (subs.script sid).now
      row := (W sid).row
      awaited := false }
  else W sid

/-- The handlers of the samples. -/
def handlers (sid : String) : Prog.Handler FanoutOp Ans SampleWorld :=
  (subs.script sid).handle cfg.step

/-- What `_await_one` does with one sample on its own. -/
def alone (sid : String) : Except PyError Unit × SampleWorld :=
  Prog.run (subs.handlers cfg sid) cfg.deps.awaitOne (subs.enqueued cfg W sid)

/-- Every sample as it is when awaited on its own. -/
def awaitedWorlds (sid : String) : SampleWorld :=
  if sid ∈ subs.sids then (subs.alone cfg W sid).2 else W sid

/-- The accounting error of a sample whose `_await_one` raises. -/
def accountingError (sid : String) : Option AccountingError :=
  match (subs.alone cfg W sid).1 with
  | .ok _ => none
  | .error e => some ⟨cfg.step, sid, e.summary⟩

/-- The call with `max_workers <= 1`. -/
def sequential (polled : Nat → Polled) (cancelled : Bool) :
    Ended (String → SampleWorld) :=
  if subs.sids = [] then ⟨.ok (), 0, [], subs.enqueued cfg W⟩
  else sequentialLoop (Pool.localHandler (subs.handlers cfg)) cfg.deps.awaitOne polled
    cancelled subs.sids 0 (subs.enqueued cfg W)

/-- The call with a pool of `maxWorkers`, after the events `es`. -/
def concurrent (maxWorkers : Nat) (es : List Event) : FanoutRun (String → SampleWorld) :=
  run (FanoutRun.step cfg.step (Pool.localHandler (subs.handlers cfg)) maxWorkers)
    (FanoutRun.begin subs.sids cfg.deps.awaitOne (subs.enqueued cfg W)) es

end Submissions

section Alone

variable {subs : Submissions} {cfg : FanoutConfig} {W : String → SampleWorld}

theorem alone_error {sid : String} {e : PyError}
    (h : (subs.alone cfg W sid).1 = .error e) : Ordinary e := by
  have hkeeps : Keeps ordinaryProtocol () cfg.deps.awaitOne :=
    awaitOne_keeps ordinaryProtocol_plain
      (fun _ => invoke_keeps ordinaryProtocol_plain rfl)
      (invoke_keeps (catchable_plain ordinaryProtocol_plain) rfl)
  obtain ⟨_, hend⟩ := hkeeps.run (handle_answered (subs.script sid) cfg.step)
    (subs.enqueued cfg W sid)
  exact hend e (congrArg Prog.raised h)

/-- Its handle is the first thing `_await_one` asks for. -/
theorem awaitOne_head (deps : FanoutDeps) :
    ∃ k, deps.awaitOne = .call .traceIdFor fun _ => .call (.callback (.result 0)) k :=
  ⟨_, rfl⟩

theorem handle_awaited (script : Script) (step : Step) (op : FanoutOp)
    {w : SampleWorld} (h : w.awaited = true) :
    (script.handle step op w).2.awaited = true := by
  cases op with
  | callback c =>
    cases c with
    | result handle =>
      simp only [Script.handle, Script.handleCallback]
      cases script.result handle <;> rfl
    | onSuccess handle call =>
      simp only [Script.handle, Script.handleCallback]
      cases script.onSuccess handle call <;> exact h
    | _ => exact h
  | _ => exact h

theorem alone_awaited (sid : String) : (subs.alone cfg W sid).2.awaited = true := by
  obtain ⟨k, hk⟩ := awaitOne_head cfg.deps
  rw [Submissions.alone, hk, Prog.run, Prog.run]
  refine Prog.run_inv (subs.handlers cfg sid) (I := fun w => w.awaited = true)
    (fun op w => handle_awaited _ _ op) _ ?_
  show (Script.handleCallback (subs.script sid) cfg.step (.result 0) _).2.awaited = true
  simp only [Script.handleCallback]
  cases (subs.script sid).result 0 <;> rfl

end Alone

/-! ## The sequential loop -/

section Sequential

variable {subs : Submissions} {cfg : FanoutConfig} {W : String → SampleWorld}

/-- The samples the loop gets to: up to the first that raises. -/
def Submissions.attempted (subs : Submissions) (cfg : FanoutConfig)
    (W : String → SampleWorld) : List String → List String
  | [] => []
  | sid :: rest =>
    match (subs.alone cfg W sid).1 with
    | .ok _ => sid :: attempted subs cfg W rest
    | .error _ => [sid]

/-- It gets to all of them unless one before the last raises. -/
theorem attempted_all {sids : List String} (hn : sids.Nodup) :
    (∀ sid ∈ sids, sid ∈ subs.attempted cfg W sids) ↔
      ∀ sid ∈ sids.dropLast, (subs.alone cfg W sid).1 = .ok () := by
  induction sids with
  | nil => simp
  | cons first rest ih =>
    cases rest with
    | nil =>
      unfold Submissions.attempted
      cases (subs.alone cfg W first).1 <;> simp [Submissions.attempted]
    | cons second rest =>
      obtain ⟨hfirst, hrest⟩ := List.nodup_cons.mp hn
      rw [List.dropLast_cons_of_ne_nil (List.cons_ne_nil second rest)]
      unfold Submissions.attempted
      cases hr : (subs.alone cfg W first).1 with
      | ok u =>
        have hne : ∀ sid ∈ second :: rest, sid ≠ first := by
          rintro sid hm rfl
          exact hfirst hm
        constructor
        · intro h sid hm
          rcases List.mem_cons.mp hm with rfl | hm
          · exact hr
          · refine (ih hrest).mp (fun sid hm => ?_) sid hm
            exact (List.mem_cons.mp (h sid (List.mem_cons_of_mem _ hm))).resolve_left
              (hne sid hm)
        · intro h sid hm
          rcases List.mem_cons.mp hm with rfl | hm
          · exact List.mem_cons_self
          · refine List.mem_cons_of_mem _ ((ih hrest).mpr (fun sid hm => ?_) sid hm)
            exact h sid (List.mem_cons_of_mem _ hm)
      | error e =>
        constructor
        · intro h
          have hs : second ∈ [first] :=
            h second (List.mem_cons_of_mem _ List.mem_cons_self)
          rw [List.mem_singleton] at hs
          exact absurd (hs ▸ List.mem_cons_self) hfirst
        · intro h
          have := h first List.mem_cons_self
          rw [hr] at this
          exact nomatch this

/-- The loop without a cancel, from the `n`-th sample on: a paused poll, or
the first exception, or the end. -/
theorem sequentialLoop_cons {polled : Nat → Polled} {sid : String}
    {rest : List String} {n : Nat} {s : String → SampleWorld}
    (hc : (polled n).cancel = false) (hs : s sid = subs.enqueued cfg W sid) :
    sequentialLoop (Pool.localHandler (subs.handlers cfg)) cfg.deps.awaitOne polled
        false (sid :: rest) n s =
      if (polled n).pause then ⟨.error pauseRaised, 1, [], s⟩
      else
        match (subs.alone cfg W sid).1 with
        | .error e =>
          ⟨.error e, 0, [], Function.update s sid (subs.alone cfg W sid).2⟩
        | .ok _ => sequentialLoop (Pool.localHandler (subs.handlers cfg))
          cfg.deps.awaitOne polled false rest (n + 1)
          (Function.update s sid (subs.alone cfg W sid).2) := by
  rw [sequentialLoop, Pool.run_localHandler, hs, hc]
  show (if (polled n).pause = true then _ else _) = _
  unfold Submissions.alone
  rcases Prog.run (subs.handlers cfg sid) cfg.deps.awaitOne (subs.enqueued cfg W sid)
    with ⟨e | ⟨⟩, w⟩ <;> rfl

/-- The loop with no poll answering yes. -/
theorem sequentialLoop_spec {polled : Nat → Polled} (hp : ∀ n, polled n = ⟨false, false⟩)
    {sids : List String} (hn : sids.Nodup) (n : Nat) {s : String → SampleWorld}
    (hs : ∀ sid ∈ sids, s sid = subs.enqueued cfg W sid) :
    ∃ outcome,
      sequentialLoop (Pool.localHandler (subs.handlers cfg)) cfg.deps.awaitOne polled
          false sids n s =
        ⟨outcome, 0, [], fun sid => if sid ∈ subs.attempted cfg W sids
          then (subs.alone cfg W sid).2 else s sid⟩ ∧
      (outcome = .ok () ↔ ∀ sid ∈ sids, (subs.alone cfg W sid).1 = .ok ()) := by
  induction sids generalizing n s with
  | nil => exact ⟨.ok (), by simp [sequentialLoop, Submissions.attempted], by simp⟩
  | cons first rest ih =>
    obtain ⟨hfirst, hrest⟩ := List.nodup_cons.mp hn
    rw [sequentialLoop_cons (by rw [hp]) (hs first List.mem_cons_self), hp]
    unfold Submissions.attempted
    cases hr : (subs.alone cfg W first).1 with
    | error e =>
      refine ⟨.error e, ?_, by simp [hr]⟩
      simp only [Bool.false_eq_true, if_false, Ended.mk.injEq, true_and]
      funext sid
      by_cases hsid : sid = first
      · subst hsid
        simp
      · simp [hsid]
    | ok u =>
      have hs' : ∀ sid ∈ rest, Function.update s first (subs.alone cfg W first).2 sid =
          subs.enqueued cfg W sid := by
        intro sid hm
        have hne : sid ≠ first := by
          rintro rfl
          exact hfirst hm
        rw [Function.update_of_ne hne]
        exact hs sid (List.mem_cons_of_mem _ hm)
      obtain ⟨outcome, heq, hok⟩ := ih hrest (n + 1) hs'
      refine ⟨outcome, ?_, by simpa [hr] using hok⟩
      simp only [Bool.false_eq_true, if_false, heq, Ended.mk.injEq, true_and]
      funext sid
      by_cases hsid : sid = first
      · subst hsid
        simp
      · simp [hsid]

/-- Where no sample raises, the loop raises on the first paused poll, with the
samples before it awaited, and returns if there is none. -/
theorem sequentialLoop_pause {polled : Nat → Polled}
    (hp : ∀ n, (polled n).cancel = false) {sids : List String} (hn : sids.Nodup)
    (hok : ∀ sid ∈ sids, (subs.alone cfg W sid).1 = .ok ()) (n : Nat)
    {s : String → SampleWorld} (hs : ∀ sid ∈ sids, s sid = subs.enqueued cfg W sid) :
    ∃ k ≤ sids.length, (∀ j < k, (polled (n + j)).pause = false) ∧
      (k < sids.length → (polled (n + k)).pause = true) ∧
      sequentialLoop (Pool.localHandler (subs.handlers cfg)) cfg.deps.awaitOne
          polled false sids n s =
        ⟨if k < sids.length then .error pauseRaised else .ok (),
          if k < sids.length then 1 else 0, [],
          fun sid => if sid ∈ sids.take k then (subs.alone cfg W sid).2 else s sid⟩ := by
  induction sids generalizing n s with
  | nil => exact ⟨0, Nat.le_refl 0, by simp, by simp, by simp [sequentialLoop]⟩
  | cons first rest ih =>
    obtain ⟨hfirst, hrest⟩ := List.nodup_cons.mp hn
    rw [sequentialLoop_cons (hp n) (hs first List.mem_cons_self)]
    simp only [hok first List.mem_cons_self]
    cases hpn : (polled n).pause with
    | true =>
      refine ⟨0, Nat.zero_le _, by simp, fun _ => hpn, ?_⟩
      simp
    | false =>
      have hs' : ∀ sid ∈ rest, Function.update s first (subs.alone cfg W first).2 sid =
          subs.enqueued cfg W sid := by
        intro sid hm
        have hne : sid ≠ first := by
          rintro rfl
          exact hfirst hm
        rw [Function.update_of_ne hne]
        exact hs sid (List.mem_cons_of_mem _ hm)
      obtain ⟨k, hk, hbefore, hat, hrun⟩ :=
        ih hrest (fun sid hm => hok sid (List.mem_cons_of_mem _ hm)) (n + 1) hs'
      refine ⟨k + 1, Nat.succ_le_succ hk, fun j hj => ?_, fun hlt => ?_, ?_⟩
      · cases j with
        | zero => exact hpn
        | succ j =>
          have := hbefore j (Nat.lt_of_succ_lt_succ hj)
          rwa [show n + (j + 1) = n + 1 + j by omega]
      · have := hat (Nat.lt_of_succ_lt_succ hlt)
        rwa [show n + (k + 1) = n + 1 + k by omega]
      · simp only [Bool.false_eq_true, if_false, hrun, List.length_cons,
          Nat.add_lt_add_iff_right, List.take_succ_cons, Ended.mk.injEq, true_and]
        funext sid
        by_cases hsid : sid = first
        · subst hsid
          have hnot : sid ∉ rest.take k := fun h => hfirst (List.mem_of_mem_take h)
          simp [hnot]
        · simp [hsid]

end Sequential

/-! ## The pool -/

/-- Not a cancel. -/
def Event.NoCancel : Event → Prop
  | .check polled => polled.cancel = false
  | _ => True

/-- Neither a cancel nor a pause. -/
def Event.Calm : Event → Prop
  | .check polled => polled = ⟨false, false⟩
  | _ => True

instance : DecidablePred Event.NoCancel
  | .check polled => inferInstanceAs (Decidable (polled.cancel = false))
  | .start | .advance _ | .wait _ | .drain | .join => inferInstanceAs (Decidable True)

instance : DecidablePred Event.Calm
  | .check polled => inferInstanceAs (Decidable (polled = ⟨false, false⟩))
  | .start | .advance _ | .wait _ | .drain | .join => inferInstanceAs (Decidable True)

theorem Event.Calm.noCancel {e : Event} (h : e.Calm) : e.NoCancel := by
  cases e with
  | check polled =>
    obtain rfl : polled = _ := h
    rfl
  | _ => trivial

section Concurrent

variable (subs : Submissions) (cfg : FanoutConfig) (W : String → SampleWorld)

/-- The futures other than those `left` have been drained, each into an
accounting error if its sample raised. -/
def Drained (errors : List AccountingError) (left : List String) : Prop :=
  ∃ drained : List String, (drained ++ left).Perm subs.sids ∧
    errors = drained.filterMap (subs.accountingError cfg W)

/-- Everything is drained, or a pause has ended the draining. -/
def DrainedOrPaused (r : FanoutRun (String → SampleWorld)) : Prop :=
  (r.pausedWrites = 0 ∧ Drained subs cfg W r.accountingErrors []) ∨ r.pausedWrites = 1

/-- What the campaign thread has done by now. -/
def OnCourse (r : FanoutRun (String → SampleWorld)) : Prop :=
  match r.main with
  | .waiting pending => r.pausedWrites = 0 ∧ Drained subs cfg W r.accountingErrors pending
  | .checking batch pending | .draining batch pending =>
    r.pausedWrites = 0 ∧ Drained subs cfg W r.accountingErrors (batch ++ pending) ∧
      ∀ sid ∈ batch, (r.pool.threads sid).isDone = true
  | .joining outcome => outcome = .ok () ∧ DrainedOrPaused subs cfg W r
  | .leaving => False
  | .done outcome =>
    outcome = .ok () ∧ DrainedOrPaused subs cfg W r ∧ r.pool.allDone = true

/-- The invariant of a call that is not cancelled. -/
structure Tracked (r : FanoutRun (String → SampleWorld)) : Prop where
  track : Pool.OnTrack (subs.handlers cfg) (fun _ => cfg.deps.awaitOne)
    (subs.enqueued cfg W) r.pool
  order : r.pool.order = subs.sids
  live : ∀ sid, r.pool.threads sid ≠ .cancelled
  idle : ∀ sid ∉ subs.sids, (r.pool.threads sid).isQueued = true
  main : OnCourse subs cfg W r

variable {subs cfg W} {r : FanoutRun (String → SampleWorld)}

theorem begin_tracked :
    Tracked subs cfg W (FanoutRun.begin subs.sids cfg.deps.awaitOne (subs.enqueued cfg W)) where
  track := Pool.submit_onTrack subs.sids
  order := rfl
  live := fun _ h => nomatch h
  idle := fun _ _ => rfl
  main := by
    unfold OnCourse FanoutRun.begin
    by_cases h : subs.sids = []
    · simp only [h, if_true]
      exact ⟨trivial, Or.inl ⟨rfl, [], by simp [h], rfl⟩, rfl⟩
    · simp only [h, if_false]
      exact ⟨trivial, [], by simp, rfl⟩

/-- A step of the pool alone leaves the campaign thread on course, as long as
what was done stays done. -/
theorem OnCourse.pool {pool : Pool String FanoutOp Ans PyError Unit (String → SampleWorld)}
    (h : OnCourse subs cfg W r)
    (hdone : ∀ sid, (r.pool.threads sid).isDone = true →
      pool.threads sid = r.pool.threads sid)
    (hall : r.pool.allDone = true → pool.allDone = true) :
    OnCourse subs cfg W { r with pool := pool } := by
  have hbatch : ∀ {batch : List String},
      (∀ sid ∈ batch, (r.pool.threads sid).isDone = true) →
        ∀ sid ∈ batch, (pool.threads sid).isDone = true := by
    intro batch hb sid hm
    rw [hdone sid (hb sid hm)]
    exact hb sid hm
  unfold OnCourse at h ⊢
  cases hm : r.main with
  | waiting pending =>
    rw [hm] at h
    exact h
  | checking batch pending =>
    rw [hm] at h
    exact ⟨h.1, h.2.1, hbatch h.2.2⟩
  | draining batch pending =>
    rw [hm] at h
    exact ⟨h.1, h.2.1, hbatch h.2.2⟩
  | joining outcome =>
    rw [hm] at h
    exact h
  | leaving =>
    rw [hm] at h
    exact h
  | done outcome =>
    rw [hm] at h
    exact ⟨h.1, h.2.1, hall h.2.2⟩

theorem Tracked.start (h : Tracked subs cfg W r) (maxWorkers : Nat) :
    Tracked subs cfg W { r with pool := r.pool.start maxWorkers } where
  track := Pool.start_onTrack maxWorkers h.track
  order := (Pool.start_order maxWorkers r.pool).trans h.order
  live := by
    intro sid hsid
    rcases Pool.start_cases maxWorkers r.pool with hs | ⟨i, p, -, hi, hs⟩
    · exact h.live sid (by simpa only [hs] using hsid)
    · by_cases heq : sid = i
      · subst heq
        simp [hs] at hsid
      · exact h.live sid (by simpa [hs, heq] using hsid)
  idle := by
    intro sid hsid
    rcases Pool.start_cases maxWorkers r.pool with hs | ⟨i, p, hm, hi, hs⟩
    · simpa only [hs] using h.idle sid hsid
    · have hne : sid ≠ i := by
        rintro rfl
        exact hsid (h.order ▸ hm)
      simpa [hs, hne] using h.idle sid hsid
  main := h.main.pool (fun _ => Pool.start_done) Pool.start_allDone

theorem Tracked.advance (h : Tracked subs cfg W r) (i : String) :
    Tracked subs cfg W
      { r with pool := r.pool.advance (Pool.localHandler (subs.handlers cfg)) i } where
  track := Pool.advance_onTrack i h.track
  order := (Pool.advance_order _ i r.pool).trans h.order
  live := by
    intro sid hsid
    rcases Pool.advance_cases (Pool.localHandler (subs.handlers cfg)) i r.pool with
      hs | ⟨res, hi, hs⟩ | ⟨op, k, hi, hs⟩
    · exact h.live sid (by simpa only [hs] using hsid)
    all_goals
      by_cases heq : sid = i
      · subst heq
        simp [hs] at hsid
      · exact h.live sid (by simpa [hs, heq] using hsid)
  idle := by
    intro sid hsid
    have hq := h.idle sid hsid
    rcases Pool.advance_cases (Pool.localHandler (subs.handlers cfg)) i r.pool with
      hs | ⟨res, hi, hs⟩ | ⟨op, k, hi, hs⟩
    · simpa only [hs] using hq
    all_goals
      have hne : sid ≠ i := by
        rintro rfl
        rw [hi] at hq
        exact nomatch hq
      simpa [hs, hne] using hq
  main := h.main.pool (fun _ => Pool.advance_done) Pool.advance_allDone

/-- A step of the campaign thread alone. -/
theorem Tracked.ofMain (h : Tracked subs cfg W r)
    {r' : FanoutRun (String → SampleWorld)} (hp : r'.pool = r.pool)
    (hm : OnCourse subs cfg W r') : Tracked subs cfg W r' where
  track := hp ▸ h.track
  order := hp ▸ h.order
  live := hp ▸ h.live
  idle := hp ▸ h.idle
  main := hm

/-- A finished sample is one that was awaited on its own. -/
theorem Tracked.alone_eq (h : Tracked subs cfg W r) {sid : String}
    {res : Except PyError Unit} (hf : r.pool.threads sid = .finished res) :
    subs.alone cfg W sid = (res, r.pool.shared sid) :=
  h.track.finished hf

theorem Tracked.done_finished (h : Tracked subs cfg W r) {sid : String}
    (hd : (r.pool.threads sid).isDone = true) :
    ∃ res, r.pool.threads sid = .finished res := by
  cases ht : r.pool.threads sid with
  | queued p =>
    rw [ht] at hd
    exact nomatch hd
  | running p =>
    rw [ht] at hd
    exact nomatch hd
  | finished res => exact ⟨res, rfl⟩
  | cancelled => exact absurd ht (h.live sid)

/-- Taking a batch out of what is pending. -/
theorem perm_batch {batch pending : List String} (hp : pending.Nodup)
    (hb : batch.Nodup) (hsub : ∀ sid ∈ batch, sid ∈ pending) :
    (batch ++ pending.filter fun sid => sid ∉ batch).Perm pending := by
  have hdisj : (batch ++ pending.filter fun sid => sid ∉ batch).Nodup := by
    refine List.nodup_append.mpr ⟨hb, hp.filter _, fun a ha b hb' heq => ?_⟩
    subst heq
    exact of_decide_eq_true (List.mem_filter.mp hb').2 ha
  refine (List.perm_ext_iff_of_nodup hdisj hp).mpr fun sid => ?_
  rw [List.mem_append, List.mem_filter]
  constructor
  · rintro (h | h)
    · exact hsub sid h
    · exact h.1
  · intro h
    by_cases hm : sid ∈ batch
    · exact Or.inl hm
    · exact Or.inr ⟨h, decide_eq_true hm⟩

theorem Drained.nodup {errors : List AccountingError} {left : List String}
    (h : Drained subs cfg W errors left) : left.Nodup := by
  obtain ⟨drained, hperm, -⟩ := h
  exact (List.nodup_append.mp (hperm.nodup_iff.mpr subs.nodup)).2.1

theorem Drained.perm {errors : List AccountingError} {left left' : List String}
    (h : Drained subs cfg W errors left) (hp : left'.Perm left) :
    Drained subs cfg W errors left' := by
  obtain ⟨drained, hperm, herr⟩ := h
  exact ⟨drained, (hp.append_left drained).trans hperm, herr⟩

theorem Tracked.wait (h : Tracked subs cfg W r) (batch : List String) :
    Tracked subs cfg W (r.wait batch) := by
  have hmain := h.main
  unfold FanoutRun.wait
  unfold OnCourse at hmain
  cases hm : r.main with
  | waiting pending =>
    rw [hm] at hmain
    obtain ⟨h0, hd⟩ := hmain
    simp only
    split
    next hb =>
      refine h.ofMain rfl ⟨h0, hd.perm ?_, fun sid hs => (hb.2 sid hs).2⟩
      exact perm_batch hd.nodup hb.1 fun sid hs => (hb.2 sid hs).1
    · exact h
  | _ => exact h

theorem Tracked.check (h : Tracked subs cfg W r) {polled : Polled}
    (hc : polled.cancel = false) : Tracked subs cfg W (r.check polled) := by
  have hmain := h.main
  unfold FanoutRun.check
  unfold OnCourse at hmain
  cases hm : r.main with
  | checking batch pending =>
    rw [hm] at hmain
    obtain ⟨h0, hd, hdone⟩ := hmain
    simp only [hc, Bool.false_eq_true, if_false]
    split
    · exact h.ofMain rfl ⟨rfl, Or.inr (congrArg (· + 1) h0)⟩
    · exact h.ofMain rfl ⟨h0, hd, hdone⟩
  | _ => exact h

/-- Draining a sample's future records what its `_await_one` raised. -/
theorem Tracked.drainFuture (h : Tracked subs cfg W r) {sid : String}
    (hd : (r.pool.threads sid).isDone = true) :
    r.drainFuture cfg.step sid =
      ({ r with accountingErrors :=
          r.accountingErrors ++ [sid].filterMap (subs.accountingError cfg W) }, none) := by
  obtain ⟨res, hf⟩ := h.done_finished hd
  have halone := h.alone_eq hf
  rcases @drainFuture_cases _ cfg.step r sid with heq | ⟨e, hfe, hraise⟩
  · rw [heq]
    unfold FanoutRun.carried Submissions.accountingError
    cases res <;> simp [hf, halone]
  · -- Only an abort or an interrupt stops the draining.
    have hord : Ordinary e := alone_error (by rw [h.alone_eq hfe])
    rcases hraise with ⟨ha, -⟩ | ⟨-, hi, -⟩
    · rw [hord.1] at ha
      cases ha
    · rw [hord.2] at hi
      cases hi

theorem Tracked.drain (h : Tracked subs cfg W r) :
    Tracked subs cfg W (r.drain cfg.step) := by
  have hmain := h.main
  unfold FanoutRun.drain
  unfold OnCourse at hmain
  cases hm : r.main with
  | draining batch pending =>
    rw [hm] at hmain
    obtain ⟨h0, hd, hdone⟩ := hmain
    cases batch with
    | nil =>
      cases pending with
      | nil => exact h.ofMain rfl ⟨rfl, Or.inl ⟨h0, hd⟩⟩
      | cons sid rest => exact h.ofMain rfl ⟨h0, hd⟩
    | cons sid rest =>
      simp only [h.drainFuture (hdone sid List.mem_cons_self)]
      refine h.ofMain rfl ⟨h0, ?_, fun s hs => hdone s (List.mem_cons_of_mem _ hs)⟩
      obtain ⟨drained, hperm, herr⟩ := hd
      refine ⟨drained ++ [sid], ?_, ?_⟩
      · rwa [List.append_assoc]
      · rw [List.filterMap_append, herr]
  | _ => exact h

theorem Tracked.join (h : Tracked subs cfg W r) : Tracked subs cfg W r.join := by
  have hmain := h.main
  unfold FanoutRun.join
  unfold OnCourse at hmain
  cases hm : r.main with
  | joining outcome =>
    rw [hm] at hmain
    simp only
    split
    next hall => exact h.ofMain rfl ⟨hmain.1, hmain.2, hall⟩
    · exact h
  | leaving =>
    rw [hm] at hmain
    exact hmain.elim
  | _ => exact h

theorem Tracked.step (h : Tracked subs cfg W r) (maxWorkers : Nat) {e : Event}
    (he : e.NoCancel) :
    Tracked subs cfg W (FanoutRun.step cfg.step (Pool.localHandler (subs.handlers cfg))
      maxWorkers r e) := by
  cases e with
  | start => exact h.start maxWorkers
  | advance sid => exact h.advance sid
  | wait batch => exact h.wait batch
  | check polled => exact h.check he
  | drain => exact h.drain
  | join => exact h.join

/-- The invariant holds after every schedule without a cancel. -/
theorem concurrent_tracked (maxWorkers : Nat) {es : List Event}
    (hes : ∀ e ∈ es, e.NoCancel) :
    Tracked subs cfg W (subs.concurrent cfg W maxWorkers es) :=
  run_inv_of _ (fun _ _ he h => h.step maxWorkers he) begin_tracked hes

/-- What a call has done when it is back in its caller. -/
theorem Tracked.returned (h : Tracked subs cfg W r) {outcome : Except PyError Unit}
    (hm : r.main = .done outcome) :
    outcome = .ok () ∧ r.pool.shared = subs.awaitedWorlds cfg W ∧
      DrainedOrPaused subs cfg W r := by
  have hmain := h.main
  unfold OnCourse at hmain
  rw [hm] at hmain
  obtain ⟨hok, hdrained, hall⟩ := hmain
  refine ⟨hok, ?_, hdrained⟩
  funext sid
  unfold Submissions.awaitedWorlds
  by_cases hs : sid ∈ subs.sids
  · rw [if_pos hs]
    rw [Pool.allDone, List.all_eq_true, h.order] at hall
    obtain ⟨res, hf⟩ := h.done_finished (hall sid hs)
    rw [h.alone_eq hf]
  · rw [if_neg hs]
    have hq := h.idle sid hs
    have htrack := h.track sid
    cases ht : r.pool.threads sid with
    | queued p =>
      rw [ht] at htrack
      rw [htrack.2, Submissions.enqueued, if_neg hs]
    | _ =>
      rw [ht] at hq
      cases hq

/-- The paused traces a run writes: one for each check that sees the pause. -/
theorem step_pausedWrites (maxWorkers : Nat) (r : FanoutRun (String → SampleWorld))
    {e : Event} (he : e.Calm) :
    (FanoutRun.step cfg.step (Pool.localHandler (subs.handlers cfg)) maxWorkers
      r e).pausedWrites = r.pausedWrites := by
  cases e with
  | start => rfl
  | advance sid => rfl
  | wait batch =>
    simp only [FanoutRun.step, FanoutRun.wait]
    split
    · split <;> rfl
    · rfl
  | check polled =>
    obtain rfl : polled = _ := he
    simp only [FanoutRun.step, FanoutRun.check]
    split <;> rfl
  | drain =>
    simp only [FanoutRun.step, FanoutRun.drain]
    split
    · rfl
    · rfl
    next sid rest pending hm =>
      rcases @drainFuture_cases _ cfg.step r sid with
        heq | ⟨e, -, ⟨-, heq⟩ | ⟨-, -, heq⟩⟩ <;> rw [heq]
    · rfl
  | join =>
    simp only [FanoutRun.step, FanoutRun.join]
    split
    · split <;> rfl
    · rfl
    · rfl

/-- Without a pause nothing is left undrained. -/
theorem concurrent_calm (maxWorkers : Nat) {es : List Event} (hes : ∀ e ∈ es, e.Calm) :
    (subs.concurrent cfg W maxWorkers es).pausedWrites = 0 :=
  run_inv_of _ (I := fun r : FanoutRun _ => r.pausedWrites = 0)
    (fun r _ he h => (step_pausedWrites maxWorkers r he).trans h) rfl hes

end Concurrent

end OSimFlow.Fanout
