import OSimFlow.Fanout.Abort
import OSimFlow.Lib.Dict

/-!
# How often a sample is submitted again

Two counters bound the resubmissions of a sample: the loop of `_await_one`, and
the attempts that `WorkerRecoveryManager` remembers from step to step and
forgets on `reset`. A `Ledger` keeps, for one sample and one call of
`_await_one`, how often it was submitted again, whether the heartbeat was found
stale since, and how much of its last result has been recorded: the success
callback has returned, and the job is marked as completed.

> `resubmits_within_budget`: no more than `max_sample_retries`, and each after
> a stale heartbeat.
>
> `reset_after_recorded_iff`: the attempts go back to zero after a recorded
> result only, but for one path.

That path is the recovery's own. Where the handle of the submission delivers,
the job is marked and then the attempts are reset; where a resubmitted handle
does, the reset is part of the success callback, and the mark comes after it.

The order of the calls is a call protocol. Its phase knows what the ledger has
to say at the next resubmission and the next reset.
-/

namespace OSimFlow.Observability

open OSimFlow.Lib

/-- `WorkerRecoveryManager`. -/
structure WorkerRecoveryManager where
  recoveryAttempts : Dict String Nat

namespace WorkerRecoveryManager

variable (m : WorkerRecoveryManager) (sid : String)

/-- `get_attempt_count`. -/
def getAttemptCount : Nat := (m.recoveryAttempts.get? sid).getD 0

/-- `can_recover`. -/
def canRecover (maxRetries : Nat) : Bool := decide (m.getAttemptCount sid < maxRetries)

/-- `record_attempt`. -/
def recordAttempt : WorkerRecoveryManager :=
  ⟨m.recoveryAttempts.set sid (m.getAttemptCount sid + 1)⟩

/-- `reset`. -/
def reset : WorkerRecoveryManager := ⟨m.recoveryAttempts.erase sid⟩

/-- `check_and_recover`, when `is_stale` is `stale`. -/
def checkAndRecover (maxRetries : Nat) (stale : Bool) : (Bool × Nat) × WorkerRecoveryManager :=
  if !stale then ((false, 0), m)
  else if !m.canRecover sid maxRetries then ((false, m.getAttemptCount sid), m)
  else ((true, (m.recordAttempt sid).getAttemptCount sid), m.recordAttempt sid)

@[simp] theorem getAttemptCount_recordAttempt :
    (m.recordAttempt sid).getAttemptCount sid = m.getAttemptCount sid + 1 := by
  unfold getAttemptCount recordAttempt
  rw [Dict.get?_set_self]
  rfl

@[simp] theorem getAttemptCount_reset : (m.reset sid).getAttemptCount sid = 0 := by
  unfold getAttemptCount reset
  rw [Dict.get?_erase_self]
  rfl

/-- It goes ahead for a stale heartbeat only, and counts that it does. -/
theorem checkAndRecover_cases (maxRetries : Nat) (stale : Bool) :
    ((m.checkAndRecover sid maxRetries stale).1.1 = false ∧
      (m.checkAndRecover sid maxRetries stale).2 = m) ∨
    (stale = true ∧ (m.checkAndRecover sid maxRetries stale).1.1 = true ∧
      (m.checkAndRecover sid maxRetries stale).2 = m.recordAttempt sid) := by
  unfold checkAndRecover
  cases stale with
  | false => exact .inl ⟨rfl, rfl⟩
  | true =>
    cases m.canRecover sid maxRetries with
    | false => exact .inl ⟨rfl, rfl⟩
    | true => exact .inr ⟨rfl, rfl, rfl⟩

end WorkerRecoveryManager

end OSimFlow.Observability

namespace OSimFlow.Fanout

open OSimFlow.Lib
open OSimFlow.Observability (WorkerRecoveryManager)
open AwaitProg (invoke)

/-! ## The ledger -/

/-- What has happened to a sample in one call of `_await_one`. -/
structure Ledger where
  resubmissions : Nat
  /-- `check_and_recover` has found the heartbeat stale since the last resubmission. -/
  foundStale : Bool
  /-- The success callback has returned on the last result. -/
  accounted : Bool
  /-- And the job has been marked as completed. -/
  marked : Bool

def Ledger.start : Ledger := ⟨0, false, false, false⟩

structure RecoveryWorld (τ : Type) where
  env : τ
  manager : WorkerRecoveryManager
  ledger : Ledger

/-- The calls for the sample `sid`. All is answered as `env` does, whose answer to
`check_and_recover` is whether the heartbeat is stale. -/
def recoveryHandler {τ : Type} (sid : String) (maxRetries : Nat)
    (env : Prog.Handler FanoutOp Ans τ) : Prog.Handler FanoutOp Ans (RecoveryWorld τ)
  | .checkAndRecover n, w =>
    let (stale, t) := env (.checkAndRecover n) w.env
    let ((goes, _), manager) := w.manager.checkAndRecover sid maxRetries stale
    (goes, ⟨t, manager, { w.ledger with foundStale := stale }⟩)
  | .resubmit n, w =>
    let (x, t) := env (.resubmit n) w.env
    (x, ⟨t, w.manager, { w.ledger with
      resubmissions := w.ledger.resubmissions + 1, foundStale := false }⟩)
  | .resetRecovery, w =>
    let (x, t) := env .resetRecovery w.env
    (x, ⟨t, w.manager.reset sid, w.ledger⟩)
  | .callback (.result handle), w =>
    let (x, t) := env (.callback (.result handle)) w.env
    (x, ⟨t, w.manager, { w.ledger with accounted := false, marked := false }⟩)
  | .callback (.onSuccess handle call), w =>
    let (x, t) := env (.callback (.onSuccess handle call)) w.env
    (x, ⟨t, w.manager, { w.ledger with accounted := w.ledger.accounted || x.isOk }⟩)
  | .callback (.markCompleted site), w =>
    let (x, t) := env (.callback (.markCompleted site)) w.env
    (x, ⟨t, w.manager, { w.ledger with
      marked := w.ledger.marked || w.ledger.accounted && x.isOk }⟩)
  | op, w =>
    let (x, t) := env op w.env
    (x, ⟨t, w.manager, w.ledger⟩)

section Calls

variable {τ : Type} (sid : String) (maxRetries : Nat)

/-- Before a resubmission the heartbeat was found stale, and the budget is not spent. -/
def Resubmittable (op : FanoutOp) (w : RecoveryWorld τ) : Prop :=
  ∀ n, op = .resubmit n → w.ledger.foundStale = true ∧ w.ledger.resubmissions < maxRetries

variable (h : Prog.Handler FanoutOp Ans (RecoveryWorld τ))

/-- The attempts go back to zero for a recorded result only. -/
def ResetWhenRecorded (op : FanoutOp) (w : RecoveryWorld τ) : Prop :=
  0 < w.manager.getAttemptCount sid → (h op w).2.manager.getAttemptCount sid = 0 →
    w.ledger.accounted = true ∧ w.ledger.marked = true

/-- The success callback does not return on the result of a resubmitted handle. -/
def NoneRecovered : FanoutOp → RecoveryWorld τ → Prop
  | .callback (.onSuccess (handle + 1) call), w =>
    (h (.callback (.onSuccess (handle + 1) call)) w).1 ≠ .ok ()
  | _, _ => True

end Calls

/-! ## The protocol -/

/-- What a phase knows of the last result. -/
inductive Stage where
  | other
  /-- Nothing of it is recorded. -/
  | delivered
  | accounted
  | marked
  /-- A resubmitted handle's has been accounted: the reset comes next. -/
  | recovered
deriving DecidableEq

structure RecoveryPhase where
  /-- The resubmissions that the loop may still make. -/
  left : Nat
  /-- The next one has been allowed. -/
  found : Bool
  /-- One was made since the last reset. -/
  tried : Bool
  stage : Stage

def recoveryNext (phase : RecoveryPhase) : (op : FanoutOp) → Ans op → Option RecoveryPhase
  | .resetRecovery, _ =>
    if phase.stage = .marked ∨ phase.stage = .recovered then
      some { phase with found := false, tried := false, stage := .other }
    else none
  | .callback (.onSuccess (_ + 1) _), x =>
    if phase.stage = .delivered ∧ phase.tried = true then
      some (if x.isOk then { phase with stage := .recovered } else phase)
    else none
  | op, x =>
    if phase.stage = .recovered then none
    else
      match op, x with
      | .callback (.result _), _ => some { phase with stage := .delivered }
      | .callback (.onSuccess _ _), x =>
        some (if x.isOk then { phase with stage := .accounted } else phase)
      | .callback (.markCompleted _), x =>
        some (if phase.stage = .accounted ∧ x.isOk then { phase with stage := .marked } else phase)
      | .checkAndRecover _, goes => some { phase with found := goes }
      | .resubmit _, _ =>
        if phase.found = true ∧ 0 < phase.left then
          some { phase with left := phase.left - 1, found := false, tried := true }
        else none
      | _, _ => some phase

/-- The calls of the protocol, and `E` of how a program may end. -/
def recoveryProtocol (E : RecoveryPhase → Option PyError → Prop) :
    Prog.Protocol RecoveryPhase FanoutOp Ans PyError := ⟨recoveryNext, E⟩

/-- The program keeps to the protocol, whatever its calls are answered. -/
abbrev Passes (E : RecoveryPhase → Option PyError → Prop) (phase : RecoveryPhase) {α : Type}
    (p : AwaitProg α) : Prop :=
  Prog.Follows (fun _ _ => True) (recoveryProtocol E) phase p

/-- It ends where it began. -/
def Same (phase : RecoveryPhase) (phase' : RecoveryPhase) (_ : Option PyError) : Prop :=
  phase' = phase

/-- It leaves as many rounds. -/
def Leaves (left : Nat) (phase : RecoveryPhase) (_ : Option PyError) : Prop :=
  phase.left = left ∧ phase.stage ≠ .recovered

def Safe (phase : RecoveryPhase) (_ : Option PyError) : Prop := phase.stage ≠ .recovered

variable {E E' : RecoveryPhase → Option PyError → Prop} {phase : RecoveryPhase} {α β : Type}

theorem Passes.mono {p : AwaitProg α} (hp : Passes E phase p)
    (hE : ∀ phase' r, E phase' r → E' phase' r) : Passes E' phase p := by
  induction p generalizing phase with
  | ret r => exact hE _ _ hp
  | call op k ih =>
    intro x hx
    obtain ⟨phase', hnext, hk⟩ := hp x hx
    exact ⟨phase', hnext, ih x hk⟩

theorem Passes.bind {p : AwaitProg α} {f : α → AwaitProg β} (hp : Passes E phase p)
    (herr : ∀ phase' e, E phase' (some e) → E' phase' (some e))
    (hf : ∀ phase' a, E phase' none → Passes E' phase' (f a)) : Passes E' phase (p >>= f) :=
  Prog.Follows.bind hp rfl herr hf

/-- After a part that ends where it began. -/
theorem Passes.seq {p : AwaitProg α} {f : α → AwaitProg β} (hp : Passes (Same phase) phase p)
    (herr : ∀ e, E phase (some e)) (hf : ∀ a, Passes E phase (f a)) :
    Passes E phase (p >>= f) := by
  refine hp.bind (fun phase' e hsame => ?_) fun phase' a hsame => ?_
  · rw [show phase' = phase from hsame]
    exact herr e
  · rw [show phase' = phase from hsame]
    exact hf a

theorem Passes.catching {body : AwaitProg α} {handler : PyError → AwaitProg α}
    (hb : Passes E phase body) (hok : ∀ phase', E phase' none → E' phase' none)
    (hh : ∀ phase' e, E phase' (some e) → Passes E' phase' (handler e)) :
    Passes E' phase (tryCatch body handler) :=
  Prog.Follows.tryCatch hb rfl hok hh

theorem Passes.exceptException {body : AwaitProg α} {handler : PyError → AwaitProg α}
    (hb : Passes E phase body) (hE : ∀ phase' r, E phase' r → E' phase' r)
    (hh : ∀ phase' e, E phase' (some e) → Passes E' phase' (handler e)) :
    Passes E' phase (exceptException body handler) := by
  refine hb.catching (fun phase' h => hE phase' none h) fun phase' e he => ?_
  cases e.isException with
  | true => simpa only [if_true] using hh phase' e he
  | false =>
    simp only [Bool.false_eq_true, if_false]
    exact Prog.Follows.throw (hE phase' (some e) he)

/-! ## The text of `_await_one` -/

/-- A call that the phases do not look at. -/
def FanoutOp.isQuiet : FanoutOp → Bool
  | .callback (.result _) | .callback (.onSuccess _ _) | .callback (.markCompleted _)
  | .resetRecovery | .checkAndRecover _ | .resubmit _ => false
  | _ => true

theorem next_quiet {op : FanoutOp} (hop : op.isQuiet = true) (hphase : phase.stage ≠ .recovered)
    (x : Ans op) : recoveryNext phase op x = some phase := by
  cases op with
  | callback c => cases c <;> first | exact if_neg hphase | cases hop
  | _ => first | exact if_neg hphase | cases hop

theorem invoke_same {c : Callback} (hc : (FanoutOp.callback c).isQuiet = true)
    (hphase : phase.stage ≠ .recovered) : Passes (Same phase) phase (invoke c) :=
  fun x _ => ⟨phase, next_quiet hc hphase x, rfl⟩

theorem ask_same {op : FanoutOp} (hop : op.isQuiet = true) (hphase : phase.stage ≠ .recovered) :
    Passes (Same phase) phase (Prog.ask op : AwaitProg (Ans op)) :=
  fun x _ => ⟨phase, next_quiet hop hphase x, rfl⟩

theorem pure_same (a : α) : Passes (Same phase) phase (pure a : AwaitProg α) :=
  Prog.Follows.pure rfl a

/-- `checkpoint_sample`. -/
theorem checkpointSample_same (site : Site) (hphase : phase.stage ≠ .recovered) :
    Passes (Same phase) phase (checkpointSample site) := by
  unfold checkpointSample
  have hbuild : Passes (Same phase) phase (AwaitProg.buildSampleTrace site) :=
    fun x _ => ⟨phase, next_quiet rfl hphase x, rfl⟩
  refine hbuild.seq (fun _ => rfl) fun state => ?_
  cases state with
  | false => exact pure_same ()
  | true =>
    have hupdate : Passes (Same phase) phase
        (do invoke (.updateSample site); pure true : AwaitProg Bool) :=
      (invoke_same rfl hphase).seq (fun _ => rfl) fun _ => pure_same true
    refine (hupdate.exceptException (fun _ _ hsame => hsame) fun phase' e hsame => ?_).seq
      (fun _ => rfl) fun written => ?_
    · rw [show phase' = phase from hsame]
      refine (ask_same rfl hphase).seq (fun _ => rfl) fun failures => ?_
      by_cases h3 : 3 ≤ failures
      · simp only [if_pos h3]
        exact Prog.Follows.throw rfl
      · simp only [if_neg h3]
        exact pure_same false
    · cases written with
      | false => exact pure_same ()
      | true => exact ask_same rfl hphase

variable {cfg : FanoutConfig}

/-- `mark_sample_failed`. -/
theorem markSampleFailed_same (site : Site) (error : PyError) (hphase : phase.stage ≠ .recovered) :
    Passes (Same phase) phase (cfg.checkpointing.markSampleFailed site error) := by
  refine (invoke_same rfl hphase).seq (fun _ => rfl) fun _ => ?_
  refine (ask_same rfl hphase).seq (fun _ => rfl) fun _ => ?_
  refine (checkpointSample_same site hphase).seq (fun _ => rfl) fun _ => ?_
  refine (invoke_same rfl hphase).seq (fun _ => rfl) fun _ => ?_
  exact invoke_same rfl hphase

/-- What the bookkeeping of the submitted handle's result ends with. -/
def AccountedIn (left : Nat) (phase : RecoveryPhase) (r : Option PyError) : Prop :=
  Leaves left phase r ∧ (r = none → phase.stage = .accounted)

theorem onSuccess_accounts (call : Nat) (hphase : phase.stage ≠ .recovered) :
    Passes (AccountedIn phase.left) phase (invoke (.onSuccess 0 call)) := by
  intro x _
  have hnext : recoveryNext phase (.callback (.onSuccess 0 call)) x =
      some (if x.isOk then { phase with stage := .accounted } else phase) := if_neg hphase
  refine ⟨_, hnext, ?_⟩
  cases x with
  | ok u => exact ⟨⟨rfl, fun h => nomatch h⟩, fun _ => rfl⟩
  | error e => exact ⟨⟨rfl, hphase⟩, fun h => nomatch h⟩

theorem runBookkeeping_accounts {attempts : Nat} (hpos : 0 < attempts) (call : Nat)
    (hphase : phase.stage ≠ .recovered) :
    Passes (AccountedIn phase.left) phase (runBookkeepingWithRetry 0 attempts call) := by
  induction attempts generalizing phase call with
  | zero => exact absurd hpos (Nat.lt_irrefl 0)
  | succ attempts ih =>
    refine (onSuccess_accounts call hphase).exceptException (fun _ _ h => h) fun phase' e he => ?_
    by_cases hlast : attempts = 0
    · simp only [if_pos hlast]
      exact Prog.Follows.throw he
    · simp only [if_neg hlast]
      rw [← he.1.1]
      exact ih (Nat.pos_of_ne_zero hlast) (call + 1) he.1.2

/-- The reset comes after the mark. -/
theorem bookkeep_leaves (hphase : phase.stage ≠ .recovered) :
    Passes (Leaves phase.left) phase cfg.checkpointing.bookkeep := by
  refine (runBookkeeping_accounts (show 0 < bookkeepingMaxAttempts by decide) 0 hphase).bind
    (fun _ _ h => h.1) fun phase' _ haccounted => ?_
  obtain ⟨⟨hleft, hsafe⟩, hstage⟩ := haccounted
  have hmark : Passes (fun phase'' r => Leaves phase.left phase'' r ∧
      (r = none → phase''.stage = .marked)) phase' (invoke (.markCompleted .success)) := by
    intro x _
    have hnext : recoveryNext phase' (.callback (.markCompleted .success)) x =
        some (if phase'.stage = .accounted ∧ x.isOk then { phase' with stage := .marked }
          else phase') := if_neg hsafe
    refine ⟨_, hnext, ?_⟩
    cases x with
    | ok u =>
      rw [if_pos ⟨hstage rfl, rfl⟩]
      exact ⟨⟨hleft, fun h => nomatch h⟩, fun _ => rfl⟩
    | error e =>
      rw [if_neg fun h => nomatch h.2]
      exact ⟨⟨hleft, hsafe⟩, fun h => nomatch h⟩
  refine hmark.bind (fun _ _ h => h.1) fun phase'' _ hmarked => ?_
  cases cfg.checkpointing.recoveryManager with
  | false => exact Prog.Follows.pure hmarked.1 ()
  | true =>
    intro x _
    exact ⟨_, if_pos (.inl (hmarked.2 rfl)), hmarked.1.1, fun h => nomatch h⟩

/-- A resubmitted handle's result is accounted, and then the attempts are reset. -/
theorem finishRecovered_safe (hdeps : cfg.recoveryManager = true) (handle : Nat)
    (hdelivered : phase.stage = .delivered) (htried : phase.tried = true) :
    Passes Safe phase (cfg.checkpointing.finishRecovered (handle + 1)) := by
  have hsuccess : Passes (fun phase' r => (r = none → phase'.stage = .recovered) ∧
      (r ≠ none → phase'.stage ≠ .recovered)) phase (invoke (.onSuccess (handle + 1) 0)) := by
    intro x _
    refine ⟨_, if_pos ⟨hdelivered, htried⟩, ?_⟩
    cases x with
    | ok u => exact ⟨fun _ => rfl, fun h => absurd rfl h⟩
    | error e =>
      refine ⟨fun h => (nomatch h), fun _ h => ?_⟩
      exact nomatch hdelivered.symm.trans h
  have hsafe : ∀ phase' : RecoveryPhase, phase'.stage = .other → phase'.stage ≠ .recovered := by
    intro phase' hother h
    exact nomatch hother.symm.trans h
  refine hsuccess.bind (fun _ _ h => h.2 (fun h => nomatch h)) fun phase' _ hrecovered => ?_
  have hreset : Passes (fun phase' _ => phase'.stage = .other) phase'
      AwaitProg.resetRecovery :=
    fun _ _ => ⟨_, if_pos (.inr (hrecovered.1 rfl)), rfl⟩
  have hmanager : cfg.checkpointing.recoveryManager = true := hdeps
  simp only [hmanager, if_true]
  refine hreset.bind (fun phase' _ h => hsafe phase' h) fun phase' _ hother => ?_
  have hmark : Passes (Same phase') phase' (invoke (.markCompleted .recovered)) := by
    intro x _
    have hnext : recoveryNext phase' (.callback (.markCompleted .recovered)) x =
        some (if phase'.stage = .accounted ∧ x.isOk then { phase' with stage := .marked }
          else phase') := if_neg (hsafe phase' hother)
    refine ⟨_, hnext, if_neg fun h => ?_⟩
    exact nomatch hother.symm.trans h.1
  refine hmark.seq (fun _ => hsafe phase' hother) fun _ => ?_
  refine (checkpointSample_same .recovered (hsafe phase' hother)).mono fun final _ hsame => ?_
  rw [show final = phase' from hsame]
  exact hsafe phase' hother

/-- The recovery loop, with as many rounds left as the budget. -/
theorem recoveryLoop_safe (hdeps : cfg.recoveryManager = true) (n : Nat)
    (hphase : phase.stage ≠ .recovered) :
    Passes Safe phase (cfg.checkpointing.recoveryLoop phase.left n) := by
  generalize hrounds : phase.left = rounds
  induction rounds generalizing phase n with
  | zero => exact Prog.Follows.pure hphase false
  | succ rounds ih =>
    intro goes _
    refine ⟨_, if_neg hphase, ?_⟩
    cases goes with
    | false => exact hphase
    | true =>
      intro cleared _
      refine ⟨_, if_neg hphase, ?_⟩
      intro x _
      have hnext : recoveryNext { phase with found := true } (.resubmit n) x =
          some { phase with left := phase.left - 1, found := false, tried := true } := by
        show (if phase.stage = .recovered then none else _) = _
        rw [if_neg hphase]
        exact if_pos ⟨rfl, by show 0 < phase.left; omega⟩
      refine ⟨_, hnext, ?_⟩
      have hleft : phase.left - 1 = rounds := by omega
      rcases x with e | handle
      · exact hphase
      cases handle with
      | false => exact hphase
      | true =>
        rw [hleft]
        show Passes Safe _ (do
          let delivered ← exceptException (do invoke (.result (n + 1)); pure true)
            fun _ => pure false
          if delivered then cfg.checkpointing.finishRecovered (n + 1); pure true
          else cfg.checkpointing.recoveryLoop rounds (n + 1))
        have hresult : Passes (fun phase' _ => phase'.left = rounds ∧ phase'.tried = true ∧
            phase'.stage = .delivered) ⟨rounds, false, true, phase.stage⟩
            (do invoke (.result (n + 1)); pure true : AwaitProg Bool) := by
          intro y _
          refine ⟨⟨rounds, false, true, .delivered⟩, if_neg hphase, ?_⟩
          cases y with
          | ok u => exact ⟨rfl, rfl, rfl⟩
          | error e => exact ⟨rfl, rfl, rfl⟩
        refine (hresult.exceptException (fun _ _ h => h) fun _ _ h =>
          Prog.Follows.pure h false).bind ?_ fun phase' delivered h => ?_
        · intro phase' e h hrecovered
          exact nomatch h.2.2.symm.trans hrecovered
        obtain ⟨hleft', htried, hdelivered⟩ := h
        cases delivered with
        | true =>
          exact (finishRecovered_safe hdeps n hdelivered htried).bind (fun _ _ h => h)
            fun _ _ h => Prog.Follows.pure h true
        | false =>
          refine ih (n + 1) (fun h => ?_) hleft'
          exact nomatch hdelivered.symm.trans h

theorem Passes.safe {p : AwaitProg α} (hp : Passes (Same phase) phase p)
    (hphase : phase.stage ≠ .recovered) : Passes Safe phase p := by
  refine hp.mono fun phase' _ hsame => ?_
  rw [show phase' = phase from hsame]
  exact hphase

/-- The inner `try` spends nothing of the budget. -/
theorem awaitResult_leaves (hphase : phase.stage ≠ .recovered) :
    Passes (Leaves phase.left) phase cfg.checkpointing.awaitResult := by
  have hresult : Passes (Leaves phase.left) phase (invoke (.result 0)) :=
    fun _ _ => ⟨{ phase with stage := .delivered }, if_neg hphase, rfl, fun h => nomatch h⟩
  refine hresult.bind (fun _ _ h => h) fun phase' _ h => ?_
  rw [← h.1]
  have hbody : Passes (Leaves phase'.left) phase'
      (do cfg.checkpointing.bookkeep; pure true : AwaitProg Bool) :=
    (bookkeep_leaves h.2).bind (fun _ _ h => h) fun _ _ h => Prog.Follows.pure h true
  refine hbody.exceptException (fun _ _ h => h) fun final e hfinal => ?_
  refine (markSampleFailed_same _ _ hfinal.2).bind (fun phase' e hsame => ?_)
    fun phase' _ hsame => ?_
  · rw [show phase' = final from hsame]
    exact hfinal
  · rw [show phase' = final from hsame]
    exact Prog.Follows.pure hfinal false

/-- The handlers of the outer `try`. -/
theorem handleError_safe (error : PyError) (hphase : phase.stage ≠ .recovered)
    (hleft : phase.left = cfg.maxSampleRetries) :
    Passes Safe phase (cfg.checkpointing.handleError error) := by
  have hrecover : Passes Safe phase cfg.checkpointing.recover := by
    unfold FanoutDeps.recover
    cases hmanager : cfg.checkpointing.recoveryManager with
    | false => exact Prog.Follows.pure hphase false
    | true =>
      cases cfg.checkpointing.resubmitCallback with
      | false => exact Prog.Follows.pure hphase false
      | true =>
        show Passes Safe phase (cfg.checkpointing.recoveryLoop cfg.maxSampleRetries 0)
        rw [← hleft]
        exact recoveryLoop_safe hmanager 0 hphase
  unfold FanoutDeps.handleError
  cases error.isException with
  | true =>
    refine hrecover.bind (fun _ _ h => h) fun phase' recovered h => ?_
    cases recovered with
    | true => exact Prog.Follows.pure h ()
    | false => exact (markSampleFailed_same _ _ h).safe h
  | false =>
    simp only [Bool.false_eq_true, if_false]
    unfold FanoutDeps.handleBaseException
    cases error.isInterrupt with
    | true => exact Prog.Follows.throw hphase
    | false => exact (markSampleFailed_same _ _ hphase).safe hphase

/-- **The text of `_await_one`**, with the whole budget. -/
theorem awaitOne_safe (hphase : phase.stage ≠ .recovered)
    (hleft : phase.left = cfg.maxSampleRetries) :
    Passes Safe phase cfg.checkpointing.awaitOne := by
  refine (ask_same rfl hphase).seq (fun _ => hphase) fun _ => ?_
  have htry : Passes Safe phase (tryCatch cfg.checkpointing.awaitResult fun e => do
      cfg.checkpointing.handleError e
      pure false) := by
    refine (awaitResult_leaves hphase).catching (fun _ h => h.2) fun phase' e h => ?_
    exact (handleError_safe e h.2 (h.1.trans hleft)).bind (fun _ _ h => h)
      fun _ _ h => Prog.Follows.pure h false
  refine htry.bind (fun _ _ h => h) fun phase' fallsThrough h => ?_
  cases fallsThrough with
  | true => exact (checkpointSample_same .success h).safe h
  | false => exact Prog.Follows.pure h ()

/-! ## What the phases say of the ledger -/

/-- What is known of the last result. -/
def StageHolds (sid : String) {τ : Type} : Stage → RecoveryWorld τ → Prop
  | .other, _ => True
  | .delivered, w => w.ledger.accounted = false ∧ w.ledger.marked = false
  | .accounted, w => w.ledger.accounted = true
  | .marked, w => w.ledger.accounted = true ∧ w.ledger.marked = true
  | .recovered, w => w.ledger.marked = false ∧ 0 < w.manager.getAttemptCount sid

structure Tallies (maxRetries : Nat) (sid : String) {τ : Type} (phase : RecoveryPhase)
    (w : RecoveryWorld τ) : Prop where
  budget : w.ledger.resubmissions + phase.left ≤ maxRetries
  found : phase.found = true → w.ledger.foundStale = true ∧ 0 < w.manager.getAttemptCount sid
  tried : phase.tried = true → 0 < w.manager.getAttemptCount sid
  stage : StageHolds sid phase.stage w

section Runs

variable {τ : Type} {sid : String} {maxRetries : Nat} {env : Prog.Handler FanoutOp Ans τ}
  {phase' : RecoveryPhase} {w : RecoveryWorld τ}

theorem of_ite_none {c : Prop} [Decidable c] {x : Option RecoveryPhase}
    (h : (if c then none else x) = some phase') : ¬ c ∧ x = some phase' := by
  by_cases hc : c
  · rw [if_pos hc] at h
    exact nomatch h
  · rw [if_neg hc] at h
    exact ⟨hc, h⟩

theorem of_ite_some {c : Prop} [Decidable c] {x : RecoveryPhase}
    (h : (if c then some x else none) = some phase') : c ∧ x = phase' := by
  by_cases hc : c
  · rw [if_pos hc] at h
    exact ⟨hc, Option.some.inj h⟩
  · rw [if_neg hc] at h
    exact nomatch h

/-- A call that neither submits nor counts moves the stage only. -/
theorem Tallies.move (h : Tallies maxRetries sid phase w) (w' : RecoveryWorld τ)
    (hmanager : w'.manager = w.manager)
    (hresubmissions : w'.ledger.resubmissions = w.ledger.resubmissions)
    (hstale : w'.ledger.foundStale = w.ledger.foundStale) (stage : Stage)
    (hstage : StageHolds sid stage w') :
    Tallies maxRetries sid { phase with stage := stage } w' where
  budget := by rw [hresubmissions]; exact h.budget
  found := fun hfound => by rw [hstale, hmanager]; exact h.found hfound
  tried := fun htried => by rw [hmanager]; exact h.tried htried
  stage := hstage

/-- A quiet call touches neither the manager nor the ledger. -/
theorem recoveryHandler_quiet {op : FanoutOp} (hop : op.isQuiet = true) (w : RecoveryWorld τ) :
    (recoveryHandler sid maxRetries env op w).2.manager = w.manager ∧
      (recoveryHandler sid maxRetries env op w).2.ledger = w.ledger := by
  cases op with
  | callback c => cases c <;> first | exact ⟨rfl, rfl⟩ | cases hop
  | _ => first | exact ⟨rfl, rfl⟩ | cases hop

theorem tallies_quiet (h : Tallies maxRetries sid phase w) {op : FanoutOp}
    (hop : op.isQuiet = true) :
    Tallies maxRetries sid phase (recoveryHandler sid maxRetries env op w).2 := by
  obtain ⟨hmanager, hledger⟩ := @recoveryHandler_quiet _ sid maxRetries env op hop w
  refine h.move _ hmanager (by rw [hledger]) (by rw [hledger]) phase.stage ?_
  have hstage := h.stage
  cases hphase : phase.stage <;> rw [hphase] at hstage <;> simp only [StageHolds] at hstage ⊢ <;>
    first | trivial | (rw [hledger]; exact hstage) | (rw [hledger, hmanager]; exact hstage)

theorem tallies_checkAndRecover (h : Tallies maxRetries sid phase w) (n : Nat)
    (hphase : phase.stage ≠ .recovered) :
    Tallies maxRetries sid
      { phase with found := (recoveryHandler sid maxRetries env (.checkAndRecover n) w).1 }
      (recoveryHandler sid maxRetries env (.checkAndRecover n) w).2 := by
  have hstage : StageHolds sid phase.stage
      (recoveryHandler sid maxRetries env (.checkAndRecover n) w).2 := by
    have hthis := h.stage
    cases hcase : phase.stage with
    | recovered => exact absurd hcase hphase
    | _ => rw [hcase] at hthis; exact hthis
  rcases w.manager.checkAndRecover_cases sid maxRetries (env (.checkAndRecover n) w.env).1 with
    ⟨hgoes, hmanager⟩ | ⟨hstale, hgoes, hmanager⟩
  · have hsame : (recoveryHandler sid maxRetries env (.checkAndRecover n) w).2.manager =
        w.manager := hmanager
    exact
      { budget := h.budget
        found := fun hfound => by cases hgoes.symm.trans hfound
        tried := fun htried => hsame ▸ h.tried htried
        stage := hstage }
  · have hcount : 0 < (recoveryHandler sid maxRetries env
        (.checkAndRecover n) w).2.manager.getAttemptCount sid := by
      show 0 < (w.manager.checkAndRecover sid maxRetries _).2.getAttemptCount sid
      rw [hmanager, WorkerRecoveryManager.getAttemptCount_recordAttempt]
      exact Nat.succ_pos _
    exact
      { budget := h.budget
        found := fun _ => ⟨hstale, hcount⟩
        tried := fun _ => hcount
        stage := hstage }

theorem tallies_resubmit (h : Tallies maxRetries sid phase w) (n : Nat)
    (hfound : phase.found = true) (hleft : 0 < phase.left) :
    Tallies maxRetries sid
      { phase with left := phase.left - 1, found := false, tried := true }
      (recoveryHandler sid maxRetries env (.resubmit n) w).2 where
  budget := by
    show w.ledger.resubmissions + 1 + (phase.left - 1) ≤ maxRetries
    have hbudget := h.budget
    omega
  found := fun hfalse => nomatch hfalse
  tried := fun _ => (h.found hfound).2
  stage := by
    have hthis := h.stage
    cases hcase : phase.stage <;> rw [hcase] at hthis <;> exact hthis

theorem tallies_resetRecovery (h : Tallies maxRetries sid phase w) :
    Tallies maxRetries sid { phase with found := false, tried := false, stage := .other }
      (recoveryHandler sid maxRetries env .resetRecovery w).2 where
  budget := h.budget
  found := fun hfalse => nomatch hfalse
  tried := fun hfalse => nomatch hfalse
  stage := trivial

/-- What a success callback's answer leaves in the ledger. -/
def RecoveryWorld.account (w : RecoveryWorld τ) (x : Except PyError Unit) (t : τ) :
    RecoveryWorld τ :=
  ⟨t, w.manager, { w.ledger with accounted := w.ledger.accounted || x.isOk }⟩

/-- What the answer of a mark leaves in the ledger. -/
def RecoveryWorld.mark (w : RecoveryWorld τ) (x : Except PyError Unit) (t : τ) :
    RecoveryWorld τ :=
  ⟨t, w.manager, { w.ledger with marked := w.ledger.marked || w.ledger.accounted && x.isOk }⟩

/-- The submitted handle's result is accounted, if the callback returns. -/
theorem tallies_onSuccess (h : Tallies maxRetries sid phase w) (x : Except PyError Unit) (t : τ) :
    Tallies maxRetries sid (if x.isOk then { phase with stage := .accounted } else phase)
      (w.account x t) := by
  cases x with
  | ok u => exact h.move (w.account (.ok u) t) rfl rfl rfl .accounted (Bool.or_true _)
  | error e =>
    refine h.move (w.account (.error e) t) rfl rfl rfl phase.stage ?_
    have haccounted : (w.account (.error e) t).ledger.accounted = w.ledger.accounted :=
      Bool.or_false _
    have hthis := h.stage
    cases hcase : phase.stage <;> rw [hcase] at hthis <;>
      simp only [StageHolds, haccounted] at hthis ⊢ <;> exact hthis

/-- A resubmitted handle's result is accounted with nothing marked. -/
theorem tallies_recovered (h : Tallies maxRetries sid phase w)
    (hdelivered : phase.stage = .delivered) (htried : phase.tried = true)
    (x : Except PyError Unit) (t : τ) :
    Tallies maxRetries sid (if x.isOk then { phase with stage := .recovered } else phase)
      (w.account x t) := by
  have hstage := h.stage
  rw [hdelivered] at hstage
  cases x with
  | ok u =>
    exact h.move (w.account (.ok u) t) rfl rfl rfl .recovered ⟨hstage.2, h.tried htried⟩
  | error e =>
    refine h.move (w.account (.error e) t) rfl rfl rfl phase.stage ?_
    rw [hdelivered]
    refine ⟨?_, hstage.2⟩
    show (w.ledger.accounted || false) = false
    rw [hstage.1]
    rfl

theorem tallies_markCompleted (h : Tallies maxRetries sid phase w)
    (hphase : phase.stage ≠ .recovered) (x : Except PyError Unit) (t : τ) :
    Tallies maxRetries sid
      (if phase.stage = .accounted ∧ x.isOk then { phase with stage := .marked } else phase)
      (w.mark x t) := by
  have hstage := h.stage
  by_cases hmarks : phase.stage = .accounted ∧ x.isOk = true
  · rw [hmarks.1] at hstage
    rw [if_pos hmarks]
    refine h.move (w.mark x t) rfl rfl rfl .marked ⟨hstage, ?_⟩
    show (w.ledger.marked || w.ledger.accounted && x.isOk) = true
    rw [show w.ledger.accounted = true from hstage, hmarks.2]
    exact Bool.or_true _
  · rw [if_neg hmarks]
    refine h.move (w.mark x t) rfl rfl rfl phase.stage ?_
    cases hcase : phase.stage with
    | other => trivial
    | accounted =>
      rw [hcase] at hstage
      exact hstage
    | delivered =>
      rw [hcase] at hstage
      refine ⟨hstage.1, ?_⟩
      show (w.ledger.marked || w.ledger.accounted && x.isOk) = false
      rw [hstage.1, hstage.2]
      rfl
    | marked =>
      rw [hcase] at hstage
      refine ⟨hstage.1, ?_⟩
      show (w.ledger.marked || w.ledger.accounted && x.isOk) = true
      rw [hstage.2]
      rfl
    | recovered => exact absurd hcase hphase

theorem next_recovered {op : FanoutOp} (hop : op.isQuiet = true)
    (hphase : phase.stage = .recovered) (x : Ans op) : recoveryNext phase op x = none := by
  cases op with
  | callback c => cases c <;> first | exact if_pos hphase | cases hop
  | _ => first | exact if_pos hphase | cases hop

/-- Every call that the protocol allows keeps the ledger with the phase. -/
theorem tallies_next (h : Tallies maxRetries sid phase w) (op : FanoutOp)
    (hnext : recoveryNext phase op (recoveryHandler sid maxRetries env op w).1 = some phase') :
    Tallies maxRetries sid phase' (recoveryHandler sid maxRetries env op w).2 := by
  by_cases hquiet : op.isQuiet = true
  · by_cases hphase : phase.stage = .recovered
    · rw [next_recovered hquiet hphase] at hnext
      exact nomatch hnext
    · rw [next_quiet hquiet hphase] at hnext
      obtain rfl := Option.some.inj hnext
      exact tallies_quiet h hquiet
  match op, hnext with
  | .checkAndRecover n, hnext =>
    obtain ⟨hphase, hsome⟩ := of_ite_none hnext
    obtain rfl := Option.some.inj hsome
    exact tallies_checkAndRecover h n hphase
  | .resubmit n, hnext =>
    obtain ⟨hphase, hsome⟩ := of_ite_none hnext
    obtain ⟨⟨hfound, hleft⟩, rfl⟩ := of_ite_some hsome
    exact tallies_resubmit h n hfound hleft
  | .resetRecovery, hnext =>
    obtain ⟨-, rfl⟩ := of_ite_some hnext
    exact tallies_resetRecovery h
  | .callback (.result handle), hnext =>
    obtain ⟨-, hsome⟩ := of_ite_none hnext
    obtain rfl := Option.some.inj hsome
    exact h.move (recoveryHandler sid maxRetries env (.callback (.result handle)) w).2 rfl rfl rfl
      .delivered ⟨rfl, rfl⟩
  | .callback (.onSuccess 0 call), hnext =>
    obtain ⟨-, hsome⟩ := of_ite_none hnext
    obtain rfl := Option.some.inj hsome
    exact tallies_onSuccess h _ _
  | .callback (.onSuccess (handle + 1) call), hnext =>
    obtain ⟨⟨hdelivered, htried⟩, rfl⟩ := of_ite_some hnext
    exact tallies_recovered h hdelivered htried _ _
  | .callback (.markCompleted site), hnext =>
    obtain ⟨hphase, hsome⟩ := of_ite_none hnext
    obtain rfl := Option.some.inj hsome
    exact tallies_markCompleted h hphase _ _

/-! ## Runs -/

/-- Only the reset takes the attempts back. -/
theorem attempts_kept {op : FanoutOp} (hop : op ≠ .resetRecovery)
    (h : 0 < w.manager.getAttemptCount sid) :
    0 < (recoveryHandler sid maxRetries env op w).2.manager.getAttemptCount sid := by
  match op, hop with
  | .checkAndRecover n, _ =>
    show 0 < (w.manager.checkAndRecover sid maxRetries _).2.getAttemptCount sid
    rcases w.manager.checkAndRecover_cases sid maxRetries (env (.checkAndRecover n) w.env).1 with
      ⟨_, hmanager⟩ | ⟨_, _, hmanager⟩
    · rw [hmanager]
      exact h
    · rw [hmanager, WorkerRecoveryManager.getAttemptCount_recordAttempt]
      exact Nat.succ_pos _
  | .resetRecovery, hop => exact absurd rfl hop
  | .callback c, _ => cases c <;> exact h
  | .resubmit _, _ | .traceIdFor, _ | .recordFailure _, _ | .clearFailure, _
  | .buildSampleTrace _, _ | .countFailure _, _ | .resetFailures _, _ => exact h

/-- What a resubmission finds. -/
theorem resubmittable_of_next (h : Tallies maxRetries sid phase w) {op : FanoutOp} {x : Ans op}
    (hnext : recoveryNext phase op x = some phase') : Resubmittable maxRetries op w := by
  rintro n rfl
  obtain ⟨-, hsome⟩ := of_ite_none hnext
  obtain ⟨⟨hfound, hleft⟩, -⟩ := of_ite_some hsome
  have hbudget := h.budget
  exact ⟨(h.found hfound).1, by omega⟩

/-- A reset outside the recovery finds the result recorded. -/
theorem resetWhenRecorded_of_next (h : Tallies maxRetries sid phase w)
    (hphase : phase.stage ≠ .recovered) {op : FanoutOp} {x : Ans op}
    (hnext : recoveryNext phase op x = some phase') :
    ResetWhenRecorded sid (recoveryHandler sid maxRetries env) op w := by
  intro hpos hzero
  by_cases hop : op = .resetRecovery
  · subst hop
    obtain ⟨hstage, -⟩ := of_ite_some hnext
    have hmarked := hstage.resolve_right hphase
    have hholds := h.stage
    rw [hmarked] at hholds
    exact hholds
  · have hkept := @attempts_kept _ sid maxRetries env w op hop hpos
    omega

theorem eq_ok_of_isOk {x : Except PyError Unit} (h : x.isOk = true) : x = .ok () := by
  cases x with
  | ok u => rfl
  | error e => exact nomatch h

/-- Without a recovery the phase is never `recovered`. -/
theorem not_recovered_of_next (hphase : phase.stage ≠ .recovered) (op : FanoutOp)
    (hnone : NoneRecovered (recoveryHandler sid maxRetries env) op w)
    (hnext : recoveryNext phase op (recoveryHandler sid maxRetries env op w).1 = some phase') :
    phase'.stage ≠ .recovered := by
  by_cases hquiet : op.isQuiet = true
  · rw [next_quiet hquiet hphase] at hnext
    rw [← Option.some.inj hnext]
    exact hphase
  match op, hnone, hnext with
  | .checkAndRecover n, _, hnext =>
    rw [← Option.some.inj (of_ite_none hnext).2]
    exact hphase
  | .resubmit n, _, hnext =>
    rw [← (of_ite_some (of_ite_none hnext).2).2]
    exact hphase
  | .resetRecovery, _, hnext =>
    rw [← (of_ite_some hnext).2]
    exact fun h => nomatch h
  | .callback (.result handle), _, hnext =>
    rw [← Option.some.inj (of_ite_none hnext).2]
    exact fun h => nomatch h
  | .callback (.onSuccess 0 call), _, hnext =>
    rw [← Option.some.inj (of_ite_none hnext).2]
    split
    · exact fun h => nomatch h
    · exact hphase
  | .callback (.onSuccess (handle + 1) call), hnone, hnext =>
    rw [← (of_ite_some hnext).2]
    split
    next hok => exact absurd (eq_ok_of_isOk hok) hnone
    · exact hphase
  | .callback (.markCompleted site), _, hnext =>
    rw [← Option.some.inj (of_ite_none hnext).2]
    split
    · exact fun h => nomatch h
    · exact hphase

/-- In the phase `recovered` there is one call. -/
theorem eq_reset_of_next (hphase : phase.stage = .recovered) {op : FanoutOp} {x : Ans op}
    (hnext : recoveryNext phase op x = some phase') : op = .resetRecovery := by
  by_cases hquiet : op.isQuiet = true
  · rw [next_recovered hquiet hphase] at hnext
    exact nomatch hnext
  match op, x, hnext with
  | .resetRecovery, _, _ => rfl
  | .checkAndRecover n, _, hnext => exact absurd hphase (of_ite_none hnext).1
  | .resubmit n, _, hnext => exact absurd hphase (of_ite_none hnext).1
  | .callback (.result handle), _, hnext => exact absurd hphase (of_ite_none hnext).1
  | .callback (.onSuccess 0 call), _, hnext => exact absurd hphase (of_ite_none hnext).1
  | .callback (.onSuccess (handle + 1) call), _, hnext =>
    exact nomatch hphase.symm.trans (of_ite_some hnext).1.1
  | .callback (.markCompleted site), _, hnext => exact absurd hphase (of_ite_none hnext).1

/-- Accounted for a resubmitted handle, the program goes on with a reset that finds nothing
marked. -/
theorem reset_unrecorded (h : Tallies maxRetries sid phase w) (hphase : phase.stage = .recovered)
    {α : Type} {p : AwaitProg α} (hp : Passes Safe phase p) :
    ¬ Prog.AlongRun (recoveryHandler sid maxRetries env)
      (ResetWhenRecorded sid (recoveryHandler sid maxRetries env)) p w := by
  intro hreset
  cases p with
  | ret r => exact hp hphase
  | call op k =>
    obtain ⟨phase', hnext, -⟩ := hp (recoveryHandler sid maxRetries env op w).1 trivial
    obtain rfl := eq_reset_of_next hphase hnext
    have hholds := h.stage
    rw [hphase] at hholds
    have hzero : (recoveryHandler sid maxRetries env .resetRecovery w).2.manager.getAttemptCount
        sid = 0 := w.manager.getAttemptCount_reset sid
    have hrecorded := hreset.1 hholds.2 hzero
    cases hholds.1.symm.trans hrecorded.2

/-- Where all resets are right, no resubmitted handle is accounted. -/
theorem noneRecovered_of_reset (h : Tallies maxRetries sid phase w)
    (hphase : phase.stage ≠ .recovered) {α : Type} {p : AwaitProg α} (hp : Passes Safe phase p)
    (hreset : Prog.AlongRun (recoveryHandler sid maxRetries env)
      (ResetWhenRecorded sid (recoveryHandler sid maxRetries env)) p w) :
    Prog.AlongRun (recoveryHandler sid maxRetries env)
      (NoneRecovered (recoveryHandler sid maxRetries env)) p w := by
  induction p generalizing phase w with
  | ret r => trivial
  | call op k ih =>
    obtain ⟨phase', hnext, hk⟩ := hp (recoveryHandler sid maxRetries env op w).1 trivial
    have h' := tallies_next h op hnext
    have hphase' : phase'.stage ≠ .recovered := fun hrecovered =>
      reset_unrecorded h' hrecovered hk hreset.2
    refine ⟨?_, ih _ h' hphase' hk hreset.2⟩
    -- an accounted result would have led to the phase `recovered`
    match op, hnext with
    | .callback (.onSuccess (handle + 1) call), hnext =>
      intro hok
      apply hphase'
      rw [← (of_ite_some hnext).2, hok]
      rfl
    | .callback (.onSuccess 0 _), _ | .callback (.result _), _ | .callback (.markCompleted _), _
    | .callback (.markFailed _ _), _ | .callback (.checkpointSample _), _
    | .callback (.updateSample _), _ | .callback (.recordSampleStatus _), _
    | .callback (.maybeAlert _), _ | .traceIdFor, _ | .recordFailure _, _ | .clearFailure, _
    | .resetRecovery, _ | .checkAndRecover _, _ | .resubmit _, _ | .buildSampleTrace _, _
    | .countFailure _, _ | .resetFailures _, _ => trivial

theorem tallies_start (cfg : FanoutConfig) (t : τ) (manager : WorkerRecoveryManager) :
    Tallies cfg.maxSampleRetries sid ⟨cfg.maxSampleRetries, false, false, .other⟩
      ⟨t, manager, .start⟩ where
  budget := Nat.le_of_eq (Nat.zero_add _)
  found := fun h => nomatch h
  tried := fun h => nomatch h
  stage := trivial

theorem awaitOne_start (cfg : FanoutConfig) :
    Passes Safe ⟨cfg.maxSampleRetries, false, false, .other⟩ cfg.checkpointing.awaitOne :=
  awaitOne_safe (fun h => nomatch h) rfl

/-- A sample is submitted again at most `max_sample_retries` times, and each time after a stale
heartbeat. -/
theorem resubmits_within_budget (cfg : FanoutConfig) (sid : String)
    (env : Prog.Handler FanoutOp Ans τ) (t : τ) (manager : WorkerRecoveryManager) :
    Prog.AlongRun (recoveryHandler sid cfg.maxSampleRetries env)
      (Resubmittable cfg.maxSampleRetries) cfg.checkpointing.awaitOne ⟨t, manager, .start⟩ := by
  refine Prog.Follows.alongRun _ (C := fun _ _ => True)
    (I := Tallies cfg.maxSampleRetries sid) (fun _ _ => trivial) ?_ (awaitOne_start cfg)
    (tallies_start cfg t manager) (Prog.alongRun_of (fun _ _ => trivial) _ _)
  intro phase phase' op w h hnext _
  exact ⟨resubmittable_of_next h hnext, tallies_next h op hnext⟩

/-- Resubmissions are bounded and deserved, and the attempts go back to zero for a recorded result
only, exactly if no resubmitted handle's result is accounted. -/
theorem reset_after_recorded_iff (cfg : FanoutConfig) (sid : String)
    (env : Prog.Handler FanoutOp Ans τ) (t : τ) (manager : WorkerRecoveryManager) :
    (Prog.AlongRun (recoveryHandler sid cfg.maxSampleRetries env)
        (Resubmittable cfg.maxSampleRetries) cfg.checkpointing.awaitOne ⟨t, manager, .start⟩ ∧
      Prog.AlongRun (recoveryHandler sid cfg.maxSampleRetries env)
        (ResetWhenRecorded sid (recoveryHandler sid cfg.maxSampleRetries env))
        cfg.checkpointing.awaitOne ⟨t, manager, .start⟩) ↔
      Prog.AlongRun (recoveryHandler sid cfg.maxSampleRetries env)
        (NoneRecovered (recoveryHandler sid cfg.maxSampleRetries env))
        cfg.checkpointing.awaitOne ⟨t, manager, .start⟩ := by
  constructor
  · intro ⟨_, hreset⟩
    exact noneRecovered_of_reset (tallies_start cfg t manager) (fun h => nomatch h)
      (awaitOne_start cfg) hreset
  · intro hnone
    refine ⟨resubmits_within_budget cfg sid env t manager, ?_⟩
    refine Prog.Follows.alongRun _
      (C := NoneRecovered (recoveryHandler sid cfg.maxSampleRetries env))
      (I := fun phase w => Tallies cfg.maxSampleRetries sid phase w ∧ phase.stage ≠ .recovered)
      (fun _ _ => trivial) ?_ (awaitOne_start cfg)
      ⟨tallies_start cfg t manager, fun h => nomatch h⟩ hnone
    intro phase phase' op w ⟨h, hphase⟩ hnext hcall
    exact ⟨resetWhenRecorded_of_next h hphase hnext, tallies_next h op hnext,
      not_recovered_of_next hphase op hcall hnext⟩

/-- The submitted handle fails, its heartbeat is stale, and all goes well from there. -/
def firstHandleFails : Prog.Handler FanoutOp Ans Unit
  | .callback (.result 0), s => (.error (.exception "worker died"), s)
  | .callback _, s => (.ok (), s)
  | .traceIdFor, s | .recordFailure _, s | .clearFailure, s | .resetRecovery, s
  | .resetFailures _, s => ((), s)
  | .checkAndRecover _, s => (true, s)
  | .resubmit _, s | .buildSampleTrace _, s => (.ok true, s)
  | .countFailure _, s => ((0 : Nat), s)

/-- The attempts of a recovered sample go back to zero before its job is marked. -/
theorem recovered_reset_early :
    ¬ (Prog.AlongRun (recoveryHandler "0001" 3 firstHandleFails) (Resubmittable 3)
        (FanoutConfig.checkpointing ⟨.runOpenstudioSim, 3, true, true⟩).awaitOne
        ⟨(), ⟨∅⟩, .start⟩ ∧
      Prog.AlongRun (recoveryHandler "0001" 3 firstHandleFails)
        (ResetWhenRecorded "0001" (recoveryHandler "0001" 3 firstHandleFails))
        (FanoutConfig.checkpointing ⟨.runOpenstudioSim, 3, true, true⟩).awaitOne
        ⟨(), ⟨∅⟩, .start⟩) := by
  intro ⟨_, hreset⟩
  -- the eighth call is the reset
  have hrecorded := hreset.2.2.2.2.2.2.2.1 (by decide) (by decide)
  exact nomatch hrecorded.2

end Runs

end OSimFlow.Fanout
