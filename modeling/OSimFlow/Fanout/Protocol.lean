import OSimFlow.Fanout.Script

/-!
# What `_await_one` calls when, and what it can raise

Two questions about `_await_one` are about its text, not about any run: what
can it raise, and what does it do right after a checkpoint. Both are call
protocols (`Prog.Protocol`) that only look at the calls inside
`checkpoint_sample`; every other call leaves them in one phase (`Plain`).
`awaitOne_follows` walks through the text once, for all such protocols: what
its checkpoints follow, `_await_one` follows. The checkpoint of the inner
handler is asked for more, since what it raises is caught.
-/

namespace OSimFlow.Fanout

open OSimFlow.Lib
open OSimFlow.Campaign (Step)
open OSimFlow.Queues (JobFiles)
open AwaitProg (invoke)

/-! ## Answers -/

/-- Neither an abort nor a user's interrupt. -/
def Ordinary (e : PyError) : Prop :=
  e.isAbort = false ∧ e.isInterrupt = false

/-- A call is answered with nothing worse. -/
def Answered : (op : FanoutOp) → Ans op → Prop
  | .callback _, x => ∀ e, x = .error e → Ordinary e
  | .resubmit _, x | .buildSampleTrace _, x => ∀ e, x = .error e → Ordinary e
  | _, _ => True

theorem ordinary_exception (m : String) : Ordinary (.exception m) := ⟨rfl, rfl⟩

theorem CallOutcome.toExcept_ordinary {o : CallOutcome} {e : PyError}
    (h : o.toExcept = .error e) : Ordinary e := by
  cases o with
  | ok => exact nomatch h
  | raises m =>
    cases h
    exact ordinary_exception m

theorem transition_ordinary {jobs : JobFiles Payload} {toState : Queues.JobState}
    {error : Option String} {now : Int} {o : Queues.MarkOutcome} {e : PyError}
    (h : (jobs.transitionFromAny toState error now o).2 = .error e) : Ordinary e := by
  unfold JobFiles.transitionFromAny at h
  split at h
  · exact nomatch h
  · cases o with
    | ok => exact nomatch h
    | raisesBefore m =>
      cases h
      exact ordinary_exception m
    | raisesAfter m =>
      cases h
      exact ordinary_exception m

theorem handleCallback_answered (script : Script) (step : Step) (c : Callback)
    (w : SampleWorld) : Answered (.callback c) (script.handleCallback step c w).1 := by
  intro e h
  cases c with
  | result handle =>
    simp only [Script.handleCallback] at h
    cases hr : script.result handle <;> rw [hr] at h
    · exact nomatch h
    · cases h
      exact ordinary_exception _
    · cases h
      exact ⟨rfl, rfl⟩
  | onSuccess handle call =>
    simp only [Script.handleCallback] at h
    cases hr : script.onSuccess handle call <;> rw [hr] at h
    · exact nomatch h
    · cases h
      exact ordinary_exception _
    · cases h
      exact ordinary_exception _
  | markCompleted site => exact transition_ordinary h
  | markFailed site error => exact transition_ordinary h
  | checkpointSample site => exact CallOutcome.toExcept_ordinary h
  | updateSample site => exact CallOutcome.toExcept_ordinary h
  | recordSampleStatus site => exact CallOutcome.toExcept_ordinary h
  | maybeAlert site => exact CallOutcome.toExcept_ordinary h

theorem handle_answered (script : Script) (step : Step) (op : FanoutOp)
    (w : SampleWorld) : Answered op (script.handle step op w).1 := by
  cases op with
  | callback c => exact handleCallback_answered script step c w
  | resubmit n =>
    intro e h
    cases hr : script.resubmit n <;> simp only [Script.handle, hr] at h
    · exact nomatch h
    · exact nomatch h
    · cases h
      exact ordinary_exception _
  | buildSampleTrace site =>
    intro e h
    cases hr : script.buildSampleTrace site <;> simp only [Script.handle, hr] at h
    · exact nomatch h
    · cases h
      exact ordinary_exception _
  | traceIdFor => trivial
  | recordFailure error => trivial
  | clearFailure => trivial
  | resetRecovery => trivial
  | checkAndRecover n => trivial
  | countFailure site => trivial
  | resetFailures site => trivial

/-! ## Protocols over the checkpoints -/

/-- Not one of the calls inside `checkpoint_sample`. -/
def FanoutOp.isPlain : FanoutOp → Bool
  | .callback (.updateSample _) | .countFailure _ | .resetFailures _ => false
  | _ => true

variable {Ph : Type}

/-- A protocol that plain calls leave in `idle`, where alone a program may
return, and may raise what is ordinary. -/
structure Plain (P : Prog.Protocol Ph FanoutOp Ans PyError) (idle : Ph) : Prop where
  next : ∀ op x, op.isPlain = true → P.next idle op x = some idle
  ok : P.ends idle none
  raises : ∀ e, Ordinary e → P.ends idle (some e)
  idle : ∀ phase, P.ends phase none → phase = idle

/-- The same calls, but ending in `idle` only, with exceptions in `E`. -/
def within (P : Prog.Protocol Ph FanoutOp Ans PyError) (idle : Ph)
    (E : PyError → Prop) : Prog.Protocol Ph FanoutOp Ans PyError where
  next := P.next
  ends phase o := phase = idle ∧ ∀ e, o = some e → E e

/-- Not a user's interrupt. -/
def Catchable (e : PyError) : Prop := e.isInterrupt = false

/-- Between `idle` and `idle`, in `P`. -/
abbrev Keeps (P : Prog.Protocol Ph FanoutOp Ans PyError) (idle : Ph) {α : Type}
    (p : AwaitProg α) : Prop :=
  Prog.Follows Answered P idle p

section Keeps

variable {P : Prog.Protocol Ph FanoutOp Ans PyError} {idle : Ph} {E : PyError → Prop}

theorem within_plain (hP : Plain P idle) (hE : ∀ e, Ordinary e → E e) :
    Plain (within P idle E) idle where
  next := hP.next
  ok := ⟨rfl, fun _ h => nomatch h⟩
  raises := by
    rintro e he
    refine ⟨rfl, ?_⟩
    rintro e' h
    cases h
    exact hE e he
  idle _ h := h.1

theorem catchable_plain (hP : Plain P idle) : Plain (within P idle Catchable) idle :=
  within_plain hP fun _ he => he.2

theorem pure_keeps (hP : Plain P idle) {α : Type} (a : α) :
    Keeps P idle (pure a : AwaitProg α) :=
  Prog.Follows.pure hP.ok a

/-- In sequence. -/
theorem Plain.seq (hP : Plain P idle) {α β : Type} {p : AwaitProg α}
    {f : α → AwaitProg β} (hp : Keeps P idle p) (hf : ∀ a, Keeps P idle (f a)) :
    Keeps P idle (p >>= f) := by
  refine Prog.Follows.bind hp rfl (fun _ _ h => h) fun phase a hend => ?_
  rw [hP.idle phase hend]
  exact hf a

/-- In a `try`, whose body has to end within the phase. -/
theorem Plain.catching (hP : Plain P idle) {α : Type} {p : AwaitProg α}
    {handler : PyError → AwaitProg α} (hp : Keeps (within P idle E) idle p)
    (hf : ∀ e, E e → Keeps P idle (handler e)) :
    Keeps P idle (tryCatch p handler) := by
  refine Prog.Follows.tryCatch hp rfl (fun phase hend => ?_) fun phase e hend => ?_
  · rw [hend.1]
    exact hP.ok
  · rw [hend.1]
    exact hf e (hend.2 e rfl)

/-- What is no `Exception` is a cancellation or an interrupt. -/
theorem ordinary_of_not_exception {e : PyError} (hx : e.isException = false)
    (hi : Catchable e) : Ordinary e := by
  cases e with
  | cancelledError m => exact ⟨rfl, rfl⟩
  | keyboardInterrupt m => exact nomatch hi
  | _ => exact nomatch hx

theorem exceptException_keeps (hP : Plain P idle) (hE : ∀ e, E e → Catchable e)
    {α : Type} {body : AwaitProg α} {handler : PyError → AwaitProg α}
    (hb : Keeps (within P idle E) idle body)
    (hh : ∀ e, E e → Keeps P idle (handler e)) :
    Keeps P idle (exceptException body handler) := by
  refine hP.catching hb fun e he => ?_
  cases hx : e.isException with
  | true => simpa only [if_true] using hh e he
  | false =>
    have hord := ordinary_of_not_exception hx (hE e he)
    simpa only [Bool.false_eq_true, if_false] using
      Prog.Follows.throw (hP.raises e hord)

theorem invoke_keeps (hP : Plain P idle) {c : Callback}
    (hc : (FanoutOp.callback c).isPlain = true) : Keeps P idle (invoke c) := by
  intro x hx
  refine ⟨idle, hP.next _ x hc, ?_⟩
  cases x with
  | ok u => exact hP.ok
  | error e => exact hP.raises e (hx e rfl)

theorem resubmit_keeps (hP : Plain P idle) (n : Nat) :
    Keeps P idle (AwaitProg.resubmit n) := by
  intro x hx
  refine ⟨idle, hP.next (.resubmit n) x rfl, ?_⟩
  cases x with
  | ok b => exact hP.ok
  | error e => exact hP.raises e (hx e rfl)

theorem ask_keeps (hP : Plain P idle) {op : FanoutOp} (hop : op.isPlain = true) :
    Keeps P idle (Prog.ask op : AwaitProg (Ans op)) :=
  Prog.Follows.ask fun x _ => ⟨idle, hP.next op x hop, hP.ok⟩

theorem runBookkeeping_keeps (hP : Plain P idle) (handle attempts call : Nat) :
    Keeps P idle (runBookkeepingWithRetry handle attempts call) := by
  induction attempts generalizing call with
  | zero => exact pure_keeps hP ()
  | succ attempts ih =>
    refine exceptException_keeps hP (fun e he => he.2)
      (invoke_keeps (within_plain hP fun _ he => he) rfl) fun e he => ?_
    by_cases h0 : attempts = 0
    · simpa only [h0, if_true] using Prog.Follows.throw (hP.raises e he)
    · simpa only [h0, if_false] using ih (call + 1)

/-! ### The text of `_await_one` -/

variable {deps : FanoutDeps}

theorem markSampleFailed_keeps (hP : Plain P idle) {site : Site}
    (hc : Keeps P idle (deps.checkpointSample site)) (error : PyError) :
    Keeps P idle (deps.markSampleFailed site error) :=
  hP.seq (invoke_keeps hP rfl) fun _ => hP.seq (ask_keeps hP rfl) fun _ =>
    hP.seq hc fun _ => hP.seq (invoke_keeps hP rfl) fun _ => invoke_keeps hP rfl

/-- `if recovery_manager is not None: recovery_manager.reset(sid)`, and then
the rest. -/
theorem resetRecovery_keeps (hP : Plain P idle) (b : Bool) {α : Type} {p : AwaitProg α}
    (hp : Keeps P idle p) :
    Keeps P idle (if b then AwaitProg.resetRecovery >>= fun _ => p else p) := by
  cases b with
  | true => exact hP.seq (ask_keeps hP rfl) fun _ => hp
  | false => exact hp

theorem finishRecovered_keeps (hP : Plain P idle)
    (hc : Keeps P idle (deps.checkpointSample .recovered)) (handle : Nat) :
    Keeps P idle (deps.finishRecovered handle) :=
  hP.seq (invoke_keeps hP rfl) fun _ => resetRecovery_keeps hP _ <|
    hP.seq (invoke_keeps hP rfl) fun _ => hc

theorem bookkeep_keeps (hP : Plain P idle) : Keeps P idle deps.bookkeep := by
  refine hP.seq (runBookkeeping_keeps hP _ _ _) fun _ =>
    hP.seq (invoke_keeps hP rfl) fun _ => ?_
  cases deps.recoveryManager with
  | true => exact ask_keeps hP rfl
  | false => exact pure_keeps hP ()

theorem recoveryLoop_keeps (hP : Plain P idle)
    (hc : Keeps P idle (deps.checkpointSample .recovered)) (rounds n : Nat) :
    Keeps P idle (deps.recoveryLoop rounds n) := by
  induction rounds generalizing n with
  | zero => exact pure_keeps hP false
  | succ rounds ih =>
    refine hP.seq (ask_keeps hP rfl) fun go => ?_
    cases go with
    | false => exact pure_keeps hP false
    | true =>
      refine hP.seq (ask_keeps hP rfl) fun _ => hP.seq (resubmit_keeps hP n) fun handle => ?_
      cases handle with
      | false => exact pure_keeps hP false
      | true =>
        have hq := catchable_plain hP
        refine hP.seq (exceptException_keeps hP (fun _ he => he)
          (hq.seq (invoke_keeps hq rfl) fun _ => pure_keeps hq true)
          fun _ _ => pure_keeps hP false) fun delivered => ?_
        cases delivered with
        | false => exact ih (n + 1)
        | true =>
          exact hP.seq (finishRecovered_keeps hP hc _) fun _ => pure_keeps hP true

theorem handleError_keeps (hP : Plain P idle)
    (hc : ∀ site, Keeps P idle (deps.checkpointSample site)) {error : PyError}
    (he : Catchable error) : Keeps P idle (deps.handleError error) := by
  have hrecover : Keeps P idle deps.recover := by
    unfold FanoutDeps.recover
    cases deps.recoveryManager && deps.resubmitCallback with
    | true => exact recoveryLoop_keeps hP (hc _) _ 0
    | false => exact pure_keeps hP false
  unfold FanoutDeps.handleError
  cases error.isException with
  | true =>
    refine hP.seq hrecover fun recovered => ?_
    cases recovered with
    | true => exact pure_keeps hP ()
    | false => exact markSampleFailed_keeps hP (hc _) _
  | false =>
    have hi : error.isInterrupt = false := he
    simp only [Bool.false_eq_true, if_false, FanoutDeps.handleBaseException, hi]
    exact markSampleFailed_keeps hP (hc _) _

/-- **The text of `_await_one`.** It keeps to every protocol its checkpoints
keep to, if the inner handler's, which is inside the outer `try`, never ends
outside the phase. -/
theorem awaitOne_keeps (hP : Plain P idle)
    (hc : ∀ site, Keeps P idle (deps.checkpointSample site))
    (hbook : Keeps (within P idle Catchable) idle (deps.checkpointSample .bookkeeping)) :
    Keeps P idle deps.awaitOne := by
  have hq := catchable_plain hP
  have hqq := catchable_plain hq
  refine hP.seq (ask_keeps hP rfl) fun _ => hP.seq (hP.catching ?_ fun e he =>
    hP.seq (handleError_keeps hP hc he) fun _ => pure_keeps hP false) fun fallsThrough => ?_
  · refine hq.seq (invoke_keeps hq rfl) fun _ => exceptException_keeps hq (fun _ he => he)
      (hqq.seq (bookkeep_keeps hqq) fun _ => pure_keeps hqq true) fun _ _ => ?_
    exact hq.seq (markSampleFailed_keeps hq hbook _) fun _ => pure_keeps hq false
  · cases fallsThrough with
    | true => exact hc .success
    | false => exact pure_keeps hP ()

end Keeps

end OSimFlow.Fanout
