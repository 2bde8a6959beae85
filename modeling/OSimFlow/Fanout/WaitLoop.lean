import OSimFlow.Fanout.AwaitOne
import OSimFlow.Lib.Pool
import OSimFlow.Lib.Run
import OSimFlow.Observability.RunTrace

/-!
# `submit_and_await_all`: one loop, or a pool and a polling main thread

With `max_workers <= 1` the samples are awaited in order in one loop, which
an exception out of `_await_one` ends. With more, each sample is a task of a
thread pool and the campaign thread polls: wait for finished futures or half
a second, look at the cancel flag, then at the pause flag, and only then
drain what has finished (`_drain_fanout_future`). A cancel leaves after a
bounded drain of the pool; a pause leaves and joins it; an abort found while
draining is raised, every other exception is recorded in the trace. The
workers go on between any two of these.

Both modes are generic in what the samples' calls act on, so that one text
serves the accounting results (`Modes.lean`) and the abort results
(`Abort.lean`).
-/

namespace OSimFlow.Fanout

open OSimFlow.Lib
open OSimFlow.Campaign (Step)
open OSimFlow.Observability (AccountingError)

variable {σ : Type}

/-- What the polls at one turn of a loop answer. -/
structure Polled where
  cancel : Bool
  pause : Bool
deriving DecidableEq

/-- How a call of `submit_and_await_all` ended, with the paused traces it
wrote and the accounting errors it recorded. -/
structure Ended (σ : Type) where
  outcome : Except PyError Unit
  pausedWrites : Nat
  accountingErrors : List AccountingError
  shared : σ

/-- `raise KeyboardInterrupt("cancellation requested during fan-out")`. -/
def cancelRaised : PyError :=
  .keyboardInterrupt "cancellation requested during fan-out"

/-- `raise CampaignPauseRequested("pause requested during fan-out")`. -/
def pauseRaised : PyError :=
  .campaignPauseRequested "pause requested during fan-out"

/-- The `max_workers <= 1` loop from the `n`-th sample on. `polled n` is what
the two checks before that sample answer, `cancelled` what
`cancel_requested()` answers after the loop. -/
def sequentialLoop (h : String → Prog.Handler FanoutOp Ans σ) (prog : AwaitProg Unit)
    (polled : Nat → Polled) (cancelled : Bool) : List String → Nat → σ → Ended σ
  | [], _, s => ⟨if cancelled then .error cancelRaised else .ok (), 0, [], s⟩
  | sid :: rest, n, s =>
    if (polled n).cancel then ⟨.error cancelRaised, 0, [], s⟩
    else if (polled n).pause then ⟨.error pauseRaised, 1, [], s⟩
    else
      match Prog.run (h sid) prog s with
      | (.error e, s') => ⟨.error e, 0, [], s'⟩
      | (.ok (), s') => sequentialLoop h prog polled cancelled rest (n + 1) s'

/-- Where the campaign thread is in the concurrent mode. -/
inductive Main where
  /-- In `concurrent.futures.wait`, with these futures pending. -/
  | waiting (pending : List String)
  /-- Back from `wait` with the finished `batch`, about to look at the flags. -/
  | checking (batch pending : List String)
  /-- In `for future in done_futures: drain_future(future)`. -/
  | draining (batch pending : List String)
  /-- In `pool.shutdown(wait=True)`, about to return or raise. -/
  | joining (outcome : Except PyError Unit)
  /-- In `_shutdown_fanout_pool_bounded`, about to return. -/
  | leaving
  /-- Back in the caller. -/
  | done (outcome : Except PyError Unit)

/-- A concurrent call in progress. -/
structure FanoutRun (σ : Type) where
  pool : Pool String FanoutOp Ans PyError Unit σ
  main : Main
  pausedWrites : Nat
  accountingErrors : List AccountingError

/-- What happens next. -/
inductive Event where
  /-- The pool starts the next queued sample. -/
  | start
  /-- The sample's worker makes its next call, or delivers its result. -/
  | advance (sid : String)
  /-- `wait` returns these finished futures, in the order the set gives them. -/
  | wait (batch : List String)
  /-- The campaign thread looks at the flags. -/
  | check (polled : Polled)
  /-- It drains the next future of the batch, or ends the turn. -/
  | drain
  /-- The pool has been joined, or abandoned after a cancel. -/
  | join
deriving DecidableEq

namespace FanoutRun

/-- All submitted, the campaign thread about to wait — or back at once, where
there is nothing to wait for. -/
def begin (sids : List String) (prog : AwaitProg Unit) (s : σ) : FanoutRun σ where
  pool := Pool.submit sids (fun _ => prog) s
  main := if sids = [] then .done (.ok ()) else .waiting sids
  pausedWrites := 0
  accountingErrors := []

/-- `record_accounting_error`. -/
def recordAccountingError (r : FanoutRun σ) (step : Step) (sid : String)
    (e : PyError) : FanoutRun σ :=
  { r with accountingErrors := r.accountingErrors ++ [⟨step, sid, e.summary⟩] }

/-- `_drain_fanout_future`: the state it leaves, and what it raises, if
anything. -/
def drainFuture (step : Step) (r : FanoutRun σ) (sid : String) :
    FanoutRun σ × Option PyError :=
  match r.pool.threads sid with
  | .finished (.error e) =>
    if e.isAbort then ({ r with pool := r.pool.cancelQueued }, some e)
    else if e.isInterrupt then (r, some e)
    else (r.recordAccountingError step sid e, none)
  | .cancelled => (r.recordAccountingError step sid (.cancelledError ""), none)
  | _ => (r, none)

/-- `wait` returns: any of the finished futures, the rest stays pending. -/
def wait (r : FanoutRun σ) (batch : List String) : FanoutRun σ :=
  match r.main with
  | .waiting pending =>
    if batch.Nodup ∧ ∀ sid ∈ batch, sid ∈ pending ∧ (r.pool.threads sid).isDone then
      { r with main := .checking batch (pending.filter fun sid => sid ∉ batch) }
    else r
  | _ => r

/-- The two checks, before anything of the batch is drained. -/
def check (r : FanoutRun σ) (polled : Polled) : FanoutRun σ :=
  match r.main with
  | .checking batch pending =>
    if polled.cancel then { r with pool := r.pool.cancelQueued, main := .leaving }
    else if polled.pause then
      { r with pausedWrites := r.pausedWrites + 1, main := .joining (.ok ()) }
    else { r with main := .draining batch pending }
  | _ => r

/-- The rest of the turn, one future at a time. -/
def drain (step : Step) (r : FanoutRun σ) : FanoutRun σ :=
  match r.main with
  | .draining [] [] => { r with main := .joining (.ok ()) }
  | .draining [] pending => { r with main := .waiting pending }
  | .draining (sid :: rest) pending =>
    match r.drainFuture step sid with
    | (r', some e) => { r' with main := .joining (.error e) }
    | (r', none) => { r' with main := .draining rest pending }
  | _ => r

/-- The campaign thread leaves `shutdown`. -/
def join (r : FanoutRun σ) : FanoutRun σ :=
  match r.main with
  | .joining outcome => if r.pool.allDone then { r with main := .done outcome } else r
  | .leaving => { r with main := .done (.ok ()) }
  | _ => r

/-- One event. -/
def step (st : Step) (h : String → Prog.Handler FanoutOp Ans σ) (maxWorkers : Nat)
    (r : FanoutRun σ) : Event → FanoutRun σ
  | .start => { r with pool := r.pool.start maxWorkers }
  | .advance sid => { r with pool := r.pool.advance h sid }
  | .wait batch => r.wait batch
  | .check polled => r.check polled
  | .drain => r.drain st
  | .join => r.join

end FanoutRun

/-! ## What draining can do -/

section Drain

variable {step : Step} {r : FanoutRun σ}

/-- The exception a drained future carries, where the campaign thread records
it rather than raise it. -/
def FanoutRun.carried (r : FanoutRun σ) (sid : String) : Option PyError :=
  match r.pool.threads sid with
  | .finished (.error e) => some e
  | .cancelled => some (.cancelledError "")
  | _ => none

/-- Draining raises exactly what a finished future carries of aborts, which
also cancel what is queued, and interrupts. -/
theorem drainFuture_cases (sid : String) :
    (r.drainFuture step sid =
        ({ r with accountingErrors := r.accountingErrors ++
            ((r.carried sid).map fun e => ⟨step, sid, e.summary⟩).toList }, none)) ∨
      ∃ e, r.pool.threads sid = .finished (.error e) ∧
        ((e.isAbort = true ∧
            r.drainFuture step sid = ({ r with pool := r.pool.cancelQueued }, some e)) ∨
          (e.isAbort = false ∧ e.isInterrupt = true ∧
            r.drainFuture step sid = (r, some e))) := by
  unfold FanoutRun.drainFuture FanoutRun.carried
  cases ht : r.pool.threads sid with
  | queued p => exact Or.inl (by simp)
  | running p => exact Or.inl (by simp)
  | cancelled => exact Or.inl rfl
  | finished res =>
    cases res with
    | ok a => exact Or.inl (by simp)
    | error e =>
      cases ha : e.isAbort with
      | true => exact Or.inr ⟨e, rfl, Or.inl ⟨ha, by simp [ha]⟩⟩
      | false =>
        cases hi : e.isInterrupt with
        | true => exact Or.inr ⟨e, rfl, Or.inr ⟨ha, hi, by simp [ha, hi]⟩⟩
        | false => exact Or.inl (by simp [ha, hi]; rfl)

end Drain

end OSimFlow.Fanout
