import OSimFlow.Lib.Retry
import Mathlib.Data.List.Infix

/-!
# Which failures of a step are retried

`classify_failure` decides from the class of an exception, the return code of a subprocess and
the text of the exception whether a step is run again, and `run_with_retry` runs it again. The
KPI extraction goes through `run_with_retry`. The simulation has a `max_retries` as well, and
calls its implementation once:

> `retriesTransient_iff`: the two steps retry what is transient, as often as they are told,
> exactly if there is nothing to retry for the simulation.

The sleeps between two attempts are left out. `str.lower` and `str.isdigit` are parameters.
-/

namespace OSimFlow.Work.TransientRetry

open OSimFlow.Lib

/-! ## The classifier -/

/-- An exception: which classes it is an instance of, its `returncode` and its `str`. -/
structure Failure where
  /-- `subprocess.TimeoutExpired` -/
  timeoutExpired : Bool := false
  /-- `subprocess.CalledProcessError` -/
  calledProcessError : Bool := false
  transientError : Bool := false
  connectionError : Bool := false
  timeoutError : Bool := false
  returncode : Option Int := none
  message : List Char := []

inductive RetryDecision where
  | transient
  | nonTransient
  | boundedZeroRetry
deriving DecidableEq, Repr

/-- `_TRANSIENT_EXIT_CODES`. -/
def transientExitCodes : List Int := [2, 4, 5, 6, 11, 12, 24, 25, 26, 27, 28]

/-- `_NON_TRANSIENT_SUBPROCESS_SIGNALS`: SIGTERM and SIGKILL. -/
def nonTransientSubprocessSignals : List Int := [15, 9]

/-- `_TRANSIENT_MESSAGE_MARKERS`. -/
def transientMessageMarkers : List String :=
  ["connection refused", "connection reset", "network is unreachable", "resource busy",
    "too many open files", "disk full", "i/o error", "io error", "temporary failure"]

/-- `_is_signal_killed_subprocess(exc)`. -/
def isSignalKilledSubprocess (exc : Failure) : Bool :=
  if exc.calledProcessError then
    match exc.returncode with
    | none => false
    | some rc =>
      if rc < 0 then decide (-rc ∈ nonTransientSubprocessSignals)
      else decide (rc ∈ nonTransientSubprocessSignals)
  else false

section

variable (lower : List Char → List Char)

/-- `classify_failure(exc)`. -/
def classifyFailure (exc : Failure) : RetryDecision :=
  if exc.timeoutExpired || isSignalKilledSubprocess exc then .nonTransient
  else if exc.transientError || exc.connectionError || exc.timeoutError then .transient
  else if exc.calledProcessError then
    match exc.returncode with
    | some rc => if rc ∈ transientExitCodes then .transient else .nonTransient
    | none => .nonTransient
  else if transientMessageMarkers.any fun marker =>
      decide (marker.toList <:+: lower exc.message) then .transient
  else .nonTransient

/-- `_is_transient_error(exc)`. -/
def isTransientError (exc : Failure) : Bool := decide (classifyFailure lower exc = .transient)

/-! ## The retry loop -/

variable {α : Type}

/-- The loop of `run_with_retry` at `attempt`, with `left` attempts after it: what it returns or
raises, and how often `func` was called. -/
def retryLoop (func : Nat → Except Failure α) : (left attempt : Nat) → Except Failure α × Nat
  | left, attempt =>
    match func attempt with
    | .ok result => (.ok result, attempt + 1)
    | .error exc =>
      if isTransientError lower exc then
        match left with
        | 0 => (.error exc, attempt + 1)
        | left + 1 => retryLoop func left (attempt + 1)
      else (.error exc, attempt + 1)

/-- `run_with_retry(func, max_retries=…)`, where `func k` is the outcome of the call number `k`. -/
def runWithRetry (func : Nat → Except Failure α) (maxRetries : Int) : Except Failure α × Nat :=
  if maxRetries ≤ 0 then (func 0, 1)
  else retryLoop lower func maxRetries.toNat 0

end

/-! ## The steps -/

/-- The version that `run_openstudio_sim` hands on: the given one if it starts with a digit, else
the one that is detected. -/
def resolvedVersion (isDigit : Char → Bool) (detected : Option (List Char)) :
    List Char → List Char
  | c :: rest =>
    if isDigit c then c :: rest else detected.getD ['u', 'n', 'k', 'n', 'o', 'w', 'n']
  | [] => detected.getD ['u', 'n', 'k', 'n', 'o', 'w', 'n']

/-- `run_openstudio_sim`. -/
def runOpenstudioSim {α : Type} (isDigit : Char → Bool) (detected : Option (List Char))
    (impl : List Char → Int → Nat → Except Failure α) (openstudioVersion : List Char)
    (maxRetries : Int) : Except Failure α × Nat :=
  (impl (resolvedVersion isDigit detected openstudioVersion) maxRetries 0, 1)

/-- `extract_kpis`. -/
def extractKpis {α : Type} (lower : List Char → List Char)
    (impl : List Char → Nat → Except Failure α) (openstudioVersion : List Char)
    (maxRetries : Int) : Except Failure α × Nat :=
  runWithRetry lower (impl openstudioVersion) maxRetries

/-! ## What is asked of a step that is retried -/

section

variable (lower : List Char → List Char) {α : Type}

/-- Call number `k` fails, and the failure is transient. -/
def Transient (func : Nat → Except Failure α) (k : Nat) : Prop :=
  ∃ exc, func k = .error exc ∧ classifyFailure lower exc = .transient

/-- The number of transient failures that come one after the other from call `k` on, counted up
to `n`. -/
def leadingTransient (func : Nat → Except Failure α) : (n k : Nat) → Nat
  | 0, _ => 0
  | n + 1, k =>
    match func k with
    | .ok _ => 0
    | .error exc =>
      if classifyFailure lower exc = .transient then 1 + leadingTransient func n (k + 1) else 0

/-- One call and one more for each transient failure it starts with, up to `max_retries`; the
outcome is that of the last. -/
structure RetriesTransient (func : Nat → Except Failure α) (maxRetries : Int)
    (run : Except Failure α × Nat) : Prop where
  executions : run.2 = 1 + leadingTransient lower func maxRetries.toNat 0
  outcome : run.1 = func (run.2 - 1)
  earlier : ∀ k, k + 1 < run.2 → Transient lower func k

end

/-- SIGTERM or SIGKILL ended the subprocess. -/
def DeliberateKill (exc : Failure) : Prop :=
  exc.calledProcessError = true ∧
    (exc.returncode = some (-15) ∨ exc.returncode = some (-9) ∨
      exc.returncode = some 15 ∨ exc.returncode = some 9)

/-! ## The classifier's hard cases -/

theorem isSignalKilled_of_deliberate {exc : Failure} (h : DeliberateKill exc) :
    isSignalKilledSubprocess exc = true := by
  obtain ⟨hclass, hcode⟩ := h
  unfold isSignalKilledSubprocess
  rw [hclass]
  rcases hcode with hcode | hcode | hcode | hcode <;>
    · rw [hcode]
      rfl

/-- A deliberate kill or a wall-clock timeout is not transient, whatever else the exception is. -/
theorem classify_of_hard (lower : List Char → List Char) {exc : Failure}
    (h : DeliberateKill exc ∨ exc.timeoutExpired = true) :
    classifyFailure lower exc = .nonTransient := by
  have hhard : (exc.timeoutExpired || isSignalKilledSubprocess exc) = true := by
    rcases h with hkill | htimeout
    · rw [isSignalKilled_of_deliberate hkill, Bool.or_true]
    · rw [htimeout, Bool.true_or]
  rw [classifyFailure, if_pos hhard]

/-! ## What the loop does -/

section

variable {lower : List Char → List Char} {α : Type} {func : Nat → Except Failure α}

theorem isTransientError_iff {exc : Failure} :
    isTransientError lower exc = true ↔ classifyFailure lower exc = .transient := by
  unfold isTransientError
  exact decide_eq_true_iff

/-- The loop is the bounded retry of `isTransientError`. -/
theorem retryLoop_eq (left attempt : Nat) :
    retryLoop lower func left attempt = Retry.loop (isTransientError lower) func left attempt := by
  induction left generalizing attempt with
  | zero =>
    rw [retryLoop, Retry.loop]
    cases h : func attempt with
    | ok result => rfl
    | error exc =>
      dsimp only
      split <;> rfl
  | succ left ih =>
    rw [retryLoop, Retry.loop]
    cases h : func attempt with
    | ok result => rfl
    | error exc =>
      dsimp only
      rw [ih]

theorem retryLoop_snd (left attempt : Nat) : (retryLoop lower func left attempt).2 =
    attempt + 1 + leadingTransient lower func left attempt := by
  induction left generalizing attempt with
  | zero =>
    rw [retryLoop_eq]
    rfl
  | succ left ih =>
    rw [retryLoop, leadingTransient]
    cases h : func attempt with
    | ok result => rfl
    | error exc =>
      dsimp only
      by_cases ht : classifyFailure lower exc = .transient
      · rw [if_pos (isTransientError_iff.mpr ht), if_pos ht, ih]
        omega
      · rw [if_neg (fun h => ht (isTransientError_iff.mp h)), if_neg ht]

theorem retriesTransient_runWithRetry (maxRetries : Int) :
    RetriesTransient lower func maxRetries (runWithRetry lower func maxRetries) := by
  unfold runWithRetry
  split
  next hle =>
    have hzero : maxRetries.toNat = 0 := Int.toNat_of_nonpos hle
    refine ⟨?_, rfl, fun k hk => ?_⟩
    · rw [hzero]
      rfl
    · exact absurd hk (by omega)
  next =>
    refine ⟨?_, ?_, fun k hk => ?_⟩
    · exact (retryLoop_snd _ _).trans (by omega)
    · rw [retryLoop_eq]
      exact Retry.loop_fst _ _
    · rw [retryLoop_eq] at hk
      obtain ⟨exc, hexc, ht⟩ := ((Retry.lt_loop_iff _ 0 (k + 1) (by omega)).mp hk).2 k
        (by omega) (by omega)
      exact ⟨exc, hexc, isTransientError_iff.mp ht⟩

/-- One call is enough exactly if there is nothing to retry. -/
theorem leadingTransient_eq_zero_iff (maxRetries : Int) :
    leadingTransient lower func maxRetries.toNat 0 = 0 ↔
      maxRetries ≤ 0 ∨ ¬ Transient lower func 0 := by
  cases hn : maxRetries.toNat with
  | zero => exact ⟨fun _ => .inl (by omega), fun _ => rfl⟩
  | succ n =>
    have hpos : ¬ maxRetries ≤ 0 := by omega
    rw [leadingTransient]
    cases h : func 0 with
    | ok result =>
      refine ⟨fun _ => .inr ?_, fun _ => rfl⟩
      intro ⟨exc, hexc, _⟩
      rw [h] at hexc
      exact nomatch hexc
    | error exc =>
      dsimp only
      by_cases ht : classifyFailure lower exc = .transient
      · rw [if_pos ht]
        refine ⟨fun hfalse => by omega, fun hcond => ?_⟩
        exact absurd ⟨exc, h, ht⟩ (hcond.resolve_left hpos)
      · rw [if_neg ht]
        refine ⟨fun _ => .inr ?_, fun _ => rfl⟩
        intro ⟨exc', hexc, ht'⟩
        rw [h] at hexc
        cases hexc
        exact ht ht'

/-- A step that calls its implementation once. -/
theorem retriesTransient_once_iff (maxRetries : Int) :
    RetriesTransient lower func maxRetries (func 0, 1) ↔
      maxRetries ≤ 0 ∨ ¬ Transient lower func 0 := by
  rw [← leadingTransient_eq_zero_iff]
  constructor
  · intro h
    have hcount : 1 = 1 + leadingTransient lower func maxRetries.toNat 0 := h.executions
    omega
  · intro h
    refine ⟨?_, rfl, fun k hk => ?_⟩
    · rw [h]
    · exact absurd hk (by omega)

end

/-- For every sequence of outcomes the simulation and the KPI extraction retry what is transient,
and never a deliberate kill or a timeout, if and only if retries are off or the first call of the
simulation does not fail transiently. -/
theorem retriesTransient_iff {α : Type} (lower : List Char → List Char) (isDigit : Char → Bool)
    (detected : Option (List Char)) (simImpl : List Char → Int → Nat → Except Failure α)
    (kpiImpl : List Char → Nat → Except Failure α) (openstudioVersion : List Char)
    (maxRetries : Int) :
    (RetriesTransient lower (simImpl (resolvedVersion isDigit detected openstudioVersion) maxRetries)
        maxRetries (runOpenstudioSim isDigit detected simImpl openstudioVersion maxRetries) ∧
      RetriesTransient lower (kpiImpl openstudioVersion) maxRetries
        (extractKpis lower kpiImpl openstudioVersion maxRetries) ∧
      ∀ exc, DeliberateKill exc ∨ exc.timeoutExpired = true →
        classifyFailure lower exc ≠ .transient) ↔
    maxRetries ≤ 0 ∨
      ¬ Transient lower
        (simImpl (resolvedVersion isDigit detected openstudioVersion) maxRetries) 0 := by
  have hhard : ∀ exc, DeliberateKill exc ∨ exc.timeoutExpired = true →
      classifyFailure lower exc ≠ .transient := by
    intro exc h
    rw [classify_of_hard lower h]
    exact nofun
  have hkpi : RetriesTransient lower (kpiImpl openstudioVersion) maxRetries
      (extractKpis lower kpiImpl openstudioVersion maxRetries) :=
    retriesTransient_runWithRetry maxRetries
  unfold runOpenstudioSim
  rw [retriesTransient_once_iff]
  exact ⟨fun h => h.1, fun h => ⟨h, hkpi, hhard⟩⟩

/-- A heartbeat that went stale once: the failure is surfaced with three retries left. -/
theorem stale_heartbeat_not_retried :
    ¬ RetriesTransient id
        (fun k => if k = 0 then .error ({ transientError := true } : Failure) else .ok ()) 3
      (runOpenstudioSim Char.isDigit none
        (fun _ _ k => if k = 0 then .error ({ transientError := true } : Failure) else .ok ())
        ['3', '.', '1', '1', '.', '0'] 3) := by
  intro h
  exact absurd h.executions (by decide)

end OSimFlow.Work.TransientRetry
