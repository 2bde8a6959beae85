import OSimFlow.Fanout.AwaitOne

/-!
# Bookkeeping that is done once

A success callback is a list of actions, each under a name and each wrapped in
`BookkeepingOnce.run`. When one of them raises, `_run_bookkeeping_with_retry`
calls the whole callback again, from its start; what is done already is known
by its name and skipped.

> `bookkeeping_once`: no action completes twice, none before the ones in front
> of it, and after a normal return all are complete.

The invariant is `InOrder`. It is kept by every call of `run` that stands where
all names in front of it are done (`run_inOrder`), and a call of the callback
only gets that far.
-/

namespace OSimFlow.Fanout

open OSimFlow.Lib

/-- The names that are done, and the actions that have completed, in order. -/
structure BookkeepingOnce where
  done : List String
  completed : List String

namespace BookkeepingOnce

/-- `BookkeepingOnce()`. -/
def new : BookkeepingOnce := ⟨[], []⟩

/-- `run`, of an action that raises `raised` or completes. -/
def run (name : String) (raised : Option PyError) (once : BookkeepingOnce) :
    Except PyError Unit × BookkeepingOnce :=
  if name ∈ once.done then (.ok (), once)
  else
    match raised with
    | some e => (.error e, once)
    | none => (.ok (), ⟨once.done ++ [name], once.completed ++ [name]⟩)

/-- A success callback: `run` for one name after another. `raised n` is what its `n`-th action
would raise. -/
def callback (raised : Nat → Option PyError) :
    List String → Nat → BookkeepingOnce → Except PyError Unit × BookkeepingOnce
  | [], _, once => (.ok (), once)
  | name :: names, n, once =>
    match once.run name (raised n) with
    | (.error e, once) => (.error e, once)
    | (.ok (), once) => callback raised names (n + 1) once

/-- The callback is all that the retry calls; `raised call` is what its actions would raise in
that call. -/
def handler (names : List String) (raised : Nat → Nat → Option PyError) :
    Prog.Handler FanoutOp Ans BookkeepingOnce
  | .callback (.onSuccess _ call), once => callback (raised call) names 0 once
  | .callback _, once => (.ok (), once)
  | .traceIdFor, once | .recordFailure _, once | .clearFailure, once | .resetRecovery, once
  | .resetFailures _, once => ((), once)
  | .checkAndRecover _, once => (false, once)
  | .resubmit _, once | .buildSampleTrace _, once => (.ok false, once)
  | .countFailure _, once => ((0 : Nat), once)

/-- What has completed is what is done, each name once, and each after those in front of it. -/
structure InOrder (names : List String) (once : BookkeepingOnce) : Prop where
  known : ∀ name, name ∈ once.done ↔ name ∈ once.completed
  nodup : once.completed.Nodup
  after : ∀ before name later, once.completed = before ++ name :: later →
    ∀ other ∈ names.takeWhile (· ≠ name), other ∈ before

theorem inOrder_new (names : List String) : InOrder names new where
  known := fun _ => Iff.rfl
  nodup := List.nodup_nil
  after := fun _ _ _ h => absurd h.symm (List.append_ne_nil_of_right_ne_nil _
    (List.cons_ne_nil _ _))

variable {names front rest : List String} {once once' : BookkeepingOnce}

/-- A name that stands behind others of which none is the same. -/
theorem takeWhile_front {name : String} (h : name ∉ front) :
    (front ++ name :: rest).takeWhile (· ≠ name) = front := by
  rw [List.takeWhile_append_of_pos]
  · rw [List.takeWhile_cons_of_neg (by simp), List.append_nil]
  · intro other hother
    have hne : other ≠ name := fun heq => h (heq ▸ hother)
    exact decide_eq_true hne

/-- An action that completes is the next one. -/
theorem InOrder.complete (h : InOrder names once) {name : String}
    (hnames : names = front ++ name :: rest) (hfront : ∀ other ∈ front, other ∈ once.done)
    (hnew : name ∉ once.done) :
    InOrder names ⟨once.done ++ [name], once.completed ++ [name]⟩ where
  known := by
    intro other
    rw [List.mem_append, List.mem_append, h.known other]
  nodup := by
    have hnot : name ∉ once.completed := fun hmem => hnew ((h.known name).mpr hmem)
    refine List.nodup_append.mpr ⟨h.nodup, List.nodup_singleton name, ?_⟩
    intro other hother name' hname' heq
    rw [List.mem_singleton.mp hname'] at heq
    exact hnot (heq ▸ hother)
  after := by
    intro before last later heq other hother
    rcases List.eq_nil_or_concat later with rfl | ⟨later', final, rfl⟩
    · -- the split is at the new name
      obtain ⟨rfl, hlast⟩ := List.append_inj' heq rfl
      obtain rfl := List.head_eq_of_cons_eq hlast
      have hnotFront : name ∉ front := fun hmem => hnew (hfront name hmem)
      rw [hnames, takeWhile_front hnotFront] at hother
      exact (h.known other).mp (hfront other hother)
    · -- the split is at an earlier one
      have hsplit : once.completed ++ [name] = (before ++ last :: later') ++ [final] := by
        refine Eq.trans heq ?_
        simp
      exact h.after before last later' (List.append_inj' hsplit rfl).1 other hother

/-- A call of `run` where all names in front are done: the order is kept, and where it returns,
the name is done too. -/
theorem run_inOrder (h : InOrder names once) {name : String} (raised : Option PyError)
    (hnames : names = front ++ name :: rest) (hfront : ∀ other ∈ front, other ∈ once.done) :
    InOrder names (once.run name raised).2 ∧
      ((once.run name raised).1 = .ok () →
        ∀ other ∈ front ++ [name], other ∈ (once.run name raised).2.done) := by
  unfold run
  by_cases hdone : name ∈ once.done
  · rw [if_pos hdone]
    refine ⟨h, fun _ other hother => ?_⟩
    rcases List.mem_append.mp hother with hother | hother
    · exact hfront other hother
    · rw [List.mem_singleton.mp hother]
      exact hdone
  · rw [if_neg hdone]
    cases raised with
    | some e => exact ⟨h, fun hok => nomatch hok⟩
    | none =>
      refine ⟨h.complete hnames hfront hdone, fun _ other hother => ?_⟩
      show other ∈ once.done ++ [name]
      rcases List.mem_append.mp hother with hother | hother
      · exact List.mem_append_left _ (hfront other hother)
      · exact List.mem_append_right _ hother

/-- A call of the callback, from any name on. -/
theorem callback_inOrder (raised : Nat → Option PyError) (n : Nat) (h : InOrder names once)
    (hnames : names = front ++ rest) (hfront : ∀ other ∈ front, other ∈ once.done) :
    InOrder names (callback raised rest n once).2 ∧
      ((callback raised rest n once).1 = .ok () →
        ∀ name ∈ names, name ∈ (callback raised rest n once).2.done) := by
  induction rest generalizing front n once with
  | nil =>
    rw [List.append_nil] at hnames
    subst hnames
    exact ⟨h, fun _ => hfront⟩
  | cons name rest ih =>
    obtain ⟨hkept, hdone⟩ := run_inOrder h (raised n) hnames hfront
    unfold callback
    generalize once.run name (raised n) = result at hkept hdone
    obtain ⟨r, once'⟩ := result
    cases r with
    | error e => exact ⟨hkept, fun hok => nomatch hok⟩
    | ok u =>
      have hnames' : names = (front ++ [name]) ++ rest := by
        rw [hnames, List.append_assoc, List.singleton_append]
      exact ih (n + 1) hkept hnames' (hdone rfl)

theorem run_onSuccess (raised : Nat → Nat → Option PyError) (handle call : Nat) :
    Prog.run (handler names raised) (AwaitProg.invoke (.onSuccess handle call)) once =
      callback (raised call) names 0 once := rfl

/-- All attempts together: the callback starts over, with what is done. -/
theorem retry_inOrder (raised : Nat → Nat → Option PyError) (handle : Nat)
    {attempts : Nat} (hpos : 0 < attempts) (call : Nat) (h : InOrder names once) :
    InOrder names (Prog.run (handler names raised)
        (runBookkeepingWithRetry handle attempts call) once).2 ∧
      ((Prog.run (handler names raised)
          (runBookkeepingWithRetry handle attempts call) once).1 = .ok () →
        ∀ name ∈ names, name ∈ (Prog.run (handler names raised)
          (runBookkeepingWithRetry handle attempts call) once).2.done) := by
  induction attempts generalizing call once with
  | zero => exact absurd hpos (Nat.lt_irrefl 0)
  | succ attempts ih =>
    have hcall := callback_inOrder (raised call) 0 h (List.nil_append names).symm
      (fun _ hother => nomatch hother)
    unfold runBookkeepingWithRetry exceptException
    rw [Prog.run_tryCatch, run_onSuccess]
    generalize callback (raised call) names 0 once = result at hcall
    obtain ⟨r, once'⟩ := result
    cases r with
    | ok u => exact hcall
    | error e =>
      by_cases hlast : e.isException = true ∧ attempts ≠ 0
      · simp only [if_pos hlast.1, if_neg hlast.2]
        exact ih (Nat.pos_of_ne_zero hlast.2) (call + 1) hcall.1
      · -- the error is raised, being the last or no `Exception`
        have hthrow : (if e.isException = true then
            (if attempts = 0 then throw e
              else runBookkeepingWithRetry handle attempts (call + 1) : AwaitProg Unit)
            else throw e) = throw e := by
          by_cases hcaught : e.isException = true
          · have hzero : attempts = 0 := by
              by_contra hne
              exact hlast ⟨hcaught, hne⟩
            rw [if_pos hcaught, if_pos hzero]
          · rw [if_neg hcaught]
        simp only [hthrow, Prog.run_throw]
        refine ⟨hcall.1, fun hok => ?_⟩
        cases hok

/-- Of the actions of a callback none completes twice and none before those in front of it; and
if the retry returns, each has completed. -/
theorem bookkeeping_once (names : List String) (raised : Nat → Nat → Option PyError)
    (handle : Nat) :
    let (r, once) := Prog.run (handler names raised)
      (runBookkeepingWithRetry handle bookkeepingMaxAttempts 0) new
    once.completed.Nodup ∧
      (∀ before name later, once.completed = before ++ name :: later →
        ∀ other ∈ names.takeWhile (· ≠ name), other ∈ before) ∧
      (r = .ok () → ∀ name ∈ names, once.completed.count name = 1) := by
  have hretry := retry_inOrder raised handle (show 0 < bookkeepingMaxAttempts by decide) 0
    (inOrder_new names)
  generalize Prog.run (handler names raised)
    (runBookkeepingWithRetry handle bookkeepingMaxAttempts 0) new = result at hretry
  obtain ⟨r, once⟩ := result
  obtain ⟨horder, hdone⟩ := hretry
  refine ⟨horder.nodup, horder.after, fun hok name hname => ?_⟩
  exact List.count_eq_one_of_mem horder.nodup ((horder.known name).mp (hdone hok name hname))

end BookkeepingOnce

end OSimFlow.Fanout
