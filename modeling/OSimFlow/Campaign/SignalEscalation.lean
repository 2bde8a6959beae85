import Mathlib.Logic.Function.Basic
import OSimFlow.Lib.Run

/-!
# Signals during campaigns

While a campaign runs, SIGINT and SIGTERM go to `handle_signal`. The first of a
kind asks the registered campaign to cancel itself, a second one restores the
default handler and raises the signal again, which ends the process. When the
campaign leaves `run()` the handlers that it found are put back.

The counters of the handler and the registry belong to the process, not to a
campaign, and nothing sets the counters back. So a campaign is only treated as
it should be as long as nothing is left over.

* A counter that an earlier campaign has left at 1 makes the first signal of a
  later one end the process.
* The registry is emptied by an inner campaign, and taken over by one that is
  tried off the main thread, where handlers cannot be set.
* What raises between the installation of the handlers and the `try` leaves
  them in place, and a handler that was not set from Python is not put back.

> `escalatesPerCampaign_iff`: these are all.
-/

namespace OSimFlow.Campaign.SignalEscalation

open OSimFlow.Lib

inductive Sig where
  | sigint
  | sigterm
deriving DecidableEq

/-- What a signal is delivered to; `foreign` was not set from Python. -/
inductive Handler where
  | handleSignal
  | sigDfl
  | python (id : Nat)
  | foreign
deriving DecidableEq

/-- What `signal.signal` returns for the handler it replaces; `None` is none. -/
def Handler.returned : Handler → Option Handler
  | .foreign => none
  | h => some h

/-- A campaign that is in `run()`, from when its handlers are in place. -/
structure Running where
  campaign : Nat
  /-- The handlers that it found. -/
  found : Sig → Handler
  /-- It has come to the `try`. -/
  entered : Bool
  /-- The signals delivered since it began. -/
  delivered : Sig → Nat

structure Process where
  alive : Bool
  /-- `_sigint_count` and `_sigterm_count`. -/
  count : Sig → Nat
  handler : Sig → Handler
  /-- What `cancel_registry` holds. -/
  registered : Option Nat
  /-- The innermost campaign first. -/
  running : List Running

inductive Event where
  /-- `run()` up to the handlers. -/
  | start (campaign : Nat)
  /-- The same off the main thread, where `signal.signal` raises. -/
  | startOffMain (campaign : Nat)
  /-- The `try` of `run()`. -/
  | enter
  /-- Out of `run()`, by return or exception. -/
  | leave
  | deliver (sig : Sig)
deriving DecidableEq

inductive Reaction where
  /-- `cancel_registry.request_cancel()`. -/
  | requests (campaign : Option Nat)
  | escalates
  /-- It is another handler's. -/
  | elsewhere
deriving DecidableEq

/-- `handle_signal`. -/
def handleSignal (p : Process) (sig : Sig) : Process × Reaction :=
  let p := { p with count := Function.update p.count sig (p.count sig + 1) }
  if 2 ≤ p.count sig then
    ({ p with handler := Function.update p.handler sig .sigDfl, alive := false }, .escalates)
  else (p, .requests p.registered)

/-- A signal, to whatever handles it. -/
def receive (p : Process) (sig : Sig) : Process × Reaction :=
  match p.handler sig with
  | .handleSignal => handleSignal p sig
  | .sigDfl => ({ p with alive := false }, .elsewhere)
  | .python _ | .foreign => (p, .elsewhere)

/-- The campaigns that run have had one more signal. -/
def Running.tally (sig : Sig) (r : Running) : Running :=
  { r with delivered := Function.update r.delivered sig (r.delivered sig + 1) }

/-- `restore_signal_handlers`. -/
def restored (p : Process) (r : Running) : Sig → Handler :=
  fun sig => (r.found sig).returned.getD (p.handler sig)

def step (p : Process) (event : Event) : Process :=
  if p.alive then
    match event with
    | .start campaign =>
      { p with
        registered := some campaign
        handler := fun _ => .handleSignal
        running := ⟨campaign, p.handler, false, fun _ => 0⟩ :: p.running }
    | .startOffMain campaign => { p with registered := some campaign }
    | .enter =>
      match p.running with
      | [] => p
      | r :: rest => { p with running := { r with entered := true } :: rest }
    | .leave =>
      match p.running with
      | [] => p
      | r :: rest =>
        if r.entered then
          { p with handler := restored p r, registered := none, running := rest }
        else { p with running := rest }
    | .deliver sig =>
      let p := (receive p sig).1
      { p with running := p.running.map (Running.tally sig) }
  else p

/-- A process before its first campaign. -/
def fresh (handler : Sig → Handler) : Process := ⟨true, fun _ => 0, handler, none, []⟩

/-- The first signal of a campaign asks it to cancel itself, only a second one of a kind escalates,
and a campaign that ends leaves the handlers that it found. -/
def Right (p : Process) (event : Event) : Prop :=
  p.alive = true → ∀ r rest, p.running = r :: rest →
    match event with
    | .deliver sig =>
      ((∀ s, r.delivered s = 0) → (receive p sig).2 = .requests (some r.campaign)) ∧
        ((receive p sig).2 = .escalates ↔ 0 < r.delivered sig)
    | .leave => (step p .leave).handler = r.found
    | _ => True

/-- Nothing is left over from another campaign. -/
def Clean (p : Process) (event : Event) : Prop :=
  p.alive = true → ∀ r rest, p.running = r :: rest →
    match event with
    | .deliver sig =>
      ((∀ s, r.delivered s = 0) → p.registered = some r.campaign) ∧
        (r.delivered sig = 0 → p.count sig = 0)
    | .leave => ∀ sig, r.found sig = .handleSignal ∨
        (r.entered = true ∧ r.found sig ≠ .foreign)
    | _ => True

/-- An inner campaign has found the handlers of the outer one. -/
def Nested : List Running → Prop
  | [] | [_] => True
  | r :: r' :: rest => r.found = (fun _ => .handleSignal) ∧ Nested (r' :: rest)

/-- While campaigns run, signals go to `handle_signal`, which has counted those of each. -/
structure Inv (p : Process) : Prop where
  nested : Nested p.running
  handled : p.alive = true → p.running ≠ [] → p.handler = fun _ => .handleSignal
  counted : p.alive = true → ∀ r ∈ p.running, ∀ sig, r.delivered sig ≤ p.count sig

variable {p : Process}

theorem receive_of_handled {sig : Sig} (h : p.handler sig = .handleSignal) :
    receive p sig = handleSignal p sig := by
  unfold receive
  rw [h]

theorem handleSignal_count (sig : Sig) :
    (handleSignal p sig).1.count = Function.update p.count sig (p.count sig + 1) := by
  unfold handleSignal
  simp only
  split_ifs <;> rfl

theorem handleSignal_running (sig : Sig) : (handleSignal p sig).1.running = p.running := by
  unfold handleSignal
  simp only
  split_ifs <;> rfl

/-- As long as the process lives, no handler has changed. -/
theorem handleSignal_handler {sig : Sig} (h : (handleSignal p sig).1.alive = true) :
    (handleSignal p sig).1.handler = p.handler := by
  unfold handleSignal at h ⊢
  simp only at h ⊢
  split_ifs at h ⊢
  rfl

theorem handleSignal_escalates_iff (sig : Sig) :
    (handleSignal p sig).2 = .escalates ↔ 0 < p.count sig := by
  unfold handleSignal
  simp only [Function.update_self]
  split_ifs with hsecond
  · exact iff_of_true rfl (by omega)
  · refine iff_of_false (fun heq => ?_) (by omega)
    cases heq

theorem handleSignal_requests_iff (sig : Sig) (campaign : Nat) :
    (handleSignal p sig).2 = .requests (some campaign) ↔
      p.count sig = 0 ∧ p.registered = some campaign := by
  unfold handleSignal
  simp only [Function.update_self]
  split_ifs with hsecond
  · refine iff_of_false (fun heq => ?_) fun hzero => by omega
    cases heq
  · constructor
    · intro heq
      exact ⟨by omega, Reaction.requests.inj heq⟩
    · intro ⟨_, heq⟩
      rw [heq]

theorem receive_running (sig : Sig) : (receive p sig).1.running = p.running := by
  unfold receive
  cases p.handler sig with
  | handleSignal => exact handleSignal_running sig
  | sigDfl | python | foreign => rfl

theorem Nested.tail {r : Running} {rest : List Running} (h : Nested (r :: rest)) :
    Nested rest := by
  cases rest with
  | nil => trivial
  | cons r' rest => exact h.2

theorem nested_map {f : Running → Running} (hf : ∀ r, (f r).found = r.found) {l : List Running}
    (h : Nested l) : Nested (l.map f) := by
  induction l with
  | nil => trivial
  | cons r rest ih =>
    cases rest with
    | nil => trivial
    | cons r' rest => exact ⟨(hf r).trans h.1, ih h.2⟩

theorem inv_fresh (handler : Sig → Handler) : Inv (fresh handler) where
  nested := trivial
  handled := fun _ h => absurd rfl h
  counted := fun _ _ hr => nomatch hr

theorem inv_deliver (h : Inv p) (halive : p.alive = true) (sig : Sig) :
    Inv (step p (.deliver sig)) := by
  have hstep : step p (.deliver sig) = { (receive p sig).1 with
      running := (receive p sig).1.running.map (Running.tally sig) } := if_pos halive
  rw [hstep, receive_running]
  by_cases hnone : p.running = []
  · rw [hnone]
    exact ⟨trivial, fun _ hne => absurd rfl hne, fun _ _ hr => nomatch hr⟩
  have hhandled := h.handled halive hnone
  have hreceive : receive p sig = handleSignal p sig := receive_of_handled (by rw [hhandled])
  rw [hreceive]
  refine ⟨@nested_map (Running.tally sig) (fun _ => rfl) _ h.nested, fun halive' _ => ?_,
    fun _ r hr s => ?_⟩
  · show (handleSignal p sig).1.handler = _
    rw [handleSignal_handler halive', hhandled]
  · obtain ⟨r', hr', rfl⟩ := List.mem_map.mp hr
    show Function.update r'.delivered sig _ s ≤ (handleSignal p sig).1.count s
    rw [handleSignal_count]
    by_cases hs : s = sig
    · subst hs
      rw [Function.update_self, Function.update_self]
      exact Nat.succ_le_succ (h.counted halive r' hr' s)
    · rw [Function.update_of_ne hs, Function.update_of_ne hs]
      exact h.counted halive r' hr' s

theorem inv_leave (h : Inv p) (halive : p.alive = true) : Inv (step p .leave) := by
  have hstep : step p .leave = match p.running with
      | [] => p
      | r :: rest =>
        if r.entered then
          { p with handler := restored p r, registered := none, running := rest }
        else { p with running := rest } := if_pos halive
  rw [hstep]
  cases hrunning : p.running with
  | nil => exact h
  | cons r rest =>
    have hnested := h.nested
    rw [hrunning] at hnested
    have hcounted : ∀ r' ∈ rest, ∀ sig, r'.delivered sig ≤ p.count sig := by
      intro r' hr'
      apply h.counted halive r'
      rw [hrunning]
      exact List.mem_cons_of_mem _ hr'
    have hhandled : p.handler = fun _ => .handleSignal :=
      h.handled halive (by rw [hrunning]; exact List.cons_ne_nil _ _)
    show Inv (if r.entered then _ else _)
    split_ifs
    · refine ⟨hnested.tail, fun _ hne => ?_, fun _ => hcounted⟩
      cases rest with
      | nil => exact absurd rfl hne
      | cons r' rest =>
        show restored p r = _
        funext sig
        unfold restored
        rw [hnested.1]
        rfl
    · exact ⟨hnested.tail, fun _ _ => hhandled, fun _ => hcounted⟩

theorem inv_step (h : Inv p) (event : Event) : Inv (step p event) := by
  by_cases halive : p.alive = true
  · cases event with
    | start campaign =>
      have hstep : step p (.start campaign) = { p with
          registered := some campaign
          handler := fun _ => .handleSignal
          running := ⟨campaign, p.handler, false, fun _ => 0⟩ :: p.running } := if_pos halive
      rw [hstep]
      refine ⟨?_, fun _ _ => rfl, fun _ r hr sig => ?_⟩
      · cases hrunning : p.running with
        | nil => trivial
        | cons r rest =>
          have hnested := h.nested
          rw [hrunning] at hnested
          exact ⟨h.handled halive (by rw [hrunning]; exact List.cons_ne_nil _ _), hnested⟩
      · rcases List.mem_cons.mp hr with rfl | hr
        · exact Nat.zero_le _
        · exact h.counted halive r hr sig
    | startOffMain campaign =>
      have hstep : step p (.startOffMain campaign) = { p with registered := some campaign } :=
        if_pos halive
      rw [hstep]
      exact ⟨h.nested, h.handled, h.counted⟩
    | enter =>
      have hstep : step p .enter = match p.running with
          | [] => p
          | r :: rest => { p with running := { r with entered := true } :: rest } := if_pos halive
      rw [hstep]
      cases hrunning : p.running with
      | nil => exact h
      | cons r rest =>
        have hnested := h.nested
        rw [hrunning] at hnested
        refine ⟨?_, fun _ _ => ?_, fun _ r' hr' sig => ?_⟩
        · cases rest with
          | nil => trivial
          | cons r' rest => exact hnested
        · exact h.handled halive (by rw [hrunning]; exact List.cons_ne_nil _ _)
        · rcases List.mem_cons.mp hr' with rfl | hr'
          · exact h.counted halive r (by rw [hrunning]; exact List.mem_cons_self) sig
          · exact h.counted halive r' (by rw [hrunning]; exact List.mem_cons_of_mem _ hr') sig
    | leave => exact inv_leave h halive
    | deliver sig => exact inv_deliver h halive sig
  · have hstep : step p event = p := if_neg halive
    rw [hstep]
    exact h

/-! ## One event -/

theorem right_deliver_iff (h : Inv p) (sig : Sig) :
    Right p (.deliver sig) ↔ Clean p (.deliver sig) := by
  unfold Right Clean
  refine forall_congr' fun halive => forall_congr' fun r => forall_congr' fun rest =>
    forall_congr' fun hrunning => ?_
  have hhandled := h.handled halive (by rw [hrunning]; exact List.cons_ne_nil _ _)
  have hreceive : receive p sig = handleSignal p sig := receive_of_handled (by rw [hhandled])
  have hcounted := h.counted halive r (by rw [hrunning]; exact List.mem_cons_self) sig
  simp only [hreceive, handleSignal_requests_iff, handleSignal_escalates_iff]
  constructor
  · intro ⟨hfirst, hsecond⟩
    exact ⟨fun hnone => (hfirst hnone).2, fun hzero => by omega⟩
  · intro ⟨hregistered, hzero⟩
    exact ⟨fun hnone => ⟨hzero (hnone sig), hregistered hnone⟩, by omega⟩

theorem right_leave_iff (h : Inv p) : Right p .leave ↔ Clean p .leave := by
  unfold Right Clean
  refine forall_congr' fun halive => forall_congr' fun r => forall_congr' fun rest =>
    forall_congr' fun hrunning => ?_
  have hhandled := h.handled halive (by rw [hrunning]; exact List.cons_ne_nil _ _)
  have hstep : (step p .leave).handler =
      if r.entered then restored p r else fun _ => .handleSignal := by
    have hunfold : step p .leave = match p.running with
      | [] => p
      | r :: rest =>
        if r.entered then
          { p with handler := restored p r, registered := none, running := rest }
        else { p with running := rest } := if_pos halive
    rw [hunfold, hrunning]
    show (if r.entered then _ else _ : Process).handler = _
    split_ifs
    · rfl
    · exact hhandled
  show (step p .leave).handler = r.found ↔ _
  rw [hstep]
  cases hentered : r.entered with
  | false =>
    rw [if_neg Bool.false_ne_true]
    constructor
    · intro hsame sig
      exact .inl (congrFun hsame sig).symm
    · intro hclean
      funext sig
      rcases hclean sig with hours | ⟨hfalse, _⟩
      · exact hours.symm
      · exact nomatch hfalse
  | true =>
    rw [if_pos rfl]
    have hone : ∀ sig, restored p r sig = r.found sig ↔
        (r.found sig = .handleSignal ∨ (true = true ∧ r.found sig ≠ .foreign)) := by
      intro sig
      unfold restored
      rw [hhandled]
      cases r.found sig <;> simp [Handler.returned]
    constructor
    · intro hsame sig
      exact (hone sig).mp (congrFun hsame sig)
    · intro hclean
      funext sig
      exact (hone sig).mpr (hclean sig)

/-- Every campaign of a process has its own escalation and leaves no handler behind, exactly if
nothing is left over where it counts. -/
theorem escalatesPerCampaign_iff (handler : Sig → Handler) (events : List Event) :
    Along step Right (fresh handler) events ↔ Along step Clean (fresh handler) events := by
  refine along_congr (I := Inv) step (fun _ event h => inv_step h event) ?_ (inv_fresh handler)
    events
  intro p event h
  cases event with
  | deliver sig => exact right_deliver_iff h sig
  | leave => exact right_leave_iff h
  | start | startOffMain | enter => exact Iff.rfl

/-- The first SIGINT of the second campaign ends the process, after one during the first. -/
theorem second_campaign_escalates : ¬ Along step Right (fresh fun _ => .python 0)
    [.start 1, .enter, .deliver .sigint, .leave, .start 2, .enter, .deliver .sigint] := by
  intro h
  have hlast := h.2.2.2.2.2.2.1 rfl _ _ rfl
  exact absurd (hlast.2.mp rfl) (Nat.lt_irrefl 0)

end OSimFlow.Campaign.SignalEscalation
