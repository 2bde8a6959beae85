import OSimFlow.Fanout.Partition

/-!
# Three strikes: the abort of a campaign that cannot checkpoint

`checkpoint_sample` writes a sample's row under one lock and counts the
failures of these writes under another; the third failure in a row raises
`CampaignAbortError`, which has to reach the caller of the fan-out.

`Recorder` is what the samples of one fan-out share, with three ghosts beside
the counter: the length of the unbroken sequence of failed writes, in the
order of the writes; the writes not yet counted, each with its place in that
sequence; and who raised an abort. Two things can go wrong, and the steps at
which they do are the guards of the theorem:

> `InOrder`: a write is counted before an earlier one. A worker between its
> write and its count can be overtaken, and then the count is not the place.
>
> `Reaches`: an abort is raised where it gets lost — inside the inner
> handler, whose exceptions the outer `except Exception` catches, or after
> the campaign thread has left its loop. `check` has the other half: a pause
> or cancel must not be seen while an abort is on its way.
-/

namespace OSimFlow.Fanout

open OSimFlow.Lib
open OSimFlow.Campaign (Step)

/-! ## The protocol of a checkpoint -/

/-- Where a worker is with its checkpoint. -/
inductive CheckpointPhase where
  | idle
  /-- Its write failed, and is not counted yet. -/
  | failed
  /-- Its write went through, and the count is not reset yet. -/
  | written
  /-- It raised an abort that nothing in `_await_one` catches. -/
  | aborting
deriving DecidableEq

/-- Write, count, go on — or raise the abort. -/
def checkpointProtocol : Prog.Protocol CheckpointPhase FanoutOp Ans PyError where
  next
    | .idle, .callback (.updateSample _), .ok _ => some .written
    | .idle, .callback (.updateSample _), .error e =>
      some (if e.isException then .failed else .idle)
    | .failed, .countFailure site, n =>
      some (if 3 ≤ n ∧ site ≠ .bookkeeping then .aborting else .idle)
    | .written, .resetFailures _, _ => some .idle
    | .idle, op, _ => if op.isPlain then some .idle else none
    | _, _, _ => none
  ends
    | .idle, o => ∀ e, o = some e → Catchable e
    | .aborting, o => ∃ e, o = some e ∧ e.isAbort = true
    | _, _ => False

theorem checkpointProtocol_plain : Plain checkpointProtocol .idle where
  next := by
    intro op x hop
    cases op with
    | callback c => cases c <;> first | rfl | exact nomatch hop
    | countFailure site => exact nomatch hop
    | resetFailures site => exact nomatch hop
    | _ => rfl
  ok := fun _ h => nomatch h
  raises := by
    intro e he e' h
    cases h
    exact he.2
  idle := by
    intro phase h
    cases phase with
    | idle => rfl
    | aborting =>
      obtain ⟨e, he, -⟩ := h
      exact nomatch he
    | failed => exact h.elim
    | written => exact h.elim

/-- `checkpoint_sample`, call by call: it raises an abort exactly when the
count it gets is three or more. -/
theorem checkpointSample_eq (site : Site) :
    checkpointSample site = .call (.buildSampleTrace site) fun
      | .error e => .ret (.error e)
      | .ok false => .ret (.ok ())
      | .ok true => .call (.callback (.updateSample site)) fun
        | .ok _ => .call (.resetFailures site) fun _ => .ret (.ok ())
        | .error e =>
          if e.isException then
            .call (.countFailure site) fun failures => .ret
              (if 3 ≤ failures then .error (.campaignAbortError
                s!"aborting after {failures} consecutive checkpoint failures (last error: {e.str})")
              else .ok ())
          else .ret (.error e) := by
  refine congrArg (Prog.call _) (funext fun x => ?_)
  rcases x with e | state
  · rfl
  cases state with
  | false => rfl
  | true =>
    refine congrArg (Prog.call _) (funext fun y => ?_)
    rcases y with e | ⟨⟩
    · cases hx : e.isException with
      | false =>
        show Prog.bind (Prog.catching (.ret (.error e)) _) _ = _
        simp only [Prog.catching, hx, Bool.false_eq_true, if_false]
        rfl
      | true =>
        show Prog.bind (Prog.catching (.ret (.error e)) _) _ = _
        simp only [Prog.catching, hx, if_true]
        refine congrArg (Prog.call _) (funext fun failures => ?_)
        by_cases h3 : 3 ≤ failures
        · simp only [Prog.bind, h3, if_true]
          rfl
        · simp only [Prog.bind, h3, if_false]
          rfl
    · rfl

/-- A checkpoint keeps to every protocol with these phases that lets its abort
end where it ends: in `idle` under the inner handler, else in `aborting`. -/
theorem checkpointSample_follows {P : Prog.Protocol CheckpointPhase FanoutOp Ans PyError}
    (hP : Plain P .idle) (hnext : P.next = checkpointProtocol.next) (site : Site)
    (habort : ∀ m, P.ends (if site ≠ .bookkeeping then .aborting else .idle)
      (some (.campaignAbortError m))) :
    Keeps P .idle (checkpointSample site) := by
  rw [checkpointSample_eq]
  intro x hx
  refine ⟨.idle, hP.next _ _ rfl, ?_⟩
  rcases x with e | state
  · exact hP.raises e (hx e rfl)
  cases state with
  | false => exact hP.ok
  | true =>
    intro y hy
    rw [hnext]
    rcases y with e | ⟨⟩
    · refine ⟨_, rfl, ?_⟩
      cases hexc : e.isException with
      | false =>
        simp only [hexc, Bool.false_eq_true, if_false]
        exact hP.raises e (hy e rfl)
      | true =>
        simp only [hexc, if_true]
        intro failures _
        rw [hnext]
        refine ⟨_, rfl, ?_⟩
        by_cases h3 : 3 ≤ failures
        · simp only [h3, if_true, true_and]
          exact habort _
        · simp only [h3, if_false, false_and]
          exact hP.ok
    · exact ⟨.written, rfl, fun _ _ => ⟨.idle, by rw [hnext]; rfl, hP.ok⟩⟩

/-- `_await_one` over `checkpoint_sample`. -/
def FanoutConfig.checkpointing (cfg : FanoutConfig) : FanoutDeps :=
  { cfg.deps with checkpointSample := checkpointSample }

theorem awaitOne_checkpoints (cfg : FanoutConfig) :
    Keeps checkpointProtocol .idle cfg.checkpointing.awaitOne := by
  have hP := checkpointProtocol_plain
  refine awaitOne_keeps hP (fun site => ?_) ?_
  · refine checkpointSample_follows hP rfl site fun m => ?_
    by_cases hsite : site = .bookkeeping
    · simp only [hsite, ne_eq, not_true_eq_false, if_false]
      exact fun e h => by cases h; rfl
    · simp only [hsite, ne_eq, not_false_eq_true, if_true]
      exact ⟨_, rfl, rfl⟩
  · refine checkpointSample_follows (catchable_plain hP) rfl .bookkeeping fun m => ?_
    exact ⟨rfl, fun e h => by cases h; rfl⟩

/-! ## What the samples share -/

/-- The worlds of the samples and the counter of the checkpoints; and, for the
record only, what the counter is about. -/
structure Recorder where
  worlds : String → SampleWorld
  /-- `consecutive_checkpoint_failures`. -/
  failures : Nat
  /-- The length of the unbroken sequence of failed writes, so far. -/
  unbroken : Nat
  /-- The writes not counted yet, in their order: who wrote, and the place in
  the sequence, or 0 for a write that went through. -/
  uncounted : List (String × Nat)
  /-- Every count so far reached three exactly if its write was the third of
  the sequence or later. -/
  faithful : Bool
  /-- Whose checkpoint raised an abort. -/
  aborts : List String

namespace Recorder

/-- Before a fan-out, with the counter where the last one left it. -/
def fresh (worlds : String → SampleWorld) (failures : Nat) : Recorder where
  worlds := worlds
  failures := failures
  unbroken := failures
  uncounted := []
  faithful := true
  aborts := []

variable (s : Recorder) (sid : String)

/-- A write with this place in the sequence. -/
def write (place : Nat) : Recorder :=
  { s with unbroken := place, uncounted := s.uncounted ++ [(sid, place)] }

/-- The place of the write a worker is about to count. -/
def place : Nat :=
  ((s.uncounted.find? fun w => w.1 = sid).map Prod.snd).getD 0

/-- `consecutive_checkpoint_failures += 1`. -/
def count : Recorder :=
  { s with
    failures := s.failures + 1
    uncounted := s.uncounted.eraseP fun w => w.1 = sid
    faithful := s.faithful && (decide (3 ≤ s.place sid) == decide (3 ≤ s.failures + 1))
    aborts := if 3 ≤ s.failures + 1 then s.aborts ++ [sid] else s.aborts }

/-- `consecutive_checkpoint_failures = 0`. -/
def reset : Recorder :=
  { s with failures := 0, uncounted := s.uncounted.eraseP fun w => w.1 = sid }

/-- Every other call acts on the sample's own world. -/
def plainCall (script : Script) (step : Step) (op : FanoutOp) : Ans op × Recorder :=
  ((script.handle step op (s.worlds sid)).1,
    { s with worlds :=
        Function.update s.worlds sid (script.handle step op (s.worlds sid)).2 })

end Recorder

/-- The handler of the sample `sid`, with `checkpoint_sample`'s own calls. -/
def recorderHandler (script : String → Script) (step : Step) (sid : String) :
    Prog.Handler FanoutOp Ans Recorder
  | .callback (.updateSample site), s =>
    match (script sid).updateSample site with
    | .ok => (.ok (), s.write sid 0)
    | .raises m => (.error (.exception m), s.write sid (s.unbroken + 1))
  | .countFailure _, s => (s.failures + 1, s.count sid)
  | .resetFailures _, s => ((), s.reset sid)
  | op, s => s.plainCall sid (script sid) step op

section Sound

variable {script : String → Script} {step : Step} {sid : String}

theorem recorderHandler_plain {op : FanoutOp} (hop : op.isPlain = true) (s : Recorder) :
    recorderHandler script step sid op s = s.plainCall sid (script sid) step op := by
  cases op with
  | callback c => cases c <;> first | rfl | exact nomatch hop
  | countFailure site => exact nomatch hop
  | resetFailures site => exact nomatch hop
  | _ => rfl

theorem recorderHandler_answered (op : FanoutOp) (s : Recorder) :
    Answered op (recorderHandler script step sid op s).1 := by
  cases hop : op.isPlain with
  | true =>
    rw [recorderHandler_plain hop]
    exact handle_answered _ _ _ _
  | false =>
    cases op with
    | callback c =>
      cases c with
      | updateSample site =>
        intro e he
        simp only [recorderHandler] at he
        cases ho : (script sid).updateSample site <;> rw [ho] at he
        · exact nomatch he
        · cases he
          exact ordinary_exception _
      | _ => exact nomatch hop
    | countFailure site => trivial
    | resetFailures site => trivial
    | _ => exact nomatch hop

/-- Counting these writes in their order takes the counter from `count` to
`unbroken`. -/
def Replays : Nat → List (String × Nat) → Nat → Prop
  | count, [], unbroken => count = unbroken
  | count, (_, place) :: rest, unbroken =>
    (place = 0 ∨ place = count + 1) ∧ Replays place rest unbroken

theorem Replays.write {count unbroken place : Nat} {writes : List (String × Nat)}
    (h : Replays count writes unbroken) (hp : place = 0 ∨ place = unbroken + 1)
    (sid : String) : Replays count (writes ++ [(sid, place)]) place := by
  induction writes generalizing count with
  | nil =>
    obtain rfl : count = unbroken := h
    exact ⟨hp, rfl⟩
  | cons w rest ih => exact ⟨h.1, ih h.2⟩

/-- The phase of a worker whose write has this place. -/
def phaseOf (place : Nat) : CheckpointPhase :=
  if place = 0 then .written else .failed

/-- The invariant of the counter. -/
structure Sound (phase : String → CheckpointPhase) (s : Recorder) : Prop where
  nodup : (s.uncounted.map Prod.fst).Nodup
  phases : ∀ sid place, (sid, place) ∈ s.uncounted → phase sid = phaseOf place
  queued : ∀ sid, phase sid = .written ∨ phase sid = .failed →
    ∃ place, (sid, place) ∈ s.uncounted
  replays : Replays s.failures s.uncounted s.unbroken
  faithful : s.faithful = true

theorem fresh_sound (worlds : String → SampleWorld) (failures : Nat) :
    Sound (fun _ => .idle) (Recorder.fresh worlds failures) where
  nodup := List.nodup_nil
  phases := fun _ _ h => nomatch h
  queued := fun _ h => h.elim (fun h => nomatch h) fun h => nomatch h
  replays := rfl
  faithful := rfl

variable {phase : String → CheckpointPhase} {s : Recorder}

/-- The worker's write is the first of those not counted yet. -/
def InOrder (s : Recorder) (sid : String) : Prop :=
  s.uncounted.head?.map Prod.fst = some sid

instance (s : Recorder) (sid : String) : Decidable (InOrder s sid) :=
  inferInstanceAs (Decidable (_ = _))

theorem InOrder.head (h : InOrder s sid) :
    ∃ place rest, s.uncounted = (sid, place) :: rest := by
  unfold InOrder at h
  cases hu : s.uncounted with
  | nil =>
    rw [hu] at h
    exact nomatch h
  | cons w rest =>
    rw [hu] at h
    obtain ⟨sid', place⟩ := w
    cases h
    exact ⟨place, rest, rfl⟩

theorem Sound.write (h : Sound phase s) (hidle : phase sid = .idle) {place : Nat}
    (hp : place = 0 ∨ place = s.unbroken + 1) :
    Sound (Function.update phase sid (phaseOf place)) (s.write sid place) := by
  have hnew : ∀ place', (sid, place') ∉ s.uncounted := by
    intro place' hm
    have := h.phases sid place' hm
    rw [hidle, phaseOf] at this
    split at this <;> exact nomatch this
  refine ⟨?_, ?_, ?_, h.replays.write hp sid, h.faithful⟩
  · show ((s.uncounted ++ [(sid, place)]).map Prod.fst).Nodup
    rw [List.map_append, List.map_singleton]
    refine List.nodup_append.mpr ⟨h.nodup, List.nodup_singleton _, ?_⟩
    intro a ha b hb hab
    obtain ⟨⟨sid', place'⟩, hm, rfl⟩ := List.mem_map.mp ha
    rw [List.mem_singleton] at hb
    have hsid : sid' = sid := hab.trans hb
    exact hnew place' (hsid ▸ hm)
  · intro sid' place' hm
    rcases List.mem_append.mp hm with hm | hm
    · have hne : sid' ≠ sid := by
        intro heq
        exact hnew place' (heq ▸ hm)
      rw [Function.update_of_ne hne]
      exact h.phases sid' place' hm
    · rw [List.mem_singleton] at hm
      cases hm
      exact Function.update_self _ _ _
  · intro sid' hph
    by_cases hsid : sid' = sid
    · exact ⟨place, by rw [hsid]; exact List.mem_append_right _ List.mem_cons_self⟩
    · rw [Function.update_of_ne hsid] at hph
      obtain ⟨place', hm⟩ := h.queued sid' hph
      exact ⟨place', List.mem_append_left _ hm⟩

/-- Counting the first write not counted yet. -/
theorem Sound.counted (h : Sound phase s) {place : Nat} {rest : List (String × Nat)}
    (hu : s.uncounted = (sid, place) :: rest) {phase' : CheckpointPhase}
    (hw : phase' ≠ .written) (hf : phase' ≠ .failed) {s' : Recorder}
    (hu' : s'.uncounted = rest) (hfail : s'.failures = place)
    (hunb : s'.unbroken = s.unbroken) (hfaith : s'.faithful = true) :
    Sound (Function.update phase sid phase') s' := by
  have hnodup := h.nodup
  have hreplays := h.replays
  rw [hu] at hnodup hreplays
  obtain ⟨hnot, hrest⟩ := List.nodup_cons.mp hnodup
  have hne : ∀ sid' place', (sid', place') ∈ rest → sid' ≠ sid := by
    intro sid' place' hm heq
    exact hnot (List.mem_map.mpr ⟨(sid', place'), hm, heq⟩)
  refine ⟨hu' ▸ hrest, ?_, ?_, ?_, hfaith⟩
  · intro sid' place' hm
    rw [hu'] at hm
    rw [Function.update_of_ne (hne sid' place' hm)]
    exact h.phases sid' place' (hu ▸ List.mem_cons_of_mem _ hm)
  · intro sid' hph
    by_cases hsid : sid' = sid
    · rw [hsid, Function.update_self] at hph
      exact (hph.elim hw hf).elim
    · rw [Function.update_of_ne hsid] at hph
      obtain ⟨place', hm⟩ := h.queued sid' hph
      rw [hu] at hm
      rcases List.mem_cons.mp hm with heq | hm
      · exact absurd (congrArg Prod.fst heq) hsid
      · exact ⟨place', hu' ▸ hm⟩
  · rw [hu', hfail, hunb]
    exact hreplays.2

/-- The calls that settle a write with the counter. -/
def FanoutOp.counts : FanoutOp → Bool
  | .countFailure _ | .resetFailures _ => true
  | _ => false

/-- An allowed call that a worker makes in order keeps the counter sound; it
raises an abort only by going on to `aborting`. -/
theorem Sound.call (h : Sound phase s) {op : FanoutOp} {phase' : CheckpointPhase}
    (hnext : checkpointProtocol.next (phase sid) op
      (recorderHandler script step sid op s).1 = some phase')
    (horder : op.counts = true → InOrder s sid)
    (hsite : op = .countFailure .bookkeeping → s.failures + 1 < 3) :
    Sound (Function.update phase sid phase') (recorderHandler script step sid op s).2 ∧
      ((recorderHandler script step sid op s).2.aborts = s.aborts ∨
        (3 ≤ s.failures + 1 ∧ (∃ site, op = .countFailure site) ∧ phase' = .aborting)) := by
  cases hop : op.isPlain with
  | true =>
    -- Allowed in `idle` only, where it stays.
    have hidle : phase sid = .idle ∧ phase' = .idle := by
      cases hph : phase sid with
      | idle =>
        rw [hph, checkpointProtocol_plain.next op _ hop] at hnext
        cases hnext
        exact ⟨rfl, rfl⟩
      | _ =>
        rw [hph] at hnext
        cases op with
        | countFailure site => exact nomatch hop
        | resetFailures site => exact nomatch hop
        | _ => exact nomatch hnext
    obtain ⟨hph, rfl⟩ := hidle
    rw [recorderHandler_plain hop, ← hph, Function.update_eq_self]
    exact ⟨⟨h.nodup, h.phases, h.queued, h.replays, h.faithful⟩, Or.inl rfl⟩
  | false =>
    cases op with
    | callback c =>
      cases c with
      | updateSample site =>
        have hidle : phase sid = .idle := by
          cases hph : phase sid with
          | idle => rfl
          | _ =>
            rw [hph] at hnext
            exact nomatch hnext
        rw [hidle] at hnext
        simp only [recorderHandler] at hnext ⊢
        cases ho : (script sid).updateSample site with
        | ok =>
          rw [ho] at hnext
          cases hnext
          exact ⟨h.write hidle (Or.inl rfl), Or.inl rfl⟩
        | raises m =>
          rw [ho] at hnext
          cases hnext
          exact ⟨h.write hidle (Or.inr rfl), Or.inl rfl⟩
      | _ => exact nomatch hop
    | countFailure site =>
      obtain ⟨place, rest, hu⟩ := (horder rfl).head
      have hph := h.phases sid place (hu ▸ List.mem_cons_self)
      have hplace : place = s.failures + 1 := by
        have hreplays := h.replays
        rw [hu] at hreplays
        rcases hreplays.1 with h0 | h1
        · rw [hph, phaseOf, if_pos h0] at hnext
          exact nomatch hnext
        · exact h1
      have hne : place ≠ 0 := by omega
      rw [hph, phaseOf, if_neg hne] at hnext
      have hphase' : phase' =
          if 3 ≤ s.failures + 1 ∧ site ≠ .bookkeeping then .aborting else .idle :=
        (Option.some.inj hnext).symm
      refine ⟨h.counted hu ?_ ?_ ?_ ?_ rfl ?_, ?_⟩
      · rw [hphase']
        split <;> exact fun h => nomatch h
      · rw [hphase']
        split <;> exact fun h => nomatch h
      · simp [recorderHandler, Recorder.count, hu]
      · exact hplace.symm
      · have hfind : s.place sid = place := by simp [Recorder.place, hu]
        simp [recorderHandler, Recorder.count, h.faithful, hfind, hplace]
      · by_cases h3 : 3 ≤ s.failures + 1
        · have hb : site ≠ .bookkeeping := by
            intro heq
            have := hsite (heq ▸ rfl)
            omega
          rw [if_pos ⟨h3, hb⟩] at hphase'
          exact Or.inr ⟨h3, ⟨site, rfl⟩, hphase'⟩
        · exact Or.inl (if_neg h3)
    | resetFailures site =>
      obtain ⟨place, rest, hu⟩ := (horder rfl).head
      have hph := h.phases sid place (hu ▸ List.mem_cons_self)
      have hplace : place = 0 := by
        by_contra hne
        rw [hph, phaseOf, if_neg hne] at hnext
        exact nomatch hnext
      rw [hph, phaseOf, if_pos hplace] at hnext
      obtain rfl : .idle = phase' := Option.some.inj hnext
      refine ⟨?_, Or.inl rfl⟩
      refine h.counted hu (by decide) (by decide) ?_ ?_ rfl h.faithful
      · simp [recorderHandler, Recorder.reset, hu]
      · exact hplace.symm
    | _ => exact nomatch hop

end Sound

/-! ## The loop -/

section Loop

/-- Every call the loop's samples make meets `G`. -/
def AlongLoop {σ : Type} (h : String → Prog.Handler FanoutOp Ans σ)
    (prog : AwaitProg Unit) (polled : Nat → Polled) (G : FanoutOp → σ → Prop) :
    List String → Nat → σ → Prop
  | [], _, _ => True
  | sid :: rest, n, s =>
    (polled n).cancel = true ∨ (polled n).pause = true ∨
      (Prog.AlongRun (h sid) G prog s ∧
        match Prog.run (h sid) prog s with
        | (.ok (), s') => AlongLoop h prog polled G rest (n + 1) s'
        | (.error _, _) => True)

instance decidableAlongLoop {σ : Type} {h : String → Prog.Handler FanoutOp Ans σ}
    {prog : AwaitProg Unit} {polled : Nat → Polled} {G : FanoutOp → σ → Prop}
    [∀ op s, Decidable (G op s)] :
    (sids : List String) → (n : Nat) → (s : σ) →
      Decidable (AlongLoop h prog polled G sids n s)
  | [], _, _ => inferInstanceAs (Decidable True)
  | sid :: rest, n, s =>
    have : Decidable (match Prog.run (h sid) prog s with
        | (.ok (), s') => AlongLoop h prog polled G rest (n + 1) s'
        | (.error _, _) => True) :=
      match Prog.run (h sid) prog s with
      | (.ok (), s') => decidableAlongLoop rest (n + 1) s'
      | (.error _, _) => inferInstanceAs (Decidable True)
    inferInstanceAs (Decidable (_ ∨ _ ∨ (_ ∧ _)))

/-- No third strike inside the inner handler. -/
def Caught (op : FanoutOp) (s : Recorder) : Prop :=
  op = .countFailure .bookkeeping → s.failures + 1 < 3

instance (op : FanoutOp) (s : Recorder) : Decidable (Caught op s) :=
  inferInstanceAs (Decidable (_ → _))

variable {script : String → Script} {cfg : FanoutConfig} {sid : String}

/-- With no other worker under way, counts are in order. -/
theorem Sound.alone_inOrder {phase : CheckpointPhase} {s : Recorder}
    (h : Sound (Function.update (fun _ => .idle) sid phase) s)
    (hp : phase = .written ∨ phase = .failed) : InOrder s sid := by
  obtain ⟨place, hm⟩ := h.queued sid (by rwa [Function.update_self])
  cases hu : s.uncounted with
  | nil =>
    rw [hu] at hm
    exact nomatch hm
  | cons w rest =>
    obtain ⟨sid', place'⟩ := w
    have hph := h.phases sid' place' (hu ▸ List.mem_cons_self)
    by_cases hsid : sid' = sid
    · rw [InOrder, hu, hsid]
      rfl
    · rw [Function.update_of_ne hsid, phaseOf] at hph
      split at hph <;> exact nomatch hph

/-- What holds of the one worker under way: the counter is sound, and it has
raised no abort, or is on its way out with it. -/
def OnItsWay (sid : String) (phase : CheckpointPhase) (s : Recorder) : Prop :=
  Sound (Function.update (fun _ => .idle) sid phase) s ∧
    (s.aborts = [] ∨ phase = .aborting)

theorem OnItsWay.call {phase phase' : CheckpointPhase} {op : FanoutOp} {s : Recorder}
    (hI : OnItsWay sid phase s)
    (hnext : checkpointProtocol.next phase op
      (recorderHandler script cfg.step sid op s).1 = some phase')
    (hcaught : Caught op s) :
    OnItsWay sid phase' (recorderHandler script cfg.step sid op s).2 := by
  have horder : op.counts = true → InOrder s sid := by
    intro hc
    refine hI.1.alone_inOrder ?_
    cases op with
    | countFailure site =>
      cases phase with
      | failed => exact Or.inr rfl
      | _ => exact nomatch hnext
    | resetFailures site =>
      cases phase with
      | written => exact Or.inl rfl
      | _ => exact nomatch hnext
    | _ => exact nomatch hc
  have hnext' : checkpointProtocol.next
      (Function.update (fun _ => CheckpointPhase.idle) sid phase sid) op
      (recorderHandler script cfg.step sid op s).1 = some phase' := by
    rwa [Function.update_self]
  obtain ⟨hsound, hab⟩ := hI.1.call hnext' horder hcaught
  rw [Function.update_idem] at hsound
  refine ⟨hsound, ?_⟩
  rcases hab with hab | ⟨-, -, hab⟩
  · rcases hI.2 with h0 | h0
    · exact Or.inl (hab.trans h0)
    · -- Nothing is called in `aborting`.
      subst h0
      cases op <;> exact nomatch hnext
  · exact Or.inr hab

/-- One sample: it leaves the counter sound, and an abort its checkpoint raised
is how it ends. -/
theorem awaitOne_raises {s : Recorder} (hs : Sound (fun _ => .idle) s)
    (ha : s.aborts = [])
    (hG : Prog.AlongRun (recorderHandler script cfg.step sid) Caught
      cfg.checkpointing.awaitOne s) :
    let out := Prog.run (recorderHandler script cfg.step sid) cfg.checkpointing.awaitOne s
    (out.2.faithful = true ∧ ∃ e, out.1 = .error e ∧ e.isAbort = true) ∨
      (Sound (fun _ => .idle) out.2 ∧ out.2.aborts = []) := by
  have hstart : OnItsWay sid .idle s := ⟨by rwa [Function.update_eq_self], Or.inl ha⟩
  obtain ⟨phase, hend, hsound, haborts⟩ := (awaitOne_checkpoints cfg).run_inv
    (recorderHandler script cfg.step sid) recorderHandler_answered
    (fun _ _ _ _ hI hnext hcaught => hI.call hnext hcaught) hstart hG
  cases phase with
  | idle =>
    rw [Function.update_eq_self] at hsound
    exact Or.inr ⟨hsound, haborts.resolve_right fun h => nomatch h⟩
  | aborting =>
    obtain ⟨e, he, habort⟩ := hend
    refine Or.inl ⟨hsound.faithful, e, ?_, habort⟩
    revert he
    rcases (Prog.run (recorderHandler script cfg.step sid)
      cfg.checkpointing.awaitOne s).1 with e' | ⟨⟩
    · intro he
      cases he
      rfl
    · exact fun he => nomatch he
  | failed => exact hend.elim
  | written => exact hend.elim

/-- The loop: an abort raised in it is what it raises. -/
theorem loop_raises {polled : Nat → Polled} {cancelled : Bool} {sids : List String}
    {n : Nat} {s : Recorder} (hs : Sound (fun _ => .idle) s) (ha : s.aborts = [])
    (hG : AlongLoop (recorderHandler script cfg.step) cfg.checkpointing.awaitOne polled
      Caught sids n s) :
    let out := sequentialLoop (recorderHandler script cfg.step)
      cfg.checkpointing.awaitOne polled cancelled sids n s
    out.shared.faithful = true ∧
      (out.shared.aborts ≠ [] → ∃ e, out.outcome = .error e ∧ e.isAbort = true) := by
  induction sids generalizing n s with
  | nil => exact ⟨hs.faithful, fun h => absurd ha h⟩
  | cons sid rest ih =>
    simp only [sequentialLoop]
    by_cases hc : (polled n).cancel = true
    · rw [if_pos hc]
      exact ⟨hs.faithful, fun h => absurd ha h⟩
    rw [if_neg hc]
    by_cases hp : (polled n).pause = true
    · rw [if_pos hp]
      exact ⟨hs.faithful, fun h => absurd ha h⟩
    rw [if_neg hp]
    obtain ⟨halong, hrest⟩ := (hG.resolve_left hc).resolve_left hp
    have hone := awaitOne_raises hs ha halong
    revert hone hrest
    rcases Prog.run (recorderHandler script cfg.step sid) cfg.checkpointing.awaitOne s
      with ⟨e | ⟨⟩, s'⟩
    · intro _ hone
      rcases hone with ⟨hf, e', he, habort⟩ | ⟨hsound, hnone⟩
      · exact ⟨hf, fun _ => ⟨e', he, habort⟩⟩
      · exact ⟨hsound.faithful, fun h => absurd hnone h⟩
    · intro hrest hone
      rcases hone with ⟨-, e', he, -⟩ | ⟨hsound, hnone⟩
      · cases he
      · exact ih hsound hnone hrest

end Loop

/-! ## The pool -/

/-- The futures not drained yet, while the campaign thread is in its loop. -/
def Main.left : Main → Option (List String)
  | .waiting pending => some pending
  | .checking batch pending | .draining batch pending => some (batch ++ pending)
  | _ => none

/-- It has left the loop with an abort. -/
def Main.aborts : Main → Bool
  | .joining (.error e) | .done (.error e) => e.isAbort
  | _ => false

/-- An abort raised now gets to the caller: it is not inside the inner
handler, and the campaign thread still drains, or has raised one already. -/
def Reaches (r : FanoutRun Recorder) (site : Site) : Prop :=
  site ≠ .bookkeeping ∧ (r.main.left.isSome = true ∨ r.main.aborts = true)

instance (r : FanoutRun Recorder) (site : Site) : Decidable (Reaches r site) :=
  inferInstanceAs (Decidable (_ ∧ _))

/-- What a worker's next call has to meet. -/
def GuardedCall (r : FanoutRun Recorder) (sid : String) :
    Thread FanoutOp Ans PyError Unit → Prop
  | .running (.call (.countFailure site) _) =>
    InOrder r.pool.shared sid ∧ (3 ≤ r.pool.shared.failures + 1 → Reaches r site)
  | .running (.call (.resetFailures _) _) => InOrder r.pool.shared sid
  | _ => True

/-- **The guard.** Writes are counted in their order, a third strike is where
its abort gets to the caller, and no pause or cancel is seen with an abort on
its way. -/
def Guarded (r : FanoutRun Recorder) : Event → Prop
  | .advance sid => GuardedCall r sid (r.pool.threads sid)
  | .check polled =>
    polled.cancel = true ∨ polled.pause = true → r.pool.shared.aborts = []
  | _ => True

instance (r : FanoutRun Recorder) (sid : String) :
    DecidablePred (GuardedCall r sid)
  | .running (.call (.countFailure site) _) =>
    inferInstanceAs (Decidable (InOrder r.pool.shared sid ∧
      (3 ≤ r.pool.shared.failures + 1 → Reaches r site)))
  | .running (.call (.resetFailures _) _) =>
    inferInstanceAs (Decidable (InOrder r.pool.shared sid))
  | .running (.call (.callback _) _) | .running (.call .traceIdFor _)
  | .running (.call (.recordFailure _) _) | .running (.call .clearFailure _)
  | .running (.call .resetRecovery _) | .running (.call (.checkAndRecover _) _)
  | .running (.call (.resubmit _) _) | .running (.call (.buildSampleTrace _) _)
  | .running (.ret _) | .queued _ | .finished _ | .cancelled =>
    inferInstanceAs (Decidable True)

instance (r : FanoutRun Recorder) : DecidablePred (Guarded r)
  | .advance sid => inferInstanceAs (Decidable (GuardedCall r sid _))
  | .check polled => inferInstanceAs (Decidable
      (polled.cancel = true ∨ polled.pause = true → r.pool.shared.aborts = []))
  | .start | .wait _ | .drain | .join => inferInstanceAs (Decidable True)

/-- Every count was right, and a call that is over has raised the aborts its
workers raised. -/
def AbortReached (r : FanoutRun Recorder) : Prop :=
  r.pool.shared.faithful = true ∧
    ∀ outcome, r.main = .done outcome → r.pool.shared.aborts ≠ [] →
      ∃ e, outcome = .error e ∧ e.isAbort = true

section Watching

variable {script : String → Script} {cfg : FanoutConfig}

/-- The invariant of a guarded run: every abort raised so far is what the
campaign thread leaves with, or on its way in a future it still drains. -/
structure Watching (phase : String → CheckpointPhase) (r : FanoutRun Recorder) :
    Prop where
  follows : Pool.Follows Answered checkpointProtocol phase r.pool
  sound : Sound phase r.pool.shared
  running : ∀ sid, (r.pool.threads sid).isRunning = true → sid ∈ r.pool.order
  undrained : ∀ left, r.main.left = some left → ∀ sid ∈ r.pool.order,
    (r.pool.threads sid).isDone = false → sid ∈ left
  live : r.main.left.isSome = true → ∀ sid, r.pool.threads sid ≠ .cancelled
  batch : ∀ batch pending,
    r.main = .checking batch pending ∨ r.main = .draining batch pending →
      ∀ sid ∈ batch, (r.pool.threads sid).isDone = true
  underWay : r.pool.shared.aborts = [] ∨ r.main.aborts = true ∨
    ∃ left, r.main.left = some left ∧ ∃ sid ∈ left, phase sid = .aborting

variable {phase : String → CheckpointPhase} {r : FanoutRun Recorder}

theorem Watching.reached (h : Watching phase r) : AbortReached r := by
  refine ⟨h.sound.faithful, fun outcome hm ha => ?_⟩
  rcases h.underWay with h0 | h1 | ⟨left, hl, -⟩
  · exact absurd h0 ha
  · rw [hm] at h1
    cases outcome with
    | ok u => exact nomatch h1
    | error e => exact ⟨e, rfl, h1⟩
  · rw [hm] at hl
    exact nomatch hl

theorem begin_watching (sids : List String) (worlds : String → SampleWorld)
    (failures : Nat) :
    Watching (fun _ => .idle) (FanoutRun.begin sids cfg.checkpointing.awaitOne
      (Recorder.fresh worlds failures)) where
  follows := fun _ => awaitOne_checkpoints cfg
  sound := fresh_sound worlds failures
  running := fun _ h => nomatch h
  undrained := by
    intro left hl sid hs _
    unfold FanoutRun.begin at hl
    by_cases hnil : sids = []
    · simp only [hnil, if_true] at hl
      exact nomatch hl
    · simp only [hnil, if_false] at hl
      cases hl
      exact hs
  live := fun _ _ h => nomatch h
  batch := by
    intro batch pending h
    unfold FanoutRun.begin at h
    by_cases hnil : sids = []
    · simp only [hnil, if_true] at h
      exact h.elim (fun h => nomatch h) fun h => nomatch h
    · simp only [hnil, if_false] at h
      exact h.elim (fun h => nomatch h) fun h => nomatch h
  underWay := Or.inl rfl

/-- A step of the pool: what is done stays done, nothing is cancelled. -/
theorem Watching.ofPool (h : Watching phase r) {phase' : String → CheckpointPhase}
    {pool : Pool String FanoutOp Ans PyError Unit Recorder}
    (hfollows : Pool.Follows Answered checkpointProtocol phase' pool)
    (hsound : Sound phase' pool.shared) (horder : pool.order = r.pool.order)
    (hrunning : ∀ sid, (pool.threads sid).isRunning = true → sid ∈ r.pool.order)
    (hdone : ∀ sid, (r.pool.threads sid).isDone = true →
      pool.threads sid = r.pool.threads sid)
    (hlive : ∀ sid, pool.threads sid = .cancelled → r.pool.threads sid = .cancelled)
    (hway : pool.shared.aborts = [] ∨ r.main.aborts = true ∨
      ∃ left, r.main.left = some left ∧ ∃ sid ∈ left, phase' sid = .aborting) :
    Watching phase' { r with pool := pool } where
  follows := hfollows
  sound := hsound
  running := fun sid hr => horder ▸ hrunning sid hr
  undrained := by
    intro left hl sid hs hnot
    refine h.undrained left hl sid (horder ▸ hs) ?_
    cases hd : (r.pool.threads sid).isDone with
    | false => rfl
    | true =>
      have hnot : (pool.threads sid).isDone = false := hnot
      rw [hdone sid hd, hd] at hnot
      cases hnot
  live := fun hl sid hc => h.live hl sid (hlive sid hc)
  batch := by
    intro batch pending hm sid hs
    have hd := h.batch batch pending hm sid hs
    show (pool.threads sid).isDone = true
    rw [hdone sid hd]
    exact hd
  underWay := hway

theorem Watching.start (h : Watching phase r) (maxWorkers : Nat) :
    Watching phase { r with pool := r.pool.start maxWorkers } := by
  refine h.ofPool (h.follows.start maxWorkers) ?_ (Pool.start_order _ _) ?_
    (fun _ => Pool.start_done) ?_ ?_
  · rw [Pool.start_shared]
    exact h.sound
  · intro sid hr
    rcases Pool.start_cases maxWorkers r.pool with hs | ⟨i, p, hm, hi, hs⟩
    · exact h.running sid (by simpa only [hs] using hr)
    · by_cases hsid : sid = i
      · exact hsid ▸ hm
      · exact h.running sid (by simpa [hs, hsid] using hr)
  · intro sid hc
    rcases Pool.start_cases maxWorkers r.pool with hs | ⟨i, p, hm, hi, hs⟩
    · simpa only [hs] using hc
    · by_cases hsid : sid = i
      · subst hsid
        simp [hs] at hc
      · simpa [hs, hsid] using hc
  · rw [Pool.start_shared]
    exact h.underWay

/-- A worker's step moves its own phase only. -/
theorem Watching.advance (h : Watching phase r) {sid : String}
    (hg : GuardedCall r sid (r.pool.threads sid)) :
    ∃ phase', Watching phase'
      { r with pool := r.pool.advance (recorderHandler script cfg.step) sid } := by
  have hdone : ∀ i, (r.pool.threads i).isDone = true →
      (r.pool.advance (recorderHandler script cfg.step) sid).threads i =
        r.pool.threads i := fun _ => Pool.advance_done
  have horder := Pool.advance_order (recorderHandler script cfg.step) sid r.pool
  rcases Pool.advance_cases (recorderHandler script cfg.step) sid r.pool with
    hs | ⟨res, hi, hs⟩ | ⟨op, k, hi, hs⟩
  · rw [hs]
    exact ⟨phase, h⟩
  · rw [hs] at hdone horder ⊢
    refine ⟨phase, h.ofPool (h.follows.deliver hi) h.sound horder ?_ hdone ?_ h.underWay⟩
    · intro i hr
      by_cases hisid : i = sid
      · subst hisid
        simp [Thread.isRunning] at hr
      · exact h.running i (by simpa [hisid] using hr)
    · intro i hc
      by_cases hisid : i = sid
      · subst hisid
        simp at hc
      · simpa [hisid] using hc
  · rw [hi] at hg
    have hsid : sid ∈ r.pool.order := h.running sid (by rw [hi]; rfl)
    obtain ⟨phase', hnext, hfollows⟩ := h.follows.call hi
      (@recorderHandler_answered script cfg.step sid op r.pool.shared)
    have hcount : op.counts = true → InOrder r.pool.shared sid := by
      intro hc
      cases op with
      | countFailure site => exact hg.1
      | resetFailures site => exact hg
      | _ => exact nomatch hc
    have hcaught : op = .countFailure .bookkeeping → r.pool.shared.failures + 1 < 3 := by
      intro hop
      subst hop
      by_contra h3
      exact (hg.2 (by omega)).1 rfl
    obtain ⟨hsound, haborts⟩ := h.sound.call hnext hcount hcaught
    rw [hs] at hdone horder ⊢
    refine ⟨_, h.ofPool (hfollows _) hsound horder ?_ hdone ?_ ?_⟩
    · intro i hr
      by_cases hisid : i = sid
      · exact hisid ▸ hsid
      · exact h.running i (by simpa [hisid] using hr)
    · intro i hc
      by_cases hisid : i = sid
      · subst hisid
        simp at hc
      · simpa [hisid] using hc
    · rcases haborts with hsame | ⟨h3, ⟨site, rfl⟩, rfl⟩
      · rw [hsame]
        rcases h.underWay with h0 | h1 | ⟨left, hl, i, hm, hph⟩
        · exact Or.inl h0
        · exact Or.inr (Or.inl h1)
        · refine Or.inr (Or.inr ⟨left, hl, i, hm, ?_⟩)
          have hne : i ≠ sid := by
            intro heq
            rw [← heq, hph] at hnext
            cases op <;> exact nomatch hnext
          rwa [Function.update_of_ne hne]
      · refine Or.inr ((hg.2 h3).2.symm.imp_right fun hl => ?_)
        obtain ⟨left, hl⟩ := Option.isSome_iff_exists.mp hl
        exact ⟨left, hl, sid, h.undrained left hl sid hsid (by rw [hi]; rfl),
          Function.update_self _ _ _⟩

/-- A step of the campaign thread that leaves the pool alone. -/
theorem Watching.ofMain (h : Watching phase r) {r' : FanoutRun Recorder}
    (hp : r'.pool = r.pool)
    (hleft : ∀ left, r'.main.left = some left → ∃ left', r.main.left = some left' ∧
      ∀ sid ∈ left', sid ∈ left ∨ ((r.pool.threads sid).isDone = true ∧
        phase sid ≠ .aborting))
    (hbatch : ∀ batch pending,
      r'.main = .checking batch pending ∨ r'.main = .draining batch pending →
        ∀ sid ∈ batch, (r.pool.threads sid).isDone = true)
    (hway : r.pool.shared.aborts = [] ∨ r'.main.aborts = true ∨
      r'.main.left.isSome = true ∧ r.main.aborts = false) :
    Watching phase r' where
  follows := hp ▸ h.follows
  sound := hp ▸ h.sound
  running := hp ▸ h.running
  undrained := by
    intro left hl sid hs hnot
    obtain ⟨left', hl', hsub⟩ := hleft left hl
    rw [hp] at hs hnot
    rcases hsub sid (h.undrained left' hl' sid hs hnot) with hm | ⟨hd, -⟩
    · exact hm
    · rw [hnot] at hd
      cases hd
  live := by
    intro hl sid
    obtain ⟨left, hl⟩ := Option.isSome_iff_exists.mp hl
    obtain ⟨left', hl', -⟩ := hleft left hl
    rw [hp]
    exact h.live (by rw [hl']; rfl) sid
  batch := by
    rw [hp]
    exact hbatch
  underWay := by
    rw [hp]
    rcases hway with h0 | h1 | ⟨hl, hno⟩
    · exact Or.inl h0
    · exact Or.inr (Or.inl h1)
    · obtain ⟨left, hl⟩ := Option.isSome_iff_exists.mp hl
      obtain ⟨left', hl', hsub⟩ := hleft left hl
      rcases h.underWay with h0 | h1 | ⟨left'', hl'', sid, hm, hph⟩
      · exact Or.inl h0
      · rw [hno] at h1
        cases h1
      · rw [hl'] at hl''
        cases hl''
        rcases hsub sid hm with hm | ⟨-, hnot⟩
        · exact Or.inr (Or.inr ⟨left, hl, sid, hm, hph⟩)
        · exact absurd hph hnot

/-- Outside its loop the campaign thread has no batch. -/
theorem Main.no_batch {main : Main} (hl : main.left = none) {batch pending : List String}
    (h : main = .checking batch pending ∨ main = .draining batch pending) : False := by
  rcases h with rfl | rfl
  · exact nomatch hl
  · exact nomatch hl

/-- It leaves the loop and cancels what is queued. -/
theorem Watching.leave (h : Watching phase r) {main : Main} (hl : main.left = none)
    (hway : r.pool.shared.aborts = [] ∨ main.aborts = true) :
    Watching phase { r with pool := r.pool.cancelQueued, main := main } where
  follows := h.follows.cancelQueued
  sound := h.sound
  running := by
    intro sid hr
    refine h.running sid ?_
    have hr : (r.pool.threads sid).cancel.isRunning = true := hr
    cases ht : r.pool.threads sid with
    | running p => rfl
    | _ =>
      rw [ht] at hr
      exact nomatch hr
  undrained := by
    intro left hl'
    have hl' : main.left = some left := hl'
    rw [hl] at hl'
    exact nomatch hl'
  live := by
    intro hl'
    have hl' : main.left.isSome = true := hl'
    rw [hl] at hl'
    exact nomatch hl'
  batch := fun _ _ hb => (Main.no_batch hl hb).elim
  underWay := hway.imp_right Or.inl

/-- It leaves the loop and lets the pool finish, or is done with that. -/
theorem Watching.quit (h : Watching phase r) {main : Main} (hl : main.left = none)
    {writes : Nat} (hway : r.pool.shared.aborts = [] ∨ main.aborts = true) :
    Watching phase { r with main := main, pausedWrites := writes } := by
  refine h.ofMain rfl (fun left hl' => ?_) (fun _ _ hb => (Main.no_batch hl hb).elim)
    (hway.imp_right Or.inl)
  have hl' : main.left = some left := hl'
  rw [hl] at hl'
  exact nomatch hl'

theorem Watching.wait (h : Watching phase r) (batch : List String) :
    Watching phase (r.wait batch) := by
  unfold FanoutRun.wait
  cases hm : r.main with
  | waiting pending =>
    simp only
    split
    next hb =>
      refine h.ofMain rfl ?_ ?_ (Or.inr (Or.inr ⟨rfl, by rw [hm]; rfl⟩))
      · intro left hl
        cases hl
        refine ⟨pending, by rw [hm]; rfl, fun sid hs => Or.inl ?_⟩
        by_cases hsb : sid ∈ batch
        · exact List.mem_append_left _ hsb
        · exact List.mem_append_right _ (List.mem_filter.mpr ⟨hs, decide_eq_true hsb⟩)
      · intro batch' pending' hbatch sid hs
        rcases hbatch with hbatch | hbatch
        · cases hbatch
          exact (hb.2 sid hs).2
        · exact nomatch hbatch
    · exact h
  | _ => exact h

/-- Seen with no abort raised, a pause or cancel loses none. -/
theorem Watching.check (h : Watching phase r) {polled : Polled}
    (hg : polled.cancel = true ∨ polled.pause = true → r.pool.shared.aborts = []) :
    Watching phase (r.check polled) := by
  unfold FanoutRun.check
  cases hm : r.main with
  | checking batch pending =>
    simp only
    by_cases hc : polled.cancel = true
    · rw [if_pos hc]
      exact h.leave rfl (Or.inl (hg (Or.inl hc)))
    rw [if_neg hc]
    by_cases hp : polled.pause = true
    · rw [if_pos hp]
      exact h.quit rfl (Or.inl (hg (Or.inr hp)))
    · rw [if_neg hp]
      refine h.ofMain rfl ?_ ?_ (Or.inr (Or.inr ⟨rfl, by rw [hm]; rfl⟩))
      · intro left hl
        exact ⟨left, by rw [hm]; exact hl, fun sid hs => Or.inl hs⟩
      · intro batch' pending' hb
        rcases hb with hb | hb
        · exact nomatch hb
        · cases hb
          exact h.batch batch pending (Or.inl hm)
  | _ => exact h

/-- A drained future that carries an abort is raised; no other carries
anything that stops the loop. -/
theorem Watching.drained (h : Watching phase r) {step : Step} {sid : String}
    (hd : (r.pool.threads sid).isDone = true) (hl : r.main.left.isSome = true) :
    (phase sid ≠ .aborting ∧ ∃ errors,
        r.drainFuture step sid = ({ r with accountingErrors := errors }, none)) ∨
      ∃ e, e.isAbort = true ∧
        r.drainFuture step sid = ({ r with pool := r.pool.cancelQueued }, some e) := by
  have hf := h.follows sid
  cases ht : r.pool.threads sid with
  | queued p =>
    rw [ht] at hd
    cases hd
  | running p =>
    rw [ht] at hd
    cases hd
  | cancelled => exact absurd ht (h.live hl sid)
  | finished res =>
    rw [ht] at hf
    have hend : checkpointProtocol.ends (phase sid) (Prog.raised res) := hf
    cases hph : phase sid with
    | failed =>
      rw [hph] at hend
      exact hend.elim
    | written =>
      rw [hph] at hend
      exact hend.elim
    | idle =>
      rw [hph] at hend
      rcases @drainFuture_cases _ step r sid with heq | ⟨e, hfe, hraise⟩
      · exact Or.inl ⟨(by rintro ⟨⟩), _, heq⟩
      · rcases hraise with ⟨ha, heq⟩ | ⟨-, hi, -⟩
        · exact Or.inr ⟨e, ha, heq⟩
        · rw [ht] at hfe
          cases hfe
          have hcatch : e.isInterrupt = false := hend e rfl
          rw [hi] at hcatch
          cases hcatch
    | aborting =>
      rw [hph] at hend
      obtain ⟨e, he, ha⟩ := hend
      cases res with
      | ok u => cases he
      | error e' =>
        cases he
        exact Or.inr ⟨e, ha, by simp only [FanoutRun.drainFuture, ht, ha, if_true]⟩

theorem Watching.drain (h : Watching phase r) (step : Step) :
    Watching phase (r.drain step) := by
  unfold FanoutRun.drain
  cases hm : r.main with
  | draining batch pending =>
    have hno : r.main.aborts = false := by rw [hm]; rfl
    cases batch with
    | nil =>
      cases pending with
      | nil =>
        refine h.quit rfl (Or.inl ?_)
        rcases h.underWay with h0 | h1 | ⟨left, hl, sid, hs, -⟩
        · exact h0
        · rw [hno] at h1
          cases h1
        · rw [hm] at hl
          cases hl
          cases hs
      | cons first rest =>
        refine h.ofMain rfl ?_ ?_ (Or.inr (Or.inr ⟨rfl, hno⟩))
        · intro left hl
          cases hl
          exact ⟨_, by rw [hm]; rfl, fun sid hs => Or.inl hs⟩
        · intro batch' pending' hb
          rcases hb with hb | hb
          · cases hb
          · cases hb
    | cons sid rest =>
      have hd := h.batch _ _ (Or.inr hm) sid List.mem_cons_self
      rcases @Watching.drained phase r h step sid hd (by rw [hm]; rfl) with
        ⟨hph, errors, heq⟩ | ⟨e, ha, heq⟩
      · simp only [heq]
        refine h.ofMain rfl ?_ ?_ (Or.inr (Or.inr ⟨rfl, hno⟩))
        · intro left hl
          cases hl
          refine ⟨_, by rw [hm]; rfl, fun sid' hs => ?_⟩
          rcases List.mem_cons.mp hs with rfl | hs
          · exact Or.inr ⟨hd, hph⟩
          · exact Or.inl hs
        · intro batch' pending' hb sid' hs
          rcases hb with hb | hb
          · cases hb
          · cases hb
            exact h.batch _ _ (Or.inr hm) sid' (List.mem_cons_of_mem _ hs)
      · simp only [heq]
        exact h.leave rfl (Or.inr ha)
  | _ => exact h

theorem Watching.join (h : Watching phase r) : Watching phase r.join := by
  have hway : r.main.left = none →
      r.pool.shared.aborts = [] ∨ r.main.aborts = true := by
    intro hnone
    rcases h.underWay with h0 | h1 | ⟨left, hl, -⟩
    · exact Or.inl h0
    · exact Or.inr h1
    · rw [hnone] at hl
      exact nomatch hl
  unfold FanoutRun.join
  cases hm : r.main with
  | joining outcome =>
    rw [hm] at hway
    simp only
    split
    · cases outcome with
      | ok u => exact h.quit rfl (hway rfl)
      | error e => exact h.quit rfl (hway rfl)
    · exact h
  | leaving =>
    rw [hm] at hway
    exact h.quit rfl (hway rfl)
  | _ => exact h

/-- A guarded step keeps the invariant. -/
theorem Watching.step (h : Watching phase r) (maxWorkers : Nat) {e : Event}
    (hg : Guarded r e) :
    ∃ phase', Watching phase' (FanoutRun.step cfg.step (recorderHandler script cfg.step)
      maxWorkers r e) := by
  cases e with
  | start => exact ⟨phase, h.start maxWorkers⟩
  | advance sid => exact h.advance hg
  | wait batch => exact ⟨phase, h.wait batch⟩
  | check polled => exact ⟨phase, h.check hg⟩
  | drain => exact ⟨phase, h.drain cfg.step⟩
  | join => exact ⟨phase, h.join⟩

end Watching

/-! ## A call of the fan-out -/

namespace Submissions

variable (subs : Submissions) (cfg : FanoutConfig) (W : String → SampleWorld)
  (failures : Nat)

/-- What the samples share once they are enqueued. -/
def recorder : Recorder := Recorder.fresh (subs.enqueued cfg W) failures

/-- The call with `max_workers <= 1`, over `checkpoint_sample`. -/
def sequentialCheckpointing (polled : Nat → Polled) (cancelled : Bool) :
    Ended Recorder :=
  if subs.sids = [] then ⟨.ok (), 0, [], subs.recorder cfg W failures⟩
  else sequentialLoop (recorderHandler subs.script cfg.step) cfg.checkpointing.awaitOne
    polled cancelled subs.sids 0 (subs.recorder cfg W failures)

/-- The call with a pool, about to wait. -/
def beginCheckpointing : FanoutRun Recorder :=
  FanoutRun.begin subs.sids cfg.checkpointing.awaitOne (subs.recorder cfg W failures)

/-- One event of that call. -/
def stepCheckpointing (maxWorkers : Nat) : FanoutRun Recorder → Event → FanoutRun Recorder :=
  FanoutRun.step cfg.step (recorderHandler subs.script cfg.step) maxWorkers

end Submissions

/-- Three samples whose checkpoints all fail to write. -/
def failingSubmissions : Submissions where
  sids := ["0001", "0002", "0003"]
  nodup := by decide
  script _ := { smoothScript with updateSample := fun _ => .raises "disk full" }

/-- One after the other, each to its end. -/
def threeInTurn : List Event :=
  List.replicate 3 .start ++ List.replicate 9 (.advance "0001") ++
    List.replicate 9 (.advance "0002") ++ List.replicate 9 (.advance "0003")

end OSimFlow.Fanout
