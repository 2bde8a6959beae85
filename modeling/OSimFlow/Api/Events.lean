import Mathlib.Data.List.Nodup
import OSimFlow.Lib.Instances
import OSimFlow.Lib.Run

/-!
# `GET /events`: the stream of `run.json`

`_event_generator` polls `run.json` and emits what `diff_events` finds between
the last snapshot and this one. A poll at which the file is torn, locked out
or missing reads as `{}`, and that empty object becomes the last snapshot too:
the next readable one is compared with nothing, and all it holds is emitted
again. And `diff_events` knows a step by its name, so a step of a name it has
seen is never reported, though each generation appends one.

> `exactlyOnce_iff`: over a growing `run.json` every change is reported once,
> at every moment of the stream, exactly if no poll is of these two kinds.
>
> `torn_read_repeats_step`: one unreadable poll, and a step is reported twice.

Heartbeat pings carry no data and are left out.
-/

namespace OSimFlow.Events

open OSimFlow.Lib (run Always Along run_cons always_iff always_iff_along_given along_map)

/-! ## Snapshots and events -/

/-- An entry of `steps`. -/
structure StepEntry (V : Type) where
  step : Option String
  data : V
deriving DecidableEq

/-- A row of `per_sample`. -/
structure Row (V : Type) where
  sampleId : String
  status : Option String
  errorSummary : Option V
  data : V
deriving DecidableEq

/-- The keys of `run.json` that `diff_events` reads, and the other ones. -/
structure Snapshot (V : Type) where
  campaignId : Option V := none
  finishedAt : Option V := none
  elapsedS : Option V := none
  steps : List (StepEntry V) := []
  perSample : List (Row V) := []
  others : List (String × V) := []
deriving DecidableEq

/-- `{}`. -/
def Snapshot.empty {V : Type} : Snapshot V := {}

inductive Event (V : Type) where
  | campaignCompleted (campaignId finishedAt elapsedS : Option V)
  | stepCompleted (data : StepEntry V)
  | sampleStarted (data : Row V)
  | sampleCompleted (data : Row V)
  | sampleError (sampleId : String) (errorSummary : Option V)
deriving DecidableEq

variable {V : Type}

/-- `status in ("ok", "failed", "cached")`. -/
def finished (status : Option String) : Bool :=
  status = some "ok" || status = some "failed" || status = some "cached"

/-! ## `diff_events` -/

/-- `old_samples.get(sid)`; of two rows with one id the dictionary has the last. -/
def oldSample (old : List (Row V)) (sid : String) : Option (Row V) :=
  old.reverse.find? fun row => decide (row.sampleId = sid)

/-- `sample.completed`, and `sample.error` behind it for a failure. -/
def completion (sample : Row V) : List (Event V) :=
  .sampleCompleted sample ::
    if sample.status = some "failed" then
      [.sampleError sample.sampleId sample.errorSummary]
    else []

/-- The events of one row. -/
def sampleEvents (old : List (Row V)) (sample : Row V) : List (Event V) :=
  match oldSample old sample.sampleId with
  | none => if finished sample.status then completion sample else [.sampleStarted sample]
  | some row =>
    if row.status ≠ sample.status ∧ finished sample.status then completion sample else []

attribute [local instance] Lib.lawfulBEq_option in
def stepEvents (old new : List (StepEntry V)) : List (Event V) :=
  (new.filter fun entry => entry.step ∉ old.map StepEntry.step).map .stepCompleted

def campaignEvents (old new : Snapshot V) : List (Event V) :=
  if old.finishedAt.isNone ∧ new.finishedAt.isSome then
    [.campaignCompleted new.campaignId new.finishedAt new.elapsedS]
  else []

def diffEvents (old new : Snapshot V) : List (Event V) :=
  campaignEvents old new ++ stepEvents old.steps new.steps ++
    new.perSample.flatMap (sampleEvents old.perSample)

/-! ## `_event_generator` -/

/-- What the generator keeps between two polls, and what it has yielded. -/
structure Stream (V : Type) where
  lastSnapshot : Snapshot V
  events : List (Event V)

/-- `_read_json_with_lock`: a file that cannot be read is `{}`. -/
def readJson (file : Option (Snapshot V)) : Snapshot V := file.getD .empty

/-- One turn of the loop. -/
def poll [DecidableEq V] (s : Stream V) (file : Option (Snapshot V)) : Stream V :=
  if readJson file ≠ s.lastSnapshot then
    ⟨readJson file, s.events ++ diffEvents s.lastSnapshot (readJson file)⟩
  else s

/-- The stream after some polls. -/
def stream [DecidableEq V] (polls : List (Option (Snapshot V))) : Stream V :=
  run poll ⟨.empty, []⟩ polls

/-! ## What is to be reported -/

/-- The row is finished, and was not so, with this status, before. -/
def Completed (old : List (Row V)) (sample : Row V) : Prop :=
  finished sample.status ∧
    ∀ row ∈ old, row.sampleId = sample.sampleId → row.status ≠ sample.status

/-- No row had this id before. -/
def FirstSeen (old : List (Row V)) (sample : Row V) : Prop :=
  ∀ row ∈ old, row.sampleId ≠ sample.sampleId

instance (old : List (Row V)) (sample : Row V) : Decidable (Completed old sample) :=
  inferInstanceAs (Decidable (_ ∧ _))

instance (old : List (Row V)) (sample : Row V) : Decidable (FirstSeen old sample) :=
  inferInstanceAs (Decidable (∀ row ∈ old, _))

/-- The events a row is due. -/
def dueSample (old : List (Row V)) (sample : Row V) : List (Event V) :=
  (if Completed old sample then [.sampleCompleted sample] else []) ++
  (if Completed old sample ∧ sample.status = some "failed" then
    [.sampleError sample.sampleId sample.errorSummary] else []) ++
  (if FirstSeen old sample ∧ ¬ finished sample.status then [.sampleStarted sample] else [])

/-- The events due between two readable snapshots: the end of the campaign, the steps
that were appended, the rows that finished and the rows that are new. -/
def dueEvents (seen new : Snapshot V) : List (Event V) :=
  (if seen.finishedAt.isNone ∧ new.finishedAt.isSome then
    [.campaignCompleted new.campaignId new.finishedAt new.elapsedS] else []) ++
  (new.steps.drop seen.steps.length).map .stepCompleted ++
  new.perSample.flatMap (dueSample seen.perSample)

/-- What a reader who sees the readable snapshots knows: the last of them, whether a poll
has failed since, and all that was due. -/
structure Observed (V : Type) where
  seen : Snapshot V
  torn : Bool
  due : List (Event V)

def observe (r : Observed V) : Option (Snapshot V) → Observed V
  | none => { r with torn := true }
  | some new => ⟨new, false, r.due ++ dueEvents r.seen new⟩

def Observed.start : Observed V := ⟨.empty, false, []⟩

/-- Every change is reported once, and nothing else is, at every moment. -/
def ExactlyOnce [DecidableEq V] (polls : List (Option (Snapshot V))) : Prop :=
  ∀ n, (stream (polls.take n)).events.Perm (run observe .start (polls.take n)).due

/-- How `run.json` grows: steps are appended, rows are added or change, `finished_at` is
set once. -/
structure Grows (old new : Snapshot V) : Prop where
  steps : old.steps <+: new.steps
  rows : ∀ row ∈ old.perSample, row.sampleId ∈ new.perSample.map Row.sampleId
  ids : (new.perSample.map Row.sampleId).Nodup
  finished : old.finishedAt.isSome → new.finishedAt = old.finishedAt

/-- Each readable snapshot grows from the one before. -/
def Growing (polls : List (Option (Snapshot V))) : Prop :=
  Along observe (fun r file => ∀ new, file = some new → Grows r.seen new) .start polls

/-! ## When the stream is right -/

/-- No appended step has the name of one that was there. -/
def NewNames (seen new : Snapshot V) : Prop :=
  ∀ entry ∈ new.steps.drop seen.steps.length, entry.step ∉ seen.steps.map StepEntry.step

/-- Nothing is emitted again when the comparison starts from `{}`: there was no step and no
end, and every row that was there has finished with another status. -/
structure NothingRepeated (seen new : Snapshot V) : Prop where
  finishedAt : seen.finishedAt = none
  steps : seen.steps = []
  rows : ∀ sample ∈ new.perSample, FirstSeen seen.perSample sample ∨
    Completed seen.perSample sample

/-- The condition on a poll. -/
def Undisturbed (r : Observed V) (file : Option (Snapshot V)) : Prop :=
  ∀ new, file = some new →
    if r.torn then NothingRepeated r.seen new else NewNames r.seen new

/-! ## One comparison -/

theorem oldSample_eq_none {old : List (Row V)} {sid : String} :
    oldSample old sid = none ↔ ∀ row ∈ old, row.sampleId ≠ sid := by
  unfold oldSample
  rw [List.find?_eq_none]
  constructor
  · intro h row hrow
    simpa using h row (List.mem_reverse.mpr hrow)
  · intro h row hrow
    simpa using h row (List.mem_reverse.mp hrow)

theorem mem_of_oldSample {old : List (Row V)} {sid : String} {row : Row V}
    (h : oldSample old sid = some row) : row ∈ old ∧ row.sampleId = sid := by
  refine ⟨List.mem_reverse.mp (List.mem_of_find?_eq_some h), ?_⟩
  simpa using List.find?_some h

/-- Rows of distinct ids are told apart by them. -/
theorem row_unique {old : List (Row V)} (hids : (old.map Row.sampleId).Nodup) {row row' : Row V}
    (hrow : row ∈ old) (hrow' : row' ∈ old) (h : row.sampleId = row'.sampleId) : row = row' :=
  List.inj_on_of_nodup_map hids hrow hrow' h

/-- With distinct ids the rows are compared as they should be. -/
theorem sampleEvents_eq_due {old : List (Row V)} (hids : (old.map Row.sampleId).Nodup)
    (sample : Row V) : sampleEvents old sample = dueSample old sample := by
  unfold sampleEvents dueSample
  cases hold : oldSample old sample.sampleId with
  | none =>
    have hfirst : FirstSeen old sample := oldSample_eq_none.mp hold
    by_cases hfin : finished sample.status = true
    · have hcompleted : Completed old sample :=
        ⟨hfin, fun row hrow hid => absurd hid (hfirst row hrow)⟩
      simp [hfin, hcompleted, completion]
    · have hcompleted : ¬ Completed old sample := fun h => hfin h.1
      simp [hfin, hcompleted, hfirst]
  | some row =>
    obtain ⟨hrow, hid⟩ := mem_of_oldSample hold
    have hfirst : ¬ FirstSeen old sample := fun h => h row hrow hid
    by_cases hc : row.status ≠ sample.status ∧ finished sample.status = true
    · have hcompleted : Completed old sample := by
        refine ⟨hc.2, fun row' hrow' hid' => ?_⟩
        rw [row_unique hids hrow' hrow (hid'.trans hid.symm)]
        exact hc.1
      simp [hc, hcompleted, hfirst, completion]
    · have hcompleted : ¬ Completed old sample := fun h => hc ⟨h.2 row hrow hid, h.1⟩
      simp [hc, hcompleted, hfirst]

/-- A row is due nothing, or just what the comparison with `{}` emits. -/
theorem dueSample_cases (old : List (Row V)) (sample : Row V) :
    (FirstSeen old sample ∨ Completed old sample) ∧
      dueSample old sample = sampleEvents [] sample ∨
    ¬ (FirstSeen old sample ∨ Completed old sample) ∧ dueSample old sample = [] := by
  have hnil : sampleEvents [] sample =
      if finished sample.status then completion sample else [.sampleStarted sample] := rfl
  rw [hnil]
  unfold dueSample
  by_cases hfin : finished sample.status = true
  · by_cases hc : Completed old sample
    · exact .inl ⟨.inr hc, by simp [hc, hfin, completion]⟩
    · have hf : ¬ FirstSeen old sample :=
        fun h => hc ⟨hfin, fun row hrow hid => absurd hid (h row hrow)⟩
      exact .inr ⟨fun h => h.elim hf hc, by simp [hc, hf]⟩
  · have hc : ¬ Completed old sample := fun h => hfin h.1
    by_cases hf : FirstSeen old sample
    · exact .inl ⟨.inl hf, by simp [hc, hf, hfin]⟩
    · exact .inr ⟨fun h => h.elim hf hc, by simp [hc, hf]⟩

theorem sampleEvents_nil_ne_nil (sample : Row V) : sampleEvents [] sample ≠ [] := by
  show (if finished sample.status then completion sample else [.sampleStarted sample]) ≠ []
  split <;> exact List.cons_ne_nil _ _

/-- Lists of lists that are at most as long each: as long together, as long each. -/
theorem length_flatMap_eq {α β : Type} {f g : α → List β} {l : List α}
    (hle : ∀ a ∈ l, (f a).length ≤ (g a).length) :
    (l.flatMap f).length ≤ (l.flatMap g).length ∧
    ((l.flatMap f).length = (l.flatMap g).length → ∀ a ∈ l, (f a).length = (g a).length) := by
  induction l with
  | nil => exact ⟨Nat.le_refl _, nofun⟩
  | cons a l ih =>
    obtain ⟨hl, heq⟩ := ih fun b hb => hle b (List.mem_cons_of_mem _ hb)
    have ha := hle a List.mem_cons_self
    rw [List.flatMap_cons, List.flatMap_cons, List.length_append, List.length_append]
    refine ⟨by omega, fun h b hb => ?_⟩
    rcases List.mem_cons.mp hb with rfl | hb
    · omega
    · exact heq (by omega) b hb

/-! ## One poll -/

/-- The comparison of a snapshot with the one before it: right exactly when the names of the
appended steps are new. -/
theorem diffEvents_perm_iff {seen new : Snapshot V} (hgrows : Grows seen new)
    (hids : (seen.perSample.map Row.sampleId).Nodup) :
    (diffEvents seen new).Perm (dueEvents seen new) ↔ NewNames seen new := by
  obtain ⟨added, hadded⟩ := hgrows.steps
  have hdrop : new.steps.drop seen.steps.length = added := by
    rw [← hadded, List.drop_left]
  -- the entries that were there are filtered out by their names
  have hsteps : stepEvents seen.steps new.steps =
      (added.filter fun entry => entry.step ∉ seen.steps.map StepEntry.step).map
        Event.stepCompleted := by
    have hold : (seen.steps.filter fun entry =>
        entry.step ∉ seen.steps.map StepEntry.step) = [] := by
      rw [List.filter_eq_nil_iff]
      intro entry hentry h
      exact of_decide_eq_true h (List.mem_map_of_mem hentry)
    rw [stepEvents, ← hadded, List.filter_append, hold, List.nil_append]
  have hsamples : new.perSample.flatMap (sampleEvents seen.perSample) =
      new.perSample.flatMap (dueSample seen.perSample) := by
    rw [funext (sampleEvents_eq_due hids)]
  unfold diffEvents dueEvents campaignEvents NewNames
  rw [hsteps, hsamples, hdrop, List.append_assoc, List.append_assoc, List.perm_append_left_iff,
    List.perm_append_right_iff]
  constructor
  · intro h entry hentry
    have hlen := h.length_eq
    rw [List.length_map, List.length_map] at hlen
    have hall := List.length_filter_eq_length_iff.mp hlen entry hentry
    exact of_decide_eq_true hall
  · intro h
    rw [List.filter_eq_self.mpr fun entry hentry => decide_eq_true (h entry hentry)]

/-- The comparison with `{}`: right exactly when it repeats nothing. -/
theorem diffEvents_empty_perm_iff {seen new : Snapshot V} (hgrows : Grows seen new) :
    (diffEvents .empty new).Perm (dueEvents seen new) ↔ NothingRepeated seen new := by
  have hsteps : stepEvents (Snapshot.empty (V := V)).steps new.steps =
      new.steps.map .stepCompleted := by
    have hall : new.steps.filter (fun entry => entry.step ∉ []) = new.steps :=
      List.filter_eq_self.mpr fun entry _ => decide_eq_true (List.not_mem_nil)
    exact congrArg (List.map Event.stepCompleted) hall
  have hrows : ∀ sample ∈ new.perSample,
      (dueSample seen.perSample sample).length ≤ (sampleEvents [] sample).length := by
    intro sample _
    rcases dueSample_cases seen.perSample sample with ⟨-, h⟩ | ⟨-, h⟩
    · exact Nat.le_of_eq (congrArg List.length h)
    · rw [h]
      exact Nat.zero_le _
  obtain ⟨hsum, heach⟩ := length_flatMap_eq hrows
  unfold diffEvents dueEvents
  rw [hsteps]
  constructor
  · intro h
    have hlen := h.length_eq
    simp only [List.length_append, List.length_map, List.length_drop] at hlen
    have hle := hgrows.steps.length_le
    have hcampaign : (if seen.finishedAt.isNone ∧ new.finishedAt.isSome then
        [Event.campaignCompleted new.campaignId new.finishedAt new.elapsedS] else []).length ≤
        (campaignEvents .empty new).length := by
      unfold campaignEvents
      by_cases hn : new.finishedAt.isSome = true
      · by_cases hs : seen.finishedAt.isNone = true <;> simp [hn, hs, Snapshot.empty]
      · simp [hn]
    have hempty : (Snapshot.empty (V := V)).perSample = [] := rfl
    rw [hempty] at hlen
    refine ⟨?_, ?_, ?_⟩
    · -- an end that was there is still there
      by_contra hfin
      have hs : seen.finishedAt.isSome = true := Option.isSome_iff_ne_none.mpr hfin
      have hn : new.finishedAt.isSome = true := by rw [hgrows.finished hs, hs]
      have hone : (campaignEvents .empty new).length = 1 := by
        simp [campaignEvents, hn, Snapshot.empty]
      have hzero : ¬ (seen.finishedAt.isNone = true ∧ new.finishedAt.isSome = true) := by
        simp [hfin]
      rw [if_neg hzero, hone, List.length_nil] at hlen
      omega
    · exact List.eq_nil_of_length_eq_zero (by omega)
    · intro sample hsample
      by_contra hnot
      have hlen' := heach (by omega) sample hsample
      rcases dueSample_cases seen.perSample sample with ⟨h, -⟩ | ⟨-, h⟩
      · exact hnot h
      · rw [h, List.length_nil] at hlen'
        exact sampleEvents_nil_ne_nil sample (List.eq_nil_of_length_eq_zero hlen'.symm)
  · intro h
    have hsamples : new.perSample.flatMap (sampleEvents (Snapshot.empty (V := V)).perSample) =
        new.perSample.flatMap (dueSample seen.perSample) := by
      refine List.flatMap_congr fun sample hsample => ?_
      rcases dueSample_cases seen.perSample sample with ⟨-, he⟩ | ⟨hn, -⟩
      · exact he.symm
      · exact absurd (h.rows sample hsample) hn
    have hcampaign : campaignEvents .empty new =
        if seen.finishedAt.isNone ∧ new.finishedAt.isSome then
          [Event.campaignCompleted new.campaignId new.finishedAt new.elapsedS] else [] := by
      rw [h.finishedAt]
      rfl
    rw [hsamples, hcampaign, h.steps]
    exact List.Perm.refl _

/-- A snapshot compared with itself: nothing. -/
theorem diffEvents_self {new : Snapshot V} (hids : (new.perSample.map Row.sampleId).Nodup) :
    diffEvents new new = [] := by
  have hcampaign : campaignEvents new new = [] := by
    unfold campaignEvents
    cases new.finishedAt <;> rfl
  have hsteps : stepEvents new.steps new.steps = [] := by
    unfold stepEvents
    rw [List.map_eq_nil_iff, List.filter_eq_nil_iff]
    intro entry hentry h
    exact of_decide_eq_true h (List.mem_map_of_mem hentry)
  have hsamples : new.perSample.flatMap (sampleEvents new.perSample) = [] := by
    rw [List.flatMap_eq_nil_iff]
    intro sample hsample
    rw [sampleEvents_eq_due hids]
    rcases dueSample_cases new.perSample sample with ⟨h | h, -⟩ | ⟨-, h⟩
    · exact absurd rfl (h sample hsample)
    · exact absurd rfl (h.2 sample hsample rfl)
    · exact h
  rw [diffEvents, hcampaign, hsteps, hsamples]
  rfl

/-! ## The whole stream -/

section

variable [DecidableEq V]

/-- One poll of the generator, with what was due beside it. -/
def watch (w : Stream V × Observed V) (file : Option (Snapshot V)) : Stream V × Observed V :=
  (poll w.1 file, observe w.2 file)

theorem run_watch (w : Stream V × Observed V) (polls : List (Option (Snapshot V))) :
    run watch w polls = (run poll w.1 polls, run observe w.2 polls) := by
  induction polls generalizing w with
  | nil => rfl
  | cons file polls ih =>
    rw [run_cons, run_cons, run_cons]
    exact ih _

/-- The generator compares with the last readable snapshot, or, behind a failed poll, with
`{}`. -/
structure Follows (w : Stream V × Observed V) : Prop where
  last : w.1.lastSnapshot = if w.2.torn then .empty else w.2.seen
  ids : (w.2.seen.perSample.map Row.sampleId).Nodup

/-- A failed poll emits nothing. -/
theorem poll_none_events (s : Stream V) : (poll s none).events = s.events := by
  unfold poll
  split
  · show s.events ++ diffEvents s.lastSnapshot .empty = s.events
    have hnone : diffEvents s.lastSnapshot .empty = [] := by
      unfold diffEvents campaignEvents stepEvents Snapshot.empty
      simp
    rw [hnone, List.append_nil]
  · rfl

theorem poll_last (s : Stream V) (file : Option (Snapshot V)) :
    (poll s file).lastSnapshot = readJson file := by
  unfold poll
  split
  · rfl
  case isFalse h => exact (of_not_not h).symm

/-- A readable poll emits the comparison. -/
theorem poll_some_events (s : Stream V) {new : Snapshot V}
    (hids : (new.perSample.map Row.sampleId).Nodup) :
    (poll s (some new)).events = s.events ++ diffEvents s.lastSnapshot new := by
  unfold poll
  split
  · rfl
  case isFalse h =>
    rw [← of_not_not h]
    show s.events = s.events ++ diffEvents new new
    rw [diffEvents_self hids, List.append_nil]

def Stream.start : Stream V := ⟨.empty, []⟩

omit [DecidableEq V] in
theorem follows_start : Follows (V := V) (.start, .start) := ⟨rfl, List.nodup_nil⟩

theorem Follows.watch {w : Stream V × Observed V} {file : Option (Snapshot V)} (h : Follows w)
    (hgrows : ∀ new, file = some new → Grows w.2.seen new) : Follows (watch w file) := by
  cases file with
  | none => exact ⟨poll_last w.1 none, h.ids⟩
  | some new => exact ⟨poll_last w.1 (some new), (hgrows new rfl).ids⟩

/-- Where all was right so far, it is right after a poll exactly if the poll is undisturbed. -/
theorem watch_perm_iff {w : Stream V × Observed V} {file : Option (Snapshot V)} (h : Follows w)
    (hgrows : ∀ new, file = some new → Grows w.2.seen new)
    (hsofar : w.1.events.Perm w.2.due) :
    (watch w file).1.events.Perm (watch w file).2.due ↔ Undisturbed w.2 file := by
  cases file with
  | none =>
    show (poll w.1 none).events.Perm w.2.due ↔ _
    rw [poll_none_events]
    exact ⟨fun _ _ => nofun, fun _ => hsofar⟩
  | some new =>
    have hg := hgrows new rfl
    show (poll w.1 (some new)).events.Perm (w.2.due ++ dueEvents w.2.seen new) ↔ _
    rw [poll_some_events w.1 hg.ids, (hsofar.append_right _).congr_left,
      List.perm_append_left_iff, h.last]
    have hhere : Undisturbed w.2 (some new) ↔
        if w.2.torn then NothingRepeated w.2.seen new else NewNames w.2.seen new :=
      ⟨fun hu => hu new rfl, fun hu _ heq => Option.some.inj heq ▸ hu⟩
    rw [hhere]
    by_cases ht : w.2.torn = true
    · rw [if_pos ht, if_pos ht]
      exact diffEvents_empty_perm_iff hg
    · rw [if_neg ht, if_neg ht]
      exact diffEvents_perm_iff hg h.ids

/-- Over every sequence of polls of a growing `run.json`: the events are those due, each
once, at every moment, exactly if every readable poll adds only steps of new names, or,
behind a failed poll, has nothing to repeat. -/
theorem exactlyOnce_iff (polls : List (Option (Snapshot V))) (hgrowing : Growing polls) :
    ExactlyOnce polls ↔ Along observe Undisturbed .start polls := by
  have hmoments : ExactlyOnce polls ↔
      Always watch (fun w => w.1.events.Perm w.2.due) (.start, .start) polls := by
    rw [always_iff]
    exact forall_congr' fun n => by
      rw [run_watch]
      rfl
  have hgrowing' : Along watch (fun w file => ∀ new, file = some new → Grows w.2.seen new)
      (.start, .start) polls :=
    (along_map observe Prod.snd (fun _ _ => rfl) _ (Stream.start, Observed.start) polls).mp
      hgrowing
  have hguard : Along observe Undisturbed .start polls ↔
      Along watch (fun w file => Undisturbed w.2 file) (.start, .start) polls :=
    along_map observe Prod.snd (fun _ _ => rfl) Undisturbed (Stream.start, Observed.start) polls
  rw [hmoments, hguard]
  have hinv : ∀ (w : Stream V × Observed V) file, Follows w →
      (∀ new, file = some new → Grows w.2.seen new) → Follows (watch w file) :=
    fun _ _ hf hg => hf.watch hg
  exact always_iff_along_given watch hinv (fun _ _ hf hg hd => watch_perm_iff hf hg hd)
    follows_start (List.Perm.refl _) hgrowing'

end

/-! ## Two recordings -/

/-- The first step and a running sample, then the second step and the end of the sample. -/
def twoPolls : List (Option (Snapshot String)) :=
  [some { steps := [⟨some "GENERATE", ""⟩], perSample := [⟨"0001", some "running", none, ""⟩] },
    some { steps := [⟨some "GENERATE", ""⟩, ⟨some "SIMULATE", ""⟩],
           perSample := [⟨"0001", some "failed", some "exit 1", ""⟩] }]

theorem exactlyOnce_twoPolls : ExactlyOnce twoPolls := by
  refine (exactlyOnce_iff twoPolls ⟨?_, ?_, trivial⟩).mpr ⟨?_, ?_, trivial⟩
  · rintro _ ⟨⟩
    exact ⟨by decide, nofun, by decide, nofun⟩
  · rintro _ ⟨⟩
    exact ⟨by decide, by decide, by decide, nofun⟩
  · rintro _ ⟨⟩
    show NewNames _ _
    unfold NewNames
    decide
  · rintro _ ⟨⟩
    show NewNames _ _
    unfold NewNames
    decide

/-- One unreadable poll between two readings of the same file: the step is reported again. -/
def tornPolls : List (Option (Snapshot String)) :=
  [some { steps := [⟨some "GENERATE", ""⟩] }, none, some { steps := [⟨some "GENERATE", ""⟩] }]

theorem torn_read_repeats_step : Growing tornPolls ∧ ¬ ExactlyOnce tornPolls := by
  refine ⟨⟨?_, nofun, ?_, trivial⟩, fun h => ?_⟩
  · rintro _ ⟨⟩
    exact ⟨by decide, nofun, by decide, nofun⟩
  · rintro _ ⟨⟩
    exact ⟨by decide, nofun, by decide, nofun⟩
  · exact absurd (h 3).length_eq (by decide)

end OSimFlow.Events
