import Mathlib
import OSimFlow.Queues.Recovery

/-!
# The filesystem job queue without crashes

A call that nothing interrupts does one of three things to the files (`Effect`): nothing, a new
file in `pending`, or a move of one file. So every job that was ever enqueued has one file, in
one of the four directories, and it never comes back to one that it left.

> `queue_in_order`: `dequeue` returns the first of the pending jobs by priority and then by age,
> and no job twice; completed and failed jobs stay where they are; and the four directories
> together hold as many jobs as were enqueued.
-/

namespace OSimFlow.Queues.JobQueue

open OSimFlow.Lib

variable {Payload : Type}

/-! ## Runs without crashes -/

/-- What `dequeue` returns. -/
def returned (q : JobQueue Payload) : QueueCall Payload → Option (String × JobRecord Payload)
  | .dequeue listing now =>
    if listing.Perm (q.files .pending).keys then (q.dequeue listing now).2 else none
  | _ => none

/-- The job a call asks to be enqueued. -/
def newId : QueueCall Payload → Option String
  | .enqueue id _ _ _ => some id
  | _ => none

/-- One call after the other, to its end. -/
def afterCalls (q : JobQueue Payload) (calls : List (QueueCall Payload)) : JobQueue Payload :=
  run step q (calls.map fun c => .call c none)

/-- The ids that `dequeue` returned, in order. -/
def dequeued (q : JobQueue Payload) : List (QueueCall Payload) → List String
  | [] => []
  | c :: calls => (q.returned c).toList.map Prod.fst ++ dequeued (q.step (.call c none)) calls

/-- `STATES`. -/
def states : List JobState := [.pending, .inProgress, .completed, .failed]

/-- `job_count`, for one state. -/
def jobCount (q : JobQueue Payload) (state : JobState) : Nat := (q.files state).keys.length

/-! ## What is wanted -/

/-- What is returned is the first of the pending jobs; nothing, if there is none. -/
def PicksFirst (q : JobQueue Payload) (now : Int) :
    Option (String × JobRecord Payload) → Prop
  | none => ∀ id, q.file .pending id = none
  | some (id, record) => ∃ old, q.file .pending id = some (.record old) ∧
      record = { old with state := .inProgress, startedAt := some now } ∧
      ∀ id' other, q.file .pending id' = some (.record other) →
        other.priority < old.priority ∨
          other.priority = old.priority ∧ old.createdAt ≤ other.createdAt

/-- A job in `completed` or `failed` stays there. -/
def Absorbs (q q' : JobQueue Payload) : Prop :=
  ∀ state id f, state = .completed ∨ state = .failed → q.file state id = some f →
    q'.file state id = some f

/-! ## What a call does -/

/-- Between calls: nothing is broken, and no job has two files. -/
structure Orderly (q : JobQueue Payload) : Prop where
  up : q.down = false
  legible : ∀ state id f, q.file state id = some f → ∃ record, f = .record record
  single : ∀ state state' id, (q.file state id).isSome → (q.file state' id).isSome → state = state'

/-- The effect of a call on the files, with what it returns. -/
inductive Effect (q : JobQueue Payload) (c : QueueCall Payload) (q' : JobQueue Payload) : Prop where
  | idle (hfile : ∀ state id, q'.file state id = q.file state id) (hret : q.returned c = none)
      (hnew : ∀ id, newId c = some id → ∃ state, (q.file state id).isSome)
  | created (id : String) (record : JobRecord Payload) (hnew : newId c = some id)
      (hret : q.returned c = none) (hnone : ∀ state, q.file state id = none)
      (hfile : ∀ state id', q'.file state id' =
        if state = .pending ∧ id' = id then some (.record record) else q.file state id')
  | moved (src dst : JobState) (id : String) (record : JobRecord Payload)
      (hsrc : src = .pending ∨ src = .inProgress) (hdst : dst ≠ .pending) (hne : dst ≠ src)
      (hold : (q.file src id).isSome) (hnew : newId c = none)
      (hret : ∀ job, q.returned c = some job → job.1 = id ∧ src = .pending)
      (hfile : ∀ state id', q'.file state id' =
        if id' = id ∧ state = dst then some (.record record)
        else if id' = id ∧ state = src then none else q.file state id')

theorem step_whole {q : JobQueue Payload} (hup : q.down = false) (c : QueueCall Payload) :
    q.step (.call c none) = { q.performAll (q.ops c) with down := false } :=
  if_pos (Or.inl hup)

theorem down_step {q : JobQueue Payload} (hup : q.down = false) (c : QueueCall Payload) :
    (q.step (.call c none)).down = false := by
  rw [step_whole hup]

theorem step_of_ops_nil {q : JobQueue Payload} (hup : q.down = false) {c : QueueCall Payload}
    (hops : q.ops c = []) (state : JobState) (id : String) :
    (q.step (.call c none)).file state id = q.file state id := by
  rw [step_whole hup, hops]
  rfl

theorem step_of_ops_move {q : JobQueue Payload} (hup : q.down = false) {c : QueueCall Payload}
    {dst src : JobState} (hne : dst ≠ src) {id : String} {record : JobRecord Payload}
    (hops : q.ops c = moveOps dst src id record) (state : JobState) (id' : String) :
    (q.step (.call c none)).file state id' =
      if id' = id ∧ state = dst then some (.record record)
      else if id' = id ∧ state = src then none else q.file state id' := by
  rw [step_whole hup, hops]
  have hmove := file_move (q := q) hne id record (Nat.le_refl 3) state id'
  exact hmove

theorem effect_enqueue {q : JobQueue Payload} (hup : q.down = false) (id : String)
    (payload : Payload) (priority now : Int) :
    Effect q (.enqueue id payload priority now)
      (q.step (.call (.enqueue id payload priority now) none)) := by
  cases hfind : q.findJob id with
  | some state =>
    have hops : q.ops (.enqueue id payload priority now) = [] := by
      show (q.enqueue id payload priority now).1 = []
      rw [enqueue, hfind]
    refine .idle (step_of_ops_nil hup hops) rfl fun id' hid => ?_
    obtain rfl : id = id' := Option.some.inj hid
    have hfound : (q.file state id).isSome = true :=
      List.find?_some (p := fun state => (q.file state id).isSome) hfind
    exact ⟨state, hfound⟩
  | none =>
    have hops : q.ops (.enqueue id payload priority now) =
        [.writeTmp .pending id ⟨.pending, payload, priority, now, none, none, none⟩,
          .rename .pending id] := by
      show (q.enqueue id payload priority now).1 = _
      rw [enqueue, hfind]
    refine .created id ⟨.pending, payload, priority, now, none, none, none⟩ rfl rfl
      (findJob_eq_none hfind) fun state id' => ?_
    rw [step_whole hup, hops]
    obtain ⟨tmp, htmp⟩ := q.performAll_write .pending id
      ⟨.pending, payload, priority, now, none, none, none⟩
    rw [htmp]
    exact file_put .pending state id id' _

theorem effect_dequeue {q : JobQueue Payload} (hup : q.down = false) (listing : List String)
    (now : Int) :
    Effect q (.dequeue listing now) (q.step (.call (.dequeue listing now) none)) := by
  by_cases hperm : listing.Perm (q.files .pending).keys
  · have hret : q.returned (.dequeue listing now) = (q.dequeue listing now).2 := if_pos hperm
    have hops : q.ops (.dequeue listing now) = (q.dequeue listing now).1 := if_pos hperm
    cases hnext : q.nextJob listing with
    | none =>
      rw [dequeue, hnext] at hret hops
      exact .idle (step_of_ops_nil hup hops) hret fun id hid => by cases hid
    | some job =>
      obtain ⟨id, record⟩ := job
      rw [dequeue, hnext] at hret hops
      have hne : JobState.inProgress ≠ .pending := by rintro ⟨⟩
      refine .moved .pending .inProgress id _ (Or.inl rfl) hne hne ?_ rfl (fun job hjob => ?_)
        (step_of_ops_move hup hne hops)
      · rw [file_of_nextJob hnext]
        rfl
      · rw [hret] at hjob
        cases hjob
        exact ⟨rfl, rfl⟩
  · exact .idle (step_of_ops_nil hup (if_neg hperm)) (if_neg hperm) fun id hid => by cases hid

theorem effect_mark {q : JobQueue Payload} (hq : q.Orderly) {c : QueueCall Payload} {id : String}
    {dst : JobState} {error : Option String} {now : Int} (hdst : dst = .completed ∨ dst = .failed)
    (hops : q.ops c = (q.transitionFromAny id dst error now).1) (hnew : newId c = none)
    (hret : q.returned c = none) : Effect q c (q.step (.call c none)) := by
  have hidle : q.ops c = [] → Effect q c (q.step (.call c none)) := fun hnil =>
    .idle (step_of_ops_nil hq.up hnil) hret fun id' hid => by cases hnew.symm.trans hid
  rw [transitionFromAny] at hops
  cases hact : q.active id with
  | none =>
    rw [hact] at hops
    exact hidle hops
  | some source =>
    obtain ⟨src, f⟩ := source
    obtain ⟨hsrc, hf⟩ := file_of_active hact
    obtain ⟨record, rfl⟩ := hq.legible src id f hf
    rw [hact] at hops
    have hpending : dst ≠ .pending := by
      rintro rfl
      rcases hdst with h | h <;> cases h
    have hne : dst ≠ src := by
      rintro rfl
      rcases hdst with rfl | rfl <;> rcases hsrc with h | h <;> cases h
    refine .moved src dst id _ hsrc hpending hne ?_ hnew (fun job hjob => ?_)
      (step_of_ops_move hq.up hne hops)
    · rw [hf]
      rfl
    · cases hret.symm.trans hjob

theorem effect {q : JobQueue Payload} (hq : q.Orderly) {c : QueueCall Payload}
    (hc : c.isRecover = false) : Effect q c (q.step (.call c none)) := by
  cases c with
  | enqueue id payload priority now => exact effect_enqueue hq.up id payload priority now
  | dequeue listing now => exact effect_dequeue hq.up listing now
  | markCompleted id now => exact effect_mark hq (Or.inl rfl) rfl rfl rfl
  | markFailed id error now => exact effect_mark hq (Or.inr rfl) rfl rfl rfl
  | recover => cases hc

/-! ## One call -/

theorem orderly_start : (start : JobQueue Payload).Orderly where
  up := rfl
  legible := fun _ _ _ h => nomatch h
  single := fun _ _ _ h => nomatch h

/-- The job that moves has no file but the one it leaves. -/
theorem Orderly.only {q : JobQueue Payload} (hq : q.Orderly) {src : JobState} {id : String}
    (hold : (q.file src id).isSome) {state : JobState} (hne : state ≠ src) :
    q.file state id = none := by
  by_contra hsome
  exact hne (hq.single state src id (Option.isSome_iff_ne_none.mpr hsome) hold)

theorem Orderly.step {q : JobQueue Payload} (hq : q.Orderly) {c : QueueCall Payload}
    (hc : c.isRecover = false) : (q.step (.call c none)).Orderly := by
  have hup := down_step hq.up c
  have heffect := effect hq hc
  generalize q.step (.call c none) = q' at hup heffect
  cases heffect with
  | idle hfile =>
    refine ⟨hup, fun state id f hf => ?_, fun state state' id h h' => ?_⟩
    · rw [hfile] at hf
      exact hq.legible state id f hf
    · rw [hfile] at h h'
      exact hq.single state state' id h h'
  | created id record _ _ hnone hfile =>
    refine ⟨hup, fun state id' f hf => ?_, fun state state' id' h h' => ?_⟩
    · rw [hfile] at hf
      split at hf
      next => exact ⟨record, (Option.some.inj hf).symm⟩
      next => exact hq.legible state id' f hf
    · rw [hfile] at h h'
      by_cases hid : id' = id
      · subst hid
        have hpending : ∀ state, ((if state = .pending ∧ id' = id' then some (.record record)
            else q.file state id') : Option (JobFile Payload)).isSome → state = .pending := by
          intro state hsome
          by_contra hne
          rw [if_neg fun hand => hne hand.1, hnone] at hsome
          exact nomatch hsome
        exact (hpending state h).trans (hpending state' h').symm
      · rw [if_neg fun hand => hid hand.2] at h h'
        exact hq.single state state' id' h h'
  | moved src dst id record _ _ _ hold _ _ hfile =>
    refine ⟨hup, fun state id' f hf => ?_, fun state state' id' h h' => ?_⟩
    · rw [hfile] at hf
      split at hf
      next => exact ⟨record, (Option.some.inj hf).symm⟩
      next =>
        split at hf
        next => exact nomatch hf
        next => exact hq.legible state id' f hf
    · rw [hfile] at h h'
      by_cases hid : id' = id
      · subst hid
        have hplace : ∀ state, ((if id' = id' ∧ state = dst then some (.record record)
            else if id' = id' ∧ state = src then none
            else q.file state id') : Option (JobFile Payload)).isSome → state = dst := by
          intro state hsome
          by_contra hne
          rw [if_neg fun hand => hne hand.2] at hsome
          by_cases hs : state = src
          · rw [if_pos ⟨rfl, hs⟩] at hsome
            exact nomatch hsome
          · rw [if_neg fun hand => hs hand.2, hq.only hold hs] at hsome
            exact nomatch hsome
        exact (hplace state h).trans (hplace state' h').symm
      · rw [if_neg fun hand => hid hand.1, if_neg fun hand => hid hand.1] at h h'
        exact hq.single state state' id' h h'

theorem absorbs_step {q : JobQueue Payload} (hq : q.Orderly) {c : QueueCall Payload}
    (hc : c.isRecover = false) : q.Absorbs (q.step (.call c none)) := by
  intro state id f hstate hf
  have hsome : (q.file state id).isSome := by
    rw [hf]
    rfl
  cases effect hq hc with
  | idle hfile => rw [hfile, hf]
  | created id' record _ _ hnone hfile =>
    have hne : id ≠ id' := by
      rintro rfl
      exact nomatch (hnone state).symm.trans hf
    rw [hfile, if_neg fun hand => hne hand.2, hf]
  | moved src dst id' record hsrc _ _ hold _ _ hfile =>
    have hne : id ≠ id' := by
      rintro rfl
      have hplace := hq.single state src id hsome hold
      subst hplace
      rcases hstate with rfl | rfl <;> rcases hsrc with h | h <;> cases h
    rw [hfile, if_neg fun hand => hne hand.1, if_neg fun hand => hne hand.1, hf]

/-- The jobs that have a file afterwards are those that had one, and the one that is enqueued. -/
theorem present_step {q : JobQueue Payload} (hq : q.Orderly) {c : QueueCall Payload}
    (hc : c.isRecover = false) (id : String) :
    (∃ state, ((q.step (.call c none)).file state id).isSome) ↔
      (∃ state, (q.file state id).isSome) ∨ newId c = some id := by
  cases effect hq hc with
  | idle hfile _ hnew =>
    simp only [hfile]
    exact (or_iff_left_of_imp (hnew id)).symm
  | created id' record hnew _ hnone hfile =>
    by_cases hid : id = id'
    · subst hid
      refine iff_of_true ⟨.pending, ?_⟩ (Or.inr hnew)
      rw [hfile, if_pos ⟨rfl, rfl⟩]
      rfl
    · have hother : newId c ≠ some id := fun h => hid (Option.some.inj (h.symm.trans hnew))
      simp only [hfile, hid, and_false, if_false]
      exact (or_iff_left hother).symm
  | moved src dst id' record _ _ _ hold hnew _ hfile =>
    rw [hnew]
    by_cases hid : id = id'
    · subst hid
      refine iff_of_true ⟨dst, ?_⟩ (Or.inl ⟨src, hold⟩)
      rw [hfile, if_pos ⟨rfl, rfl⟩]
      rfl
    · simp only [hfile, hid, false_and, if_false]
      exact (or_iff_left nofun).symm

/-- A job that is not pending, but was enqueued, is not pending again. -/
theorem left_step {q : JobQueue Payload} (hq : q.Orderly) {c : QueueCall Payload}
    (hc : c.isRecover = false) {id : String} (hleft : q.file .pending id = none)
    (hpresent : ∃ state, (q.file state id).isSome) :
    (q.step (.call c none)).file .pending id = none := by
  cases effect hq hc with
  | idle hfile => rw [hfile, hleft]
  | created id' record _ _ hnone hfile =>
    have hne : id ≠ id' := by
      rintro rfl
      obtain ⟨state, hsome⟩ := hpresent
      rw [hnone] at hsome
      exact nomatch hsome
    rw [hfile, if_neg fun hand => hne hand.2, hleft]
  | moved src dst id' record _ hdst _ _ _ _ hfile =>
    rw [hfile, if_neg fun hand => hdst hand.2.symm]
    split
    next => rfl
    next => exact hleft

/-- A job that is returned was pending, and is not any more. -/
theorem returned_step {q : JobQueue Payload} (hq : q.Orderly) {c : QueueCall Payload}
    (hc : c.isRecover = false) {job : String × JobRecord Payload}
    (hret : q.returned c = some job) :
    (q.file .pending job.1).isSome ∧ (q.step (.call c none)).file .pending job.1 = none := by
  cases effect hq hc with
  | idle _ hnone => exact nomatch hnone.symm.trans hret
  | created _ _ _ hnone => exact nomatch hnone.symm.trans hret
  | moved src dst id record _ hdst _ hold _ hjob hfile =>
    obtain ⟨rfl, rfl⟩ := hjob job hret
    refine ⟨hold, ?_⟩
    rw [hfile, if_neg fun hand => hdst hand.2.symm, if_pos ⟨rfl, rfl⟩]

/-! ## The order of `dequeue` -/

instance : Std.Total (@before Payload) where
  total := fun a b => by
    unfold before
    omega

instance : IsTrans (String × JobRecord Payload) before where
  trans := fun a b c => by
    unfold before
    omega

theorem mem_listing {q : JobQueue Payload} {listing : List String}
    (hperm : listing.Perm (q.files .pending).keys) {id : String} {record : JobRecord Payload}
    (hf : q.file .pending id = some (.record record)) :
    (id, record) ∈ listing.filterMap q.pendingJob := by
  refine List.mem_filterMap.mpr ⟨id, hperm.mem_iff.mpr (Dict.mem_keys_of_get? hf), ?_⟩
  rw [pendingJob, hf]

theorem picksFirst {q : JobQueue Payload} (hq : q.Orderly) {listing : List String}
    (hperm : listing.Perm (q.files .pending).keys) (now : Int) :
    q.PicksFirst now (q.returned (.dequeue listing now)) := by
  have hret : q.returned (.dequeue listing now) = (q.dequeue listing now).2 := if_pos hperm
  rw [hret, dequeue]
  cases hnext : q.nextJob listing with
  | none =>
    intro id
    by_contra hsome
    obtain ⟨f, hf⟩ := Option.ne_none_iff_exists'.mp hsome
    obtain ⟨record, rfl⟩ := hq.legible .pending id f hf
    have hmem := mem_listing hperm hf
    rw [← List.mem_insertionSort before, List.head?_eq_none_iff.mp hnext] at hmem
    cases hmem
  | some job =>
    obtain ⟨id, record⟩ := job
    refine ⟨record, file_of_nextJob hnext, rfl, fun id' other hother => ?_⟩
    have hmem := mem_listing hperm hother
    rw [← List.mem_insertionSort before] at hmem
    obtain ⟨rest, hsorted⟩ := List.head?_eq_some_iff.mp hnext
    have hpairs := List.pairwise_insertionSort before (listing.filterMap q.pendingJob)
    rw [hsorted] at hmem hpairs
    rcases List.mem_cons.mp hmem with heq | hmem
    · cases heq
      exact Or.inr ⟨rfl, Int.le_refl _⟩
    · exact (List.pairwise_cons.mp hpairs).1 (id', other) hmem

/-! ## Runs -/

theorem afterCalls_cons (q : JobQueue Payload) (c : QueueCall Payload)
    (calls : List (QueueCall Payload)) :
    q.afterCalls (c :: calls) = (q.step (.call c none)).afterCalls calls := rfl

theorem Orderly.afterCalls {q : JobQueue Payload} (hq : q.Orderly)
    {calls : List (QueueCall Payload)} (hcalls : ∀ c ∈ calls, c.isRecover = false) :
    (q.afterCalls calls).Orderly := by
  induction calls generalizing q with
  | nil => exact hq
  | cons c calls ih =>
    rw [afterCalls_cons]
    exact ih (hq.step (hcalls c (List.mem_cons_self ..)))
      fun c' hc' => hcalls c' (List.mem_cons_of_mem _ hc')

theorem absorbs_afterCalls {q : JobQueue Payload} (hq : q.Orderly)
    {calls : List (QueueCall Payload)} (hcalls : ∀ c ∈ calls, c.isRecover = false) :
    q.Absorbs (q.afterCalls calls) := by
  induction calls generalizing q with
  | nil => exact fun _ _ _ _ hf => hf
  | cons c calls ih =>
    have hc := hcalls c (List.mem_cons_self ..)
    intro state id f hstate hf
    rw [afterCalls_cons]
    exact ih (hq.step hc) (fun c' hc' => hcalls c' (List.mem_cons_of_mem _ hc')) state id f hstate
      (absorbs_step hq hc state id f hstate hf)

theorem present_afterCalls {q : JobQueue Payload} (hq : q.Orderly)
    {calls : List (QueueCall Payload)} (hcalls : ∀ c ∈ calls, c.isRecover = false) (id : String) :
    (∃ state, ((q.afterCalls calls).file state id).isSome) ↔
      (∃ state, (q.file state id).isSome) ∨ id ∈ calls.filterMap newId := by
  induction calls generalizing q with
  | nil => exact (or_iff_left List.not_mem_nil).symm
  | cons c calls ih =>
    have hc := hcalls c (List.mem_cons_self ..)
    rw [afterCalls_cons, ih (hq.step hc) fun c' hc' => hcalls c' (List.mem_cons_of_mem _ hc'),
      present_step hq hc, or_assoc]
    refine or_congr_right ?_
    simp only [List.mem_filterMap, List.mem_cons, exists_eq_or_imp]

/-- A job that is not pending, but was enqueued, is not returned any more. -/
theorem not_mem_dequeued {q : JobQueue Payload} (hq : q.Orderly)
    {calls : List (QueueCall Payload)} (hcalls : ∀ c ∈ calls, c.isRecover = false) {id : String}
    (hleft : q.file .pending id = none) (hpresent : ∃ state, (q.file state id).isSome) :
    id ∉ q.dequeued calls := by
  induction calls generalizing q with
  | nil => exact List.not_mem_nil
  | cons c calls ih =>
    have hc := hcalls c (List.mem_cons_self ..)
    rw [dequeued, List.mem_append, not_or]
    constructor
    · intro hmem
      obtain ⟨job, hjob, rfl⟩ := List.mem_map.mp hmem
      have hpending := (returned_step hq hc (Option.mem_toList.mp hjob)).1
      rw [hleft] at hpending
      exact nomatch hpending
    · exact ih (hq.step hc) (fun c' hc' => hcalls c' (List.mem_cons_of_mem _ hc'))
        (left_step hq hc hleft hpresent) ((present_step hq hc id).mpr (Or.inl hpresent))

theorem nodup_dequeued {q : JobQueue Payload} (hq : q.Orderly)
    {calls : List (QueueCall Payload)} (hcalls : ∀ c ∈ calls, c.isRecover = false) :
    (q.dequeued calls).Nodup := by
  induction calls generalizing q with
  | nil => exact List.nodup_nil
  | cons c calls ih =>
    have hc := hcalls c (List.mem_cons_self ..)
    have hrest : ∀ c ∈ calls, c.isRecover = false :=
      fun c' hc' => hcalls c' (List.mem_cons_of_mem _ hc')
    rw [dequeued]
    cases hret : q.returned c with
    | none => exact ih (hq.step hc) hrest
    | some job =>
      obtain ⟨hpending, hleft⟩ := returned_step hq hc hret
      refine List.nodup_cons.mpr ⟨?_, ih (hq.step hc) hrest⟩
      exact not_mem_dequeued (hq.step hc) hrest hleft
        ((present_step hq hc job.1).mpr (Or.inl ⟨.pending, hpending⟩))

/-! ## The counts -/

theorem mem_keys_files {q : JobQueue Payload} {state : JobState} {id : String} :
    id ∈ (q.files state).keys ↔ (q.file state id).isSome := by
  rw [Dict.mem_keys_iff, Option.isSome_iff_exists]
  rfl

/-- The files of all directories are as many as the jobs that have one. -/
theorem sum_jobCount {q : JobQueue Payload} (hq : q.Orderly) {ids : List String}
    (hnodup : ids.Nodup) (hids : ∀ id, id ∈ ids ↔ ∃ state, (q.file state id).isSome) :
    (states.map q.jobCount).sum = ids.length := by
  have hdisjoint : ∀ state state', state ≠ state' →
      List.Disjoint (q.files state).keys (q.files state').keys := by
    intro state state' hne id hmem hmem'
    exact hne (hq.single state state' id (mem_keys_files.mp hmem) (mem_keys_files.mp hmem'))
  have hall : (states.flatMap fun state => (q.files state).keys).Nodup := by
    refine List.nodup_flatMap.mpr ⟨fun state _ => (q.files state).nodup, ?_⟩
    refine List.Nodup.pairwise_of_forall_ne (by decide) fun state _ state' _ hne => ?_
    exact hdisjoint state state' hne
  have hperm : (states.flatMap fun state => (q.files state).keys).Perm ids := by
    refine (List.perm_ext_iff_of_nodup hall hnodup).mpr fun id => ?_
    rw [hids, List.mem_flatMap]
    constructor
    · rintro ⟨state, -, hmem⟩
      exact ⟨state, mem_keys_files.mp hmem⟩
    · rintro ⟨state, hsome⟩
      exact ⟨state, by cases state <;> decide, mem_keys_files.mpr hsome⟩
  rw [← hperm.length_eq, List.length_flatMap]
  rfl

theorem queue_in_order (calls more : List (QueueCall Payload))
    (hcalls : ∀ c ∈ calls ++ more, c.isRecover = false) :
    (∀ listing now, listing.Perm ((start.afterCalls calls).files .pending).keys →
      (start.afterCalls calls).PicksFirst now
        ((start.afterCalls calls).returned (.dequeue listing now))) ∧
    (start.dequeued calls).Nodup ∧
    (start.afterCalls calls).Absorbs ((start.afterCalls calls).afterCalls more) ∧
    (states.map (start.afterCalls calls).jobCount).sum =
      (calls.filterMap newId).dedup.length := by
  have hfirst : ∀ c ∈ calls, c.isRecover = false :=
    fun c hc => hcalls c (List.mem_append_left _ hc)
  have hsecond : ∀ c ∈ more, c.isRecover = false :=
    fun c hc => hcalls c (List.mem_append_right _ hc)
  have hq := (@orderly_start Payload).afterCalls hfirst
  refine ⟨fun listing now hperm => picksFirst hq hperm now, nodup_dequeued orderly_start hfirst,
    absorbs_afterCalls hq hsecond, ?_⟩
  refine sum_jobCount hq (List.nodup_dedup _) fun id => ?_
  rw [List.mem_dedup, present_afterCalls orderly_start hfirst]
  refine (or_iff_right ?_).symm
  rintro ⟨state, hsome⟩
  exact nomatch hsome

/-- A job of higher priority that comes later, and one that is marked before it is picked up. -/
theorem queue_in_order_three_jobs :
    let calls : List (QueueCall Unit) := [.enqueue "a" () 0 10, .enqueue "b" () 5 20,
      .enqueue "c" () 0 30, .dequeue ["a", "b", "c"] 40, .markCompleted "a" 50]
    (start.dequeued calls).Nodup ∧
      (states.map (start.afterCalls calls).jobCount).sum =
        (calls.filterMap newId).dedup.length := by
  intro calls
  have h := queue_in_order calls [] (by decide)
  exact ⟨h.2.1, h.2.2.2⟩

end OSimFlow.Queues.JobQueue
