import Mathlib.Data.Finset.Card
import OSimFlow.Lib.Glob
import OSimFlow.Lib.Instances
import OSimFlow.Lib.Run

/-!
# Who applies a published state change

`DistributedJobQueue` publishes a change of the job `f"{sid}_{step}"` on a
channel named after the sample id it splits off the job id again
(`extractSampleId`: the first two `_`-separated parts). A worker subscribes to
one pattern for each sample id of its filter, and drops what is not for one of
them. Redis delivers a message once for every pattern that matches.

`delivered_iff`: over all orders of subscriptions, publishes and deliveries,
a change is applied once by the subscribed workers that own the sample and by
nobody else exactly when every filter routes it (`Routed`). The split gives the
sample id back only if that has exactly one `_` (`extractSampleId_jobId`), which
the ids of a campaign, `0001`, do not have.
-/

namespace OSimFlow.Queues.Delivery

open OSimFlow.Lib

/-- `_extract_sample_id`. -/
def extractSampleId (jobId : String) : String :=
  match jobId.toList.splitOn '_' with
  | p :: q :: _ => String.ofList p ++ "_" ++ String.ofList q
  | _ => jobId

/-- `f"{sid}_{step_name}"`. -/
def jobId (sid step : String) : String := sid ++ "_" ++ step

/-- The channel of a sample: `f"{self._channel_prefix}:{sample_id}_"`. -/
def channel (channelPrefix sampleId : String) : String :=
  channelPrefix ++ ":" ++ sampleId ++ "_"

/-- A pattern of the subscriber: `f"{self._channel_prefix}:{sid}_*"`. -/
def subscription (channelPrefix sid : String) : String :=
  channelPrefix ++ ":" ++ sid ++ "_*"

/-- What is published: `mark_completed` and the like, for a job. -/
inductive Action where
  | enqueue (priority : Int)
  | markCompleted
  | markFailed (error : String)
deriving DecidableEq, Repr

/-- The queues of a campaign: the workers and their `sample_ids`. -/
structure Network (Worker : Type) where
  channelPrefix : String
  sampleIds : Worker → Finset String

/-- A publish, and who was subscribed then. -/
structure Post (Worker : Type) where
  sid : String
  step : String
  action : Action
  subscribers : List Worker

/-- `sample_id` of the message. -/
def Post.sampleId {Worker : Type} (post : Post Worker) : String :=
  extractSampleId (jobId post.sid post.step)

/-- The subscribers, the messages so far, the copies of them on their way, and the
applications to local queues; a copy is its worker and its message's number. -/
structure Traffic (Worker : Type) where
  subscribed : List Worker
  posts : List (Post Worker)
  inFlight : List (Worker × Nat)
  applied : List (Worker × Nat)

inductive Event (Worker : Type) where
  /-- `_start_subscriber`. -/
  | subscribe (w : Worker)
  | publish (sid step : String) (action : Action)
  /-- A copy arrives: `_handle_action`. -/
  | deliver (w : Worker) (n : Nat)

variable {Worker : Type} [DecidableEq Worker] (net : Network Worker)

/-- The copies of a message to a worker: one for every pattern that matches. -/
def copies (w : Worker) (sampleId : String) : Nat :=
  ((net.sampleIds w).filter fun sid => Glob.globMatch
    (subscription net.channelPrefix sid).toList
    (channel net.channelPrefix sampleId).toList = true).card

/-- `_handle_action` does not drop it. -/
def Handles (w : Worker) (sampleId : String) : Prop :=
  net.sampleIds w = ∅ ∨ sampleId ∈ net.sampleIds w

instance (w : Worker) (sampleId : String) : Decidable (Handles net w sampleId) :=
  inferInstanceAs (Decidable (_ ∨ _))

def start : Traffic Worker := ⟨[], [], [], []⟩

attribute [local instance] Lib.lawfulBEq_prod in
def step (s : Traffic Worker) : Event Worker → Traffic Worker
  | .subscribe w =>
    -- without sample ids the subscriber is not started
    if net.sampleIds w = ∅ then s else { s with subscribed := s.subscribed.insert w }
  | .publish sid step action =>
    let post : Post Worker := ⟨sid, step, action, s.subscribed⟩
    { s with
      posts := s.posts ++ [post]
      inFlight := s.inFlight ++ s.subscribed.flatMap fun w =>
        List.replicate (copies net w post.sampleId) (w, s.posts.length) }
  | .deliver w n =>
    match s.posts[n]? with
    | none => s
    | some post =>
      if (w, n) ∈ s.inFlight then
        { s with
          inFlight := s.inFlight.erase (w, n)
          applied := if Handles net w post.sampleId then (w, n) :: s.applied else s.applied }
      else s

/-- The worker should apply the change. -/
def Owns (w : Worker) (post : Post Worker) : Prop :=
  w ∈ post.subscribers ∧ (net.sampleIds w = ∅ ∨ post.sid ∈ net.sampleIds w)

instance (w : Worker) (post : Post Worker) : Decidable (Owns net w post) :=
  inferInstanceAs (Decidable (_ ∧ (_ ∨ _)))

/-- Each change is applied at most once by each worker, and once its copies have
arrived, once by exactly those that own it. -/
def Delivered (s : Traffic Worker) : Prop :=
  ∀ n post, s.posts[n]? = some post → ∀ w, s.applied.count (w, n) ≤ 1 ∧
    (s.inFlight.count (w, n) = 0 →
      s.applied.count (w, n) = if Owns net w post then 1 else 0)

/-- The filter of the worker routes the job: what the job id is split into is owned
together with the sample, and matches one pattern. -/
def Routed (w : Worker) (sid step : String) : Prop :=
  if sid ∈ net.sampleIds w then
    extractSampleId (jobId sid step) ∈ net.sampleIds w ∧
      copies net w (extractSampleId (jobId sid step)) = 1
  else
    extractSampleId (jobId sid step) ∈ net.sampleIds w →
      copies net w (extractSampleId (jobId sid step)) = 0

/-! ## Counting copies -/

variable {net}

theorem count_flatMap_replicate (f : Worker → Nat) (n : Nat) {ws : List Worker}
    (hn : ws.Nodup) (w : Worker) (k : Nat) :
    (ws.flatMap fun w' => List.replicate (f w') (w', n)).count (w, k) =
      if w ∈ ws ∧ k = n then f w else 0 := by
  induction ws with
  | nil => simp
  | cons w' ws ih =>
    obtain ⟨hw, hws⟩ := List.nodup_cons.mp hn
    rw [List.flatMap_cons, List.count_append, ih hws, List.count_replicate]
    by_cases hk : k = n
    · by_cases he : w = w'
      · rw [he, hk]
        simp [hw]
      · simp [hk, he, Ne.symm he]
    · simp [hk, Ne.symm hk]

/-- What is known of the copies of one message for one worker. -/
structure Copies (net : Network Worker) (s : Traffic Worker) (n : Nat) (post : Post Worker)
    (w : Worker) : Prop where
  other : w ∉ post.subscribers → s.inFlight.count (w, n) = 0 ∧ s.applied.count (w, n) = 0
  filtered : w ∈ post.subscribers → net.sampleIds w ≠ ∅
  handled : w ∈ post.subscribers → post.sampleId ∈ net.sampleIds w →
    s.applied.count (w, n) + s.inFlight.count (w, n) = copies net w post.sampleId
  dropped : post.sampleId ∉ net.sampleIds w → s.applied.count (w, n) = 0

/-- The invariant of every run. -/
structure Counted (net : Network Worker) (s : Traffic Worker) : Prop where
  nodup : s.subscribed.Nodup
  filtered : ∀ w ∈ s.subscribed, net.sampleIds w ≠ ∅
  copies : ∀ n post, s.posts[n]? = some post → ∀ w, Copies net s n post w
  unposted : ∀ n, s.posts.length ≤ n → ∀ w,
    s.inFlight.count (w, n) = 0 ∧ s.applied.count (w, n) = 0

variable {s : Traffic Worker}

theorem start_counted : Counted net (start : Traffic Worker) where
  nodup := List.nodup_nil
  filtered := fun _ h => nomatch h
  copies := fun _ _ h => nomatch h
  unposted := fun _ _ _ => ⟨rfl, rfl⟩

theorem subscribe_counted (h : Counted net s) (w : Worker) :
    Counted net (step net s (.subscribe w)) := by
  unfold step
  dsimp only
  split
  next => exact h
  next hw =>
    refine ⟨h.nodup.insert, fun w' hw' => ?_, fun n post hp w' => ?_, h.unposted⟩
    · rcases List.mem_insert_iff.mp hw' with rfl | hw'
      · exact hw
      · exact h.filtered w' hw'
    · have hc := h.copies n post hp w'
      exact ⟨hc.other, hc.filtered, hc.handled, hc.dropped⟩

theorem publish_counted (h : Counted net s) (sid stepName : String) (action : Action) :
    Counted net (step net s (.publish sid stepName action)) := by
  have hcount : ∀ w n, (s.subscribed.flatMap fun w' =>
      List.replicate (Delivery.copies net w' (extractSampleId (jobId sid stepName)))
        (w', s.posts.length)).count (w, n) =
      if w ∈ s.subscribed ∧ n = s.posts.length then
        Delivery.copies net w (extractSampleId (jobId sid stepName)) else 0 :=
    fun w n => count_flatMap_replicate _ _ h.nodup w n
  have hfly : ∀ w n, (step net s (.publish sid stepName action)).inFlight.count (w, n) =
      s.inFlight.count (w, n) + if w ∈ s.subscribed ∧ n = s.posts.length then
        Delivery.copies net w (extractSampleId (jobId sid stepName)) else 0 := by
    intro w n
    rw [← hcount]
    exact List.count_append
  refine ⟨h.nodup, h.filtered, fun n post hp w => ?_, fun n hn w => ?_⟩
  · have hfly := hfly w n
    by_cases hlt : n < s.posts.length
    · -- an earlier message: nothing is added
      rw [if_neg (by omega), Nat.add_zero] at hfly
      have hpost : s.posts[n]? = some post := by
        rw [← hp]
        exact (List.getElem?_append_left hlt).symm
      have hc := h.copies n post hpost w
      refine ⟨?_, hc.filtered, ?_, hc.dropped⟩
      · rw [hfly]
        exact hc.other
      · rw [hfly]
        exact hc.handled
    · have hge : s.posts.length ≤ n := by omega
      have hn : n = s.posts.length := by
        have hbound := (List.getElem?_eq_some_iff.mp hp).1
        have hlen : (step net s (.publish sid stepName action)).posts.length =
            s.posts.length + 1 := List.length_append
        omega
      have hpost : post = ⟨sid, stepName, action, s.subscribed⟩ := by
        have hlast : (s.posts ++ [⟨sid, stepName, action, s.subscribed⟩])[n]? =
            some ⟨sid, stepName, action, s.subscribed⟩ := by
          rw [hn]
          exact List.getElem?_concat_length
        exact Option.some.inj (hp.symm.trans hlast)
      obtain ⟨hzero, hnone⟩ := h.unposted n hge w
      rw [hzero, Nat.zero_add] at hfly
      rw [hpost]
      refine ⟨fun hw => ?_, h.filtered w, fun hw _ => ?_, fun _ => hnone⟩
      · rw [hfly, if_neg (fun hb => hw hb.1)]
        exact ⟨rfl, hnone⟩
      · rw [hfly, if_pos ⟨hw, hn⟩]
        show s.applied.count (w, n) + _ = _
        rw [hnone, Nat.zero_add]
        rfl
  · have hlen : (step net s (.publish sid stepName action)).posts.length =
        s.posts.length + 1 := List.length_append
    obtain ⟨hzero, hnone⟩ := h.unposted n (by omega) w
    refine ⟨?_, hnone⟩
    rw [hfly, hzero, if_neg (by omega)]

/-- A copy arrives: what it does to the copies of any message. -/
theorem step_deliver {w : Worker} {n : Nat} {post : Post Worker}
    (hp : s.posts[n]? = some post) (hm : (w, n) ∈ s.inFlight) :
    step net s (.deliver w n) = { s with
      inFlight := s.inFlight.erase (w, n)
      applied := if Handles net w post.sampleId then (w, n) :: s.applied
        else s.applied } := by
  unfold step
  dsimp only
  rw [hp]
  exact if_pos hm

theorem deliver_counted (h : Counted net s) (w : Worker) (n : Nat) :
    Counted net (step net s (.deliver w n)) := by
  cases hp : s.posts[n]? with
  | none =>
    have he : step net s (.deliver w n) = s := by
      unfold step
      dsimp only
      rw [hp]
    rw [he]
    exact h
  | some post =>
    by_cases hm : (w, n) ∈ s.inFlight
    · rw [step_deliver hp hm]
      have hlt : n < s.posts.length := (List.getElem?_eq_some_iff.mp hp).1
      have hpos : 0 < s.inFlight.count (w, n) := List.count_pos_iff.mpr hm
      refine ⟨h.nodup, h.filtered, fun n' post' hp' w' => ?_, fun n' hn' w' => ?_⟩
      · have hc := h.copies n' post' hp' w'
        by_cases he : (w', n') = (w, n)
        · -- the message's own worker
          obtain ⟨rfl, rfl⟩ := Prod.mk.inj he
          have hpost : post' = post := Option.some.inj (hp'.symm.trans hp)
          rw [hpost] at hc ⊢
          have hfly : (s.inFlight.erase (w', n')).count (w', n') =
              s.inFlight.count (w', n') - 1 := List.count_erase_self
          have hsub : w' ∈ post.subscribers := by
            by_contra hw
            have := (hc.other hw).1
            omega
          have hne := hc.filtered hsub
          refine ⟨fun hw => absurd hsub hw, fun _ => hne, fun _ hin => ?_, fun hout => ?_⟩
          · have hh : Handles net w' post.sampleId := Or.inr hin
            show (if Handles net w' post.sampleId then (w', n') :: s.applied
              else s.applied).count (w', n') + (s.inFlight.erase (w', n')).count (w', n') = _
            rw [if_pos hh, List.count_cons_self, hfly]
            have := hc.handled hsub hin
            omega
          · show (if Handles net w' post.sampleId then (w', n') :: s.applied
              else s.applied).count (w', n') = 0
            have hh : ¬ Handles net w' post.sampleId := fun hh => hh.elim hne hout
            rw [if_neg hh]
            exact hc.dropped hout
        · have hfly : (s.inFlight.erase (w, n)).count (w', n') = s.inFlight.count (w', n') :=
            List.count_erase_of_ne he
          have happ : (if Handles net w post.sampleId then (w, n) :: s.applied
              else s.applied).count (w', n') = s.applied.count (w', n') := by
            split
            · exact List.count_cons_of_ne (Ne.symm he)
            · rfl
          refine ⟨fun hw => ?_, hc.filtered, fun hw hin => ?_, fun hout => ?_⟩
          · exact ⟨hfly.trans (hc.other hw).1, happ.trans (hc.other hw).2⟩
          · show _ + (s.inFlight.erase (w, n)).count (w', n') = _
            rw [hfly]
            exact (congrArg (· + _) happ).trans (hc.handled hw hin)
          · exact happ.trans (hc.dropped hout)
      · have hne : (w', n') ≠ (w, n) := by
          intro he
          have hn : n' = n := (Prod.mk.inj he).2
          have hle : s.posts.length ≤ n' := hn'
          omega
        obtain ⟨hzero, hnone⟩ := h.unposted n' hn' w'
        refine ⟨(List.count_erase_of_ne hne).trans hzero, ?_⟩
        show (if Handles net w post.sampleId then (w, n) :: s.applied
          else s.applied).count (w', n') = 0
        split
        · exact (List.count_cons_of_ne (Ne.symm hne)).trans hnone
        · exact hnone
    · have he : step net s (.deliver w n) = s := by
        unfold step
        dsimp only
        rw [hp]
        exact if_neg hm
      rw [he]
      exact h

theorem step_counted (h : Counted net s) (e : Event Worker) : Counted net (step net s e) := by
  cases e with
  | subscribe w => exact subscribe_counted h w
  | publish sid stepName action => exact publish_counted h sid stepName action
  | deliver w n => exact deliver_counted h w n

/-! ## When every order of deliveries is right -/

/-- Publishes of the jobs `J`. -/
def Event.over (J : String → String → Prop) : Event Worker → Prop
  | .publish sid step _ => J sid step
  | _ => True

/-- All that was published is of the jobs `J`. -/
def PostedOver (J : String → String → Prop) (s : Traffic Worker) : Prop :=
  ∀ post ∈ s.posts, J post.sid post.step

theorem step_postedOver {J : String → String → Prop} (h : PostedOver J s)
    {e : Event Worker} (he : e.over J) : PostedOver J (step net s e) := by
  cases e with
  | subscribe w =>
    unfold step
    dsimp only
    split
    · exact h
    · exact h
  | publish sid stepName action =>
    intro post hp
    rcases List.mem_append.mp hp with hp | hp
    · exact h post hp
    · rw [List.mem_singleton.mp hp]
      exact he
  | deliver w n =>
    cases hp : s.posts[n]? with
    | none =>
      unfold step
      dsimp only
      rw [hp]
      exact h
    | some post =>
      by_cases hm : (w, n) ∈ s.inFlight
      · rw [step_deliver hp hm]
        exact h
      · unfold step
        dsimp only
        rw [hp]
        dsimp only
        rw [if_neg hm]
        exact h

/-- Where filters route, what is counted is what should be. -/
theorem Counted.delivered (h : Counted net s)
    (hr : ∀ post ∈ s.posts, ∀ w, net.sampleIds w ≠ ∅ → Routed net w post.sid post.step) :
    Delivered net s := by
  intro n post hp w
  have hc := h.copies n post hp w
  by_cases hw : w ∈ post.subscribers
  · have hne := hc.filtered hw
    have hroute := hr post (List.mem_of_getElem? hp) w hne
    unfold Routed at hroute
    by_cases hs : post.sid ∈ net.sampleIds w
    · rw [if_pos hs] at hroute
      have hsum := hc.handled hw hroute.1
      have hone : Delivery.copies net w post.sampleId = 1 := hroute.2
      have howns : Owns net w post := ⟨hw, Or.inr hs⟩
      rw [if_pos howns]
      omega
    · rw [if_neg hs] at hroute
      have howns : ¬ Owns net w post := fun ho => ho.2.elim hne hs
      rw [if_neg howns]
      by_cases hin : post.sampleId ∈ net.sampleIds w
      · have hsum := hc.handled hw hin
        have hzero : Delivery.copies net w post.sampleId = 0 := hroute hin
        omega
      · have hzero := hc.dropped hin
        omega
  · have hnone := (hc.other hw).2
    have howns : ¬ Owns net w post := fun ho => hw ho.1
    rw [if_neg howns]
    omega

theorem run_counted (es : List (Event Worker)) (h : Counted net s) :
    Counted net (run (step net) s es) :=
  run_inv (step net) (I := Counted net) (fun _ e h => step_counted h e) h es

/-- Delivering the copies of a message, one after another. -/
theorem deliver_all (net : Network Worker) {w : Worker} {n : Nat} {post : Post Worker} {k : Nat}
    (hp : s.posts[n]? = some post) (hk : s.inFlight.count (w, n) = k) :
    (run (step net) s (List.replicate k (.deliver w n))).inFlight.count (w, n) = 0 ∧
      (run (step net) s (List.replicate k (.deliver w n))).posts = s.posts := by
  induction k generalizing s with
  | zero => exact ⟨hk, rfl⟩
  | succ k ih =>
    have hm : (w, n) ∈ s.inFlight := List.count_pos_iff.mp (by omega)
    rw [List.replicate_succ, run_cons, step_deliver hp hm]
    have hcount : (s.inFlight.erase (w, n)).count (w, n) = k := by
      rw [List.count_erase_self]
      omega
    have hrest := ih (s := { s with
      inFlight := s.inFlight.erase (w, n)
      applied := if Handles net w post.sampleId then (w, n) :: s.applied
        else s.applied }) hp hcount
    exact hrest

/-- For every order of subscriptions, publishes of the jobs `J` and deliveries, the
changes are delivered as they should be exactly when every worker that can
subscribe routes the jobs `J`. -/
theorem delivered_iff (net : Network Worker) (J : String → String → Prop) :
    (∀ es : List (Event Worker), (∀ e ∈ es, e.over J) →
      Always (step net) (Delivered net) start es) ↔
      ∀ sid stepName, J sid stepName → ∀ w, net.sampleIds w ≠ ∅ →
        Routed net w sid stepName := by
  constructor
  · intro hall sid stepName hj w hne
    -- one worker, one publish, and its copies
    have hsub : step net start (.subscribe w) = ⟨[w], [], [], []⟩ := if_neg hne
    have hpub : (step net ⟨[w], [], [], []⟩ (.publish sid stepName .markCompleted)).posts =
        [⟨sid, stepName, .markCompleted, [w]⟩] := rfl
    generalize hs : step net ⟨[w], [], [], []⟩ (.publish sid stepName .markCompleted) = s
      at hpub
    have hp : s.posts[0]? = some ⟨sid, stepName, .markCompleted, [w]⟩ := by
      rw [hpub]
      rfl
    have hrun := hall (.subscribe w :: .publish sid stepName .markCompleted ::
        List.replicate (s.inFlight.count (w, 0)) (.deliver w 0)) (by
      intro e he
      rcases List.mem_cons.mp he with rfl | he
      · trivial
      rcases List.mem_cons.mp he with rfl | he
      · exact hj
      · rw [List.eq_of_mem_replicate he]
        trivial)
    have hlast := hrun.last
    have hcounted : Counted net (run (step net) start _) := run_counted
      (.subscribe w :: .publish sid stepName .markCompleted ::
        List.replicate (s.inFlight.count (w, 0)) (.deliver w 0)) start_counted
    rw [run_cons, run_cons, hsub, hs] at hlast hcounted
    obtain ⟨hzero, hposts⟩ := deliver_all net hp rfl
    generalize run (step net) s (List.replicate (s.inFlight.count (w, 0)) (.deliver w 0)) = t
      at hlast hcounted hzero hposts
    rw [← hposts] at hp
    have hc := hcounted.copies 0 _ hp w
    have happ := (hlast 0 _ hp w).2 hzero
    have hw : w ∈ [w] := List.mem_cons_self
    unfold Routed
    by_cases hmem : sid ∈ net.sampleIds w
    · have howns : Owns net w ⟨sid, stepName, .markCompleted, [w]⟩ := ⟨hw, Or.inr hmem⟩
      rw [if_pos howns] at happ
      rw [if_pos hmem]
      have hin : extractSampleId (jobId sid stepName) ∈ net.sampleIds w := by
        by_contra hout
        have := hc.dropped hout
        omega
      have hsum := hc.handled hw hin
      refine ⟨hin, ?_⟩
      show Delivery.copies net w (extractSampleId (jobId sid stepName)) = 1
      have : Delivery.copies net w (extractSampleId (jobId sid stepName)) = _ := hsum.symm
      omega
    · have howns : ¬ Owns net w ⟨sid, stepName, .markCompleted, [w]⟩ :=
        fun ho => ho.2.elim hne hmem
      rw [if_neg howns] at happ
      rw [if_neg hmem]
      intro hin
      have hsum := hc.handled hw hin
      have : Delivery.copies net w (extractSampleId (jobId sid stepName)) = _ := hsum.symm
      omega
  · intro hroute es hes
    have hrun : ∀ {s : Traffic Worker}, Counted net s → PostedOver J s →
        Always (step net) (Delivered net) s es := by
      induction es with
      | nil =>
        intro s h hj
        exact h.delivered fun post hp w hne => hroute _ _ (hj post hp) w hne
      | cons e es ih =>
        intro s h hj
        refine ⟨h.delivered fun post hp w hne => hroute _ _ (hj post hp) w hne, ?_⟩
        exact ih (fun e' he => hes e' (List.mem_cons_of_mem e he)) (step_counted h e)
          (step_postedOver hj (hes e List.mem_cons_self))
    exact hrun start_counted fun _ h => nomatch h

/-! ## What is split off a job id -/

theorem toList_jobId (sid step : String) :
    (jobId sid step).toList = sid.toList ++ '_' :: step.toList := by
  rw [jobId, String.toList_append, String.toList_append, List.append_assoc]
  rfl

/-- The first two parts, where the job id has them. -/
theorem extractSampleId_of_parts {job : String} {p q : List Char} {rest : List (List Char)}
    (h : job.toList.splitOn '_' = p :: q :: rest) :
    (extractSampleId job).toList = p ++ '_' :: q := by
  unfold extractSampleId
  rw [h]
  show (String.ofList p ++ "_" ++ String.ofList q).toList = _
  simp only [String.toList_append, String.toList_ofList, List.append_assoc]
  rfl

/-- The sample id comes back exactly if it has one underscore. -/
theorem extractSampleId_jobId (sid step : String) :
    extractSampleId (jobId sid step) = sid ↔
      ∃ a b, sid.toList = a ++ '_' :: b ∧ '_' ∉ a ∧ '_' ∉ b := by
  rw [← String.toList_inj]
  constructor
  · intro h
    by_cases hs : '_' ∈ sid.toList
    · obtain ⟨a, b, hab, ha⟩ := List.eq_append_cons_of_mem hs
      refine ⟨a, b, hab, ha, fun hb => ?_⟩
      -- a second underscore: the rest of the id is lost
      obtain ⟨c, d, hcd, hc⟩ := List.eq_append_cons_of_mem hb
      have hparts : (jobId sid step).toList.splitOn '_' =
          a :: c :: (d ++ '_' :: step.toList).splitOn '_' := by
        rw [toList_jobId, hab, hcd, List.append_assoc, List.cons_append, List.append_assoc,
          List.cons_append, List.splitOn_append_cons_self_of_not_mem ha,
          List.splitOn_append_cons_self_of_not_mem hc]
      rw [extractSampleId_of_parts hparts, hab, hcd] at h
      have hlen := congrArg List.length h
      simp only [List.length_append, List.length_cons] at hlen
      omega
    · -- no underscore: the step's first part is taken for a part of the id
      have hsplit : (jobId sid step).toList.splitOn '_' =
          sid.toList :: step.toList.splitOn '_' := by
        rw [toList_jobId, List.splitOn_append_cons_self_of_not_mem hs]
      obtain ⟨q, rest, hq⟩ := List.exists_cons_of_ne_nil (List.splitOn_ne_nil '_' step.toList)
      rw [hq] at hsplit
      rw [extractSampleId_of_parts hsplit] at h
      have hlen := congrArg List.length h
      simp only [List.length_append, List.length_cons] at hlen
      omega
  · intro h
    obtain ⟨a, b, hab, ha, hb⟩ := h
    have hparts : (jobId sid step).toList.splitOn '_' = a :: b :: step.toList.splitOn '_' := by
      rw [toList_jobId, hab, List.append_assoc, List.cons_append,
        List.splitOn_append_cons_self_of_not_mem ha,
        List.splitOn_append_cons_self_of_not_mem hb]
    rw [extractSampleId_of_parts hparts, hab]

/-- One worker that owns the sample `0001`. -/
def oneWorker : Network Unit := ⟨"osimflow:jobqueue:2025-01-01T12-00-00", fun _ => {"0001"}⟩

/-- The message is for `0001_RUN`, and the owner of `0001` drops it. -/
theorem owner_drops_its_sample :
    ¬ ∀ es : List (Event Unit), Always (step oneWorker) (Delivered oneWorker) start es := by
  intro h
  have hrun := h [.subscribe (), .publish "0001" "RUN_OPENSTUDIO_SIM" .markCompleted,
    .deliver () 0]
  have hlast := hrun.last
  have happ := (hlast 0 ⟨"0001", "RUN_OPENSTUDIO_SIM", .markCompleted, [()]⟩ rfl ()).2
    (by decide)
  exact absurd happ (by decide)

end OSimFlow.Queues.Delivery
