import OSimFlow.Cache.SharedStore

/-!
# Invalidations and the copies of other processes

Every process has a local table beside the shared hash. A lookup that misses
locally reads the hash and writes what it found back into the local table; an
invalidation deletes in the local table, then in the hash, and then publishes a
message upon which the other processes delete in theirs.

The operations are split at every access, and any number of them may be under
way in a process. Each entry remembers the `store` it comes from.

> `Fresh`: when an invalidation has returned and its message and all before it
> are delivered, no lookup returns an entry of the step or sample whose `store`
> was over when the invalidation began.

A process that has no subscriber keeps its local rows, and a back-fill may bring
back what was deleted while it was under way. `fresh_of_ordered` says that these
and a glob that misses its fields are all that goes wrong; the invariant is
`Coherent`.
-/

namespace OSimFlow.Cache.Broadcast

open OSimFlow.Lib

/-- A `lookup` between its shared read and its local write. -/
structure Backfill (P : Type) where
  proc : P
  key : CacheKey
  path : String
  origin : Nat
deriving DecidableEq

/-- A `store` between its local and its shared write. -/
structure Storing (P : Type) where
  proc : P
  key : CacheKey
  row : CacheRow
  origin : Nat
deriving DecidableEq

/-- Where an invalidation is. The message is published after the call has returned. -/
inductive Phase where
  | begun
  | locallyDeleted
  | scanned (fields : List String)
  | deleted
  | returned
  | published (time : Nat)
deriving DecidableEq

/-- A call of `invalidate_step` or `invalidate_sample`. -/
structure Call (P : Type) where
  owner : P
  inv : Invalidation
  began : Nat
  phase : Phase
deriving DecidableEq

/-- The processes, the hash and what is under way. The origin of an entry is the time
its `store` began; `completedAt` is when that `store` was over. -/
structure World (P : Type) where
  table : P → SQLiteCache
  tableOrigin : P → CacheKey → Nat
  shared : SharedStore
  sharedOrigin : String → Nat
  completedAt : Nat → Option Nat
  clock : Nat
  missed : List (P × CacheKey)
  backfills : List (Backfill P)
  storing : List (Storing P)
  calls : List (Call P)
  /-- Processes whose subscriber thread was started, and those subscribed now. -/
  started : List P
  subscribers : List P
  /-- The messages of which call are on the way to whom. -/
  inFlight : List (P × Nat)

/-- What can happen. -/
inductive Event (P : Type) where
  | lookupLocal (p : P) (key : CacheKey) (pathExists : Bool)
  | lookupShared (p : P) (key : CacheKey) (pathExists : Bool)
  | backfill (b : Backfill P)
  | storeLocal (p : P) (key : CacheKey) (row : CacheRow)
  | storeShared (s : Storing P)
  | invalidate (p : P) (inv : Invalidation)
  | advance (i : Nat)
  | subscribe (p : P)
  | unsubscribe (p : P)
  | deliver (p : P) (i : Nat)

/-- `_handle_invalidation` looks into the message: the names must not be empty. -/
def named : Invalidation → Bool
  | .step s => s != ""
  | .sample s x => s != "" && x != ""

namespace World

variable {P : Type}

def start : World P where
  table := fun _ => ∅
  tableOrigin := fun _ _ => 0
  shared := ∅
  sharedOrigin := fun _ => 0
  completedAt := fun _ => none
  clock := 0
  missed := []
  backfills := []
  storing := []
  calls := []
  started := []
  subscribers := []
  inFlight := []

/-- What the shared read of a lookup gives. -/
def sharedRead (w : World P) (key : CacheKey) (pathExists : Bool) : Option String :=
  w.shared.sharedLookup (fun _ => pathExists) key

/-- The call `i` goes on. -/
def setPhase (w : World P) (i : Nat) (phase : Phase) : World P :=
  { w with calls := w.calls.modify i fun call => { call with phase := phase } }

section

variable [DecidableEq P]

/-- The row of `key` in the table of `p` is written. -/
def writeRow (w : World P) (p : P) (key : CacheKey) (row : CacheRow) (origin : Nat) :
    World P :=
  { w with
    table := Function.update w.table p ((w.table p).store key row.outputPath row.exitCode)
    tableOrigin :=
      Function.update w.tableOrigin p (Function.update (w.tableOrigin p) key origin) }

/-- The rows of the table of `p` that `inv` is about are deleted. -/
def deleteRows (w : World P) (p : P) (inv : Invalidation) : World P :=
  { w with table := Function.update w.table p ((w.table p).invalidate inv) }

/-- The next step of an invalidation. -/
def advance (w : World P) (i : Nat) (call : Call P) : World P :=
  match call.phase with
  | .begun => (w.deleteRows call.owner call.inv).setPhase i .locallyDeleted
  | .locallyDeleted =>
    w.setPhase i (.scanned (w.shared.keys.filter (SharedStore.matched call.inv)))
  | .scanned fields =>
    { w.setPhase i .deleted with shared := w.shared.eraseIf fun field => decide (field ∈ fields) }
  | .deleted => w.setPhase i .returned
  | .returned =>
    { w.setPhase i (.published w.clock) with
      inFlight := w.subscribers.map (fun q => (q, i)) ++ w.inFlight }
  | .published _ => w

/-- What an event does. -/
def act (w : World P) : Event P → World P
  | .lookupLocal p key pathExists =>
    match (w.table p).lookup (fun _ => pathExists) key with
    | some _ => w
    | none => { w with missed := (p, key) :: w.missed }
  | .lookupShared p key pathExists =>
    if (p, key) ∈ w.missed then
      match w.sharedRead key pathExists with
      | some path =>
        { w with
          missed := w.missed.erase (p, key)
          backfills := ⟨p, key, path, w.sharedOrigin (fieldForKey key)⟩ :: w.backfills }
      | none => { w with missed := w.missed.erase (p, key) }
    else w
  | .backfill b =>
    if b ∈ w.backfills then
      { w.writeRow b.proc b.key ⟨b.path, 0⟩ b.origin with
        backfills := w.backfills.erase b }
    else w
  | .storeLocal p key row =>
    { w.writeRow p key row w.clock with storing := ⟨p, key, row, w.clock⟩ :: w.storing }
  | .storeShared s =>
    if s ∈ w.storing then
      { w with
        shared := w.shared.sharedStore s.key s.row
        sharedOrigin := Function.update w.sharedOrigin (fieldForKey s.key) s.origin
        completedAt := Function.update w.completedAt s.origin (some w.clock)
        storing := w.storing.erase s }
    else w
  | .invalidate p inv =>
    { w with
      calls := w.calls ++ [⟨p, inv, w.clock, .begun⟩]
      started := p :: w.started }
  | .advance i =>
    match w.calls[i]? with
    | some call => w.advance i call
    | none => w
  | .subscribe p => if p ∈ w.started then { w with subscribers := p :: w.subscribers } else w
  | .unsubscribe p => { w with subscribers := w.subscribers.filter fun q => decide (q ≠ p) }
  | .deliver p i =>
    if (p, i) ∈ w.inFlight then
      let w' := { w with inFlight := w.inFlight.erase (p, i) }
      match w.calls[i]? with
      -- a process drops its own messages
      | some call =>
        if call.owner ≠ p ∧ named call.inv = true then w'.deleteRows p call.inv else w'
      | none => w'
    else w

def step (w : World P) (e : Event P) : World P :=
  { w.act e with clock := w.clock + 1 }

end

/-! ## Freshness -/

section

variable (w : World P)

/-- The entry is of a `store` that was over when the invalidation began. -/
def Stale (call : Call P) (origin : Nat) : Prop :=
  ∃ t, w.completedAt origin = some t ∧ t < call.began

/-- The call has returned, and its message and all before it are delivered. -/
def Settled (call : Call P) : Prop :=
  ∃ time, call.phase = .published time ∧ ∀ q (j : Nat) (call' : Call P),
    (q, j) ∈ w.inFlight → w.calls[j]? = some call' →
    ∀ time', call'.phase = .published time' → time < time'

/-- What a lookup of `key` returns with this origin is not what a settled invalidation
was to remove. -/
def Allowed (key : CacheKey) (origin : Nat) : Prop :=
  ∀ (i : Nat) (call : Call P), w.calls[i]? = some call → w.Settled call →
    call.inv.covers key = true →
    ¬ w.Stale call origin

/-- No lookup reads or returns an entry that should be gone. -/
def Fresh : Event P → Prop
  | .lookupLocal p key pathExists => ∀ path,
      (w.table p).lookup (fun _ => pathExists) key = some path →
      w.Allowed key (w.tableOrigin p key)
  | .lookupShared p key pathExists => (p, key) ∈ w.missed → ∀ path,
      w.sharedRead key pathExists = some path → w.Allowed key (w.sharedOrigin (fieldForKey key))
  | .backfill b => b ∈ w.backfills → w.Allowed b.key b.origin
  | _ => True

/-- The glob of the invalidation matches the fields of the keys it is about. -/
def Reaches (inv : Invalidation) : Prop :=
  ∀ key, inv.covers key = true → SharedStore.matched inv (fieldForKey key) = true

/-- The table of `q` will not be looked through for the call any more: its owner's was,
and of the others those to which no message is on the way. -/
def Purged (i : Nat) (call : Call P) (q : P) : Prop :=
  (call.owner = q ∧ call.phase ≠ .begun) ∨
    (call.owner ≠ q ∧ (∃ time, call.phase = .published time) ∧
      ((q, i) ∉ w.inFlight ∨ named call.inv = false))

/-- The steps that leave nothing behind: a back-fill brings back nothing that the table
was looked through for; the glob reaches its fields; and when the message is published,
every process that will not act on it has no row of an entry to be removed. -/
def Ordered : Event P → Prop
  | .backfill b => b ∈ w.backfills → ∀ (i : Nat) (call : Call P), w.calls[i]? = some call →
      call.inv.covers b.key = true → w.Stale call b.origin → ¬ w.Purged i call b.proc
  | .advance i => ∀ call, w.calls[i]? = some call →
      (call.phase = .locallyDeleted → Reaches call.inv) ∧
      (call.phase = .returned → ∀ q, q ≠ call.owner →
        (q ∉ w.subscribers ∨ named call.inv = false) → ∀ key row,
        (w.table q).get? key = some row → call.inv.covers key = true →
        ¬ w.Stale call (w.tableOrigin q key))
  | _ => True

end

/-! ## The invariant -/

/-- The hash was swept for the call. -/
def Swept (phase : Phase) : Prop :=
  phase = .deleted ∨ phase = .returned ∨ ∃ time, phase = .published time

/-- What a call has removed is not there. -/
structure CallOk (w : World P) (i : Nat) (call : Call P) : Prop where
  began : call.began ≤ w.clock
  tables : ∀ q, w.Purged i call q → ∀ key row, (w.table q).get? key = some row →
    call.inv.covers key = true → ¬ w.Stale call (w.tableOrigin q key)
  scanned : ∀ fields, call.phase = .scanned fields → ∀ key entry,
    call.inv.covers key = true → w.shared.get? (fieldForKey key) = some entry →
    w.Stale call (w.sharedOrigin (fieldForKey key)) → fieldForKey key ∈ fields
  shared : Swept call.phase → ∀ key entry, call.inv.covers key = true →
    w.shared.get? (fieldForKey key) = some entry →
    ¬ w.Stale call (w.sharedOrigin (fieldForKey key))

/-- Every call is as it should be, and no `store` of the future is over. -/
structure Coherent (w : World P) : Prop where
  done : ∀ n t, w.completedAt n = some t → n < w.clock
  storing : ∀ s ∈ w.storing, s.origin < w.clock
  calls : ∀ (i : Nat) (call : Call P), w.calls[i]? = some call → w.CallOk i call

theorem start_coherent : (start : World P).Coherent where
  done := fun _ _ h => nomatch h
  storing := fun _ h => nomatch h
  calls := fun _ _ h => nomatch h

variable {w : World P}

theorem Settled.purged {i : Nat} {call : Call P} (hc : w.calls[i]? = some call)
    (hs : w.Settled call) (q : P) : w.Purged i call q := by
  obtain ⟨time, hphase, hbefore⟩ := hs
  by_cases ho : call.owner = q
  · refine Or.inl ⟨ho, ?_⟩
    rw [hphase]
    exact fun h => nomatch h
  · refine Or.inr ⟨ho, ⟨time, hphase⟩, Or.inl fun hmem => ?_⟩
    exact absurd (hbefore q i call hmem hc time hphase) (lt_irrefl _)

/-- Under the invariant an ordered step is fresh. -/
theorem Coherent.fresh (hw : w.Coherent) {e : Event P} (ho : w.Ordered e) : w.Fresh e := by
  cases e with
  | lookupLocal p key pathExists =>
    intro path hpath i call hc hs hcov
    obtain ⟨row, hrow, -⟩ := Option.bind_eq_some_iff.mp hpath
    exact (hw.calls i call hc).tables p (hs.purged hc p) key row hrow hcov
  | lookupShared p key pathExists =>
    intro _ path hpath i call hc hs hcov
    obtain ⟨entry, hentry, -⟩ := Option.bind_eq_some_iff.mp hpath
    obtain ⟨time, hphase, -⟩ := hs
    exact (hw.calls i call hc).shared (Or.inr (Or.inr ⟨time, hphase⟩)) key entry hcov hentry
  | backfill b =>
    intro hmem i call hc hs hcov hstale
    exact ho hmem i call hc hcov hstale (hs.purged hc b.proc)
  | _ => trivial

/-! ## One step at a time -/

/-- A message less on the way is what makes a table purged. -/
theorem Purged.of_inFlight {w' : World P} {i : Nat} {call : Call P} {q : P}
    (hp : w'.Purged i call q) (hflight : (q, i) ∈ w.inFlight → (q, i) ∈ w'.inFlight) :
    w.Purged i call q := by
  rcases hp with hp | ⟨hne, htime, hnot⟩
  · exact Or.inl hp
  · exact Or.inr ⟨hne, htime, hnot.imp_left fun hno hmem => hno (hflight hmem)⟩

/-- What a step must keep for a call to stay as it should be: a row or an entry that is
stale after it was there before, in a table that was purged. -/
theorem CallOk.mono {w' : World P} {i : Nat} {call : Call P} (h : w.CallOk i call)
    (hclock : w.clock ≤ w'.clock)
    (hstale : ∀ n, w'.Stale call n → w.Stale call n)
    (htable : ∀ q, w'.Purged i call q → ∀ key row, (w'.table q).get? key = some row →
      call.inv.covers key = true → w'.Stale call (w'.tableOrigin q key) →
      w.Purged i call q ∧ (w.table q).get? key = some row ∧
        w.tableOrigin q key = w'.tableOrigin q key)
    (hshared : ∀ key entry, w'.shared.get? (fieldForKey key) = some entry →
      w'.Stale call (w'.sharedOrigin (fieldForKey key)) →
      w.shared.get? (fieldForKey key) = some entry ∧
        w.sharedOrigin (fieldForKey key) = w'.sharedOrigin (fieldForKey key)) :
    w'.CallOk i call := by
  refine ⟨le_trans h.began hclock, fun q hp key row hrow hcov hs => ?_,
    fun fields hph key entry hcov hentry hs => ?_, fun hsw key entry hcov hentry hs => ?_⟩
  · obtain ⟨hp', hrow', horigin⟩ := htable q hp key row hrow hcov hs
    refine h.tables q hp' key row hrow' hcov ?_
    rw [horigin]
    exact hstale _ hs
  · obtain ⟨hentry', horigin⟩ := hshared key entry hentry hs
    refine h.scanned fields hph key entry hcov hentry' ?_
    rw [horigin]
    exact hstale _ hs
  · obtain ⟨hentry', horigin⟩ := hshared key entry hentry hs
    refine h.shared hsw key entry hcov hentry' ?_
    rw [horigin]
    exact hstale _ hs

/-- What the owner's table was purged of stays away. -/
theorem CallOk.ownTable {i : Nat} {call : Call P} (h : w.CallOk i call)
    (hphase : call.phase ≠ .begun) {key : CacheKey} {row : CacheRow}
    (hrow : (w.table call.owner).get? key = some row)
    (hcov : call.inv.covers key = true) :
    ¬ w.Stale call (w.tableOrigin call.owner key) :=
  h.tables call.owner (Or.inl ⟨rfl, hphase⟩) key row hrow hcov

/-- The second world has no row and no entry that the first has not. -/
structure Shrinks (w w' : World P) : Prop where
  clock : w.clock ≤ w'.clock
  completedAt : w'.completedAt = w.completedAt
  storing : w'.storing = w.storing
  table : ∀ q key row, (w'.table q).get? key = some row → (w.table q).get? key = some row
  tableOrigin : w'.tableOrigin = w.tableOrigin
  shared : ∀ field entry, w'.shared.get? field = some entry → w.shared.get? field = some entry
  sharedOrigin : w'.sharedOrigin = w.sharedOrigin

theorem Shrinks.stale {w' : World P} (hs : w.Shrinks w') {call : Call P} {n : Nat}
    (h : w'.Stale call n) : w.Stale call n := by
  rw [Stale, hs.completedAt] at h
  exact h

theorem CallOk.shrink {w' : World P} {i : Nat} {call : Call P} (h : w.CallOk i call)
    (hs : w.Shrinks w') (hp : ∀ q, w'.Purged i call q → w.Purged i call q) :
    w'.CallOk i call :=
  h.mono hs.clock (fun _ => hs.stale)
    (fun q hq key row hrow _ _ => ⟨hp q hq, hs.table q key row hrow, by rw [hs.tableOrigin]⟩)
    fun key entry hentry _ => ⟨hs.shared _ entry hentry, by rw [hs.sharedOrigin]⟩

theorem Coherent.shrink {w' : World P} (hw : w.Coherent) (hs : w.Shrinks w')
    (hcalls : ∀ (i : Nat) (call : Call P), w'.calls[i]? = some call → w'.CallOk i call) :
    w'.Coherent where
  done := by
    rw [hs.completedAt]
    exact fun n t h => lt_of_lt_of_le (hw.done n t h) hs.clock
  storing := by
    rw [hs.storing]
    exact fun s h => lt_of_lt_of_le (hw.storing s h) hs.clock
  calls := hcalls

/-- Steps that move neither calls nor messages. -/
theorem Coherent.frame {w' : World P} (hw : w.Coherent) (hs : w.Shrinks w')
    (hcalls : w'.calls = w.calls) (hflight : w'.inFlight = w.inFlight) : w'.Coherent := by
  refine hw.shrink hs fun i call hc => ?_
  rw [hcalls] at hc
  exact (hw.calls i call hc).shrink hs fun q hp => hp.of_inFlight fun h => hflight ▸ h

/-- Only the listed lists of the second world may differ. -/
theorem Shrinks.tick (w : World P) (missed : List (P × CacheKey)) (backfills : List (Backfill P))
    (subscribers started : List P) (calls : List (Call P)) (inFlight : List (P × Nat)) :
    w.Shrinks { w with
      missed, backfills, subscribers, started, calls, inFlight, clock := w.clock + 1 } :=
  ⟨Nat.le_succ _, rfl, rfl, fun _ _ _ h => h, rfl, fun _ _ h => h, rfl⟩

theorem Coherent.tick (hw : w.Coherent) : { w with clock := w.clock + 1 }.Coherent :=
  hw.frame (Shrinks.tick w _ _ _ _ _ _) rfl rfl

/-- A call of the list after the phase of the call `i` was set. -/
theorem of_setPhase {i j : Nat} {call call' : Call P} {phase : Phase}
    (hc : w.calls[i]? = some call) (h : (w.setPhase i phase).calls[j]? = some call') :
    (j ≠ i ∧ w.calls[j]? = some call') ∨ (j = i ∧ call' = { call with phase := phase }) := by
  have hmod : (w.calls.modify i fun call => { call with phase := phase })[j]? = some call' := h
  rw [List.getElem?_modify] at hmod
  by_cases hj : i = j
  · subst hj
    rw [hc] at hmod
    simp only [Option.map_eq_map, Option.map_some, if_true] at hmod
    exact Or.inr ⟨rfl, (Option.some.inj hmod).symm⟩
  · simp only [if_neg hj, Option.map_eq_map, Option.map_id'] at hmod
    exact Or.inl ⟨Ne.symm hj, hmod⟩

/-- When the call `i` goes on, the others stay as they should be if no message is
delivered. -/
theorem Coherent.goesOn {w' : World P} (hw : w.Coherent) {i : Nat} {call : Call P}
    (hc : w.calls[i]? = some call) {phase : Phase} (hs : w.Shrinks w')
    (hcalls : w'.calls = (w.setPhase i phase).calls)
    (hflight : ∀ x ∈ w.inFlight, x ∈ w'.inFlight)
    (hself : w'.CallOk i { call with phase := phase }) : w'.Coherent := by
  refine hw.shrink hs fun j call' hc' => ?_
  rw [hcalls] at hc'
  rcases of_setPhase hc hc' with ⟨-, hc'⟩ | ⟨rfl, rfl⟩
  · exact (hw.calls j call' hc').shrink hs fun q hp => hp.of_inFlight (hflight _)
  · exact hself

/-! The phases of an invalidation, one lemma each. -/

section

variable {i : Nat} {call : Call P}

theorem advance_locallyDeleted (hw : w.Coherent) (hc : w.calls[i]? = some call)
    (hphase : call.phase = .locallyDeleted) (hr : Reaches call.inv) :
    { w.setPhase i (.scanned (w.shared.keys.filter (SharedStore.matched call.inv))) with
      clock := w.clock + 1 }.Coherent := by
  have hok := hw.calls i call hc
  refine hw.goesOn hc (Shrinks.tick w _ _ _ _ _ _) rfl (fun x hx => hx) ?_
  refine ⟨Nat.le_succ_of_le hok.began, fun q hp key row hrow hcov => ?_,
    fun fields h key entry hcov hentry hstale => ?_, fun hsw => ?_⟩
  · rcases hp with ⟨rfl, -⟩ | ⟨-, ⟨time, h⟩, -⟩
    · exact hok.ownTable (by rw [hphase]; exact fun h => nomatch h) hrow hcov
    · exact nomatch h
  · injection h with h
    rw [← h, List.mem_filter]
    exact ⟨Dict.mem_keys_of_get? hentry, hr key hcov⟩
  · rcases hsw with h | h | ⟨time, h⟩
    · exact nomatch h
    · exact nomatch h
    · exact nomatch h

theorem advance_scanned (hw : w.Coherent) (hc : w.calls[i]? = some call)
    {fields : List String} (hphase : call.phase = .scanned fields) :
    { w.setPhase i .deleted with
      shared := w.shared.eraseIf fun field => decide (field ∈ fields)
      clock := w.clock + 1 }.Coherent := by
  have hok := hw.calls i call hc
  have hget : ∀ field entry,
      (w.shared.eraseIf fun field => decide (field ∈ fields)).get? field = some entry →
      field ∉ fields ∧ w.shared.get? field = some entry := by
    intro field entry h
    rw [Dict.get?_eraseIf] at h
    by_cases hf : field ∈ fields
    · rw [if_pos (decide_eq_true hf)] at h
      exact nomatch h
    · rw [if_neg (fun h => hf (of_decide_eq_true h))] at h
      exact ⟨hf, h⟩
  refine hw.goesOn hc ⟨Nat.le_succ _, rfl, rfl, fun _ _ _ h => h, rfl,
    fun field entry h => (hget field entry h).2, rfl⟩ rfl (fun x hx => hx) ?_
  refine ⟨Nat.le_succ_of_le hok.began, fun q hp key row hrow hcov => ?_,
    (fun fields h => nomatch h), fun _ key entry hcov hentry hstale => ?_⟩
  · rcases hp with ⟨rfl, -⟩ | ⟨-, ⟨time, h⟩, -⟩
    · exact hok.ownTable (by rw [hphase]; exact fun h => nomatch h) hrow hcov
    · exact nomatch h
  · obtain ⟨hnot, hbefore⟩ := hget _ entry hentry
    exact hnot (hok.scanned fields hphase key entry hcov hbefore hstale)

theorem advance_deleted (hw : w.Coherent) (hc : w.calls[i]? = some call)
    (hphase : call.phase = .deleted) :
    { w.setPhase i .returned with clock := w.clock + 1 }.Coherent := by
  have hok := hw.calls i call hc
  refine hw.goesOn hc (Shrinks.tick w _ _ _ _ _ _) rfl (fun x hx => hx) ?_
  refine ⟨Nat.le_succ_of_le hok.began, fun q hp key row hrow hcov => ?_,
    (fun fields h => nomatch h), fun _ => hok.shared (Or.inl hphase)⟩
  rcases hp with ⟨rfl, -⟩ | ⟨-, ⟨time, h⟩, -⟩
  · exact hok.ownTable (by rw [hphase]; exact fun h => nomatch h) hrow hcov
  · exact nomatch h

theorem advance_returned (hw : w.Coherent) (hc : w.calls[i]? = some call)
    (hphase : call.phase = .returned)
    (hquiet : ∀ q, q ≠ call.owner → (q ∉ w.subscribers ∨ named call.inv = false) →
      ∀ key row, (w.table q).get? key = some row → call.inv.covers key = true →
      ¬ w.Stale call (w.tableOrigin q key)) :
    { w.setPhase i (.published w.clock) with
      inFlight := w.subscribers.map (fun q => (q, i)) ++ w.inFlight
      clock := w.clock + 1 }.Coherent := by
  have hok := hw.calls i call hc
  refine hw.goesOn hc (Shrinks.tick w _ _ _ _ _ _) rfl
    (fun x hx => List.mem_append_right _ hx) ?_
  refine ⟨Nat.le_succ_of_le hok.began, fun q hp key row hrow hcov => ?_,
    (fun fields h => nomatch h), fun _ => hok.shared (Or.inr (Or.inl hphase))⟩
  rcases hp with ⟨rfl, -⟩ | ⟨hne, -, hnot⟩
  · exact hok.ownTable (by rw [hphase]; exact fun h => nomatch h) hrow hcov
  · refine hquiet q (Ne.symm hne) (hnot.imp_left fun hno hsub => ?_) key row hrow hcov
    exact hno (List.mem_append_left _ (List.mem_map.mpr ⟨q, hsub, rfl⟩))

end

variable [DecidableEq P]

theorem writeRow_get? (p : P) (key : CacheKey) (row : CacheRow) (origin : Nat) {q : P}
    {key' : CacheKey} (h : (p, key) ≠ (q, key')) :
    ((w.writeRow p key row origin).table q).get? key' = (w.table q).get? key' ∧
      (w.writeRow p key row origin).tableOrigin q key' = w.tableOrigin q key' := by
  by_cases hq : q = p
  · subst hq
    have hk : key ≠ key' := fun he => h (by rw [he])
    constructor
    · show (Function.update w.table q _ q).get? key' = _
      rw [Function.update_self, SQLiteCache.store, Dict.get?_set_ne _ hk]
    · show Function.update w.tableOrigin q _ q key' = _
      rw [Function.update_self, Function.update_of_ne (fun he => hk he.symm)]
  · constructor
    · show (Function.update w.table p _ q).get? key' = _
      rw [Function.update_of_ne hq]
    · show Function.update w.tableOrigin p _ q key' = _
      rw [Function.update_of_ne hq]

theorem writeRow_origin (p : P) (key : CacheKey) (row : CacheRow) (origin : Nat) :
    (w.writeRow p key row origin).tableOrigin p key = origin := by
  show Function.update w.tableOrigin p _ p key = origin
  rw [Function.update_self, Function.update_self]

/-- A row that is there after the rows of `inv` were deleted in the table of `p`. -/
theorem deleteRows_get? {p q : P} {inv : Invalidation} {key : CacheKey} {row : CacheRow}
    (h : ((w.deleteRows p inv).table q).get? key = some row) :
    (w.table q).get? key = some row ∧ (q = p → inv.covers key ≠ true) := by
  by_cases hq : q = p
  · subst hq
    have hget : (SQLiteCache.invalidate (w.table q) inv).get? key = some row := by
      have hself : (w.deleteRows q inv).table q = SQLiteCache.invalidate (w.table q) inv :=
        Function.update_self ..
      rw [hself] at h
      exact h
    rw [SQLiteCache.get?_invalidate] at hget
    split at hget
    next => cases hget
    next hcov => exact ⟨hget, fun _ => hcov⟩
  · have hother : (w.deleteRows p inv).table q = w.table q := Function.update_of_ne hq ..
    rw [hother] at h
    exact ⟨h, fun he => absurd he hq⟩

theorem step_backfill_coherent (hw : w.Coherent) {b : Backfill P}
    (ho : w.Ordered (.backfill b)) : (w.step (.backfill b)).Coherent := by
  by_cases hb : b ∈ w.backfills
  · have he : w.step (.backfill b) = { w.writeRow b.proc b.key ⟨b.path, 0⟩ b.origin with
        backfills := w.backfills.erase b, clock := w.clock + 1 } := by
      rw [step, act, if_pos hb]
    rw [he]
    refine ⟨fun n t h => Nat.lt_succ_of_lt (hw.done n t h),
      fun s h => Nat.lt_succ_of_lt (hw.storing s h), fun i call hc => ?_⟩
    refine (hw.calls i call hc).mono (Nat.le_succ _) (fun n h => h)
      (fun q hp key row hrow hcov hs => ?_) fun key entry hentry _ => ⟨hentry, rfl⟩
    by_cases hkey : (b.proc, b.key) = (q, key)
    · injection hkey with hq hk
      subst hq hk
      -- the row that was written is not of a purged table
      have horigin : w.Stale call b.origin := by
        have := w.writeRow_origin b.proc b.key ⟨b.path, 0⟩ b.origin
        rw [← this]
        exact hs
      exact absurd hp (ho hb i call hc hcov horigin)
    · obtain ⟨hget, horigin⟩ := writeRow_get? b.proc b.key ⟨b.path, 0⟩ b.origin hkey
      exact ⟨hp, hget ▸ hrow, horigin.symm⟩
  · have he : w.step (.backfill b) = { w with clock := w.clock + 1 } := by
      rw [step, act, if_neg hb]
    rw [he]
    exact hw.tick

theorem step_storeLocal_coherent (hw : w.Coherent) (p : P) (key : CacheKey) (row : CacheRow) :
    (w.step (.storeLocal p key row)).Coherent := by
  refine ⟨fun n t h => Nat.lt_succ_of_lt (hw.done n t h), fun s hs => ?_, fun i call hc => ?_⟩
  · rcases List.mem_cons.mp hs with rfl | hs
    · exact Nat.lt_succ_self w.clock
    · exact Nat.lt_succ_of_lt (hw.storing s hs)
  · refine (hw.calls i call hc).mono (Nat.le_succ _) (fun n h => h)
      (fun q hp key' row' hrow hcov hs => ?_) fun key entry hentry _ => ⟨hentry, rfl⟩
    by_cases hkey : (p, key) = (q, key')
    · injection hkey with hq hk
      subst hq hk
      -- this `store` is not over
      obtain ⟨t, ht, -⟩ := hs
      have horigin := w.writeRow_origin p key row w.clock
      have hlt := hw.done w.clock t (horigin ▸ ht)
      exact absurd hlt (lt_irrefl _)
    · obtain ⟨hget, horigin⟩ := writeRow_get? p key row w.clock hkey
      exact ⟨hp, hget ▸ hrow, horigin.symm⟩

theorem step_storeShared_coherent (hw : w.Coherent) (s : Storing P) :
    (w.step (.storeShared s)).Coherent := by
  by_cases hs : s ∈ w.storing
  · have he : w.step (.storeShared s) = { w with
        shared := w.shared.sharedStore s.key s.row
        sharedOrigin := Function.update w.sharedOrigin (fieldForKey s.key) s.origin
        completedAt := Function.update w.completedAt s.origin (some w.clock)
        storing := w.storing.erase s
        clock := w.clock + 1 } := by
      rw [step, act, if_pos hs]
    rw [he]
    -- over now is not over when a call of before began
    have hstale : ∀ (i : Nat) (call : Call P), w.calls[i]? = some call → ∀ n t,
        Function.update w.completedAt s.origin (some w.clock) n = some t → t < call.began →
        n ≠ s.origin ∧ w.completedAt n = some t := by
      intro i call hc n t ht hlt
      by_cases hn : n = s.origin
      · rw [hn, Function.update_self] at ht
        have hbegan := (hw.calls i call hc).began
        have htime := Option.some.inj ht
        omega
      · rw [Function.update_of_ne hn] at ht
        exact ⟨hn, ht⟩
    refine ⟨fun n t h => ?_, fun s' h => ?_, fun i call hc => ?_⟩
    · by_cases hn : n = s.origin
      · rw [hn]
        exact Nat.lt_succ_of_lt (hw.storing s hs)
      · exact Nat.lt_succ_of_lt (hw.done n t ((Function.update_of_ne hn ..).symm.trans h))
    · exact Nat.lt_succ_of_lt (hw.storing s' (List.mem_of_mem_erase h))
    · refine (hw.calls i call hc).mono (Nat.le_succ _) (fun n h => ?_)
        (fun q hp key row hrow _ _ => ⟨hp, hrow, rfl⟩) fun key entry hentry h => ?_
      · obtain ⟨t, ht, hlt⟩ := h
        dsimp only at ht
        exact ⟨t, (hstale i call hc n t ht hlt).2, hlt⟩
      · obtain ⟨t, ht, hlt⟩ := h
        dsimp only at ht
        have hne := (hstale i call hc _ t ht hlt).1
        have hfield : fieldForKey key ≠ fieldForKey s.key := by
          intro hf
          refine hne ?_
          rw [hf, Function.update_self]
        constructor
        · have hget : (w.shared.sharedStore s.key s.row).get? (fieldForKey key) = some entry :=
            hentry
          rw [SharedStore.get?_sharedStore_ne (Ne.symm hfield)] at hget
          exact hget
        · dsimp only
          rw [Function.update_of_ne hfield]
  · have he : w.step (.storeShared s) = { w with clock := w.clock + 1 } := by
      rw [step, act, if_neg hs]
    rw [he]
    exact hw.tick

theorem step_invalidate_coherent (hw : w.Coherent) (p : P) (inv : Invalidation) :
    (w.step (.invalidate p inv)).Coherent := by
  refine ⟨fun n t h => Nat.lt_succ_of_lt (hw.done n t h),
    fun s h => Nat.lt_succ_of_lt (hw.storing s h), fun i call hc => ?_⟩
  have hc' : (w.calls ++ [⟨p, inv, w.clock, .begun⟩])[i]? = some call := hc
  by_cases hi : i < w.calls.length
  · rw [List.getElem?_append_left hi] at hc'
    exact (hw.calls i call hc').mono (Nat.le_succ _) (fun n h => h)
      (fun q hp key row hrow _ _ => ⟨hp, hrow, rfl⟩) fun key entry hentry _ => ⟨hentry, rfl⟩
  · rw [List.getElem?_append_right (by omega)] at hc'
    -- the new call has removed nothing yet
    have hnew : call = ⟨p, inv, w.clock, .begun⟩ :=
      List.mem_singleton.mp (List.mem_of_getElem? hc')
    subst hnew
    refine ⟨Nat.le_succ _, fun q hp => ?_, (fun fields h => nomatch h), fun hsw => ?_⟩
    · rcases hp with ⟨-, hne⟩ | ⟨-, ⟨time, h⟩, -⟩
      · exact absurd rfl hne
      · exact nomatch h
    · rcases hsw with h | h | ⟨time, h⟩
      · exact nomatch h
      · exact nomatch h
      · exact nomatch h

theorem deleteRows_shrinks (p : P) (inv : Invalidation) (calls : List (Call P))
    (inFlight : List (P × Nat)) :
    w.Shrinks { w.deleteRows p inv with calls, inFlight, clock := w.clock + 1 } :=
  ⟨Nat.le_succ _, rfl, rfl, fun _ _ _ h => (deleteRows_get? h).1, rfl, fun _ _ h => h, rfl⟩

theorem advance_begun {i : Nat} {call : Call P} (hw : w.Coherent) (hc : w.calls[i]? = some call) :
    { (w.deleteRows call.owner call.inv).setPhase i .locallyDeleted with
      clock := w.clock + 1 }.Coherent := by
  have hs := w.deleteRows_shrinks call.owner call.inv
    (w.setPhase i .locallyDeleted).calls w.inFlight
  refine hw.goesOn hc hs rfl (fun x hx => hx) ?_
  refine ⟨Nat.le_succ_of_le (hw.calls i call hc).began, fun q hp key row hrow hcov => ?_,
    (fun fields h => nomatch h), fun hsw => ?_⟩
  · rcases hp with ⟨howner, -⟩ | ⟨-, ⟨time, h⟩, -⟩
    · exact absurd hcov ((deleteRows_get? hrow).2 howner.symm)
    · exact nomatch h
  · rcases hsw with h | h | ⟨time, h⟩
    · exact nomatch h
    · exact nomatch h
    · exact nomatch h

theorem step_advance_coherent (hw : w.Coherent) {i : Nat} (ho : w.Ordered (.advance i)) :
    (w.step (.advance i)).Coherent := by
  cases hc : w.calls[i]? with
  | none =>
    have he : w.step (.advance i) = { w with clock := w.clock + 1 } := by
      rw [step, act, hc]
    rw [he]
    exact hw.tick
  | some call =>
    obtain ⟨hreaches, hquiet⟩ := ho call hc
    have he : w.step (.advance i) = { w.advance i call with clock := w.clock + 1 } := by
      rw [step, act, hc]
    rw [he]
    cases hphase : call.phase with
    | begun =>
      rw [advance, hphase]
      exact advance_begun hw hc
    | locallyDeleted =>
      rw [advance, hphase]
      exact advance_locallyDeleted hw hc hphase (hreaches hphase)
    | scanned fields =>
      rw [advance, hphase]
      exact advance_scanned hw hc hphase
    | deleted =>
      rw [advance, hphase]
      exact advance_deleted hw hc hphase
    | returned =>
      rw [advance, hphase]
      exact advance_returned hw hc hphase (hquiet hphase)
    | published time =>
      rw [advance, hphase]
      exact hw.tick

theorem step_deliver_coherent (hw : w.Coherent) (p : P) (i : Nat) :
    (w.step (.deliver p i)).Coherent := by
  by_cases hm : (p, i) ∈ w.inFlight
  · -- of the tables of others and the messages of other calls, nothing changes
    have hpurged : ∀ {w' : World P} {q : P} {j : Nat} {call : Call P},
        w'.inFlight = w.inFlight.erase (p, i) → (q, j) ≠ (p, i) → w'.Purged j call q →
        w.Purged j call q := by
      intro w' q j call he hne hp
      refine hp.of_inFlight fun h => ?_
      rw [he]
      exact (List.mem_erase_of_ne hne).mpr h
    cases hc : w.calls[i]? with
    | none =>
      have he : w.step (.deliver p i) =
          { w with inFlight := w.inFlight.erase (p, i), clock := w.clock + 1 } := by
        rw [step, act, if_pos hm, hc]
      rw [he]
      refine hw.shrink (Shrinks.tick w _ _ _ _ _ _) fun j call' hc' => ?_
      have hj : j ≠ i := by
        rintro rfl
        exact nomatch hc.symm.trans hc'
      exact (hw.calls j call' hc').shrink (Shrinks.tick w _ _ _ _ _ _)
        fun q => hpurged rfl fun h => hj (congrArg Prod.snd h)
    | some call =>
      by_cases hacts : call.owner ≠ p ∧ named call.inv = true
      · have he : w.step (.deliver p i) = { w.deleteRows p call.inv with
            inFlight := w.inFlight.erase (p, i), clock := w.clock + 1 } := by
          rw [step, act, if_pos hm, hc]
          dsimp only
          rw [if_pos hacts]
          rfl
        rw [he]
        have hs := w.deleteRows_shrinks p call.inv w.calls (w.inFlight.erase (p, i))
        refine hw.shrink hs fun j call' hc' => ?_
        have hok := hw.calls j call' hc'
        refine hok.mono (Nat.le_succ _) (fun n h => h) (fun q hp key row hrow hcov hst => ?_)
          fun key entry hentry _ => ⟨hentry, rfl⟩
        obtain ⟨hbefore, hgone⟩ := deleteRows_get? hrow
        by_cases hqj : (q, j) = (p, i)
        · injection hqj with hq hj
          subst hq hj
          have heq : call' = call := Option.some.inj (hc'.symm.trans hc)
          exact absurd (heq ▸ hcov) (hgone rfl)
        · exact ⟨hpurged rfl hqj hp, hbefore, rfl⟩
      · have he : w.step (.deliver p i) =
            { w with inFlight := w.inFlight.erase (p, i), clock := w.clock + 1 } := by
          rw [step, act, if_pos hm, hc]
          dsimp only
          rw [if_neg hacts]
        rw [he]
        refine hw.shrink (Shrinks.tick w _ _ _ _ _ _) fun j call' hc' => ?_
        refine (hw.calls j call' hc').shrink (Shrinks.tick w _ _ _ _ _ _) fun q hp => ?_
        by_cases hqj : (q, j) = (p, i)
        · injection hqj with hq hj
          subst hq hj
          have heq : call' = call := Option.some.inj (hc'.symm.trans hc)
          subst heq
          -- a message that is not acted on: its own, or one without a name
          rcases hp with hp | ⟨hne, htime, -⟩
          · exact Or.inl hp
          · refine Or.inr ⟨hne, htime, Or.inr ?_⟩
            cases hn : named call'.inv with
            | false => rfl
            | true => exact absurd ⟨hne, hn⟩ hacts
        · exact hpurged rfl hqj hp
  · have he : w.step (.deliver p i) = { w with clock := w.clock + 1 } := by
      rw [step, act, if_neg hm]
    rw [he]
    exact hw.tick

/-- An ordered step keeps the invariant. -/
theorem step_coherent (e : Event P) (hw : w.Coherent) (ho : w.Ordered e) :
    (w.step e).Coherent := by
  cases e with
  | lookupLocal p key pathExists =>
    cases h : (w.table p).lookup (fun _ => pathExists) key with
    | some path =>
      have he : w.step (.lookupLocal p key pathExists) = { w with clock := w.clock + 1 } := by
        rw [step, act, h]
      rw [he]
      exact hw.tick
    | none =>
      have he : w.step (.lookupLocal p key pathExists) =
          { w with missed := (p, key) :: w.missed, clock := w.clock + 1 } := by
        rw [step, act, h]
      rw [he]
      exact hw.frame (Shrinks.tick w _ _ _ _ _ _) rfl rfl
  | lookupShared p key pathExists =>
    by_cases hm : (p, key) ∈ w.missed
    · cases h : w.sharedRead key pathExists with
      | some path =>
        have he : w.step (.lookupShared p key pathExists) =
            { w with
              missed := w.missed.erase (p, key)
              backfills := ⟨p, key, path, w.sharedOrigin (fieldForKey key)⟩ :: w.backfills
              clock := w.clock + 1 } := by
          rw [step, act, if_pos hm, h]
        rw [he]
        exact hw.frame (Shrinks.tick w _ _ _ _ _ _) rfl rfl
      | none =>
        have he : w.step (.lookupShared p key pathExists) =
            { w with missed := w.missed.erase (p, key), clock := w.clock + 1 } := by
          rw [step, act, if_pos hm, h]
        rw [he]
        exact hw.frame (Shrinks.tick w _ _ _ _ _ _) rfl rfl
    · have he : w.step (.lookupShared p key pathExists) = { w with clock := w.clock + 1 } := by
        rw [step, act, if_neg hm]
      rw [he]
      exact hw.tick
  | backfill b => exact step_backfill_coherent hw ho
  | storeLocal p key row => exact step_storeLocal_coherent hw p key row
  | storeShared s => exact step_storeShared_coherent hw s
  | invalidate p inv => exact step_invalidate_coherent hw p inv
  | advance i => exact step_advance_coherent hw ho
  | subscribe p =>
    by_cases hp : p ∈ w.started
    · have he : w.step (.subscribe p) =
          { w with subscribers := p :: w.subscribers, clock := w.clock + 1 } := by
        rw [step, act, if_pos hp]
      rw [he]
      exact hw.frame (Shrinks.tick w _ _ _ _ _ _) rfl rfl
    · have he : w.step (.subscribe p) = { w with clock := w.clock + 1 } := by
        rw [step, act, if_neg hp]
      rw [he]
      exact hw.tick
  | unsubscribe p => exact hw.frame (Shrinks.tick w _ _ _ _ _ _) rfl rfl
  | deliver p i => exact step_deliver_coherent hw p i

/-- A glob reaches its fields when no name in it has a special character. -/
theorem reaches_of_plain (inv : Invalidation) (h : SharedStore.PlainInvalidation inv) :
    Reaches inv :=
  fun _ hcov => SharedStore.matched_of_covers h hcov

/-- In every ordered run of any processes, no lookup returns what a settled invalidation
was to remove. -/
theorem fresh_of_ordered {P : Type} [DecidableEq P] {es : List (Event P)}
    (h : Along step Ordered start es) : Along step Fresh start es :=
  h.imp step (I := Coherent) (fun _ e hw ho => step_coherent e hw ho)
    (fun _ _ hw ho => hw.fresh ho) start_coherent

/-- A simulation's key. -/
def simKey : CacheKey :=
  ⟨"SIM", "S001", "3.9.0", "inputs", "code", "container", 0, 0⟩

/-- Process `true` stores a result. -/
def stored : List (Event Bool) :=
  [.storeLocal true simKey ⟨"run/S001", 0⟩, .storeShared ⟨true, simKey, ⟨"run/S001", 0⟩, 0⟩]

/-- The peer has a subscriber, since it has invalidated something before. -/
theorem fresh_subscribed_peer : Along step Fresh start
    (stored ++ ([.invalidate true (.step "APPLY"), .subscribe true,
      .invalidate false (.step "SIM"), .advance 1, .advance 1, .advance 1, .advance 1,
      .advance 1, .deliver true 1, .lookupLocal true simKey true] : List (Event Bool))) := by
  refine fresh_of_ordered ⟨trivial, trivial, trivial, trivial, trivial, fun call hc => ?_,
    fun call hc => ?_, fun call hc => ?_, fun call hc => ?_, fun call hc => ?_, trivial,
    trivial, trivial⟩
  · obtain rfl := Option.some.inj hc
    exact ⟨(fun h => nomatch h), (fun h => nomatch h)⟩
  · obtain rfl := Option.some.inj hc
    have hplain : Glob.Plain "SIM".toList := Glob.plain_of_isAlphanum rfl
    exact ⟨fun _ => reaches_of_plain (.step "SIM") hplain, (fun h => nomatch h)⟩
  · obtain rfl := Option.some.inj hc
    exact ⟨(fun h => nomatch h), (fun h => nomatch h)⟩
  · obtain rfl := Option.some.inj hc
    exact ⟨(fun h => nomatch h), (fun h => nomatch h)⟩
  · obtain rfl := Option.some.inj hc
    refine ⟨(fun h => nomatch h), fun _ q hq hno => ?_⟩
    have hq' : q = true := by
      cases q with
      | false => exact absurd rfl hq
      | true => rfl
    subst hq'
    rcases hno with hno | hno
    · exact absurd List.mem_cons_self hno
    · exact nomatch hno

/-- A peer that has never invalidated anything has no subscriber: it goes on returning
the result it stored. -/
theorem unsubscribed_peer_stale : ¬ ∀ es : List (Event Bool), Along step Fresh start es := by
  intro h
  have hrun := h (stored ++ ([.invalidate false (.step "SIM"), .advance 0, .advance 0,
    .advance 0, .advance 0, .advance 0, .lookupLocal true simKey true] : List (Event Bool)))
  have hallowed := hrun.2.2.2.2.2.2.2.2.1 "run/S001" rfl
  refine hallowed 0 ⟨false, .step "SIM", 2, .published 7⟩ rfl ⟨7, rfl, ?_⟩ rfl ⟨1, rfl, by decide⟩
  intro q j call' hflight
  exact nomatch hflight

end World

end OSimFlow.Cache.Broadcast
