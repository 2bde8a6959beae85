import OSimFlow.DataPoints.Genealogy
import OSimFlow.Lib.Ledger
import OSimFlow.Lib.Run

/-!
# Managers of one state file, in any number of threads and processes

A call of `DataPointManager` loads the state file, changes the copy in memory and
saves it whole. Two locks make this one step for the others: the record lock on the
lock file, which keeps other processes out but not other threads of its own, and the
mutex of the process. Only `_locked_rmw` takes both; reanalysis, merge and reorder
take the record lock alone, and before that write `{}` where they find no state file.

> `Inv`: one thread at most is between its locks, and until it saves it has in
> memory what is on disk, or what its call makes of it.

While that holds the ledger of saves is chained, so that the state file is what the
calls, taken one at a time, make of it (`saves_replay`). `kept_of_safe` says which
steps it survives (`Safe`); `reanalysis_overwritten` is a run of ordinary calls that
leaves it.
-/

namespace OSimFlow.DataPoints

open OSimFlow.Lib

/-- A thread, of a process. -/
structure Thread where
  process : Nat
  ident : Nat
deriving DecidableEq

/-- `fasteners.InterProcessLock`, as the manager relies on it: who is granted the lock
has it, and a process that has it keeps the others out. -/
structure InterProcessLock where
  State : Type
  free : State
  acquire : State → Nat → Option State
  release : State → Nat → State
  Holds : State → Nat → Prop
  holds_of_acquire : ∀ {s s' p}, acquire s p = some s' → Holds s' p
  excludes : ∀ {s s' p q}, acquire s p = some s' → q ≠ p → ¬ Holds s q

/-- `data_points.json`. -/
inductive StateFile where
  | missing
  /-- Text that `_load` takes for an empty state. -/
  | corrupt
  /-- Text on which `_load` raises. -/
  | invalid
  | points (dict : DataPointDict)

namespace StateFile

/-- The data points it holds. -/
def contents : StateFile → DataPointDict
  | points dict => dict
  | missing | corrupt | invalid => ∅

def isPoints : StateFile → Bool
  | points _ => true
  | missing | corrupt | invalid => false

/-- `_load`, from what is in memory. Where there is no file, that stays. -/
def load (memory : DataPointDict) : StateFile → Except DataPointError DataPointDict
  | missing => .ok memory
  | corrupt => .ok ∅
  | invalid => .error .invalidState
  | points dict => .ok dict

end StateFile

/-- A call under way, on a manager of the thread's process. -/
structure Running where
  ticket : Nat
  call : Call
  manager : Nat
  /-- It has changed the state file, other than by saving. -/
  touched : Bool
deriving DecidableEq

abbrev Outcome := Except DataPointError (Option DataPoint)

/-- How far a call has got. -/
inductive Phase where
  /-- Before the thread lock, or before the check that there is a state file. -/
  | entered
  /-- There was none: about to write `{}`. -/
  | creating
  /-- At the record lock, after so many attempts. -/
  | waiting (attempt : Nat)
  | holding
  | loaded
  | mutated (now : Time) (returned : Option DataPoint)
  /-- About to release the record lock. -/
  | finishing (outcome : Outcome)
  /-- About to release the thread lock. -/
  | unlocking (outcome : Outcome)

/-- The call has the record lock. -/
def Phase.inside : Phase → Bool
  | holding | loaded | mutated _ _ | finishing _ => true
  | entered | creating | waiting _ | unlocking _ => false

/-- Who saved: the call, its clock, and what it is going to return. -/
structure Saver where
  running : Running
  now : Time
  returned : Option DataPoint

/-- A call that is over. -/
structure Ended where
  running : Running
  outcome : Outcome

structure World (L : InterProcessLock) where
  file : StateFile
  /-- `_data_points` of the managers that exist, by process and number. -/
  memory : Nat × Nat → Option DataPointDict
  lock : L.State
  /-- `_THREAD_LOCKS` of each process. -/
  threadLock : Nat → Option Thread
  threads : Thread → Option (Running × Phase)
  tickets : Nat
  /-- The account: every save, and every call that is over. -/
  saves : List (Entry Saver DataPointDict)
  ended : List Ended

inductive Event where
  | construct (process manager : Nat)
  | begin (t : Thread) (call : Call) (manager : Nat)
  /-- The thread takes its next step; `now` is read where it changes the data points. -/
  | advance (t : Thread) (now : Time)
  /-- `lock.acquire(timeout=30)` returns `False`. -/
  | giveUp (t : Thread)
  /-- `_save_atomic` raises. -/
  | failSave (t : Thread)

namespace World

variable {L : InterProcessLock}

/-- Nobody has started, on the state file `file`. -/
def start (L : InterProcessLock) (file : StateFile) : World L where
  file := file
  memory := fun _ => none
  lock := L.free
  threadLock := fun _ => none
  threads := fun _ => none
  tickets := 0
  saves := []
  ended := []

variable (s : World L) (t : Thread) (r : Running)

def setThread (x : Option (Running × Phase)) : World L :=
  { s with threads := Function.update s.threads t x }

/-- The call is over. -/
def finish (outcome : Outcome) : World L :=
  { s.setThread t none with ended := s.ended ++ [⟨r, outcome⟩] }

/-- `DataPointManager(outdir)`. -/
def construct (process manager : Nat) : World L :=
  match s.memory (process, manager), s.file.load ∅ with
  | none, .ok dict =>
    { s with memory := Function.update s.memory (process, manager) (some dict) }
  | _, _ => s

def begin (call : Call) (manager : Nat) : World L :=
  match s.threads t, s.memory (t.process, manager) with
  | none, some _ =>
    let r : Running := ⟨s.tickets, call, manager, false⟩
    let s := { s with tickets := s.tickets + 1 }
    match call with
    | .merge [] _ _ => s.finish t r (.error .noSources)
    | _ => s.setThread t (some (r, .entered))
  | _, _ => s

/-- `with self._thread_lock`, or the check for the state file. -/
def enter : World L :=
  if r.call.locksThreads then
    match s.threadLock t.process with
    | none =>
      { s.setThread t (some (r, .waiting 0)) with
        threadLock := Function.update s.threadLock t.process (some t) }
    | some _ => s
  else match s.file with
    | .missing => s.setThread t (some (r, .creating))
    | _ => s.setThread t (some (r, .waiting 0))

/-- `self._state_file.write_text("{}")`. -/
def create : World L :=
  { s.setThread t (some ({ r with touched := true }, .waiting 0)) with file := .points ∅ }

def acquire : World L :=
  match L.acquire s.lock t.process with
  | some lock => { s.setThread t (some (r, .holding)) with lock := lock }
  | none => s

def load : World L :=
  match s.file.load ((s.memory (t.process, r.manager)).getD ∅) with
  | .ok dict =>
    { s.setThread t (some (r, .loaded)) with
      memory := Function.update s.memory (t.process, r.manager) (some dict) }
  | .error error => s.setThread t (some (r, .finishing (.error error)))

def mutate (now : Time) : World L :=
  let before := (s.memory (t.process, r.manager)).getD ∅
  match r.call.apply now before with
  | .ok after =>
    { s.setThread t (some (r, .mutated now (r.call.returns before after))) with
      memory := Function.update s.memory (t.process, r.manager) (some after) }
  | .error error => s.setThread t (some (r, .finishing (.error error)))

/-- `_save_atomic`. -/
def save (now : Time) (returned : Option DataPoint) : World L :=
  let after := (s.memory (t.process, r.manager)).getD ∅
  { s.setThread t (some (r, .finishing (.ok returned))) with
    file := .points after
    saves := s.saves ++ [⟨⟨r, now, returned⟩, s.file.contents, after⟩] }

def release (outcome : Outcome) : World L :=
  if r.call.locksThreads then
    { s.setThread t (some (r, .unlocking outcome)) with
      lock := L.release s.lock t.process }
  else { s.finish t r outcome with lock := L.release s.lock t.process }

def unlock (outcome : Outcome) : World L :=
  { s.finish t r outcome with
    threadLock := Function.update s.threadLock t.process none }

def advance (now : Time) : World L :=
  match s.threads t with
  | some (r, .entered) => s.enter t r
  | some (r, .creating) => s.create t r
  | some (r, .waiting _) => s.acquire t r
  | some (r, .holding) => s.load t r
  | some (r, .loaded) => s.mutate t r now
  | some (r, .mutated now returned) => s.save t r now returned
  | some (r, .finishing outcome) => s.release t r outcome
  | some (r, .unlocking outcome) => s.unlock t r outcome
  | none => s

/-- Five attempts, where there is a timeout at all. -/
def giveUp : World L :=
  match s.threads t with
  | some (r, .waiting attempt) =>
    if r.call.locksThreads then s
    else if attempt < 4 then s.setThread t (some (r, .waiting (attempt + 1)))
    else s.finish t r (.error .lockTimeout)
  | _ => s

def failSave : World L :=
  match s.threads t with
  | some (r, .mutated _ _) => s.setThread t (some (r, .finishing (.error .writeFailed)))
  | _ => s

def step (s : World L) : Event → World L
  | .construct process manager => s.construct process manager
  | .begin t call manager => s.begin t call manager
  | .advance t now => s.advance t now
  | .giveUp t => s.giveUp t
  | .failSave t => s.failSave t

end World

/-! ## What is to be kept -/

/-- The call named the data point, or created it. -/
def Concerns (e : Entry Saver DataPointDict) (sid : String) : Prop :=
  sid ∈ e.label.running.call.named ∨
    (e.label.running.call.creates e.before = some sid ∧ e.before.get? sid = none)

/-- No call is lost, and none overwrites a data point. -/
structure Kept {L : InterProcessLock} (start : DataPointDict) (s : World L) : Prop where
  /-- A save is the effect of its call on what it found on disk. -/
  effects : ∀ e ∈ s.saves,
    e.label.running.call.apply e.label.now e.before = .ok e.after ∧
      e.label.returned = e.label.running.call.returns e.before e.after
  /-- A call that has returned has saved. -/
  returned : ∀ d ∈ s.ended, ∀ dp, d.outcome = .ok dp →
    ∃ e ∈ s.saves, e.label.running = d.running ∧ e.label.returned = dp
  /-- What it left under an id is there until another call on that data point. -/
  remains : ∀ es e fs, s.saves = es ++ e :: fs → ∀ sid,
    (∀ e' ∈ fs, ¬ Concerns e' sid) → s.file.contents.get? sid = e.after.get? sid
  /-- So is what was there before the first call on it. -/
  undisturbed : ∀ sid, (∀ e ∈ s.saves, ¬ Concerns e sid) →
    s.file.contents.get? sid = start.get? sid
  /-- What a reanalysis or a merge creates is neither a data point nor a source. -/
  fresh : ∀ e ∈ s.saves, ∀ id, e.label.running.call.creates e.before = some id →
    ¬ (genealogy e.before).Known id
  /-- A call that raises has left the state file alone. -/
  raised : ∀ d ∈ s.ended, ∀ error, d.outcome = .error error → d.running.touched = false

/-- `reorder_pending`, which cannot fail once the state file is there. -/
def Call.reorders : Call → Bool
  | reorderPending _ => true
  | _ => false

section Steps

variable {L : InterProcessLock}

/-- The steps that keep the account.
`creating`: only a reorder makes the state file, and nobody else has in the meantime.
`waiting`: no other call of the process has the record lock, unless the thread lock
is between them.
`mutated`: the call adds data points under fitting ids only.
A call that has made the state file gets the lock and saves; no save fails before
there is one. -/
def Safe (s : World L) : Event → Prop
  | .advance t _ =>
    match s.threads t with
    | some (r, .creating) => r.call.reorders = true ∧ s.file = .missing
    | some (r, .waiting _) => (L.acquire s.lock t.process).isSome = true →
        ∀ u, u ≠ t → u.process = t.process → ∀ r' ph', s.threads u = some (r', ph') →
          ph'.inside = true → r.call.locksThreads = true ∧ r'.call.locksThreads = true
    | some (r, .mutated _ _) => r.call.Fits s.file.contents
    | _ => True
  | .giveUp t =>
    match s.threads t with
    | some (r, .waiting attempt) => r.touched = true → attempt < 4
    | _ => True
  | .failSave t =>
    match s.threads t with
    | some (r, .mutated _ _) => s.file ≠ .missing ∧ r.touched = false
    | _ => True
  | .construct _ _ | .begin _ _ _ => True

/-! ## The invariant -/

/-- The thread is between taking the record lock and releasing it. -/
def World.Inside (s : World L) (t : Thread) : Prop :=
  ∃ r ph, s.threads t = some (r, ph) ∧ ph.inside = true

/-- No other thread is. -/
def World.Alone (s : World L) (t : Thread) : Prop :=
  ∀ u, u ≠ t → ¬ s.Inside u

/-- The call has not come to the record lock. -/
def Phase.early : Phase → Bool
  | entered | creating => true
  | _ => false

/-- The call is on its way to raising. -/
def Phase.raising : Phase → Bool
  | finishing (.error _) | unlocking (.error _) => true
  | _ => false

/-- What the call is about to return, once it has saved. -/
def Phase.returning : Phase → Option (Option DataPoint)
  | finishing (.ok dp) | unlocking (.ok dp) => some dp
  | _ => none

structure ThreadOk (s : World L) (t : Thread) (r : Running) (ph : Phase) : Prop where
  held : ph.inside = true → L.Holds s.lock t.process
  /-- The thread lock, where the call takes it. -/
  mutex : r.call.locksThreads = true → ph ≠ .entered → s.threadLock t.process = some t
  loaded : ph = .loaded → s.memory (t.process, r.manager) = some s.file.contents
  mutated : ∀ now dp, ph = .mutated now dp → ∃ after,
    s.memory (t.process, r.manager) = some after ∧
      r.call.apply now s.file.contents = .ok after ∧
      dp = r.call.returns s.file.contents after
  saved : ∀ dp, ph.returning = some dp →
    ∃ e ∈ s.saves, e.label.running = r ∧ e.label.returned = dp
  untouched : ph.early = true → r.touched = false
  touched : r.touched = true →
    r.call.reorders = true ∧ s.file.isPoints = true ∧ ph.raising = false
  unlocking : ∀ outcome, ph = .unlocking outcome → r.call.locksThreads = true
  constructed : s.memory (t.process, r.manager) ≠ none

/-- A save as it should be. -/
structure SaveOk (e : Entry Saver DataPointDict) : Prop where
  effect : e.label.running.call.apply e.label.now e.before = .ok e.after
  returned : e.label.returned = e.label.running.call.returns e.before e.after
  fresh : ∀ id, e.label.running.call.creates e.before = some id →
    ¬ (genealogy e.before).Known id

/-- The account of a world. -/
structure Account (start : DataPointDict) (s : World L) : Prop where
  chained : Chained start s.saves s.file.contents
  saves : ∀ e ∈ s.saves, SaveOk e
  numbered : (genealogy s.file.contents).Numbered
  returned : ∀ d ∈ s.ended, ∀ dp, d.outcome = .ok dp →
    ∃ e ∈ s.saves, e.label.running = d.running ∧ e.label.returned = dp
  raised : ∀ d ∈ s.ended, ∀ error, d.outcome = .error error → d.running.touched = false

structure Inv (start : DataPointDict) (s : World L) : Prop where
  exclusive : ∀ t, s.Inside t → s.Alone t
  threads : ∀ t r ph, s.threads t = some (r, ph) → ThreadOk s t r ph
  /-- Where there is no state file, what is in memory is about to be saved. -/
  unsaved : s.file = .missing → ∀ i dict, s.memory i = some dict → dict = ∅ ∨
    ∃ t r now dp, s.threads t = some (r, .mutated now dp) ∧ (t.process, r.manager) = i
  account : Account start s

variable {start : DataPointDict} {s s' : World L} {t : Thread} {r : Running}

/-- What another thread's step has to leave alone. -/
theorem ThreadOk.frame {u : Thread} {ph : Phase} (h : ThreadOk s u r ph)
    (hlock : ph.inside = true → s'.lock = s.lock ∧
      s'.memory (u.process, r.manager) = s.memory (u.process, r.manager) ∧
      s'.file.contents = s.file.contents)
    (hmutex : s.threadLock u.process = some u → s'.threadLock u.process = some u)
    (hfile : s.file.isPoints = true → s'.file.isPoints = true)
    (hmemory : ∀ i, s.memory i ≠ none → s'.memory i ≠ none)
    (hsaves : ∀ e ∈ s.saves, e ∈ s'.saves) : ThreadOk s' u r ph where
  held hi := by
    rw [(hlock hi).1]
    exact h.held hi
  mutex hl hph := hmutex (h.mutex hl hph)
  loaded hph := by
    obtain ⟨-, hmem, hcontents⟩ := hlock (by rw [hph]; rfl)
    rw [hmem, hcontents]
    exact h.loaded hph
  mutated now dp hph := by
    obtain ⟨-, hmem, hcontents⟩ := hlock (by rw [hph]; rfl)
    rw [hmem, hcontents]
    exact h.mutated now dp hph
  saved dp hdp := by
    obtain ⟨e, he, hr⟩ := h.saved dp hdp
    exact ⟨e, hsaves e he, hr⟩
  untouched := h.untouched
  touched ht := by
    obtain ⟨hreorder, hpoints, hraising⟩ := h.touched ht
    exact ⟨hreorder, hfile hpoints, hraising⟩
  unlocking := h.unlocking
  constructed := hmemory _ h.constructed

/-- One thread moves on: what is to be shown of it, and of what it shares. -/
theorem Inv.move (h : Inv start s) {x : Option (Running × Phase)}
    (hthreads : s'.threads = Function.update s.threads t x)
    (hself : ∀ r ph, x = some (r, ph) → ThreadOk s' t r ph)
    (halone : ∀ r ph, x = some (r, ph) → ph.inside = true → s.Alone t)
    (hshared : s.Alone t ∨ (s'.lock = s.lock ∧ s'.memory = s.memory ∧
      s'.file.contents = s.file.contents))
    (hmutex : ∀ u, u ≠ t → s.threadLock u.process = some u →
      s'.threadLock u.process = some u)
    (hfile : s.file.isPoints = true → s'.file.isPoints = true)
    (hmemory : ∀ i, s.memory i ≠ none → s'.memory i ≠ none)
    (hsaves : ∀ e ∈ s.saves, e ∈ s'.saves)
    (hunsaved : s'.file = .missing → ∀ i dict, s'.memory i = some dict → dict = ∅ ∨
      ∃ t r now dp, s'.threads t = some (r, .mutated now dp) ∧ (t.process, r.manager) = i)
    (haccount : Account start s') : Inv start s' := by
  have hother : ∀ u, u ≠ t → s'.threads u = s.threads u := fun u hu => by
    rw [hthreads, Function.update_of_ne hu]
  have hself' : s'.threads t = x := by rw [hthreads, Function.update_self]
  have hinside : ∀ u, u ≠ t → s'.Inside u → s.Inside u := by
    rintro u hu ⟨r, ph, hx, hi⟩
    exact ⟨r, ph, by rw [← hother u hu]; exact hx, hi⟩
  refine ⟨fun u hin v hv hin' => ?_, fun u r ph hx => ?_, hunsaved, haccount⟩
  · -- two threads inside: one of them is `t`, or both were inside before
    by_cases hu : u = t
    · obtain ⟨r, ph, hx, hi⟩ := hin
      rw [hu, hself'] at hx
      rw [hu] at hv
      exact halone r ph hx hi v hv (hinside v hv hin')
    · by_cases hvt : v = t
      · obtain ⟨r, ph, hx, hi⟩ := hin'
        rw [hvt, hself'] at hx
        exact halone r ph hx hi u hu (hinside u hu hin)
      · exact h.exclusive u (hinside u hu hin) v hv (hinside v hvt hin')
  · by_cases hu : u = t
    · rw [hu, hself'] at hx
      rw [hu]
      exact hself r ph hx
    · rw [hother u hu] at hx
      refine (h.threads u r ph hx).frame (fun hi => ?_) (hmutex u hu) hfile hmemory hsaves
      rcases hshared with hal | ⟨hlock, hmem, hcontents⟩
      · exact absurd ⟨r, ph, hx, hi⟩ (hal u hu)
      · exact ⟨hlock, by rw [hmem], hcontents⟩

/-- A thread that is not about to save has nothing unsaved in memory. -/
theorem Inv.unsaved_move (h : Inv start s) {x : Option (Running × Phase)}
    (hthreads : s'.threads = Function.update s.threads t x)
    (hfile : s'.file = .missing → s.file = .missing) (hmemory : s'.memory = s.memory)
    (hphase : s'.file = .missing → ∀ r now dp, s.threads t ≠ some (r, .mutated now dp)) :
    s'.file = .missing → ∀ i dict, s'.memory i = some dict → dict = ∅ ∨
      ∃ t r now dp, s'.threads t = some (r, .mutated now dp) ∧ (t.process, r.manager) = i := by
  intro hm i dict hd
  rw [hmemory] at hd
  rcases h.unsaved (hfile hm) i dict hd with he | ⟨u, r, now, dp, hu, hi⟩
  · exact Or.inl he
  · have hne : u ≠ t := fun hut => hphase hm r now dp (hut ▸ hu)
    refine Or.inr ⟨u, r, now, dp, ?_, hi⟩
    rw [hthreads, Function.update_of_ne hne]
    exact hu

/-- The thread moves on by itself, and does not enter. -/
theorem Inv.setThread (h : Inv start s) {ph : Phase} (hok : ThreadOk s t r ph)
    (halone : ph.inside = true → s.Alone t)
    (hphase : s.file = .missing → ∀ r now dp, s.threads t ≠ some (r, .mutated now dp)) :
    Inv start (s.setThread t (some (r, ph))) := by
  have hthreads : (s.setThread t (some (r, ph))).threads =
      Function.update s.threads t (some (r, ph)) := rfl
  refine h.move hthreads (fun r' ph' hx => ?_) (fun r' ph' hx hi => ?_)
    (Or.inr ⟨rfl, rfl, rfl⟩) (fun _ _ hu => hu) id (fun _ hi => hi) (fun _ he => he)
    (h.unsaved_move hthreads id rfl hphase) ⟨h.account.chained, h.account.saves,
      h.account.numbered, h.account.returned, h.account.raised⟩
  · injection hx with hx
    injection hx with hr hph
    rw [← hr, ← hph]
    exact ⟨hok.held, hok.mutex, hok.loaded, hok.mutated, hok.saved, hok.untouched, hok.touched,
      hok.unlocking, hok.constructed⟩
  · injection hx with hx
    injection hx with hr hph
    exact halone (hph ▸ hi)

/-- One more call over. -/
theorem Account.finish (h : Account start s) {outcome : Outcome}
    (hreturned : ∀ dp, outcome = .ok dp →
      ∃ e ∈ s.saves, e.label.running = r ∧ e.label.returned = dp)
    (hraised : ∀ error, outcome = .error error → r.touched = false) :
    Account start (s.finish t r outcome) where
  chained := h.chained
  saves := h.saves
  numbered := h.numbered
  returned d hd dp hdp := by
    rcases List.mem_append.mp hd with hd | hd
    · exact h.returned d hd dp hdp
    · rw [List.mem_singleton.mp hd] at hdp ⊢
      exact hreturned dp hdp
  raised d hd error herror := by
    rcases List.mem_append.mp hd with hd | hd
    · exact h.raised d hd error herror
    · rw [List.mem_singleton.mp hd] at herror ⊢
      exact hraised error herror

/-! ## One lemma for each step -/

theorem memory_update_ne_none {memory : Nat × Nat → Option DataPointDict} {i j : Nat × Nat}
    {dict : DataPointDict} (hi : memory i ≠ none) :
    Function.update memory j (some dict) i ≠ none := by
  by_cases hij : i = j
  · rw [hij, Function.update_self]
    exact nofun
  · rw [Function.update_of_ne hij]
    exact hi

theorem construct_inv (h : Inv start s) (process manager : Nat) :
    Inv start (s.construct process manager) := by
  rw [World.construct]
  split
  next dict hnone hload =>
    have hne : ∀ i, s.memory i ≠ none → i ≠ (process, manager) := fun i hi he => hi (he ▸ hnone)
    refine ⟨h.exclusive, fun u r ph hx => ?_, fun hm i dict' hd => ?_, ⟨h.account.chained,
      h.account.saves, h.account.numbered, h.account.returned, h.account.raised⟩⟩
    · have hu := h.threads u r ph hx
      refine hu.frame (fun _ => ⟨rfl, Function.update_of_ne (hne _ hu.constructed) _ _, rfl⟩)
        id id (fun i hi => memory_update_ne_none (i := i) hi) (fun _ he => he)
    · by_cases hi : i = (process, manager)
      · have hdict : dict' = dict := by
          rw [hi] at hd
          exact (Option.some.inj
            ((Function.update_self (process, manager) (some dict) s.memory).symm.trans hd)).symm
        have hempty : dict = ∅ := by
          rw [show s.file = .missing from hm] at hload
          injection hload with hload
          exact hload.symm
        exact Or.inl (hdict.trans hempty)
      · exact h.unsaved hm i dict' ((Function.update_of_ne hi _ _).symm.trans hd)
  next => exact h

theorem begin_inv (h : Inv start s) (t : Thread) (call : Call) (manager : Nat) :
    Inv start (s.begin t call manager) := by
  rw [World.begin]
  split
  next dict hidle hmanager =>
    have hphase : s.file = .missing → ∀ r now dp, s.threads t ≠ some (r, .mutated now dp) :=
      fun _ r now dp hx => nomatch hidle.symm.trans hx
    have hticket : Inv start { s with tickets := s.tickets + 1 } :=
      ⟨h.exclusive, fun u r ph hx => (h.threads u r ph hx).frame (fun _ => ⟨rfl, rfl, rfl⟩) id id
        (fun _ hi => hi) (fun _ he => he), h.unsaved, ⟨h.account.chained, h.account.saves,
        h.account.numbered, h.account.returned, h.account.raised⟩⟩
    dsimp only
    split
    next =>
      refine hticket.move rfl (fun _ _ hx => nomatch hx) (fun _ _ hx => nomatch hx)
        (Or.inr ⟨rfl, rfl, rfl⟩) (fun _ _ hu => hu) id (fun _ hi => hi) (fun _ he => he)
        (hticket.unsaved_move rfl id rfl hphase) (hticket.account.finish ?_ ?_)
      · exact fun dp hdp => nomatch hdp
      · exact fun _ _ => rfl
    next =>
      refine hticket.setThread ?_ (fun hi => nomatch hi) hphase
      exact {
        held := fun hi => nomatch hi
        mutex := fun _ hne => absurd rfl hne
        loaded := fun hph => nomatch hph
        mutated := fun _ _ hph => nomatch hph
        unlocking := fun _ hph => nomatch hph
        saved := fun _ hdp => nomatch hdp
        untouched := fun _ => rfl
        touched := fun ht => nomatch ht
        constructed := by rw [hmanager]; exact nofun }
  next => exact h

theorem enter_inv (h : Inv start s) (hx : s.threads t = some (r, .entered)) :
    Inv start (s.enter t r) := by
  have hr := h.threads t r .entered hx
  have huntouched : r.touched = false := hr.untouched rfl
  have hphase : s.file = .missing → ∀ r now dp, s.threads t ≠ some (r, .mutated now dp) :=
    fun _ r now dp hx' => by cases hx.symm.trans hx'
  have hnext : ∀ ph, ph.inside = false → ph.returning = none → ph ≠ .loaded →
      (∀ now dp, ph ≠ .mutated now dp) → (∀ outcome, ph ≠ .unlocking outcome) →
      r.call.locksThreads = false → ThreadOk s t r ph := by
    intro ph hin hret hload hmut hunl hlocks
    exact {
      held := fun hi => by cases hin.symm.trans hi
      mutex := fun hl => by cases hlocks.symm.trans hl
      loaded := fun hph => absurd hph hload
      mutated := fun now dp hph => absurd hph (hmut now dp)
      unlocking := fun outcome hph => absurd hph (hunl outcome)
      saved := fun dp hdp => by cases hret.symm.trans hdp
      untouched := fun _ => huntouched
      touched := fun ht => by cases huntouched.symm.trans ht
      constructed := hr.constructed }
  rw [World.enter]
  split
  next hlocks =>
    split
    next hfree =>
      have hthreads : Function.update s.threads t (some (r, Phase.waiting 0)) =
          Function.update s.threads t (some (r, Phase.waiting 0)) := rfl
      refine h.move hthreads (fun r' ph' hx' => ?_) (fun r' ph' hx' hi => ?_)
        (Or.inr ⟨rfl, rfl, rfl⟩) (fun u hu hlock => ?_) id (fun _ hi => hi) (fun _ he => he)
        (h.unsaved_move hthreads id rfl hphase) ⟨h.account.chained, h.account.saves,
          h.account.numbered, h.account.returned, h.account.raised⟩
      · injection hx' with hx'
        injection hx' with hr' hph'
        rw [← hr', ← hph']
        exact {
          held := fun hi => by cases hi
          mutex := fun _ _ => Function.update_self t.process (some t) s.threadLock
          loaded := fun hph => by cases hph
          mutated := fun _ _ hph => by cases hph
          unlocking := fun _ hph => by cases hph
          saved := fun _ hdp => by cases hdp
          untouched := fun _ => huntouched
          touched := fun ht => by cases huntouched.symm.trans ht
          constructed := hr.constructed }
      · injection hx' with hx'
        injection hx' with hr' hph'
        rw [← hph'] at hi
        cases hi
      · -- the lock was free, so no other thread of this process had it
        have hne : u.process ≠ t.process := fun he => by
          rw [he, hfree] at hlock
          cases hlock
        exact (Function.update_of_ne hne _ _).trans hlock
    next => exact h
  next hlocks =>
    have hlocks' : r.call.locksThreads = false := Bool.eq_false_iff.mpr hlocks
    split
    next =>
      exact h.setThread (hnext .creating rfl rfl (fun hph => by cases hph)
        (fun _ _ hph => by cases hph) (fun _ hph => by cases hph) hlocks')
        (fun hi => by cases hi) hphase
    next =>
      exact h.setThread (hnext (.waiting 0) rfl rfl (fun hph => by cases hph)
        (fun _ _ hph => by cases hph) (fun _ hph => by cases hph) hlocks')
        (fun hi => by cases hi) hphase

/-- A reorder on no state file makes an empty one, which holds the same. -/
theorem create_inv (h : Inv start s) (hx : s.threads t = some (r, .creating))
    (hreorder : r.call.reorders = true) (hmissing : s.file = .missing) :
    Inv start (s.create t r) := by
  have hr := h.threads t r .creating hx
  have hcontents : (s.create t r).file.contents = s.file.contents := by rw [hmissing]; rfl
  have hlocks : r.call.locksThreads = false := by
    cases hc : r.call <;> rw [hc] at hreorder <;> first | rfl | cases hreorder
  have hacc : Account start (s.create t r) := by
    refine ⟨?_, h.account.saves, ?_, h.account.returned, h.account.raised⟩
    · rw [hcontents]
      exact h.account.chained
    · rw [hcontents]
      exact h.account.numbered
  refine h.move rfl (fun r' ph' hx' => ?_) (fun r' ph' hx' hi => ?_)
    (Or.inr ⟨rfl, rfl, hcontents⟩) (fun _ _ hu => hu) (fun _ => rfl) (fun _ hi => hi)
    (fun _ he => he) (fun hm => by cases hm) hacc
  · injection hx' with hx'
    injection hx' with hr' hph'
    rw [← hr', ← hph']
    exact {
      held := fun hi => by cases hi
      mutex := fun hl => by cases hlocks.symm.trans hl
      loaded := fun hph => by cases hph
      mutated := fun _ _ hph => by cases hph
      unlocking := fun _ hph => by cases hph
      saved := fun _ hdp => by cases hdp
      untouched := fun hph => by cases hph
      touched := fun _ => ⟨hreorder, rfl, rfl⟩
      constructed := hr.constructed }
  · injection hx' with hx'
    injection hx' with hr' hph'
    rw [← hph'] at hi
    cases hi

/-- The record lock keeps other processes out, the guard other threads. -/
theorem alone_of_acquire (h : Inv start s) {attempt : Nat} {lock : L.State}
    (hx : s.threads t = some (r, .waiting attempt)) (hlock : L.acquire s.lock t.process = some lock)
    (hguard : ∀ u, u ≠ t → u.process = t.process → ∀ r' ph', s.threads u = some (r', ph') →
      ph'.inside = true → r.call.locksThreads = true ∧ r'.call.locksThreads = true) :
    s.Alone t := by
  rintro u hu ⟨r', ph', hx', hi⟩
  have hother := h.threads u r' ph' hx'
  by_cases hp : u.process = t.process
  · obtain ⟨hlocks, hlocks'⟩ := hguard u hu hp r' ph' hx' hi
    have hmine := (h.threads t r _ hx).mutex hlocks nofun
    have hits := hother.mutex hlocks' (fun he => by rw [he] at hi; exact nomatch hi)
    rw [hp, hmine] at hits
    exact hu (Option.some.inj hits).symm
  · exact L.excludes hlock hp (hother.held hi)

theorem acquire_inv (h : Inv start s) {attempt : Nat}
    (hx : s.threads t = some (r, .waiting attempt))
    (hguard : (L.acquire s.lock t.process).isSome = true →
      ∀ u, u ≠ t → u.process = t.process → ∀ r' ph', s.threads u = some (r', ph') →
        ph'.inside = true → r.call.locksThreads = true ∧ r'.call.locksThreads = true) :
    Inv start (s.acquire t r) := by
  have hr := h.threads t r _ hx
  rw [World.acquire]
  split
  next lock hlock =>
    have halone := alone_of_acquire h hx hlock (hguard (by rw [hlock]; rfl))
    have hthreads : Function.update s.threads t (some (r, Phase.holding)) =
        Function.update s.threads t (some (r, Phase.holding)) := rfl
    refine h.move hthreads (fun r' ph' hx' => ?_) (fun _ _ _ _ => halone)
      (Or.inl halone) (fun _ _ hu => hu) id (fun _ hi => hi) (fun _ he => he)
      (h.unsaved_move hthreads id rfl fun _ r now dp hx' => nomatch hx.symm.trans hx')
      ⟨h.account.chained, h.account.saves, h.account.numbered, h.account.returned,
        h.account.raised⟩
    injection hx' with hx'
    injection hx' with hr' hph'
    rw [← hr', ← hph']
    exact {
      held := fun _ => L.holds_of_acquire hlock
      mutex := fun hl _ => hr.mutex hl nofun
      loaded := fun hph => nomatch hph
      mutated := fun _ _ hph => nomatch hph
      unlocking := fun _ hph => nomatch hph
      saved := fun _ hdp => nomatch hdp
      untouched := fun hph => nomatch hph
      touched := fun ht => by
        obtain ⟨hreorder, hpoints, -⟩ := hr.touched ht
        exact ⟨hreorder, hpoints, rfl⟩
      constructed := hr.constructed }
  next => exact h

/-- Without a state file, and with nobody about to save, all memories are empty. -/
theorem Inv.memory_empty (h : Inv start s) (hin : s.Inside t) (hm : s.file = .missing)
    (hphase : ∀ r now dp, s.threads t ≠ some (r, .mutated now dp)) {i : Nat × Nat}
    {dict : DataPointDict} (hd : s.memory i = some dict) : dict = ∅ := by
  rcases h.unsaved hm i dict hd with he | ⟨u, r, now, dp, hu, -⟩
  · exact he
  · by_cases hut : u = t
    · exact absurd (hut ▸ hu) (hphase r now dp)
    · exact absurd ⟨r, _, hu, rfl⟩ (h.exclusive t hin u hut)

/-- What is loaded is what is on disk. -/
theorem load_contents (h : Inv start s) (hx : s.threads t = some (r, .holding))
    {dict : DataPointDict}
    (hload : s.file.load ((s.memory (t.process, r.manager)).getD ∅) = .ok dict) :
    dict = s.file.contents := by
  cases hfile : s.file with
  | missing =>
    rw [hfile] at hload
    injection hload with hload
    cases hmem : s.memory (t.process, r.manager) with
    | none =>
      rw [hmem] at hload
      exact hload.symm
    | some memory =>
      have hempty := h.memory_empty ⟨r, _, hx, rfl⟩ hfile
        (fun _ _ _ hx' => nomatch hx.symm.trans hx') hmem
      rw [hmem, hempty] at hload
      exact hload.symm
  | corrupt =>
    rw [hfile] at hload
    injection hload with hload
    exact hload.symm
  | invalid =>
    rw [hfile] at hload
    exact nomatch hload
  | points points =>
    rw [hfile] at hload
    injection hload with hload
    exact hload.symm

/-- The call raises where it is, without having saved. -/
theorem raise_inv (h : Inv start s) {ph : Phase} {error : DataPointError}
    (hx : s.threads t = some (r, ph)) (hi : ph.inside = true)
    (htouched : r.touched = false)
    (hphase : s.file = .missing → ∀ now dp, ph ≠ .mutated now dp) :
    Inv start (s.setThread t (some (r, .finishing (.error error)))) := by
  have hr := h.threads t r ph hx
  refine h.setThread ?_ (fun _ => h.exclusive t ⟨r, ph, hx, hi⟩) fun hm r' now dp hx' => ?_
  · exact {
      held := fun _ => hr.held hi
      mutex := fun hl _ => hr.mutex hl fun he => by rw [he] at hi; cases hi
      loaded := fun hph => by cases hph
      mutated := fun _ _ hph => by cases hph
      unlocking := fun _ hph => by cases hph
      saved := fun _ hdp => by cases hdp
      untouched := fun _ => htouched
      touched := fun ht => by cases htouched.symm.trans ht
      constructed := hr.constructed }
  · have hpair := Option.some.inj (hx.symm.trans hx')
    exact hphase hm now dp (congrArg Prod.snd hpair)

theorem load_inv (h : Inv start s) (hx : s.threads t = some (r, .holding)) :
    Inv start (s.load t r) := by
  have hr := h.threads t r _ hx
  have hin : s.Inside t := ⟨r, _, hx, rfl⟩
  rw [World.load]
  split
  next dict hload =>
    have hdict := load_contents h hx hload
    have hthreads : Function.update s.threads t (some (r, Phase.loaded)) =
        Function.update s.threads t (some (r, Phase.loaded)) := rfl
    refine h.move hthreads (fun r' ph' hx' => ?_) (fun _ _ _ _ => h.exclusive t hin)
      (Or.inl (h.exclusive t hin)) (fun _ _ hu => hu) id (fun i hi => ?_) (fun _ he => he)
      (fun hm i dict' hd => ?_) ⟨h.account.chained, h.account.saves, h.account.numbered,
        h.account.returned, h.account.raised⟩
    · injection hx' with hx'
      injection hx' with hr' hph'
      rw [← hr', ← hph']
      have hmemory : Function.update s.memory (t.process, r.manager) (some dict)
          (t.process, r.manager) = some dict := Function.update_self _ _ _
      exact {
        held := fun _ => hr.held rfl
        mutex := fun hl _ => hr.mutex hl fun hph => nomatch hph
        loaded := fun _ => hmemory.trans (congrArg some hdict)
        mutated := fun _ _ hph => nomatch hph
        unlocking := fun _ hph => nomatch hph
        saved := fun _ hdp => nomatch hdp
        untouched := fun hph => nomatch hph
        touched := fun ht => by
          obtain ⟨hreorder, hpoints, -⟩ := hr.touched ht
          exact ⟨hreorder, hpoints, rfl⟩
        constructed := fun hnone => nomatch hmemory.symm.trans hnone }
    · exact memory_update_ne_none (i := i) hi
    · refine Or.inl ?_
      by_cases hself : i = (t.process, r.manager)
      · have hd' : some dict = some dict' := by
          rw [hself] at hd
          exact (Function.update_self (t.process, r.manager) (some dict) s.memory).symm.trans hd
        have hcontents : s.file.contents = ∅ := by
          rw [show s.file = .missing from hm]
          rfl
        exact (Option.some.inj hd').symm.trans (hdict.trans hcontents)
      · exact h.memory_empty hin hm (fun _ _ _ hx' => nomatch hx.symm.trans hx')
          ((Function.update_of_ne hself _ _).symm.trans hd)
  next error hload =>
    refine raise_inv h hx rfl ?_ fun _ _ _ hph => nomatch hph
    -- only a file that somebody else left makes `_load` raise
    by_contra ht
    obtain ⟨-, hpoints, -⟩ := hr.touched (by simpa using ht)
    cases hfile : s.file with
    | points points =>
      rw [hfile] at hload
      exact nomatch hload
    | missing | corrupt | invalid =>
      rw [hfile] at hpoints
      exact nomatch hpoints

theorem Call.apply_reorders {call : Call} (h : call.reorders = true) (now : Time)
    (points : DataPointDict) : ∃ after, call.apply now points = .ok after := by
  cases call with
  | reorderPending updates => exact ⟨_, rfl⟩
  | register | withSeedModel | withWeatherFile | updateStatus | setPriority | unregister
  | markForReanalysis | merge => exact nomatch h

theorem mutate_inv (h : Inv start s) (hx : s.threads t = some (r, .loaded)) (now : Time) :
    Inv start (s.mutate t r now) := by
  have hr := h.threads t r _ hx
  have hin : s.Inside t := ⟨r, _, hx, rfl⟩
  have hbefore : (s.memory (t.process, r.manager)).getD ∅ = s.file.contents := by
    rw [hr.loaded rfl]
    rfl
  rw [World.mutate, hbefore]
  dsimp only
  split
  next after hok =>
    have hthreads : Function.update s.threads t
        (some (r, Phase.mutated now (r.call.returns s.file.contents after))) =
        Function.update s.threads t
          (some (r, Phase.mutated now (r.call.returns s.file.contents after))) := rfl
    have hmemory : Function.update s.memory (t.process, r.manager) (some after)
        (t.process, r.manager) = some after := Function.update_self _ _ _
    refine h.move hthreads (fun r' ph' hx' => ?_) (fun _ _ _ _ => h.exclusive t hin)
      (Or.inl (h.exclusive t hin)) (fun _ _ hu => hu) id (fun i hi => ?_) (fun _ he => he)
      (fun hm i dict' hd => ?_) ⟨h.account.chained, h.account.saves, h.account.numbered,
        h.account.returned, h.account.raised⟩
    · injection hx' with hx'
      injection hx' with hr' hph'
      rw [← hr', ← hph']
      exact {
        held := fun _ => hr.held rfl
        mutex := fun hl _ => hr.mutex hl fun hph => nomatch hph
        loaded := fun hph => nomatch hph
        mutated := fun now' dp hph => by
          injection hph with hnow hdp
          rw [← hnow, ← hdp]
          exact ⟨after, hmemory, hok, rfl⟩
        unlocking := fun _ hph => nomatch hph
        saved := fun _ hdp => nomatch hdp
        untouched := fun hph => nomatch hph
        touched := fun ht => by
          obtain ⟨hreorder, hpoints, -⟩ := hr.touched ht
          exact ⟨hreorder, hpoints, rfl⟩
        constructed := fun hnone => nomatch hmemory.symm.trans hnone }
    · exact memory_update_ne_none (i := i) hi
    · by_cases hself : i = (t.process, r.manager)
      · refine Or.inr ⟨t, r, now, r.call.returns s.file.contents after, ?_, hself.symm⟩
        exact Function.update_self _ _ _
      · exact Or.inl (h.memory_empty hin hm (fun _ _ _ hx' => nomatch hx.symm.trans hx')
          ((Function.update_of_ne hself _ _).symm.trans hd))
  next error herror =>
    refine raise_inv h hx rfl ?_ fun _ _ _ hph => nomatch hph
    by_contra ht
    obtain ⟨hreorder, -, -⟩ := hr.touched (by simpa using ht)
    obtain ⟨after, hok⟩ := Call.apply_reorders hreorder now s.file.contents
    exact nomatch herror.symm.trans hok

/-- The save: the ledger gets the entry its call deserves. -/
theorem save_inv (h : Inv start s) {now : Time} {returned : Option DataPoint}
    (hx : s.threads t = some (r, .mutated now returned)) (hfits : r.call.Fits s.file.contents) :
    Inv start (s.save t r now returned) := by
  have hr := h.threads t r _ hx
  have hin : s.Inside t := ⟨r, _, hx, rfl⟩
  obtain ⟨after, hmemory, hok, hreturned⟩ := hr.mutated now returned rfl
  have hsaves : (s.save t r now returned).saves =
      s.saves ++ [⟨⟨r, now, returned⟩, s.file.contents, after⟩] := by
    rw [World.save, hmemory]
    rfl
  have hfile : (s.save t r now returned).file = .points after := by
    rw [World.save, hmemory]
    rfl
  have hacc : Account start (s.save t r now returned) := by
    refine ⟨?_, fun e he => ?_, ?_, fun d hd dp hdp => ?_, h.account.raised⟩
    · rw [hsaves, hfile]
      exact h.account.chained.snoc _ after
    · rw [hsaves] at he
      rcases List.mem_append.mp he with he | he
      · exact h.account.saves e he
      · rw [List.mem_singleton.mp he]
        exact ⟨hok, hreturned, fun id hc => Call.creates_fresh h.account.numbered hfits hc⟩
    · rw [hfile]
      exact Call.apply_numbered h.account.numbered hfits hok
    · obtain ⟨e, he, hd'⟩ := h.account.returned d hd dp hdp
      exact ⟨e, by rw [hsaves]; exact List.mem_append_left _ he, hd'⟩
  refine h.move rfl (fun r' ph' hx' => ?_) (fun _ _ _ _ => h.exclusive t hin)
    (Or.inl (h.exclusive t hin)) (fun _ _ hu => hu) (fun _ => by rw [hfile]; rfl)
    (fun _ hi => hi) (fun e he => by rw [hsaves]; exact List.mem_append_left _ he)
    (fun hm => nomatch hfile.symm.trans hm) hacc
  injection hx' with hx'
  injection hx' with hr' hph'
  rw [← hr', ← hph']
  exact {
    held := fun _ => hr.held rfl
    mutex := fun hl _ => hr.mutex hl fun hph => nomatch hph
    loaded := fun hph => nomatch hph
    mutated := fun _ _ hph => nomatch hph
    unlocking := fun _ hph => nomatch hph
    saved := fun dp hdp => by
      injection hdp with hdp
      exact ⟨⟨⟨r, now, returned⟩, s.file.contents, after⟩,
        by rw [hsaves]; exact List.mem_append_right _ (List.mem_singleton_self _), rfl, hdp⟩
    untouched := fun hph => nomatch hph
    touched := fun ht => by
      obtain ⟨hreorder, -, -⟩ := hr.touched ht
      exact ⟨hreorder, by rw [hfile]; rfl, rfl⟩
    constructed := hr.constructed }

/-- What a call that is over has to show: its save, or that it left the file alone. -/
theorem outcome_account (h : Inv start s) {ph : Phase} {outcome : Outcome}
    (hx : s.threads t = some (r, ph)) (hph : ph = .finishing outcome ∨ ph = .unlocking outcome) :
    Account start (s.finish t r outcome) := by
  have hr := h.threads t r ph hx
  refine h.account.finish (fun dp hdp => hr.saved dp ?_) (fun error herror => ?_)
  · rw [hdp] at hph
    rcases hph with hph | hph
    · rw [hph]
      rfl
    · rw [hph]
      rfl
  · by_contra ht
    obtain ⟨-, -, hraising⟩ := hr.touched (by simpa using ht)
    rw [herror] at hph
    rcases hph with hph | hph
    · rw [hph] at hraising
      exact nomatch hraising
    · rw [hph] at hraising
      exact nomatch hraising

theorem release_inv (h : Inv start s) {outcome : Outcome}
    (hx : s.threads t = some (r, .finishing outcome)) : Inv start (s.release t r outcome) := by
  have hr := h.threads t r _ hx
  have halone := h.exclusive t ⟨r, _, hx, rfl⟩
  have hphase : s.file = .missing → ∀ r now dp, s.threads t ≠ some (r, .mutated now dp) :=
    fun _ _ _ _ hx' => nomatch hx.symm.trans hx'
  rw [World.release]
  split
  next hlocks =>
    have hthreads : Function.update s.threads t (some (r, Phase.unlocking outcome)) =
        Function.update s.threads t (some (r, Phase.unlocking outcome)) := rfl
    refine h.move hthreads (fun r' ph' hx' => ?_) (fun _ _ _ _ => halone) (Or.inl halone)
      (fun _ _ hu => hu) id (fun _ hi => hi) (fun _ he => he)
      (h.unsaved_move hthreads id rfl hphase) ⟨h.account.chained, h.account.saves,
        h.account.numbered, h.account.returned, h.account.raised⟩
    injection hx' with hx'
    injection hx' with hr' hph'
    rw [← hr', ← hph']
    exact {
      held := fun hi => nomatch hi
      mutex := fun hl _ => hr.mutex hl fun hph => nomatch hph
      loaded := fun hph => nomatch hph
      mutated := fun _ _ hph => nomatch hph
      unlocking := fun _ _ => hlocks
      saved := fun dp hdp => hr.saved dp (by cases outcome <;> exact hdp)
      untouched := fun hph => nomatch hph
      touched := fun ht => by
        obtain ⟨hreorder, hpoints, hraising⟩ := hr.touched ht
        exact ⟨hreorder, hpoints, by cases outcome <;> exact hraising⟩
      constructed := hr.constructed }
  next =>
    have hacc := outcome_account h hx (Or.inl rfl)
    have hthreads : Function.update s.threads t none = Function.update s.threads t none := rfl
    exact h.move hthreads (fun _ _ hx' => nomatch hx') (fun _ _ _ _ => halone) (Or.inl halone)
      (fun _ _ hu => hu) id (fun _ hi => hi) (fun _ he => he)
      (h.unsaved_move hthreads id rfl hphase) ⟨hacc.chained, hacc.saves, hacc.numbered,
        hacc.returned, hacc.raised⟩

theorem unlock_inv (h : Inv start s) {outcome : Outcome}
    (hx : s.threads t = some (r, .unlocking outcome)) : Inv start (s.unlock t r outcome) := by
  have hr := h.threads t r _ hx
  have hacc := outcome_account h hx (Or.inr rfl)
  have hmine := hr.mutex (hr.unlocking outcome rfl) fun hph => nomatch hph
  have hthreads : Function.update s.threads t none = Function.update s.threads t none := rfl
  refine h.move hthreads (fun _ _ hx' => nomatch hx') (fun _ _ hx' => nomatch hx')
    (Or.inr ⟨rfl, rfl, rfl⟩) (fun u hu hlock => ?_) id (fun _ hi => hi) (fun _ he => he)
    (h.unsaved_move hthreads id rfl fun _ _ _ _ hx' => nomatch hx.symm.trans hx')
    ⟨hacc.chained, hacc.saves, hacc.numbered, hacc.returned, hacc.raised⟩
  have hne : u.process ≠ t.process := fun he => by
    rw [he, hmine] at hlock
    exact hu (Option.some.inj hlock).symm
  exact (Function.update_of_ne hne _ _).trans hlock

theorem giveUp_inv (h : Inv start s) (t : Thread) (hsafe : Safe s (.giveUp t)) :
    Inv start (s.giveUp t) := by
  rw [World.giveUp]
  cases hx : s.threads t with
  | none => exact h
  | some x =>
    obtain ⟨r, ph⟩ := x
    have hr := h.threads t r ph hx
    cases ph with
    | waiting attempt =>
      have hphase : s.file = .missing → ∀ r now dp, s.threads t ≠ some (r, .mutated now dp) :=
        fun _ _ _ _ hx' => nomatch hx.symm.trans hx'
      simp only [Safe, hx] at hsafe
      dsimp only
      split
      next => exact h
      next hlocks =>
        split
        next =>
          refine h.setThread ?_ (fun hi => nomatch hi) hphase
          exact {
            held := fun hi => nomatch hi
            mutex := fun hl => absurd hl hlocks
            loaded := fun hph => nomatch hph
            mutated := fun _ _ hph => nomatch hph
            unlocking := fun _ hph => nomatch hph
            saved := fun _ hdp => nomatch hdp
            untouched := fun hph => nomatch hph
            touched := fun ht => by
              obtain ⟨hreorder, hpoints, -⟩ := hr.touched ht
              exact ⟨hreorder, hpoints, rfl⟩
            constructed := hr.constructed }
        next hlast =>
          have hthreads : Function.update s.threads t none =
            Function.update s.threads t none := rfl
          refine h.move hthreads (fun _ _ hx' => nomatch hx') (fun _ _ hx' => nomatch hx')
            (Or.inr ⟨rfl, rfl, rfl⟩) (fun _ _ hu => hu) id (fun _ hi => hi) (fun _ he => he)
            (h.unsaved_move hthreads id rfl hphase) (h.account.finish ?_ ?_)
          · exact fun dp hdp => nomatch hdp
          · intro _ _
            by_contra ht
            exact hlast (hsafe (by simpa using ht))
    | entered | creating | holding | loaded | mutated | finishing | unlocking => exact h

theorem failSave_inv (h : Inv start s) (t : Thread) (hsafe : Safe s (.failSave t)) :
    Inv start (s.failSave t) := by
  rw [World.failSave]
  cases hx : s.threads t with
  | none => exact h
  | some x =>
    obtain ⟨r, ph⟩ := x
    cases ph with
    | mutated now dp =>
      simp only [Safe, hx] at hsafe
      exact raise_inv h hx rfl hsafe.2 fun hm => absurd hm hsafe.1
    | entered | creating | waiting | holding | loaded | finishing | unlocking => exact h

theorem advance_inv (h : Inv start s) (t : Thread) (now : Time)
    (hsafe : Safe s (.advance t now)) : Inv start (s.advance t now) := by
  rw [World.advance]
  cases hx : s.threads t with
  | none => exact h
  | some x =>
    obtain ⟨r, ph⟩ := x
    simp only [Safe, hx] at hsafe
    cases ph with
    | entered => exact enter_inv h hx
    | creating => exact create_inv h hx hsafe.1 hsafe.2
    | waiting attempt => exact acquire_inv h hx hsafe
    | holding => exact load_inv h hx
    | loaded => exact mutate_inv h hx now
    | mutated now returned => exact save_inv h hx hsafe
    | finishing outcome => exact release_inv h hx
    | unlocking outcome => exact unlock_inv h hx

theorem step_inv (h : Inv start s) (e : Event) (hsafe : Safe s e) : Inv start (s.step e) := by
  cases e with
  | construct process manager => exact construct_inv h process manager
  | begin t call manager => exact begin_inv h t call manager
  | advance t now => exact advance_inv h t now hsafe
  | giveUp t => exact giveUp_inv h t hsafe
  | failSave t => exact failSave_inv h t hsafe

theorem start_inv {file : StateFile} (hn : (genealogy file.contents).Numbered) :
    Inv file.contents (World.start L file) where
  exclusive := fun _ hin => by
    obtain ⟨_, _, hx, _⟩ := hin
    exact nomatch hx
  threads := fun _ _ _ hx => nomatch hx
  unsaved := fun _ _ _ hd => nomatch hd
  account := {
    chained := rfl
    saves := fun _ he => nomatch he
    numbered := hn
    returned := fun _ hd => nomatch hd
    raised := fun _ hd => nomatch hd }

/-! ## What the invariant gives -/

/-- A save leaves every data point alone that it does not concern. -/
theorem SaveOk.frame {e : Entry Saver DataPointDict} (h : SaveOk e) {sid : String}
    (hc : ¬ Concerns e sid) : e.after.get? sid = e.before.get? sid := by
  refine Call.apply_frame h.effect (fun hn => hc (Or.inl hn)) fun hcreates => ?_
  have habsent : genealogy e.before sid = none := by
    by_contra hthere
    exact h.fresh sid hcreates (Or.inl hthere)
  exact hc (Or.inr ⟨hcreates, genealogy_eq_none.mp habsent⟩)

theorem Account.kept (h : Account start s) : Kept start s where
  effects e he := ⟨(h.saves e he).effect, (h.saves e he).returned⟩
  returned := h.returned
  remains es e fs hsplit sid hfs := by
    have hchain := h.chained
    rw [hsplit] at hchain
    refine hchain.read_last (F := fun points : DataPointDict => points.get? sid) fun e' he' => ?_
    refine (h.saves e' ?_).frame (hfs e' he')
    rw [hsplit]
    exact List.mem_append_right _ (List.mem_cons_of_mem e he')
  undisturbed sid hnone :=
    h.chained.read_same (F := fun points : DataPointDict => points.get? sid)
      fun e he => (h.saves e he).frame (hnone e he)
  fresh e he := (h.saves e he).fresh
  raised := h.raised

/-- The state file is what the calls make of it one at a time, in the order in which
they saved. -/
theorem saves_replay (h : Account start s) :
    (s.saves.map Entry.label).foldlM
      (fun points saver => saver.running.call.apply saver.now points) start =
        .ok s.file.contents :=
  h.chained.replay fun e he => (h.saves e he).effect

/-- As long as every step is safe, no call is lost and none overwrites a data point, in
any interleaving. -/
theorem kept_of_safe (L : InterProcessLock) {file : StateFile}
    (hn : (genealogy file.contents).Numbered) {es : List Event}
    (hsafe : Along World.step Safe (World.start L file) es) :
    Always World.step (Kept file.contents) (World.start L file) es := by
  have hinv : Always World.step (Inv file.contents) (World.start L file) es :=
    Along.always World.step (I := Inv file.contents) (fun s e hi hs => step_inv hi e hs)
      (start_inv hn) hsafe
  exact hinv.mono World.step fun s hi => hi.account.kept

/-- As long as every step is safe, the state file is at every moment what the calls that have
saved make of the first one, taken one at a time. -/
theorem serialized_of_safe (L : InterProcessLock) {file : StateFile}
    (hn : (genealogy file.contents).Numbered) {es : List Event}
    (hsafe : Along World.step Safe (World.start L file) es) :
    Always World.step (fun s => (s.saves.map Entry.label).foldlM
        (fun points saver => saver.running.call.apply saver.now points) file.contents =
          .ok s.file.contents) (World.start L file) es := by
  have hinv : Always World.step (Inv file.contents) (World.start L file) es :=
    Along.always World.step (I := Inv file.contents) (fun s e hi hs => step_inv hi e hs)
      (start_inv hn) hsafe
  exact hinv.mono World.step fun s hi => saves_replay hi.account

end Steps

/-! ## Runs -/

/-- A record lock: the process that has it is granted it again. -/
def recordLock : InterProcessLock where
  State := Option Nat
  free := none
  acquire s p := if s = none ∨ s = some p then some (some p) else none
  release s p := if s = some p then none else s
  Holds s p := s = some p
  holds_of_acquire := by
    intro s s' p h
    split at h
    next => exact (Option.some.inj h).symm
    next => exact nomatch h
  excludes := by
    intro s s' p q h hq hheld
    split at h
    next hfree =>
      rcases hfree with hnone | hown
      · exact nomatch hnone.symm.trans hheld
      · exact hq (Option.some.inj (hheld.symm.trans hown))
    next => exact nomatch h

/-- One call from beginning to end, with nobody else about. -/
def wholeCall (t : Thread) (call : Call) : List Event :=
  .begin t call 0 :: List.replicate 7 (.advance t 0)

/-- A registration, all the way through. -/
theorem kept_registration :
    Always World.step (Kept (StateFile.missing).contents) (World.start recordLock .missing)
      (.construct 0 0 :: wholeCall ⟨0, 0⟩ (.register "0001" none 0)) := by
  have hempty : (genealogy (StateFile.missing).contents).Numbered := Genealogy.numbered_empty
  refine kept_of_safe recordLock hempty ?_
  refine ⟨trivial, trivial, trivial, fun _ u hu _ r' ph' hx => ?_, trivial, trivial,
    fun _ => ⟨fun n _ hk => ?_, ?_⟩, trivial, trivial, trivial⟩
  · have hnone : Function.update (Function.update (fun _ : Thread => none) ⟨0, 0⟩
        (some ((⟨0, .register "0001" none 0, 0, false⟩ : Running), Phase.entered))) ⟨0, 0⟩
        (some (⟨0, .register "0001" none 0, 0, false⟩, Phase.waiting 0)) u = none := by
      rw [Function.update_of_ne hu, Function.update_of_ne hu]
    exact nomatch hnone.symm.trans hx
  · rcases hk with hthere | ⟨_, _, hl, _⟩
    · exact hthere rfl
    · exact nomatch hl
  · rintro ⟨_, _, _, hl, _, _⟩
    exact nomatch hl

/-- One thread drops a data point while another is about to register one. -/
def twoThreads : List Event :=
  [.construct 0 0, .begin ⟨0, 0⟩ (.unregister "0001") 0,
    .begin ⟨0, 1⟩ (.register "0002" none 0) 0] ++ List.replicate 7 (.advance ⟨0, 0⟩ 0)

theorem serialized_two_threads :
    Always World.step (fun s => (s.saves.map Entry.label).foldlM
        (fun points saver => saver.running.call.apply saver.now points)
          (StateFile.missing).contents = .ok s.file.contents)
      (World.start recordLock .missing) twoThreads := by
  have hempty : (genealogy (StateFile.missing).contents).Numbered := Genealogy.numbered_empty
  refine serialized_of_safe recordLock hempty ?_
  refine ⟨trivial, trivial, trivial, trivial, fun _ u hu _ r ph hx hinside => ?_, trivial, trivial,
    trivial, trivial, trivial, trivial⟩
  have hother : Function.update (Function.update (fun _ : Thread => none) ⟨0, 0⟩
      (some ((⟨0, .unregister "0001", 0, false⟩ : Running), Phase.entered))) ⟨0, 1⟩
      (some (⟨1, .register "0002" none 0, 0, false⟩, Phase.entered)) u = some (r, ph) :=
    (Function.update_of_ne hu _ _).symm.trans hx
  -- the other thread has not come to the lock
  by_cases hone : u = ⟨0, 1⟩
  · rw [hone, Function.update_self] at hother
    obtain rfl : Phase.entered = ph := congrArg Prod.snd (Option.some.inj hother)
    exact nomatch hinside
  · have hnone : Function.update (fun _ : Thread => none) ⟨0, 0⟩
        (some ((⟨0, .unregister "0001", 0, false⟩ : Running), Phase.entered)) u = none :=
      Function.update_of_ne hu _ _
    rw [Function.update_of_ne hone, hnone] at hother
    exact nomatch hother
/-- A data point analysed again, dropped, registered anew and analysed again. -/
def reanalyzedTwice : List Event :=
  .construct 0 0 ::
    ([.register "0001" none 0, .updateStatus "0001" .completed none,
      .markForReanalysis "0001", .unregister "0001", .register "0001" none 0,
      .updateStatus "0001" .completed none, .markForReanalysis "0001"] : List Call).flatMap
        (wholeCall ⟨0, 0⟩)

/-- The count starts again with the record, and the second reanalysis takes the id of the
first. -/
theorem reanalysis_overwritten :
    ¬ ∀ es, Always World.step (Kept ∅) (World.start recordLock .missing) es := by
  intro h
  have hkept := (h reanalyzedTwice).last World.step
  have hlast : ((run World.step (World.start recordLock .missing) reanalyzedTwice).saves[6]?.map
      fun e => (e.label.running.call.creates e.before,
        (e.before.get? "0001_reanalyze_1").isSome)) =
      some (some "0001_reanalyze_1", true) := by decide +kernel
  rw [Option.map_eq_some_iff] at hlast
  obtain ⟨e, he, hpair⟩ := hlast
  injection hpair with hcreates hthere
  refine hkept.fresh e (List.mem_of_getElem? he) _ hcreates (Or.inl fun hnone => ?_)
  rw [genealogy_eq_none.mp hnone] at hthere
  exact nomatch hthere

end OSimFlow.DataPoints
