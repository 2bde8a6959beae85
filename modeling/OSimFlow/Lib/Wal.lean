import OSimFlow.Lib.Dict

/-!
# One file, many connections

A store that several connections share through a write-ahead log, with a transaction that a
connection opens before its first write and leaves open. The first write takes the lock;
a connection reads what it has written itself, or else what is committed. A write that finds
the lock taken fails, and leaves a transaction without the lock: the next read of such a
transaction fixes what is read in it, and a write is refused in it after another commit.

> `latest`: what the last writer has, committed or not.
>
> `write_spec`, `read_spec`, `commit_spec`, `crash_spec`: what an operation does to it, and
> when a connection reads it.
-/

namespace OSimFlow.Lib

/-- A state of the store, with the number of commits before it. -/
structure Snapshot (M : Type) where
  version : Nat
  contents : M

/-- The connection that has the lock; `dirty` if it has written. -/
structure Writer (I M : Type) where
  owner : I
  contents : M
  dirty : Bool

/-- The store; `begun` are the transactions without the lock, and what they read. -/
structure Wal (I M : Type) where
  committed : Snapshot M
  writer : Option (Writer I M)
  begun : Dict I (Option (Snapshot M))

/-- How a write ends: it is aborted if its constraint does not hold. -/
inductive Written where
  | done
  | aborted
  | busy
deriving DecidableEq

namespace Wal

variable {I M : Type} [DecidableEq I]

def new (m : M) : Wal I M := ⟨⟨0, m⟩, none, ∅⟩

variable (s : Wal I M) (i : I)

/-- The lock, if the connection has it or gets it. -/
def acquire : Option (Writer I M) :=
  match s.writer with
  | some w => if w.owner = i then some w else none
  | none =>
    match s.begun.get? i with
    | some (some snapshot) =>
      if snapshot.version = s.committed.version then some ⟨i, snapshot.contents, false⟩ else none
    | _ => some ⟨i, s.committed.contents, false⟩

/-- A write, by a connection that commits later. -/
def write (f : M → Option M) : Wal I M × Written :=
  match s.acquire i with
  | none => ({ s with begun := s.begun.setDefault i none }, .busy)
  | some w =>
    match f w.contents with
    | some m => ({ s with writer := some ⟨i, m, true⟩, begun := s.begun.erase i }, .done)
    | none => ({ s with writer := some w, begun := s.begun.erase i }, .aborted)

/-- A read without the lock. -/
def readCommitted : Wal I M × M :=
  match s.begun.get? i with
  | none => (s, s.committed.contents)
  | some none => ({ s with begun := s.begun.set i (some s.committed) }, s.committed.contents)
  | some (some snapshot) => (s, snapshot.contents)

def read : Wal I M × M :=
  match s.writer with
  | some w => if w.owner = i then (s, w.contents) else s.readCommitted i
  | none => s.readCommitted i

def commit : Wal I M :=
  match s.writer with
  | some w =>
    if w.owner = i then
      { committed := if w.dirty then ⟨s.committed.version + 1, w.contents⟩ else s.committed
        writer := none
        begun := s.begun.erase i }
    else { s with begun := s.begun.erase i }
  | none => { s with begun := s.begun.erase i }

/-- The end of a connection that does not commit. -/
def crash : Wal I M :=
  { s with
    writer := s.writer.filter fun w => w.owner ≠ i
    begun := s.begun.erase i }

/-! ## What was written last -/

def latest : M :=
  match s.writer with
  | some w => w.contents
  | none => s.committed.contents

/-- What is read in a transaction was committed once, and a writer that has not written has
what is committed. -/
structure Consistent : Prop where
  clean : ∀ w, s.writer = some w → w.dirty = false → w.contents = s.committed.contents
  older : ∀ i snapshot, s.begun.get? i = some (some snapshot) →
    snapshot.version ≤ s.committed.version
  same : ∀ i snapshot, s.begun.get? i = some (some snapshot) →
    snapshot.version = s.committed.version → snapshot.contents = s.committed.contents

/-- No other connection has written, and the connection reads no older state. -/
structure Current : Prop where
  alone : ∀ w, s.writer = some w → w.owner = i ∨ w.dirty = false
  upToDate : ∀ snapshot, s.begun.get? i = some (some snapshot) →
    snapshot.version = s.committed.version

section

variable {s i}

theorem consistent_new (m : M) : (new m : Wal I M).Consistent :=
  ⟨fun _ h => (nomatch h), fun _ _ h => (nomatch h), fun _ _ h => (nomatch h)⟩

omit [DecidableEq I] in
theorem latest_of_writer {w : Writer I M} (h : s.writer = some w) : s.latest = w.contents := by
  rw [latest, h]

omit [DecidableEq I] in
theorem latest_of_none (h : s.writer = none) : s.latest = s.committed.contents := by
  rw [latest, h]

/-- Who has the lock works on what was written last. -/
theorem acquire_spec (hs : s.Consistent) {w : Writer I M} (h : s.acquire i = some w) :
    w.owner = i ∧ w.contents = s.latest ∧
      (w.dirty = false → w.contents = s.committed.contents) := by
  rw [acquire] at h
  cases hwriter : s.writer with
  | some w' =>
    rw [hwriter] at h
    dsimp only at h
    split at h
    next howner =>
      obtain rfl : w' = w := Option.some.inj h
      exact ⟨howner, (latest_of_writer hwriter).symm, hs.clean w' hwriter⟩
    next => cases h
  | none =>
    rw [hwriter] at h
    dsimp only at h
    rw [latest_of_none hwriter]
    split at h
    next snapshot hbegun =>
      split at h
      next hversion =>
        obtain rfl := Option.some.inj h
        have hsame := hs.same i snapshot hbegun hversion
        exact ⟨rfl, hsame, fun _ => hsame⟩
      next => cases h
    next =>
      obtain rfl := Option.some.inj h
      exact ⟨rfl, rfl, fun _ => rfl⟩

theorem begun_of_erase {j : I} {snapshot : Snapshot M}
    (hj : (s.begun.erase i).get? j = some (some snapshot)) :
    s.begun.get? j = some (some snapshot) := by
  rw [Dict.get?_erase] at hj
  split at hj
  next => cases hj
  next => exact hj

theorem begun_of_setDefault {j : I} {snapshot : Snapshot M}
    (hj : (s.begun.setDefault i none).get? j = some (some snapshot)) :
    s.begun.get? j = some (some snapshot) := by
  rw [Dict.setDefault] at hj
  split at hj
  next => exact hj
  next =>
    rw [Dict.get?_set] at hj
    split at hj
    next => cases hj
    next => exact hj

/-- What is read in the transactions stays when some of them end. -/
theorem Consistent.of_erase (hs : s.Consistent) {writer : Option (Writer I M)}
    (hclean : ∀ w, writer = some w → w.dirty = false → w.contents = s.committed.contents) :
    ({ s with writer := writer, begun := s.begun.erase i } : Wal I M).Consistent :=
  ⟨hclean, fun j snapshot hj => hs.older j snapshot (begun_of_erase hj),
    fun j snapshot hj => hs.same j snapshot (begun_of_erase hj)⟩

/-- A write changes what was written last as it is to, or not at all. -/
theorem write_spec (hs : s.Consistent) (f : M → Option M) :
    (s.write i f).1.Consistent ∧
      match (s.write i f).2 with
      | .done => f s.latest = some (s.write i f).1.latest
      | .aborted => f s.latest = none ∧ (s.write i f).1.latest = s.latest
      | .busy => s.acquire i = none ∧ (s.write i f).1.latest = s.latest := by
  rw [write]
  cases hacquire : s.acquire i with
  | none =>
    refine ⟨⟨hs.clean, fun j snapshot hj => ?_, fun j snapshot hj => ?_⟩, rfl, rfl⟩
    · exact hs.older j snapshot (begun_of_setDefault hj)
    · exact hs.same j snapshot (begun_of_setDefault hj)
  | some w =>
    obtain ⟨-, hlatest, hclean⟩ := acquire_spec hs hacquire
    dsimp only
    cases hf : f w.contents with
    | some m =>
      refine ⟨hs.of_erase fun w' hw' hdirty => ?_, ?_⟩
      · obtain rfl := Option.some.inj hw'
        cases hdirty
      · show f s.latest = some m
        rw [← hlatest, hf]
    | none =>
      refine ⟨hs.of_erase fun w' hw' hdirty => ?_, ?_, hlatest⟩
      · obtain rfl := Option.some.inj hw'
        exact hclean hdirty
      · rw [← hlatest, hf]

/-- Who has written has the lock. -/
theorem acquire_of_done {f : M → Option M} (h : (s.write i f).2 = .done) :
    ((s.write i f).1.acquire i).isSome := by
  rw [write] at h ⊢
  cases hacquire : s.acquire i with
  | none =>
    rw [hacquire] at h
    cases h
  | some w =>
    rw [hacquire] at h
    dsimp only at h ⊢
    cases hf : f w.contents with
    | none =>
      rw [hf] at h
      cases h
    | some m => simp [acquire]

/-- A read leaves what was written last. -/
theorem read_consistent (hs : s.Consistent) :
    (s.read i).1.Consistent ∧ (s.read i).1.latest = s.latest := by
  have hcommitted : (s.readCommitted i).1.Consistent ∧ (s.readCommitted i).1.latest = s.latest := by
    rw [readCommitted]
    split
    next => exact ⟨hs, rfl⟩
    next =>
      refine ⟨⟨hs.clean, fun j snapshot hj => ?_, fun j snapshot hj hversion => ?_⟩, rfl⟩
      · rw [Dict.get?_set] at hj
        split at hj
        next =>
          obtain rfl := Option.some.inj (Option.some.inj hj)
          exact Nat.le_refl _
        next => exact hs.older j snapshot hj
      · rw [Dict.get?_set] at hj
        split at hj
        next =>
          obtain rfl := Option.some.inj (Option.some.inj hj)
          rfl
        next => exact hs.same j snapshot hj hversion
    next => exact ⟨hs, rfl⟩
  rw [read]
  split
  next w hw =>
    split
    next => exact ⟨hs, rfl⟩
    next => exact hcommitted
  next => exact hcommitted

/-- A connection that is current reads what was written last. -/
theorem read_spec (hs : s.Consistent) (hi : s.Current i) : (s.read i).2 = s.latest := by
  have hcommitted : (s.readCommitted i).2 = s.committed.contents := by
    rw [readCommitted]
    split
    next => rfl
    next => rfl
    next snapshot hbegun => exact hs.same i snapshot hbegun (hi.upToDate snapshot hbegun)
  rw [read]
  cases hwriter : s.writer with
  | none =>
    rw [latest_of_none hwriter]
    exact hcommitted
  | some w =>
    rw [latest_of_writer hwriter]
    dsimp only
    split
    next => rfl
    next howner =>
      rw [hcommitted]
      exact (hs.clean w hwriter ((hi.alone w hwriter).resolve_left howner)).symm

theorem commit_spec (hs : s.Consistent) :
    (s.commit i).Consistent ∧ (s.commit i).latest = s.latest := by
  rw [commit]
  split
  next w hw =>
    split
    next =>
      rw [latest_of_writer hw]
      -- older snapshots keep their numbers, and the commit has the next one
      have hbegun : ∀ j snapshot, (s.begun.erase i).get? j = some (some snapshot) →
          s.begun.get? j = some (some snapshot) := fun j snapshot => begun_of_erase
      cases hdirty : w.dirty with
      | false =>
        rw [if_neg (by decide)]
        exact ⟨hs.of_erase fun _ h => (nomatch h), (hs.clean w hw hdirty).symm⟩
      | true =>
        rw [if_pos rfl]
        refine ⟨⟨fun _ h => (nomatch h), fun j snapshot hj => ?_, fun j snapshot hj hversion => ?_⟩,
          rfl⟩
        · exact (hs.older j snapshot (hbegun j snapshot hj)).trans (Nat.le_succ _)
        · have holder := hs.older j snapshot (hbegun j snapshot hj)
          have hnew : snapshot.version = s.committed.version + 1 := hversion
          omega
    next => exact ⟨hs.of_erase hs.clean, rfl⟩
  next => exact ⟨hs.of_erase hs.clean, rfl⟩

/-- A crash loses nothing of a connection that has not written. -/
theorem crash_spec (hs : s.Consistent)
    (hi : ∀ w, s.writer = some w → w.owner = i → w.dirty = false) :
    (s.crash i).Consistent ∧ (s.crash i).latest = s.latest := by
  rw [crash]
  cases hwriter : s.writer with
  | none =>
    rw [latest_of_none hwriter]
    exact ⟨hs.of_erase fun _ h => (nomatch h), rfl⟩
  | some w =>
    rw [latest_of_writer hwriter]
    by_cases howner : w.owner = i
    · have hfilter : (some w).filter (fun w => w.owner ≠ i) = none := by simp [howner]
      rw [hfilter]
      exact ⟨hs.of_erase fun _ h => (nomatch h),
        (hs.clean w hwriter (hi w hwriter howner)).symm⟩
    · have hfilter : (some w).filter (fun w => w.owner ≠ i) = some w := by simp [howner]
      rw [hfilter]
      refine ⟨hs.of_erase fun w' hw' => ?_, rfl⟩
      obtain rfl := Option.some.inj hw'
      exact hs.clean w hwriter

end

end Wal

end OSimFlow.Lib
