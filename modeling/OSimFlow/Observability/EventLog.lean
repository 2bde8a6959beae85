import OSimFlow.JsonLoads
import OSimFlow.Lib.Run
import OSimFlow.Lib.Strip
import OSimFlow.Detached.Download

/-!
# The event log of a campaign

`_emit` appends one line of JSON to `events.jsonl`; `read_event_log` returns what its lines
say, and skips those it cannot parse. The log is there for the time after a crash, and a crash
in the middle of an append leaves a line without its end. The next process appends to it.

> `survives_of_clean`: as long as no event is appended to a torn line, the log returns every
> event whose `_emit` returned, in order, and nothing that was not emitted.

`_encode_value` writes ASCII, so no character of a line is written in part and the only line
ends in the file are those of `_emit`. The payloads are JSON values, as the methods pass them.
-/

namespace OSimFlow.Observability.EventLog

open OSimFlow.Lib OSimFlow.JsonLoads
open OSimFlow.Detached (isSpace)

/-! ## The log -/

inductive EventType where
  | campaignStarted
  | stepStarted
  | stepCompleted
  | sampleStarted
  | sampleCompleted
  | sampleFailed
  | campaignCompleted
  | campaignFailed
deriving DecidableEq

/-- `event_type.value`. -/
def EventType.value : EventType → String
  | campaignStarted => "CAMPAIGN_STARTED"
  | stepStarted => "STEP_STARTED"
  | stepCompleted => "STEP_COMPLETED"
  | sampleStarted => "SAMPLE_STARTED"
  | sampleCompleted => "SAMPLE_COMPLETED"
  | sampleFailed => "SAMPLE_FAILED"
  | campaignCompleted => "CAMPAIGN_COMPLETED"
  | campaignFailed => "CAMPAIGN_FAILED"

/-- What a call of `_emit` writes about. -/
structure Event (F : Type) where
  ts : String
  type : EventType
  data : List (String × Json F)
  traceId : Option String

variable {F : Type} (f : FloatText F)

/-- `entry` -/
def Event.items (e : Event F) : List (String × Json F) :=
  [("ts", .str e.ts), ("type", .str e.type.value), ("data", .obj e.data),
    ("trace_id", e.traceId.elim .null .str)]

/-- `_encode_value(entry, sort_keys=False)` -/
def Event.line (e : Event F) : List Char := dumps f (.obj e.items)

/-- What `fh.write` is given. -/
def Event.written (e : Event F) : List Char := e.line f ++ ['\n']

/-- `_decode_value` -/
def decodeValue (blob : List Char) : Option (Json F) :=
  if blob = [] then none else loads f blob

/-- A turn of the loop of `read_event_log`. -/
def readLine (raw : List Char) : List (Json F) :=
  match decodeValue f (strip isSpace raw) with
  | none | some .null => []
  | some parsed => [parsed]

/-- `read_event_log`; a file that is missing reads like an empty one. -/
def readEventLog (file : List Char) : List (Json F) :=
  (file.splitOnP fun c => c == '\n').flatMap (readLine f)

/-! ## Processes -/

inductive Happening (F : Type) where
  | emit (e : Event F)
  /-- The process ends within the append, with so many characters written. -/
  | crash (e : Event F) (count : Nat)

structure World (F : Type) where
  file : List Char
  /-- The events whose `_emit` returned, and those it was called with, in order. -/
  returned : List (Event F)
  emitted : List (Event F)

def World.start : World F := ⟨[], [], []⟩

def step (w : World F) : Happening F → World F
  | .emit e => ⟨w.file ++ e.written f, w.returned ++ [e], w.emitted ++ [e]⟩
  | .crash e count => ⟨w.file ++ (e.written f).take count, w.returned, w.emitted ++ [e]⟩

/-- What `read_event_log` should make of an event. -/
def Event.value (e : Event F) : Json F := .obj e.items

/-- The log returns every event that was written, in order, and nothing else. -/
structure World.Survives (w : World F) : Prop where
  complete : (w.returned.map Event.value).Sublist (readEventLog f w.file)
  sound : (readEventLog f w.file).Sublist (w.emitted.map Event.value)

/-- The file is empty, or its last line has its end. -/
def EndsLine (file : List Char) : Prop := ∀ c, file.getLast? = some c → c = '\n'

/-- An event that is written is not appended to a torn line. -/
def Clean (w : World F) : Happening F → Prop
  | .emit _ => EndsLine w.file
  | .crash _ _ => True

/-! ## What a line reads as -/

section

variable {f}

theorem toList_dumpsStr_ts :
    (OSimFlow.Observability.Audit.dumpsStr "ts").toList = ['"', 't', 's', '"'] := by
  decide

theorem Event.line_eq (e : Event F) : ∃ l, e.line f = '\x7b' :: '"' :: 't' :: l := by
  unfold Event.line Event.items
  rw [dumps, dumpsEntries, toList_dumpsStr_ts]
  exact ⟨_, rfl⟩

theorem Event.piece {e : Event F} {q : List Char} (hq : q ≠ []) (hle : q <+: e.line f) :
    Piece f q := by
  obtain ⟨l, hl⟩ := e.line_eq (f := f)
  exact ⟨hq, e.items, hle, 't', l, hl, by decide⟩

theorem Event.line_ne_nil (e : Event F) : e.line f ≠ [] := by
  obtain ⟨l, hl⟩ := e.line_eq (f := f)
  rw [hl]
  exact List.cons_ne_nil _ _

theorem Event.printable {e : Event F} {q : List Char} (hle : q <+: e.line f) :
    ∀ c ∈ q, Printable c :=
  fun c hc => printable_dumps f (.obj e.items) c (hle.subset hc)

theorem printable_ne_newline {c : Char} (h : Printable c) : (c == '\n') = false := by
  rw [beq_eq_false_iff_ne]
  intro heq
  rw [heq] at h
  exact absurd h (by decide)

theorem isWhitespace_of_isSpace {c : Char} (h : Printable c) (hc : isSpace c = true) :
    isWhitespace c = true := by
  obtain ⟨hlow, hhigh⟩ := h
  have h32 : c.toNat = 32 := by
    unfold isSpace at hc
    simp only [Bool.or_eq_true, Bool.and_eq_true, decide_eq_true_eq, beq_iff_eq] at hc
    omega
  have hblank : c = ' ' := Char.toNat_inj.mp h32
  rw [hblank]
  decide

/-- The blanks that are stripped from a torn line do not make it a text. -/
theorem loads_strip {l : List Char} {v : Json F} (hall : ∀ c ∈ '\x7b' :: l, Printable c)
    (h : loads f (strip isSpace ('\x7b' :: l)) = some v) :
    loads f ('\x7b' :: l) = some v := by
  have hfront : ('\x7b' :: l).dropWhile isSpace = '\x7b' :: l :=
    List.dropWhile_cons_of_neg (by decide)
  unfold strip at h
  rw [hfront] at h
  have hsplit : ('\x7b' :: l).rdropWhile isSpace ++ ('\x7b' :: l).rtakeWhile isSpace =
      '\x7b' :: l := List.rdropWhile_append_rtakeWhile
  rw [← hsplit]
  refine loads_append_space h fun c hc => ?_
  exact isWhitespace_of_isSpace (hall c ((List.rtakeWhile_suffix _ _).subset hc))
    (List.mem_rtakeWhile_imp hc)

theorem readLine_nil : readLine f [] = [] := rfl

/-- The line of an event reads as the event. -/
theorem readLine_line (e : Event F) : readLine f (e.line f) = [e.value] := by
  obtain ⟨l, hl⟩ := e.line_eq (f := f)
  have hlast := getLast?_dumps_obj (f := f) e.items
  have hstrip : strip isSpace (e.line f) = e.line f := by
    obtain ⟨front, hfront⟩ := List.getLast?_eq_some_iff.mp hlast
    cases front with
    | nil =>
      have hlen := congrArg List.length (hl.symm.trans hfront)
      simp at hlen
    | cons c front =>
      have hc : c = '\x7b' := (List.cons.inj (hfront.symm.trans hl)).1
      show strip isSpace (dumps f (.obj e.items)) = dumps f (.obj e.items)
      rw [hfront, List.cons_append]
      exact strip_eq_self (by rw [hc]; decide) (by decide)
  unfold readLine decodeValue
  rw [hstrip, if_neg e.line_ne_nil]
  show (match loads f (dumps f (.obj e.items)) with
    | none | some .null => []
    | some parsed => [parsed]) = [e.value]
  rw [loads_dumps_obj]
  rfl

theorem readLine_of_not_loads {l : List Char} (hall : ∀ c ∈ '\x7b' :: l, Printable c)
    (h : loads f ('\x7b' :: l) = none) : readLine f ('\x7b' :: l) = [] := by
  have hnone : decodeValue f (strip isSpace ('\x7b' :: l)) = none := by
    unfold decodeValue
    split
    · rfl
    · cases hloads : loads f (strip isSpace ('\x7b' :: l)) with
      | none => rfl
      | some v =>
        rw [loads_strip hall hloads] at h
        exact nomatch h
  unfold readLine
  rw [hnone]

/-- What the appends since the last line end wrote, and of which events. -/
abbrev Tail (F : Type) := List (List Char × Event F)

def Tail.text (tail : Tail F) : List Char := (tail.map Prod.fst).flatten

/-- Each append wrote something. -/
def Tail.Torn (f : FloatText F) (tail : Tail F) : Prop :=
  ∀ p ∈ tail, p.1 ≠ [] ∧ p.1 <+: p.2.line f

theorem Tail.Torn.printable {tail : Tail F} (h : tail.Torn f) :
    ∀ c ∈ tail.text, Printable c := by
  intro c hc
  obtain ⟨q, hq, hcq⟩ := List.mem_flatten.mp hc
  obtain ⟨p, hp, rfl⟩ := List.mem_map.mp hq
  exact p.2.printable (h p hp).2 c hcq

theorem Tail.Torn.cons {p : List Char × Event F} {tail : Tail F}
    (h : Tail.Torn f (p :: tail)) : ∃ l, Tail.text (p :: tail) = '\x7b' :: l := by
  have hp := h p List.mem_cons_self
  obtain ⟨l, hl⟩ := (p.2.piece hp.1 hp.2).cons
  exact ⟨l ++ Tail.text tail, by show p.1 ++ Tail.text tail = _; rw [hl]; rfl⟩

/-- Two appends on one line make it unreadable. -/
theorem readLine_torn {p q : List Char × Event F} {tail : Tail F}
    (h : Tail.Torn f (p :: q :: tail)) : readLine f (Tail.text (p :: q :: tail)) = [] := by
  have hpiece : ∀ r ∈ p :: q :: tail, Piece f r.1 := fun r hr =>
    r.2.piece (h r hr).1 (h r hr).2
  have hrest : ∀ r ∈ tail.map Prod.fst, Piece f r := by
    intro r hr
    obtain ⟨s, hs, rfl⟩ := List.mem_map.mp hr
    exact hpiece s (List.mem_cons_of_mem _ (List.mem_cons_of_mem _ hs))
  have hnone : loads f (Tail.text (p :: q :: tail)) = none :=
    loads_torn (hpiece p List.mem_cons_self)
      (hpiece q (List.mem_cons_of_mem _ List.mem_cons_self)) hrest
  obtain ⟨l, hl⟩ := h.cons
  have hall := h.printable
  rw [hl] at hnone hall ⊢
  exact readLine_of_not_loads hall hnone

theorem exists_two_of_append {α : Type} {l : List α} (h : l ≠ []) (x : α) :
    ∃ a b rest, l ++ [x] = a :: b :: rest := by
  obtain ⟨a, l, rfl⟩ := List.exists_cons_of_ne_nil h
  cases l with
  | nil => exact ⟨a, x, [], rfl⟩
  | cons b l => exact ⟨a, b, l ++ [x], rfl⟩

/-- A line appended to a torn one is unreadable, with all that it was appended to. -/
theorem Tail.Torn.appended {tail : Tail F} (h : tail.Torn f) (hne : tail ≠ []) (e : Event F) :
    readLine f (tail.text ++ e.line f) = [] ∧ ∀ c ∈ tail.text ++ e.line f, Printable c := by
  have htorn : Tail.Torn f (tail ++ [(e.line f, e)]) := by
    intro q hq
    rcases List.mem_append.mp hq with hq | hq
    · exact h q hq
    · rw [List.mem_singleton.mp hq]
      exact ⟨e.line_ne_nil, List.prefix_refl _⟩
  have htext : Tail.text (tail ++ [(e.line f, e)]) = tail.text ++ e.line f := by
    unfold Tail.text
    rw [List.map_append, List.flatten_append]
    exact congrArg _ (List.append_nil _)
  rw [← htext]
  refine ⟨?_, htorn.printable⟩
  obtain ⟨p, q, rest, hcons⟩ := exists_two_of_append hne (e.line f, e)
  rw [hcons] at htorn ⊢
  exact readLine_torn htorn

/-- A line without its end reads as the event if nothing else is missing, or not at all. -/
theorem readLine_tail {tail : Tail F} (h : tail.Torn f) :
    ∃ events : List (Event F), events.Sublist (tail.map Prod.snd) ∧
      readLine f tail.text = events.map Event.value := by
  match tail, h with
  | [], _ => exact ⟨[], List.Sublist.refl _, readLine_nil⟩
  | [p], h =>
    have hp := h p List.mem_cons_self
    have htext : Tail.text [p] = p.1 := List.append_nil p.1
    obtain ⟨r, hr⟩ := hp.2
    rcases eq_or_ne r [] with rfl | hne
    · refine ⟨[p.2], List.Sublist.refl _, ?_⟩
      rw [htext, ← List.append_nil p.1, hr]
      exact readLine_line p.2
    · refine ⟨[], List.nil_sublist _, ?_⟩
      have hnone : loads f (Tail.text [p]) = none := by
        rw [htext]
        exact loads_cut hr.symm hp.1 hne
      obtain ⟨l, hl⟩ := h.cons
      have hall := h.printable
      rw [hl] at hnone hall ⊢
      exact readLine_of_not_loads hall hnone
  | p :: q :: tail, h => exact ⟨[], List.nil_sublist _, readLine_torn h⟩

end

/-! ## What every run keeps -/

/-- The file line by line, each with the event it reads as, and what stands behind them. -/
structure Account (w : World F) (lines : List (List Char × List (Event F))) (tail : Tail F) :
    Prop where
  file_eq : w.file = (lines.flatMap fun l => l.1 ++ ['\n']) ++ tail.text
  one_line : ∀ l ∈ lines, ∀ c ∈ l.1, Printable c
  reads : ∀ l ∈ lines, readLine f l.1 = l.2.map Event.value
  torn : tail.Torn f
  returned : w.returned.Sublist (lines.flatMap Prod.snd)
  emitted : (lines.flatMap Prod.snd ++ tail.map Prod.snd).Sublist w.emitted

def Accounted (w : World F) : Prop := ∃ lines tail, Account f w lines tail

section

variable {f}

theorem splitOnP_printable {l : List Char} (h : ∀ c ∈ l, Printable c) :
    l.splitOnP (fun c => c == '\n') = [l] :=
  List.splitOnP_eq_singleton fun c hc => printable_ne_newline (h c hc)

theorem readEventLog_lines {lines : List (List Char × List (Event F))}
    (hone : ∀ l ∈ lines, ∀ c ∈ l.1, Printable c) (rest : List Char) :
    readEventLog f ((lines.flatMap fun l => l.1 ++ ['\n']) ++ rest) =
      (lines.flatMap fun l => readLine f l.1) ++ readEventLog f rest := by
  induction lines with
  | nil => rfl
  | cons l lines ih =>
    have hrest := ih fun l' hl' => hone l' (List.mem_cons_of_mem _ hl')
    unfold readEventLog at hrest ⊢
    rw [List.flatMap_cons, List.append_assoc, List.append_assoc, List.singleton_append,
      List.splitOnP_append_cons_of_forall_mem
        (fun c hc => printable_ne_newline (hone l List.mem_cons_self c hc)) '\n' rfl,
      List.flatMap_cons, hrest, List.flatMap_cons, List.append_assoc]

theorem Account.read {w : World F} {lines : List (List Char × List (Event F))} {tail : Tail F}
    (h : Account f w lines tail) :
    readEventLog f w.file =
      (lines.flatMap Prod.snd).map Event.value ++ readLine f tail.text := by
  have hlines : (lines.flatMap fun l => readLine f l.1) =
      (lines.flatMap Prod.snd).map Event.value := by
    rw [List.map_flatMap]
    exact List.flatMap_congr h.reads
  rw [h.file_eq, readEventLog_lines h.one_line, hlines]
  unfold readEventLog
  rw [splitOnP_printable h.torn.printable, List.flatMap_singleton]

theorem Account.survives {w : World F} {lines : List (List Char × List (Event F))}
    {tail : Tail F} (h : Account f w lines tail) : w.Survives f := by
  obtain ⟨events, hsub, htail⟩ := readLine_tail h.torn
  constructor
  · rw [h.read]
    exact (h.returned.map _).trans (List.sublist_append_left _ _)
  · rw [h.read, htail, ← List.map_append]
    exact ((List.Sublist.append_left hsub _).trans h.emitted).map _

/-- Behind a line that has its end stands nothing. -/
theorem Account.tail_nil {w : World F} {lines : List (List Char × List (Event F))}
    {tail : Tail F} (h : Account f w lines tail) (hends : EndsLine w.file) : tail = [] := by
  cases tail with
  | nil => rfl
  | cons p tail =>
    obtain ⟨l, hl⟩ := h.torn.cons
    have hne : Tail.text (p :: tail) ≠ [] := by
      rw [hl]
      exact List.cons_ne_nil _ _
    have hlast : w.file.getLast? = some ((Tail.text (p :: tail)).getLast hne) := by
      rw [h.file_eq, List.getLast?_append_of_ne_nil _ hne, List.getLast?_eq_some_getLast hne]
    have hnewline := hends _ hlast
    have hprintable := h.torn.printable _ (List.getLast_mem hne)
    rw [hnewline] at hprintable
    exact absurd hprintable (by decide)

/-- A line is added behind the others. -/
theorem Account.addLine {w w' : World F} {lines : List (List Char × List (Event F))}
    {tail : Tail F} (h : Account f w lines tail) {l : List Char} {events : List (Event F)}
    (hfile : w'.file = (lines.flatMap fun l => l.1 ++ ['\n']) ++ (l ++ ['\n']))
    (hone : ∀ c ∈ l, Printable c) (hread : readLine f l = events.map Event.value)
    (hreturned : w'.returned.Sublist (lines.flatMap Prod.snd ++ events))
    (hemitted : (lines.flatMap Prod.snd ++ events).Sublist w'.emitted) :
    Account f w' (lines ++ [(l, events)]) [] where
  file_eq := by
    rw [hfile, List.flatMap_append, List.flatMap_singleton]
    exact (List.append_nil _).symm
  one_line := fun l' hl' => by
    rcases List.mem_append.mp hl' with hl' | hl'
    · exact h.one_line l' hl'
    · rw [List.mem_singleton.mp hl']
      exact hone
  reads := fun l' hl' => by
    rcases List.mem_append.mp hl' with hl' | hl'
    · exact h.reads l' hl'
    · rw [List.mem_singleton.mp hl']
      exact hread
  torn := fun _ hp => nomatch hp
  returned := by
    rw [List.flatMap_append, List.flatMap_singleton]
    exact hreturned
  emitted := by
    rw [List.flatMap_append, List.flatMap_singleton, List.map_nil, List.append_nil]
    exact hemitted

theorem Account.emit {w : World F} {lines : List (List Char × List (Event F))}
    (h : Account f w lines []) (e : Event F) :
    Account f (step f w (.emit e)) (lines ++ [(e.line f, [e])]) [] := by
  have hemitted := h.emitted
  rw [List.map_nil, List.append_nil] at hemitted
  refine h.addLine ?_ (Event.printable (List.prefix_refl _)) (readLine_line e)
    (h.returned.append (List.Sublist.refl _)) (hemitted.append (List.Sublist.refl _))
  show w.file ++ (e.line f ++ ['\n']) = _
  rw [h.file_eq]
  exact congrArg (fun l => l ++ (e.line f ++ ['\n'])) (List.append_nil _)

theorem Account.crash {w : World F} {lines : List (List Char × List (Event F))} {tail : Tail F}
    (h : Account f w lines tail) (e : Event F) (count : Nat) :
    ∃ lines' tail', Account f (step f w (.crash e count)) lines' tail' := by
  have hlonger : (lines.flatMap Prod.snd ++ tail.map Prod.snd).Sublist (w.emitted ++ [e]) :=
    h.emitted.trans (List.sublist_append_left _ _)
  rcases Nat.lt_or_ge (e.line f).length count with hall | hpart
  · -- the whole line was written, and its end
    have htake : (e.written f).take count = e.line f ++ ['\n'] :=
      List.take_of_length_le (by
        show (e.line f ++ ['\n']).length ≤ count
        rw [List.length_append, List.length_singleton]
        omega)
    have hfile : (step f w (.crash e count)).file = w.file ++ (e.line f ++ ['\n']) := by
      rw [← htake]
      rfl
    cases tail with
    | nil =>
      have hread : readLine f (e.line f) = [e].map Event.value := readLine_line e
      refine ⟨_, _, h.addLine ?_ (Event.printable (List.prefix_refl _)) hread
        (h.returned.trans (List.sublist_append_left _ _)) ?_⟩
      · rw [hfile, h.file_eq]
        exact congrArg (fun l => l ++ (e.line f ++ ['\n'])) (List.append_nil _)
      · have hemitted := h.emitted
        rw [List.map_nil, List.append_nil] at hemitted
        exact hemitted.append (List.Sublist.refl [e])
    | cons p tail =>
      -- the line it was appended to stays unreadable
      have hevents : lines.flatMap Prod.snd ++ ([] : List (Event F)) = lines.flatMap Prod.snd :=
        List.append_nil _
      obtain ⟨hread, hone⟩ := h.torn.appended (List.cons_ne_nil _ _) e
      refine ⟨_, _, h.addLine ?_ hone (hread.trans List.map_nil.symm) ?_ ?_⟩
      · rw [hfile, h.file_eq, List.append_assoc, List.append_assoc]
      · rw [hevents]
        exact h.returned
      · rw [hevents]
        exact (List.sublist_append_left _ _).trans hlonger
  · have htake : (e.written f).take count = (e.line f).take count :=
      List.take_append_of_le_length hpart
    have hfile : (step f w (.crash e count)).file = w.file ++ (e.line f).take count := by
      rw [← htake]
      rfl
    rcases eq_or_ne ((e.line f).take count) [] with hnil | hne
    · refine ⟨lines, tail, ?_, h.one_line, h.reads, h.torn, h.returned, hlonger⟩
      rw [hfile, hnil, List.append_nil]
      exact h.file_eq
    · refine ⟨lines, tail ++ [((e.line f).take count, e)], ?_, h.one_line, h.reads, ?_,
        h.returned, ?_⟩
      · unfold Tail.text
        rw [hfile, h.file_eq, List.map_append, List.flatten_append, List.append_assoc]
        exact congrArg (fun l => _ ++ (_ ++ l)) (List.append_nil _).symm
      · intro p hp
        rcases List.mem_append.mp hp with hp | hp
        · exact h.torn p hp
        · rw [List.mem_singleton.mp hp]
          exact ⟨hne, List.take_prefix _ _⟩
      · rw [List.map_append, ← List.append_assoc]
        exact h.emitted.append (List.Sublist.refl _)

theorem account_step {w : World F} {x : Happening F} (hx : Clean w x)
    (h : Accounted f w) : Accounted f (step f w x) := by
  obtain ⟨lines, tail, h⟩ := h
  cases x with
  | emit e =>
    obtain rfl := h.tail_nil hx
    exact ⟨_, _, h.emit e⟩
  | crash e count => exact h.crash e count

theorem account_start : Account f (World.start : World F) [] [] :=
  ⟨rfl, fun _ hl => (nomatch hl), fun _ hl => (nomatch hl), fun _ hp => (nomatch hp),
    List.Sublist.refl _, List.Sublist.refl _⟩

theorem survives_of_clean (f : FloatText F) (xs : List (Happening F))
    (h : Along (step f) Clean World.start xs) :
    Always (step f) (World.Survives f) World.start xs := by
  have haccount : Always (step f) (Accounted f) World.start xs :=
    h.always (step f) (fun w x hw hx => account_step hx hw) ⟨[], [], account_start⟩
  refine haccount.mono (step f) fun w hw => ?_
  obtain ⟨lines, tail, hw⟩ := hw
  exact hw.survives

end

/-! ## A crash and a restart -/

/-- Payloads without floats. -/
def noFloats : FloatText Empty where
  text := Empty.elim
  read := fun _ => none
  read_text := fun x => x.elim
  text_ne_nil := fun x => x.elim
  text_chars := fun x => x.elim
  not_name := fun x => x.elim
  not_int := fun x => x.elim

def stepStarted (ts : String) : Event Empty :=
  ⟨ts, .stepStarted, [("campaign_id", .str "c"), ("step", .str "EXTRACT_KPIS"),
    ("generation", .int 0)], none⟩

/-- A process that writes an event and crashes in the next one. -/
theorem survives_crash :
    Always (step noFloats) (World.Survives noFloats) World.start
      [.emit (stepStarted "10:00"), .crash (stepStarted "10:01") 20] :=
  survives_of_clean noFloats _
    ⟨fun _ hc => (nomatch hc), trivial, trivial⟩

/-- The first event of the process after it is not returned. -/
theorem first_event_after_restart_lost :
    ¬ Always (step noFloats) (World.Survives noFloats) World.start
      [.crash (stepStarted "10:01") 20, .emit (stepStarted "11:00")] := by
  intro h
  have hcomplete := h.last.complete
  have hlen := hcomplete.length_le
  have hnone : (readEventLog noFloats (run (step noFloats) World.start
      [.crash (stepStarted "10:01") 20, .emit (stepStarted "11:00")]).file).length = 0 := by
    decide +kernel
  rw [hnone] at hlen
  exact absurd hlen (by decide)

end OSimFlow.Observability.EventLog
