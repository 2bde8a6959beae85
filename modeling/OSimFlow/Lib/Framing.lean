import OSimFlow.Lib.Separator

/-!
# Frames without a length

A stream of frames in which a name ends at a separator and a content ends nowhere: a content
is told from what follows it only by what the reader makes of it. Marks between the frames are
told from names by their first letter.

> `text_eq_iff`: two streams are the same if the frames are, or one content goes on in the
> other as its own stream goes on behind it.
-/

namespace OSimFlow.Lib

/-- A name with a content, or a mark. -/
inductive Frame (α : Type) where
  | entry (name content : List α)
  | mark
deriving DecidableEq

namespace Frame

variable {α : Type} (sep : α) (m : List α)

/-- A frame as it is written. -/
def text : Frame α → List α
  | entry name content => name ++ sep :: content
  | mark => m

/-- The frames, one behind the other. -/
def stream (frames : List (Frame α)) : List α := frames.flatMap (text sep m)

/-- The frames agree up to a content, and that one goes on in `frames'` as the stream goes on
behind it in `frames`. -/
def Spills (frames frames' : List (Frame α)) : Prop :=
  ∃ before name content more rest rest', more ≠ [] ∧
    frames = before ++ entry name content :: rest ∧
    frames' = before ++ entry name (content ++ more) :: rest' ∧
    stream sep m rest = more ++ stream sep m rest'

/-- A name ends at the first separator, and does not begin like a mark. -/
def Readable : Frame α → Prop
  | entry name _ => sep ∉ name ∧ ∀ c ∈ m.head?, c ∉ name
  | mark => True

variable {sep m}

theorem stream_cons (frame : Frame α) (frames : List (Frame α)) :
    stream sep m (frame :: frames) = text sep m frame ++ stream sep m frames :=
  List.flatMap_cons

theorem stream_append (frames frames' : List (Frame α)) :
    stream sep m (frames ++ frames') = stream sep m frames ++ stream sep m frames' :=
  List.flatMap_append

theorem Spills.stream_eq {frames frames' : List (Frame α)} (h : Spills sep m frames frames') :
    stream sep m frames = stream sep m frames' := by
  obtain ⟨before, name, content, more, rest, rest', -, rfl, rfl, hrest⟩ := h
  rw [stream_append, stream_append, stream_cons, stream_cons, hrest, text, text]
  simp only [List.append_assoc, List.cons_append]

theorem Spills.cons {frames frames' : List (Frame α)} (frame : Frame α)
    (h : Spills sep m frames frames') : Spills sep m (frame :: frames) (frame :: frames') := by
  obtain ⟨before, name, content, more, rest, rest', hmore, rfl, rfl, hrest⟩ := h
  exact ⟨frame :: before, name, content, more, rest, rest', hmore, rfl, rfl, hrest⟩

/-- No entry begins as a mark does. -/
theorem entry_ne_mark {c : α} {ms name content x y : List α} (hc : c ≠ sep) (hname : c ∉ name) :
    text sep (c :: ms) (entry name content) ++ x ≠ c :: ms ++ y := by
  intro h
  cases name with
  | nil =>
    injection h with hhead _
    exact hc hhead.symm
  | cons d name =>
    injection h with hhead _
    exact hname (hhead ▸ List.mem_cons_self)

theorem text_ne_nil {c : α} {ms : List α} (frame : Frame α) : text sep (c :: ms) frame ≠ [] := by
  cases frame with
  | entry name content => exact List.append_ne_nil_of_right_ne_nil _ (List.cons_ne_nil _ _)
  | mark => exact List.cons_ne_nil _ _

/-- Where two streams begin with one name, they are read on alike or one content spills. -/
theorem entry_cases {name name' content content' x y : List α} (hname : sep ∉ name)
    (hname' : sep ∉ name')
    (h : text sep m (entry name content) ++ x = text sep m (entry name' content') ++ y) :
    name = name' ∧ ((content = content' ∧ x = y) ∨
      (∃ more, more ≠ [] ∧ content' = content ++ more ∧ x = more ++ y) ∨
      ∃ more, more ≠ [] ∧ content = content' ++ more ∧ y = more ++ x) := by
  rw [text, text, List.append_assoc, List.append_assoc, List.cons_append, List.cons_append] at h
  obtain ⟨hsame, hrest⟩ := append_sep_inj hname hname' h
  refine ⟨hsame, ?_⟩
  rcases List.append_eq_append_iff.mp hrest with ⟨more, hcontent, hx⟩ | ⟨more, hcontent, hy⟩
  · by_cases hmore : more = []
    · rw [hmore, List.append_nil] at hcontent
      rw [hmore, List.nil_append] at hx
      exact .inl ⟨hcontent.symm, hx⟩
    · exact .inr (.inl ⟨more, hmore, hcontent, hx⟩)
  · by_cases hmore : more = []
    · rw [hmore, List.append_nil] at hcontent
      rw [hmore, List.nil_append] at hy
      exact .inl ⟨hcontent, hy.symm⟩
    · exact .inr (.inr ⟨more, hmore, hcontent, hy⟩)

theorem of_stream_eq {c : α} {ms : List α} (hc : c ≠ sep) {frames frames' : List (Frame α)}
    (hread : ∀ frame ∈ frames, Readable sep (c :: ms) frame)
    (hread' : ∀ frame ∈ frames', Readable sep (c :: ms) frame)
    (h : stream sep (c :: ms) frames = stream sep (c :: ms) frames') :
    frames = frames' ∨ Spills sep (c :: ms) frames frames' ∨
      Spills sep (c :: ms) frames' frames := by
  induction frames generalizing frames' with
  | nil =>
    cases frames' with
    | nil => exact .inl rfl
    | cons frame' frames' =>
      rw [stream_cons] at h
      exact absurd (List.append_eq_nil_iff.mp h.symm).1 (text_ne_nil frame')
  | cons frame frames ih =>
    cases frames' with
    | nil =>
      rw [stream_cons] at h
      exact absurd (List.append_eq_nil_iff.mp h).1 (text_ne_nil frame)
    | cons frame' frames' =>
      rw [stream_cons, stream_cons] at h
      obtain ⟨hframe, hrest⟩ := List.forall_mem_cons.mp hread
      obtain ⟨hframe', hrest'⟩ := List.forall_mem_cons.mp hread'
      have hgo : stream sep (c :: ms) frames = stream sep (c :: ms) frames' → frame = frame' →
          frame :: frames = frame' :: frames' ∨
            Spills sep (c :: ms) (frame :: frames) (frame' :: frames') ∨
            Spills sep (c :: ms) (frame' :: frames') (frame :: frames) := by
        intro hstream hsame
        subst hsame
        rcases ih hrest hrest' hstream with heq | hspills | hspills
        · exact .inl (congrArg _ heq)
        · exact .inr (.inl (hspills.cons frame))
        · exact .inr (.inr (hspills.cons frame))
      cases frame with
      | mark =>
        cases frame' with
        | mark => exact hgo (List.append_cancel_left h) rfl
        | entry name content => exact absurd h.symm (entry_ne_mark hc (hframe'.2 c rfl))
      | entry name content =>
        cases frame' with
        | mark => exact absurd h (entry_ne_mark hc (hframe.2 c rfl))
        | entry name' content' =>
          obtain ⟨rfl, hcases⟩ := entry_cases hframe.1 hframe'.1 h
          rcases hcases with ⟨rfl, hstream⟩ | ⟨more, hmore, rfl, hx⟩ | ⟨more, hmore, rfl, hy⟩
          · exact hgo hstream rfl
          · exact .inr (.inl ⟨[], name, content, more, frames, frames', hmore, rfl, rfl, hx⟩)
          · exact .inr (.inr ⟨[], name, content', more, frames', frames, hmore, rfl, rfl, hy⟩)

theorem text_eq_iff {c : α} {ms : List α} (hc : c ≠ sep) {frames frames' : List (Frame α)}
    (hread : ∀ frame ∈ frames, Readable sep (c :: ms) frame)
    (hread' : ∀ frame ∈ frames', Readable sep (c :: ms) frame) :
    stream sep (c :: ms) frames = stream sep (c :: ms) frames' ↔
      frames = frames' ∨ Spills sep (c :: ms) frames frames' ∨
        Spills sep (c :: ms) frames' frames := by
  constructor
  · exact of_stream_eq hc hread hread'
  · intro h
    rcases h with rfl | hspills | hspills
    · rfl
    · exact hspills.stream_eq
    · exact hspills.stream_eq.symm

end Frame

end OSimFlow.Lib
