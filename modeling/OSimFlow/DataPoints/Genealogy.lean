import Mathlib.Logic.Function.Basic
import OSimFlow.DataPoints.DataPoint
import OSimFlow.Lib.Separator

/-!
# Who came from whom

The n-th reanalysis of `x` is `x_reanalyze_n`, and the count in the record of `x` is
all that keeps the next one apart from the last. Whether it is a new id depends only
on the counts and on who is recorded as a source: the `Genealogy` of the data points.

> `Numbered g`: no id beyond the count of its data point is in use, neither as a
> data point nor as a recorded source.

Every call keeps this (`apply_numbered`) as long as a data point is added only under
an id that is not the next reanalysis of another, and whose own reanalyses are not
there already (`Change.Fits`). And then what a call creates is new (`creates_fresh`).
-/

namespace OSimFlow.DataPoints

open OSimFlow.Lib (Dict append_sep_inj notMem_repr)
open DataPointDict

/-! ## Reanalysis ids -/

theorem toList_reanalyzeId (sid : String) (n : Nat) :
    (reanalyzeId sid n).toList.reverse =
      n.repr.toList.reverse ++ '_' :: ("ezylanaer_".toList ++ sid.toList.reverse) := by
  rw [reanalyzeId, String.toList_append, String.toList_append, List.reverse_append,
    List.reverse_append]
  rfl

/-- The number is what follows the last underscore. -/
theorem reanalyzeId_inj {sid sid' : String} {n n' : Nat}
    (h : reanalyzeId sid n = reanalyzeId sid' n') : sid = sid' ∧ n = n' := by
  have hlist := congrArg (fun s : String => s.toList.reverse) h
  simp only [toList_reanalyzeId] at hlist
  have hdigits : ∀ m : Nat, '_' ∉ m.repr.toList.reverse := fun m hm =>
    notMem_repr (by decide) m (List.mem_reverse.mp hm)
  obtain ⟨hrepr, hrest⟩ := append_sep_inj (hdigits n) (hdigits n') hlist
  constructor
  · exact String.toList_inj.mp (List.reverse_injective (List.append_cancel_left hrest))
  · exact Nat.repr_injective (String.toList_inj.mp (List.reverse_injective hrepr))

theorem reanalyzeId_ne (sid : String) (n : Nat) : reanalyzeId sid n ≠ sid := by
  intro h
  have hlen := congrArg String.length h
  rw [reanalyzeId, String.length_append, String.length_append] at hlen
  have : "_reanalyze_".length = 11 := by decide
  omega

/-! ## Genealogies -/

/-- What a record says about where it comes from. -/
structure Links where
  reanalyzeCount : Nat
  mergedFrom : List String
  originalSampleId : Option String
deriving DecidableEq

def DataPoint.links (dp : DataPoint) : Links :=
  ⟨dp.reanalyzeCount, dp.mergedFrom, dp.originalSampleId⟩

abbrev Genealogy := String → Option Links

def genealogy (points : DataPointDict) : Genealogy :=
  fun sid => (points.get? sid).map DataPoint.links

namespace Genealogy

/-- The id is recorded as a source of some data point. -/
def Recorded (g : Genealogy) (id : String) : Prop :=
  ∃ sid links, g sid = some links ∧
    (id ∈ links.mergedFrom ∨ links.originalSampleId = some id)

/-- The id is that of a data point, or recorded as a source. -/
def Known (g : Genealogy) (id : String) : Prop :=
  g id ≠ none ∨ g.Recorded id

/-- No reanalysis beyond the count is in use. -/
def Numbered (g : Genealogy) : Prop :=
  ∀ sid links, g sid = some links → ∀ n, links.reanalyzeCount < n →
    ¬ g.Known (reanalyzeId sid n)

/-- No reanalysis of the id is in use. -/
def Free (g : Genealogy) (id : String) : Prop :=
  ∀ n, 0 < n → ¬ g.Known (reanalyzeId id n)

/-- The id is one that a data point will give to a later reanalysis. -/
def Reserved (g : Genealogy) (id : String) : Prop :=
  ∃ sid links n, g sid = some links ∧ links.reanalyzeCount < n ∧ id = reanalyzeId sid n

theorem numbered_empty : Numbered fun _ => none :=
  fun _ _ h => nomatch h

/-- What keeps a genealogy numbered: at most one id is new, its reanalyses are free, it
is not reserved, and no count goes down. -/
theorem Numbered.grow {g g' : Genealogy} (h : g.Numbered) (new : Option String)
    (known : ∀ id, g'.Known id → g.Known id ∨ new = some id)
    (counts : ∀ sid links', g' sid = some links' → new = some sid ∨
      ∃ links, g sid = some links ∧ links.reanalyzeCount ≤ links'.reanalyzeCount)
    (free : ∀ x, new = some x → g.Free x)
    (unreserved : ∀ x, new = some x → ∀ sid links' n, g' sid = some links' → sid ≠ x →
      links'.reanalyzeCount < n → x ≠ reanalyzeId sid n) : g'.Numbered := by
  intro sid links' hl n hn hk
  rcases known _ hk with hold | hnew
  · rcases counts sid links' hl with hsid | ⟨links, hlinks, hle⟩
    · exact free sid hsid n (by omega) hold
    · exact h sid links hlinks n (by omega) hold
  · exact unreserved _ hnew sid links' n hl (reanalyzeId_ne sid n).symm hn rfl

end Genealogy

open Genealogy

/-- What a call does to the genealogy. -/
inductive Change where
  | same
  | add (sid : String)
  | remove (sid : String)
  | regroup (target : String) (sources : List String)
  | reanalyze (sid : String)

namespace Change

def apply (g : Genealogy) : Change → Genealogy
  | same => g
  | add sid => if g sid = none then Function.update g sid (some ⟨0, [], none⟩) else g
  | remove sid => Function.update g sid none
  | regroup target sources =>
    Function.update g target (some (match g target with
      | some links => { links with mergedFrom := sources }
      | none => ⟨0, sources, none⟩))
  | reanalyze sid =>
    match g sid with
    | some links =>
      Function.update
        (Function.update g sid
          (some { links with reanalyzeCount := links.reanalyzeCount + 1 }))
        (reanalyzeId sid (links.reanalyzeCount + 1)) (some ⟨0, [], some sid⟩)
    | none => g

/-- A data point is added only under an id that no other has reserved and whose
reanalyses are free; a new target of a merge is not recorded as a source. -/
def Fits (g : Genealogy) : Change → Prop
  | add sid => g sid = none → g.Free sid ∧ ¬ g.Reserved sid
  | regroup target _ =>
    g target = none → g.Free target ∧ ¬ g.Reserved target ∧ ¬ g.Recorded target
  | reanalyze sid => ∀ links, g sid = some links →
      g.Free (reanalyzeId sid (links.reanalyzeCount + 1))
  | same | remove _ => True

end Change

/-- The change a call makes when it goes through. -/
def Call.change : Call → Change
  | register sid _ _ | withSeedModel sid _ | withWeatherFile sid _ | updateStatus sid _ _ =>
    .add sid
  | setPriority _ _ | reorderPending _ => .same
  | unregister sid => .remove sid
  | markForReanalysis sid => .reanalyze sid
  | merge sources target _ => .regroup target sources

/-! ## Calls act on the genealogy by their change -/

theorem genealogy_set (points : DataPointDict) (sid : String) (dp : DataPoint) :
    genealogy (points.set sid dp) = Function.update (genealogy points) sid (some dp.links) := by
  funext sid'
  rw [genealogy, Dict.get?_set]
  by_cases h : sid = sid'
  · rw [if_pos h, ← h, Function.update_self]
    rfl
  · rw [if_neg h, Function.update_of_ne (Ne.symm h)]
    rfl

theorem genealogy_set_same {points : DataPointDict} {sid : String} {dp dp' : DataPoint}
    (h : points.get? sid = some dp) (hl : dp'.links = dp.links) :
    genealogy (points.set sid dp') = genealogy points := by
  rw [genealogy_set, hl]
  refine Function.update_eq_self_iff.mpr ?_
  rw [genealogy, h, Option.map_some]

/-- An update that keeps the links of every record. -/
theorem genealogy_modify {f : DataPoint → DataPoint} (hf : ∀ dp, (f dp).links = dp.links)
    (points : DataPointDict) (sid : String) :
    genealogy (points.modify sid f) = genealogy points := by
  rw [DataPointDict.modify]
  split
  next dp h => exact genealogy_set_same h (hf dp)
  next => rfl

theorem genealogy_foldl {β : Type} {step : DataPointDict → β → DataPointDict}
    (hstep : ∀ points b, genealogy (step points b) = genealogy points) (l : List β)
    (points : DataPointDict) : genealogy (l.foldl step points) = genealogy points := by
  induction l generalizing points with
  | nil => rfl
  | cons b l ih => rw [List.foldl_cons, ih, hstep]

theorem genealogy_eq_none {points : DataPointDict} {sid : String} :
    genealogy points sid = none ↔ points.get? sid = none :=
  Option.map_eq_none_iff

theorem genealogy_of_get? {points : DataPointDict} {sid : String} {dp : DataPoint}
    (h : points.get? sid = some dp) : genealogy points sid = some dp.links := by
  rw [genealogy, h, Option.map_some]

theorem genealogy_register (now : Time) (points : DataPointDict) (sid : String)
    (workDir : Option String) (priority : Int) :
    genealogy (points.register now sid workDir priority) =
      (Change.add sid).apply (genealogy points) := by
  rw [register, Change.apply]
  split
  next dp h =>
    rw [if_neg (by rw [genealogy_of_get? h]; rintro ⟨⟩)]
    exact genealogy_set_same h rfl
  next h =>
    rw [if_pos (genealogy_eq_none.mpr h), genealogy_set]
    rfl

theorem genealogy_registerAndModify (now : Time) (points : DataPointDict) (sid : String)
    {f : DataPoint → DataPoint} (hf : ∀ dp, (f dp).links = dp.links) :
    genealogy (points.registerAndModify now sid f) =
      (Change.add sid).apply (genealogy points) := by
  rw [registerAndModify, genealogy_modify hf, autoRegister, Change.apply]
  split
  next dp h => rw [if_neg (by rw [genealogy_of_get? h]; rintro ⟨⟩)]
  next h =>
    rw [if_pos (genealogy_eq_none.mpr h), genealogy_set]
    rfl

theorem genealogy_setPriority {now : Time} {points points' : DataPointDict} {sid : String}
    {priority : Int} (hok : points.setPriority now sid priority = .ok points') :
    genealogy points' = genealogy points := by
  rw [setPriority] at hok
  split at hok
  next dp h =>
    injection hok with hok
    rw [← hok]
    exact genealogy_set_same h rfl
  next => cases hok

theorem genealogy_erase (points : DataPointDict) (sid : String) :
    genealogy (points.erase sid) = (Change.remove sid).apply (genealogy points) := by
  funext sid'
  rw [genealogy, Dict.get?_erase, Change.apply]
  by_cases h : sid = sid'
  · rw [if_pos h, ← h, Function.update_self]
    rfl
  · rw [if_neg h, Function.update_of_ne (Ne.symm h)]
    rfl

theorem genealogy_markForReanalysis {now : Time} {points points' : DataPointDict}
    {sid : String} (hok : points.markForReanalysis now sid = .ok points') :
    genealogy points' = (Change.reanalyze sid).apply (genealogy points) := by
  obtain ⟨original, h, original', new, rfl, hcount, hmerged, horigin, hzero, hnil, hsid⟩ :=
    markForReanalysis_ok hok
  have hlinks : original'.links =
      { original.links with reanalyzeCount := original.reanalyzeCount + 1 } := by
    rw [DataPoint.links, hcount, hmerged, horigin]
    rfl
  have hnew : new.links = ⟨0, [], some sid⟩ := by
    rw [DataPoint.links, hzero, hnil, hsid]
  rw [genealogy_set, genealogy_set, Change.apply, genealogy_of_get? h, hlinks, hnew]
  rfl

theorem genealogy_mergeTarget (now : Time) (points : DataPointDict) (sources : List String)
    (target workDir : String) :
    genealogy (points.mergeTarget now sources target workDir) =
      (Change.regroup target sources).apply (genealogy points) := by
  rw [mergeTarget, Change.apply]
  split
  next dp h =>
    rw [genealogy_set, genealogy_of_get? h]
    rfl
  next h =>
    rw [genealogy_set, genealogy_eq_none.mpr h]
    rfl

/-- A merge that goes through has found all its sources. -/
theorem merge_ok {now : Time} {points points' : DataPointDict} {sources : List String}
    {target workDir : String} (hok : points.merge now sources target workDir = .ok points') :
    (∀ sid ∈ sources, genealogy points sid ≠ none) ∧
      genealogy points' = (Change.regroup target sources).apply (genealogy points) := by
  rw [DataPointDict.merge] at hok
  split at hok
  next => cases hok
  next hall =>
    injection hok with hok
    constructor
    · intro sid hsid hnone
      have := List.find?_eq_none.mp hall sid hsid
      rw [genealogy_eq_none.mp hnone] at this
      exact this rfl
    · rw [← hok, genealogy_foldl, genealogy_mergeTarget]
      intro points sid
      exact genealogy_modify (fun _ => by rfl) points sid

theorem genealogy_reorderPending (now : Time) (points : DataPointDict)
    (updates : Dict String Int) :
    genealogy (points.reorderPending now updates) = genealogy points := by
  refine genealogy_foldl (fun points (item : String × Int) => ?_) _ _
  refine genealogy_modify (fun dp => ?_) points item.1
  split
  next => rfl
  next => rfl

theorem Call.apply_genealogy {now : Time} {points points' : DataPointDict} {call : Call}
    (hok : call.apply now points = .ok points') :
    genealogy points' = call.change.apply (genealogy points) := by
  cases call with
  | register sid workDir priority =>
    injection hok with hok
    rw [← hok]
    exact genealogy_register now points sid workDir priority
  | withSeedModel sid path =>
    injection hok with hok
    rw [← hok]
    exact genealogy_registerAndModify now points sid fun dp => rfl
  | withWeatherFile sid path =>
    injection hok with hok
    rw [← hok]
    exact genealogy_registerAndModify now points sid fun dp => rfl
  | updateStatus sid status error =>
    injection hok with hok
    rw [← hok]
    exact genealogy_registerAndModify now points sid fun dp => rfl
  | setPriority sid priority => exact genealogy_setPriority hok
  | unregister sid =>
    injection hok with hok
    rw [← hok]
    exact genealogy_erase points sid
  | markForReanalysis sid => exact genealogy_markForReanalysis hok
  | merge sources target workDir => exact (merge_ok hok).2
  | reorderPending updates =>
    injection hok with hok
    rw [← hok]
    exact genealogy_reorderPending now points updates

/-! ## Calls keep the numbering -/

namespace Genealogy

/-- A new record brings in its own id and its sources. -/
theorem Known.of_update {g : Genealogy} {sid id : String} {links : Links}
    (h : Known (Function.update g sid (some links)) id) :
    g.Known id ∨ some sid = some id ∨ id ∈ links.mergedFrom ∨
      links.originalSampleId = some id := by
  rcases h with he | ⟨sid', links', hl, hs⟩
  · by_cases hid : id = sid
    · exact Or.inr (Or.inl (congrArg some hid.symm))
    · rw [Function.update_of_ne hid] at he
      exact Or.inl (Or.inl he)
  · by_cases hsid : sid' = sid
    · rw [hsid, Function.update_self] at hl
      injection hl with hl
      rw [← hl] at hs
      exact Or.inr (Or.inr hs)
    · rw [Function.update_of_ne hsid] at hl
      exact Or.inl (Or.inr ⟨sid', links', hl, hs⟩)

theorem Known.of_remove {g : Genealogy} {sid id : String}
    (h : Known (Function.update g sid none) id) : g.Known id := by
  rcases h with he | ⟨sid', links', hl, hs⟩
  · by_cases hid : id = sid
    · rw [hid, Function.update_self] at he
      exact absurd rfl he
    · rw [Function.update_of_ne hid] at he
      exact Or.inl he
  · by_cases hsid : sid' = sid
    · rw [hsid, Function.update_self] at hl
      exact nomatch hl
    · rw [Function.update_of_ne hsid] at hl
      exact Or.inr ⟨sid', links', hl, hs⟩

/-- A new data point under a fitting id. -/
theorem Numbered.insert {g : Genealogy} (h : g.Numbered) {sid : String} {links : Links}
    (hfree : g.Free sid) (hreserved : ¬ g.Reserved sid)
    (hsources : ∀ id, id ∈ links.mergedFrom ∨ links.originalSampleId = some id → g.Known id) :
    Numbered (Function.update g sid (some links)) := by
  refine h.grow (some sid) (fun id hid => ?_) (fun sid' links' hl => ?_)
    (fun x hx => ?_) (fun x hx sid' links' n hl hne hn he => ?_)
  · rcases hid.of_update with hold | hnew | hsource
    · exact Or.inl hold
    · exact Or.inr hnew
    · exact Or.inl (hsources id hsource)
  · by_cases hsid : sid' = sid
    · exact Or.inl (congrArg some hsid.symm)
    · rw [Function.update_of_ne hsid] at hl
      exact Or.inr ⟨links', hl, Nat.le_refl _⟩
  · injection hx with hx
    exact hx ▸ hfree
  · injection hx with hx
    rw [← hx] at hne he
    rw [Function.update_of_ne hne] at hl
    exact hreserved ⟨sid', links', n, hl, hn, he⟩

/-- A record replaced by one with no smaller count and with known sources. -/
theorem Numbered.replace {g : Genealogy} (h : g.Numbered) {sid : String} {links links' : Links}
    (hl : g sid = some links) (hcount : links.reanalyzeCount ≤ links'.reanalyzeCount)
    (hsources : ∀ id, id ∈ links'.mergedFrom ∨ links'.originalSampleId = some id → g.Known id) :
    Numbered (Function.update g sid (some links')) := by
  refine h.grow none (fun id hid => ?_) (fun sid' links'' hl'' => ?_)
    (fun _ hx => nomatch hx) (fun _ hx => nomatch hx)
  · rcases hid.of_update with hold | hnew | hsource
    · exact Or.inl hold
    · injection hnew with hnew
      exact Or.inl (Or.inl (by rw [← hnew, hl]; exact nofun))
    · exact Or.inl (hsources id hsource)
  · by_cases hsid : sid' = sid
    · rw [hsid, Function.update_self] at hl''
      injection hl'' with hl''
      rw [hsid]
      exact Or.inr ⟨links, hl, hl'' ▸ hcount⟩
    · rw [Function.update_of_ne hsid] at hl''
      exact Or.inr ⟨links'', hl'', Nat.le_refl _⟩

theorem Numbered.remove {g : Genealogy} (h : g.Numbered) (sid : String) :
    Numbered (Function.update g sid none) := by
  refine h.grow none (fun id hid => Or.inl hid.of_remove) (fun sid' links' hl => ?_)
    (fun _ hx => nomatch hx) (fun _ hx => nomatch hx)
  by_cases hsid : sid' = sid
  · rw [hsid, Function.update_self] at hl
    exact nomatch hl
  · rw [Function.update_of_ne hsid] at hl
    exact Or.inr ⟨links', hl, Nat.le_refl _⟩

/-- The sources of a record are known. -/
theorem known_source {g : Genealogy} {sid id : String} {links : Links} (hl : g sid = some links)
    (h : id ∈ links.mergedFrom ∨ links.originalSampleId = some id) : g.Known id :=
  Or.inr ⟨sid, links, hl, h⟩

/-- A reanalysis: the count goes up first, and then its id is no longer reserved. -/
theorem Numbered.reanalyze {g : Genealogy} (h : g.Numbered) {sid : String} {links : Links}
    (hl : g sid = some links) (hfree : g.Free (reanalyzeId sid (links.reanalyzeCount + 1))) :
    Numbered ((Change.reanalyze sid).apply g) := by
  rw [Change.apply, hl]
  have hcounted : Numbered (Function.update g sid
      (some { links with reanalyzeCount := links.reanalyzeCount + 1 })) :=
    h.replace hl (Nat.le_succ _) fun id hs => known_source hl hs
  have hknown : ∀ id, Known (Function.update g sid
      (some { links with reanalyzeCount := links.reanalyzeCount + 1 })) id → g.Known id := by
    intro id hid
    rcases hid.of_update with hold | hsid | hsource
    · exact hold
    · injection hsid with hsid
      exact Or.inl (by rw [← hsid, hl]; exact nofun)
    · exact known_source hl hsource
  refine hcounted.insert (fun n hn hk => hfree n hn (hknown _ hk)) ?_ (fun id hs => ?_)
  · rintro ⟨sid', links', n, hl', hn, he⟩
    obtain ⟨hsid, hnum⟩ := reanalyzeId_inj he
    rw [← hsid, Function.update_self] at hl'
    injection hl' with hl'
    rw [← hl', ← hnum] at hn
    exact absurd hn (Nat.lt_irrefl _)
  · rcases hs with hm | hsid
    · exact nomatch hm
    · injection hsid with hsid
      exact Or.inl (by rw [← hsid, Function.update_self]; exact nofun)

end Genealogy

/-- A fitting change whose sources are there keeps the numbering. -/
theorem Change.apply_numbered {g : Genealogy} (h : g.Numbered) {change : Change}
    (hfits : change.Fits g)
    (hsources : ∀ target sources, change = .regroup target sources →
      ∀ sid ∈ sources, g sid ≠ none) : (change.apply g).Numbered := by
  cases change with
  | same => exact h
  | add sid =>
    rw [apply]
    split
    next hnone =>
      obtain ⟨hfree, hreserved⟩ := hfits hnone
      refine h.insert hfree hreserved fun id hs => ?_
      rcases hs with hm | ho
      · exact nomatch hm
      · exact nomatch ho
    next => exact h
  | remove sid => exact h.remove sid
  | regroup target sources =>
    have hknown : ∀ sid ∈ sources, g.Known sid :=
      fun sid hs => Or.inl (hsources target sources rfl sid hs)
    rw [apply]
    cases hl : g target with
    | some links =>
      refine h.replace hl (Nat.le_refl _) fun id hs => ?_
      rcases hs with hm | ho
      · exact hknown id hm
      · exact known_source hl (Or.inr ho)
    | none =>
      obtain ⟨hfree, hreserved, -⟩ := hfits hl
      refine h.insert hfree hreserved fun id hs => ?_
      rcases hs with hm | ho
      · exact hknown id hm
      · exact nomatch ho
  | reanalyze sid =>
    cases hl : g sid with
    | some links => exact h.reanalyze hl (hfits links hl)
    | none =>
      rw [apply, hl]
      exact h

/-- The call adds data points under fitting ids only. -/
def Call.Fits (points : DataPointDict) (call : Call) : Prop :=
  call.change.Fits (genealogy points)

theorem Call.apply_numbered {now : Time} {points points' : DataPointDict} {call : Call}
    (h : (genealogy points).Numbered) (hfits : call.Fits points)
    (hok : call.apply now points = .ok points') : (genealogy points').Numbered := by
  rw [apply_genealogy hok]
  refine Change.apply_numbered h hfits fun target sources hc => ?_
  cases call with
  | merge sources' target' workDir =>
    injection hc with htarget hsources
    rw [← hsources]
    exact (merge_ok hok).1
  | register | withSeedModel | withWeatherFile | updateStatus | setPriority | unregister
  | markForReanalysis | reorderPending => exact nomatch hc

/-- What a reanalysis or a merge creates has a new id. -/
theorem Call.creates_fresh {points : DataPointDict} {call : Call}
    (h : (genealogy points).Numbered) (hfits : call.Fits points) {id : String}
    (hc : call.creates points = some id) : ¬ (genealogy points).Known id := by
  cases call with
  | markForReanalysis sid =>
    rw [creates, Option.map_eq_some_iff] at hc
    obtain ⟨dp, hdp, rfl⟩ := hc
    exact h sid dp.links (genealogy_of_get? hdp) _ (Nat.lt_succ_self _)
  | merge sources target workDir =>
    rw [creates] at hc
    split at hc
    next => cases hc
    next hnone =>
      injection hc with hc
      have habsent : genealogy points target = none :=
        genealogy_eq_none.mpr (Option.not_isSome_iff_eq_none.mp hnone)
      rw [← hc]
      rintro (hthere | hrecorded)
      · exact hthere habsent
      · exact (hfits habsent).2.2 hrecorded
  | register | withSeedModel | withWeatherFile | updateStatus | setPriority | unregister
  | reorderPending => cases hc

end OSimFlow.DataPoints
