import OSimFlow.Lib.Instances
import OSimFlow.Lib.Run

/-!
# `run_openstudio_sim`: a result that is already there

Before it starts the OpenStudio CLI the call looks for an `eplusout.sql`: in the sample's
output directory, which it has just cleared, and under the package's `run/`, which nobody
clears. What lies there may be the result of the apply step, or what an attempt that failed
has left behind; the call cannot tell, publishes it and returns.

> `honest_iff`: every call that returns has published the result of a CLI run that exited 0
> over the package's content exactly if every call that finds a file in `run/` finds such a
> result there.
>
> `failed_run_reused`: a run exits 1 with a partial `eplusout.sql`, and the next call
> returns it.

A file is known by its place and by the run that wrote it. Heartbeats and logs are left out,
but for the health check's verdict; the stub that stands in for the CLI in tests is too.
-/

namespace OSimFlow.Work

open OSimFlow.Lib (run Along along_congr)

/-! ## Files and runs -/

/-- How the CLI ended. -/
inductive Exit where
  | zero
  | nonzero
  | killed
deriving DecidableEq

/-- Where an `eplusout.sql` comes from: the package as it was staged, or a CLI run over the
package's content. -/
inductive Origin (C : Type) where
  | staged
  | cli (exit : Exit) (content : C)
deriving DecidableEq

/-- An `eplusout.sql` under the package's `run/`. The empty path is the top level. -/
structure SqlFile (C : Type) where
  path : List String
  mtime : Nat
  size : Nat
  origin : Origin C
deriving DecidableEq

/-- What a run of the CLI does: its exit, which of the files there it leaves, and where it
writes new ones. -/
structure CliRun where
  exit : Exit
  keeps : List String → Bool
  wrote : List (List String × Nat × Nat)

/-- The files of the package's `run/`, and the published `eplusout.sql`. -/
structure World (C : Type) where
  runDir : List (SqlFile C)
  simOut : Option (Origin C)
deriving DecidableEq

variable {C : Type}

attribute [local instance] Lib.lawfulBEq_list in
/-- `run/` after a run over `content`. -/
def CliRun.apply (r : CliRun) (content : C) (files : List (SqlFile C)) : List (SqlFile C) :=
  (files.filter fun f => r.keeps f.path && decide (f.path ∉ r.wrote.map Prod.fst)) ++
    r.wrote.map fun w => ⟨w.1, w.2.1, w.2.2, .cli r.exit content⟩

/-! ## `_find_sql_in_package_run` -/

/-- The key `(st_mtime, st_size)` is smaller. -/
def older (f g : SqlFile C) : Bool :=
  f.mtime < g.mtime || f.mtime = g.mtime && f.size < g.size

/-- `max(candidates, key=…)`: the first of the greatest. -/
def newest (f : SqlFile C) (fs : List (SqlFile C)) : SqlFile C :=
  fs.foldl (fun best g => if older best g then g else best) f

/-- `sorted(candidates)[-1]`. -/
def lastByPath (f : SqlFile C) (fs : List (SqlFile C)) : SqlFile C :=
  fs.foldl (fun best g => if best.path < g.path then g else best) f

/-- `_find_sql_in_package_run`; `statOk`: no `stat` fails. -/
def findSql (statOk : Bool) (files : List (SqlFile C)) : Option (SqlFile C) :=
  match files.find? fun f => decide (f.path = []) with
  | some f => some f
  | none =>
    match files with
    | [] => none
    | f :: fs => some (if statOk then newest f fs else lastByPath f fs)

/-! ## A call -/

/-- What a call meets. -/
structure Call (C : Type) where
  /-- Pending `.osm` parameters are applied, or there are none. -/
  pending : Bool
  /-- The content of the package from then on. -/
  content : C
  statOk : Bool
  /-- The copies into the output directory succeed. -/
  copies : Bool
  /-- `none`: no CLI, or no `workflow.osw`. -/
  cli : Option CliRun
  /-- The heartbeat has gone stale during the run. -/
  stale : Bool

/-- `_reuse_existing_simulation_output`; `none`: a copy raises. A torn copy is cleared by the
next call before anyone looks. -/
def reuse (c : Call C) (w : World C) : Option (Bool × World C) :=
  if w.simOut.isSome then some (true, w)
  else
    match findSql c.statOk w.runDir with
    | none => some (false, w)
    | some f => if c.copies then some (true, { w with simOut := some f.origin }) else none

/-- `_run_real_openstudio`, and the health check behind it. -/
def runReal (c : Call C) (w : World C) : World C × Bool :=
  match c.cli with
  | none => (w, false)
  | some r =>
    let after := { w with runDir := r.apply c.content w.runDir }
    match r.exit with
    | .nonzero | .killed => (after, false)
    | .zero =>
      match reuse c after with
      | some (true, published) => (published, !c.stale)
      | _ => (after, false)

/-- `_run_openstudio_sim_impl`: the world behind the call, and whether it returns. -/
def runOpenstudioSim (w : World C) (c : Call C) : World C × Bool :=
  -- `_clear_stale_simulation_output`
  let cleared := { w with simOut := none }
  if !c.pending then (cleared, false)
  else
    match reuse c cleared with
    | none => (cleared, false)
    | some (true, published) => (published, true)
    | some (false, _) => runReal c cleared

/-- The world between two calls. -/
def afterCall (w : World C) (c : Call C) : World C := (runOpenstudioSim w c).1

/-! ## When a call is honest -/

/-- The result of a CLI run that exited 0 over this content. -/
def Genuine (content : C) (o : Origin C) : Prop := o = .cli .zero content

/-- A call that returns has published a genuine result. -/
def HonestReturn (w : World C) (c : Call C) : Prop :=
  (runOpenstudioSim w c).2 = true →
    ∃ o, (runOpenstudioSim w c).1.simOut = some o ∧ Genuine c.content o

/-- The file that a call finds in `run/` before it has run anything is genuine; where the
pending parameters or the copy fail nothing is asked. -/
def FindsGenuine (w : World C) (c : Call C) : Prop :=
  c.pending = true → c.copies = true →
    ∀ f, findSql c.statOk w.runDir = some f → Genuine c.content f.origin

/-! ## One call -/

theorem newest_mem (f : SqlFile C) (fs : List (SqlFile C)) : newest f fs ∈ f :: fs := by
  unfold newest
  induction fs generalizing f with
  | nil => exact List.mem_cons_self
  | cons g fs ih =>
    rw [List.foldl_cons]
    have h := ih (if older f g then g else f)
    split at h <;> grind

theorem lastByPath_mem (f : SqlFile C) (fs : List (SqlFile C)) : lastByPath f fs ∈ f :: fs := by
  unfold lastByPath
  induction fs generalizing f with
  | nil => exact List.mem_cons_self
  | cons g fs ih =>
    rw [List.foldl_cons]
    have h := ih (if f.path < g.path then g else f)
    split at h <;> grind

/-- What is found is there. -/
theorem mem_of_findSql {statOk : Bool} {files : List (SqlFile C)} {f : SqlFile C}
    (h : findSql statOk files = some f) : f ∈ files := by
  unfold findSql at h
  cases htop : files.find? fun f => decide (f.path = []) with
  | some top =>
    rw [htop] at h
    rw [← Option.some.inj h]
    exact List.mem_of_find?_eq_some htop
  | none =>
    rw [htop] at h
    cases files with
    | nil => exact nomatch h
    | cons g gs =>
      have heq : (if statOk then newest g gs else lastByPath g gs) = f := Option.some.inj h
      rw [← heq]
      cases statOk with
      | true => exact newest_mem g gs
      | false => exact lastByPath_mem g gs

/-- Something is found where something is. -/
theorem findSql_eq_none {statOk : Bool} {files : List (SqlFile C)} :
    findSql statOk files = none ↔ files = [] := by
  constructor
  · intro h
    cases files with
    | nil => rfl
    | cons g gs =>
      unfold findSql at h
      split at h <;> exact nomatch h
  · rintro rfl
    rfl

/-- A run into an empty `run/` leaves only files of its own. -/
theorem genuine_of_mem_apply {r : CliRun} {content : C} (hexit : r.exit = .zero)
    {f : SqlFile C} (hf : f ∈ r.apply content []) : Genuine content f.origin := by
  unfold CliRun.apply at hf
  rw [List.filter_nil, List.nil_append] at hf
  obtain ⟨w, -, rfl⟩ := List.mem_map.mp hf
  show Origin.cli r.exit content = .cli .zero content
  rw [hexit]

/-- Behind an empty `run/` the CLI decides: a call that returns publishes this run's result. -/
theorem honest_runReal {w : World C} {c : Call C} (hrun : w.runDir = []) (hout : w.simOut = none)
    (hret : (runReal c w).2 = true) :
    ∃ o, (runReal c w).1.simOut = some o ∧ Genuine c.content o := by
  unfold runReal at hret ⊢
  cases hcli : c.cli with
  | none =>
    rw [hcli] at hret
    exact nomatch hret
  | some r =>
    rw [hcli] at hret
    dsimp only at hret ⊢
    cases hexit : r.exit with
    | nonzero =>
      rw [hexit] at hret
      exact nomatch hret
    | killed =>
      rw [hexit] at hret
      exact nomatch hret
    | zero =>
      rw [hexit, hrun] at hret
      rw [hrun]
      unfold reuse at hret ⊢
      rw [hout] at hret ⊢
      simp only [Option.isSome_none, Bool.false_eq_true, if_false] at hret ⊢
      cases hfind : findSql c.statOk (r.apply c.content []) with
      | none =>
        rw [hfind] at hret
        exact nomatch hret
      | some f =>
        rw [hfind] at hret
        dsimp only at hret ⊢
        cases hcopies : c.copies with
        | false =>
          rw [hcopies] at hret
          exact nomatch hret
        | true => exact ⟨f.origin, rfl, genuine_of_mem_apply hexit (mem_of_findSql hfind)⟩

/-- A call whose parameters are in place looks for a result, and runs the CLI without one. -/
theorem runOpenstudioSim_eq {w : World C} {c : Call C} (hpending : c.pending = true) :
    runOpenstudioSim w c =
      match findSql c.statOk w.runDir with
      | none => runReal c ⟨w.runDir, none⟩
      | some f =>
        if c.copies then (⟨w.runDir, some f.origin⟩, true) else (⟨w.runDir, none⟩, false) := by
  unfold runOpenstudioSim reuse
  rw [hpending]
  dsimp only [Bool.not_true, Option.isSome_none]
  simp only [Bool.false_eq_true, if_false]
  cases findSql c.statOk w.runDir with
  | none => rfl
  | some f => cases c.copies <;> rfl

/-- One call, from any world: it is honest exactly if what it finds is genuine. -/
theorem honestReturn_iff (w : World C) (c : Call C) : HonestReturn w c ↔ FindsGenuine w c := by
  unfold HonestReturn FindsGenuine
  cases hpending : c.pending with
  | false =>
    refine iff_of_true (fun h => ?_) (fun h => by cases h)
    unfold runOpenstudioSim at h
    rw [hpending] at h
    cases h
  | true =>
    rw [runOpenstudioSim_eq hpending]
    cases hfind : findSql c.statOk w.runDir with
    | none =>
      refine iff_of_true (fun hret => ?_) (fun _ _ _ h => by cases h)
      exact honest_runReal (findSql_eq_none.mp hfind) rfl hret
    | some f =>
      cases hcopies : c.copies with
      | false => exact iff_of_true (fun h => by cases h) (fun _ h => by cases h)
      | true =>
        constructor
        · intro h _ _ g hg
          obtain ⟨o, ho, hgen⟩ := h rfl
          rw [← Option.some.inj hg]
          have heq : f.origin = o := Option.some.inj ho
          rw [heq]
          exact hgen
        · intro h _
          exact ⟨f.origin, rfl, h rfl rfl f rfl⟩

/-! ## Sequences of calls -/

/-- In every sequence of calls, from any package and output directory: every call that
returns is honest exactly if every call finds nothing but a genuine result in `run/`. -/
theorem honest_iff (w : World C) (calls : List (Call C)) :
    Along afterCall HonestReturn w calls ↔ Along afterCall FindsGenuine w calls :=
  along_congr afterCall (I := fun _ => True) (fun _ _ _ => trivial)
    (fun w c _ => honestReturn_iff w c) trivial calls

/-- The first attempt exits 1 and has written the top-level file; the second finds it. -/
def twoAttempts : List (Call Unit) :=
  [⟨true, (), true, true, some ⟨.nonzero, fun _ => true, [([], 1, 1)]⟩, false⟩,
    ⟨true, (), true, true, some ⟨.zero, fun _ => true, [([], 2, 9)]⟩, false⟩]

theorem failed_run_reused :
    (run (fun s c => (runOpenstudioSim s.1 c)) (⟨[], none⟩, false) twoAttempts) =
      (⟨[⟨[], 1, 1, .cli .nonzero ()⟩], some (.cli .nonzero ())⟩, true) ∧
    ¬ Along afterCall HonestReturn ⟨[], none⟩ twoAttempts := by
  refine ⟨by decide, fun h => ?_⟩
  obtain ⟨o, ho, hgen⟩ := h.2.1 (by decide)
  have hpublished : (runOpenstudioSim (afterCall ⟨[], none⟩
      (⟨true, (), true, true, some ⟨.nonzero, fun _ => true, [([], 1, 1)]⟩, false⟩ : Call Unit))
      ⟨true, (), true, true, some ⟨.zero, fun _ => true, [([], 2, 9)]⟩, false⟩).1.simOut =
      some (.cli .nonzero ()) := by decide
  rw [hpublished] at ho
  rw [← Option.some.inj ho] at hgen
  exact nomatch hgen

/-- Where all files of `run/` are genuine, a call that leaves no file of a run that failed, or
of other content, keeps it so. -/
theorem genuine_afterCall {content : C} {w : World C} {c : Call C}
    (hw : ∀ f ∈ w.runDir, Genuine content f.origin) (hcontent : c.content = content)
    (hclean : ∀ r, c.cli = some r → r.exit = .zero ∨ r.wrote = []) :
    ∀ f ∈ (afterCall w c).runDir, Genuine content f.origin := by
  have happly : ∀ r, c.cli = some r → ∀ f ∈ r.apply c.content w.runDir,
      Genuine content f.origin := by
    intro r hr f hf
    unfold CliRun.apply at hf
    rcases List.mem_append.mp hf with hold | hnew
    · exact hw f (List.mem_filter.mp hold).1
    · obtain ⟨x, hx, rfl⟩ := List.mem_map.mp hnew
      rcases hclean r hr with hzero | hnone
      · show Origin.cli r.exit c.content = .cli .zero content
        rw [hzero, hcontent]
      · rw [hnone] at hx
        exact nomatch hx
  have hrunReal : ∀ f ∈ (runReal c ⟨w.runDir, none⟩).1.runDir, Genuine content f.origin := by
    unfold runReal
    cases hcli : c.cli with
    | none => exact hw
    | some r =>
      have hrun := happly r hcli
      dsimp only
      cases r.exit with
      | nonzero => exact hrun
      | killed => exact hrun
      | zero =>
        unfold reuse
        dsimp only [Option.isSome_none]
        simp only [Bool.false_eq_true, if_false]
        cases findSql c.statOk (r.apply c.content w.runDir) with
        | none => exact hrun
        | some f => cases c.copies <;> exact hrun
  unfold afterCall
  cases hpending : c.pending with
  | false =>
    unfold runOpenstudioSim
    rw [hpending]
    exact hw
  | true =>
    rw [runOpenstudioSim_eq hpending]
    cases findSql c.statOk w.runDir with
    | none => exact hrunReal
    | some f => cases c.copies <;> exact hw

/-- A package without foreign results, the same content throughout, and failing runs that
write no `eplusout.sql`: all calls are honest. -/
theorem honest_of_clean {content : C} {w : World C} {calls : List (Call C)}
    (hw : ∀ f ∈ w.runDir, Genuine content f.origin)
    (hcalls : ∀ c ∈ calls, c.content = content ∧
      ∀ r, c.cli = some r → r.exit = .zero ∨ r.wrote = []) :
    Along afterCall HonestReturn w calls := by
  induction calls generalizing w with
  | nil => trivial
  | cons c calls ih =>
    obtain ⟨hcontent, hclean⟩ := hcalls c List.mem_cons_self
    refine ⟨(honestReturn_iff w c).mpr fun _ _ f hf => ?_, ?_⟩
    · rw [hcontent]
      exact hw f (mem_of_findSql hf)
    · exact ih (genuine_afterCall hw hcontent hclean)
        fun c' hc' => hcalls c' (List.mem_cons_of_mem _ hc')

/-- The first attempt exits 1 before it has written the file. -/
theorem honest_second_attempt :
    Along afterCall HonestReturn (⟨[], none⟩ : World Unit)
      [⟨true, (), true, true, some ⟨.nonzero, fun _ => true, []⟩, false⟩,
        ⟨true, (), true, true, some ⟨.zero, fun _ => true, [([], 2, 9)]⟩, false⟩] := by
  refine @honest_of_clean Unit () _ _ (fun _ hf => nomatch hf) fun c hc => ⟨rfl, fun r hr => ?_⟩
  rcases List.mem_cons.mp hc with rfl | hc
  · exact Or.inr (Option.some.inj hr ▸ rfl)
  · rw [List.mem_singleton.mp hc] at hr
    exact Or.inl (Option.some.inj hr ▸ rfl)

end OSimFlow.Work
