import OSimFlow.Executors.ResultKeys

/-!
# When a result is delivered

> `delivers_iff_suffixed`: the storage keys of a campaign are distinct and a result of it comes to its
> paths exactly if the prefix is a name of the campaign's directory, the result's files have a
> suffix and its directories none, and the completion markers do not meet the result's files.

The worker's uploads are one list of assignments to keys (`uploaded_eq`), the controller's
downloads one list of operations on its disk (`received_eq_some`). With the prefix in place, keys
are as good as paths, and both lists are about the files of the result and the markers (`IsTarget`).
-/

namespace OSimFlow.Executors.ResultTransport

open OSimFlow.Lib
open OSimFlow.Lib.PosixPath (Above joined)

variable {F C : Type}

namespace Transfer

/-! ## The order of the paths -/

theorem mem_unseen {seen : List PosixPath} {p : PosixPath} {ps : List PosixPath} :
    p ∈ unseen seen ps ↔ p ∈ ps ∧ p ∉ seen := by
  induction ps generalizing seen with
  | nil => exact ⟨fun h => (by cases h), fun h => (by cases h.1)⟩
  | cons q ps ih =>
    unfold unseen
    split
    next hq =>
      rw [ih, List.mem_cons]
      refine ⟨fun h => ⟨.inr h.1, h.2⟩, fun h => ⟨h.1.resolve_left ?_, h.2⟩⟩
      rintro rfl
      exact h.2 hq
    next hq =>
      rw [List.mem_cons, ih, List.mem_cons, List.mem_cons]
      constructor
      · rintro (rfl | ⟨hp, hnot⟩)
        · exact ⟨.inl rfl, hq⟩
        · exact ⟨.inr hp, fun h => hnot (.inr h)⟩
      · rintro ⟨hp, hnot⟩
        by_cases heq : p = q
        · exact .inl heq
        · exact .inr ⟨hp.resolve_left heq, fun h => h.elim heq hnot⟩

theorem nodup_unseen (seen ps : List PosixPath) : (unseen seen ps).Nodup := by
  induction ps generalizing seen with
  | nil => exact List.nodup_nil
  | cons q ps ih =>
    unfold unseen
    split
    next => exact ih seen
    next =>
      refine List.nodup_cons.mpr ⟨fun h => ?_, ih (q :: seen)⟩
      exact (mem_unseen.mp h).2 List.mem_cons_self

variable (t : Transfer F C) (empty : C)

/-- The result's paths, once each. -/
def order : List PosixPath := unseen [] t.paths

variable {t}

theorem mem_order {p : PosixPath} : p ∈ t.order ↔ p ∈ t.paths :=
  mem_unseen.trans (and_iff_left List.not_mem_nil)

/-! ## What the worker stores -/

variable (t)

/-- The paths and contents that are uploaded for a path. -/
def writesOf (p : PosixPath) : List (PosixPath × C) :=
  match t.worker.files.get? p with
  | some content => [(p, content)]
  | none =>
    if t.worker.isDir p then filesBelow t.worker p ++ [(markerOf p, empty)] else []

def writes : List (PosixPath × C) := t.order.flatMap (t.writesOf empty)

/-- An upload as an assignment to a key. -/
def keyed (item : PosixPath × C) : List Char × C := (t.key item.1, item.2)

variable {t}

theorem above_markerOf (p : PosixPath) : Above p (markerOf p) :=
  p.above_join isName_completeMarker (List.cons_ne_nil _ _)

theorem relativeTo_markerOf (p : PosixPath) : relativeTo (markerOf p) p = completeMarker := by
  unfold relativeTo
  show joined ((p.names ++ [completeMarker]).drop p.names.length) = _
  rw [List.drop_left]
  exact List.intercalate_singleton

theorem mem_filesBelow {w : Disk C} {p : PosixPath} {item : PosixPath × C} :
    item ∈ filesBelow w p ↔ w.files.get? item.1 = some item.2 ∧ Above p item.1 := by
  unfold filesBelow
  rw [List.mem_filter, decide_eq_true_iff]
  exact and_congr_left' Dict.mem_items

theorem uploadDir_eq (ha : t.Anchored) {p : PosixPath} (hp : Above t.outdir p)
    (storage : Store C) :
    uploadDir t.worker p (t.key p) storage =
      storage.setAll ((filesBelow t.worker p).map t.keyed) := by
  unfold uploadDir Dict.setAll
  rw [List.foldl_map]
  refine List.foldl_ext _ _ _ fun storage item hitem => ?_
  show storage.set _ item.2 = storage.set (t.key item.1) item.2
  rw [key_below ha hp (mem_filesBelow.mp hitem).2]

theorem uploadArtifacts_eq (ha : t.Anchored) {ps : List PosixPath} (hps : ∀ p ∈ ps, p ∈ t.paths)
    (seen : List PosixPath) (storage : Store C) :
    uploadArtifacts empty t.rootMarker t.worker ps seen storage =
      storage.setAll (((unseen seen ps).flatMap (t.writesOf empty)).map t.keyed) := by
  induction ps generalizing seen storage with
  | nil => rfl
  | cons p ps ih =>
    have hp := hps p List.mem_cons_self
    have habove : Above t.outdir p := t.below p hp
    have hrest := ih fun q hq => hps q (List.mem_cons_of_mem _ hq)
    have hkey : localPathToStorageKey t.rootMarker p ≠ [] := key_ne_nil ha habove
    rw [uploadArtifacts, unseen]
    by_cases hseen : p ∈ seen
    · rw [if_pos (.inr hseen), if_pos hseen]
      exact hrest seen storage
    · rw [if_neg (not_or.mpr ⟨hkey, hseen⟩), if_neg hseen, List.flatMap_cons, List.map_append]
      unfold writesOf
      cases hfile : t.worker.files.get? p with
      | some content => exact hrest (p :: seen) _
      | none =>
        have hdir : t.worker.isDir p = true := by
          refine decide_eq_true ((t.exist p hp).resolve_left fun hkeys => ?_)
          obtain ⟨v, hv⟩ := Dict.mem_keys_iff.mp hkeys
          exact nomatch hfile.symm.trans hv
        dsimp only
        rw [if_pos hdir, if_pos hdir, hrest, List.map_append]
        show ((uploadDir t.worker p (t.key p) storage).set _ empty).setAll _ = _
        rw [uploadDir_eq ha habove]
        have hmarker : t.key p ++ '/' :: completeMarker = t.key (markerOf p) := by
          rw [key_below ha habove (above_markerOf p), relativeTo_markerOf]
        show (Dict.set _ (t.key p ++ '/' :: completeMarker) empty).setAll _ = _
        rw [hmarker]
        unfold Dict.setAll
        rw [List.foldl_append, List.foldl_append]
        rfl

theorem uploaded_eq (ha : t.Anchored) :
    t.uploaded empty = t.stored.setAll ((t.writes empty).map t.keyed) :=
  uploadArtifacts_eq empty ha (fun _ hp => hp) [] t.stored

theorem get?_of_mem_keys {d : Disk C} {p : PosixPath} (h : p ∈ d.files.keys) :
    ∃ content, d.files.get? p = some content :=
  Dict.mem_keys_iff.mp h

/-- What is uploaded: the result's files, and a marker for each of its directories. -/
theorem mem_writesOf {p : PosixPath} {item : PosixPath × C} :
    item ∈ t.writesOf empty p ↔
      (t.worker.files.get? item.1 = some item.2 ∧
        (item.1 = p ∨ p ∈ t.worker.dirs ∧ Above p item.1)) ∨
      p ∈ t.worker.dirs ∧ item = (markerOf p, empty) := by
  unfold writesOf
  split
  next content hfile =>
    have hnot : p ∉ t.worker.dirs := fun hd => nomatch hfile.symm.trans (t.worker.disjoint p hd)
    rw [List.mem_singleton]
    constructor
    · rintro rfl
      exact .inl ⟨hfile, .inl rfl⟩
    · rintro (⟨hitem, heq | ⟨hd, _⟩⟩ | ⟨hd, _⟩)
      · rw [heq, hfile] at hitem
        exact Prod.ext heq (Option.some.inj hitem).symm
      · exact absurd hd hnot
      · exact absurd hd hnot
  next hfile =>
    split
    next hdir =>
      have hd : p ∈ t.worker.dirs := of_decide_eq_true hdir
      rw [List.mem_append, mem_filesBelow, List.mem_singleton]
      constructor
      · rintro (⟨hitem, habove⟩ | heq)
        · exact .inl ⟨hitem, .inr ⟨hd, habove⟩⟩
        · exact .inr ⟨hd, heq⟩
      · rintro (⟨hitem, heq | ⟨_, habove⟩⟩ | ⟨_, heq⟩)
        · rw [heq, hfile] at hitem
          exact nomatch hitem
        · exact .inl ⟨hitem, habove⟩
        · exact .inr heq
    next hdir =>
      have hnot : p ∉ t.worker.dirs := fun hd => hdir (decide_eq_true hd)
      constructor
      · exact fun h => (nomatch h)
      · rintro (⟨hitem, heq | ⟨hd, _⟩⟩ | ⟨hd, _⟩)
        · rw [heq, hfile] at hitem
          exact nomatch hitem
        · exact absurd hd hnot
        · exact absurd hd hnot

/-- Where something is stored for the result. -/
def IsTarget (t : Transfer F C) (q : PosixPath) : Prop :=
  IsResultFile t.worker t.paths q ∨ ∃ p ∈ t.paths, p ∈ t.worker.dirs ∧ q = markerOf p

theorem isTarget_iff {q : PosixPath} :
    t.IsTarget q ↔ ∃ item ∈ t.writes empty, item.1 = q := by
  constructor
  · rintro (⟨hkeys, hq⟩ | ⟨p, hp, hd, rfl⟩)
    · obtain ⟨content, hfile⟩ := get?_of_mem_keys hkeys
      rcases hq with hq | ⟨p, hp, hd, habove⟩
      · exact ⟨(q, content), List.mem_flatMap.mpr ⟨q, mem_order.mpr hq,
          (mem_writesOf empty).mpr (.inl ⟨hfile, .inl rfl⟩)⟩, rfl⟩
      · exact ⟨(q, content), List.mem_flatMap.mpr ⟨p, mem_order.mpr hp,
          (mem_writesOf empty).mpr (.inl ⟨hfile, .inr ⟨hd, habove⟩⟩)⟩, rfl⟩
    · exact ⟨(markerOf p, empty), List.mem_flatMap.mpr ⟨p, mem_order.mpr hp,
        (mem_writesOf empty).mpr (.inr ⟨hd, rfl⟩)⟩, rfl⟩
  · rintro ⟨item, hitem, rfl⟩
    obtain ⟨p, hp, hw⟩ := List.mem_flatMap.mp hitem
    have hp' := mem_order.mp hp
    rcases (mem_writesOf empty).mp hw with ⟨hfile, heq | ⟨hd, habove⟩⟩ | ⟨hd, heq⟩
    · exact .inl ⟨Dict.mem_keys_of_get? hfile, .inl (heq ▸ hp')⟩
    · exact .inl ⟨Dict.mem_keys_of_get? hfile, .inr ⟨p, hp', hd, habove⟩⟩
    · exact .inr ⟨p, hp', hd, congrArg Prod.fst heq⟩

theorem IsTarget.below {q : PosixPath} (h : t.IsTarget q) : Above t.outdir q := by
  rcases h with ⟨_, hq | ⟨p, hp, _, habove⟩⟩ | ⟨p, hp, _, rfl⟩
  · exact t.below q hq
  · exact (t.below p hp).trans habove
  · exact (t.below p hp).trans (above_markerOf p)

/-- A path's key has what was assigned last, or what was there. -/
theorem get?_uploaded (ha : t.Anchored) {q : PosixPath} (hq : Above t.outdir q) :
    (t.uploaded empty).get? (t.key q) =
      (Dict.lastOf q (t.writes empty)).or (t.stored.get? (t.key q)) := by
  rw [uploaded_eq empty ha, Dict.get?_setAll]
  have hmap : Dict.lastOf (t.key q) ((t.writes empty).map t.keyed) =
      Dict.lastOf q (t.writes empty) := by
    refine Dict.lastOf_map t.key fun item hitem hkey => ?_
    have htarget : t.IsTarget item.1 := (isTarget_iff empty).mpr ⟨item, hitem, rfl⟩
    exact keysDistinct_of_anchored ha item.1 q htarget.below hq hkey
  rw [hmap]

theorem lastOf_isSome {q : PosixPath} (h : t.IsTarget q) :
    ∃ content, Dict.lastOf q (t.writes empty) = some content := by
  obtain ⟨item, hitem, rfl⟩ := (isTarget_iff empty).mp h
  cases hlast : Dict.lastOf item.1 (t.writes empty) with
  | some content => exact ⟨content, rfl⟩
  | none =>
    have hkey : item.1 ∈ ((∅ : Dict PosixPath C).setAll (t.writes empty)).keys :=
      Dict.mem_keys_setAll.mpr (.inr (List.mem_map.mpr ⟨item, hitem, rfl⟩))
    obtain ⟨v, hv⟩ := Dict.mem_keys_iff.mp hkey
    rw [Dict.get?_setAll, hlast] at hv
    exact nomatch hv

theorem mem_keys_uploaded (ha : t.Anchored) {key : List Char} :
    key ∈ (t.uploaded empty).keys ↔
      key ∈ t.stored.keys ∨ ∃ q, t.IsTarget q ∧ key = t.key q := by
  rw [uploaded_eq empty ha, Dict.mem_keys_setAll, List.map_map]
  refine or_congr_right ?_
  constructor
  · intro h
    obtain ⟨item, hitem, rfl⟩ := List.mem_map.mp h
    exact ⟨item.1, (isTarget_iff empty).mpr ⟨item, hitem, rfl⟩, rfl⟩
  · rintro ⟨q, hq, rfl⟩
    obtain ⟨item, hitem, rfl⟩ := (isTarget_iff empty).mp hq
    exact List.mem_map.mpr ⟨item, hitem, rfl⟩

/-! ## What the controller does -/

/-- The operations for one of the listed objects. -/
def objectOps (storage : Store C) (p : PosixPath) (start obj : List Char) : List (Disk.Op C) :=
  if obj = start ∨ ¬ (start ++ ['/']) <+: obj ∨ obj.drop (start.length + 1) = [] then []
  else
    match storage.get? obj with
    | some content =>
      let target := p.div (obj.drop (start.length + 1))
      [.dir target.parent, .file target content]
    | none => []

variable (t)

/-- The operations for one of the result's paths; `none` if there is nothing to fetch. -/
def fetchOps (storage : Store C) (p : PosixPath) : Option (List (Disk.Op C)) :=
  if p.suffix ≠ [] then
    (storage.get? (t.key p)).map fun content => [.dir p.parent, .file p content]
  else if listResults storage (t.key p) = [] then none
  else
    some (.dir p :: (listResults storage (t.key p)).flatMap (objectOps storage p (t.key p)))

/-- All operations, one path after the other. -/
def allOps (storage : Store C) (ps : List PosixPath) : List (Disk.Op C) :=
  ps.flatMap fun p => (t.fetchOps storage p).getD []

variable {t}

theorem downloadFile_eq (storage : Store C) (key : List Char) (target : PosixPath) (d : Disk C) :
    downloadFile storage key target d = (storage.get? key).bind fun content =>
      d.save target content := by
  unfold downloadFile Disk.save
  cases hkey : storage.get? key with
  | some content => rfl
  | none =>
    cases d.mkdirs target.parent with
    | some e => rfl
    | none => rfl

theorem downloadObjects_eq {storage : Store C} {p : PosixPath} {start : List Char}
    {objects : List (List Char)} (h : ∀ obj ∈ objects, obj ∈ storage.keys) (d : Disk C) :
    downloadObjects storage p start objects d =
      d.perform (objects.flatMap (objectOps storage p start)) := by
  induction objects generalizing d with
  | nil => rfl
  | cons obj objects ih =>
    have hrest := ih fun o ho => h o (List.mem_cons_of_mem _ ho)
    rw [downloadObjects, List.flatMap_cons]
    unfold objectOps
    split
    next => exact hrest d
    next =>
      obtain ⟨content, hobj⟩ := Dict.mem_keys_iff.mp (h obj List.mem_cons_self)
      rw [hobj]
      show (d.mkdirs _).bind _ = (d.mkdirs _).bind _
      refine congrArg _ (funext fun e => ?_)
      show (downloadFile _ _ _ _).bind _ = (Disk.save _ _ _).bind _
      rw [downloadFile_eq, hobj]
      exact congrArg _ (funext fun e => hrest e)

theorem mem_listResults {storage : Store C} {start obj : List Char} :
    obj ∈ listResults storage start ↔ obj ∈ storage.keys ∧ start <+: obj := by
  unfold listResults
  rw [(sortedBy_perm id _).mem_iff, List.mem_filter, List.isPrefixOf_iff_prefix]

/-- A key does not end in a slash. -/
theorem rdropWhile_key (ha : t.Anchored) {p : PosixPath} (h : Above t.outdir p) :
    (t.key p).rdropWhile (fun c => decide (c = '/')) = t.key p := by
  refine List.rdropWhile_eq_self_iff.mpr fun hne hlast => ?_
  have hslash : t.key p = (t.key p).dropLast ++ '/' :: [] := by
    have hsplit := (List.dropLast_append_getLast hne).symm
    rw [of_decide_eq_true hlast] at hsplit
    exact hsplit
  rw [key_eq ha h] at hslash
  have hne' : t.anchor ++ t.rel p ≠ [] :=
    fun hnil => (names_eq h).2 (List.append_eq_nil_iff.mp hnil).2
  have hnames := PosixPath.splitOn_joined (isName_anchor_rel p) hne'
  rw [hslash, List.splitOn_append_cons_self, List.splitOn_nil] at hnames
  have hempty : ([] : List Char) ∈ t.anchor ++ t.rel p := by
    rw [← hnames]
    exact List.mem_append_right _ List.mem_cons_self
  exact (isName_anchor_rel p [] hempty).1 rfl

/-- What is done for one path. -/
theorem fetch_eq (ha : t.Anchored) {p : PosixPath} (h : Above t.outdir p) (storage : Store C)
    (d : Disk C) :
    (if p.suffix ≠ [] then do
        let d ← d.mkdirs p.parent
        downloadFile storage (t.key p) p d
      else do
        let d ← d.mkdirs p
        downloadDirectory storage p (t.key p) d) =
      (t.fetchOps storage p).bind d.perform := by
  unfold fetchOps
  split
  next =>
    cases hkey : storage.get? (t.key p) with
    | some content =>
      show (d.mkdirs _).bind _ = (d.mkdirs _).bind _
      refine congrArg _ (funext fun e => ?_)
      show downloadFile _ _ _ _ = (Disk.save _ _ _).bind some
      rw [downloadFile_eq, hkey, Option.bind_some, Option.bind_fun_some]
    | none =>
      cases hmk : d.mkdirs p.parent with
      | some e =>
        show downloadFile _ _ _ _ = none
        rw [downloadFile_eq, hkey]
        rfl
      | none => rfl
  next =>
    have hlist : ∀ e : Disk C, downloadDirectory storage p (t.key p) e =
        if listResults storage (t.key p) = [] then none
        else e.perform ((listResults storage (t.key p)).flatMap
          (objectOps storage p (t.key p))) := by
      intro e
      unfold downloadDirectory
      dsimp only
      rw [rdropWhile_key ha h]
      refine if_congr Iff.rfl rfl ?_
      exact downloadObjects_eq (fun obj hobj => (mem_listResults.mp hobj).1) e
    split
    next hnil =>
      cases hmk : d.mkdirs p with
      | some e =>
        show downloadDirectory storage p (t.key p) e = none
        rw [hlist, if_pos hnil]
      | none => rfl
    next hne =>
      show (d.mkdirs p).bind _ = (d.mkdirs p).bind _
      refine congrArg _ (funext fun e => ?_)
      rw [hlist, if_neg hne]

/-- The controller is done if there is something to fetch for each path and nothing is in the
way. -/
theorem materialize_eq_some (ha : t.Anchored) {storage : Store C} {ps : List PosixPath}
    (hps : ∀ p ∈ ps, p ∈ t.paths) {seen : List PosixPath} {d d' : Disk C} :
    materialize t.rootMarker storage ps seen d = some d' ↔
      (∀ p ∈ unseen seen ps, ∃ ops, t.fetchOps storage p = some ops) ∧
        d.perform (t.allOps storage (unseen seen ps)) = some d' := by
  induction ps generalizing seen d with
  | nil => exact ⟨fun h => ⟨fun _ hp => (nomatch hp), h⟩, fun h => h.2⟩
  | cons p ps ih =>
    have habove : Above t.outdir p := t.below p (hps p List.mem_cons_self)
    have hkey : localPathToStorageKey t.rootMarker p ≠ [] := key_ne_nil ha habove
    have hrest := @ih fun q hq => hps q (List.mem_cons_of_mem _ hq)
    rw [materialize, unseen]
    by_cases hseen : p ∈ seen
    · rw [if_pos (.inr hseen), if_pos hseen]
      exact hrest
    · rw [if_neg (not_or.mpr ⟨hkey, hseen⟩), if_neg hseen]
      have hstep : (if p.suffix ≠ [] then do
            let d ← d.mkdirs p.parent
            let d ← downloadFile storage (localPathToStorageKey t.rootMarker p) p d
            materialize t.rootMarker storage ps (p :: seen) d
          else do
            let d ← d.mkdirs p
            let d ← downloadDirectory storage p (localPathToStorageKey t.rootMarker p) d
            materialize t.rootMarker storage ps (p :: seen) d) =
          ((t.fetchOps storage p).bind d.perform).bind
            (materialize t.rootMarker storage ps (p :: seen)) := by
        rw [← fetch_eq ha habove]
        split
        next => exact (Option.bind_assoc _ _ _).symm
        next => exact (Option.bind_assoc _ _ _).symm
      rw [hstep]
      unfold allOps
      rw [List.flatMap_cons, Disk.perform_append]
      cases hops : t.fetchOps storage p with
      | none =>
        constructor
        · exact fun h => (nomatch h)
        · rintro ⟨hall, _⟩
          obtain ⟨ops, hsome⟩ := hall p List.mem_cons_self
          exact nomatch hops.symm.trans hsome
      | some ops =>
        show (d.perform ops).bind _ = some d' ↔ _ ∧ (d.perform ops).bind _ = some d'
        cases hperform : d.perform ops with
        | none => exact ⟨fun h => (nomatch h), fun h => (nomatch h.2)⟩
        | some e =>
          show materialize _ _ _ _ e = some d' ↔ _ ∧ e.perform _ = some d'
          rw [hrest]
          refine and_congr_left' ⟨fun h q hq => ?_, fun h q hq => h q (List.mem_cons_of_mem _ hq)⟩
          rcases List.mem_cons.mp hq with rfl | hq
          · exact ⟨ops, hops⟩
          · exact h q hq

theorem received_eq_some (ha : t.Anchored) {d : Disk C} :
    t.received empty = some d ↔
      (∀ p ∈ t.paths, ∃ ops, t.fetchOps (t.uploaded empty) p = some ops) ∧
        t.controller.perform (t.allOps (t.uploaded empty) t.order) = some d := by
  refine (materialize_eq_some ha fun _ hp => hp).trans (and_congr_left' ?_)
  exact ⟨fun h p hp => h p (mem_order.mpr hp), fun h p hp => h p (mem_order.mp hp)⟩

/-! ## The operations, path by path -/

theorem relativeTo_ne_nil {p q : PosixPath} (h : Above p q) : relativeTo q p ≠ [] := by
  intro hnil
  have hnames : q.names.drop p.names.length = [] :=
    PosixPath.joined_inj (fun s hs => q.isName s (List.mem_of_mem_drop hs))
      (fun _ hs => absurd hs List.not_mem_nil) hnil
  have := List.drop_eq_nil_iff.mp hnames
  have := h.length_lt
  omega

theorem drop_past_slash (a text : List Char) : (a ++ '/' :: text).drop (a.length + 1) = text := by
  rw [List.append_cons]
  exact List.drop_left' List.length_append

/-- A directory's download fetches what is stored for the paths in it, and nothing else. -/
theorem mem_objectOps (ha : t.Anchored) {p : PosixPath} (hp : p ∈ t.paths) {op : Disk.Op C} :
    op ∈ (listResults (t.uploaded empty) (t.key p)).flatMap
        (objectOps (t.uploaded empty) p (t.key p)) ↔
      ∃ q content, t.IsTarget q ∧ Above p q ∧
        (t.uploaded empty).get? (t.key q) = some content ∧
          (op = .dir q.parent ∨ op = .file q content) := by
  have hbelow : Above t.outdir p := t.below p hp
  rw [List.mem_flatMap]
  constructor
  · rintro ⟨obj, hobj, hop⟩
    obtain ⟨hkeys, _⟩ := mem_listResults.mp hobj
    unfold objectOps at hop
    split at hop
    next => cases hop
    next hkept =>
      obtain ⟨_, hkept⟩ := not_or.mp hkept
      obtain ⟨hstart, _⟩ := not_or.mp hkept
      obtain ⟨text, htext⟩ := not_not.mp hstart
      rcases (mem_keys_uploaded empty ha).mp hkeys with hold | ⟨q, hq, hkey⟩
      · exact absurd ⟨text, htext⟩ (t.fresh obj hold p hp).2
      · have hsplit : t.key q = t.key p ++ '/' :: text := by
          rw [← hkey, ← htext, List.append_assoc]
          rfl
        obtain ⟨habove, hdiv⟩ := of_key_eq ha hbelow hq.below hsplit
        rw [hkey, hsplit, drop_past_slash, hdiv, ← hsplit] at hop
        split at hop
        next content hcontent =>
          refine ⟨q, content, hq, habove, hcontent, ?_⟩
          rcases List.mem_cons.mp hop with hop | hop
          · exact .inl hop
          · exact .inr (List.mem_singleton.mp hop)
        next => cases hop
  · rintro ⟨q, content, hq, habove, hcontent, hop⟩
    have hsplit := key_below ha hbelow habove
    have hstart : t.key p ++ ['/'] <+: t.key q := by
      rw [hsplit]
      exact ⟨relativeTo q p, List.append_assoc _ _ _⟩
    refine ⟨t.key q, mem_listResults.mpr ⟨Dict.mem_keys_of_get? hcontent, ?_⟩, ?_⟩
    · exact (List.prefix_append _ _).trans hstart
    · have hdrop : (t.key q).drop ((t.key p).length + 1) = relativeTo q p := by
        rw [hsplit, drop_past_slash]
      have hne : t.key q ≠ t.key p := by
        intro heq
        have := congrArg List.length (hsplit.symm.trans heq)
        rw [List.length_append, List.length_cons] at this
        omega
      unfold objectOps
      rw [hdrop, if_neg (not_or.mpr ⟨hne, not_or.mpr ⟨not_not.mpr hstart,
        relativeTo_ne_nil habove⟩⟩), hcontent, (of_key_eq ha hbelow hq.below hsplit).2]
      rcases hop with rfl | rfl
      · exact List.mem_cons_self
      · exact List.mem_cons_of_mem _ List.mem_cons_self

theorem suffix_markerOf (p : PosixPath) : (markerOf p).suffix = [] := by
  have hname : (markerOf p).name = completeMarker := by
    show (p.names ++ [completeMarker]).getLast?.getD [] = _
    rw [List.getLast?_append]
    rfl
  unfold PosixPath.suffix
  rw [hname]
  decide +kernel

theorem markerOf_inj {p q : PosixPath} (h : markerOf p = markerOf q) : p = q := by
  obtain ⟨hroot, hnames⟩ := PosixPath.ext_iff_fields.mp h
  exact PosixPath.ext_iff_fields.mpr ⟨hroot, List.append_cancel_right hnames⟩

/-- What is above a marker is the marker's directory or above that. -/
theorem above_markerOf_iff {p q : PosixPath} : Above q (markerOf p) ↔ q = p ∨ Above q p := by
  constructor
  · intro h
    rcases h.comparable (above_markerOf p) with heq | habove | habove
    · exact .inl heq
    · exact .inr habove
    · have h1 := habove.length_lt
      have h2 := h.length_lt
      have hlen : (markerOf p).names.length = p.names.length + 1 := List.length_append
      omega
  · rintro (rfl | h)
    · exact above_markerOf q
    · exact h.trans (above_markerOf p)

theorem fetchOps_of_suffix {storage : Store C} {p : PosixPath} (h : p.suffix ≠ [])
    {ops : List (Disk.Op C)} (hops : t.fetchOps storage p = some ops) :
    ∃ content, storage.get? (t.key p) = some content ∧
      ops = [.dir p.parent, .file p content] := by
  unfold fetchOps at hops
  rw [if_pos h] at hops
  obtain ⟨content, hcontent, heq⟩ := Option.map_eq_some_iff.mp hops
  exact ⟨content, hcontent, heq.symm⟩

theorem fetchOps_of_no_suffix {storage : Store C} {p : PosixPath} (h : p.suffix = [])
    {ops : List (Disk.Op C)} (hops : t.fetchOps storage p = some ops) :
    ops = .dir p :: (listResults storage (t.key p)).flatMap
      (objectOps storage p (t.key p)) := by
  unfold fetchOps at hops
  rw [if_neg (not_not.mpr h)] at hops
  split at hops
  next => exact nomatch hops
  next => exact (Option.some.inj hops).symm

theorem mem_allOps {storage : Store C} {p : PosixPath} (hp : p ∈ t.paths)
    {ops : List (Disk.Op C)} (hops : t.fetchOps storage p = some ops) {op : Disk.Op C}
    (hop : op ∈ ops) : op ∈ t.allOps storage t.order := by
  refine List.mem_flatMap.mpr ⟨p, mem_order.mpr hp, ?_⟩
  rw [hops]
  exact hop

/-- What is written under a path is what is stored for it. -/
theorem stored_of_mem_allOps (ha : t.Anchored)
    (hall : ∀ p ∈ t.paths, ∃ ops, t.fetchOps (t.uploaded empty) p = some ops)
    {q : PosixPath} {content : C}
    (h : Disk.Op.file q content ∈ t.allOps (t.uploaded empty) t.order) :
    (t.uploaded empty).get? (t.key q) = some content := by
  obtain ⟨p, hp, hop⟩ := List.mem_flatMap.mp h
  have hp' := mem_order.mp hp
  obtain ⟨ops, hops⟩ := hall p hp'
  rw [hops] at hop
  replace hop : Disk.Op.file q content ∈ ops := hop
  by_cases hsuffix : p.suffix = []
  · rw [fetchOps_of_no_suffix hsuffix hops] at hop
    rcases List.mem_cons.mp hop with heq | hop
    · exact nomatch heq
    · obtain ⟨q', content', _, _, hcontent, heq | heq⟩ := (mem_objectOps empty ha hp').mp hop
      · exact nomatch heq
      · injection heq with hq hc
        rw [hq, hc]
        exact hcontent
  · obtain ⟨content', hcontent, rfl⟩ := fetchOps_of_suffix hsuffix hops
    rcases List.mem_cons.mp hop with heq | hop
    · exact nomatch heq
    · injection List.mem_singleton.mp hop with hq hc
      rw [hq, hc]
      exact hcontent

/-! ## What a delivery needs -/

theorem suffixed_of_delivered (ha : t.Anchored) (h : t.Delivered empty) : t.Suffixed := by
  obtain ⟨d, hd, hfiles⟩ := h
  obtain ⟨hall, hperform⟩ := (received_eq_some empty ha).mp hd
  intro p hp
  obtain ⟨ops, hops⟩ := hall p hp
  constructor
  · intro hsuffix
    refine (t.exist p hp).resolve_right fun hdir => ?_
    -- nothing is stored under the key of a directory
    obtain ⟨content, hcontent, _⟩ := fetchOps_of_suffix hsuffix hops
    rcases (mem_keys_uploaded empty ha).mp (Dict.mem_keys_of_get? hcontent) with hold | ⟨q, hq, hkey⟩
    · exact (t.fresh _ hold p hp).1 rfl
    · obtain rfl := keysDistinct_of_anchored ha p q (t.below p hp) hq.below hkey
      rcases hq with ⟨hfile, _⟩ | ⟨p', _, _, heq⟩
      · exact Disk.notMem_dirs_of_mem_files hfile hdir
      · exact hsuffix (heq ▸ suffix_markerOf p')
  · intro hfile hsuffix
    -- the file's path is made a directory
    have hdir : p ∈ d.dirs := by
      refine Disk.mem_dirs_of_perform hperform (mem_allOps hp hops ?_)
      rw [fetchOps_of_no_suffix hsuffix hops]
      exact List.mem_cons_self
    obtain ⟨content, hcontent⟩ := get?_of_mem_keys hfile
    have hgot := hfiles p ⟨hfile, .inl hp⟩
    rw [d.disjoint p hdir, hcontent] at hgot
    exact nomatch hgot

theorem suffix_eq_nil (hs : t.Suffixed) {p : PosixPath} (hp : p ∈ t.paths)
    (hdir : p ∈ t.worker.dirs) : p.suffix = [] := by
  by_contra hsuffix
  exact Disk.notMem_dirs_of_mem_files ((hs p hp).mp hsuffix) hdir

theorem get?_uploaded_of_target (ha : t.Anchored) {q : PosixPath} (hq : t.IsTarget q) :
    ∃ content, Dict.lastOf q (t.writes empty) = some content ∧
      (t.uploaded empty).get? (t.key q) = some content := by
  obtain ⟨content, hlast⟩ := lastOf_isSome empty hq
  refine ⟨content, hlast, ?_⟩
  rw [get?_uploaded empty ha hq.below, hlast]
  rfl

/-- A directory's operations: itself, and each target in it. -/
theorem ops_of_dir (ha : t.Anchored) (hs : t.Suffixed) {p : PosixPath} (hp : p ∈ t.paths)
    (hdir : p ∈ t.worker.dirs) {ops : List (Disk.Op C)}
    (hops : t.fetchOps (t.uploaded empty) p = some ops) :
    Disk.Op.dir p ∈ ops ∧ ∀ q, t.IsTarget q → Above p q →
      ∃ content, Disk.Op.file q content ∈ ops := by
  rw [fetchOps_of_no_suffix (suffix_eq_nil hs hp hdir) hops]
  refine ⟨List.mem_cons_self, fun q hq habove => ?_⟩
  obtain ⟨content, _, hcontent⟩ := get?_uploaded_of_target empty ha hq
  refine ⟨content, List.mem_cons_of_mem _ ((mem_objectOps empty ha hp).mpr ?_)⟩
  exact ⟨q, content, hq, habove, hcontent, .inr rfl⟩

theorem markerFree_of_delivered (ha : t.Anchored) (hs : t.Suffixed) (h : t.Delivered empty) :
    t.MarkerFree empty := by
  obtain ⟨d, hd, hfiles⟩ := h
  obtain ⟨hall, hperform⟩ := (received_eq_some empty ha).mp hd
  intro p hp hdir
  have htarget : t.IsTarget (markerOf p) := .inr ⟨p, hp, hdir, rfl⟩
  obtain ⟨ops, hops⟩ := hall p hp
  -- the marker is a file on the controller's disk
  have hmarker : markerOf p ∈ d.files.keys := by
    obtain ⟨content, hop⟩ := (ops_of_dir empty ha hs hp hdir hops).2 _ htarget (above_markerOf p)
    exact Disk.mem_files_of_perform hperform (mem_allOps hp hops hop)
  refine ⟨?_, ?_, ?_⟩
  · intro f hf habove
    obtain ⟨content, hcontent⟩ := get?_of_mem_keys hf.1
    have hgot := (hfiles f hf).trans hcontent
    exact (Disk.not_above_of_mem_files hmarker habove).1 (Dict.mem_keys_of_get? hgot)
  · intro q hq hqdir
    obtain ⟨ops', hops'⟩ := hall q hq
    have hmade : q ∈ d.dirs := Disk.mem_dirs_of_perform hperform
      (mem_allOps hq hops' (ops_of_dir empty ha hs hq hqdir hops').1)
    refine ⟨?_, fun habove => (Disk.not_above_of_mem_files hmarker habove).2 hmade⟩
    rintro rfl
    exact Disk.notMem_dirs_of_mem_files hmarker hmade
  · intro content hcontent
    have hlast : Dict.lastOf (markerOf p) (t.writes empty) = some content := by
      obtain ⟨last, hlast, hstored⟩ := get?_uploaded_of_target empty ha htarget
      obtain ⟨v, hop⟩ := (ops_of_dir empty ha hs hp hdir hops).2 _ htarget (above_markerOf p)
      have hgot := Disk.get?_perform (f := fun q => ((t.uploaded empty).get? (t.key q)).getD empty)
        hperform (fun q v hop => by rw [stored_of_mem_allOps empty ha hall hop]; rfl)
        (.inr ⟨v, mem_allOps hp hops hop⟩)
      rw [hfiles _ ⟨Dict.mem_keys_of_get? hcontent, .inr ⟨p, hp, hdir, above_markerOf p⟩⟩,
        hcontent, hstored] at hgot
      rw [hlast]
      exact hgot.symm
    -- who writes last is the directory itself or one that comes later
    obtain ⟨pre, post, horder⟩ := List.append_of_mem (mem_order.mpr hp)
    have hnodup : (pre ++ p :: post).Nodup := horder ▸ nodup_unseen [] t.paths
    have hnotin : p ∉ post := (List.nodup_cons.mp (List.nodup_append.mp hnodup).2.1).1
    have hfile : t.worker.files.get? p = none := t.worker.disjoint p hdir
    have hown : t.writesOf empty p = filesBelow t.worker p ++ [(markerOf p, empty)] := by
      unfold writesOf
      rw [hfile]
      exact if_pos (decide_eq_true hdir)
    unfold writes at hlast
    rw [horder, List.flatMap_append, List.flatMap_cons, hown, Dict.lastOf_append,
      Dict.lastOf_append, Dict.lastOf_append] at hlast
    cases hpost : Dict.lastOf (markerOf p) (post.flatMap (t.writesOf empty)) with
    | none =>
      left
      rw [hpost, Dict.lastOf, if_pos rfl] at hlast
      exact (Option.some.inj hlast).symm
    | some last =>
      right
      obtain ⟨q, hq, hw⟩ := List.mem_flatMap.mp (Dict.mem_of_lastOf hpost)
      have hqorder : q ∈ t.order := by
        rw [horder]
        exact List.mem_append_right _ (List.mem_cons_of_mem _ hq)
      have hqpaths := mem_order.mp hqorder
      rcases (mem_writesOf empty).mp hw with ⟨hitem, heq | ⟨hqdir, habove⟩⟩ | ⟨_, heq⟩
      · have hkeys : q ∈ t.worker.files.keys := heq ▸ Dict.mem_keys_of_get? hitem
        exact absurd (heq ▸ suffix_markerOf p) ((hs q hqpaths).mpr hkeys)
      · have hne : q ≠ p := fun heq => hnotin (heq ▸ hq)
        refine ⟨q, hqpaths, hqdir, (above_markerOf_iff.mp habove).resolve_left hne, ?_⟩
        have hsub : [p, q].Sublist (p :: post) := (List.singleton_sublist.mpr hq).cons_cons p
        have hsub' : [p, q].Sublist t.order := by
          rw [horder]
          exact hsub.trans (List.sublist_append_right pre _)
        exact hsub'
      · exact absurd (markerOf_inj (congrArg Prod.fst heq) ▸ hq) hnotin

/-! ## And what is enough for it -/

/-- The last upload of a result's file is of its content. -/
theorem lastOf_resultFile (hm : t.MarkerFree empty) {f : PosixPath} {content : C}
    (hf : IsResultFile t.worker t.paths f) (hc : t.worker.files.get? f = some content) :
    Dict.lastOf f (t.writes empty) = some content := by
  -- an upload under the file's path is of the file, or it is a marker
  have hvalues : ∀ (ps : List PosixPath) (v : C), (f, v) ∈ ps.flatMap (t.writesOf empty) →
      v = content ∨ ∃ p ∈ ps, p ∈ t.worker.dirs ∧ f = markerOf p ∧ v = empty := by
    intro ps v hv
    obtain ⟨p, hp, hw⟩ := List.mem_flatMap.mp hv
    rcases (mem_writesOf empty).mp hw with ⟨hitem, _⟩ | ⟨hdir, heq⟩
    · exact .inl (Option.some.inj (hitem.symm.trans hc))
    · exact .inr ⟨p, hp, hdir, congrArg Prod.fst heq, congrArg Prod.snd heq⟩
  have hmem : (f, content) ∈ t.writes empty := by
    rcases hf.2 with hp | ⟨p, hp, hdir, habove⟩
    · exact List.mem_flatMap.mpr ⟨f, mem_order.mpr hp,
        (mem_writesOf empty).mpr (.inl ⟨hc, .inl rfl⟩)⟩
    · exact List.mem_flatMap.mpr ⟨p, mem_order.mpr hp,
        (mem_writesOf empty).mpr (.inl ⟨hc, .inr ⟨hdir, habove⟩⟩)⟩
  by_cases hmarker : ∃ p ∈ t.paths, p ∈ t.worker.dirs ∧ f = markerOf p
  · obtain ⟨p, hp, hdir, rfl⟩ := hmarker
    rcases (hm p hp hdir).2.2 content hc with rfl | ⟨q, hq, hqdir, habove, hlater⟩
    · refine Dict.lastOf_eq_some hmem fun v hv => ?_
      rcases hvalues _ v hv with heq | ⟨_, _, _, _, heq⟩
      · exact heq
      · exact heq
    · -- from the later directory on, nobody writes the marker
      obtain ⟨before, behind, horder, hpbefore, hqbehind⟩ := List.cons_sublist_iff.mp hlater
      have hnodup : (before ++ behind).Nodup := horder ▸ nodup_unseen [] t.paths
      have hdisjoint := (List.nodup_append.mp hnodup).2.2
      have hlast : Dict.lastOf (markerOf p) (behind.flatMap (t.writesOf empty)) =
          some content := by
        refine Dict.lastOf_eq_some ?_ fun v hv => ?_
        · refine List.mem_flatMap.mpr ⟨q, List.singleton_sublist.mp hqbehind, ?_⟩
          exact (mem_writesOf empty).mpr
            (.inl ⟨hc, .inr ⟨hqdir, habove.trans (above_markerOf p)⟩⟩)
        · rcases hvalues _ v hv with heq | ⟨p', hp', _, heq, _⟩
          · exact heq
          · obtain rfl := markerOf_inj heq
            exact absurd rfl (hdisjoint p hpbefore p hp')
      have hsplit : t.writes empty = before.flatMap (t.writesOf empty) ++
          behind.flatMap (t.writesOf empty) := by
        unfold writes order
        rw [horder, List.flatMap_append]
      rw [hsplit, Dict.lastOf_append, hlast]
      rfl
  · refine Dict.lastOf_eq_some hmem fun v hv => ?_
    rcases hvalues _ v hv with heq | ⟨p, hp, hdir, heq, _⟩
    · exact heq
    · exact absurd ⟨p, mem_order.mp hp, hdir, heq⟩ hmarker

theorem fetchOps_isSome (ha : t.Anchored) (hs : t.Suffixed) {p : PosixPath} (hp : p ∈ t.paths) :
    ∃ ops, t.fetchOps (t.uploaded empty) p = some ops := by
  unfold fetchOps
  split
  next hsuffix =>
    have htarget : t.IsTarget p := .inl ⟨(hs p hp).mp hsuffix, .inl hp⟩
    obtain ⟨content, _, hcontent⟩ := get?_uploaded_of_target empty ha htarget
    rw [hcontent]
    exact ⟨_, rfl⟩
  next hsuffix =>
    have hdir : p ∈ t.worker.dirs :=
      (t.exist p hp).resolve_left fun hfile => hsuffix ((hs p hp).mpr hfile)
    have htarget : t.IsTarget (markerOf p) := .inr ⟨p, hp, hdir, rfl⟩
    obtain ⟨content, _, hcontent⟩ := get?_uploaded_of_target empty ha htarget
    have hlisted : t.key (markerOf p) ∈ listResults (t.uploaded empty) (t.key p) := by
      refine mem_listResults.mpr ⟨Dict.mem_keys_of_get? hcontent, ?_⟩
      rw [key_below ha (t.below p hp) (above_markerOf p)]
      exact List.prefix_append _ _
    rw [if_neg (List.ne_nil_of_mem hlisted)]
    exact ⟨_, rfl⟩

/-- Each operation makes a directory of the result, or a target or the directory it is in. -/
theorem mem_allOps_cases (ha : t.Anchored) (hs : t.Suffixed) {op : Disk.Op C}
    (h : op ∈ t.allOps (t.uploaded empty) t.order) :
    (∃ p ∈ t.paths, p ∈ t.worker.dirs ∧ op = .dir p) ∨
      ∃ q, t.IsTarget q ∧ (op = .dir q.parent ∨ ∃ content, op = .file q content) := by
  obtain ⟨p, hporder, hop⟩ := List.mem_flatMap.mp h
  have hp := mem_order.mp hporder
  obtain ⟨ops, hops⟩ := fetchOps_isSome empty ha hs hp
  rw [hops] at hop
  replace hop : op ∈ ops := hop
  by_cases hsuffix : p.suffix = []
  · have hdir : p ∈ t.worker.dirs :=
      (t.exist p hp).resolve_left fun hfile => (hs p hp).mpr hfile hsuffix
    rw [fetchOps_of_no_suffix hsuffix hops] at hop
    rcases List.mem_cons.mp hop with rfl | hop
    · exact .inl ⟨p, hp, hdir, rfl⟩
    · obtain ⟨q, content, hq, _, _, heq⟩ := (mem_objectOps empty ha hp).mp hop
      exact .inr ⟨q, hq, heq.imp id fun h => ⟨content, h⟩⟩
  · obtain ⟨content, _, rfl⟩ := fetchOps_of_suffix hsuffix hops
    refine .inr ⟨p, .inl ⟨(hs p hp).mp hsuffix, .inl hp⟩, ?_⟩
    rcases List.mem_cons.mp hop with heq | hop
    · exact .inl heq
    · exact .inr ⟨content, List.mem_singleton.mp hop⟩

/-- No target is above another, and none is a directory of the result or above one. -/
theorem targets_apart (hm : t.MarkerFree empty) {q : PosixPath} (hq : t.IsTarget q) :
    (∀ q', t.IsTarget q' → ¬ Above q q') ∧
      ∀ p ∈ t.paths, p ∈ t.worker.dirs → q ≠ p ∧ ¬ Above q p := by
  rcases hq with hf | ⟨p, hp, hdir, rfl⟩
  · constructor
    · rintro q' (hf' | ⟨p', hp', hdir', rfl⟩) habove
      · exact (Disk.not_above_of_mem_files hf.1 habove).1 hf'.1
      · rcases above_markerOf_iff.mp habove with rfl | habove
        · exact Disk.notMem_dirs_of_mem_files hf.1 hdir'
        · exact (Disk.not_above_of_mem_files hf.1 habove).2 hdir'
    · intro p hp hdir
      refine ⟨?_, fun habove => (Disk.not_above_of_mem_files hf.1 habove).2 hdir⟩
      rintro rfl
      exact Disk.notMem_dirs_of_mem_files hf.1 hdir
  · obtain ⟨hfiles, hdirs, _⟩ := hm p hp hdir
    constructor
    · rintro q' (hf' | ⟨p', hp', hdir', rfl⟩) habove
      · exact hfiles q' hf' habove
      · rcases above_markerOf_iff.mp habove with heq | habove
        · exact (hdirs p' hp' hdir').1 heq.symm
        · exact (hdirs p' hp' hdir').2 habove
    · intro p' hp' hdir'
      exact ⟨fun heq => (hdirs p' hp' hdir').1 heq.symm, (hdirs p' hp' hdir').2⟩

theorem names_ne_nil {q : PosixPath} (hq : t.IsTarget q) : q.names ≠ [] := by
  intro hnil
  have := hq.below.length_lt
  rw [hnil] at this
  exact Nat.not_lt_zero _ this

theorem fits (ha : t.Anchored) (hs : t.Suffixed) (hm : t.MarkerFree empty) :
    t.controller.Fits (t.allOps (t.uploaded empty) t.order) := by
  have htarget : ∀ q content,
      Disk.Op.file q content ∈ t.allOps (t.uploaded empty) t.order → t.IsTarget q := by
    intro q content hop
    rcases mem_allOps_cases empty ha hs hop with ⟨p, _, _, heq⟩ | ⟨q', hq', heq | ⟨_, heq⟩⟩
    · exact nomatch heq
    · exact nomatch heq
    · injection heq with hqq
      rw [hqq]
      exact hq'
  -- a path above none of the targets and directories is above none of the operations' paths
  have habove : ∀ r, (∀ q, t.IsTarget q → ¬ Above r q) →
      (∀ p ∈ t.paths, p ∈ t.worker.dirs → ¬ Above r p) →
      ∀ op ∈ t.allOps (t.uploaded empty) t.order, ¬ Above r op.path := by
    intro r htargets hdirs op hop hr
    rcases mem_allOps_cases empty ha hs hop with ⟨p, hp, hdir, rfl⟩ | ⟨q, hq, rfl | ⟨_, rfl⟩⟩
    · exact hdirs p hp hdir hr
    · exact htargets q hq (Disk.above_of_parent (names_ne_nil hq) (.inr hr))
    · exact htargets q hq hr
  have hdirOp : ∀ r, (∀ q, t.IsTarget q → ¬ Above r q) →
      (∀ p ∈ t.paths, p ∈ t.worker.dirs → r ≠ p) →
      Disk.Op.dir r ∉ t.allOps (t.uploaded empty) t.order := by
    intro r htargets hdirs hop
    rcases mem_allOps_cases empty ha hs hop with ⟨p, hp, hdir, heq⟩ | ⟨q, hq, heq | ⟨_, heq⟩⟩
    · injection heq with hrp
      exact hdirs p hp hdir hrp
    · injection heq with hrq
      exact htargets q hq (Disk.above_of_parent (names_ne_nil hq) (.inl hrq))
    · exact nomatch heq
  -- what the controller has is not in the way
  have hold : ∀ r ∈ t.controller.files.keys, ∀ q, t.IsTarget q → ¬ Above r q := by
    rintro r hr q (hf | ⟨p, hp, hdir, rfl⟩) hrq
    · exact (t.free_files r hr).2 q hf hrq
    · rcases above_markerOf_iff.mp hrq with heq | hrp
      · exact ((t.free_files r hr).1 p hp).2 hdir heq
      · exact ((t.free_files r hr).1 p hp).1 hrp
  refine ⟨?_, ?_, ?_, ?_, ?_, ?_⟩
  · exact fun q v hop => names_ne_nil (htarget q v hop)
  · intro q v hop
    obtain ⟨hq, hdirs⟩ := targets_apart empty hm (htarget q v hop)
    exact habove q hq fun p hp hdir => (hdirs p hp hdir).2
  · intro q v hop
    obtain ⟨hq, hdirs⟩ := targets_apart empty hm (htarget q v hop)
    exact hdirOp q hq fun p hp hdir => (hdirs p hp hdir).1
  · exact fun r hr => habove r (hold r hr) fun p hp _ => ((t.free_files r hr).1 p hp).1
  · exact fun r hr => hdirOp r (hold r hr) fun p hp hdir => ((t.free_files r hr).1 p hp).2 hdir
  · intro q v hop hdir
    obtain ⟨hfree, hmarkers⟩ := t.free_dirs q hdir
    rcases htarget q v hop with hf | ⟨p, hp, hpdir, heq⟩
    · exact hfree hf
    · exact hmarkers p hp hpdir heq

theorem delivered_of (ha : t.Anchored) (hs : t.Suffixed) (hm : t.MarkerFree empty) :
    t.Delivered empty := by
  have hall := fun p (hp : p ∈ t.paths) => fetchOps_isSome empty ha hs hp
  obtain ⟨d, hd⟩ := Disk.perform_isSome (fits empty ha hs hm)
  refine ⟨d, (received_eq_some empty ha).mpr ⟨hall, hd⟩, fun f hf => ?_⟩
  obtain ⟨content, hcontent⟩ := get?_of_mem_keys hf.1
  -- the file is written by its own path or by a directory above it
  have hop : ∃ v, Disk.Op.file f v ∈ t.allOps (t.uploaded empty) t.order := by
    rcases hf.2 with hp | ⟨p, hp, hdir, habove⟩
    · obtain ⟨ops, hops⟩ := hall f hp
      obtain ⟨v, _, rfl⟩ := fetchOps_of_suffix ((hs f hp).mpr hf.1) hops
      exact ⟨v, mem_allOps hp hops (List.mem_cons_of_mem _ List.mem_cons_self)⟩
    · obtain ⟨ops, hops⟩ := hall p hp
      obtain ⟨v, hv⟩ := (ops_of_dir empty ha hs hp hdir hops).2 f (.inl hf) habove
      exact ⟨v, mem_allOps hp hops hv⟩
  have hstored : (t.uploaded empty).get? (t.key f) = some content := by
    have htarget : t.IsTarget f := .inl hf
    rw [get?_uploaded empty ha htarget.below, lastOf_resultFile empty hm hf hcontent]
    rfl
  have hgot := Disk.get?_perform (f := fun q => ((t.uploaded empty).get? (t.key q)).getD empty) hd
    (fun q v hop => by rw [stored_of_mem_allOps empty ha hall hop]; rfl) (.inr hop)
  rw [hgot, hstored, hcontent]
  rfl

/-- Exactly when the keys of a campaign are distinct and a result of it is delivered. -/
theorem delivers_iff_suffixed (t : Transfer F C) (empty : C) :
    t.KeysDistinct ∧ t.Delivered empty ↔ t.Anchored ∧ t.Suffixed ∧ t.MarkerFree empty := by
  constructor
  · rintro ⟨hkeys, hdelivered⟩
    have ha := keysDistinct_iff.mp hkeys
    have hs := suffixed_of_delivered empty ha hdelivered
    exact ⟨ha, hs, markerFree_of_delivered empty ha hs hdelivered⟩
  · rintro ⟨ha, hs, hm⟩
    exact ⟨keysDistinct_iff.mpr ha, delivered_of empty ha hs hm⟩

/-! ## Two results -/

/-- A worker's disk with these files. -/
def diskOf (files : List (String × Nat)) : Disk Nat :=
  ((∅ : Disk Nat).perform
    (files.map fun file => .file (PosixPath.parse file.1.toList) file.2)).getD ∅

/-- A file without a suffix. -/
def noSuffix : Transfer Nat Nat where
  outdir := PosixPath.parse "/c/out".toList
  rootMarker := "out".toList
  result := .path (PosixPath.parse "/c/out/work/log".toList)
  worker := diskOf [("/c/out/work/log", 1)]
  stored := ∅
  controller := ∅
  below := by decide +kernel
  exist := by decide +kernel
  fresh := fun _ h => nomatch h
  free_files := fun _ h => nomatch h
  free_dirs := fun _ h => nomatch h

/-- The controller makes a directory of it, and fetches nothing. -/
theorem file_without_suffix_not_delivered :
    ¬ (noSuffix.KeysDistinct ∧ noSuffix.Delivered 0) := by
  rintro ⟨_, d, hd, hfiles⟩
  have hreceived : (noSuffix.received 0).map
      (fun d => d.files.get? (PosixPath.parse "/c/out/work/log".toList)) = some none := by
    decide +kernel
  have hresult : IsResultFile noSuffix.worker noSuffix.paths
      (PosixPath.parse "/c/out/work/log".toList) :=
    ⟨by decide +kernel, .inl (by decide +kernel)⟩
  have hworker : noSuffix.worker.files.get? (PosixPath.parse "/c/out/work/log".toList) =
      some 1 := by
    decide +kernel
  rw [hd] at hreceived
  have hgot := (hfiles _ hresult).trans hworker
  exact nomatch (Option.some.inj hreceived).symm.trans hgot

end Transfer

end OSimFlow.Executors.ResultTransport
