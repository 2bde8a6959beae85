import OSimFlow.Detached.Download
import OSimFlow.Lib.LastSeparator
import OSimFlow.Lib.Strip

/-!
# Image references that are pinned by a digest

`digest_pinned_image_ref` finds a digest in a text of one of three forms: the digest alone, a
reference with it, or the label of an image, a reference and the digest. The repository is that
of the reference; of the label, if there is none.

> `pins_repository`: the repository, with the port of its registry and without tag or digest,
> and the digest.

A label that is pinned itself stands before the digest with a digest of its own, and the first
one is found; the forms here leave that out.
-/

namespace OSimFlow.Cache.ImageRef

open OSimFlow.Lib
open OSimFlow.Detached (isSpace)

abbrev Text := List Char

/-! ## `digest_pinned_image_ref` -/

/-- `[A-Za-z0-9._:/\-]`. -/
def refChar (c : Char) : Bool :=
  c.isAlphanum || c = '.' || c = '_' || c = ':' || c = '/' || c = '-'

/-- `[0-9a-f]`. -/
def isHex (c : Char) : Bool := c.isDigit || (decide ('a' ≤ c) && decide (c ≤ 'f'))

def sha256 : Text := ['s', 'h', 'a', '2', '5', '6', ':']

/-- `sha256:[0-9a-f]{64}\b` here; the last digit is a word character, so that the boundary is
there if none follows. `word` is `\w`. -/
def digestAt (word : Char → Bool) (text : Text) : Option Text :=
  if text.take 7 = sha256 ∧ ((text.drop 7).take 64).length = 64 ∧
      ((text.drop 7).take 64).all isHex = true ∧ ¬ (text.drop 71).head?.any word = true then
    some (text.take 71)
  else none

/-- The whole pattern here: `(?:([A-Za-z0-9._:/\-]+)@)?` and the digest. Only the longest run of
characters of the group can have the `@` behind it; without the group the digest is here. -/
def matchAt (word : Char → Bool) (text : Text) : Option (Option Text × Text) :=
  match text.dropWhile refChar with
  | '@' :: rest =>
    match if text.takeWhile refChar = [] then none else digestAt word rest with
    | some digest => some (some (text.takeWhile refChar), digest)
    | none => (digestAt word text).map fun digest => (none, digest)
  | _ => (digestAt word text).map fun digest => (none, digest)

/-- `re.search`. -/
def search (word : Char → Bool) : Text → Option (Option Text × Text)
  | [] => matchAt word []
  | c :: text =>
    match matchAt word (c :: text) with
    | some found => some found
    | none => search word text

/-- `_strip_tag`. -/
def stripTag (ref : Text) : Text :=
  let parts := rpartition '/' ref
  if parts.2.1 ≠ [] then parts.1 ++ '/' :: beforeLast ':' parts.2.2 else beforeLast ':' ref

/-- `digest_pinned_image_ref`. -/
def digestPinnedImageRef (word : Char → Bool) (label : Text) (containerDigest : Option Text) :
    Option Text :=
  match containerDigest with
  | none | some [] => none
  | some containerDigest =>
    match search word (strip isSpace containerDigest) with
    | none => none
    | some (none, digest) | some (some [], digest) =>
      if label = [] then none
      else some (stripTag (label.takeWhile (· ≠ '@')) ++ '@' :: digest)
    | some (some repo, digest) =>
      if ':' ∈ (rpartition '/' repo).2.2 then some (stripTag repo ++ '@' :: digest)
      else some (repo ++ '@' :: digest)

/-! ## References -/

/-- A reference: `home` is the registry, with its port if any, and the path down to the name. -/
structure Reference where
  home : List Text
  name : Text
  tag : Option Text
  digest : Option Text
  home_ok : ∀ part ∈ home, '/' ∉ part ∧ '@' ∉ part
  name_ok : name ≠ [] ∧ '/' ∉ name ∧ ':' ∉ name ∧ '@' ∉ name
  tag_ok : ∀ t, tag = some t → '/' ∉ t ∧ ':' ∉ t ∧ '@' ∉ t

namespace Reference

/-- The text up to the tag. -/
def repository (r : Reference) : Text := (r.home.flatMap fun part => part ++ ['/']) ++ r.name

/-- `:tag`, `@digest`: nothing if there is none. -/
def behind (c : Char) : Option Text → Text
  | none => []
  | some t => c :: t

def tagged (r : Reference) : Text := r.repository ++ behind ':' r.tag

def text (r : Reference) : Text := r.tagged ++ behind '@' r.digest

end Reference

/-- 64 hexadecimal digits. -/
def Hex64 (hex : Text) : Prop := hex.length = 64 ∧ ∀ c ∈ hex, isHex c = true

def CarriesDigest (text : Text) : Prop := ∃ hex, Hex64 hex ∧ sha256 ++ hex <:+: text

/-- The forms in which a digest comes. -/
inductive DigestForm where
  | bare
  | pinned (ref : Reference)
  | cached (label ref : Reference)

namespace DigestForm

def text (hex : Text) : DigestForm → Text
  | bare => sha256 ++ hex
  | pinned ref => ref.tagged ++ '@' :: (sha256 ++ hex)
  | cached label ref => label.tagged ++ '@' :: (ref.tagged ++ '@' :: (sha256 ++ hex))

/-- The reference is of the characters of the pattern, and what is before it has no digest. -/
def Legible : DigestForm → Prop
  | bare => True
  | pinned ref => ∀ c ∈ ref.tagged, refChar c = true
  | cached label ref => (∀ c ∈ ref.tagged, refChar c = true) ∧
      ¬ CarriesDigest label.tagged ∧ ¬ CarriesDigest ref.tagged

/-- The reference that gives the repository. -/
def source (label : Reference) : DigestForm → Reference
  | bare => label
  | pinned ref => ref
  | cached _ ref => ref

end DigestForm

/-- No tag is left: the last part has no colon. -/
def Untagged (repository : Text) : Prop := ':' ∉ (rpartition '/' repository).2.2

/-! ## Tags -/

section

variable (r : Reference)

/-- The home ends in a slash, if there is one. -/
theorem home_cases : (r.home = [] ∧ r.repository = r.name) ∨
    ∃ front, r.repository = front ++ '/' :: r.name := by
  rw [Reference.repository]
  rcases List.eq_nil_or_concat r.home with hnil | ⟨init, last, hlast⟩
  · refine Or.inl ⟨hnil, ?_⟩
    rw [hnil]
    rfl
  · refine Or.inr ⟨(init.flatMap fun part => part ++ ['/']) ++ last, ?_⟩
    rw [hlast, List.concat_eq_append, List.flatMap_append]
    simp

theorem slash_notMem_end : '/' ∉ r.name ++ Reference.behind ':' r.tag := by
  rw [List.mem_append, not_or]
  refine ⟨r.name_ok.2.1, ?_⟩
  cases htag : r.tag with
  | none => exact List.not_mem_nil
  | some t =>
    intro hmem
    rcases List.mem_cons.mp hmem with h | h
    · exact absurd h (by decide)
    · exact (r.tag_ok t htag).1 h

theorem beforeLast_tag : beforeLast ':' (r.name ++ Reference.behind ':' r.tag) = r.name := by
  cases htag : r.tag with
  | none =>
    rw [Reference.behind, List.append_nil]
    exact beforeLast_of_notMem r.name_ok.2.2.1
  | some t => exact beforeLast_append r.name (r.tag_ok t htag).2.1

theorem rpartition_tagged_nil (hhome : r.repository = r.name) :
    rpartition '/' r.tagged = ([], [], r.name ++ Reference.behind ':' r.tag) := by
  rw [Reference.tagged, hhome]
  exact rpartition_of_notMem (slash_notMem_end r)

theorem rpartition_tagged {front : Text} (hfront : r.repository = front ++ '/' :: r.name) :
    rpartition '/' r.tagged = (front, ['/'], r.name ++ Reference.behind ':' r.tag) := by
  have hsplit : r.tagged = front ++ '/' :: (r.name ++ Reference.behind ':' r.tag) := by
    rw [Reference.tagged, hfront]
    simp
  rw [hsplit]
  exact rpartition_append front (slash_notMem_end r)

/-- The port of the registry is before a slash, the tag is not. -/
theorem stripTag_tagged : stripTag r.tagged = r.repository := by
  rcases home_cases r with ⟨-, hname⟩ | ⟨front, hfront⟩
  · rw [stripTag, rpartition_tagged_nil r hname]
    show beforeLast ':' r.tagged = _
    rw [Reference.tagged, hname]
    exact beforeLast_tag r
  · rw [stripTag, rpartition_tagged r hfront]
    show front ++ '/' :: beforeLast ':' (r.name ++ Reference.behind ':' r.tag) = _
    rw [beforeLast_tag, hfront]

theorem untagged_repository : Untagged r.repository := by
  rw [Untagged]
  rcases home_cases r with ⟨-, hname⟩ | ⟨front, hfront⟩
  · rw [hname, rpartition_of_notMem r.name_ok.2.1]
    exact r.name_ok.2.2.1
  · rw [hfront, rpartition_append front r.name_ok.2.1]
    exact r.name_ok.2.2.1

/-- A reference without a colon in its last part has no tag. -/
theorem tagged_of_untagged (h : ':' ∉ (rpartition '/' r.tagged).2.2) :
    r.tagged = r.repository := by
  have hend : (rpartition '/' r.tagged).2.2 = r.name ++ Reference.behind ':' r.tag := by
    rcases home_cases r with ⟨-, hname⟩ | ⟨front, hfront⟩
    · rw [rpartition_tagged_nil r hname]
    · rw [rpartition_tagged r hfront]
  rw [hend, List.mem_append, not_or] at h
  rw [Reference.tagged]
  cases htag : r.tag with
  | none => exact List.append_nil _
  | some t =>
    rw [htag] at h
    exact absurd (List.mem_cons_self ..) h.2

theorem at_notMem_tagged : '@' ∉ r.tagged := by
  rw [Reference.tagged, Reference.repository, List.mem_append, List.mem_append, List.mem_flatMap]
  rintro ((⟨part, hpart, hmem⟩ | hmem) | hmem)
  · rcases List.mem_append.mp hmem with h | h
    · exact (r.home_ok part hpart).2 h
    · exact absurd (List.mem_singleton.mp h) (by decide)
  · exact r.name_ok.2.2.2 hmem
  · cases htag : r.tag with
    | none =>
      rw [htag] at hmem
      exact List.not_mem_nil hmem
    | some t =>
      rw [htag] at hmem
      rcases List.mem_cons.mp hmem with h | h
      · exact absurd h (by decide)
      · exact (r.tag_ok t htag).2.2 h

/-- `label.split("@", 1)[0]`. -/
theorem takeWhile_text : r.text.takeWhile (· ≠ '@') = r.tagged := by
  have hkeep : ∀ c ∈ r.tagged, decide (c ≠ '@') = true := by
    intro c hc
    rw [decide_eq_true_eq]
    rintro rfl
    exact at_notMem_tagged r hc
  rw [Reference.text, List.takeWhile_append_of_pos hkeep]
  cases r.digest with
  | none => simp [Reference.behind]
  | some d => simp [Reference.behind]

theorem tagged_ne_nil : r.tagged ≠ [] := by
  rw [Reference.tagged, Reference.repository]
  intro hnil
  have hname := (List.append_eq_nil_iff.mp (List.append_eq_nil_iff.mp hnil).1).2
  exact r.name_ok.1 hname

theorem text_ne_nil : r.text ≠ [] := fun hnil =>
  tagged_ne_nil r (List.append_eq_nil_iff.mp hnil).1

end

/-! ## The pattern -/

section

variable {word : Char → Bool}

theorem refChar_of_isHex {c : Char} (h : isHex c = true) : refChar c = true := by
  have hletter : c.isAlphanum = true := by
    rw [isHex, Bool.or_eq_true, Bool.and_eq_true, decide_eq_true_eq, decide_eq_true_eq] at h
    rw [Char.isAlphanum, Bool.or_eq_true]
    rcases h with h | ⟨hlow, hhigh⟩
    · exact Or.inr h
    · refine Or.inl ?_
      have hlower : c.isLower = true := Bool.and_eq_true_iff.mpr ⟨decide_eq_true hlow,
        decide_eq_true (Nat.le_trans hhigh (by decide : 'f'.toNat ≤ 'z'.toNat))⟩
      exact Bool.or_eq_true_iff.mpr (Or.inr hlower)
  simp [refChar, hletter]

theorem at_not_refChar : refChar '@' = false := by decide

theorem refChar_digest {hex : Text} (h : Hex64 hex) : ∀ c ∈ sha256 ++ hex, refChar c = true := by
  intro c hc
  rcases List.mem_append.mp hc with hc | hc
  · have hall : sha256.all refChar = true := rfl
    exact List.all_eq_true.mp hall c hc
  · exact refChar_of_isHex (h.2 c hc)

theorem at_notMem_digest {hex : Text} (h : Hex64 hex) : '@' ∉ sha256 ++ hex := by
  intro hmem
  have hchar := refChar_digest h '@' hmem
  rw [at_not_refChar] at hchar
  cases hchar

theorem digestAt_digest {hex : Text} (h : Hex64 hex) :
    digestAt word (sha256 ++ hex) = some (sha256 ++ hex) := by
  have hdrop : (sha256 ++ hex).drop 7 = hex := rfl
  have hlen : (sha256 ++ hex).length = 71 := by
    rw [List.length_append, h.1]
    rfl
  have hhex : hex.take 64 = hex := List.take_of_length_le (Nat.le_of_eq h.1)
  rw [digestAt, hdrop, hhex, List.drop_of_length_le (Nat.le_of_eq hlen),
    List.take_of_length_le (Nat.le_of_eq hlen)]
  exact if_pos ⟨rfl, h.1, List.all_eq_true.mpr h.2, by simp⟩

/-- What is found is a digest that begins the text. -/
theorem digestAt_eq_some {text digest : Text} (h : digestAt word text = some digest) :
    ∃ hex, Hex64 hex ∧ digest = sha256 ++ hex ∧ digest <+: text := by
  rw [digestAt] at h
  split at h
  next hall =>
    obtain ⟨hhead, hlen, hhex, -⟩ := hall
    refine ⟨(text.drop 7).take 64, ⟨hlen, List.all_eq_true.mp hhex⟩, ?_, ?_⟩
    · have hcut : text.take (7 + 64) = text.take 7 ++ (text.drop 7).take 64 := List.take_add
      rw [← Option.some.inj h, ← hhead]
      exact hcut
    · rw [← Option.some.inj h]
      exact List.take_prefix 71 text
  next => exact nomatch h

/-- No digest goes over an `@`. -/
theorem digestAt_behind {a b : Text} (h : ¬ CarriesDigest a) :
    digestAt word (a ++ '@' :: b) = none := by
  cases hdigest : digestAt word (a ++ '@' :: b) with
  | none => rfl
  | some digest =>
    obtain ⟨hex, hhex, rfl, hprefix⟩ := digestAt_eq_some hdigest
    exact absurd ⟨hex, hhex, (prefix_of_notMem hprefix (at_notMem_digest hhex)).isInfix⟩ h

theorem CarriesDigest.of_suffix {a b : Text} (h : CarriesDigest a) (hab : a <:+ b) :
    CarriesDigest b := by
  obtain ⟨hex, hhex, hinfix⟩ := h
  exact ⟨hex, hhex, hinfix.trans hab.isInfix⟩

/-- Nothing is found where neither the text up to the `@` nor that behind it has a digest. -/
theorem matchAt_before {a b c : Text} (ha : '@' ∉ a) (hdigest : ¬ CarriesDigest a)
    (hbehind : ¬ CarriesDigest b) : matchAt word (a ++ '@' :: (b ++ '@' :: c)) = none := by
  have hhere : digestAt word (a ++ '@' :: (b ++ '@' :: c)) = none := digestAt_behind hdigest
  have hnext : digestAt word (b ++ '@' :: c) = none := digestAt_behind hbehind
  rw [matchAt, hhere]
  split
  next rest hrest =>
    -- the run ends at the `@`, or at another character
    have hsame : rest = b ++ '@' :: c := by
      rw [List.dropWhile_append] at hrest
      split at hrest
      next =>
        rw [List.dropWhile_cons_of_neg (by rw [at_not_refChar]; exact Bool.false_ne_true)] at hrest
        exact (List.cons.inj hrest).2.symm
      next hne =>
        exfalso
        cases hdrop : a.dropWhile refChar with
        | nil =>
          rw [hdrop] at hne
          exact hne rfl
        | cons x l =>
          rw [hdrop, List.cons_append] at hrest
          refine ha ((List.dropWhile_suffix refChar).mem ?_)
          rw [hdrop, (List.cons.inj hrest).1]
          exact List.mem_cons_self ..
    rw [hsame, hnext, ite_self]
    rfl
  next => rfl

theorem matchAt_pinned {ref digest : Text} (hne : ref ≠ []) (href : ∀ c ∈ ref, refChar c = true)
    (hdigest : digestAt word digest = some digest) :
    matchAt word (ref ++ '@' :: digest) = some (some ref, digest) := by
  have hstop : ¬ refChar '@' = true := by rw [at_not_refChar]; exact Bool.false_ne_true
  have hrun : (ref ++ '@' :: digest).takeWhile refChar = ref := by
    rw [List.takeWhile_append_of_pos href, List.takeWhile_cons_of_neg hstop, List.append_nil]
  have hrest : (ref ++ '@' :: digest).dropWhile refChar = '@' :: digest := by
    rw [List.dropWhile_append_of_pos href, List.dropWhile_cons_of_neg hstop]
  rw [matchAt, hrest, hrun]
  simp only [hne, if_false, hdigest]

theorem matchAt_bare {hex : Text} (h : Hex64 hex) :
    matchAt word (sha256 ++ hex) = some (none, sha256 ++ hex) := by
  have hrest : (sha256 ++ hex).dropWhile refChar = [] :=
    List.dropWhile_eq_nil_iff.mpr (refChar_digest h)
  rw [matchAt, hrest, digestAt_digest h]
  rfl

theorem search_of_matchAt {text : Text} {found : Option Text × Text}
    (h : matchAt word text = some found) : search word text = some found := by
  cases text with
  | nil => exact h
  | cons c text => rw [search, h]

theorem search_skip {front text : Text}
    (h : ∀ rest, rest <:+ front → rest ≠ [] → matchAt word (rest ++ text) = none) :
    search word (front ++ text) = search word text := by
  induction front with
  | nil => rfl
  | cons c front ih =>
    have hhere : matchAt word (c :: (front ++ text)) = none :=
      h (c :: front) (List.suffix_refl _) (List.cons_ne_nil _ _)
    rw [List.cons_append, search, hhere]
    exact ih fun rest hrest => h rest (hrest.trans (List.suffix_cons c front))

/-- A digest that is found is in the text. -/
theorem carriesDigest_of_search {text : Text} {found : Option Text × Text}
    (h : search word text = some found) : CarriesDigest text := by
  have hmatch : ∀ text, matchAt word text = some found → CarriesDigest text := by
    intro text hfound
    have hhere : ∀ rest digest, digestAt word rest = some digest → rest <:+ text →
        CarriesDigest text := by
      intro rest digest hdigest hrest
      obtain ⟨hex, hhex, rfl, hprefix⟩ := digestAt_eq_some hdigest
      exact CarriesDigest.of_suffix ⟨hex, hhex, hprefix.isInfix⟩ hrest
    rw [matchAt] at hfound
    split at hfound
    next rest hrest =>
      split at hfound
      next digest hgroup =>
        split at hgroup
        next => exact nomatch hgroup
        next =>
          refine hhere rest digest hgroup ?_
          exact (List.suffix_cons '@' rest).trans (hrest ▸ List.dropWhile_suffix refChar)
      next =>
        obtain ⟨digest, hdigest, -⟩ := Option.map_eq_some_iff.mp hfound
        exact hhere text digest hdigest (List.suffix_refl _)
    next =>
      obtain ⟨digest, hdigest, -⟩ := Option.map_eq_some_iff.mp hfound
      exact hhere text digest hdigest (List.suffix_refl _)
  induction text with
  | nil => exact hmatch [] h
  | cons c text ih =>
    rw [search] at h
    split at h
    next found' hfound => exact hmatch _ (hfound.trans h)
    next => exact (ih h).of_suffix (List.suffix_cons c text)

/-! ## The forms -/

/-- The reference of a form, as it is captured. -/
def DigestForm.captured : DigestForm → Option Text
  | .bare => none
  | .pinned ref => some ref.tagged
  | .cached _ ref => some ref.tagged

theorem search_form {form : DigestForm} (hform : form.Legible) {hex : Text} (h : Hex64 hex) :
    search word (form.text hex) = some (form.captured, sha256 ++ hex) := by
  cases form with
  | bare => exact search_of_matchAt (matchAt_bare h)
  | pinned ref =>
    exact search_of_matchAt (matchAt_pinned (tagged_ne_nil ref) hform (digestAt_digest h))
  | cached label ref =>
    obtain ⟨href, hlabel, hdigest⟩ := hform
    have hsplit : DigestForm.text hex (.cached label ref) =
        (label.tagged ++ ['@']) ++ (ref.tagged ++ '@' :: (sha256 ++ hex)) := by
      rw [DigestForm.text, List.append_assoc, List.singleton_append]
    have hmatch : matchAt word (ref.tagged ++ '@' :: (sha256 ++ hex)) =
        some (some ref.tagged, sha256 ++ hex) :=
      matchAt_pinned (tagged_ne_nil ref) href (digestAt_digest h)
    rw [hsplit, search_skip, search_of_matchAt hmatch]
    · rfl
    · intro rest hrest hne
      -- a rest of the label and the `@`
      obtain ⟨front, hfront⟩ := hrest
      obtain ⟨a, rfl⟩ : ∃ a, rest = a ++ ['@'] := by
        rcases List.eq_nil_or_concat rest with hnil | ⟨a, z, rfl⟩
        · exact absurd hnil hne
        · rw [List.concat_eq_append, ← List.append_assoc] at hfront
          obtain ⟨-, hz⟩ := List.append_inj' hfront rfl
          exact ⟨a, by rw [List.concat_eq_append, hz]⟩
      rw [← List.append_assoc] at hfront
      obtain ⟨hlast, -⟩ := List.append_inj' hfront rfl
      have hsuffix : a <:+ label.tagged := ⟨front, hlast⟩
      have hat : '@' ∉ a := fun hmem => at_notMem_tagged label (hsuffix.mem hmem)
      rw [List.append_assoc, List.singleton_append]
      exact matchAt_before hat (fun hcarries => hlabel (hcarries.of_suffix hsuffix)) hdigest

theorem pinned_eq (label : Text) {containerDigest : Text} (hne : containerDigest ≠ []) :
    digestPinnedImageRef word label (some containerDigest) =
      match search word (strip isSpace containerDigest) with
      | none => none
      | some (none, digest) | some (some [], digest) =>
        if label = [] then none
        else some (stripTag (label.takeWhile (· ≠ '@')) ++ '@' :: digest)
      | some (some repo, digest) =>
        if ':' ∈ (rpartition '/' repo).2.2 then some (stripTag repo ++ '@' :: digest)
        else some (repo ++ '@' :: digest) := by
  cases containerDigest with
  | nil => exact absurd rfl hne
  | cons c text => rfl

/-- A reference that is captured loses its tag. -/
theorem pinned_of_captured (label : Text) {containerDigest digest : Text} (r : Reference)
    (hne : containerDigest ≠ [])
    (h : search word (strip isSpace containerDigest) = some (some r.tagged, digest)) :
    digestPinnedImageRef word label (some containerDigest) = some (r.repository ++ '@' :: digest) := by
  obtain ⟨c, text, htext⟩ := List.exists_cons_of_ne_nil (tagged_ne_nil r)
  rw [pinned_eq label hne, h, htext]
  show (if ':' ∈ (rpartition '/' (c :: text)).2.2 then some (stripTag (c :: text) ++ '@' :: digest)
    else some ((c :: text) ++ '@' :: digest)) = _
  rw [← htext, stripTag_tagged]
  split
  next => rfl
  next huntagged => rw [tagged_of_untagged r huntagged]

theorem pinned_of_bare (label : Reference) {containerDigest digest : Text}
    (hne : containerDigest ≠ [])
    (h : search word (strip isSpace containerDigest) = some (none, digest)) :
    digestPinnedImageRef word label.text (some containerDigest) =
      some (label.repository ++ '@' :: digest) := by
  rw [pinned_eq label.text hne, h]
  show (if label.text = [] then none
    else some (stripTag (label.text.takeWhile (· ≠ '@')) ++ '@' :: digest)) = _
  rw [if_neg (text_ne_nil label), takeWhile_text, stripTag_tagged]

theorem pins_repository (word : Char → Bool) (label : Reference) (containerDigest : Text) :
    (¬ CarriesDigest (strip isSpace containerDigest) →
      digestPinnedImageRef word label.text (some containerDigest) = none) ∧
    ∀ (form : DigestForm) (hex : Text), form.Legible → Hex64 hex →
      strip isSpace containerDigest = form.text hex →
      digestPinnedImageRef word label.text (some containerDigest) =
          some ((form.source label).repository ++ '@' :: (sha256 ++ hex)) ∧
        Untagged (form.source label).repository := by
  constructor
  · intro hnone
    cases containerDigest with
    | nil => rfl
    | cons c text =>
      cases hsearch : search word (strip isSpace (c :: text)) with
      | none => rw [pinned_eq _ (List.cons_ne_nil c text), hsearch]
      | some found => exact absurd (carriesDigest_of_search hsearch) hnone
  · intro form hex hform hhex htext
    refine ⟨?_, untagged_repository _⟩
    have hsearch : search word (strip isSpace containerDigest) =
        some (form.captured, sha256 ++ hex) := by
      rw [htext]
      exact search_form hform hhex
    have hne : containerDigest ≠ [] := by
      rintro rfl
      have hnil : form.text hex = [] := htext.symm
      have hfound : search word (form.text hex) = _ := search_form hform hhex
      rw [hnil] at hfound
      cases hfound
    cases form with
    | bare => exact pinned_of_bare label hne hsearch
    | pinned ref => exact pinned_of_captured _ ref hne hsearch
    | cached _ ref => exact pinned_of_captured _ ref hne hsearch

end

/-! ## A reference of another registry -/

/-- `nrel/os:3`. -/
def tagLabel : Reference where
  home := [['n', 'r', 'e', 'l']]
  name := ['o', 's']
  tag := some ['3']
  digest := none
  home_ok := by decide
  name_ok := by decide
  tag_ok := by
    rintro t ⟨⟩
    decide

/-- `lab:5000/os`. -/
def labReference : Reference where
  home := [['l', 'a', 'b', ':', '5', '0', '0', '0']]
  name := ['o', 's']
  tag := none
  digest := none
  home_ok := by decide
  name_ok := by decide
  tag_ok := nofun

theorem pins_repository_lab :
    let hex := List.replicate 64 'a'
    digestPinnedImageRef Char.isAlphanum tagLabel.text
        (some (labReference.tagged ++ '@' :: (sha256 ++ hex))) =
      some (labReference.repository ++ '@' :: (sha256 ++ hex)) ∧
        Untagged labReference.repository := by
  intro hex
  have hhex : Hex64 hex :=
    ⟨List.length_replicate, fun c hc => by rw [List.eq_of_mem_replicate hc]; rfl⟩
  refine (pins_repository Char.isAlphanum tagLabel _).2 (.pinned labReference) hex ?_ hhex ?_
  · have hall : labReference.tagged.all refChar = true := rfl
    exact List.all_eq_true.mp hall
  · have hends : labReference.tagged ++ '@' :: (sha256 ++ hex) =
        'l' :: (('a' :: 'b' :: (labReference.tagged.drop 3 ++ '@' :: (sha256 ++
          List.replicate 63 'a'))) ++ ['a']) := rfl
    show strip isSpace (labReference.tagged ++ '@' :: (sha256 ++ hex)) = _
    rw [hends]
    exact strip_eq_self rfl rfl

/-- The repository is not that of the label. -/
theorem other_registry_pinned :
    let digest := sha256 ++ List.replicate 64 'a'
    let pinned := digestPinnedImageRef Char.isAlphanum tagLabel.text
      (some (labReference.tagged ++ '@' :: digest))
    pinned ≠ none ∧ pinned ≠ some (tagLabel.repository ++ '@' :: digest) := by
  decide

end OSimFlow.Cache.ImageRef
