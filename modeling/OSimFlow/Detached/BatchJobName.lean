import OSimFlow.Detached.Submission
import OSimFlow.Lib.Separator

/-!
# The name of a Batch job

A detached campaign finds the job of a sample again by its name. `batch_job_name` joins the
two ids by a hyphen, which both may contain; what AWS Batch does not allow becomes a hyphen,
and a name that was changed or is too long is cut and ends in a hash of the two ids with a
null character between them.

> `nameOf_allowed`: AWS Batch allows every name.
>
> `ownName_iff`: two samples share a name only if the hyphen between the ids, or the null
> character, can be read at another place, or if the ids of one spell the name of the other.
-/

namespace OSimFlow.Detached.Submission

open OSimFlow.Lib (append_sep_eq_iff)

/-- A campaign id and a sample id. -/
structure JobKey where
  campaignId : String
  sampleId : String
deriving DecidableEq

/-- The lower-case hexadecimal digits. -/
def hexDigits : List Char := "0123456789abcdef".toList

/-- `hashlib.sha256(text.encode()).hexdigest()`. -/
structure Sha256 where
  hexdigest : String → String
  length : ∀ text, (hexdigest text).toList.length = 64
  hex : ∀ text, ∀ c ∈ (hexdigest text).toList, c ∈ hexDigits

/-- `batch_job_name`. -/
def nameOf (H : Sha256) (p : JobKey) : String :=
  batchJobName ⟨p.campaignId, H.hexdigest⟩ p.sampleId

/-! ## The name, character by character -/

namespace JobKey

/-- The two ids around a character. -/
def joined (p : JobKey) (sep : Char) : List Char :=
  p.campaignId.toList ++ sep :: p.sampleId.toList

def raw (p : JobKey) : List Char := "osimflow-".toList ++ p.joined '-'

def clean (p : JobKey) : List Char := p.raw.map fun c => if nameChar c then c else '-'

/-- A name that stays as it is. -/
def Plain (p : JobKey) : Prop := p.clean = p.raw ∧ p.raw.length ≤ 128

instance (p : JobKey) : Decidable p.Plain := by
  unfold Plain
  infer_instance

end JobKey

section

variable (H : Sha256)

/-- `hexdigest()[:12]`. -/
def digest (p : JobKey) : List Char :=
  (H.hexdigest (p.campaignId ++ "\x00" ++ p.sampleId)).toList.take 12

def clipped (p : JobKey) : List Char := p.clean.take 115 ++ '-' :: digest H p

/-! ## What is asked of the names -/

/-- What AWS Batch asks of a name: at most 128 of these characters, a letter or digit first. -/
structure AllowedName (name : String) : Prop where
  chars : ∀ c ∈ name.toList, nameChar c = true
  length : name.length ≤ 128
  first : ∃ c, name.toList.head? = some c ∧ c.isAlphanum = true

/-- The hash does not collide on the two. -/
def NoCollision (p q : JobKey) : Prop :=
  digest H p = digest H q → p.joined '\x00' = q.joined '\x00'

/-- Both names are allowed, and equal only if the samples are. -/
structure OwnName (p q : JobKey) : Prop where
  own : nameOf H p = nameOf H q → p = q
  allowed : AllowedName (nameOf H p) ∧ AllowedName (nameOf H q)

/-! ## What is asked of the ids -/

/-- One campaign id goes on, behind the other, with what the other's sample id starts with. -/
def ReadsOn (sep : Char) (p q : JobKey) : Prop :=
  ∃ z, q.campaignId.toList = p.campaignId.toList ++ sep :: z ∧
    p.sampleId.toList = z ++ sep :: q.sampleId.toList

/-- The ids of the one spell the name that the other is clipped to. -/
def Spells (p q : JobKey) : Prop :=
  p.Plain ∧ ¬ q.Plain ∧ p.raw = clipped H q

/-- The ways to take two samples for each other. -/
def Confusable (p q : JobKey) : Prop :=
  p.Plain ∧ (ReadsOn '-' p q ∨ ReadsOn '-' q p) ∨
    (ReadsOn '\x00' p q ∨ ReadsOn '\x00' q p) ∨ (Spells H p q ∨ Spells H q p)

/-! ## The name -/

theorem toList_nameOf (p : JobKey) :
    (nameOf H p).toList = if p.Plain then p.raw else clipped H p := by
  have hsep : "-".toList = ['-'] := by decide
  have hraw : ("osimflow-" ++ p.campaignId ++ "-" ++ p.sampleId).toList = p.raw := by
    rw [String.toList_append, String.toList_append, String.toList_append, hsep]
    unfold JobKey.raw JobKey.joined
    rw [List.append_assoc, List.append_assoc, List.singleton_append]
  have hlength : p.clean.length = p.raw.length := List.length_map _
  have hiff : p.clean = p.raw ∧ p.clean.length ≤ 128 ↔ p.Plain := by
    rw [hlength]
    rfl
  unfold JobKey.clean at hiff
  unfold nameOf batchJobName
  simp only [hraw]
  by_cases h : p.Plain
  · rw [if_pos h, if_pos (hiff.mpr h), hraw]
  · rw [if_neg h, if_neg fun hc => h (hiff.mp hc), String.toList_ofList]
    rfl

theorem length_digest (p : JobKey) : (digest H p).length = 12 := by
  unfold digest
  rw [List.length_take, H.length]
  rfl

theorem nameChar_of_hex {c : Char} (h : c ∈ hexDigits) : nameChar c = true := by
  have hall : ∀ c ∈ hexDigits, nameChar c = true := List.all_eq_true.mp (by decide)
  exact hall c h

theorem nameChar_of_mem_clean {p : JobKey} {c : Char} (h : c ∈ p.clean) : nameChar c = true := by
  obtain ⟨d, -, rfl⟩ := List.mem_map.mp h
  by_cases hd : nameChar d = true
  · rw [if_pos hd]
    exact hd
  · rw [if_neg hd]
    decide

theorem nameChar_of_mem_clipped {p : JobKey} {c : Char} (h : c ∈ clipped H p) :
    nameChar c = true := by
  rcases List.mem_append.mp h with h | h
  · exact nameChar_of_mem_clean (List.mem_of_mem_take h)
  · rcases List.mem_cons.mp h with rfl | h
    · decide
    · exact nameChar_of_hex (H.hex _ c (List.mem_of_mem_take h))

/-- A name stays as it is if AWS Batch allows its characters. -/
theorem clean_eq_raw_iff (p : JobKey) : p.clean = p.raw ↔ ∀ c ∈ p.raw, nameChar c = true := by
  unfold JobKey.clean
  nth_rewrite 2 [← List.map_id p.raw]
  rw [List.map_inj_left]
  refine forall₂_congr fun c _ => ?_
  by_cases hc : nameChar c = true
  · rw [if_pos hc]
    exact iff_of_true rfl hc
  · rw [if_neg hc]
    refine iff_of_false ?_ hc
    rintro rfl
    exact hc (by decide)

/-- AWS Batch allows every name. -/
theorem nameOf_allowed (p : JobKey) : AllowedName (nameOf H p) := by
  have hform : ∃ s, (nameOf H p).toList = 'o' :: s := by
    rw [toList_nameOf]
    by_cases h : p.Plain
    · exact ⟨_, if_pos h⟩
    · exact ⟨_, if_neg h⟩
  refine ⟨?_, ?_, ?_⟩
  · intro c hc
    rw [toList_nameOf] at hc
    by_cases h : p.Plain
    · rw [if_pos h] at hc
      exact (clean_eq_raw_iff p).mp h.1 c hc
    · rw [if_neg h] at hc
      exact nameChar_of_mem_clipped H hc
  · rw [← String.length_toList, toList_nameOf]
    by_cases h : p.Plain
    · rw [if_pos h]
      exact h.2
    · rw [if_neg h, clipped, List.length_append, List.length_cons, length_digest,
        List.length_take]
      omega
  · obtain ⟨s, hs⟩ := hform
    exact ⟨'o', by rw [hs]; rfl, by decide⟩

/-! ## Which names are equal -/

theorem jobKey_ext {p q : JobKey} (hc : p.campaignId.toList = q.campaignId.toList)
    (hs : p.sampleId.toList = q.sampleId.toList) : p = q := by
  cases p
  cases q
  rw [String.toList_inj] at hc hs
  cases hc
  cases hs
  rfl

theorem joined_eq_iff (sep : Char) (p q : JobKey) :
    p.joined sep = q.joined sep ↔ p = q ∨ ReadsOn sep p q ∨ ReadsOn sep q p := by
  unfold JobKey.joined
  rw [append_sep_eq_iff]
  refine or_congr ⟨fun h => jobKey_ext h.1 h.2, ?_⟩ Iff.rfl
  rintro rfl
  exact ⟨rfl, rfl⟩

theorem ReadsOn.ne {sep : Char} {p q : JobKey} (h : ReadsOn sep p q) : p ≠ q := by
  rintro rfl
  obtain ⟨z, hz, -⟩ := h
  have hlength := congrArg List.length hz
  rw [List.length_append, List.length_cons] at hlength
  omega

theorem raw_eq_iff (p q : JobKey) :
    p.raw = q.raw ↔ p = q ∨ ReadsOn '-' p q ∨ ReadsOn '-' q p := by
  rw [← joined_eq_iff]
  exact List.append_right_inj _

/-- The same text, cleaned, whichever of the two characters stands between the ids. -/
theorem clean_eq_map (p : JobKey) :
    p.clean = ("osimflow-".toList ++ p.joined '\x00').map
      fun c => if nameChar c then c else '-' := by
  have hnull : (if nameChar '\x00' then '\x00' else '-') =
      (if nameChar '-' then '-' else '-') := by decide
  unfold JobKey.clean JobKey.raw JobKey.joined
  simp only [List.map_append, List.map_cons, hnull]

/-- An id with a null character in it is cleaned. -/
theorem ReadsOn.not_plain {p q : JobKey} (h : ReadsOn '\x00' p q) : ¬ p.Plain ∧ ¬ q.Plain := by
  obtain ⟨z, hq, hp⟩ := h
  have hnull : ∀ r : JobKey, '\x00' ∈ r.campaignId.toList ∨ '\x00' ∈ r.sampleId.toList →
      ¬ r.Plain := by
    intro r hr hplain
    refine absurd ((clean_eq_raw_iff r).mp hplain.1 '\x00' ?_) (by decide)
    refine List.mem_append_right _ ?_
    rcases hr with hr | hr
    · exact List.mem_append_left _ hr
    · exact List.mem_append_right _ (List.mem_cons_of_mem _ hr)
  exact ⟨hnull p (.inr (hp ▸ by simp)), hnull q (.inl (hq ▸ by simp))⟩

/-- What was clipped is equal if the hashed texts are. -/
theorem clipped_eq_iff {p q : JobKey} (hH : NoCollision H p q) :
    clipped H p = clipped H q ↔ p = q ∨ ReadsOn '\x00' p q ∨ ReadsOn '\x00' q p := by
  rw [← joined_eq_iff]
  constructor
  · intro h
    refine hH ?_
    have hlength : ('-' :: digest H p).length = ('-' :: digest H q).length := by
      rw [List.length_cons, List.length_cons, length_digest, length_digest]
    exact List.tail_eq_of_cons_eq (List.append_inj_right' h hlength)
  · intro h
    have htext : p.campaignId ++ "\x00" ++ p.sampleId = q.campaignId ++ "\x00" ++ q.sampleId := by
      rw [← String.toList_inj]
      simpa [JobKey.joined] using h
    unfold clipped digest
    rw [clean_eq_map, clean_eq_map, h, htext]

theorem nameOf_eq_iff {p q : JobKey} (hH : NoCollision H p q) :
    nameOf H p = nameOf H q ↔ p = q ∨ Confusable H p q := by
  rw [← String.toList_inj, toList_nameOf, toList_nameOf]
  by_cases hp : p.Plain <;> by_cases hq : q.Plain
  · rw [if_pos hp, if_pos hq, raw_eq_iff]
    refine or_congr Iff.rfl ⟨fun h => .inl ⟨hp, h⟩, ?_⟩
    rintro (⟨-, h⟩ | (h | h) | h | h)
    · exact h
    · exact absurd hp h.not_plain.1
    · exact absurd hp h.not_plain.2
    · exact absurd hq h.2.1
    · exact absurd hp h.2.1
  · rw [if_pos hp, if_neg hq]
    have hne : p ≠ q := by
      rintro rfl
      exact hq hp
    constructor
    · exact fun h => .inr (.inr (.inr (.inl ⟨hp, hq, h⟩)))
    · rintro (h | ⟨-, h⟩ | (h | h) | h | h)
      · exact absurd h hne
      · have hraw := (raw_eq_iff p q).mpr (.inr h)
        unfold JobKey.Plain at hq
        rw [clean_eq_raw_iff, ← hraw, ← clean_eq_raw_iff] at hq
        exact absurd hp hq
      · exact absurd hp h.not_plain.1
      · exact absurd hp h.not_plain.2
      · exact h.2.2
      · exact absurd hp h.2.1
  · rw [if_neg hp, if_pos hq]
    have hne : p ≠ q := by
      rintro rfl
      exact hp hq
    constructor
    · exact fun h => .inr (.inr (.inr (.inr ⟨hq, hp, h.symm⟩)))
    · rintro (h | ⟨h, -⟩ | (h | h) | h | h)
      · exact absurd h hne
      · exact absurd h hp
      · exact absurd hq h.not_plain.2
      · exact absurd hq h.not_plain.1
      · exact absurd h.1 hp
      · exact h.2.2.symm
  · rw [if_neg hp, if_neg hq, clipped_eq_iff H hH]
    refine or_congr Iff.rfl ⟨fun h => .inr (.inl h), ?_⟩
    rintro (⟨h, -⟩ | h | h | h)
    · exact absurd h hp
    · exact h
    · exact absurd h.1 hp
    · exact absurd h.1 hq

theorem Confusable.ne {p q : JobKey} (h : Confusable H p q) : p ≠ q := by
  rcases h with ⟨-, h | h⟩ | (h | h) | h | h
  · exact h.ne
  · exact h.ne.symm
  · exact h.ne
  · exact h.ne.symm
  · rintro rfl
    exact h.2.1 h.1
  · rintro rfl
    exact h.2.1 h.1

/-- Two samples have names of their own unless their ids can be taken for each other. -/
theorem ownName_iff {p q : JobKey} (hH : NoCollision H p q) :
    OwnName H p q ↔ ¬ Confusable H p q := by
  constructor
  · exact fun h hc => hc.ne H (h.own ((nameOf_eq_iff H hH).mpr (.inr hc)))
  · intro h
    refine ⟨fun he => ?_, nameOf_allowed H p, nameOf_allowed H q⟩
    exact ((nameOf_eq_iff H hH).mp he).resolve_right h

end

/-! ## A hyphen in the ids -/

/-- A number of 256 bits in hexadecimal. -/
def hexText (n : Nat) : String :=
  String.ofList ((List.range 64).map fun i => hexDigits.getD (n / 16 ^ (63 - i) % 16) '0')

/-- The hash, as far as the samples below need it. -/
def tabulated : Sha256 where
  hexdigest text := hexText <|
    if text = "a\x00b-c" then 0x02654a5c0c95227cd7c1e05e6a7fe0ebc864e0a98b51215619d99718818fd0eb
    else if text = "a-b\x00c" then
      0x695274f6b86e6e905d2d63600faba937eb4003b60a72aae0fea7434f4f1e4a73
    else 0x3d5f086f755a46e2e0b2a16a2b82cd83aa01f5e78dbd1430754313dfc786e5a2
  length text := by
    rw [hexText, String.toList_ofList, List.length_map, List.length_range]
  hex text c hc := by
    rw [hexText, String.toList_ofList] at hc
    obtain ⟨i, -, rfl⟩ := List.mem_map.mp hc
    have hmem : ∀ k < 16, hexDigits.getD k '0' ∈ hexDigits := by decide
    exact hmem _ (Nat.mod_lt _ (by decide))

theorem hyphen_shared : ¬ ∀ (H : Sha256) (p q : JobKey), NoCollision H p q → OwnName H p q := by
  intro h
  have hown := (h tabulated ⟨"a", "b-c"⟩ ⟨"a-b", "c"⟩ (by unfold NoCollision; decide)).own
  exact absurd (hown (by decide)) (by decide)

theorem ownName_of_one_campaign :
    OwnName tabulated ⟨"a", "b-c"⟩ ⟨"a-b", "d"⟩ ↔
      ¬ Confusable tabulated ⟨"a", "b-c"⟩ ⟨"a-b", "d"⟩ :=
  ownName_iff tabulated (by unfold NoCollision; decide)

end OSimFlow.Detached.Submission
