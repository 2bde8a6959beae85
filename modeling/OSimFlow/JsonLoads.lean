import OSimFlow.Json
import OSimFlow.JsonText

/-!
# `json.dumps` and `json.loads` on texts

`loads` reads a text one character after the other, with a stack of the containers that are
open. What it makes of a text that was cut, or to which another one was appended, is then what
the state it stopped in makes of the rest.

> `loads_dumps_obj`: the text of an object is read back as the object.
>
> `loads_torn`: what begins with a part of such a text and goes on with parts of others is no
> JSON text, if their first keys begin with a letter.

The texts of floats are a parameter. A lone surrogate is no character, so the escape of one is
refused here.
-/

namespace OSimFlow.JsonLoads

open OSimFlow.Observability.Audit (dumpsStr escape escapeChar hex4)
open OSimFlow.JsonText (toList_u)

/-! ## Words: numbers and names -/

/-- A character of a number or a name. -/
def wordChar (c : Char) : Bool :=
  c.isAlphanum || c == '+' || c == '-' || c == '.'

def readNat (l : List Char) : Option Nat :=
  if l ≠ [] ∧ l.all Char.isDigit = true ∧ (l.head? = some '0' → l.length = 1) then
    some (Nat.ofDigitChars 10 l 0)
  else none

def readInt : List Char → Option Int
  | '-' :: l => (readNat l).map fun n => -(n : Int)
  | l => (readNat l).map fun n => (n : Int)

def intText : Int → List Char
  | .ofNat n => Nat.toDigits 10 n
  | .negSucc n => '-' :: Nat.toDigits 10 (n + 1)

/-- How floats are written and read. -/
structure FloatText (F : Type) where
  text : F → List Char
  read : List Char → Option F
  read_text : ∀ x, read (text x) = some x
  text_ne_nil : ∀ x, text x ≠ []
  text_chars : ∀ x, (text x).all wordChar = true
  not_name : ∀ x, text x ∉ ["null".toList, "true".toList, "false".toList]
  not_int : ∀ x, readInt (text x) = none

section

variable {F : Type} (f : FloatText F)

def readWord (l : List Char) : Option (Json F) :=
  if l = "null".toList then some .null
  else if l = "true".toList then some (.bool true)
  else if l = "false".toList then some (.bool false)
  else ((readInt l).map Json.int).or ((f.read l).map Json.float)

end

/-! ## Strings -/

def hexDigit (c : Char) : Option Nat :=
  if '0' ≤ c ∧ c ≤ '9' then some (c.toNat - 48)
  else if 'a' ≤ c ∧ c ≤ 'f' then some (c.toNat - 87)
  else if 'A' ≤ c ∧ c ≤ 'F' then some (c.toNat - 55)
  else none

/-- Four digits in front, and what follows. -/
def readHex : List Char → Option (Nat × List Char)
  | a :: b :: c :: d :: rest =>
    match hexDigit a, hexDigit b, hexDigit c, hexDigit d with
    | some a, some b, some c, some d => some (((a * 16 + b) * 16 + c) * 16 + d, rest)
    | _, _, _, _ => none
  | _ => none

/-- The second half of a pair of surrogates. -/
def readLow (high : Nat) : List Char → Option (Char × List Char)
  | '\\' :: 'u' :: rest =>
    match readHex rest with
    | some (low, rest) =>
      if 0xdc00 ≤ low ∧ low < 0xe000 then
        some (Char.ofNat (0x10000 + (high - 0xd800) * 1024 + (low - 0xdc00)), rest)
      else none
    | none => none
  | _ => none

/-- What stands after `\u`. -/
def readUnicode (l : List Char) : Option (Char × List Char) :=
  match readHex l with
  | some (n, rest) =>
    if 0xd800 ≤ n ∧ n < 0xdc00 then readLow n rest
    else if 0xdc00 ≤ n ∧ n < 0xe000 then none
    else some (Char.ofNat n, rest)
  | none => none

/-- `BACKSLASH` -/
def simpleEscape (c : Char) : Option Char :=
  if c = '"' ∨ c = '\\' ∨ c = '/' then some c
  else if c = 'n' then some '\n' else if c = 'r' then some '\r'
  else if c = 't' then some '\t' else if c = 'f' then some '\x0c'
  else if c = 'b' then some '\x08' else none

/-- A character in front of the inside of a string. -/
def readChar : List Char → Option (Char × List Char)
  | '\\' :: 'u' :: rest => readUnicode rest
  | '\\' :: c :: rest => (simpleEscape c).map fun c => (c, rest)
  | c :: rest => if c.toNat < 0x20 then none else some (c, rest)
  | [] => none

/-- The inside of a string; a character takes at least one step. -/
def unescape : Nat → List Char → Option (List Char)
  | _, [] => some []
  | 0, _ :: _ => none
  | fuel + 1, c :: l =>
    match readChar (c :: l) with
    | some (c, rest) => (unescape fuel rest).map (c :: ·)
    | none => none

def readString (raw : List Char) : Option String :=
  (unescape raw.length raw).map String.ofList

/-! ## Texts -/

section

variable {F : Type}

/-- A container that is open: its items so far, the last one first. -/
inductive Frame (F : Type) where
  | arr (items : List (Json F))
  | obj (items : List (String × Json F))
  /-- The value under the key is to come. -/
  | field (items : List (String × Json F)) (key : String)

/-- What is expected; `mayClose` directly after the opening bracket. -/
inductive Mode (F : Type) where
  | value (mayClose : Bool)
  | key (mayClose : Bool)
  | colon
  | after
  | word (rev : List Char)
  | string (isKey : Bool) (rev : List Char) (escaped : Bool)
  | done (v : Json F)

structure State (F : Type) where
  mode : Mode F
  stack : List (Frame F)

def start : State F := ⟨.value false, []⟩

/-- A value is complete. -/
def deliver (v : Json F) : List (Frame F) → Option (State F)
  | [] => some ⟨.done v, []⟩
  | .arr items :: stack => some ⟨.after, .arr (v :: items) :: stack⟩
  | .field items key :: stack => some ⟨.after, .obj ((key, v) :: items) :: stack⟩
  | .obj _ :: _ => none

/-- A key is complete. -/
def deliverKey (key : String) : List (Frame F) → Option (State F)
  | .obj items :: stack => some ⟨.colon, .field items key :: stack⟩
  | _ => none

def isWhitespace (c : Char) : Bool := c == ' ' || c == '\t' || c == '\n' || c == '\r'

/-- The character after a value. -/
def stepAfter (stack : List (Frame F)) (c : Char) : Option (State F) :=
  if isWhitespace c then some ⟨.after, stack⟩
  else match stack with
    | .arr items :: rest =>
      if c = ',' then some ⟨.value false, stack⟩
      else if c = ']' then deliver (.arr items.reverse) rest
      else none
    | .obj items :: rest =>
      if c = ',' then some ⟨.key false, stack⟩
      else if c = '}' then deliver (.obj items.reverse) rest
      else none
    | _ => none

/-- The character after a value, or after the last one. -/
def stepDelivered (s : State F) (c : Char) : Option (State F) :=
  match s.mode with
  | .after => stepAfter s.stack c
  | .done v => if isWhitespace c then some ⟨.done v, s.stack⟩ else none
  | _ => none

/-- The first character of a value. -/
def stepValue (mayClose : Bool) (stack : List (Frame F)) (c : Char) : Option (State F) :=
  if isWhitespace c then some ⟨.value mayClose, stack⟩
  else if c = '"' then some ⟨.string false [] false, stack⟩
  else if c = '\x7b' then some ⟨.key true, .obj [] :: stack⟩
  else if c = '[' then some ⟨.value true, .arr [] :: stack⟩
  else if c = ']' ∧ mayClose = true then stepAfter stack c
  else if wordChar c = true then some ⟨.word [c], stack⟩
  else none

def stepKey (mayClose : Bool) (stack : List (Frame F)) (c : Char) : Option (State F) :=
  if isWhitespace c then some ⟨.key mayClose, stack⟩
  else if c = '"' then some ⟨.string true [] false, stack⟩
  else if c = '\x7d' ∧ mayClose = true then stepAfter stack c
  else none

def stepString (isKey : Bool) (rev : List Char) (escaped : Bool) (stack : List (Frame F))
    (c : Char) : Option (State F) :=
  if escaped then some ⟨.string isKey (c :: rev) false, stack⟩
  else if c = '\\' then some ⟨.string isKey (c :: rev) true, stack⟩
  else if c = '"' then
    match readString rev.reverse with
    | some s => if isKey then deliverKey s stack else deliver (.str s) stack
    | none => none
  else some ⟨.string isKey (c :: rev) false, stack⟩

variable (f : FloatText F)

def stepWord (rev : List Char) (stack : List (Frame F)) (c : Char) : Option (State F) :=
  if wordChar c = true then some ⟨.word (c :: rev), stack⟩
  else match readWord f rev.reverse with
    | some v => (deliver v stack).bind fun s => stepDelivered s c
    | none => none

def step (s : State F) (c : Char) : Option (State F) :=
  match s.mode with
  | .value mayClose => stepValue mayClose s.stack c
  | .key mayClose => stepKey mayClose s.stack c
  | .colon =>
    if isWhitespace c then some s
    else if c = ':' then some ⟨.value false, s.stack⟩ else none
  | .after => stepAfter s.stack c
  | .word rev => stepWord f rev s.stack c
  | .string isKey rev escaped => stepString isKey rev escaped s.stack c
  | .done _ => stepDelivered s c

def feed : List Char → State F → Option (State F)
  | [], s => some s
  | c :: l, s => (step f s c).bind (feed l)

/-- The end of the text. -/
def finish (s : State F) : Option (Json F) :=
  match s.mode with
  | .done v => some v
  | .word rev => if s.stack = [] then readWord f rev.reverse else none
  | _ => none

/-- `json.loads`; `none` where it raises. -/
def loads (l : List Char) : Option (Json F) :=
  (feed f l start).bind (finish f)

mutual

/-- `json.dumps`. -/
def dumps : Json F → List Char
  | .null => "null".toList
  | .bool true => "true".toList
  | .bool false => "false".toList
  | .int n => intText n
  | .float x => f.text x
  | .str s => (dumpsStr s).toList
  | .arr items => '[' :: (dumpsItems items ++ [']'])
  | .obj items => '\x7b' :: (dumpsEntries items ++ ['\x7d'])

def dumpsItems : List (Json F) → List Char
  | [] => []
  | item :: items => dumps item ++ dumpsMore items

/-- The items behind the first one. -/
def dumpsMore : List (Json F) → List Char
  | [] => []
  | item :: items => ", ".toList ++ dumps item ++ dumpsMore items

def dumpsEntries : List (String × Json F) → List Char
  | [] => []
  | (key, value) :: items =>
    (dumpsStr key).toList ++ ": ".toList ++ dumps value ++ dumpsMoreEntries items

def dumpsMoreEntries : List (String × Json F) → List Char
  | [] => []
  | (key, value) :: items =>
    ", ".toList ++ (dumpsStr key).toList ++ ": ".toList ++ dumps value ++ dumpsMoreEntries items

end

end

/-! ## Reading numbers and names back -/

theorem head?_toDigits (n : Nat) (h : (Nat.toDigits 10 n).head? = some '0') : n = 0 := by
  induction n using Nat.strong_induction_on with
  | _ n ih =>
    rw [Nat.toDigits_eq_if (by omega)] at h
    split at h
    next hlt =>
      have hdigits : ∀ m, m < 10 → Nat.digitChar m = '0' → m = 0 := by decide
      exact hdigits n hlt (Option.some.inj h)
    next hge =>
      rw [List.head?_append_of_ne_nil _ Nat.toDigits_ne_nil] at h
      have hzero := ih (n / 10) (by omega) h
      omega

theorem toDigits_isDigit {n : Nat} : ∀ c ∈ Nat.toDigits 10 n, c.isDigit = true :=
  fun _ hc => Nat.isDigit_of_mem_toDigits (by omega) (by omega) hc

theorem readNat_toDigits (n : Nat) : readNat (Nat.toDigits 10 n) = some n := by
  unfold readNat
  rw [if_pos, Nat.ofDigitChars_ten_toDigits]
  refine ⟨Nat.toDigits_ne_nil, List.all_eq_true.mpr toDigits_isDigit, ?_⟩
  intro hzero
  rw [head?_toDigits n hzero]
  decide

theorem readInt_of_isDigit {l : List Char} (h : ∀ c ∈ l, c.isDigit = true) :
    readInt l = (readNat l).map fun n => (n : Int) := by
  unfold readInt
  split
  next rest =>
    exact absurd (h '-' List.mem_cons_self) (by decide)
  next => rfl

theorem readInt_intText (n : Int) : readInt (intText n) = some n := by
  cases n with
  | ofNat n =>
    show readInt (Nat.toDigits 10 n) = _
    rw [readInt_of_isDigit toDigits_isDigit, readNat_toDigits]
    rfl
  | negSucc n =>
    rw [intText, readInt, readNat_toDigits]
    rfl

theorem wordChar_of_isDigit {c : Char} (h : c.isDigit = true) : wordChar c = true := by
  unfold wordChar Char.isAlphanum
  rw [h, Bool.or_true]
  rfl

theorem intText_chars (n : Int) : (intText n).all wordChar = true := by
  have hdigits : ∀ m : Nat, (Nat.toDigits 10 m).all wordChar = true := fun m =>
    List.all_eq_true.mpr fun c hc => wordChar_of_isDigit (toDigits_isDigit c hc)
  cases n with
  | ofNat n => exact hdigits n
  | negSucc n =>
    show (wordChar '-' && (Nat.toDigits 10 (n + 1)).all wordChar) = true
    rw [hdigits]
    decide

theorem intText_ne_nil (n : Int) : intText n ≠ [] := by
  intro h
  have hread := readInt_intText n
  rw [h] at hread
  exact nomatch hread

section

variable {F : Type} (f : FloatText F)

theorem readWord_intText (n : Int) : readWord f (intText n) = some (.int n) := by
  have hread := readInt_intText n
  unfold readWord
  split_ifs with hnull htrue hfalse
  · rw [hnull] at hread
    exact nomatch hread
  · rw [htrue] at hread
    exact nomatch hread
  · rw [hfalse] at hread
    exact nomatch hread
  · rw [hread]
    rfl

theorem readWord_text (x : F) : readWord f (f.text x) = some (.float x) := by
  have hname := f.not_name x
  unfold readWord
  split_ifs with hnull htrue hfalse
  · exact absurd (hnull ▸ List.mem_cons_self) hname
  · exact absurd (htrue ▸ List.mem_cons_of_mem _ List.mem_cons_self) hname
  · exact absurd (hfalse ▸ List.mem_cons_of_mem _ (List.mem_cons_of_mem _ List.mem_cons_self))
      hname
  · rw [f.not_int, f.read_text]
    rfl

end

/-! ## Reading strings back -/

theorem hexDigit_digitChar : ∀ n, n < 16 → hexDigit (Nat.digitChar n) = some n := by
  decide

theorem readHex_hex4 {n : Nat} (h : n < 65536) (rest : List Char) :
    readHex ((hex4 n).toList ++ rest) = some (n, rest) := by
  have hlist : (hex4 n).toList = [Nat.digitChar (n / 4096 % 16), Nat.digitChar (n / 256 % 16),
      Nat.digitChar (n / 16 % 16), Nat.digitChar (n % 16)] := String.toList_ofList
  have hsum : ((n / 4096 % 16 * 16 + n / 256 % 16) * 16 + n / 16 % 16) * 16 + n % 16 = n := by
    omega
  rw [hlist]
  simp only [List.cons_append, List.nil_append, readHex]
  rw [hexDigit_digitChar _ (by omega), hexDigit_digitChar _ (by omega),
    hexDigit_digitChar _ (by omega), hexDigit_digitChar _ (by omega)]
  simp only [hsum]

theorem readChar_u (digits : String) (rest : List Char) :
    readChar (("\\u" ++ digits).toList ++ rest) = readUnicode (digits.toList ++ rest) := by
  rw [String.toList_append, toList_u]
  rfl

theorem readChar_plain {c : Char} (h : c ≠ '\\') (hlow : ¬ c.toNat < 0x20) (rest : List Char) :
    readChar (c :: rest) = some (c, rest) := by
  unfold readChar
  split
  next heq => exact absurd (List.cons.inj heq).1 h
  next heq => exact absurd (List.cons.inj heq).1 h
  next heq =>
    obtain ⟨rfl, rfl⟩ := List.cons.inj heq
    exact if_neg hlow
  next heq => exact nomatch heq

theorem readUnicode_single {l rest : List Char} {n : Nat} (h : readHex l = some (n, rest))
    (hn : ¬ (0xd800 ≤ n ∧ n < 0xe000)) : readUnicode l = some (Char.ofNat n, rest) := by
  unfold readUnicode
  rw [h]
  exact (if_neg (by omega)).trans (if_neg (by omega))

theorem readUnicode_pair {l rest rest' : List Char} {n m : Nat}
    (h : readHex l = some (n, '\\' :: 'u' :: rest)) (hn : 0xd800 ≤ n ∧ n < 0xdc00)
    (h' : readHex rest = some (m, rest')) (hm : 0xdc00 ≤ m ∧ m < 0xe000) :
    readUnicode l = some (Char.ofNat (0x10000 + (n - 0xd800) * 1024 + (m - 0xdc00)), rest') := by
  unfold readUnicode
  rw [h]
  refine (if_pos hn).trans ?_
  rw [readLow, h']
  exact if_pos hm

theorem readChar_escapeChar (c : Char) (rest : List Char) :
    readChar ((escapeChar c).toList ++ rest) = some (c, rest) := by
  have hvalid : c.toNat < 0xd800 ∨ 0xdfff < c.toNat ∧ c.toNat < 0x110000 := c.valid
  unfold escapeChar
  split_ifs with hquote hslash hn hr ht hf hb hplain hbasic
  · rw [hquote]
    rfl
  · rw [hslash]
    rfl
  · rw [hn]
    rfl
  · rw [hr]
    rfl
  · rw [ht]
    rfl
  · rw [hf]
    rfl
  · rw [hb]
    rfl
  · rw [String.toList_ofList]
    have hlow : ' '.toNat ≤ c.toNat := hplain.1
    exact readChar_plain hslash (by simpa using hlow) rest
  · rw [readChar_u, readUnicode_single (readHex_hex4 hbasic rest) (by omega), Char.ofNat_toNat]
  · rw [JsonText.toList_u_u, readChar_u]
    have hread := readUnicode_pair
      (readHex_hex4 (n := 0xd800 + (c.toNat - 0x10000) / 1024 % 1024) (by omega)
        ('\\' :: 'u' :: ((hex4 (0xdc00 + (c.toNat - 0x10000) % 1024)).toList ++ rest)))
      (by omega) (readHex_hex4 (by omega) rest) (by omega)
    have hsum : 0x10000 + (0xd800 + (c.toNat - 0x10000) / 1024 % 1024 - 0xd800) * 1024 +
        (0xdc00 + (c.toNat - 0x10000) % 1024 - 0xdc00) = c.toNat := by
      omega
    rw [hsum, Char.ofNat_toNat] at hread
    exact hread

theorem escapeChar_ne_nil (c : Char) : (escapeChar c).toList ≠ [] := by
  intro h
  have hread := readChar_escapeChar c []
  rw [h] at hread
  exact nomatch hread

theorem toList_escape_cons (c : Char) (cs : List Char) :
    (escape (c :: cs)).toList = (escapeChar c).toList ++ (escape cs).toList := by
  rw [escape, String.toList_append]

theorem unescape_escape : ∀ (cs : List Char) (fuel : Nat), cs.length ≤ fuel →
    unescape fuel (escape cs).toList = some cs
  | [], fuel, _ => by
    cases fuel <;> rfl
  | c :: cs, fuel, h => by
    obtain ⟨fuel, rfl⟩ : ∃ k, fuel = k + 1 := ⟨fuel - 1, by rw [List.length_cons] at h; omega⟩
    have hread := readChar_escapeChar c (escape cs).toList
    rw [toList_escape_cons]
    obtain ⟨x, l, hcons⟩ := List.exists_cons_of_ne_nil (escapeChar_ne_nil c)
    rw [hcons, List.cons_append] at hread ⊢
    unfold unescape
    rw [hread]
    dsimp only
    rw [unescape_escape cs fuel (by rw [List.length_cons] at h; omega)]
    rfl

theorem length_le_escape (cs : List Char) : cs.length ≤ (escape cs).toList.length := by
  induction cs with
  | nil => exact Nat.zero_le _
  | cons c cs ih =>
    rw [toList_escape_cons, List.length_append, List.length_cons]
    have hpos := List.length_pos_iff.mpr (escapeChar_ne_nil c)
    omega

theorem readString_escape (s : String) : readString (escape s.toList).toList = some s := by
  unfold readString
  rw [unescape_escape s.toList _ (length_le_escape _)]
  exact congrArg some String.ofList_toList

/-! ## Reading a text back -/

section

variable {F : Type} (f : FloatText F)

theorem feed_append (a b : List Char) (s : State F) :
    feed f (a ++ b) s = (feed f a s).bind (feed f b) := by
  induction a generalizing s with
  | nil => rfl
  | cons c a ih =>
    show (step f s c).bind (feed f (a ++ b)) = ((step f s c).bind (feed f a)).bind (feed f b)
    cases step f s c with
    | none => rfl
    | some s' => exact ih s'

/-- The text is taken into the string that is open. -/
def Scans (l : List Char) : Prop :=
  ∀ isKey rev stack, feed f l ⟨.string isKey rev false, stack⟩ =
    some ⟨.string isKey (l.reverse ++ rev) false, stack⟩

variable {f}

theorem Scans.append {a b : List Char} (ha : Scans f a) (hb : Scans f b) :
    Scans f (a ++ b) := by
  intro isKey rev stack
  rw [feed_append, ha isKey rev stack]
  show feed f b _ = _
  rw [hb, List.reverse_append, List.append_assoc]

theorem scans_plain {l : List Char} (h : ∀ c ∈ l, c ≠ '"' ∧ c ≠ '\\') : Scans f l := by
  induction l with
  | nil => exact fun _ _ _ => rfl
  | cons c l ih =>
    obtain ⟨hquote, hslash⟩ := h c List.mem_cons_self
    intro isKey rev stack
    have hstep : step f ⟨.string isKey rev false, stack⟩ c =
        some ⟨.string isKey (c :: rev) false, stack⟩ := by
      show stepString isKey rev false stack c = _
      unfold stepString
      rw [if_neg Bool.false_ne_true, if_neg hslash, if_neg hquote]
    show (step f ⟨.string isKey rev false, stack⟩ c).bind (feed f l) = _
    rw [hstep]
    show feed f l _ = _
    rw [ih (fun c' hc' => h c' (List.mem_cons_of_mem _ hc')) isKey (c :: rev) stack,
      List.reverse_cons, List.append_assoc]
    rfl

/-- What stands behind a backslash is taken, whatever it is. -/
theorem scans_escaped (c : Char) : Scans f ['\\', c] :=
  fun _ _ _ => rfl

theorem scans_hex4 (n : Nat) : Scans f (hex4 n).toList := by
  have hdigits : ∀ m, m < 16 → Nat.digitChar m ≠ '"' ∧ Nat.digitChar m ≠ '\\' := by decide
  refine scans_plain fun c hc => ?_
  rw [show (hex4 n).toList = [Nat.digitChar (n / 4096 % 16), Nat.digitChar (n / 256 % 16),
    Nat.digitChar (n / 16 % 16), Nat.digitChar (n % 16)] from String.toList_ofList] at hc
  simp only [List.mem_cons, List.not_mem_nil, or_false] at hc
  rcases hc with rfl | rfl | rfl | rfl <;> exact hdigits _ (by omega)

theorem scans_escapeChar (c : Char) : Scans f (escapeChar c).toList := by
  unfold escapeChar
  split_ifs with hquote hslash hn hr ht hf hb hplain hbasic
  · exact scans_escaped '"'
  · exact scans_escaped '\\'
  · exact scans_escaped 'n'
  · exact scans_escaped 'r'
  · exact scans_escaped 't'
  · exact scans_escaped 'f'
  · exact scans_escaped 'b'
  · rw [String.toList_ofList]
    refine scans_plain fun c' hc' => ?_
    rw [List.mem_singleton.mp hc']
    exact ⟨hquote, hslash⟩
  · rw [String.toList_append, toList_u]
    exact (scans_escaped 'u').append (scans_hex4 _)
  · rw [String.toList_append, String.toList_append, String.toList_append, toList_u]
    exact (((scans_escaped 'u').append (scans_hex4 _)).append (scans_escaped 'u')).append
      (scans_hex4 _)

theorem scans_escape (cs : List Char) : Scans f (escape cs).toList := by
  induction cs with
  | nil => exact fun _ _ _ => rfl
  | cons c cs ih =>
    rw [toList_escape_cons]
    exact (scans_escapeChar c).append ih

theorem toList_dumpsStr (s : String) :
    (dumpsStr s).toList = '"' :: ((escape s.toList).toList ++ ['"']) := by
  rw [dumpsStr, String.toList_append, String.toList_append]
  rfl

/-- A string that is written is read up to its last quote. -/
theorem feed_string (s : String) (isKey : Bool) (stack : List (Frame F)) (rest : List Char) :
    feed f ((escape s.toList).toList ++ '"' :: rest) ⟨.string isKey [] false, stack⟩ =
      (if isKey then deliverKey s stack else deliver (.str s) stack).bind (feed f rest) := by
  rw [feed_append, scans_escape s.toList isKey [] stack]
  show (stepString isKey _ false stack '"').bind (feed f rest) = _
  unfold stepString
  rw [if_neg Bool.false_ne_true, if_neg (by decide), if_pos rfl, List.append_nil,
    List.reverse_reverse, readString_escape]

theorem feed_dumpsStr (s : String) (mayClose : Bool) (stack : List (Frame F)) (rest : List Char) :
    feed f ((dumpsStr s).toList ++ rest) ⟨.value mayClose, stack⟩ =
      (deliver (.str s) stack).bind (feed f rest) := by
  rw [toList_dumpsStr, List.cons_append, List.append_assoc]
  exact feed_string s false stack rest

theorem feed_dumpsStr_key (s : String) (mayClose : Bool) (stack : List (Frame F))
    (rest : List Char) :
    feed f ((dumpsStr s).toList ++ rest) ⟨.key mayClose, stack⟩ =
      (deliverKey s stack).bind (feed f rest) := by
  rw [toList_dumpsStr, List.cons_append, List.append_assoc]
  exact feed_string s true stack rest

theorem feed_word {l : List Char} (h : l.all wordChar = true) (rev : List Char)
    (stack : List (Frame F)) :
    feed f l ⟨.word rev, stack⟩ = some ⟨.word (l.reverse ++ rev), stack⟩ := by
  induction l generalizing rev with
  | nil => rfl
  | cons c l ih =>
    obtain ⟨hc, hl⟩ := Bool.and_eq_true_iff.mp h
    have hstep : step f ⟨.word rev, stack⟩ c = some ⟨.word (c :: rev), stack⟩ := if_pos hc
    show (step f ⟨.word rev, stack⟩ c).bind (feed f l) = _
    rw [hstep]
    show feed f l _ = _
    rw [ih hl (c :: rev), List.reverse_cons, List.append_assoc]
    rfl

/-- No character of a word opens or closes anything. -/
theorem stepValue_word {c : Char} (h : wordChar c = true) (mayClose : Bool)
    (stack : List (Frame F)) : stepValue mayClose stack c = some ⟨.word [c], stack⟩ := by
  have hne : ∀ x : Char, wordChar x = false → c ≠ x := by
    intro x hx hcx
    rw [hcx, hx] at h
    cases h
  have hspace : isWhitespace c = false := by
    unfold isWhitespace
    simp only [Bool.or_eq_false_iff, beq_eq_false_iff_ne]
    exact ⟨⟨⟨hne ' ' (by decide), hne '\t' (by decide)⟩, hne '\n' (by decide)⟩,
      hne '\r' (by decide)⟩
  unfold stepValue
  rw [if_neg (by rw [hspace]; exact Bool.false_ne_true), if_neg (hne _ (by decide)),
    if_neg (hne _ (by decide)), if_neg (hne _ (by decide)),
    if_neg (fun hclose => hne ']' (by decide) hclose.1), if_pos h]

theorem step_deliver {v : Json F} {stack : List (Frame F)} {s : State F}
    (h : deliver v stack = some s) (c : Char) : stepDelivered s c = step f s c := by
  cases stack with
  | nil =>
    obtain rfl := Option.some.inj h
    rfl
  | cons frame rest =>
    cases frame with
    | arr items =>
      obtain rfl := Option.some.inj h
      rfl
    | field items key =>
      obtain rfl := Option.some.inj h
      rfl
    | obj items => exact nomatch h

/-- A word is read up to the character behind it. -/
theorem feed_dumps_word {l : List Char} {v : Json F} (hread : readWord f l = some v)
    (hne : l ≠ []) (hall : l.all wordChar = true) (mayClose : Bool) (stack : List (Frame F))
    {c : Char} (hc : wordChar c = false) (rest : List Char) :
    feed f (l ++ c :: rest) ⟨.value mayClose, stack⟩ =
      (deliver v stack).bind (feed f (c :: rest)) := by
  obtain ⟨x, l, rfl⟩ := List.exists_cons_of_ne_nil hne
  obtain ⟨hx, hl⟩ := Bool.and_eq_true_iff.mp hall
  show (stepValue mayClose stack x).bind (feed f (l ++ c :: rest)) = _
  rw [stepValue_word hx]
  show feed f (l ++ c :: rest) _ = _
  rw [feed_append, feed_word hl]
  show (stepWord f (l.reverse ++ [x]) stack c).bind (feed f rest) = _
  unfold stepWord
  rw [if_neg (by rw [hc]; exact Bool.false_ne_true), List.reverse_append, List.reverse_reverse]
  show (match readWord f (x :: l) with
    | some v => (deliver v stack).bind fun s => stepDelivered s c
    | none => none).bind (feed f rest) = _
  rw [hread]
  show ((deliver v stack).bind fun s => stepDelivered s c).bind (feed f rest) = _
  cases hdeliver : deliver v stack with
  | none => rfl
  | some s =>
    show (stepDelivered s c).bind (feed f rest) = (step f s c).bind (feed f rest)
    rw [step_deliver hdeliver]

theorem dumpsMore_cons (items : List (Json F)) (rest : List Char) :
    ∃ c l, dumpsMore f items ++ ']' :: rest = c :: l ∧ wordChar c = false := by
  cases items with
  | nil => exact ⟨']', rest, by rw [dumpsMore, List.nil_append], by decide⟩
  | cons item items => exact ⟨',', _, by rw [dumpsMore]; rfl, by decide⟩

theorem dumpsMoreEntries_cons (items : List (String × Json F)) (rest : List Char) :
    ∃ c l, dumpsMoreEntries f items ++ '\x7d' :: rest = c :: l ∧ wordChar c = false := by
  cases items with
  | nil => exact ⟨'\x7d', rest, by rw [dumpsMoreEntries, List.nil_append], by decide⟩
  | cons item items => exact ⟨',', _, by rw [dumpsMoreEntries]; rfl, by decide⟩

mutual

/-- A value is read up to the character behind it. -/
theorem feed_dumps : ∀ (v : Json F) (mayClose : Bool) (stack : List (Frame F)) {c : Char},
    wordChar c = false → ∀ rest, feed f (dumps f v ++ c :: rest) ⟨.value mayClose, stack⟩ =
      (deliver v stack).bind (feed f (c :: rest))
  | .null, mayClose, stack, _, hc, rest =>
    feed_dumps_word (l := "null".toList) rfl (by decide) (by decide) mayClose stack hc rest
  | .bool true, mayClose, stack, _, hc, rest =>
    feed_dumps_word (l := "true".toList) rfl (by decide) (by decide) mayClose stack hc rest
  | .bool false, mayClose, stack, _, hc, rest =>
    feed_dumps_word (l := "false".toList) rfl (by decide) (by decide) mayClose stack hc rest
  | .int n, mayClose, stack, _, hc, rest =>
    feed_dumps_word (readWord_intText f n) (intText_ne_nil n) (intText_chars n) mayClose stack
      hc rest
  | .float x, mayClose, stack, _, hc, rest =>
    feed_dumps_word (readWord_text f x) (f.text_ne_nil x) (f.text_chars x) mayClose stack
      hc rest
  | .str s, mayClose, stack, c, _, rest => feed_dumpsStr s mayClose stack (c :: rest)
  | .arr [], mayClose, stack, c, _, rest => rfl
  | .arr (item :: items), mayClose, stack, c, _, rest => by
    obtain ⟨x, l, hcons, hx⟩ := dumpsMore_cons (f := f) items (c :: rest)
    have hitem := feed_dumps item true (.arr [] :: stack) hx l
    rw [← hcons] at hitem
    rw [dumps, dumpsItems, List.cons_append, List.append_assoc, List.append_assoc]
    show feed f (dumps f item ++ (dumpsMore f items ++ ']' :: c :: rest)) _ = _
    refine hitem.trans ?_
    exact feed_dumpsMore items [item] stack (c :: rest)
  | .obj items, mayClose, stack, c, _, rest => feed_dumps_obj items mayClose stack (c :: rest)

/-- An object is read up to its last bracket. -/
theorem feed_dumps_obj : ∀ (items : List (String × Json F)) (mayClose : Bool)
    (stack : List (Frame F)) (rest : List Char),
    feed f (dumps f (.obj items) ++ rest) ⟨.value mayClose, stack⟩ =
      (deliver (.obj items) stack).bind (feed f rest)
  | [], mayClose, stack, rest => rfl
  | (key, value) :: items, mayClose, stack, rest => by
    obtain ⟨x, l, hcons, hx⟩ := dumpsMoreEntries_cons (f := f) items rest
    have hvalue := feed_dumps value false (.field [] key :: stack) hx l
    rw [← hcons] at hvalue
    rw [dumps, dumpsEntries]
    simp only [List.cons_append, List.append_assoc]
    show feed f ((dumpsStr key).toList ++ (": ".toList ++ (dumps f value ++
      (dumpsMoreEntries f items ++ '\x7d' :: rest)))) ⟨.key true, .obj [] :: stack⟩ = _
    rw [feed_dumpsStr_key]
    show feed f (dumps f value ++ _) ⟨.value false, .field [] key :: stack⟩ = _
    refine hvalue.trans ?_
    exact feed_dumpsMoreEntries items [(key, value)] stack rest

theorem feed_dumpsMore : ∀ (items acc : List (Json F)) (stack : List (Frame F))
    (rest : List Char),
    feed f (dumpsMore f items ++ ']' :: rest) ⟨.after, .arr acc :: stack⟩ =
      (deliver (.arr (acc.reverse ++ items)) stack).bind (feed f rest)
  | [], acc, stack, rest => by
    rw [List.append_nil]
    rfl
  | item :: items, acc, stack, rest => by
    obtain ⟨x, l, hcons, hx⟩ := dumpsMore_cons (f := f) items rest
    have hitem := feed_dumps item false (.arr acc :: stack) hx l
    rw [← hcons] at hitem
    rw [dumpsMore, List.append_assoc, List.append_assoc]
    show feed f (dumps f item ++ (dumpsMore f items ++ ']' :: rest))
      ⟨.value false, .arr acc :: stack⟩ = _
    refine hitem.trans ?_
    have hmore := feed_dumpsMore items (item :: acc) stack rest
    rw [List.reverse_cons, List.append_assoc] at hmore
    exact hmore

theorem feed_dumpsMoreEntries : ∀ (items acc : List (String × Json F)) (stack : List (Frame F))
    (rest : List Char),
    feed f (dumpsMoreEntries f items ++ '\x7d' :: rest) ⟨.after, .obj acc :: stack⟩ =
      (deliver (.obj (acc.reverse ++ items)) stack).bind (feed f rest)
  | [], acc, stack, rest => by
    rw [List.append_nil]
    rfl
  | (key, value) :: items, acc, stack, rest => by
    obtain ⟨x, l, hcons, hx⟩ := dumpsMoreEntries_cons (f := f) items rest
    have hvalue := feed_dumps value false (.field acc key :: stack) hx l
    rw [← hcons] at hvalue
    rw [dumpsMoreEntries]
    simp only [List.append_assoc]
    show feed f ((dumpsStr key).toList ++ (": ".toList ++ (dumps f value ++
      (dumpsMoreEntries f items ++ '\x7d' :: rest)))) ⟨.key false, .obj acc :: stack⟩ = _
    rw [feed_dumpsStr_key]
    show feed f (dumps f value ++ _) ⟨.value false, .field acc key :: stack⟩ = _
    refine hvalue.trans ?_
    have hmore := feed_dumpsMoreEntries items ((key, value) :: acc) stack rest
    rw [List.reverse_cons, List.append_assoc] at hmore
    exact hmore

end

end

/-! ## Texts that were cut -/

section

variable {F : Type} {f : FloatText F}

theorem loads_dumps_obj (items : List (String × Json F)) :
    loads f (dumps f (.obj items)) = some (.obj items) := by
  have hfeed := feed_dumps_obj (f := f) items false [] []
  rw [List.append_nil] at hfeed
  unfold loads
  rw [start, hfeed]
  rfl

/-- The text is complete. -/
def State.Done (s : State F) : Prop := ∃ v, s.mode = .done v

def Mode.isDone : Mode F → Bool
  | .done _ => true
  | _ => false

theorem State.Done.isDone {s : State F} (h : s.Done) : s.mode.isDone = true := by
  obtain ⟨v, hv⟩ := h
  rw [hv]
  rfl

/-- A container is open. -/
structure State.Deep (s : State F) : Prop where
  stack_ne : s.stack ≠ []
  not_done : ¬ s.Done

theorem deliver_deep {v : Json F} {stack : List (Frame F)} {s : State F}
    (h : deliver v stack = some s) : s.Deep ∨ stack = [] ∧ s.Done := by
  cases stack with
  | nil =>
    obtain rfl := Option.some.inj h
    exact .inr ⟨rfl, v, rfl⟩
  | cons frame rest =>
    left
    cases frame with
    | arr items =>
      obtain rfl := Option.some.inj h
      exact ⟨List.cons_ne_nil _ _, fun hdone => nomatch hdone⟩
    | field items key =>
      obtain rfl := Option.some.inj h
      exact ⟨List.cons_ne_nil _ _, fun hdone => nomatch hdone⟩
    | obj items => exact nomatch h

theorem deliverKey_deep {key : String} {stack : List (Frame F)} {s : State F}
    (h : deliverKey key stack = some s) : s.Deep := by
  unfold deliverKey at h
  split at h
  · obtain rfl := Option.some.inj h
    exact ⟨List.cons_ne_nil _ _, fun hdone => nomatch hdone⟩
  · exact nomatch h

theorem stepAfter_deep {stack : List (Frame F)} (hne : stack ≠ []) {c : Char} {s : State F}
    (h : stepAfter stack c = some s) : s.Deep ∨ s.Done := by
  unfold stepAfter at h
  split at h
  · obtain rfl := Option.some.inj h
    exact .inl ⟨hne, fun hdone => nomatch hdone⟩
  · split at h
    · split_ifs at h with hcomma hclose
      · obtain rfl := Option.some.inj h
        exact .inl ⟨hne, fun hdone => nomatch hdone⟩
      · exact (deliver_deep h).imp_right And.right
    · split_ifs at h with hcomma hclose
      · obtain rfl := Option.some.inj h
        exact .inl ⟨hne, fun hdone => nomatch hdone⟩
      · exact (deliver_deep h).imp_right And.right
    · exact nomatch h

theorem stepDelivered_deep {s s' : State F} (h : s.Deep) {c : Char}
    (hstep : stepDelivered s c = some s') : s'.Deep ∨ s'.Done := by
  unfold stepDelivered at hstep
  split at hstep
  · exact stepAfter_deep h.stack_ne hstep
  next v hmode => exact absurd ⟨v, hmode⟩ h.not_done
  · exact nomatch hstep

/-- A text that is complete takes white space only. -/
theorem stepDelivered_done {s s' : State F} (h : s.Done) {c : Char}
    (hstep : stepDelivered s c = some s') : isWhitespace c = true ∧ s' = s := by
  obtain ⟨v, hv⟩ := h
  obtain ⟨mode, stack⟩ := s
  obtain rfl : mode = .done v := hv
  have heq : stepDelivered (⟨.done v, stack⟩ : State F) c =
    if isWhitespace c then some ⟨.done v, stack⟩ else none := rfl
  rw [heq] at hstep
  split at hstep
  next hspace => exact ⟨hspace, (Option.some.inj hstep).symm⟩
  next => exact nomatch hstep

theorem step_done {s s' : State F} (h : s.Done) {c : Char} (hstep : step f s c = some s') :
    isWhitespace c = true ∧ s' = s := by
  obtain ⟨v, hv⟩ := h
  refine stepDelivered_done ⟨v, hv⟩ ?_
  unfold step at hstep
  rw [hv] at hstep
  exact hstep

theorem step_deep {s s' : State F} (h : s.Deep) {c : Char} (hstep : step f s c = some s') :
    s'.Deep ∨ s'.Done := by
  obtain ⟨mode, stack⟩ := s
  obtain ⟨hne, hdone⟩ := h
  have hkeep : ∀ {m : Mode F}, m.isDone = false → ∀ {t : List (Frame F)}, t ≠ [] →
      State.Deep ⟨m, t⟩ := by
    intro m hm t ht
    refine ⟨ht, fun hd => ?_⟩
    have htrue : m.isDone = true := hd.isDone
    rw [hm] at htrue
    cases htrue
  cases mode with
  | value mayClose =>
    have hvalue : stepValue mayClose stack c = some s' := hstep
    unfold stepValue at hvalue
    split_ifs at hvalue
    · exact .inl (Option.some.inj hvalue ▸ hkeep rfl hne)
    · exact .inl (Option.some.inj hvalue ▸ hkeep rfl hne)
    · exact .inl (Option.some.inj hvalue ▸ hkeep rfl (List.cons_ne_nil _ _))
    · exact .inl (Option.some.inj hvalue ▸ hkeep rfl (List.cons_ne_nil _ _))
    · exact stepAfter_deep hne hvalue
    · exact .inl (Option.some.inj hvalue ▸ hkeep rfl hne)
  | key mayClose =>
    have hkey : stepKey mayClose stack c = some s' := hstep
    unfold stepKey at hkey
    split_ifs at hkey
    · exact .inl (Option.some.inj hkey ▸ hkeep rfl hne)
    · exact .inl (Option.some.inj hkey ▸ hkeep rfl hne)
    · exact stepAfter_deep hne hkey
  | colon =>
    have hcolon : (if isWhitespace c then some (⟨.colon, stack⟩ : State F)
      else if c = ':' then some ⟨.value false, stack⟩ else none) = some s' := hstep
    split_ifs at hcolon
    · exact .inl (Option.some.inj hcolon ▸ hkeep rfl hne)
    · exact .inl (Option.some.inj hcolon ▸ hkeep rfl hne)
  | after => exact stepAfter_deep hne hstep
  | word rev =>
    have hword : stepWord f rev stack c = some s' := hstep
    unfold stepWord at hword
    split at hword
    · exact .inl (Option.some.inj hword ▸ hkeep rfl hne)
    · split at hword
      · obtain ⟨t, hdeliver, hnext⟩ := Option.bind_eq_some_iff.mp hword
        rcases deliver_deep hdeliver with hdeep | ⟨hnil, _⟩
        · exact stepDelivered_deep hdeep hnext
        · exact absurd hnil hne
      · cases hword
  | string isKey rev escaped =>
    have hstring : stepString isKey rev escaped stack c = some s' := hstep
    unfold stepString at hstring
    split_ifs at hstring
    · exact .inl (Option.some.inj hstring ▸ hkeep rfl hne)
    · exact .inl (Option.some.inj hstring ▸ hkeep rfl hne)
    · split at hstring
      · exact .inl (deliverKey_deep hstring)
      · cases hstring
    · split at hstring
      · exact (deliver_deep hstring).imp_right And.right
      · cases hstring
    · exact .inl (Option.some.inj hstring ▸ hkeep rfl hne)
  | done v => exact absurd ⟨v, rfl⟩ hdone

theorem feed_done {l : List Char} {s s' : State F} (h : s.Done)
    (hfeed : feed f l s = some s') : (∀ c ∈ l, isWhitespace c = true) ∧ s' = s := by
  induction l with
  | nil => exact ⟨fun c hc => (nomatch hc), (Option.some.inj hfeed).symm⟩
  | cons c l ih =>
    obtain ⟨t, hstep, hrest⟩ := Option.bind_eq_some_iff.mp hfeed
    obtain ⟨hspace, rfl⟩ := step_done h hstep
    obtain ⟨hall, heq⟩ := ih hrest
    refine ⟨fun c' hc' => ?_, heq⟩
    rcases List.mem_cons.mp hc' with rfl | hc'
    · exact hspace
    · exact hall c' hc'

theorem feed_deep {l : List Char} {s s' : State F} (h : s.Deep)
    (hfeed : feed f l s = some s') : s'.Deep ∨ s'.Done := by
  induction l generalizing s with
  | nil => exact .inl (Option.some.inj hfeed ▸ h)
  | cons c l ih =>
    obtain ⟨t, hstep, hrest⟩ := Option.bind_eq_some_iff.mp hfeed
    rcases step_deep h hstep with hdeep | hdone
    · exact ih hdeep hrest
    · obtain ⟨_, rfl⟩ := feed_done hdone hrest
      exact .inr hdone

/-! ### The containers around a text -/

/-- The same, inside of more containers. -/
def State.under (s : State F) (outer : List (Frame F)) : State F :=
  ⟨s.mode, s.stack ++ outer⟩

variable {outer : List (Frame F)}

theorem deliver_under {v : Json F} {stack : List (Frame F)} {s : State F}
    (h : deliver v stack = some s) (hdone : ¬ s.Done) :
    deliver v (stack ++ outer) = some (s.under outer) := by
  cases stack with
  | nil => exact absurd ⟨v, congrArg State.mode (Option.some.inj h).symm⟩ hdone
  | cons frame rest =>
    cases frame with
    | arr items =>
      obtain rfl := Option.some.inj h
      rfl
    | field items key =>
      obtain rfl := Option.some.inj h
      rfl
    | obj items => exact nomatch h

theorem deliverKey_under {key : String} {stack : List (Frame F)} {s : State F}
    (h : deliverKey key stack = some s) :
    deliverKey key (stack ++ outer) = some (s.under outer) := by
  unfold deliverKey at h
  split at h
  · obtain rfl := Option.some.inj h
    rfl
  · exact nomatch h

theorem stepAfter_under {stack : List (Frame F)} {c : Char} {s : State F}
    (h : stepAfter stack c = some s) (hdone : ¬ s.Done) :
    stepAfter (stack ++ outer) c = some (s.under outer) := by
  unfold stepAfter at h ⊢
  split at h
  next hspace =>
    obtain rfl := Option.some.inj h
    exact if_pos hspace
  next hspace =>
    rw [if_neg hspace]
    split at h
    next items rest =>
      split_ifs at h with hcomma hclose
      · obtain rfl := Option.some.inj h
        exact if_pos hcomma
      · exact (if_neg hcomma).trans ((if_pos hclose).trans (deliver_under h hdone))
    next items rest =>
      split_ifs at h with hcomma hclose
      · obtain rfl := Option.some.inj h
        exact if_pos hcomma
      · exact (if_neg hcomma).trans ((if_pos hclose).trans (deliver_under h hdone))
    next => exact nomatch h

theorem stepDelivered_under {s s' : State F} {c : Char} (h : stepDelivered s c = some s')
    (hdone : ¬ s'.Done) : stepDelivered (s.under outer) c = some (s'.under outer) := by
  obtain ⟨mode, stack⟩ := s
  cases mode with
  | after => exact stepAfter_under h hdone
  | done v =>
    obtain ⟨_, rfl⟩ := stepDelivered_done ⟨v, rfl⟩ h
    exact absurd ⟨v, rfl⟩ hdone
  | value mayClose => exact nomatch h
  | key mayClose => exact nomatch h
  | colon => exact nomatch h
  | word rev => exact nomatch h
  | string isKey rev escaped => exact nomatch h

theorem step_under {s s' : State F} {c : Char} (h : step f s c = some s')
    (hdone : ¬ s'.Done) : step f (s.under outer) c = some (s'.under outer) := by
  obtain ⟨mode, stack⟩ := s
  cases mode with
  | value mayClose =>
    have hvalue : stepValue mayClose stack c = some s' := h
    show stepValue mayClose (stack ++ outer) c = _
    unfold stepValue at hvalue ⊢
    split_ifs at hvalue ⊢
    · exact Option.some.inj hvalue ▸ rfl
    · exact Option.some.inj hvalue ▸ rfl
    · exact Option.some.inj hvalue ▸ rfl
    · exact Option.some.inj hvalue ▸ rfl
    · exact stepAfter_under hvalue hdone
    · exact Option.some.inj hvalue ▸ rfl
  | key mayClose =>
    have hkey : stepKey mayClose stack c = some s' := h
    show stepKey mayClose (stack ++ outer) c = _
    unfold stepKey at hkey ⊢
    split_ifs at hkey ⊢
    · exact Option.some.inj hkey ▸ rfl
    · exact Option.some.inj hkey ▸ rfl
    · exact stepAfter_under hkey hdone
  | colon =>
    have hcolon : (if isWhitespace c then some (⟨.colon, stack⟩ : State F)
      else if c = ':' then some ⟨.value false, stack⟩ else none) = some s' := h
    show (if isWhitespace c then some (⟨.colon, stack ++ outer⟩ : State F)
      else if c = ':' then some ⟨.value false, stack ++ outer⟩ else none) = _
    split_ifs at hcolon ⊢
    · exact Option.some.inj hcolon ▸ rfl
    · exact Option.some.inj hcolon ▸ rfl
  | after => exact stepAfter_under h hdone
  | word rev =>
    have hword : stepWord f rev stack c = some s' := h
    show stepWord f rev (stack ++ outer) c = _
    unfold stepWord at hword ⊢
    split at hword
    next hchar =>
      rw [if_pos hchar]
      exact Option.some.inj hword ▸ rfl
    next hchar =>
      rw [if_neg hchar]
      split at hword
      next v hread =>
        obtain ⟨t, hdeliver, hnext⟩ := Option.bind_eq_some_iff.mp hword
        have hopen : ¬ t.Done := by
          intro ht
          obtain ⟨_, rfl⟩ := stepDelivered_done ht hnext
          exact hdone ht
        rw [deliver_under hdeliver hopen]
        exact stepDelivered_under hnext hdone
      next => exact nomatch hword
  | string isKey rev escaped =>
    have hstring : stepString isKey rev escaped stack c = some s' := h
    show stepString isKey rev escaped (stack ++ outer) c = _
    unfold stepString at hstring ⊢
    split_ifs at hstring ⊢
    · exact Option.some.inj hstring ▸ rfl
    · exact Option.some.inj hstring ▸ rfl
    · split at hstring
      · exact deliverKey_under hstring
      · exact nomatch hstring
    · split at hstring
      · exact deliver_under hstring hdone
      · exact nomatch hstring
    · exact Option.some.inj hstring ▸ rfl
  | done v =>
    obtain ⟨_, rfl⟩ := step_done ⟨v, rfl⟩ h
    exact absurd ⟨v, rfl⟩ hdone

theorem feed_under {l : List Char} {s s' : State F} (h : feed f l s = some s')
    (hdone : ¬ s'.Done) : feed f l (s.under outer) = some (s'.under outer) := by
  induction l generalizing s with
  | nil => exact congrArg (fun t : State F => some (t.under outer)) (Option.some.inj h)
  | cons c l ih =>
    obtain ⟨t, hstep, hrest⟩ := Option.bind_eq_some_iff.mp h
    have hopen : ¬ t.Done := by
      intro ht
      obtain ⟨_, rfl⟩ := feed_done ht hrest
      exact hdone ht
    show (step f (s.under outer) c).bind (feed f l) = _
    rw [step_under hstep hopen]
    exact ih hrest

/-! ### Pieces of texts, one behind the other -/

/-- What was written of the text of an object whose first key begins with a letter. -/
structure Piece (f : FloatText F) (q : List Char) : Prop where
  ne_nil : q ≠ []
  of_text : ∃ items : List (String × Json F), q <+: dumps f (.obj items) ∧
    ∃ c l, dumps f (.obj items) = '\x7b' :: '"' :: c :: l ∧ c.isAlpha = true

/-- A piece ends in front of the key, at its quote, or behind its first letter. -/
theorem Piece.cases {q : List Char} (h : Piece f q) :
    q = ['\x7b'] ∨ q = ['\x7b', '"'] ∨ ∃ c l, q = '\x7b' :: '"' :: c :: l ∧ c.isAlpha = true := by
  obtain ⟨hne, items, hle, c, l, htext, hc⟩ := h
  rw [htext] at hle
  rcases List.prefix_cons_iff.mp hle with rfl | ⟨q₁, rfl, hle₁⟩
  · exact absurd rfl hne
  rcases List.prefix_cons_iff.mp hle₁ with rfl | ⟨q₂, rfl, hle₂⟩
  · exact .inl rfl
  rcases List.prefix_cons_iff.mp hle₂ with rfl | ⟨q₃, rfl, _⟩
  · exact .inr (.inl rfl)
  exact .inr (.inr ⟨c, q₃, rfl, hc⟩)

theorem Piece.cons {q : List Char} (h : Piece f q) : ∃ l, q = '\x7b' :: l := by
  rcases h.cases with rfl | rfl | ⟨c, l, rfl, _⟩
  · exact ⟨_, rfl⟩
  · exact ⟨_, rfl⟩
  · exact ⟨_, rfl⟩

theorem getLast?_dumps_obj (items : List (String × Json F)) :
    (dumps f (.obj items)).getLast? = some '\x7d' := by
  rw [dumps, ← List.cons_append]
  exact List.getLast?_concat ..

/-- Where the reader of a text that was cut stops: inside of it. -/
theorem feed_cut {items : List (String × Json F)} {q r : List Char}
    (htext : dumps f (.obj items) = q ++ r) (hq : q ≠ []) (hr : r ≠ []) :
    ∃ s, feed f q start = some s ∧ s.Deep := by
  have hfeed := feed_dumps_obj (f := f) items false [] []
  rw [List.append_nil, htext, feed_append] at hfeed
  obtain ⟨s, hs, hrest⟩ := Option.bind_eq_some_iff.mp hfeed
  refine ⟨s, hs, ?_⟩
  obtain ⟨l, rfl⟩ : ∃ l, q = '\x7b' :: l := by
    obtain ⟨c, l, rfl⟩ := List.exists_cons_of_ne_nil hq
    rw [dumps, List.cons_append] at htext
    obtain ⟨rfl, _⟩ := List.cons.inj htext
    exact ⟨l, rfl⟩
  have hopen : State.Deep (⟨.key true, [.obj []]⟩ : State F) :=
    ⟨List.cons_ne_nil _ _, fun hdone => nomatch hdone⟩
  have hs' : feed f l ⟨.key true, [.obj []]⟩ = some s := hs
  rcases feed_deep hopen hs' with hdeep | hdone
  · exact hdeep
  · -- the last bracket is still to come
    obtain ⟨hspace, _⟩ := feed_done hdone hrest
    have hlast := getLast?_dumps_obj (f := f) items
    rw [htext, List.getLast?_append_of_ne_nil _ hr] at hlast
    exact absurd (hspace _ (List.mem_of_getLast? hlast)) (by decide)

theorem stepAfter_bracket (stack : List (Frame F)) : stepAfter stack '\x7b' = none := by
  unfold stepAfter
  rw [if_neg (by decide)]
  split
  · rw [if_neg (by decide), if_neg (by decide)]
  · rw [if_neg (by decide), if_neg (by decide)]
  · rfl

theorem stepDelivered_bracket (s : State F) : stepDelivered s '\x7b' = none := by
  unfold stepDelivered
  split
  · exact stepAfter_bracket s.stack
  · exact if_neg (by decide)
  · rfl

/-- No letter stands behind a key or a value that is a string. -/
theorem step_letter {s : State F} (h : s.mode = .colon ∨ s.mode = .after) {c : Char}
    (hc : c.isAlpha = true) : step f s c = none := by
  have hne : ∀ x : Char, x.isAlpha = false → c ≠ x := by
    intro x hx hcx
    rw [hcx, hx] at hc
    cases hc
  have hspace : ¬ isWhitespace c = true := by
    unfold isWhitespace
    simp only [Bool.or_eq_true, beq_iff_eq, not_or]
    exact ⟨⟨⟨hne ' ' (by decide), hne '\t' (by decide)⟩, hne '\n' (by decide)⟩,
      hne '\r' (by decide)⟩
  obtain ⟨mode, stack⟩ := s
  rcases h with rfl | rfl
  · exact (if_neg hspace).trans (if_neg (hne ':' (by decide)))
  · show stepAfter stack c = none
    unfold stepAfter
    rw [if_neg hspace]
    split
    · rw [if_neg (hne _ (by decide)), if_neg (hne _ (by decide))]
    · rw [if_neg (hne _ (by decide)), if_neg (hne _ (by decide))]
    · rfl

/-- A string that ends leaves its container open, and takes no letter. -/
theorem stepString_quote {isKey : Bool} {rev : List Char} {stack : List (Frame F)}
    (hne : stack ≠ []) {s : State F} (h : stepString isKey rev false stack '"' = some s) :
    s.Deep ∧ (s.mode = .colon ∨ s.mode = .after) := by
  unfold stepString at h
  rw [if_neg Bool.false_ne_true, if_neg (by decide), if_pos rfl] at h
  split at h
  next text _ =>
    cases isKey with
    | true =>
      have hkey : deliverKey text stack = some s := h
      refine ⟨deliverKey_deep hkey, .inl ?_⟩
      unfold deliverKey at hkey
      split at hkey
      · exact congrArg State.mode (Option.some.inj hkey).symm
      · exact nomatch hkey
    | false =>
      have hvalue : deliver (.str text) stack = some s := h
      rcases deliver_deep hvalue with hdeep | ⟨hnil, _⟩
      · refine ⟨hdeep, .inr ?_⟩
        cases stack with
        | nil => exact absurd rfl hne
        | cons frame rest =>
          cases frame with
          | arr items => exact congrArg State.mode (Option.some.inj hvalue).symm
          | field items key => exact congrArg State.mode (Option.some.inj hvalue).symm
          | obj items => exact nomatch hvalue
      · exact absurd hnil hne
  next => exact nomatch h

/-- A piece inside of a container leaves it open. -/
theorem feed_piece {q : List Char} (hq : Piece f q) {s s' : State F} (h : s.Deep)
    (hfeed : feed f q s = some s') : s'.Deep := by
  obtain ⟨mode, stack⟩ := s
  have hne : stack ≠ [] := h.stack_ne
  cases mode with
  | value mayClose =>
    obtain ⟨items, ⟨r, htext⟩, _⟩ := hq.of_text
    obtain ⟨l, rfl⟩ := hq.cons
    rcases eq_or_ne r [] with rfl | hr
    · -- the whole text: a value of the container
      have hvalue := feed_dumps_obj (f := f) items mayClose stack []
      rw [List.append_nil, ← htext, List.append_nil, hfeed] at hvalue
      obtain ⟨t, hdeliver, ht⟩ := Option.bind_eq_some_iff.mp hvalue.symm
      obtain rfl := Option.some.inj ht
      rcases deliver_deep hdeliver with hdeep | ⟨hnil, _⟩
      · exact hdeep
      · exact absurd hnil hne
    · obtain ⟨t, ht, hdeep⟩ := feed_cut htext.symm (List.cons_ne_nil _ _) hr
      have hunder : feed f ('\x7b' :: l) (start.under stack) = some (t.under stack) :=
        feed_under ht hdeep.not_done
      have heq : feed f ('\x7b' :: l) (⟨.value mayClose, stack⟩ : State F) =
          feed f ('\x7b' :: l) (start.under stack) := rfl
      rw [heq, hunder] at hfeed
      obtain rfl := Option.some.inj hfeed
      exact ⟨fun hnil => hdeep.stack_ne (List.append_eq_nil_iff.mp hnil).1, hdeep.not_done⟩
  | key mayClose =>
    obtain ⟨l, rfl⟩ := hq.cons
    exact nomatch hfeed
  | colon =>
    obtain ⟨l, rfl⟩ := hq.cons
    exact nomatch hfeed
  | after =>
    obtain ⟨l, rfl⟩ := hq.cons
    have hnone : feed f ('\x7b' :: l) (⟨.after, stack⟩ : State F) =
        (stepAfter stack '\x7b').bind (feed f l) := rfl
    rw [hnone, stepAfter_bracket] at hfeed
    exact nomatch hfeed
  | word rev =>
    obtain ⟨l, rfl⟩ := hq.cons
    obtain ⟨t, hstep, _⟩ := Option.bind_eq_some_iff.mp hfeed
    have hword : stepWord f rev stack '\x7b' = some t := hstep
    unfold stepWord at hword
    rw [if_neg (by decide)] at hword
    split at hword
    · obtain ⟨u, _, hnext⟩ := Option.bind_eq_some_iff.mp hword
      rw [stepDelivered_bracket] at hnext
      exact nomatch hnext
    · exact nomatch hword
  | string isKey rev escaped =>
    -- the bracket is taken into the string, and the quote ends it
    have hbracket : ∀ l, feed f ('\x7b' :: l) (⟨.string isKey rev escaped, stack⟩ : State F) =
        feed f l ⟨.string isKey ('\x7b' :: rev) false, stack⟩ := by
      intro l
      cases escaped <;> rfl
    have hstill : State.Deep (⟨.string isKey ('\x7b' :: rev) false, stack⟩ : State F) :=
      ⟨hne, fun hdone => nomatch hdone⟩
    rcases hq.cases with rfl | rfl | ⟨c, l, rfl, hc⟩
    · rw [hbracket] at hfeed
      exact Option.some.inj hfeed ▸ hstill
    · rw [hbracket] at hfeed
      obtain ⟨t, hstep, ht⟩ := Option.bind_eq_some_iff.mp hfeed
      exact Option.some.inj ht ▸ (stepString_quote hne hstep).1
    · rw [hbracket] at hfeed
      obtain ⟨t, hstep, hrest⟩ := Option.bind_eq_some_iff.mp hfeed
      obtain ⟨u, hletter, _⟩ := Option.bind_eq_some_iff.mp hrest
      rw [step_letter (stepString_quote hne hstep).2 hc] at hletter
      exact nomatch hletter
  | done v => exact absurd ⟨v, rfl⟩ h.not_done

theorem feed_pieces {qs : List (List Char)} (hqs : ∀ q ∈ qs, Piece f q) {s s' : State F}
    (h : s.Deep) (hfeed : feed f qs.flatten s = some s') : s'.Deep := by
  induction qs generalizing s with
  | nil => exact Option.some.inj hfeed ▸ h
  | cons q qs ih =>
    rw [List.flatten_cons, feed_append] at hfeed
    obtain ⟨t, ht, hrest⟩ := Option.bind_eq_some_iff.mp hfeed
    exact ih (fun q' hq' => hqs q' (List.mem_cons_of_mem _ hq'))
      (feed_piece (hqs q List.mem_cons_self) h ht) hrest

theorem finish_deep {s : State F} (h : s.Deep) : finish f s = none := by
  unfold finish
  split
  next v hv => exact absurd ⟨v, hv⟩ h.not_done
  next => exact if_neg h.stack_ne
  next => rfl

/-- A part of the text of an object is no text. -/
theorem loads_cut {items : List (String × Json F)} {q r : List Char}
    (htext : dumps f (.obj items) = q ++ r) (hq : q ≠ []) (hr : r ≠ []) :
    loads f q = none := by
  obtain ⟨s, hs, hdeep⟩ := feed_cut htext hq hr
  unfold loads
  rw [hs]
  exact finish_deep hdeep

/-- Two or more pieces, one behind the other, are no text. -/
theorem loads_torn {p q : List Char} {qs : List (List Char)} (hp : Piece f p)
    (hq : Piece f q) (hqs : ∀ q' ∈ qs, Piece f q') :
    loads f (p ++ (q ++ qs.flatten)) = none := by
  unfold loads
  cases hfeed : feed f (p ++ (q ++ qs.flatten)) start with
  | none => rfl
  | some s =>
    show finish f s = none
    rw [feed_append] at hfeed
    obtain ⟨t, ht, hrest⟩ := Option.bind_eq_some_iff.mp hfeed
    obtain ⟨items, ⟨r, htext⟩, _⟩ := hp.of_text
    rcases eq_or_ne r [] with rfl | hr
    · -- the first piece is complete, and something follows
      rw [List.append_nil] at htext
      have hwhole := feed_dumps_obj (f := f) items false [] []
      rw [List.append_nil, ← htext] at hwhole
      have hdone : t.Done := by
        have heq : some t = some ⟨.done (.obj items), []⟩ := ht.symm.trans hwhole
        exact ⟨_, congrArg State.mode (Option.some.inj heq)⟩
      obtain ⟨l, rfl⟩ := hq.cons
      exact absurd ((feed_done hdone hrest).1 '\x7b' List.mem_cons_self) (by decide)
    · obtain ⟨u, hu, hdeep⟩ := feed_cut htext.symm hp.ne_nil hr
      obtain rfl := Option.some.inj (ht.symm.trans hu)
      have hpieces : ∀ q' ∈ q :: qs, Piece f q' := by
        intro q' hq'
        rcases List.mem_cons.mp hq' with rfl | hq'
        · exact hq
        · exact hqs q' hq'
      exact finish_deep (feed_pieces hpieces hdeep hrest)

/-- White space behind a text does not matter. -/
theorem loads_append_space {l w : List Char} {v : Json F} (h : loads f l = some v)
    (hw : ∀ c ∈ w, isWhitespace c = true) : loads f (l ++ w) = some v := by
  have hdone : ∀ {w : List Char}, (∀ c ∈ w, isWhitespace c = true) → ∀ stack,
      feed f w (⟨.done v, stack⟩ : State F) = some ⟨.done v, stack⟩ := by
    intro w hw stack
    induction w with
    | nil => rfl
    | cons c w ih =>
      have hstep : step f (⟨.done v, stack⟩ : State F) c = some ⟨.done v, stack⟩ :=
        if_pos (hw c List.mem_cons_self)
      show (step f (⟨.done v, stack⟩ : State F) c).bind (feed f w) = _
      rw [hstep]
      exact ih fun c' hc' => hw c' (List.mem_cons_of_mem _ hc')
  obtain ⟨s, hs, hfinish⟩ := Option.bind_eq_some_iff.mp h
  unfold loads
  rw [feed_append, hs]
  show (feed f w s).bind (finish f) = _
  obtain ⟨mode, stack⟩ := s
  cases mode with
  | done u =>
    obtain rfl : u = v := Option.some.inj hfinish
    rw [hdone hw]
    rfl
  | word rev =>
    cases w with
    | nil => exact hfinish
    | cons c w =>
      have hend : (if stack = [] then readWord f rev.reverse else none) = some v := hfinish
      split at hend
      next hnil =>
        -- the white space ends the word
        have hc := hw c List.mem_cons_self
        have hchar : wordChar c = false := by
          unfold isWhitespace at hc
          simp only [Bool.or_eq_true, beq_iff_eq] at hc
          rcases hc with ((rfl | rfl) | rfl) | rfl <;> decide
        have hstep : step f (⟨.word rev, stack⟩ : State F) c = some ⟨.done v, []⟩ := by
          show stepWord f rev stack c = _
          unfold stepWord
          rw [if_neg (by rw [hchar]; exact Bool.false_ne_true), hend, hnil]
          exact if_pos hc
        show ((step f (⟨.word rev, stack⟩ : State F) c).bind (feed f w)).bind (finish f) = _
        rw [hstep]
        show (feed f w _).bind (finish f) = _
        rw [hdone (fun c' hc' => hw c' (List.mem_cons_of_mem _ hc'))]
        rfl
      next => exact nomatch hend
  | value mayClose => exact nomatch hfinish
  | key mayClose => exact nomatch hfinish
  | colon => exact nomatch hfinish
  | after => exact nomatch hfinish
  | string isKey rev escaped => exact nomatch hfinish

end

/-! ## The characters of a text -/

/-- A character from the blank to the tilde. -/
def Printable (c : Char) : Prop := 32 ≤ c.toNat ∧ c.toNat ≤ 126

instance (c : Char) : Decidable (Printable c) := inferInstanceAs (Decidable (_ ∧ _))

theorem printable_of_wordChar {c : Char} (h : wordChar c = true) : Printable c := by
  have hplus : '+'.toNat = 43 := rfl
  have hminus : '-'.toNat = 45 := rfl
  have hpoint : '.'.toNat = 46 := rfl
  unfold wordChar Char.isAlphanum Char.isAlpha Char.isUpper Char.isLower Char.isDigit at h
  simp only [Bool.or_eq_true, Bool.and_eq_true, decide_eq_true_eq, beq_iff_eq, ge_iff_le,
    UInt32.le_iff_toNat_le] at h
  have hval : c.val.toNat = c.toNat := rfl
  unfold Printable
  rcases h with ((((h | h) | h) | rfl) | rfl) | rfl
  · have hlow : 'A'.val.toNat = 65 := rfl
    have hhigh : 'Z'.val.toNat = 90 := rfl
    omega
  · have hlow : 'a'.val.toNat = 97 := rfl
    have hhigh : 'z'.val.toNat = 122 := rfl
    omega
  · have hlow : '0'.val.toNat = 48 := rfl
    have hhigh : '9'.val.toNat = 57 := rfl
    omega
  · decide
  · decide
  · decide

theorem printable_hex4 (n : Nat) : ∀ c ∈ (hex4 n).toList, Printable c := by
  have hdigits : ∀ m, m < 16 → Printable (Nat.digitChar m) := by decide
  intro c hc
  rw [show (hex4 n).toList = [Nat.digitChar (n / 4096 % 16), Nat.digitChar (n / 256 % 16),
    Nat.digitChar (n / 16 % 16), Nat.digitChar (n % 16)] from String.toList_ofList] at hc
  simp only [List.mem_cons, List.not_mem_nil, or_false] at hc
  rcases hc with rfl | rfl | rfl | rfl <;> exact hdigits _ (by omega)

theorem printable_of_all {l : List Char} (h : l.all (fun c => decide (Printable c)) = true) :
    ∀ c ∈ l, Printable c :=
  fun c hc => of_decide_eq_true (List.all_eq_true.mp h c hc)

theorem printable_append {a b : List Char} (ha : ∀ c ∈ a, Printable c)
    (hb : ∀ c ∈ b, Printable c) : ∀ c ∈ a ++ b, Printable c := by
  intro c hc
  rcases List.mem_append.mp hc with hc | hc
  · exact ha c hc
  · exact hb c hc

theorem printable_escapeChar (c : Char) : ∀ x ∈ (escapeChar c).toList, Printable x := by
  have hu : ∀ x ∈ "\\u".toList, Printable x := by
    rw [toList_u]
    exact printable_of_all (by decide)
  unfold escapeChar
  split_ifs with hquote hslash hn hr ht hf hb hplain hbasic
  · exact printable_of_all (by decide)
  · exact printable_of_all (by decide)
  · exact printable_of_all (by decide)
  · exact printable_of_all (by decide)
  · exact printable_of_all (by decide)
  · exact printable_of_all (by decide)
  · exact printable_of_all (by decide)
  · intro x hx
    rw [String.toList_ofList, List.mem_singleton] at hx
    rw [hx]
    exact ⟨hplain.1, hplain.2⟩
  · rw [String.toList_append]
    exact printable_append hu (printable_hex4 _)
  · rw [String.toList_append, String.toList_append, String.toList_append]
    exact printable_append (printable_append (printable_append hu (printable_hex4 _)) hu)
      (printable_hex4 _)

theorem printable_dumpsStr (s : String) : ∀ c ∈ (dumpsStr s).toList, Printable c := by
  have hescape : ∀ cs : List Char, ∀ c ∈ (escape cs).toList, Printable c := by
    intro cs
    induction cs with
    | nil => exact fun c hc => nomatch hc
    | cons x cs ih =>
      rw [toList_escape_cons]
      exact printable_append (printable_escapeChar x) ih
  rw [toList_dumpsStr, ← List.cons_append]
  refine printable_append (fun c hc => ?_) (printable_of_all (by decide))
  rcases List.mem_cons.mp hc with rfl | hc
  · decide
  · exact hescape _ c hc

section

variable {F : Type} (f : FloatText F)

mutual

theorem printable_dumps : ∀ v : Json F, ∀ c ∈ dumps f v, Printable c
  | .null => printable_of_all (l := "null".toList) (by decide)
  | .bool true => printable_of_all (l := "true".toList) (by decide)
  | .bool false => printable_of_all (l := "false".toList) (by decide)
  | .int n => fun c hc => printable_of_wordChar (List.all_eq_true.mp (intText_chars n) c hc)
  | .float x => fun c hc => printable_of_wordChar (List.all_eq_true.mp (f.text_chars x) c hc)
  | .str s => printable_dumpsStr s
  | .arr items => by
    rw [dumps, ← List.cons_append]
    refine printable_append (fun c hc => ?_) (printable_of_all (by decide))
    rcases List.mem_cons.mp hc with rfl | hc
    · decide
    · exact printable_dumpsItems items c hc
  | .obj items => by
    rw [dumps, ← List.cons_append]
    refine printable_append (fun c hc => ?_) (printable_of_all (by decide))
    rcases List.mem_cons.mp hc with rfl | hc
    · decide
    · exact printable_dumpsEntries items c hc

theorem printable_dumpsItems : ∀ items : List (Json F), ∀ c ∈ dumpsItems f items, Printable c
  | [] => fun _ hc => nomatch hc
  | item :: items => printable_append (printable_dumps item) (printable_dumpsMore items)

theorem printable_dumpsMore : ∀ items : List (Json F), ∀ c ∈ dumpsMore f items, Printable c
  | [] => fun _ hc => nomatch hc
  | item :: items =>
    printable_append (printable_append (printable_of_all (by decide)) (printable_dumps item))
      (printable_dumpsMore items)

theorem printable_dumpsEntries : ∀ items : List (String × Json F),
    ∀ c ∈ dumpsEntries f items, Printable c
  | [] => fun _ hc => nomatch hc
  | (key, value) :: items =>
    printable_append (printable_append (printable_append (printable_dumpsStr key)
      (printable_of_all (by decide))) (printable_dumps value)) (printable_dumpsMoreEntries items)

theorem printable_dumpsMoreEntries : ∀ items : List (String × Json F),
    ∀ c ∈ dumpsMoreEntries f items, Printable c
  | [] => fun _ hc => nomatch hc
  | (key, value) :: items =>
    printable_append (printable_append (printable_append
      (printable_append (printable_of_all (by decide)) (printable_dumpsStr key))
      (printable_of_all (by decide))) (printable_dumps value)) (printable_dumpsMoreEntries items)

end

end

end OSimFlow.JsonLoads
