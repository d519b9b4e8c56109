import DistributedCore.Library.OrderedMap
import Mathlib.Data.List.Infix
import Mathlib.Data.List.TakeWhile
import Mathlib.Tactic.IntervalCases

/-!
# JSON texts

JSON values, the text that `JSON.stringify` prints for a value and the parser `JSON.parse`. The
printer puts no space between the tokens; the parser accepts space between them. A number is kept
as its literal, so nothing is said about rounding. Strings are sequences of Unicode scalar values,
and an escape of a surrogate is not read.

The last part is about a text that is cut off and continued by another one: whatever nonempty
start of an object is put in front of an object, the result is not a JSON text.

## Main results

* `Json.induction`: induction on a value.
* `Json.parse_stringify`: a printed value is read back.
* `Json.newline_notMem_stringify`: a printed value is one line.
* `Json.parse_torn_append`: a start of an object followed by an object is not read.
-/

namespace DistributedCore

open List Nat
open Option hiding all all_eq_true

/-! ### Numbers -/

variable (c : Char)

/-- The characters that occur in number literals. -/
def isNumberChar : Bool := c.isDigit || c = '-' || c = '+' || c = '.' || c = 'e' || c = 'E'

variable (l : List Char) {t : List Char} {d : Char}

/-- At least one digit, and nothing else. -/
def isDigits : Bool := !l.isEmpty && l.all Char.isDigit

/-- `([eE][+-]?[0-9]+)?` -/
def isExponent : List Char → Bool
  | [] => true
  | e :: '+' :: l => (e = 'e' || e = 'E') && isDigits l
  | e :: '-' :: l => (e = 'e' || e = 'E') && isDigits l
  | e :: l => (e = 'e' || e = 'E') && isDigits l

/-- `(\.[0-9]+)?` and an exponent. -/
def isFraction : List Char → Bool
  | '.' :: l => isDigits (l.takeWhile Char.isDigit) && isExponent (l.dropWhile Char.isDigit)
  | l => isExponent l

/-- `(0|[1-9][0-9]*)`, a fraction and an exponent. -/
def isUnsignedLiteral : List Char → Bool
  | [] => false
  | '0' :: l => isFraction l
  | c :: l => c.isDigit && isFraction (l.dropWhile Char.isDigit)

/-- The literal without its sign. -/
def dropSign : List Char → List Char
  | '-' :: l => l
  | l => l

def isNumberLiteral : Bool := l.all isNumberChar && isUnsignedLiteral (dropSign l)

/-- A number, as its literal. -/
structure JsonNumber where
  text : List Char
  isLiteral : isNumberLiteral text = true
  deriving DecidableEq

namespace JsonNumber

variable (n : JsonNumber)

theorem isNumberChar_of_mem {c : Char} (hc : c ∈ n.text) : isNumberChar c = true := by
  have h := n.isLiteral
  rw [isNumberLiteral, Bool.and_eq_true, all_eq_true] at h
  exact h.1 c hc

theorem text_ne_nil : n.text ≠ [] := by
  intro h
  have hlit := n.isLiteral
  rw [h] at hlit
  exact absurd hlit (by decide)

/-- The digits of a positive number do not start with a zero. -/
theorem head_toDigits {n : ℕ} (hn : 0 < n) : ∃ c l, Nat.toDigits 10 n = c :: l ∧ c ≠ '0' := by
  induction n using Nat.strong_induction_on with
  | _ n ih =>
    rcases Nat.lt_or_ge n 10 with hlt | hge
    · refine ⟨n.digitChar, [], Nat.toDigits_of_lt_base hlt, ?_⟩
      rw [ne_eq, Nat.digitChar_eq_zero]
      exact hn.ne'
    · obtain ⟨c, l, hl, hc⟩ := ih (n / 10) (by omega) (by omega)
      exact ⟨c, l ++ [(n % 10).digitChar],
        by rw [Nat.toDigits_of_base_le (by decide) hge, hl, cons_append], hc⟩

theorem isUnsignedLiteral_toDigits (n : ℕ) : isUnsignedLiteral (Nat.toDigits 10 n) = true := by
  rcases Nat.eq_zero_or_pos n with rfl | hn
  · decide
  · obtain ⟨c, l, hl, hc⟩ := head_toDigits hn
    have hdigit : ∀ d ∈ c :: l, d.isDigit = true := fun d hd =>
      Nat.isDigit_of_mem_toDigits (by decide) (by decide) (hl ▸ hd)
    have hdrop : l.dropWhile Char.isDigit = [] :=
      dropWhile_eq_nil_iff.mpr fun d hd => hdigit d (mem_cons_of_mem _ hd)
    rw [hl, isUnsignedLiteral.eq_3 c l hc, hdigit c mem_cons_self, hdrop]
    rfl

theorem all_isNumberChar_toDigits (n : ℕ) : (toDigits 10 n).all isNumberChar = true := by
  rw [all_eq_true]
  intro c hc
  have hdigit : c.isDigit = true := isDigit_of_mem_toDigits (by decide) (by decide) hc
  rw [isNumberChar, hdigit]
  rfl

theorem dropSign_toDigits (n : ℕ) : dropSign (toDigits 10 n) = toDigits 10 n := by
  unfold dropSign
  split
  · next h =>
    have hdigit : '-'.isDigit = true :=
      isDigit_of_mem_toDigits (by decide) (by decide) (h ▸ mem_cons_self)
    exact absurd hdigit (by decide)
  · rfl

/-- The literal of a natural number. -/
def ofNat (n : ℕ) : JsonNumber where
  text := Nat.toDigits 10 n
  isLiteral := by
    rw [isNumberLiteral, all_isNumberChar_toDigits, dropSign_toDigits, isUnsignedLiteral_toDigits]
    rfl

/-- The literal of an integer. -/
def ofInt : ℤ → JsonNumber
  | .ofNat n => ofNat n
  | .negSucc n =>
    { text := '-' :: Nat.toDigits 10 (n + 1)
      isLiteral := by
        rw [isNumberLiteral, all_cons, all_isNumberChar_toDigits, dropSign,
          isUnsignedLiteral_toDigits]
        rfl }

/-- The value of a literal without sign, fraction and exponent. -/
def toNat? : Option ℕ :=
  if n.text.all Char.isDigit then some (Nat.ofDigitChars 10 n.text 0) else none

/-- The value of a literal without fraction and exponent. -/
def toInt? : Option ℤ :=
  let digits := dropSign n.text
  if digits.all Char.isDigit then
    let value : ℤ := (Nat.ofDigitChars 10 digits 0 : ℕ)
    some (if digits = n.text then value else -value)
  else none

theorem all_isDigit_toDigits (n : ℕ) : (toDigits 10 n).all Char.isDigit = true :=
  all_eq_true.mpr fun _ hc => isDigit_of_mem_toDigits (by decide) (by decide) hc

@[simp] theorem toNat?_ofNat (n : ℕ) : (ofNat n).toNat? = some n := by
  rw [toNat?, ofNat, if_pos (all_isDigit_toDigits n), Nat.ofDigitChars_ten_toDigits]

@[simp] theorem toInt?_ofInt (n : ℤ) : (ofInt n).toInt? = some n := by
  cases n with
  | ofNat =>
    simp only [toInt?, ofInt, ofNat, dropSign_toDigits, all_isDigit_toDigits, ↓reduceIte,
      Nat.ofDigitChars_ten_toDigits]
    rfl
  | negSucc =>
    simp only [toInt?, ofInt, dropSign, all_isDigit_toDigits, ↓reduceIte,
      Nat.ofDigitChars_ten_toDigits, ne_cons_self]
    rfl

/-- The literal has no digit but zeros before the exponent. -/
def isZero : Bool :=
  ((dropSign n.text).takeWhile fun c => c ≠ 'e' && c ≠ 'E').all fun c => c = '0' || c = '.'

theorem eq_zero_of_isZero_ofNat {n : ℕ} (h : (ofNat n).isZero = true) : n = 0 := by
  by_contra hn
  obtain ⟨c, l, hl, hc⟩ := head_toDigits (pos_of_ne_zero hn)
  have hdigit : c.isDigit = true :=
    isDigit_of_mem_toDigits (by decide) (by decide) (hl ▸ mem_cons_self)
  have hne : ∀ d : Char, d.isDigit = false → c ≠ d := by
    rintro d hd rfl
    rw [hd] at hdigit
    cases hdigit
  rw [isZero, ofNat, dropSign_toDigits, hl, takeWhile_cons_of_pos
    (by simp [hne 'e' (by decide), hne 'E' (by decide)]), all_cons] at h
  simp [hc, hne '.' (by decide)] at h

end JsonNumber

/-! ### Values and their texts -/

inductive Json
  | null
  | bool (b : Bool)
  | number (n : JsonNumber)
  | string (s : String)
  | array (items : List Json)
  | object (fields : List (String × Json))

namespace Json

/-- Induction on a value: the items of an array and the members of an object come first. -/
@[elab_as_elim]
theorem induction {P : Json → Prop} (null : P .null) (bool : ∀ b, P (.bool b))
    (number : ∀ n, P (.number n)) (string : ∀ s, P (.string s))
    (array : ∀ items, (∀ v ∈ items, P v) → P (.array items))
    (object : ∀ fields, (∀ f ∈ fields, P f.2) → P (.object fields)) (v : Json) : P v := by
  refine @Json.rec P (fun items => ∀ v ∈ items, P v) (fun fields => ∀ f ∈ fields, P f.2)
    (fun f => P f.2) null bool number string array object ?_ ?_ ?_ ?_ ?_ v
  · exact fun _ h => nomatch h
  · intro v items hv hitems w hw
    rcases mem_cons.mp hw with rfl | hw
    · exact hv
    · exact hitems w hw
  · exact fun _ h => nomatch h
  · intro f fields hf hfields g hg
    rcases mem_cons.mp hg with rfl | hg
    · exact hf
    · exact hfields g hg
  · exact fun _ _ hv => hv

/-- `Boolean(v)`. A literal that is rounded to zero is not printed. -/
def truthy : Json → Bool
  | .null => false
  | .bool b => b
  | .number n => !n.isZero
  | .string s => s ≠ ""
  | .array _ | .object _ => true

def hexDigit (n : ℕ) : Char := n.digitChar

/-- A character inside a string literal. -/
def escapeChar (c : Char) : List Char :=
  if c = '"' then ['\\', '"']
  else if c = '\\' then ['\\', '\\']
  else if c.toNat = 8 then ['\\', 'b']
  else if c.toNat = 9 then ['\\', 't']
  else if c.toNat = 10 then ['\\', 'n']
  else if c.toNat = 12 then ['\\', 'f']
  else if c.toNat = 13 then ['\\', 'r']
  else if c.toNat < 32 then ['\\', 'u', '0', '0', hexDigit (c.toNat / 16), hexDigit (c.toNat % 16)]
  else [c]

/-- The characters of a string literal after the opening quote. -/
def stringTail (s : List Char) : List Char := s.flatMap escapeChar ++ ['"']

def stringLiteral (s : String) : List Char := '"' :: stringTail s.toList

/-- Texts separated by commas, up to the closing bracket. -/
def seqText (close : Char) : List (List Char) → List Char
  | [] => [close]
  | [t] => t ++ [close]
  | t :: t' :: ts => t ++ ',' :: seqText close (t' :: ts)

mutual

/-- `JSON.stringify(v)`. -/
def stringify : Json → List Char
  | .null => ['n', 'u', 'l', 'l']
  | .bool true => ['t', 'r', 'u', 'e']
  | .bool false => ['f', 'a', 'l', 's', 'e']
  | .number n => n.text
  | .string s => stringLiteral s
  | .array items => '[' :: seqText ']' (stringifyItems items)
  | .object fields => '{' :: seqText '}' (stringifyFields fields)

def stringifyItems : List Json → List (List Char)
  | [] => []
  | v :: items => stringify v :: stringifyItems items

def stringifyFields : List (String × Json) → List (List Char)
  | [] => []
  | (k, v) :: fields => (stringLiteral k ++ ':' :: stringify v) :: stringifyFields fields

end

/-- The text of a member of an object. -/
def memberText (f : String × Json) : List Char := stringLiteral f.1 ++ ':' :: stringify f.2

theorem stringifyItems_eq (items : List Json) : stringifyItems items = items.map stringify := by
  induction items with
  | nil => rfl
  | cons _ _ ih => rw [stringifyItems, ih, map_cons]

theorem stringifyFields_eq (fields : List (String × Json)) :
    stringifyFields fields = fields.map memberText := by
  induction fields with
  | nil => rfl
  | cons _ _ ih => rw [stringifyFields, ih, map_cons, memberText]

theorem stringify_array (items : List Json) :
    stringify (.array items) = '[' :: seqText ']' (items.map stringify) := by
  rw [stringify, stringifyItems_eq]

theorem stringify_object (fields : List (String × Json)) :
    stringify (.object fields) = '{' :: seqText '}' (fields.map memberText) := by
  rw [stringify, stringifyFields_eq]

/-! ### The parser -/

def isSpace : Bool := c = ' ' || c = '\t' || c = '\n' || c = '\r'

def skipSpace : List Char := l.dropWhile isSpace

/-- The value of a hexadecimal digit. -/
def hexValue : Option ℕ :=
  if '0' ≤ c ∧ c ≤ '9' then some (c.toNat - '0'.toNat)
  else if 'a' ≤ c ∧ c ≤ 'f' then some (c.toNat - 'a'.toNat + 10)
  else if 'A' ≤ c ∧ c ≤ 'F' then some (c.toNat - 'A'.toNat + 10)
  else none

/-- The character with a given code, if it is not a surrogate. -/
def hexChar (a b c d : Char) : Option Char := do
  let a ← hexValue a
  let b ← hexValue b
  let c ← hexValue c
  let d ← hexValue d
  let n := ((a * 16 + b) * 16 + c) * 16 + d
  if n.isValidChar then some (Char.ofNat n) else none

/-- The character that a letter after a backslash stands for. -/
def unescape : Char → Option Char
  | '"' => some '"'
  | '\\' => some '\\'
  | '/' => some '/'
  | 'b' => some (Char.ofNat 8)
  | 't' => some '\t'
  | 'n' => some '\n'
  | 'f' => some (Char.ofNat 12)
  | 'r' => some '\r'
  | _ => none

/-- A character in front of a string that has been read. -/
def consChar (r : List Char × List Char) : List Char × List Char := (c :: r.1, r.2)

/-- A string literal after the opening quote, and what follows it. -/
def parseString : List Char → Option (List Char × List Char)
  | [] => none
  | '"' :: l => some ([], l)
  | '\\' :: 'u' :: a :: b :: c :: d :: l =>
    (hexChar a b c d).bind fun x => (parseString l).map (consChar x)
  | '\\' :: c :: l => (unescape c).bind fun x => (parseString l).map (consChar x)
  | c :: l => if c = '\\' ∨ c.toNat < 32 then none else (parseString l).map (consChar c)

def parseNumber : Option (Json × List Char) :=
  if h : isNumberLiteral (l.takeWhile isNumberChar) = true then
    some (.number ⟨l.takeWhile isNumberChar, h⟩, l.dropWhile isNumberChar)
  else none

section Sequences

variable {B : Type}

/-- Items separated by commas, up to the closing bracket. -/
def parseSeq (close : Char) (item : List Char → Option (B × List Char)) :
    ℕ → List Char → Option (List B × List Char)
  | 0, _ => none
  | n + 1, l => do
    let (x, l) ← item l
    match skipSpace l with
    | [] => none
    | c :: l =>
      if c = close then some ([x], l)
      else if c = ',' then do
        let (xs, l) ← parseSeq close item n l
        some (x :: xs, l)
      else none

/-- What stands between two brackets: nothing, or items separated by commas. -/
def parseContainer (close : Char) (item : List Char → Option (B × List Char)) (l : List Char) :
    Option (List B × List Char) :=
  match skipSpace l with
  | [] => none
  | c :: l => if c = close then some ([], l) else parseSeq close item (l.length + 1) (c :: l)

end Sequences

/-- A member of an object: a string literal, a colon and a value. -/
def parseMember (value : List Char → Option (Json × List Char)) (l : List Char) :
    Option ((String × Json) × List Char) :=
  match skipSpace l with
  | '"' :: l => do
    let (k, l) ← parseString l
    match skipSpace l with
    | ':' :: l => do
      let (v, l) ← value l
      some ((String.ofList k, v), l)
    | _ => none
  | _ => none

/-- A value and what follows it. The first argument bounds the depth. -/
def parseValue : ℕ → List Char → Option (Json × List Char)
  | 0, _ => none
  | n + 1, l =>
    match skipSpace l with
    | '{' :: l =>
      (parseContainer '}' (parseMember (parseValue n)) l).map fun r => (.object r.1, r.2)
    | '[' :: l => (parseContainer ']' (parseValue n) l).map fun r => (.array r.1, r.2)
    | '"' :: l => (parseString l).map fun r => (.string (String.ofList r.1), r.2)
    | 'n' :: 'u' :: 'l' :: 'l' :: l => some (.null, l)
    | 't' :: 'r' :: 'u' :: 'e' :: l => some (.bool true, l)
    | 'f' :: 'a' :: 'l' :: 's' :: 'e' :: l => some (.bool false, l)
    | l => parseNumber l

/-- `JSON.parse(l)`. -/
def parse : Option Json :=
  (parseValue l.length l).bind fun r => if skipSpace r.2 = [] then some r.1 else none

/-! ### The text after a value -/

/-- The text after a value does not go on with a number. -/
def Delimited : Prop := ∀ c ∈ l.head?, isNumberChar c = false

theorem delimited_nil : Delimited [] := fun _ h => nomatch h

theorem skipSpace_cons {c : Char} (h : isSpace c = false) (l : List Char) :
    skipSpace (c :: l) = c :: l := by rw [skipSpace, dropWhile_cons_of_neg (by rw [h]; decide)]

/-! ### String literals -/

theorem parseString_escape (hd : d ≠ 'u') (l : List Char) :
    parseString ('\\' :: d :: l) = (unescape d).bind fun x => (parseString l).map (consChar x) := by
  rw [parseString.eq_def]
  split
  · next h => cases h
  · next h => cases h
  · next h => exact absurd (cons.inj (cons.inj h).2).1 hd
  · next h =>
    obtain ⟨rfl, rfl⟩ := cons.inj (cons.inj h).2
    rfl
  · next hnot h =>
    obtain ⟨rfl, rfl⟩ := cons.inj h
    exact (hnot d l rfl rfl).elim

theorem parseString_plain {c : Char} (hquote : c ≠ '"') (hslash : c ≠ '\\') (hc : ¬c.toNat < 32)
    (l : List Char) : parseString (c :: l) = (parseString l).map (consChar c) := by
  rw [parseString.eq_def]
  split
  · next h => cases h
  · next h => exact absurd (cons.inj h).1 hquote
  · next h => exact absurd (cons.inj h).1 hslash
  · next h => exact absurd (cons.inj h).1 hslash
  · next h =>
    obtain ⟨rfl, rfl⟩ := cons.inj h
    rw [if_neg (by tauto)]

/-- The three forms of a character in a string literal. -/
theorem escapeChar_cases : (∃ d, escapeChar c = ['\\', d] ∧ d ≠ 'u' ∧ unescape d = some c) ∨
      (∃ a b, escapeChar c = ['\\', 'u', '0', '0', a, b] ∧ hexChar '0' '0' a b = some c) ∨
      (escapeChar c = [c] ∧ c ≠ '"' ∧ c ≠ '\\' ∧ ¬c.toNat < 32) := by
  by_cases hquote : c = '"'
  · subst hquote
    exact .inl ⟨'"', rfl, by decide, rfl⟩
  by_cases hslash : c = '\\'
  · subst hslash
    exact .inl ⟨'\\', rfl, by decide, rfl⟩
  by_cases hcontrol : c.toNat < 32
  · obtain ⟨n, hn, rfl⟩ : ∃ n < 32, c = Char.ofNat n := ⟨c.toNat, hcontrol, c.ofNat_toNat.symm⟩
    interval_cases n <;>
      first
      | exact .inl ⟨_, rfl, by decide, rfl⟩
      | exact .inr (.inl ⟨_, _, rfl, rfl⟩)
  · refine .inr (.inr ⟨?_, hquote, hslash, hcontrol⟩)
    rw [escapeChar, if_neg hquote, if_neg hslash, if_neg (by omega), if_neg (by omega),
      if_neg (by omega), if_neg (by omega), if_neg (by omega), if_neg hcontrol]

/-- An escaped character is read back. -/
theorem parseString_escapeChar (c : Char) (l : List Char) :
    parseString (escapeChar c ++ l) = (parseString l).map (consChar c) := by
  obtain ⟨d, hc, hd, hunescape⟩ | ⟨a, b, hc, hhex⟩ | ⟨hc, hquote, hslash, hplain⟩ :=
    escapeChar_cases c
  · rw [hc]
    exact (parseString_escape hd l).trans (by rw [hunescape, bind_some])
  · rw [hc]
    change (hexChar '0' '0' a b).bind (fun x => (parseString l).map (consChar x)) = _
    rw [hhex, bind_some]
  · rw [hc]
    exact parseString_plain hquote hslash hplain l

theorem stringTail_cons (c : Char) (s : List Char) :
    stringTail (c :: s) = escapeChar c ++ stringTail s := by simp [stringTail]

/-- A string literal is read back. -/
theorem parseString_stringTail (s l : List Char) :
    parseString (stringTail s ++ l) = some (s, l) := by
  induction s with
  | nil => rfl
  | cons c s ih =>
    rw [stringTail_cons, append_assoc, parseString_escapeChar, ih]
    rfl

/-- A number literal is read back. -/
theorem parseNumber_text (n : JsonNumber) {l : List Char} (hl : Delimited l) :
    parseNumber (n.text ++ l) = some (.number n, l) := by
  have hchars : ∀ c ∈ n.text, isNumberChar c = true := fun c hc => n.isNumberChar_of_mem hc
  have htake : (n.text ++ l).takeWhile isNumberChar = n.text := by
    rw [takeWhile_append_of_pos hchars]
    cases l with
    | nil => exact append_nil _
    | cons c => rw [takeWhile_cons_of_neg (by rw [hl c rfl]; decide), append_nil]
  have hdrop : (n.text ++ l).dropWhile isNumberChar = l := by
    rw [dropWhile_append_of_pos hchars]
    cases l with
    | nil => rfl
    | cons c => exact dropWhile_cons_of_neg (by rw [hl c rfl]; decide)
  simp [parseNumber, htake, hdrop, n.isLiteral]

/-! ### Reading a printed value -/

/-- The closing brackets. -/
def IsClosing : Prop := c = ']' ∨ c = '}'

theorem IsClosing.isNumberChar {c : Char} (h : IsClosing c) : isNumberChar c = false := by
  rcases h with rfl | rfl <;> decide

theorem IsClosing.isSpace {c : Char} (h : IsClosing c) : isSpace c = false := by
  rcases h with rfl | rfl <;> decide

theorem IsClosing.ne_comma {c : Char} (h : IsClosing c) : ',' ≠ c := by
  rcases h with rfl | rfl <;> decide

/-- The characters that an item may start with. -/
def StartsItem (t : List Char) : Prop := ∃ c l, t = c :: l ∧ isSpace c = false ∧ c ≠ ']' ∧ c ≠ '}'

theorem delimited_cons {c : Char} (h : isNumberChar c = false) (l : List Char) :
    Delimited (c :: l) := fun _ hd => some.inj hd ▸ h

section Sequences

variable {B : Type} {close : Char} {item : List Char → Option (B × List Char)} {x : B}

theorem seqText_cons_cons (t t' : List Char) (ts : List (List Char)) :
    seqText close (t :: t' :: ts) = t ++ ',' :: seqText close (t' :: ts) := rfl

theorem length_lt_seqText (close : Char) (text : B → List Char) :
    {xs : List B} → x ∈ xs → (text x).length < (seqText close (xs.map text)).length
  | [y], h => by
    obtain rfl := mem_singleton.mp h
    simp [seqText]
  | y :: z :: xs, h => by
    rw [map_cons, map_cons, seqText_cons_cons, length_append, length_cons]
    rcases mem_cons.mp h with rfl | h
    · omega
    · have hlater := length_lt_seqText close text h
      rw [map_cons] at hlater
      omega

theorem length_le_seqText (close : Char) :
    (ts : List (List Char)) → ts.length ≤ (seqText close ts).length
  | [] => zero_le _
  | [t] => by simp [seqText]
  | t :: t' :: ts => by
    have ih := length_le_seqText close (t' :: ts)
    simp only [seqText_cons_cons, length_append, length_cons] at ih ⊢
    omega

/-- One step of a sequence whose first item can be read. -/
theorem parseSeq_of_item {c : Char} {l l' : List Char} (n : ℕ) (hspace : isSpace c = false)
    (hitem : item l = some (x, c :: l')) :
    parseSeq close item (n + 1) l = if c = close then some ([x], l')
      else if c = ',' then (parseSeq close item n l').map fun r => (x :: r.1, r.2)
      else none := by
  rw [parseSeq, hitem]
  simp only [bind_eq_bind, bind_some, skipSpace_cons hspace]
  split_ifs
  · rfl
  · cases parseSeq close item n l' <;> rfl
  · rfl

/-- A nonempty sequence of items that can be read is read. -/
theorem parseSeq_seqText (hclose : IsClosing close) (text : B → List Char) (l : List Char) :
    (xs : List B) → (n : ℕ) → xs ≠ [] → xs.length ≤ n →
      (∀ x ∈ xs, ∀ l, Delimited l → item (text x ++ l) = some (x, l)) →
      parseSeq close item n (seqText close (xs.map text) ++ l) = some (xs, l)
  | [], _, hne, _, _ => absurd rfl hne
  | [x], n + 1, _, _, hread => by
    have hitem := hread x mem_cons_self (close :: l) (delimited_cons hclose.isNumberChar l)
    rw [map_singleton, seqText, append_assoc, singleton_append,
      parseSeq_of_item n hclose.isSpace hitem, if_pos rfl]
  | x :: x' :: xs, n + 1, _, hn, hread => by
    have hitem := hread x mem_cons_self
      (',' :: (seqText close ((x' :: xs).map text) ++ l)) (delimited_cons (by decide) _)
    have ih := parseSeq_seqText hclose text l (x' :: xs) n (cons_ne_nil _ _)
      (le_of_succ_le_succ hn) fun x hx => hread x (mem_cons_of_mem _ hx)
    rw [map_cons, map_cons, seqText_cons_cons, append_assoc, cons_append,
      ← map_cons, parseSeq_of_item n (by decide) hitem, if_neg hclose.ne_comma, if_pos rfl,
      ih]
    rfl

/-- A text that starts with an item stands for items. -/
theorem parseContainer_of_startsItem (hclose : IsClosing close) (ht : StartsItem t)
    (l : List Char) :
    parseContainer close item (t ++ l) = parseSeq close item (t ++ l).length (t ++ l) := by
  obtain ⟨c, t, rfl, hspace, hsquare, hbrace⟩ := ht
  have hne : c ≠ close := by
    rcases hclose with rfl | rfl
    · exact hsquare
    · exact hbrace
  rw [parseContainer, cons_append, skipSpace_cons hspace]
  simp [hne]

theorem startsItem_seqText (ht : StartsItem t) (ts : List (List Char)) :
    StartsItem (seqText close (t :: ts)) := by
  obtain ⟨c, l, rfl, hc⟩ := ht
  cases ts with
  | nil => exact ⟨c, l ++ [close], rfl, hc⟩
  | cons t' ts => exact ⟨c, l ++ ',' :: seqText close (t' :: ts), rfl, hc⟩

/-- What stands between two brackets is read. -/
theorem parseContainer_seqText (hclose : IsClosing close) (text : B → List Char) (l : List Char)
    (xs : List B) (hstart : ∀ x, StartsItem (text x))
    (hread : ∀ x ∈ xs, ∀ l, Delimited l → item (text x ++ l) = some (x, l)) :
    parseContainer close item (seqText close (xs.map text) ++ l) = some (xs, l) := by
  cases xs with
  | nil =>
    rw [parseContainer, map_nil, seqText, singleton_append, skipSpace_cons hclose.isSpace]
    simp
  | cons x xs =>
    have hlength : (x :: xs).length ≤ (seqText close ((x :: xs).map text) ++ l).length := by
      have htexts := length_le_seqText close ((x :: xs).map text)
      rw [length_map] at htexts
      rw [length_append]
      omega
    rw [map_cons, parseContainer_of_startsItem hclose (startsItem_seqText (hstart x) _), ← map_cons]
    exact parseSeq_seqText hclose text l (x :: xs) _ (cons_ne_nil _ _) hlength hread

end Sequences

variable {value : List Char → Option (Json × List Char)} {B : Type}

/-- A member of an object is read if its value is. -/
theorem parseMember_memberText (f : String × Json)
    {l : List Char} (hread : value (stringify f.2 ++ l) = some (f.2, l)) :
    parseMember value (memberText f ++ l) = some (f, l) := by
  have htext : memberText f ++ l =
      '"' :: (stringTail f.1.toList ++ ':' :: (stringify f.2 ++ l)) := by
    simp [memberText, stringLiteral]
  rw [htext, parseMember, skipSpace_cons (by decide)]
  simp only [bind_eq_bind, parseString_stringTail, bind_some,
    skipSpace_cons (show isSpace ':' = false by decide), hread, String.ofList_toList]

theorem isSpace_of_isNumberChar {c : Char} (hc : isNumberChar c = true) : isSpace c = false := by
  by_contra h
  simp only [isSpace, Bool.or_eq_true, decide_eq_true_eq, Bool.not_eq_false] at h
  rcases h with ((rfl | rfl) | rfl) | rfl <;> exact absurd hc (by decide)

theorem startsItem_stringify (v : Json) : StartsItem (stringify v) := by
  cases v with
  | null => exact ⟨_, _, rfl, by decide⟩
  | bool b => cases b <;> exact ⟨_, _, rfl, by decide⟩
  | number n =>
    obtain ⟨c, l, hl⟩ := exists_cons_of_ne_nil n.text_ne_nil
    have hc : isNumberChar c = true := n.isNumberChar_of_mem (hl ▸ mem_cons_self)
    refine ⟨c, l, hl, isSpace_of_isNumberChar hc, ?_, ?_⟩ <;>
    · rintro rfl
      exact absurd hc (by decide)
  | string => exact ⟨_, _, rfl, by decide⟩
  | array items => exact ⟨'[', _, stringify_array items, by decide⟩
  | object fields => exact ⟨'{', _, stringify_object fields, by decide⟩

theorem startsItem_memberText (f : String × Json) : StartsItem (memberText f) :=
  ⟨'"', _, rfl, by decide⟩

theorem parseValue_object (n : ℕ) (l : List Char) : parseValue (n + 1) ('{' :: l) =
      (parseContainer '}' (parseMember (parseValue n)) l).map fun r => (.object r.1, r.2) := rfl

theorem parseValue_array (n : ℕ) (l : List Char) : parseValue (n + 1) ('[' :: l) =
      (parseContainer ']' (parseValue n) l).map fun r => (.array r.1, r.2) := rfl

theorem parseValue_string (n : ℕ) (l : List Char) : parseValue (n + 1) ('"' :: l) =
      (parseString l).map fun r => (.string (String.ofList r.1), r.2) := rfl

/-- A text that starts with a character of a number is read as a number. -/
theorem parseValue_number (n : ℕ) {c : Char} (hc : isNumberChar c = true) (l : List Char) :
    parseValue (n + 1) (c :: l) = parseNumber (c :: l) := by
  rw [parseValue, skipSpace_cons (isSpace_of_isNumberChar hc)]
  split
  iterate 6 next h => exact absurd ((cons.inj h).1 ▸ hc) (by decide)
  · rfl

/-- **Reading a printed value.** The parser finds the value and leaves what follows it. -/
theorem parseValue_stringify (v : Json) :
    ∀ (n : ℕ) (l : List Char), (stringify v).length ≤ n → Delimited l →
      parseValue n (stringify v ++ l) = some (v, l) := by
  induction v using Json.induction with
  | null =>
    intro n l hn _
    obtain ⟨n, rfl⟩ := Nat.exists_eq_add_of_le' hn
    rfl
  | bool b =>
    intro n l hn _
    obtain ⟨n, rfl⟩ := Nat.exists_eq_add_of_le' hn
    cases b <;> rfl
  | number m =>
    intro n l hn hl
    obtain ⟨c, t, ht⟩ := exists_cons_of_ne_nil m.text_ne_nil
    have hc : isNumberChar c = true := m.isNumberChar_of_mem (ht ▸ mem_cons_self)
    have hread := parseNumber_text m hl
    cases n with
    | zero => simp [stringify, ht] at hn
    | succ n =>
      rw [stringify]
      rw [ht, cons_append] at hread ⊢
      rw [parseValue_number n hc, hread]
  | string =>
    intro n l hn _
    cases n with
    | zero => simp [stringify, stringLiteral] at hn
    | succ =>
      rw [stringify, stringLiteral, cons_append, parseValue_string, parseString_stringTail,
        map_some, String.ofList_toList]
  | array items ih =>
    intro n l hn _
    cases n with
    | zero => simp [stringify_array] at hn
    | succ n =>
      rw [stringify_array] at hn ⊢
      have hread : ∀ v ∈ items, ∀ l, Delimited l →
          parseValue n (stringify v ++ l) = some (v, l) := by
        intro v hv l hl
        have hlength := length_lt_seqText ']' stringify hv
        exact ih v hv n l (by rw [length_cons] at hn; omega) hl
      rw [cons_append, parseValue_array,
        parseContainer_seqText (.inl rfl) stringify l items startsItem_stringify hread]
      rfl
  | object fields ih =>
    intro n l hn _
    cases n with
    | zero => simp [stringify_object] at hn
    | succ n =>
      rw [stringify_object] at hn ⊢
      have hread : ∀ f ∈ fields, ∀ l, Delimited l →
          parseMember (parseValue n) (memberText f ++ l) = some (f, l) := by
        intro f hf l hl
        have hlength := length_lt_seqText '}' memberText hf
        refine parseMember_memberText f (ih f hf n l ?_ hl)
        rw [memberText, length_append, length_cons] at hlength
        rw [length_cons] at hn
        omega
      rw [cons_append, parseValue_object,
        parseContainer_seqText (.inr rfl) memberText l fields startsItem_memberText hread]
      rfl

/-- **Round trip.** A printed value is read back. -/
theorem parse_stringify (v : Json) : parse (stringify v) = some v := by
  have h := parseValue_stringify v _ [] le_rfl delimited_nil
  rw [append_nil] at h
  rw [parse, h]
  rfl

theorem stringify_injective : Function.Injective stringify := fun v w h =>
  some.inj (by rw [← parse_stringify v, h, parse_stringify])

/-- Values are told apart by their texts. -/
instance decidableEqJson : DecidableEq Json := fun v w =>
  decidable_of_iff (v.stringify = w.stringify) stringify_injective.eq_iff

/-! ### A printed value is one line -/

theorem newline_notMem_escapeChar : '\n' ∉ escapeChar c := by
  intro h
  obtain ⟨d, hc, -, hd⟩ | ⟨a, b, hc, hhex⟩ | ⟨hc, -, -, hplain⟩ := escapeChar_cases c
  · rw [hc] at h
    obtain rfl : '\n' = d := by simpa using h
    cases hd
  · rw [hc] at h
    obtain rfl | rfl : '\n' = a ∨ '\n' = b := by simpa using h
    · cases hhex
    · cases ha : hexValue a <;> simp [hexChar, ha, show hexValue '\n' = none from rfl] at hhex
  · rw [hc] at h
    obtain rfl := mem_singleton.mp h
    exact hplain (by decide)

theorem newline_notMem_stringLiteral (s : String) : '\n' ∉ stringLiteral s := by
  have hchars : ∀ c ∈ s.toList, '\n' ∉ escapeChar c := fun c _ => newline_notMem_escapeChar c
  simpa [stringLiteral, stringTail] using hchars

theorem newline_notMem_seqText {close : Char} (hclose : IsClosing close) :
    (ts : List (List Char)) → (∀ t ∈ ts, '\n' ∉ t) → '\n' ∉ seqText close ts
  | [], _ => by rcases hclose with rfl | rfl <;> decide
  | [t], h => by
    have ht := h t mem_cons_self
    rcases hclose with rfl | rfl <;> simpa [seqText] using ht
  | t :: t' :: ts, h => by
    have ih := newline_notMem_seqText hclose (t' :: ts) fun t ht => h t (mem_cons_of_mem _ ht)
    simpa [seqText_cons_cons] using ⟨h t mem_cons_self, ih⟩

theorem newline_notMem_stringify (v : Json) : '\n' ∉ stringify v := by
  induction v using Json.induction with
  | null => decide
  | bool b => cases b <;> decide
  | number n => exact fun h => absurd (n.isNumberChar_of_mem h) (by decide)
  | string s => exact newline_notMem_stringLiteral s
  | array items ih =>
    have h := newline_notMem_seqText (.inl rfl) (items.map stringify) (by simpa using ih)
    simpa [stringify_array] using h
  | object fields ih =>
    have hmember : ∀ f ∈ fields, '\n' ∉ memberText f := by
      intro f hf
      simpa [memberText] using ⟨newline_notMem_stringLiteral f.1, ih f hf⟩
    have h := newline_notMem_seqText (.inr rfl) (fields.map memberText) (forall_mem_map.mpr hmember)
    simpa [stringify_object] using h

/-! ### Texts that are cut off -/

/-- The first text is the second one, broken off before its end. -/
def CutOff (p t : List Char) : Prop := p <+: t ∧ p ≠ t

section CutOff

variable {p t : List Char} {c : Char}

theorem cutOff_cons_cons : CutOff (c :: p) (d :: t) ↔ c = d ∧ CutOff p t := by
  simp only [CutOff, cons_prefix_cons, ne_eq, cons.injEq]
  tauto

theorem CutOff.cons_cases (h : CutOff p (c :: t)) : p = [] ∨ ∃ q, p = c :: q ∧ CutOff q t := by
  cases p with
  | nil => exact .inl rfl
  | cons d q =>
    obtain ⟨rfl, hq⟩ := cutOff_cons_cons.mp h
    exact .inr ⟨q, rfl, hq⟩

theorem CutOff.eq_nil (h : CutOff p [c]) : p = [] := by
  obtain rfl | ⟨q, -, hq, hne⟩ := h.cons_cases
  · rfl
  · exact absurd (prefix_nil.mp hq) hne

theorem CutOff.length_lt (h : CutOff p t) : p.length < t.length :=
  lt_of_le_of_ne h.1.length_le fun hlength => h.2 (h.1.eq_of_length hlength)

/-- A concatenation is cut off in its first part, or in the second one. -/
theorem CutOff.append_cases {a b : List Char} (h : CutOff p (a ++ b)) :
    CutOff p a ∨ ∃ q, p = a ++ q ∧ CutOff q b := by
  obtain ⟨⟨r, hr⟩, hne⟩ := h
  obtain ⟨q, hp, hb⟩ | ⟨q, rfl, hb⟩ := append_eq_append_iff.mp hr
  · by_cases hq : q = []
    · subst hq
      obtain rfl : a = p := hp.trans (append_nil p)
      exact .inr ⟨[], (append_nil a).symm, nil_prefix, fun h => hne (by simp [← h])⟩
    · refine .inl ⟨⟨q, hp.symm⟩, ?_⟩
      rintro rfl
      exact hq (by simpa using hp)
  · exact .inr ⟨q, rfl, ⟨r, hb.symm⟩, fun h => hne (by rw [h])⟩

end CutOff

/-- No item, member or container can go on with this text. -/
def Blocked : Prop := ∀ c ∈ (skipSpace l).head?, c ≠ ',' ∧ c ≠ ':' ∧ ¬IsClosing c

/-- The parser has failed, or it stands in front of a text with which nothing can go on. -/
def Torn {B : Type} (r : Option (B × List Char)) : Prop := ∀ x l, r = some (x, l) → Blocked l

/-- The text of an object, which may follow where another text was cut off. -/
structure Continuation (s : List Char) : Prop where
  starts : ∃ c l, s = '{' :: '"' :: c :: l ∧ isSpace c = false ∧ c ≠ ',' ∧ c ≠ ':' ∧ ¬IsClosing c
  reads : ∀ n, s.length ≤ n → ∃ v, parseValue n s = some (v, [])

theorem blocked_nil : Blocked [] := fun _ h => nomatch h

theorem torn_none : Torn (none : Option (B × List Char)) := fun _ _ h => nomatch h

theorem torn_some {x : B} {l : List Char} (h : Blocked l) : Torn (some (x, l)) := by
  intro x l' hl
  cases hl
  exact h

/-- What is done with the part that was read does not matter. -/
theorem Torn.map {G : Type} {r : Option (B × List Char)} (h : Torn r) (f : B → G) :
    Torn (r.map fun x => (f x.1, x.2)) := by
  intro y l hl
  obtain ⟨⟨x, l'⟩, hr, hy⟩ := map_eq_some_iff.mp hl
  cases hy
  exact h x _ hr

theorem hexChar_eq_none {a b c : Char} (h : '{' ∈ [a, b, c, d]) : hexChar a b c d = none := by
  have hbrace : hexValue '{' = none := rfl
  obtain rfl | rfl | rfl | rfl : '{' = a ∨ '{' = b ∨ '{' = c ∨ '{' = d := by simpa using h
  · rfl
  · cases ha : hexValue a <;> simp [hexChar, ha, hbrace]
  · cases ha : hexValue a <;> cases hb : hexValue b <;> simp [hexChar, ha, hb, hbrace]
  · cases ha : hexValue a <;> cases hb : hexValue b <;> cases hc : hexValue c <;>
      simp [hexChar, ha, hb, hc, hbrace]

/-- An escape by number that runs into a bracket is not read. -/
theorem parseString_unicode_torn : (l : List Char) → '{' ∈ l.take 4 →
    parseString ('\\' :: 'u' :: l) = none
  | [], h => nomatch h
  | [_], _ => rfl
  | [_, _], _ => rfl
  | [_, _, _], _ => rfl
  | a :: b :: c :: d :: l, h => by rw [parseString, hexChar_eq_none (by simpa using h), bind_none]

section Torn

variable {s : List Char} (hs : Continuation s)

include hs

theorem Continuation.blocked : Blocked s := by
  obtain ⟨c, l, rfl, -⟩ := hs.starts
  intro d hd
  cases hd
  exact ⟨by decide, by decide, by rintro (h | h) <;> exact absurd h (by decide)⟩

theorem Continuation.delimited : Delimited s := by
  obtain ⟨c, l, rfl, -⟩ := hs.starts
  exact delimited_cons (by decide) _

theorem Continuation.torn_parseString : Torn (parseString s) := by
  obtain ⟨c, l, rfl, hspace, hc⟩ := hs.starts
  refine torn_some ?_
  rw [Blocked, skipSpace_cons hspace]
  exact fun d hd => some.inj hd ▸ hc

variable {p q : List Char}

/-- A character that is cut off in a string literal. -/
theorem Continuation.torn_escapeChar (c : Char) (hp : CutOff p (escapeChar c)) :
    Torn (parseString (p ++ s)) := by
  obtain ⟨d, l, hs', -⟩ := hs.starts
  have hslash : parseString ('\\' :: s) = none := by
    rw [hs', parseString_escape (by decide)]
    rfl
  have hunicode : ∀ q : List Char, q.length < 4 → parseString ('\\' :: 'u' :: (q ++ s)) = none := by
    intro q hq
    refine parseString_unicode_torn _ ?_
    rw [hs', take_append, mem_append]
    obtain ⟨n, hn⟩ := Nat.exists_eq_add_of_lt hq
    rw [hn, show q.length + n + 1 - q.length = n + 1 by omega]
    exact .inr mem_cons_self
  obtain ⟨e, hc, -⟩ | ⟨a, b, hc, -⟩ | ⟨hc, -⟩ := escapeChar_cases c <;> rw [hc] at hp
  · obtain rfl | ⟨q, rfl, hq⟩ := hp.cons_cases
    · exact hs.torn_parseString
    · obtain rfl := hq.eq_nil
      exact hslash ▸ torn_none
  · obtain rfl | ⟨q, rfl, hq⟩ := hp.cons_cases
    · exact hs.torn_parseString
    obtain rfl | ⟨r, rfl, hr⟩ := hq.cons_cases
    · exact hslash ▸ torn_none
    · exact hunicode r hr.length_lt ▸ torn_none
  · obtain rfl := hp.eq_nil
    exact hs.torn_parseString

/-- A string literal that is cut off ends with the first quote of the continuation. -/
theorem parseString_torn : (t : List Char) → {p : List Char} → CutOff p (stringTail t) →
    Torn (parseString (p ++ s))
  | [], p, hp => by
    rw [hp.eq_nil, nil_append]
    exact hs.torn_parseString
  | c :: t, p, hp => by
    rw [stringTail_cons] at hp
    obtain hp | ⟨q, rfl, hq⟩ := hp.append_cases
    · exact hs.torn_escapeChar c hp
    · rw [append_assoc, parseString_escapeChar]
      exact (parseString_torn t hq).map _

section Sequences

variable {B : Type} {close : Char} {item : List Char → Option (B × List Char)}

omit hs in
/-- A sequence stops where an item is torn. -/
theorem parseSeq_of_torn (hclose : IsClosing close) (n : ℕ) {l : List Char} (h : Torn (item l)) :
    parseSeq close item n l = none := by
  cases n with
  | zero => rfl
  | succ =>
    rw [parseSeq]
    cases hitem : item l with
    | none => rfl
    | some r =>
      obtain ⟨x, l'⟩ := r
      have hblocked := h x l' hitem
      simp only [bind_eq_bind, bind_some]
      cases hl : skipSpace l' with
      | nil => rfl
      | cons c =>
        obtain ⟨hcomma, -, hc⟩ := hblocked c (by rw [hl]; rfl)
        have hne : c ≠ close := fun h => hc (h ▸ hclose)
        simp [hne, hcomma]

/-- A sequence that is cut off is not read. The items up to the length `k` of the text can be
read, and those that are cut off are torn. -/
theorem parseSeq_torn (hclose : IsClosing close) (text : B → List Char) (k : ℕ)
    (hnil : Torn (item s)) :
    (xs : List B) → (n : ℕ) → {p : List Char} → CutOff p (seqText close (xs.map text)) →
      p.length ≤ k →
      (∀ x ∈ xs, (text x).length ≤ k → ∀ l, Delimited l → item (text x ++ l) = some (x, l)) →
      (∀ x ∈ xs, ∀ p, CutOff p (text x) → p.length ≤ k → Torn (item (p ++ s))) →
      parseSeq close item n (p ++ s) = none
  | [], n, p, hp, hk, hread, htorn => by
    obtain rfl := hp.eq_nil
    exact parseSeq_of_torn hclose n hnil
  | [x], n, p, hp, hk, hread, htorn => by
    obtain hp | ⟨q, rfl, hq⟩ := hp.append_cases
    · exact parseSeq_of_torn hclose n (htorn x mem_cons_self p hp hk)
    · obtain rfl := hq.eq_nil
      rw [append_nil] at hk ⊢
      exact parseSeq_of_torn hclose n
        (hread x mem_cons_self hk s hs.delimited ▸ torn_some hs.blocked)
  | x :: y :: xs, n, p, hp, hk, hread, htorn => by
    obtain hp | ⟨q, rfl, hq⟩ := hp.append_cases
    · exact parseSeq_of_torn hclose n (htorn x mem_cons_self p hp hk)
    rw [length_append] at hk
    have hitem := hread x mem_cons_self (by omega)
    obtain rfl | ⟨r, rfl, hr⟩ := hq.cons_cases
    · rw [append_nil]
      exact parseSeq_of_torn hclose n (hitem s hs.delimited ▸ torn_some hs.blocked)
    · -- the comma is there: the rest of the sequence is cut off
      cases n with
      | zero => rfl
      | succ n =>
        rw [length_cons] at hk
        have ih := parseSeq_torn hclose text k hnil (y :: xs) n hr (by omega)
          (fun x hx => hread x (mem_cons_of_mem _ hx))
          fun x hx => htorn x (mem_cons_of_mem _ hx)
        rw [append_assoc, cons_append,
          parseSeq_of_item n (by decide) (hitem (',' :: (r ++ s)) (delimited_cons (by decide) _)),
          if_neg hclose.ne_comma, if_pos rfl, ih]
        rfl

/-- A container that is cut off is not read. -/
theorem parseContainer_torn (hclose : IsClosing close) (text : B → List Char) (k : ℕ)
    (hstart : ∀ x, StartsItem (text x)) (hnil : Torn (item s)) (xs : List B) {p : List Char}
    (hp : CutOff p (seqText close (xs.map text))) (hk : p.length ≤ k)
    (hread : ∀ x ∈ xs, (text x).length ≤ k → ∀ l, Delimited l → item (text x ++ l) = some (x, l))
    (htorn : ∀ x ∈ xs, ∀ p, CutOff p (text x) → p.length ≤ k → Torn (item (p ++ s))) :
    parseContainer close item (p ++ s) = none := by
  have hseq := parseSeq_torn hs hclose text k hnil xs (p ++ s).length hp hk hread htorn
  cases p with
  | nil =>
    obtain ⟨c, l, hs', -⟩ := hs.starts
    have hbrace : '{' ≠ close := by rcases hclose with rfl | rfl <;> decide
    rw [nil_append] at hseq ⊢
    rw [hs'] at hseq ⊢
    rw [parseContainer, skipSpace_cons (by decide)]
    simp only [hbrace, ↓reduceIte]
    exact hseq
  | cons c q =>
    have hp' : StartsItem (c :: q) := by
      cases xs with
      | nil => exact absurd hp.eq_nil (cons_ne_nil c q)
      | cons x xs =>
        obtain ⟨d, l, hd, hc⟩ : StartsItem (seqText close ((x :: xs).map text)) :=
          startsItem_seqText (hstart x) _
        rw [hd] at hp
        obtain ⟨rfl, -⟩ := cutOff_cons_cons.mp hp
        exact ⟨c, q, rfl, hc⟩
    rw [parseContainer_of_startsItem hclose hp', hseq]

end Sequences

theorem Continuation.parseMember_eq_none (value : List Char → Option (Json × List Char)) :
    parseMember value s = none := by
  obtain ⟨c, l, rfl, -⟩ := hs.starts
  rfl

/-- A member that is cut off is torn if its value is. -/
theorem parseMember_torn (f : String × Json) (hp : CutOff p (memberText f))
    (hvalue : ∀ q, CutOff q (stringify f.2) → q.length ≤ p.length → Torn (value (q ++ s))) :
    Torn (parseMember value (p ++ s)) := by
  have htext : memberText f = '"' :: (stringTail f.1.toList ++ ':' :: stringify f.2) := by
    simp [memberText, stringLiteral]
  rw [htext] at hp
  obtain rfl | ⟨q, rfl, hq⟩ := hp.cons_cases
  · exact hs.parseMember_eq_none value ▸ torn_none
  rw [cons_append, parseMember, skipSpace_cons (by decide)]
  simp only [bind_eq_bind]
  obtain hkey | ⟨r, rfl, hr⟩ := hq.append_cases
  · -- the key is cut off, and no colon follows it
    have htorn := parseString_torn hs f.1.toList hkey
    cases hread : parseString (q ++ s) with
    | none => exact torn_none
    | some r =>
      have hblocked := htorn r.1 r.2 hread
      simp only [bind_some]
      split
      · next l hl => exact absurd rfl (hblocked ':' (by rw [hl]; rfl)).2.1
      · exact torn_none
  rw [append_assoc, parseString_stringTail]
  simp only [bind_some]
  obtain rfl | ⟨t, rfl, ht⟩ := hr.cons_cases
  · obtain ⟨c, l, rfl, -⟩ := hs.starts
    exact torn_none
  · have hlength : t.length ≤ ('"' :: (stringTail f.1.toList ++ ':' :: t)).length := by
      simp only [length_cons, length_append]
      omega
    have hmap := (hvalue t ht hlength).map fun v => (String.ofList f.1.toList, v)
    rw [cons_append, skipSpace_cons (by decide)]
    simpa [map_eq_bind] using hmap

/-- The members of an object that are cut off are not read. -/
theorem parseMembers_torn (n : ℕ) (fields : List (String × Json))
    (hq : CutOff q (seqText '}' (fields.map memberText))) (hn : q.length ≤ n)
    (hvalues : ∀ f ∈ fields, ∀ p, CutOff p (stringify f.2) → p.length ≤ q.length →
      Torn (parseValue n (p ++ s))) :
    parseContainer '}' (parseMember (parseValue n)) (q ++ s) = none := by
  refine parseContainer_torn hs (.inr rfl) memberText q.length startsItem_memberText
    (hs.parseMember_eq_none (parseValue n) ▸ torn_none) fields hq le_rfl ?_ ?_
  · intro f _ hf l hl
    rw [memberText, length_append, length_cons] at hf
    exact parseMember_memberText f (parseValue_stringify f.2 n l (by omega) hl)
  · intro f hf p hp _
    exact parseMember_torn hs f hp fun r hr _ => hvalues f hf r hr (by omega)

/-- A number literal that is cut off is read as the number that is there, if it is one. -/
theorem parseNumber_torn (hp : ∀ c ∈ p, isNumberChar c = true) : Torn (parseNumber (p ++ s)) := by
  obtain ⟨c, l, hs', -⟩ := hs.starts
  have hdrop : (p ++ s).dropWhile isNumberChar = s := by
    rw [dropWhile_append_of_pos hp, hs']
    exact dropWhile_cons_of_neg (by decide)
  rw [parseNumber, hdrop]
  split
  · exact torn_some hs.blocked
  · exact torn_none

/-- A keyword that is cut off is not read. -/
theorem parseValue_keyword_torn (n : ℕ) {c : Char} {w : List Char}
    (hw : w ∈ [['n', 'u', 'l', 'l'], ['t', 'r', 'u', 'e'], ['f', 'a', 'l', 's', 'e']])
    (hp : CutOff (c :: q) w) : parseValue (n + 1) (c :: q ++ s) = none := by
  obtain ⟨d, l, rfl, -⟩ := hs.starts
  obtain ⟨hp, hne⟩ := hp
  have hmem := (mem_inits _ _).mpr hp
  simp only [mem_cons, not_mem_nil, or_false] at hw
  rcases hw with rfl | rfl | rfl <;>
    simp only [inits, map_cons, map_nil, mem_cons, not_mem_nil, or_false,
      reduceCtorEq, false_or] at hmem
  iterate 2
    · obtain h | h | h | h := hmem <;>
        first
        | exact absurd h hne
        | rw [h]; rfl
  · obtain h | h | h | h | h := hmem <;>
      first
      | exact absurd h hne
      | rw [h]; rfl

/-- **A value that is cut off.** Where a value is cut off and another text follows, the parser
fails or stops where nothing can go on. -/
theorem parseValue_torn (v : Json) :
    ∀ (n : ℕ) (p : List Char), CutOff p (stringify v) → p.length + s.length ≤ n →
      Torn (parseValue n (p ++ s)) := by
  have hnil : ∀ n, s.length ≤ n → Torn (parseValue n s) := by
    intro n hn
    obtain ⟨w, hw⟩ := hs.reads n hn
    exact hw ▸ torn_some blocked_nil
  -- where the value has started, there is room for it
  have hcons : ∀ t, (∀ n c q, CutOff (c :: q) t → q.length + s.length ≤ n →
      Torn (parseValue (n + 1) (c :: q ++ s))) → ∀ (n : ℕ) (p : List Char), CutOff p t →
      p.length + s.length ≤ n → Torn (parseValue n (p ++ s)) := by
    intro t h n p hp hn
    cases p with
    | nil => exact hnil n (by simpa using hn)
    | cons c q =>
      rw [length_cons, Nat.add_right_comm] at hn
      obtain ⟨m, rfl⟩ := Nat.exists_eq_add_of_le' (Nat.one_le_of_lt hn)
      exact h m c q hp (Nat.le_of_succ_le_succ hn)
  induction v using Json.induction with
  | null =>
    refine hcons _ fun n c q hp _ => ?_
    exact parseValue_keyword_torn hs n (by simp [stringify]) hp ▸ torn_none
  | bool b =>
    refine hcons _ fun n c q hp _ => ?_
    cases b <;> exact parseValue_keyword_torn hs n (by simp [stringify]) hp ▸ torn_none
  | number m =>
    refine hcons _ fun n c q hp _ => ?_
    have hchars : ∀ d ∈ c :: q, isNumberChar d = true := fun d hd =>
      m.isNumberChar_of_mem (hp.1.subset hd)
    rw [cons_append, parseValue_number n (hchars c mem_cons_self), ← cons_append]
    exact parseNumber_torn hs hchars
  | string u =>
    refine hcons _ fun n c q hp _ => ?_
    obtain ⟨rfl, hq⟩ := cutOff_cons_cons.mp hp
    rw [cons_append, parseValue_string]
    exact (parseString_torn hs u.toList hq).map fun k => Json.string (String.ofList k)
  | array items ih =>
    rw [stringify_array]
    refine hcons _ fun n c q hp hn => ?_
    obtain ⟨rfl, hq⟩ := cutOff_cons_cons.mp hp
    have hread := parseContainer_torn hs (.inl rfl) stringify q.length startsItem_stringify
      (hnil n (by omega)) items hq le_rfl
      (fun v _ hv l hl => parseValue_stringify v n l (by omega) hl)
      fun v hv p hp hk => ih v hv n p hp (by omega)
    rw [cons_append, parseValue_array, hread]
    exact torn_none
  | object fields ih =>
    rw [stringify_object]
    refine hcons _ fun n c q hp _ => ?_
    obtain ⟨rfl, hq⟩ := cutOff_cons_cons.mp hp
    have hread := parseMembers_torn hs n fields hq (by omega)
      fun f hf p hp _ => ih f hf n p hp (by omega)
    rw [cons_append, parseValue_object, hread]
    exact torn_none

/-- **A cut-off object in front of an object is not a JSON text.** -/
theorem parse_torn_append (fields : List (String × Json)) (hnil : p ≠ [])
    (hp : p <+: stringify (.object fields)) : parse (p ++ s) = none := by
  rw [parse, length_append]
  by_cases hwhole : p = stringify (.object fields)
  · have hread := parseValue_stringify (.object fields) (p.length + s.length) s
      (by rw [hwhole]; omega) hs.delimited
    obtain ⟨c, l, rfl, -⟩ := hs.starts
    rw [hwhole] at hread ⊢
    rw [hread]
    rfl
  · have hcut : CutOff p (stringify (.object fields)) := ⟨hp, hwhole⟩
    rw [stringify_object] at hcut
    obtain ⟨q, rfl, hq⟩ := hcut.cons_cases.resolve_left hnil
    have hread := parseMembers_torn hs (q.length + s.length) fields hq (by omega)
      fun f _ p hp _ => parseValue_torn hs f.2 _ p hp (by omega)
    rw [length_cons, add_right_comm, cons_append, parseValue_object, hread]
    rfl

end Torn

/-- The text of an object whose first key starts with a plain character can follow where another
text was cut off. -/
theorem continuation_object {k : String} {c : Char} (hk : k.toList = c :: t)
    (hescape : escapeChar c = [c])
    (hc : isSpace c = false ∧ c ≠ ',' ∧ c ≠ ':' ∧ ¬IsClosing c) (v : Json)
    (fields : List (String × Json)) : Continuation (stringify (.object ((k, v) :: fields))) := by
  refine ⟨?_, fun n hn => ⟨.object ((k, v) :: fields), ?_⟩⟩
  · have hmember : memberText (k, v) = '"' :: c :: (stringTail t ++ ':' :: stringify v) := by
      simp [memberText, stringLiteral, stringTail, hk, hescape]
    rw [stringify_object, map_cons, hmember]
    cases fields with
    | nil => exact ⟨c, _, rfl, hc⟩
    | cons => exact ⟨c, _, rfl, hc⟩
  · have hread := parseValue_stringify (.object ((k, v) :: fields)) n [] hn delimited_nil
    rwa [append_nil] at hread

/-! ### Taking a value apart -/

/-- `v[k]`; of members with the same key the last one counts. -/
def member (v : Json) (k : String) : Option Json :=
  match v with
  | .object fields => fields.reverse.lookup k
  | _ => none

def asString : Json → Option String
  | .string s => some s
  | _ => none

def asNat : Json → Option ℕ
  | .number n => n.toNat?
  | _ => none

def asInt : Json → Option ℤ
  | .number n => n.toInt?
  | _ => none

/-- A record of values by key. -/
def asRecord : Json → Option (OrderedMap String Json)
  | .object fields => some (fields.foldl (fun m f => m.set f.1 f.2) .empty)
  | _ => none

@[simp] theorem asRecord_entries (m : OrderedMap String Json) :
    asRecord (.object m.entries) = some m := by rw [asRecord, m.foldl_set_entries]

end Json

end DistributedCore
