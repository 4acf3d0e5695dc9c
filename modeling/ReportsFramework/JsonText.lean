/-
JSON texts: `JSON.stringify` and `JSON.parse`.
-/
import Mathlib.Algebra.Order.Field.Rat
import ReportsFramework.JsObject

namespace Js

namespace Json

section Numbers

/-- The value of decimal digits, from the left. -/
def digitsValue (digits : List Char) : ℕ :=
  digits.foldl (fun value c => 10 * value + (c.toNat - '0'.toNat)) 0

def isExponentMark (c : Char) : Bool := c = 'e' || c = 'E'

/-- The value of a decimal literal. -/
def decimalValue (isNegative : Bool) (int frac : List Char) (exponent : ℤ) : ℚ :=
  let value : ℚ := digitsValue (int ++ frac)
  let exponent := exponent - frac.length
  let scaled := if 0 ≤ exponent then value * 10 ^ exponent.toNat else value / 10 ^ (-exponent).toNat
  if isNegative then -scaled else scaled

/-- A sign that may be missing; `isPlusAllowed` in front of an exponent. -/
def scanSign (isPlusAllowed : Bool) : List Char → Bool × List Char
  | '-' :: rest => (true, rest)
  | '+' :: rest => if isPlusAllowed then (false, rest) else (false, '+' :: rest)
  | cs => (false, cs)

/-- The whole part of a JSON number has no leading zero. -/
def scanInt : List Char → Option (List Char × List Char)
  | '0' :: rest => some (['0'], rest)
  | c :: rest => if c.isDigit then some ((c :: rest).span Char.isDigit) else none
  | [] => none

def scanFrac : List Char → Option (List Char × List Char)
  | '.' :: rest =>
      let (digits, rest) := rest.span Char.isDigit
      if digits.isEmpty then none else some (digits, rest)
  | cs => some ([], cs)

def scanExponent : List Char → Option (ℤ × List Char)
  | c :: rest =>
      if isExponentMark c then
        let (isNegative, rest) := scanSign true rest
        let (digits, rest) := rest.span Char.isDigit
        if digits.isEmpty then none
        else some (if isNegative then -digitsValue digits else digitsValue digits, rest)
      else some (0, c :: rest)
  | [] => some (0, [])

/-- A number, and what is behind it. -/
def scanNumber (cs : List Char) : Option (ℚ × List Char) := do
  let (isNegative, cs) := scanSign false cs
  let (int, cs) ← scanInt cs
  let (frac, cs) ← scanFrac cs
  let (exponent, cs) ← scanExponent cs
  return (decimalValue isNegative int frac exponent, cs)

end Numbers

section Strings

/-- A character of a string, or a code unit of UTF-16 that is escaped. -/
inductive Piece
  | char (c : Char)
  | unit (n : ℕ)

def hexDigitValue (c : Char) : Option ℕ :=
  if c.isDigit then some (c.toNat - '0'.toNat)
  else if 'a' ≤ c ∧ c ≤ 'f' then some (c.toNat - 'a'.toNat + 10)
  else if 'A' ≤ c ∧ c ≤ 'F' then some (c.toNat - 'A'.toNat + 10)
  else none

def escapedUnit (a b c d : Char) : Option ℕ := do
  let a ← hexDigitValue a
  let b ← hexDigitValue b
  let c ← hexDigitValue c
  let d ← hexDigitValue d
  return 4096 * a + 256 * b + 16 * c + d

/-- What a letter behind a backslash stands for. -/
def escapedChar : Char → Option Char
  | '"' => some '"'
  | '\\' => some '\\'
  | '/' => some '/'
  | 'b' => some (Char.ofNat 8)
  | 'f' => some (Char.ofNat 12)
  | 'n' => some '\n'
  | 'r' => some '\r'
  | 't' => some '\t'
  | _ => none

/-- The pieces up to the closing quote, and what is behind it. -/
def scanPieces : List Char → Option (List Piece × List Char)
  | [] => none
  | '"' :: rest => some ([], rest)
  | '\\' :: 'u' :: a :: b :: c :: d :: rest => do
      let unit ← escapedUnit a b c d
      let (pieces, rest) ← scanPieces rest
      return (.unit unit :: pieces, rest)
  | '\\' :: c :: rest => do
      let c ← escapedChar c
      let (pieces, rest) ← scanPieces rest
      return (.char c :: pieces, rest)
  | c :: rest =>
      if c.toNat < 32 || c = '\\' then none
      else do
        let (pieces, rest) ← scanPieces rest
        return (.char c :: pieces, rest)

def isHighSurrogate (n : ℕ) : Bool := 0xD800 ≤ n && n < 0xDC00

def isLowSurrogate (n : ℕ) : Bool := 0xDC00 ≤ n && n < 0xE000

/-- U+FFFD, for a surrogate without its pair, as the strings here have no surrogates. -/
def replacementChar : Char := Char.ofNat 0xFFFD

/-- `high` is a surrogate that waits for its pair. -/
def decodePieces : Option ℕ → List Piece → List Char
  | high, [] => (high.map fun _ => replacementChar).toList
  | high, .char c :: rest =>
      (high.map fun _ => replacementChar).toList ++ c :: decodePieces none rest
  | none, .unit n :: rest =>
      if isHighSurrogate n then decodePieces (some n) rest
      else (if isLowSurrogate n then replacementChar else Char.ofNat n) :: decodePieces none rest
  | some high, .unit n :: rest =>
      if isLowSurrogate n then
        Char.ofNat (0x10000 + 1024 * (high - 0xD800) + (n - 0xDC00)) :: decodePieces none rest
      else if isHighSurrogate n then replacementChar :: decodePieces (some n) rest
      else replacementChar :: Char.ofNat n :: decodePieces none rest

/-- A string behind its opening quote. -/
def scanString (cs : List Char) : Option (String × List Char) := do
  let (pieces, rest) ← scanPieces cs
  return (String.ofList (decodePieces none pieces), rest)

def hexDigit (n : ℕ) : Char :=
  if n < 10 then Char.ofNat ('0'.toNat + n) else Char.ofNat ('a'.toNat + (n - 10))

/-- `QuoteJSONString` of one character. -/
def quoteChar (c : Char) : List Char :=
  if c = '"' then ['\\', '"']
  else if c = '\\' then ['\\', '\\']
  else if c.toNat = 8 then ['\\', 'b']
  else if c.toNat = 9 then ['\\', 't']
  else if c.toNat = 10 then ['\\', 'n']
  else if c.toNat = 12 then ['\\', 'f']
  else if c.toNat = 13 then ['\\', 'r']
  else if c.toNat < 32 then ['\\', 'u', '0', '0', hexDigit (c.toNat / 16), hexDigit (c.toNat % 16)]
  else [c]

def quote (s : String) : List Char := '"' :: s.toList.flatMap quoteChar ++ ['"']

end Strings

section Texts

def isWhitespace (c : Char) : Bool := c = ' ' || c = '\t' || c = '\n' || c = '\r'

def skipWhitespace (cs : List Char) : List Char := cs.dropWhile isWhitespace

/-- The items of an array behind its opening bracket, at most `n`. -/
def scanItems (scanValue : List Char → Option (Val × List Char)) :
    ℕ → List Char → Option (List Val × List Char)
  | 0, _ => none
  | n + 1, cs => do
      let (item, cs) ← scanValue cs
      match skipWhitespace cs with
      | ',' :: cs =>
          let (items, cs) ← scanItems scanValue n cs
          return (item :: items, cs)
      | ']' :: cs => return ([item], cs)
      | _ => none

/-- The members of an object behind its opening brace, at most `n`; of members of one name
the last counts. -/
def scanMembers (scanValue : List Char → Option (Val × List Char)) :
    ℕ → Obj → List Char → Option (Obj × List Char)
  | 0, _, _ => none
  | n + 1, o, cs =>
      match skipWhitespace cs with
      | '"' :: cs => do
          let (key, cs) ← scanString cs
          match skipWhitespace cs with
          | ':' :: cs =>
              let (val, cs) ← scanValue cs
              match skipWhitespace cs with
              | ',' :: cs => scanMembers scanValue n (o.set key val) cs
              | '\x7d' :: cs => return (o.set key val, cs)
              | _ => none
          | _ => none
      | _ => none

/-- A value, and what is behind it; the fuel bounds the depth and the lengths. -/
def scanValue : ℕ → List Char → Option (Val × List Char)
  | 0, _ => none
  | fuel + 1, cs =>
      match skipWhitespace cs with
      | 'n' :: 'u' :: 'l' :: 'l' :: cs => some (.null, cs)
      | 't' :: 'r' :: 'u' :: 'e' :: cs => some (.bool true, cs)
      | 'f' :: 'a' :: 'l' :: 's' :: 'e' :: cs => some (.bool false, cs)
      | '"' :: cs => (scanString cs).map fun (s, cs) => (.str s, cs)
      | '[' :: cs =>
          match skipWhitespace cs with
          | ']' :: cs => some (.arr [], cs)
          | cs => (scanItems (scanValue fuel) fuel cs).map fun (items, cs) => (.arr items, cs)
      | '\x7b' :: cs =>
          match skipWhitespace cs with
          | '\x7d' :: cs => some (.obj [], cs)
          | cs => (scanMembers (scanValue fuel) fuel [] cs).map fun (o, cs) => (.obj o, cs)
      | cs => (scanNumber cs).map fun (x, cs) => (.num x, cs)

/-- `JSON.parse`, where `none` stands for an error. -/
def parse (cs : List Char) : Option Val := do
  let (val, rest) ← scanValue (cs.length + 1) cs
  if (skipWhitespace rest).isEmpty then return val else none

example : (parse "\x7b\"a\": [1, -2.5e1, null], \"b\": \"\\u0041\\n\"\x7d".toList).isSome ∧
    (parse "[01]".toList).isNone ∧ (parse "abc".toList).isNone := by decide +kernel

end Texts

/-- How numbers are written: as JSON numbers that read back. -/
structure NumberText where
  isNumber : ℚ → Prop
  text : ℚ → List Char
  scan_text : ∀ x, isNumber x → scanNumber (text x) = some (x, [])

section Stringify

variable (numbers : NumberText)

def isUndefined : Val → Bool
  | .undefined => true
  | _ => false

def joined (texts : List (List Char)) : List Char := List.intercalate [','] texts

mutual

/-- `JSON.stringify`; what is `undefined` is `null` in an array and is left out of an object. -/
def stringify : Val → List Char
  | .undefined => ['n', 'u', 'l', 'l']
  | .null => ['n', 'u', 'l', 'l']
  | .bool true => ['t', 'r', 'u', 'e']
  | .bool false => ['f', 'a', 'l', 's', 'e']
  | .num x => numbers.text x
  | .str s => quote s
  | .arr items => '[' :: joined (itemTexts items) ++ [']']
  | .obj entries => '\x7b' :: joined (memberTexts entries) ++ ['\x7d']

def itemTexts : List Val → List (List Char)
  | [] => []
  | item :: rest => stringify item :: itemTexts rest

def memberTexts : List (String × Val) → List (List Char)
  | [] => []
  | (key, val) :: rest =>
      if isUndefined val then memberTexts rest
      else (quote key ++ ':' :: stringify val) :: memberTexts rest

end

mutual

/-- What is left of a value in its text. -/
def clean : Val → Val
  | .undefined => .null
  | .arr items => .arr (cleanItems items)
  | .obj entries => .obj (cleanEntries entries)
  | val => val

def cleanItems : List Val → List Val
  | [] => []
  | item :: rest => clean item :: cleanItems rest

def cleanEntries : List (String × Val) → List (String × Val)
  | [] => []
  | (key, val) :: rest =>
      if isUndefined val then cleanEntries rest else (key, clean val) :: cleanEntries rest

end

/-- A value that JavaScript can hold: its numbers are numbers there, and an object has each
key once. -/
inductive Valid (isNumber : ℚ → Prop) : Val → Prop
  | undefined : Valid isNumber .undefined
  | null : Valid isNumber .null
  | bool (b : Bool) : Valid isNumber (.bool b)
  | num (x : ℚ) (h : isNumber x) : Valid isNumber (.num x)
  | str (s : String) : Valid isNumber (.str s)
  | arr (items : List Val) (h : ∀ item ∈ items, Valid isNumber item) : Valid isNumber (.arr items)
  | obj (entries : List (String × Val)) (hkeys : (entries.map Prod.fst).Nodup)
      (h : ∀ entry ∈ entries, Valid isNumber entry.2) : Valid isNumber (.obj entries)

theorem itemTexts_eq_map (items : List Val) :
    itemTexts numbers items = items.map (stringify numbers) := by
  induction items with
  | nil => rfl
  | cons item rest ih => rw [itemTexts, ih, List.map_cons]

theorem cleanItems_eq_map (items : List Val) : cleanItems items = items.map clean := by
  induction items with
  | nil => rfl
  | cons item rest ih => rw [cleanItems, ih, List.map_cons]

theorem memberTexts_eq_map (entries : List (String × Val)) :
    memberTexts numbers entries = (entries.filter fun entry => !isUndefined entry.2).map
      fun entry => quote entry.1 ++ ':' :: stringify numbers entry.2 := by
  induction entries with
  | nil => rfl
  | cons entry rest ih =>
    obtain ⟨key, val⟩ := entry
    rw [memberTexts, ih]
    cases hval : isUndefined val with
    | true => rw [List.filter_cons_of_neg (by simp [hval]), if_pos rfl]
    | false => rw [List.filter_cons_of_pos (by simp [hval]), if_neg (by simp), List.map_cons]

theorem cleanEntries_eq_map (entries : List (String × Val)) :
    cleanEntries entries = (entries.filter fun entry => !isUndefined entry.2).map
      fun entry => (entry.1, clean entry.2) := by
  induction entries with
  | nil => rfl
  | cons entry rest ih =>
    obtain ⟨key, val⟩ := entry
    rw [cleanEntries, ih]
    cases hval : isUndefined val with
    | true => rw [List.filter_cons_of_neg (by simp [hval]), if_pos rfl]
    | false => rw [List.filter_cons_of_pos (by simp [hval]), if_neg (by simp), List.map_cons]

end Stringify

end Json

end Js
