import Quantities.Json.Tree

/-!
# Reading JSON

A reader of RFC 8259 texts.  Each function reads from the front of a list of characters and gives what
it read and the characters after it, or nothing when the text is malformed.
-/

namespace Quantities

namespace JsonReader

def isSpace (c : Char) : Bool :=
  c = ' ' || c = '\n' || c = '\t' || c = '\r'

def skipSpace (text : List Char) : List Char :=
  text.dropWhile isSpace

def readDigits (text : List Char) : Option (List Char × List Char) :=
  match text.takeWhile Char.isDigit with
  | [] => none
  | digits => some (digits, text.dropWhile Char.isDigit)

/-- The digits of a whole number: a zero stands alone. -/
def readWhole : List Char → Option (List Char × List Char)
  | '0' :: rest => some (['0'], rest)
  | text => readDigits text

def readFraction : List Char → Option (Option (List Char) × List Char)
  | '.' :: rest => (readDigits rest).map fun (digits, rest) => (some digits, rest)
  | text => some (none, text)

def readSigned : List Char → Option (Int × List Char)
  | '-' :: rest => (readDigits rest).map fun (digits, rest) =>
      (-(Nat.ofDigitChars 10 digits 0 : Int), rest)
  | '+' :: rest => (readDigits rest).map fun (digits, rest) => (Nat.ofDigitChars 10 digits 0, rest)
  | text => (readDigits text).map fun (digits, rest) => (Nat.ofDigitChars 10 digits 0, rest)

def readExponent : List Char → Option (Option Int × List Char)
  | 'e' :: rest => (readSigned rest).map fun (exponent, rest) => (some exponent, rest)
  | 'E' :: rest => (readSigned rest).map fun (exponent, rest) => (some exponent, rest)
  | text => some (none, text)

def numberOf (negative : Bool) (whole : List Char) (fraction : Option (List Char))
    (exponent : Option Int) : JsonTree :=
  match fraction, exponent with
  | none, none => .integer negative (Nat.ofDigitChars 10 whole 0)
  | fraction, exponent =>
      let places := fraction.getD []
      let decimal : Decimal :=
        ⟨Nat.ofDigitChars 10 (whole ++ places) 0, exponent.getD 0 - places.length⟩
      .real negative decimal.normalized

def readMagnitude (negative : Bool) (text : List Char) : Option (JsonTree × List Char) := do
  let (whole, rest) ← readWhole text
  let (fraction, rest) ← readFraction rest
  let (exponent, rest) ← readExponent rest
  return (numberOf negative whole fraction exponent, rest)

def readNumber : List Char → Option (JsonTree × List Char)
  | '-' :: rest => readMagnitude true rest
  | text => readMagnitude false text

def hexDigit? (c : Char) : Option Nat :=
  if '0' ≤ c ∧ c ≤ '9' then
    some (c.toNat - '0'.toNat)
  else if 'a' ≤ c ∧ c ≤ 'f' then
    some (c.toNat - 'a'.toNat + 10)
  else if 'A' ≤ c ∧ c ≤ 'F' then
    some (c.toNat - 'A'.toNat + 10)
  else
    none

def hexUnit? (a b c d : Char) : Option Nat := do
  let a ← hexDigit? a
  let b ← hexDigit? b
  let c ← hexDigit? c
  let d ← hexDigit? d
  return ((a * 16 + b) * 16 + c) * 16 + d

def escaped? : Char → Option Char
  | '"' => some '"'
  | '\\' => some '\\'
  | '/' => some '/'
  | 'b' => some '\x08'
  | 'f' => some '\x0c'
  | 'n' => some '\n'
  | 'r' => some '\r'
  | 't' => some '\t'
  | _ => none

/-- A part of a string: a character, or a 16-bit unit that was escaped by its number. -/
inductive Piece where
  | char (c : Char)
  | unit (number : Nat)
deriving DecidableEq, Repr

/-- The pieces of a string up to its closing quote, after the opening one. -/
def readPieces : List Char → Option (List Piece × List Char)
  | [] => none
  | '"' :: rest => some ([], rest)
  | '\\' :: 'u' :: a :: b :: c :: d :: rest => do
      let unit ← hexUnit? a b c d
      let (pieces, rest) ← readPieces rest
      return (.unit unit :: pieces, rest)
  | '\\' :: letter :: rest => do
      let c ← escaped? letter
      let (pieces, rest) ← readPieces rest
      return (.char c :: pieces, rest)
  | c :: rest =>
      if c.toNat < 0x20 || c = '\\' then
        none
      else do
        let (pieces, rest) ← readPieces rest
        return (.char c :: pieces, rest)

/-- The characters of some pieces; a unit that is half of a surrogate pair needs the other half. -/
def joinPieces : List Piece → Option (List Char)
  | [] => some []
  | .char c :: rest => (joinPieces rest).map (c :: ·)
  | .unit high :: .unit low :: rest =>
      if 0xd800 ≤ high ∧ high < 0xdc00 then
        if 0xdc00 ≤ low ∧ low < 0xe000 then
          (joinPieces rest).map
            (.ofNat (0x10000 + (high - 0xd800) * 0x400 + (low - 0xdc00)) :: ·)
        else
          none
      else if 0xdc00 ≤ high ∧ high < 0xe000 then
        none
      else
        (joinPieces (.unit low :: rest)).map (.ofNat high :: ·)
  | .unit number :: rest =>
      if 0xd800 ≤ number ∧ number < 0xe000 then
        none
      else
        (joinPieces rest).map (.ofNat number :: ·)

def readText (text : List Char) : Option (Option String × List Char) :=
  (readPieces text).map fun (pieces, rest) => ((joinPieces pieces).map String.ofList, rest)

mutual

/-- A value, with blanks in front.  The fuel bounds the depth of the calls. -/
def readValue : Nat → List Char → Option (JsonTree × List Char)
  | 0, _ => none
  | fuel + 1, text =>
      match skipSpace text with
      | 'n' :: 'u' :: 'l' :: 'l' :: rest => some (.null, rest)
      | 't' :: 'r' :: 'u' :: 'e' :: rest => some (.bool true, rest)
      | 'f' :: 'a' :: 'l' :: 's' :: 'e' :: rest => some (.bool false, rest)
      | '"' :: rest => (readText rest).map fun (text, rest) => (.string text, rest)
      | '[' :: rest =>
          match skipSpace rest with
          | ']' :: rest => some (.array [], rest)
          | rest => (readItems fuel rest).map fun (items, rest) => (.array items, rest)
      | '\x7b' :: rest =>
          match skipSpace rest with
          | '\x7d' :: rest => some (.object [], rest)
          | rest => (readMembers fuel rest).map fun (members, rest) => (.object members, rest)
      | rest => readNumber rest

def readItems : Nat → List Char → Option (List JsonTree × List Char)
  | 0, _ => none
  | fuel + 1, text => do
      let (item, rest) ← readValue fuel text
      match skipSpace rest with
      | ']' :: rest => return ([item], rest)
      | ',' :: rest =>
          let (items, rest) ← readItems fuel rest
          return (item :: items, rest)
      | _ => none

def readMembers : Nat → List Char → Option (List (Option String × JsonTree) × List Char)
  | 0, _ => none
  | fuel + 1, text =>
      match skipSpace text with
      | '"' :: rest => do
          let (key, rest) ← readText rest
          match skipSpace rest with
          | ':' :: rest =>
              let (value, rest) ← readValue fuel rest
              match skipSpace rest with
              | '\x7d' :: rest => return ([(key, value)], rest)
              | ',' :: rest =>
                  let (members, rest) ← readMembers fuel rest
                  return ((key, value) :: members, rest)
              | _ => none
          | _ => none
      | _ => none

end

def read (text : List Char) : Option (JsonTree × List Char) :=
  readValue (2 * text.length + 2) text

end JsonReader

end Quantities
