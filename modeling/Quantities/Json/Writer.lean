import Quantities.Decimal.Style
import Quantities.Json.Tree

/-!
# Writing JSON

The text of a JSON value without any blanks.
-/

namespace Quantities

namespace JsonWriter

/--
Numbers in stored text: always with a fraction or an exponent, and with an exponent below `1e-5` and from
`1e16` on.
-/
def style : NumberStyle where
  isPositional := fun order => -5 ≤ order && order ≤ 15
  fraction := ".0"
  tie := .even

example : style.write 1e15 = "1000000000000000.0".toList := by decide +kernel

example : style.write 1e16 = "1e+16".toList := by decide +kernel

example : style.write 1e-5 = "0.00001".toList := by decide +kernel

example : style.write 1.5e-7 = "1.5e-7".toList := by decide +kernel

/-- A character of a string: quotes, backslashes and control characters are escaped. -/
def writeChar (c : Char) : List Char :=
  match c with
  | '"' => ['\\', '"']
  | '\\' => ['\\', '\\']
  | '\x08' => ['\\', 'b']
  | '\x0c' => ['\\', 'f']
  | '\n' => ['\\', 'n']
  | '\r' => ['\\', 'r']
  | '\t' => ['\\', 't']
  | c =>
      if c.toNat < 0x20 then
        ['\\', 'u', '0', '0', Nat.digitChar (c.toNat / 16), Nat.digitChar (c.toNat % 16)]
      else
        [c]

/-- A string between quotes.  One that denotes no text is written as half of a surrogate pair. -/
def writeText : Option String → List Char
  | some text => '"' :: text.toList.flatMap writeChar ++ ['"']
  | none => ['"', '\\', 'u', 'd', '8', '0', '0', '"']

def writeSigned (negative : Bool) (magnitude : List Char) : List Char :=
  if negative then '-' :: magnitude else magnitude

mutual

def write : JsonTree → List Char
  | .null => ['n', 'u', 'l', 'l']
  | .bool true => ['t', 'r', 'u', 'e']
  | .bool false => ['f', 'a', 'l', 's', 'e']
  | .integer negative n => writeSigned negative (Nat.toDigits 10 n)
  | .real negative d => writeSigned negative (style.layOut d)
  | .string text => writeText text
  | .array [] => ['[', ']']
  | .array (item :: items) => '[' :: write item ++ writeItems items
  | .object [] => ['\x7b', '\x7d']
  | .object ((key, value) :: members) =>
      '\x7b' :: writeText key ++ ':' :: write value ++ writeMembers members

def writeItems : List JsonTree → List Char
  | [] => [']']
  | item :: items => ',' :: write item ++ writeItems items

def writeMembers : List (Option String × JsonTree) → List Char
  | [] => ['\x7d']
  | (key, value) :: members => ',' :: writeText key ++ ':' :: write value ++ writeMembers members

end

end JsonWriter

namespace JsonTree

/-- The value of a double: the shortest decimal, or null for NaN and the infinities. -/
def ofFloat (x : Float) : JsonTree :=
  if x.isFinite then
    .real (Binary64.isNegative x) (Decimal.shortest JsonWriter.style.tie x)
  else
    .null

def text (tree : JsonTree) : String :=
  String.ofList (JsonWriter.write tree)

end JsonTree

end Quantities
