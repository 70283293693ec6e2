import Quantities.Family
import Quantities.KeyedSet.Basic
import Quantities.Generator.Basic

/-!
# Function objects

The three families of functions, which differ in what they take and give: a set to a value, a set to a
set, and two sets to a set.  A function carries flags that tell an evaluator what a call needs and does;
they follow from the form of its body.
-/

namespace Quantities

inductive Flag where
  /-- The result depends on the explicit arguments only. -/
  | pure
  /-- Draws from the caller's generator and advances it. -/
  | random
  /-- Collapses a set to one value. -/
  | reduction
  /-- Gives one entry for every key of the arguments. -/
  | elementwise
  /-- Reads the comparison epsilon. -/
  | tolerant
  /-- Puts a neutral number in place of a missing operand. -/
  | undefTolerant
deriving DecidableEq, Repr

namespace Flag

def label : Flag → String
  | .pure => "PURE"
  | .random => "RANDOM"
  | .reduction => "REDUCTION"
  | .elementwise => "ELEMENTWISE"
  | .tolerant => "TOLERANT"
  | .undefTolerant => "UNDEF_TOLERANT"

def bit : Flag → Nat
  | .pure => 1
  | .random => 2
  | .reduction => 4
  | .elementwise => 8
  | .tolerant => 16
  | .undefTolerant => 32

def mask (flags : List Flag) : Nat :=
  flags.foldl (fun mask flag => mask ||| flag.bit) 0

end Flag

structure ScalarFunction where
  name : String
  eval : KeyedSet → Value

/-- What a function of one set does: compute from the set alone, or draw from a generator. -/
inductive UnaryBody where
  | pure (f : KeyedSet → KeyedSet)
  | random (f : Generator → KeyedSet → KeyedSet × Generator)

structure UnaryFunction where
  name : String
  body : UnaryBody

/-- What a function of two sets does: combine them as they are, within an epsilon, or with neutral
numbers for missing operands. -/
inductive BinaryBody where
  | strict (f : KeyedSet → KeyedSet → KeyedSet)
  | tolerant (f : Float → KeyedSet → KeyedSet → KeyedSet)
  | undefTolerant (f : KeyedSet → KeyedSet → KeyedSet)

structure BinaryFunction where
  name : String
  body : BinaryBody

namespace ScalarFunction

def flags (_ : ScalarFunction) : List Flag :=
  [.pure, .reduction]

end ScalarFunction

namespace UnaryFunction

def flags (f : UnaryFunction) : List Flag :=
  match f.body with
  | .pure _ => [.pure, .elementwise]
  | .random _ => [.random, .elementwise]

def isRandom (f : UnaryFunction) : Bool :=
  f.flags.contains .random

/-- Evaluates with the caller's generator, which only random functions advance. -/
def eval (f : UnaryFunction) (g : Generator) (s : KeyedSet) : KeyedSet × Generator :=
  match f.body with
  | .pure body => (body s, g)
  | .random body => body g s

/-- Evaluates without a generator; random functions have no answer. -/
def evalPure? (f : UnaryFunction) (s : KeyedSet) : Option KeyedSet :=
  match f.body with
  | .pure body => some (body s)
  | .random _ => none

end UnaryFunction

namespace BinaryFunction

def flags (f : BinaryFunction) : List Flag :=
  match f.body with
  | .strict _ => [.pure, .elementwise]
  | .tolerant _ => [.pure, .elementwise, .tolerant]
  | .undefTolerant _ => [.pure, .elementwise, .undefTolerant]

/-- Evaluates with the caller's epsilon, which only tolerant functions read. -/
def eval (f : BinaryFunction) (epsilon : Float) (lhs rhs : KeyedSet) : KeyedSet :=
  match f.body with
  | .strict body => body lhs rhs
  | .tolerant body => body epsilon lhs rhs
  | .undefTolerant body => body lhs rhs

end BinaryFunction

inductive SetFunction where
  | scalar (f : ScalarFunction)
  | unary (f : UnaryFunction)
  | binary (f : BinaryFunction)

namespace SetFunction

def name : SetFunction → String
  | .scalar f => f.name
  | .unary f => f.name
  | .binary f => f.name

def family : SetFunction → Family
  | .scalar _ => .scalar
  | .unary _ => .unary
  | .binary _ => .binary

def flags : SetFunction → List Flag
  | .scalar f => f.flags
  | .unary f => f.flags
  | .binary f => f.flags

/-- The type name that the description of a function starts with. -/
def typeName : SetFunction → String
  | .scalar _ => "ScalarFunction"
  | .unary _ => "UnaryFunction"
  | .binary _ => "BinaryFunction"

/-- A text between double quotes, with a backslash before each quote and backslash in it. -/
def quoted (text : String) : String :=
  let escaped := text.toList.flatMap fun c => if c = '"' || c = '\\' then ['\\', c] else [c]
  String.ofList ('"' :: escaped ++ ['"'])

def describe (f : SetFunction) : String :=
  let flags := " | ".intercalate (f.flags.map Flag.label)
  f.typeName ++ " \x7b name: " ++ quoted f.name ++ ", caps: FnCaps(" ++ flags ++ ") \x7d"

end SetFunction

end Quantities
