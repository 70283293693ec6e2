import Quantities.Binary64.Elementary
import Quantities.Generator.Basic
import Quantities.Generator.Layers

/-!
# Draws from a generator

Uniform and standard normal numbers.  A uniform draw consumes one output word; a normal draw consumes
as many as its rejection steps need.
-/

namespace Quantities

namespace Generator

/-- The number in `[0, 1)` that the top 53 bits of a word count in units of `2 ^ -53`. -/
def unitInterval (word : UInt64) : Float :=
  (word >>> 11).toFloat * .ofBits 0x3ca0000000000000

def uniform (g : Generator) : Float × Generator :=
  let (word, g) := g.next
  (unitInterval word, g)

/-- The number strictly between 0 and 1 that the top 52 bits of a word stand for. -/
def openUnitInterval (word : UInt64) : Float :=
  .ofBits ((word >>> 12) ||| 0x3ff0000000000000) - .ofBits 0x3fefffffffffffff

/-- The number in `[-1, 1)` that the top 52 bits of a word stand for. -/
def symmetricInterval (word : UInt64) : Float :=
  .ofBits ((word >>> 12) ||| 0x4000000000000000) - 3.0

/-- Repeats a round until it accepts, but at most so many times; then the last resort is the answer. -/
def untilAccepted {α : Type} (round : Generator → Option α × Generator) (lastResort : α) :
    Nat → Generator → α × Generator
  | 0, g => (lastResort, g)
  | attempts + 1, g =>
      match round g with
      | (some x, g) => (x, g)
      | (none, g) => untilAccepted round lastResort attempts g

/-- Tries to draw from the tail of the normal density beyond `NormalLayers.tailStart`, on one side. -/
def tailRound (negative : Bool) (g : Generator) : Option Float × Generator :=
  let (first, g) := g.next
  let (second, g) := g.next
  let x := Binary64.ln (openUnitInterval first) / NormalLayers.tailStart
  let y := Binary64.ln (openUnitInterval second)
  if -2.0 * y < x * x then
    (none, g)
  else
    (some (if negative then x - NormalLayers.tailStart else NormalLayers.tailStart - x), g)

def normalTail (negative : Bool) (g : Generator) : Float × Generator :=
  let start := NormalLayers.tailStart
  untilAccepted (tailRound negative) (if negative then -start else start) 1000 g

/--
Tries to draw a standard normal number by the layers of the density.  A word picks a layer and a point of
it; the point is accepted at once within the next layer's width, and against the density otherwise.
-/
def layerRound (g : Generator) : Option Float × Generator :=
  let (word, g) := g.next
  -- The low eight bits choose the layer; the point uses other bits of the same word.
  let layer : Fin 256 := Fin.ofNat 256 word.toNat
  let u := symmetricInterval word
  let x := u * NormalLayers.edge layer.castSucc
  if x.abs < NormalLayers.edge layer.succ then
    (some x, g)
  else if layer = 0 then
    let (x, g) := normalTail (u < 0.0) g
    (some x, g)
  else
    let (height, g) := g.uniform
    let low := NormalLayers.density layer.succ
    let high := NormalLayers.density layer.castSucc
    if low + (high - low) * height < Binary64.exp (-x * x / 2.0) then
      (some x, g)
    else
      (none, g)

def normal (g : Generator) : Float × Generator :=
  untilAccepted layerRound 0.0 1000 g

end Generator

end Quantities
