import DesignTokens.Color.Basic

/-!
# Distance of colors

The distance of two colors is the length of the straight line between them in
the cube of channels, in units of its longest diagonal. How surely two colors are
the same is one minus their distance.
-/

namespace DesignTokens
namespace Rgb

def diagonal : Float :=
  255 * Float.sqrt 3

abbrev Point := Float × Float × Float

def coordinates? (c : Rgb) : Except ArithmeticFault Point := do
  let r ← floatOfInt? c.r
  let g ← floatOfInt? c.g
  let b ← floatOfInt? c.b
  return (r, g, b)

/-- The distance of two points, in units of the diagonal. -/
def separation (p q : Point) : Float :=
  let r := p.1 - q.1
  let g := p.2.1 - q.2.1
  let b := p.2.2 - q.2.2
  Float.sqrt (r * r + g * g + b * b) / diagonal

/-- The distance of two colors; opacity does not count. -/
def distance? (c d : Rgb) : Except ArithmeticFault Float := do
  let p ← c.coordinates?
  let q ← d.coordinates?
  return separation p q

def confidence (distance : Float) : Float :=
  1 - distance

def firstLeast? : List Float → Option (Nat × Float)
  | [] => none
  | x :: xs =>
      match firstLeast? xs with
      | none => some (0, x)
      | some (i, y) => if y < x then some (i + 1, y) else some (0, x)

def points? (cs : List Rgb) : Except ArithmeticFault (List Point) :=
  cs.mapM coordinates?

/--
The index of the point that is nearest to a color, the first one of several, and how
sure it is.
-/
def closestPoint? (target : Rgb) (points : List Point) :
    Except ArithmeticFault (Option (Nat × Float)) := do
  match points with
  | [] => return none
  | _ =>
      let p ← target.coordinates?
      return (firstLeast? (points.map fun q => separation q p)).map fun f =>
        (f.1, confidence f.2)

def closest? (target : Rgb) (candidates : List Rgb) :
    Except ArithmeticFault (Option (Nat × Float)) := do
  target.closestPoint? (← points? candidates)

end Rgb
end DesignTokens
