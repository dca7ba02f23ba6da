import DesignTokens.Color.Basic

/-!
# Conversions between color forms

Hue, saturation and lightness are rounded to whole degrees and percents, halves
upwards. The conversion from lightness, chroma and hue is an interpolation in
sectors of sixty degrees, so that equal texts give equal channels; it does not
measure color.
-/

namespace DesignTokens

/-- The hue in sixths of a circle, for channels whose largest is `high`. -/
def hueSextant? (r g b high delta : Float) : Except ArithmeticFault Float :=
  if high == r then (divide? (g - b) delta).map fun x => x + (if g < b then 6 else 0)
  else if high == g then (divide? (b - r) delta).map fun x => x + 2
  else (divide? (r - g) delta).map fun x => x + 4

/-- Hue in sixths of a circle and saturation as a fraction. -/
def hueSaturation? (r g b high low : Float) : Except ArithmeticFault (Float × Float) := do
  let delta := high - low
  if delta == 0 then return (0, 0)
  else
    let lightness := (high + low) / 2
    let s ←
      if lightness > 0.5 then divide? delta (2 - high - low) else divide? delta (high + low)
    let h ← hueSextant? r g b high delta
    return (h, s)

/-- The larger of two floats, the first one if they are equal. -/
def larger (x y : Float) : Float :=
  if x < y then y else x

def smaller (x y : Float) : Float :=
  if y < x then y else x

def Rgb.toHsl? (c : Rgb) : Except ArithmeticFault Hsl := do
  let r ← quotient? c.r 255
  let g ← quotient? c.g 255
  let b ← quotient? c.b 255
  let high := larger (larger r g) b
  let low := smaller (smaller r g) b
  let (h, s) ← hueSaturation? r g b high low
  let degrees ← roundHalfUp? (h * 60)
  let saturation ← roundHalfUp? (s * 100)
  let lightness ← roundHalfUp? ((high + low) / 2 * 100)
  return ⟨degrees % 360, saturation, lightness, c.a⟩

/-- The channel that lies `t` of a circle from its peak, between the levels `p` and `q`. -/
def hueChannel (p q t : Float) : Float :=
  let t := if t < 0 then t + 1 else t
  let t := if t > 1 then t - 1 else t
  if t < 1 / 6 then p + (q - p) * 6 * t
  else if t < 1 / 2 then q
  else if t < 2 / 3 then p + (q - p) * (2 / 3 - t) * 6
  else p

def hslChannels (hue s l : Float) : Float × Float × Float :=
  if s == 0 then (l, l, l)
  else
    let q := if l < 0.5 then l * (1 + s) else l + s - l * s
    let p := 2 * l - q
    (hueChannel p q (hue + 1 / 3), hueChannel p q hue, hueChannel p q (hue - 1 / 3))

def Rgb.ofFractions? (channels : Float × Float × Float) (a : Option Float) :
    Except ArithmeticFault Rgb := do
  let r ← roundHalfUp? (channels.1 * 255)
  let g ← roundHalfUp? (channels.2.1 * 255)
  let b ← roundHalfUp? (channels.2.2 * 255)
  return ⟨r, g, b, a⟩

def Hsl.toRgb? (c : Hsl) : Except ArithmeticFault Rgb := do
  let s ← quotient? c.s 100
  let l ← quotient? c.l 100
  let hue ← quotient? (c.h % 360) 360
  Rgb.ofFractions? (hslChannels hue s l) c.a

/-- The channels of a sector of the circle; gray outside of all sectors. -/
def sectorChannels (sector : Int) (peak low mid high gray : Float) : Float × Float × Float :=
  if sector = 0 then (peak, mid, low)
  else if sector = 1 then (high, peak, low)
  else if sector = 2 then (low, peak, mid)
  else if sector = 3 then (low, high, peak)
  else if sector = 4 then (mid, low, peak)
  else if sector = 5 then (peak, low, high)
  else (gray, gray, gray)

def Oklch.toRgb? (c : Oklch) : Except ArithmeticFault Rgb := do
  let lightness := clamp 0 1 c.l
  let chroma := clamp 0 0.4 c.c
  let hue ← remainder? c.h 360
  let section60 ← floor? (hue / 60)
  let inSection ← remainder? hue 60
  let part := inSection / 60
  let peak := lightness * (1 + chroma * 2 - 1)
  let low := lightness * (1 - chroma)
  let mid := lightness * (1 - chroma * (1 - part))
  let high := lightness * (1 - chroma * part)
  let rgb ←
    Rgb.ofFractions? (sectorChannels (section60.tmod 6) peak low mid high lightness) c.a
  return ⟨clampInt 0 255 rgb.r, clampInt 0 255 rgb.g, clampInt 0 255 rgb.b, rgb.a⟩

end DesignTokens
