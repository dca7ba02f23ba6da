import DesignTokens.Color.Basic
import DesignTokens.Options.Form

/-!
# Forms of colors

Colors given by their channels in an object.
-/

namespace DesignTokens

def opacityField (form : Json) : Checked (Option Float) :=
  Form.withDefault ['a'] none (ValueReader.nullable ValueReader.float) form

def Rgb.ofForm (form : Json) : Checked Rgb :=
  let r := Form.required ['r'] ValueReader.integer form
  let g := Form.required ['g'] ValueReader.integer form
  let b := Form.required ['b'] ValueReader.integer form
  let a := opacityField form
  Form.closed [['r'], ['g'], ['b'], ['a']] form
    ((r.both (g.both (b.both a))).map fun c => ⟨c.1, c.2.1, c.2.2.1, c.2.2.2⟩)

def Hsl.ofForm (form : Json) : Checked Hsl :=
  let h := Form.required ['h'] ValueReader.integer form
  let s := Form.required ['s'] ValueReader.integer form
  let l := Form.required ['l'] ValueReader.integer form
  let a := opacityField form
  Form.closed [['h'], ['s'], ['l'], ['a']] form
    ((h.both (s.both (l.both a))).map fun c => ⟨c.1, c.2.1, c.2.2.1, c.2.2.2⟩)

def Oklch.ofForm (form : Json) : Checked Oklch :=
  let l := Form.required ['l'] ValueReader.float form
  let c := Form.required ['c'] ValueReader.float form
  let h := Form.required ['h'] ValueReader.float form
  let a := opacityField form
  Form.closed [['l'], ['c'], ['h'], ['a']] form
    ((l.both (c.both (h.both a))).map fun c => ⟨c.1, c.2.1, c.2.2.1, c.2.2.2⟩)

end DesignTokens
