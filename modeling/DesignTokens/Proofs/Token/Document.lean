import DesignTokens.Options.Form
import DesignTokens.Proofs.Json.RoundTrip
import DesignTokens.Proofs.Number.Written
import DesignTokens.Token.Document

/-!
# Documents of tokens are read back

The fields of a token are found in its document by their names, and a field that is left out
is a value that is absent. Literals tell integers from floats, and texts are no literals. So
a token is recovered from its document with all of its values.
-/

namespace DesignTokens

/-!
## Literals
-/

namespace Json

open Numeral

theorem isLiteral_cons {c : Char} {t : Text} (h : ∀ d ∈ c :: t, isNumeric d = true)
    (hc : c ≠ 'n' ∧ c ≠ 't' ∧ c ≠ 'f') : IsLiteral (c :: t) := by
  refine ⟨h, ?_⟩
  simp [bare?, hc]

theorem isLiteral_of_begins {t : Text} (h : ∀ c ∈ t, isNumeric c = true)
    (hbegins : ∃ c ∈ t.head?, c.isDigit = true) (negative : Bool) :
    IsLiteral ((if negative then ['-'] else []) ++ t) := by
  cases negative with
  | true => exact isLiteral_cons (List.forall_mem_cons.mpr ⟨by decide, h⟩) (by decide)
  | false =>
      cases t with
      | nil =>
          rcases hbegins with ⟨c, hc, _⟩
          cases hc
      | cons c t =>
          rcases hbegins with ⟨d, hd, hdigit⟩
          cases hd
          apply isLiteral_cons h
          refine ⟨?_, ?_, ?_⟩ <;> rintro rfl <;> exact absurd hdigit (by decide)

theorem isNumeric_of_isDigit {c : Char} (h : c.isDigit = true) : isNumeric c = true := by
  simp [isNumeric, Char.isAlphanum, h]

theorem isNumeric_of_isDecimalChar {c : Char} (h : IsDecimalChar c) : isNumeric c = true := by
  have hmarks : ∀ d ∈ ['.', 'e', '+', '-'], isNumeric d = true :=
    List.all_eq_true.mp (by decide)
  rcases h with hdigit | hmark
  · exact isNumeric_of_isDigit hdigit
  · exact hmarks c hmark

theorem isFractional_of_mem {t : Text} (h : '.' ∈ t ∨ 'e' ∈ t) : isFractional t = true := by
  rcases h with hpoint | hmark
  · exact List.any_eq_true.mpr ⟨'.', hpoint, by decide⟩
  · exact List.any_eq_true.mpr ⟨'e', hmark, by decide⟩

end Json

namespace NumberForm

open Json Numeral Binary

theorem isReadable_style : IsReadable style :=
  ⟨rfl, rfl, rfl⟩

theorem isLiteral_float (x : Float) : IsLiteral (style.float x) := by
  unfold NumberStyle.float
  split
  · exact ⟨List.all_eq_true.mp (by decide), by rfl⟩
  · rename_i negative _
    cases negative
    · exact ⟨List.all_eq_true.mp (by decide), by rfl⟩
    · exact ⟨List.all_eq_true.mp (by decide), by rfl⟩
  · rename_i negative m e _
    have hdecimal := isDecimalOf_decimal style (Decimal.shortest m e)
    exact isLiteral_of_begins (fun c hc => isNumeric_of_isDecimalChar (hdecimal.chars c hc))
      hdecimal.begins negative

theorem isFractional_float (x : Float) : isFractional (style.float x) = true := by
  unfold NumberStyle.float
  split
  · rfl
  · rename_i negative _
    cases negative
    · rfl
    · rfl
  · rename_i negative m e _
    have hdecimal := isDecimalOf_decimal style (Decimal.shortest m e)
    apply isFractional_of_mem
    exact hdecimal.marked.imp (List.mem_append_right _) (List.mem_append_right _)

theorem ofInt_eq (n : Int) :
    Text.ofInt n = (if decide (n < 0) then ['-'] else []) ++ Text.ofNat n.natAbs := by
  unfold Text.ofInt
  by_cases hn : n < 0
  · simp [hn]
  · simp [hn]

theorem isLiteral_ofInt (n : Int) : IsLiteral (Text.ofInt n) := by
  rw [ofInt_eq]
  apply isLiteral_of_begins fun c hc => isNumeric_of_isDigit (isDigit_of_mem_ofNat hc)
  have hhead := exists_head_append (fun _ => isDigit_of_mem_ofNat) (ofNat_ne_nil n.natAbs) []
  rwa [List.append_nil] at hhead

theorem isFractional_ofInt (n : Int) : isFractional (Text.ofInt n) = false := by
  have hdigits : ∀ c ∈ Text.ofNat n.natAbs, ¬ (!(c.isDigit || decide (c = '-'))) = true := by
    intro c hc
    simp [isDigit_of_mem_ofNat hc]
  rw [ofInt_eq, isFractional, List.any_eq_false, List.forall_mem_append]
  refine ⟨?_, hdigits⟩
  split
  · exact List.forall_mem_singleton.mpr (by decide)
  · nofun

theorem integerOfLiteral_ofInt (n : Int) : ValueReader.integerOfLiteral (Text.ofInt n) = n := by
  have hvalue := digitsValue_ofNat n.natAbs
  by_cases hn : n < 0
  · rw [Text.ofInt, if_pos hn, ValueReader.integerOfLiteral, hvalue]
    omega
  · rw [Text.ofInt, if_neg hn]
    unfold ValueReader.integerOfLiteral
    split
    · rename_i heq
      have hdigit : ('-' : Char).isDigit = true :=
        isDigit_of_mem_ofNat (heq ▸ List.mem_cons_self)
      exact absurd hdigit (by decide)
    · rw [hvalue]
      omega

end NumberForm

/-!
## Reading a document
-/

namespace Json

def asText? : Json → Option Text
  | .text t => some t
  | _ => none

def asTruth? : Json → Option Bool
  | .bool b => some b
  | _ => none

def asInteger? : Json → Option Int
  | .number literal =>
      if isFractional literal then none else some (ValueReader.integerOfLiteral literal)
  | _ => none

def asFloat? : Json → Option Float
  | .number literal => if isFractional literal then Numeral.ascii? literal else none
  | _ => none

def asScalar? : Json → Option Scalar
  | .number literal =>
      if isFractional literal then (Numeral.ascii? literal).map .float
      else some (.integer (ValueReader.integerOfLiteral literal))
  | .text t => some (.text t)
  | _ => none

def asList? {α : Type} (read : Json → Option α) : Json → Option (List α)
  | .array js => js.mapM read
  | _ => none

def required? {α : Type} (read : Json → Option α) (name : String) (j : Json) : Option α :=
  (j.field? name.toList).bind read

def optional? {α : Type} (read : Json → Option α) (name : String) (j : Json) :
    Option (Option α) :=
  match j.field? name.toList with
  | some value => (read value).map some
  | none => some none

section Fields

variable {fields : List (String × Option Json)} {name : String} {value : Option Json}

theorem field?_ofFields_of_ne {f : String × Option Json} (h : f.1 ≠ name) :
    (ofFields (f :: fields)).field? name.toList = (ofFields fields).field? name.toList := by
  rcases f with ⟨other, value⟩
  cases value with
  | none => rfl
  | some j =>
      have hne : ¬ decide (other.toList = name.toList) = true := by
        rw [decide_eq_true_iff, String.toList_inj]
        exact h
      exact congrArg (Option.map Prod.snd) (List.find?_cons_of_neg hne)

theorem field?_ofFields_self (value : Option Json) (h : name ∉ fields.map (·.1)) :
    (ofFields ((name, value) :: fields)).field? name.toList = value := by
  cases value with
  | some j =>
      have hself : decide (name.toList = name.toList) = true := decide_eq_true rfl
      exact congrArg (Option.map Prod.snd) (List.find?_cons_of_pos hself)
  | none =>
      change (ofFields fields).field? name.toList = none
      induction fields with
      | nil => rfl
      | cons f fields ih =>
          rw [List.map_cons, List.mem_cons, not_or] at h
          rw [field?_ofFields_of_ne (Ne.symm h.1), ih h.2]

theorem field?_ofFields (hnames : (fields.map (·.1)).Nodup) (h : (name, value) ∈ fields) :
    (ofFields fields).field? name.toList = value := by
  induction fields with
  | nil => cases h
  | cons f fields ih =>
      rw [List.map_cons, List.nodup_cons] at hnames
      rcases List.mem_cons.mp h with rfl | hmem
      · exact field?_ofFields_self value hnames.1
      · have hmem' : name ∈ fields.map (·.1) := List.mem_map_of_mem hmem
        have hne : f.1 ≠ name := by
          rintro rfl
          exact hnames.1 hmem'
        rw [field?_ofFields_of_ne hne, ih hnames.2 hmem]

end Fields

theorem isLegible_ofFields {fields : List (String × Option Json)}
    (h : ∀ f ∈ fields, ∀ j ∈ f.2, IsLegible j) : IsLegible (ofFields fields) := by
  refine .object ?_
  intro f hf
  rcases List.mem_filterMap.mp hf with ⟨g, hg, hvalue⟩
  rcases Option.map_eq_some_iff.mp hvalue with ⟨j, hj, rfl⟩
  exact h g hg j hj

/-- Whether values are written as legible documents, from which they are recovered. -/
structure Recovers {α : Type} (write : α → Json) (read : Json → Option α) : Prop where
  legible : ∀ a, IsLegible (write a)
  read_write : ∀ a, read (write a) = some a

namespace Recovers

variable {α : Type} {write : α → Json} {read : Json → Option α}
  {fields : List (String × Option Json)} {name : String}

theorem required (h : Recovers write read) {a : α} (hnames : (fields.map (·.1)).Nodup)
    (hmem : (name, some (write a)) ∈ fields) :
    (ofFields fields).required? read name = some a := by
  rw [required?, field?_ofFields hnames hmem, Option.bind_some, h.read_write]

theorem optional (h : Recovers write read) {a : Option α} (hnames : (fields.map (·.1)).Nodup)
    (hmem : (name, a.map write) ∈ fields) :
    (ofFields fields).optional? read name = some a := by
  rw [optional?, field?_ofFields hnames hmem]
  cases a with
  | none => rfl
  | some b =>
      rw [Option.map_some]
      simp only [h.read_write b, Option.map_some]

theorem legible_some (h : Recovers write read) (a : α) : ∀ j ∈ some (write a), IsLegible j := by
  intro j hj
  cases hj
  exact h.legible a

theorem legible_map (h : Recovers write read) (a : Option α) :
    ∀ j ∈ a.map write, IsLegible j := by
  intro j hj
  rcases Option.map_eq_some_iff.mp hj with ⟨b, _, rfl⟩
  exact h.legible b

theorem list (h : Recovers write read) :
    Recovers (fun as : List α => .array (as.map write)) (asList? read) := by
  refine ⟨fun as => .array ?_, fun as => ?_⟩
  · rw [List.forall_mem_map]
    exact fun a _ => h.legible a
  · rw [asList?]
    induction as with
    | nil => rfl
    | cons a as ih =>
        rw [List.map_cons, List.mapM_cons, h.read_write, ih]
        rfl

end Recovers

theorem recovers_text : Recovers .text asText? :=
  ⟨.text, fun _ => rfl⟩

theorem recovers_truth : Recovers .bool asTruth? :=
  ⟨.bool, fun _ => rfl⟩

theorem recovers_integer : Recovers NumberForm.plain.integer asInteger? := by
  refine ⟨fun n => .number (NumberForm.isLiteral_ofInt n), fun n => ?_⟩
  change (if isFractional (Text.ofInt n) then _ else _) = _
  rw [NumberForm.isFractional_ofInt, NumberForm.integerOfLiteral_ofInt]
  rfl

theorem recovers_float : Recovers NumberForm.plain.float asFloat? := by
  refine ⟨fun x => .number (NumberForm.isLiteral_float x), fun x => ?_⟩
  change (if isFractional (NumberForm.style.float x) then _ else _) = _
  rw [NumberForm.isFractional_float, if_pos rfl,
    Numeral.ascii?_float NumberForm.isReadable_style]

theorem recovers_scalar : Recovers NumberForm.plain.scalar asScalar? := by
  refine ⟨fun v => ?_, fun v => ?_⟩
  · cases v with
    | integer n => exact recovers_integer.legible n
    | float x => exact recovers_float.legible x
    | text t => exact .text t
  · cases v with
    | integer n =>
        change (if isFractional (Text.ofInt n) then _ else _) = _
        rw [NumberForm.isFractional_ofInt, NumberForm.integerOfLiteral_ofInt]
        rfl
    | float x =>
        change (if isFractional (NumberForm.style.float x) then _ else _) = _
        rw [NumberForm.isFractional_float, if_pos rfl,
          Numeral.ascii?_float NumberForm.isReadable_style, Option.map_some]
    | text t => rfl

end Json

open Json

/-!
## Values of tokens
-/

def Rgb.ofDocument? (j : Json) : Option Rgb := do
  let r ← j.required? asInteger? "r"
  let g ← j.required? asInteger? "g"
  let b ← j.required? asInteger? "b"
  let a ← j.optional? asFloat? "a"
  return ⟨r, g, b, a⟩

theorem Rgb.recovers : Recovers (Rgb.document .plain) Rgb.ofDocument? := by
  refine ⟨fun c => isLegible_ofFields ?_, fun c => ?_⟩
  · simp only [List.forall_mem_cons]
    exact ⟨recovers_integer.legible_some _, recovers_integer.legible_some _,
      recovers_integer.legible_some _, recovers_float.legible_map _, nofun⟩
  · have hr : (c.document .plain).required? asInteger? "r" = some c.r :=
      recovers_integer.required (by simp) (by simp)
    have hg : (c.document .plain).required? asInteger? "g" = some c.g :=
      recovers_integer.required (by simp) (by simp)
    have hb : (c.document .plain).required? asInteger? "b" = some c.b :=
      recovers_integer.required (by simp) (by simp)
    have ha : (c.document .plain).optional? asFloat? "a" = some c.a :=
      recovers_float.optional (by simp) (by simp)
    simp [ofDocument?, hr, hg, hb, ha]

def Hsl.ofDocument? (j : Json) : Option Hsl := do
  let h ← j.required? asInteger? "h"
  let s ← j.required? asInteger? "s"
  let l ← j.required? asInteger? "l"
  let a ← j.optional? asFloat? "a"
  return ⟨h, s, l, a⟩

theorem Hsl.recovers : Recovers (Hsl.document .plain) Hsl.ofDocument? := by
  refine ⟨fun c => isLegible_ofFields ?_, fun c => ?_⟩
  · simp only [List.forall_mem_cons]
    exact ⟨recovers_integer.legible_some _, recovers_integer.legible_some _,
      recovers_integer.legible_some _, recovers_float.legible_map _, nofun⟩
  · have hh : (c.document .plain).required? asInteger? "h" = some c.h :=
      recovers_integer.required (by simp) (by simp)
    have hs : (c.document .plain).required? asInteger? "s" = some c.s :=
      recovers_integer.required (by simp) (by simp)
    have hl : (c.document .plain).required? asInteger? "l" = some c.l :=
      recovers_integer.required (by simp) (by simp)
    have ha : (c.document .plain).optional? asFloat? "a" = some c.a :=
      recovers_float.optional (by simp) (by simp)
    simp [ofDocument?, hh, hs, hl, ha]

def Oklch.ofDocument? (j : Json) : Option Oklch := do
  let l ← j.required? asFloat? "l"
  let c ← j.required? asFloat? "c"
  let h ← j.required? asFloat? "h"
  let a ← j.optional? asFloat? "a"
  return ⟨l, c, h, a⟩

theorem Oklch.recovers : Recovers (Oklch.document .plain) Oklch.ofDocument? := by
  refine ⟨fun c => isLegible_ofFields ?_, fun c => ?_⟩
  · simp only [List.forall_mem_cons]
    exact ⟨recovers_float.legible_some _, recovers_float.legible_some _,
      recovers_float.legible_some _, recovers_float.legible_map _, nofun⟩
  · have hl : (c.document .plain).required? asFloat? "l" = some c.l :=
      recovers_float.required (by simp) (by simp)
    have hc : (c.document .plain).required? asFloat? "c" = some c.c :=
      recovers_float.required (by simp) (by simp)
    have hh : (c.document .plain).required? asFloat? "h" = some c.h :=
      recovers_float.required (by simp) (by simp)
    have ha : (c.document .plain).optional? asFloat? "a" = some c.a :=
      recovers_float.optional (by simp) (by simp)
    simp [ofDocument?, hl, hc, hh, ha]

def Swatch.ofDocument? (j : Json) : Option Swatch := do
  let hex ← j.required? asText? "hex"
  let rgb ← j.required? Rgb.ofDocument? "rgb"
  let hsl ← j.optional? Hsl.ofDocument? "hsl"
  let oklch ← j.optional? Oklch.ofDocument? "oklch"
  return ⟨hex, rgb, hsl, oklch⟩

theorem Swatch.recovers : Recovers (Swatch.document .plain) Swatch.ofDocument? := by
  refine ⟨fun s => isLegible_ofFields ?_, fun s => ?_⟩
  · simp only [List.forall_mem_cons]
    exact ⟨recovers_text.legible_some _, Rgb.recovers.legible_some _, Hsl.recovers.legible_map _,
      Oklch.recovers.legible_map _, nofun⟩
  · have hhex : (s.document .plain).required? asText? "hex" = some s.hex :=
      recovers_text.required (by simp) (by simp)
    have hrgb : (s.document .plain).required? Rgb.ofDocument? "rgb" = some s.rgb :=
      Rgb.recovers.required (by simp) (by simp)
    have hhsl : (s.document .plain).optional? Hsl.ofDocument? "hsl" = some s.hsl :=
      Hsl.recovers.optional (by simp) (by simp)
    have hoklch : (s.document .plain).optional? Oklch.ofDocument? "oklch" = some s.oklch :=
      Oklch.recovers.optional (by simp) (by simp)
    simp [ofDocument?, hhex, hrgb, hhsl, hoklch]

def Font.ofDocument? (j : Json) : Option Font := do
  let family ← j.optional? asText? "fontFamily"
  let size ← j.optional? asText? "fontSize"
  let weight ← j.optional? asScalar? "fontWeight"
  let lineHeight ← j.optional? asScalar? "lineHeight"
  let letterSpacing ← j.optional? asText? "letterSpacing"
  return ⟨family, size, weight, lineHeight, letterSpacing⟩

theorem Font.recovers : Recovers (Font.document .plain) Font.ofDocument? := by
  refine ⟨fun f => isLegible_ofFields ?_, fun f => ?_⟩
  · simp only [List.forall_mem_cons]
    exact ⟨recovers_text.legible_map _, recovers_text.legible_map _,
      recovers_scalar.legible_map _, recovers_scalar.legible_map _,
      recovers_text.legible_map _, nofun⟩
  · have hfamily : (f.document .plain).optional? asText? "fontFamily" = some f.family :=
      recovers_text.optional (by simp) (by simp)
    have hsize : (f.document .plain).optional? asText? "fontSize" = some f.size :=
      recovers_text.optional (by simp) (by simp)
    have hweight : (f.document .plain).optional? asScalar? "fontWeight" = some f.weight :=
      recovers_scalar.optional (by simp) (by simp)
    have hheight : (f.document .plain).optional? asScalar? "lineHeight" = some f.lineHeight :=
      recovers_scalar.optional (by simp) (by simp)
    have hspacing :
        (f.document .plain).optional? asText? "letterSpacing" = some f.letterSpacing :=
      recovers_text.optional (by simp) (by simp)
    simp [ofDocument?, hfamily, hsize, hweight, hheight, hspacing]

def ShadowLayer.ofDocument? (j : Json) : Option ShadowLayer := do
  let offsetX ← j.required? asText? "offsetX"
  let offsetY ← j.required? asText? "offsetY"
  let blur ← j.required? asText? "blur"
  let spread ← j.required? asText? "spread"
  let color ← j.required? asText? "color"
  let inset ← j.required? asTruth? "inset"
  return ⟨offsetX, offsetY, blur, spread, color, inset⟩

theorem ShadowLayer.recovers : Recovers ShadowLayer.document ShadowLayer.ofDocument? := by
  refine ⟨fun l => isLegible_ofFields ?_, fun l => ?_⟩
  · simp only [List.forall_mem_cons]
    exact ⟨recovers_text.legible_some _, recovers_text.legible_some _,
      recovers_text.legible_some _, recovers_text.legible_some _, recovers_text.legible_some _,
      recovers_truth.legible_some _, nofun⟩
  · have hx : l.document.required? asText? "offsetX" = some l.offsetX :=
      recovers_text.required (by simp) (by simp)
    have hy : l.document.required? asText? "offsetY" = some l.offsetY :=
      recovers_text.required (by simp) (by simp)
    have hblur : l.document.required? asText? "blur" = some l.blur :=
      recovers_text.required (by simp) (by simp)
    have hspread : l.document.required? asText? "spread" = some l.spread :=
      recovers_text.required (by simp) (by simp)
    have hcolor : l.document.required? asText? "color" = some l.color :=
      recovers_text.required (by simp) (by simp)
    have hinset : l.document.required? asTruth? "inset" = some l.inset :=
      recovers_truth.required (by simp) (by simp)
    simp [ofDocument?, hx, hy, hblur, hspread, hcolor, hinset]

/-!
## Tokens
-/

theorem Category.recovers :
    Recovers (fun c : Category => .text c.name) fun j => (asText? j).bind Category.ofName? := by
  refine ⟨fun c => .text _, fun c => ?_⟩
  cases c <;> decide

/-- The value of a token, where the category tells which fields it has. -/
def TokenValue.ofDocument? (category : Category) (j : Json) : Option TokenValue :=
  match category with
  | .color => do
      let declared ← j.required? asText? "originalValue"
      let swatch ← j.required? Swatch.ofDocument? "value"
      return .color declared swatch
  | .typography => (j.required? Font.ofDocument? "value").map .typography
  | .spacing => (j.required? asText? "value").map .spacing
  | .borderRadius => (j.required? asText? "value").map .borderRadius
  | .shadow => do
      let value ← j.required? asText? "value"
      let layers ← j.optional? (asList? ShadowLayer.ofDocument?) "components"
      return .shadow value layers

def Token.ofDocument? (j : Json) : Option Token := do
  let name ← j.required? asText? "name"
  let variableName ← j.required? asText? "cssVariable"
  let utilityClass ← j.optional? asText? "tailwindClass"
  let category ← j.required? (fun i => (asText? i).bind Category.ofName?) "category"
  let value ← TokenValue.ofDocument? category j
  return ⟨name, variableName, utilityClass, value⟩

theorem TokenValue.legible (v : TokenValue) : IsLegible (v.document .plain) := by
  cases v with
  | color declared swatch => exact Swatch.recovers.legible swatch
  | typography font => exact Font.recovers.legible font
  | spacing value => exact .text value
  | borderRadius value => exact .text value
  | shadow value layers => exact .text value

theorem TokenValue.ofDocument?_document (t : Token) :
    TokenValue.ofDocument? t.category (t.document .plain) = some t.value := by
  rcases t with ⟨name, variableName, utilityClass, v⟩
  cases v with
  | color declared swatch =>
      have hdeclared : (Token.document .plain
          ⟨name, variableName, utilityClass, .color declared swatch⟩).required? asText?
          "originalValue" = some declared :=
        recovers_text.required (by simp) (by simp [declaredText?])
      have hswatch : (Token.document .plain
          ⟨name, variableName, utilityClass, .color declared swatch⟩).required?
          Swatch.ofDocument? "value" = some swatch :=
        Swatch.recovers.required (by simp) (by simp [document])
      simp [ofDocument?, Token.category, hdeclared, hswatch]
  | typography font =>
      have hfont : (Token.document .plain
          ⟨name, variableName, utilityClass, .typography font⟩).required? Font.ofDocument?
          "value" = some font :=
        Font.recovers.required (by simp) (by simp [document])
      simp [ofDocument?, Token.category, hfont]
  | spacing value =>
      have hvalue : (Token.document .plain
          ⟨name, variableName, utilityClass, .spacing value⟩).required? asText? "value" =
          some value :=
        recovers_text.required (by simp) (by simp [document])
      simp [ofDocument?, Token.category, hvalue]
  | borderRadius value =>
      have hvalue : (Token.document .plain
          ⟨name, variableName, utilityClass, .borderRadius value⟩).required? asText? "value" =
          some value :=
        recovers_text.required (by simp) (by simp [document])
      simp [ofDocument?, Token.category, hvalue]
  | shadow value layers =>
      have hvalue : (Token.document .plain
          ⟨name, variableName, utilityClass, .shadow value layers⟩).required? asText? "value" =
          some value :=
        recovers_text.required (by simp) (by simp [document])
      have hlayers : (Token.document .plain
          ⟨name, variableName, utilityClass, .shadow value layers⟩).optional?
          (asList? ShadowLayer.ofDocument?) "components" = some layers :=
        ShadowLayer.recovers.list.optional (by simp) (by simp [layers?])
      simp [ofDocument?, Token.category, hvalue, hlayers]

/-- A token is recovered from its document. -/
theorem Token.recovers : Recovers (Token.document .plain) Token.ofDocument? := by
  refine ⟨fun t => isLegible_ofFields ?_, fun t => ?_⟩
  · have hvalue : ∀ j ∈ some (t.value.document .plain), IsLegible j := by
      intro j hj
      cases hj
      exact t.value.legible
    simp only [List.forall_mem_cons]
    exact ⟨recovers_text.legible_some _, recovers_text.legible_some _,
      recovers_text.legible_map _, recovers_text.legible_some _, recovers_text.legible_map _,
      hvalue, ShadowLayer.recovers.list.legible_map _, nofun⟩
  · have hname : (t.document .plain).required? asText? "name" = some t.name :=
      recovers_text.required (by simp) (by simp)
    have hvariable : (t.document .plain).required? asText? "cssVariable" = some t.variableName :=
      recovers_text.required (by simp) (by simp)
    have hclass : (t.document .plain).optional? asText? "tailwindClass" = some t.utilityClass :=
      recovers_text.optional (by simp) (by simp)
    have hcategory : (t.document .plain).required?
        (fun i => (asText? i).bind Category.ofName?) "category" = some t.category :=
      Category.recovers.required (by simp) (by simp)
    simp [ofDocument?, hname, hvariable, hclass, hcategory, TokenValue.ofDocument?_document]

end DesignTokens
