import DesignTokens.Proofs.Color.Call

/-!
# Separators of components

The components of a call may be parted by any mixture of blanks, commas and slashes, and
such characters may stand behind the opening and before the closing parenthesis. Reading
finds the components and forgets what parted them. So two calls of functions of one family
with the same components are read alike: as the same color, or with the same fault, which
quotes one text or the other.
-/

namespace DesignTokens

def ColorFault.inText (t : Text) : ColorFault → ColorFault
  | .notHex _ => .notHex t
  | .notFunction name _ => .notFunction name t
  | .componentCount _ => .componentCount t
  | .oklchComponentCount _ => .oklchComponentCount t
  | .notNumber component _ => .notNumber component t
  | .arithmetic fault => .arithmetic fault

namespace Color

open ColorFault (inText)

/-!
## Faults of another text
-/

section Faults

variable {t t' : Text}

theorem componentNumber?_inText (component : Text) :
    componentNumber? t' component = (componentNumber? t component).mapError (inText t') := by
  unfold componentNumber?
  cases Numeral.float? component with
  | none => rfl
  | some x =>
      dsimp only
      split <;> rfl

theorem map_componentNumber?_inText {α : Type} (f : Float → α) (component : Text) :
    (componentNumber? t' component).map f =
      ((componentNumber? t component).map f).mapError (inText t') := by
  rw [componentNumber?_inText (t := t), Except.map_mapError]

theorem alpha?_inText (component : Text) :
    alpha? t' component = (alpha? t component).mapError (inText t') := by
  unfold alpha?
  split
  · exact map_componentNumber?_inText _ _
  · exact map_componentNumber?_inText _ _

theorem optionalAlpha?_inText (components : List Text) :
    optionalAlpha? t' components = (optionalAlpha? t components).mapError (inText t') := by
  cases components with
  | nil => rfl
  | cons component rest =>
      change (alpha? t' component).map some = ((alpha? t component).map some).mapError _
      rw [alpha?_inText (t := t), Except.map_mapError]

theorem computed_inText {α : Type} (e : Except ArithmeticFault α) :
    computed e = (computed e).mapError (inText t') := by
  cases e with
  | error fault => rfl
  | ok x => rfl

theorem channel?_inText (component : Text) :
    channel? t' component = (channel? t component).mapError (inText t') := by
  unfold channel?
  dsimp only
  split
  all_goals
    refine Except.bind_eq_mapError ?_ fun x =>
      Except.bind_eq_mapError (computed_inText _) fun n => rfl
  · exact map_componentNumber?_inText _ _
  · exact componentNumber?_inText _

theorem ofRgb?_inText (rgb : Rgb) (format : ColorFormat) (oklch : Option Oklch) :
    ofRgb? rgb format oklch = (ofRgb? rgb format oklch).mapError (inText t') :=
  Except.bind_eq_mapError (computed_inText _) fun _ =>
    Except.bind_eq_mapError (computed_inText _) fun _ => rfl

end Faults

/-!
## Readers of the families
-/

section Readers

variable {t t' : Text} {components : List Text}

theorem parseRgb_inText (h : components? ["rgb".toList, "rgba".toList] t = .ok components)
    (h' : components? ["rgb".toList, "rgba".toList] t' = .ok components) :
    parseRgb t' = (parseRgb t).mapError (inText t') := by
  unfold parseRgb
  rw [h, h', Except.ok_bind, Except.ok_bind]
  match components with
  | [] => rfl
  | [_] => rfl
  | [_, _] => rfl
  | r :: g :: b :: more =>
      dsimp only
      split
      · exact Except.bind_eq_mapError (channel?_inText r) fun r =>
          Except.bind_eq_mapError (channel?_inText g) fun g =>
            Except.bind_eq_mapError (channel?_inText b) fun b =>
              Except.bind_eq_mapError (optionalAlpha?_inText more) fun a => ofRgb?_inText _ _ _
      · rfl

theorem parseHsl_inText (h : components? ["hsl".toList, "hsla".toList] t = .ok components)
    (h' : components? ["hsl".toList, "hsla".toList] t' = .ok components) :
    parseHsl t' = (parseHsl t).mapError (inText t') := by
  unfold parseHsl
  rw [h, h', Except.ok_bind, Except.ok_bind]
  match components with
  | [] => rfl
  | [_] => rfl
  | [_, _] => rfl
  | hue :: s :: l :: more =>
      dsimp only
      split
      · refine Except.bind_eq_mapError (componentNumber?_inText _) fun hue => ?_
        refine Except.bind_eq_mapError (map_componentNumber?_inText _ _) fun s => ?_
        refine Except.bind_eq_mapError (map_componentNumber?_inText _ _) fun l => ?_
        refine Except.bind_eq_mapError (optionalAlpha?_inText more) fun a => ?_
        refine Except.bind_eq_mapError (computed_inText _) fun wrapped => ?_
        refine Except.bind_eq_mapError (computed_inText _) fun rgb => ?_
        refine Except.bind_eq_mapError (computed_inText _) fun degrees => ?_
        refine Except.bind_eq_mapError (computed_inText _) fun saturation => ?_
        refine Except.bind_eq_mapError (computed_inText _) fun lightness => ?_
        exact Except.bind_eq_mapError (computed_inText _) fun hex => rfl
      · rfl

theorem parseOklch_inText (h : components? ["oklch".toList] t = .ok components)
    (h' : components? ["oklch".toList] t' = .ok components) :
    parseOklch t' = (parseOklch t).mapError (inText t') := by
  unfold parseOklch
  rw [h, h', Except.ok_bind, Except.ok_bind]
  match components with
  | [] => rfl
  | [_] => rfl
  | [_, _] => rfl
  | l :: c :: hue :: more =>
      dsimp only
      split
      · split
        -- the first component may be in percent, and the rest is read in the same way
        all_goals
          refine Except.bind_eq_mapError ?_ fun l =>
            Except.bind_eq_mapError (componentNumber?_inText c) fun c =>
              Except.bind_eq_mapError (componentNumber?_inText _) fun hue =>
                Except.bind_eq_mapError (optionalAlpha?_inText more) fun a =>
                  Except.bind_eq_mapError (computed_inText _) fun rgb => ofRgb?_inText _ _ _
        · exact map_componentNumber?_inText _ _
        · exact componentNumber?_inText _
      · rfl

end Readers

/-!
## Written calls
-/

/--
A call of a function as it is written: its components, each of them behind its lead, and what
stands behind the last one.
-/
structure WrittenCall where
  name : Text
  parts : List (Text × Text)
  tail : Text

namespace WrittenCall

def text (w : WrittenCall) : Text :=
  w.name ++ '(' :: (w.parts.flatMap (fun p => p.1 ++ p.2) ++ w.tail ++ [')'])

def components (w : WrittenCall) : List Text :=
  w.parts.map fun p => p.2

/-- Whether there is a separator between any two components, and nothing else around them. -/
structure IsSeparated (w : WrittenCall) : Prop where
  leads : ∀ p ∈ w.parts, p.1.all separatesComponents = true
  parted : ∀ p ∈ w.parts.tail, p.1 ≠ []
  tail : w.tail.all separatesComponents = true
  components : ∀ component ∈ w.components,
    component ≠ [] ∧ component.any separatesComponents = false

theorem IsSeparated.fields_eq {w : WrittenCall} (h : w.IsSeparated) :
    Text.fields separatesComponents (w.parts.flatMap (fun p => p.1 ++ p.2) ++ w.tail) =
      w.components := by
  have hlead : ∀ p ∈ w.parts, ∀ c ∈ p.1, separatesComponents c = true :=
    fun p hp => List.all_eq_true.mp (h.leads p hp)
  have hword : ∀ p ∈ w.parts, p.2 ≠ [] ∧ ∀ c ∈ p.2, separatesComponents c = false := by
    intro p hp
    rcases h.components p.2 (List.mem_map_of_mem hp) with ⟨hne, hnone⟩
    exact ⟨hne, fun c hc => Bool.eq_false_of_not_eq_true (List.any_eq_false.mp hnone c hc)⟩
  have hfields := Text.fields_flatMap (fun p : Text × Text => p.1) (fun p => p.2)
    (fun _ => []) w.parts hlead hword (fun _ _ => nofun) h.parted (List.all_eq_true.mp h.tail)
  simpa only [List.append_nil, WrittenCall.components] using hfields

section Families

variable {w : WrittenCall} {family : ColorFormat}

theorem isFunctionName (h : (w.name, family) ∈ functionFamilies) : IsFunctionName w.name := by
  simp only [functionFamilies, List.mem_cons, Prod.mk.injEq, List.not_mem_nil, or_false] at h
  rcases h with ⟨h, -⟩ | ⟨h, -⟩ | ⟨h, -⟩ | ⟨h, -⟩ | ⟨h, -⟩ <;> rw [h]
  · exact Spelling.rgb.isFunctionName
  · exact Spelling.rgba.isFunctionName
  · exact Spelling.hsl.isFunctionName
  · exact Spelling.hsla.isFunctionName
  · exact Spelling.oklch.isFunctionName

theorem ofText?_eq (h : (w.name, family) ∈ functionFamilies) :
    ColorFormat.ofText? w.text = some family :=
  ofText?_of_literalHead (.function h _)

theorem strip_eq (h : (w.name, family) ∈ functionFamilies) : Text.strip w.text = w.text :=
  strip_written (isFunctionName h) _

/-- A call of a function of a family has its components for the reader of the family. -/
theorem IsSeparated.components?_eq (hw : w.IsSeparated)
    (h : (w.name, family) ∈ functionFamilies) {names : List Text} (hmem : w.name ∈ names) :
    components? names w.text = .ok w.components := by
  rw [text, components?_written (isFunctionName h) hmem, hw.fields_eq]

end Families
end WrittenCall

/--
Two calls of functions of one family with the same components denote the same color or have
the same fault, however their components are parted.
-/
theorem parse_separated {w w' : WrittenCall} {family : ColorFormat}
    (h : w.IsSeparated) (h' : w'.IsSeparated)
    (hname : (w.name, family) ∈ functionFamilies) (hname' : (w'.name, family) ∈ functionFamilies)
    (hsame : w'.components = w.components) :
    parse w'.text = (parse w.text).mapError (inText w'.text) := by
  have hread {names : List Text} (hmem : w.name ∈ names) := h.components?_eq hname hmem
  have hread' {names : List Text} (hmem : w'.name ∈ names) := h'.components?_eq hname' hmem
  rw [hsame] at hread'
  unfold parse
  rw [WrittenCall.ofText?_eq hname, WrittenCall.ofText?_eq hname', WrittenCall.strip_eq hname,
    WrittenCall.strip_eq hname']
  cases family with
  | hex => simp [functionFamilies] at hname
  | rgb =>
      exact parseRgb_inText (hread (by simpa [functionFamilies] using hname))
        (hread' (by simpa [functionFamilies] using hname'))
  | hsl =>
      exact parseHsl_inText (hread (by simpa [functionFamilies] using hname))
        (hread' (by simpa [functionFamilies] using hname'))
  | oklch =>
      exact parseOklch_inText (hread (by simpa [functionFamilies] using hname))
        (hread' (by simpa [functionFamilies] using hname'))

def plainRed : WrittenCall where
  name := "rgb".toList
  parts := [([], "255".toList), (", ".toList, "0".toList), (", ".toList, "0%".toList)]
  tail := []

def raggedRed : WrittenCall where
  name := "rgba".toList
  parts := [("/ ".toList, "255".toList), ("\n".toList, "0".toList), (",/,".toList, "0%".toList)]
  tail := " ,".toList

theorem parse_separated_red :
    raggedRed.text = "rgba(/ 255\n0,/,0% ,)".toList ∧
      plainRed.text = "rgb(255, 0, 0%)".toList ∧
      plainRed.IsSeparated ∧ raggedRed.IsSeparated ∧
      (plainRed.name, ColorFormat.rgb) ∈ functionFamilies ∧
      (raggedRed.name, ColorFormat.rgb) ∈ functionFamilies ∧
      raggedRed.components = plainRed.components ∧
      (parse plainRed.text).toOption.map (·.hex) = some "#ff0000".toList ∧
      parse raggedRed.text = (parse plainRed.text).mapError (inText raggedRed.text) := by
  have hplain : plainRed.IsSeparated := ⟨by decide, by decide, by decide, by decide⟩
  have hragged : raggedRed.IsSeparated := ⟨by decide, by decide, by decide, by decide⟩
  have hrgb : (plainRed.name, ColorFormat.rgb) ∈ functionFamilies := by decide
  have hrgba : (raggedRed.name, ColorFormat.rgb) ∈ functionFamilies := by decide
  have hsame : raggedRed.components = plainRed.components := by decide
  exact ⟨by decide, by decide, hplain, hragged, hrgb, hrgba, hsame, by decide +kernel,
    parse_separated hplain hragged hrgb hrgba hsame⟩

end Color
end DesignTokens
