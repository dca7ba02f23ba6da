import DesignTokens.Proofs.Color.Hexadecimal

/-!
# Colors and their hexadecimal forms

The hexadecimal form of a color that was read is written from its channels and its
opacity. It has three bytes or four, and it is read as a color again. Channels that do
not come of a hue are from 0 to 255, so that the form determines them. The form of the
color that it is read as is the same, unless an opacity below 1 was rounded to the byte
of 1.
-/

namespace DesignTokens

structure Rgb.IsInCube (c : Rgb) : Prop where
  r : 0 ≤ c.r ∧ c.r ≤ 255
  g : 0 ≤ c.g ∧ c.g ≤ 255
  b : 0 ≤ c.b ∧ c.b ≤ 255

theorem Rgb.IsInRange.isInCube {c : Rgb} (h : c.IsInRange) : c.IsInCube :=
  ⟨h.r, h.g, h.b⟩

theorem Oklch.isInCube_of_toRgb? {c : Oklch} {rgb : Rgb} (h : c.toRgb? = .ok rgb) :
    rgb.IsInCube := by
  simp only [toRgb?, Except.bind_eq_ok] at h
  rcases h with ⟨_, _, _, _, _, _, _, _, hrgb⟩
  cases hrgb
  exact ⟨clampInt_mem _, clampInt_mem _, clampInt_mem _⟩

namespace Color

theorem channel?_mem {t component : Text} {n : Int} (h : channel? t component = .ok n) :
    0 ≤ n ∧ n ≤ 255 := by
  unfold channel? at h
  split at h
  all_goals
    simp only [Except.bind_eq_ok] at h
    rcases h with ⟨_, _, k, _, hk⟩
    cases hk
    exact clampInt_mem k

/-!
## How a parsed color is formed
-/

/--
What is known of every color that was read: its hexadecimal form is written from its
channels, and these are from 0 to 255 if they do not come of a hue.
-/
structure IsFormed (c : Color) : Prop where
  hex : c.rgb.hex? = .ok c.hex
  cube : c.format ≠ some .hsl → c.rgb.IsInCube

theorem isFormed_placeholder : placeholder.IsFormed := by
  refine ⟨?_, fun _ => ⟨by decide, by decide, by decide⟩⟩
  have hzero : channelByte? 0 = .ok 0 := by decide +kernel
  unfold Rgb.hex?
  change (channelByte? 0 >>= fun r => channelByte? 0 >>= fun g => channelByte? 0 >>= fun b => _) = _
  rw [hzero]
  rfl

theorem isFormed_of_ofRgb? {rgb : Rgb} {format : ColorFormat} {oklch : Option Oklch} {c : Color}
    (hrgb : rgb.IsInCube) (h : ofRgb? rgb format oklch = .ok c) : c.IsFormed := by
  rcases ofRgb?_eq_ok h with ⟨hhex, rfl, _⟩
  exact ⟨hhex, fun _ => hrgb⟩

theorem isFormed_of_parseHex {t : Text} {c : Color} (h : parseHex t = .ok c) : c.IsFormed := by
  rcases exists_of_parseHex h with ⟨rgb, hrgb, hc⟩
  refine isFormed_of_ofRgb? ?_ hc
  unfold Rgb.ofHex? at hrgb
  split at hrgb
  · rename_i hdigits
    cases hrgb
    exact (isInRange_ofDigits? hdigits).isInCube
  · cases hrgb

theorem isFormed_of_parse {t : Text} {c : Color} (h : parse t = .ok c) : c.IsFormed := by
  unfold parse at h
  cases hfamily : ColorFormat.ofText? t with
  | none =>
      rw [hfamily] at h
      cases h
      exact isFormed_placeholder
  | some family =>
      rw [hfamily] at h
      cases family with
      | hex => exact isFormed_of_parseHex h
      | rgb =>
          rcases exists_of_parseRgb h with ⟨rgb, ⟨_, _, _, hr, hg, hb⟩, hc⟩
          exact isFormed_of_ofRgb? ⟨channel?_mem hr, channel?_mem hg, channel?_mem hb⟩ hc
      | hsl =>
          -- The channels of a hue are not moved into their range; only their bytes are.
          rcases exists_of_parseHsl h with ⟨_, _, _, _, _, _, _, _, _, _, hhex, hformat⟩
          exact ⟨hhex, fun hne => absurd hformat hne⟩
      | oklch =>
          rcases exists_of_parseOklch h with ⟨oklch, rgb, hrgb, hc⟩
          exact isFormed_of_ofRgb? (Oklch.isInCube_of_toRgb? hrgb) hc

theorem IsFormed.exists_bytes {c : Color} (h : c.IsFormed) :
    ∃ bytes, c.rgb.HasBytes bytes ∧ c.hex = Hex.written bytes :=
  Rgb.exists_bytes_of_hex? h.hex

end Color

/-!
## The shape of the form
-/

namespace Hex

def IsForm (t : Text) : Prop :=
  ∃ ds : Text, t = '#' :: ds ∧ (ds.length = 6 ∨ ds.length = 8) ∧ ∀ c ∈ ds, c ∈ Text.smallHexDigits

def channel? (t : Text) (i : Nat) : Option Int :=
  (Text.hexNumber? (Text.slice t (2 * i + 1) (2 * i + 3))).map Int.ofNat

/-- Whether the channels of a color are the numbers that a hexadecimal form is written with. -/
structure Writes (t : Text) (c : Rgb) : Prop where
  r : channel? t 0 = some c.r
  g : channel? t 1 = some c.g
  b : channel? t 2 = some c.b

/-- A form is written with the channels of one color only. -/
theorem Writes.channels_eq {t : Text} {c d : Rgb} (h : Writes t c) (h' : Writes t d) :
    c.r = d.r ∧ c.g = d.g ∧ c.b = d.b := by
  constructor
  · exact Option.some.inj (h.r.symm.trans h'.r)
  · constructor
    · exact Option.some.inj (h.g.symm.trans h'.g)
    · exact Option.some.inj (h.b.symm.trans h'.b)

theorem isForm_written {bytes : List Nat} (h : bytes.length = 3 ∨ bytes.length = 4) :
    IsForm (written bytes) := by
  refine ⟨_, rfl, ?_, fun c hc => mem_smallHexDigits_of_mem hc⟩
  rw [length_flatMap_hexPadded]
  omega

theorem slice_flatMap {bytes : List Nat} {i n : Nat} (h : bytes[i]? = some n) :
    Text.slice (bytes.flatMap (Text.hexPadded 2)) (2 * i) (2 * i + 2) = Text.hexPadded 2 n := by
  induction bytes generalizing i with
  | nil => cases h
  | cons m bytes ih =>
      cases i with
      | zero =>
          cases h
          rfl
      | succ i =>
          have hrest := ih h
          unfold Text.slice at hrest ⊢
          rw [Nat.add_sub_cancel_left] at hrest ⊢
          exact hrest

theorem channel?_written {bytes : List Nat} {i n : Nat} (h : bytes[i]? = some n) (hn : n < 256) :
    channel? (written bytes) i = some (n : Int) := by
  have hslice : Text.slice (written bytes) (2 * i + 1) (2 * i + 3) = Text.hexPadded 2 n := by
    rw [← slice_flatMap h]
    unfold Text.slice
    rw [Nat.add_sub_add_left, Nat.add_sub_cancel_left]
    rfl
  unfold channel?
  rw [hslice, Text.hexNumber?_hexPadded hn]
  rfl

theorem writes_of_hasBytes {c : Rgb} {bytes : List Nat} (h : c.HasBytes bytes)
    (hcube : c.IsInCube) : Writes (written bytes) c := by
  have hbyte : ∀ {n : Int} {i : Nat}, 0 ≤ n ∧ n ≤ 255 → bytes[i]? = some (Rgb.channelByte n) →
      channel? (written bytes) i = some n := by
    intro n i hn hi
    have hcast : (Rgb.channelByte n : Int) = n := by
      unfold Rgb.channelByte clampInt
      omega
    rw [channel?_written hi (Rgb.channelByte_lt n), hcast]
  cases h with
  | three _ => exact ⟨hbyte hcube.r rfl, hbyte hcube.g rfl, hbyte hcube.b rfl⟩
  | four _ _ _ => exact ⟨hbyte hcube.r rfl, hbyte hcube.g rfl, hbyte hcube.b rfl⟩

theorem writes_of_hex? {t : Text} {c : Rgb} (h : c.hex? = .ok t) (hcube : c.IsInCube) :
    Writes t c := by
  rcases Rgb.exists_bytes_of_hex? h with ⟨bytes, hbytes, rfl⟩
  exact writes_of_hasBytes hbytes hcube

end Hex

namespace Color

def readsAs (value hex : Text) : Bool :=
  match parse value with
  | .ok color => color.hex = hex && !color.isPlaceholder
  | .error _ => false

theorem exists_parse_of_readsAs {value hex : Text} (h : readsAs value hex = true) :
    ∃ color, parse value = .ok color ∧ color.isPlaceholder = false ∧ color.hex = hex := by
  unfold readsAs at h
  split at h
  · rename_i color hparse
    rw [Bool.and_eq_true, Bool.not_eq_true', decide_eq_true_eq] at h
    exact ⟨color, hparse, h.2, h.1⟩
  · cases h

/--
The hexadecimal form of a color that was read has eight digits if the opacity is below 1
and six otherwise, and it determines channels that do not come of a hue.
-/
theorem isForm_of_parse {t : Text} {c : Color} (h : parse t = .ok c) :
    Hex.IsForm c.hex ∧ (c.hex.length = 9 ↔ ∃ a, c.rgb.a = some a ∧ a < 1) ∧
      (c.format ≠ some .hsl → c.rgb.IsInCube ∧ Hex.Writes c.hex c.rgb) ∧
      ∀ {t' : Text} {c' : Color}, parse t' = .ok c' → c.format ≠ some .hsl →
        c'.format ≠ some .hsl → c.hex = c'.hex →
          c.rgb.r = c'.rgb.r ∧ c.rgb.g = c'.rgb.g ∧ c.rgb.b = c'.rgb.b := by
  have hformed := isFormed_of_parse h
  rcases hformed.exists_bytes with ⟨bytes, hbytes, hhex⟩
  refine ⟨?_, ?_, ?_, ?_⟩
  · rw [hhex]
    exact Hex.isForm_written hbytes.length
  · rw [hhex, ← hbytes.length_eq_four_iff, Hex.written, List.length_cons,
      Hex.length_flatMap_hexPadded]
    omega
  · intro hhue
    exact ⟨hformed.cube hhue, Hex.writes_of_hex? hformed.hex (hformed.cube hhue)⟩
  · intro t' c' h' hhue hhue' heq
    have hformed' := isFormed_of_parse h'
    have hthis := Hex.writes_of_hex? hformed.hex (hformed.cube hhue)
    have hother := Hex.writes_of_hex? hformed'.hex (hformed'.cube hhue')
    rw [← heq] at hother
    exact hthis.channels_eq hother

theorem isForm_of_parse_halfRed :
    ∃ c, parse "rgba(255, 0, 0, 0.5)".toList = .ok c ∧ c.format ≠ some .hsl ∧
      Hex.IsForm c.hex ∧ c.hex.length = 9 ∧ Hex.Writes c.hex c.rgb := by
  have hread : readsAs "rgba(255, 0, 0, 0.5)".toList "#ff000080".toList = true := by
    decide +kernel
  rcases exists_parse_of_readsAs hread with ⟨c, hparse, _, hhex⟩
  have hformat : c.format ≠ some .hsl := by
    have hfamily : ColorFormat.ofText? "rgba(255, 0, 0, 0.5)".toList = some .rgb := by decide
    rw [format_of_parse hfamily hparse]
    decide
  have hform := isForm_of_parse hparse
  exact ⟨c, hparse, hformat, hform.1, by rw [hhex]; rfl, (hform.2.2.1 hformat).2⟩

end Color

/-!
## Reading the form

The form of a color is that of its three or four bytes, and it is read as a color of these
bytes. A fourth byte that is full is not written again.
-/

namespace Hex

/-- What bytes are read as is written without a fourth byte that is full. -/
theorem hex?_of_ofBytes? {bytes : List Nat} {rgb : Rgb} (h : ∀ n ∈ bytes, n < 256)
    (hrgb : ofBytes? bytes = some rgb) : rgb.hex? = .ok (written (withoutFull bytes)) := by
  rcases (isInRange_of_ofBytes? h hrgb).isModerate.exists_hex with ⟨hex, hhex⟩
  rcases Rgb.exists_bytes_of_hex? hhex with ⟨bytes', hbytes', rfl⟩
  rw [hhex, hbytes'.unique (hasBytes_of_ofBytes? h hrgb)]

theorem isHexDigit_of_mem_flatMap {bytes : List Nat} :
    ∀ c ∈ bytes.flatMap (Text.hexPadded 2), Text.isHexDigit c = true := by
  intro c hc
  exact Text.isHexDigit_of_mem_smallHexDigits (mem_smallHexDigits_of_mem hc)

theorem ofHex?_written {bytes : List Nat} {rgb : Rgb} (h : ∀ n ∈ bytes, n < 256)
    (hlength : bytes.length = 3 ∨ bytes.length = 4) (hrgb : ofBytes? bytes = some rgb) :
    Rgb.ofHex? (written bytes) = .ok rgb := by
  unfold Rgb.ofHex? written
  rw [Color.digits_mark isHexDigit_of_mem_flatMap, ofDigits?_flatMap h hlength, hrgb]

end Hex

namespace Color

theorem exists_parse_written {bytes : List Nat} (h : ∀ n ∈ bytes, n < 256)
    (hlength : bytes.length = 3 ∨ bytes.length = 4) :
    ∃ d, parse (Hex.written bytes) = .ok d ∧ d.isPlaceholder = false ∧
      Hex.ofBytes? bytes = some d.rgb ∧ d.hex = Hex.written (Hex.withoutFull bytes) := by
  rcases Hex.exists_ofBytes? hlength with ⟨rgb, hrgb⟩
  have hread := Hex.ofHex?_written h hlength hrgb
  have hhex := Hex.hex?_of_ofBytes? h hrgb
  rcases (Hex.isInRange_of_ofBytes? h hrgb).exists_toHsl with ⟨hsl, hhsl⟩
  refine ⟨⟨_, rgb, some hsl, none, some .hex⟩, ?_, rfl, hrgb, rfl⟩
  rw [Hex.written, parse_mark Hex.isHexDigit_of_mem_flatMap, ← Hex.written]
  unfold parseHex ofRgb?
  rw [hread, Except.ok_bind, hhex, hhsl]
  rfl

structure IsReadBack (c d : Color) (bytes : List Nat) : Prop where
  hasBytes : c.rgb.HasBytes bytes
  hex : c.hex = Hex.written bytes
  parse : parse c.hex = .ok d
  genuine : d.isPlaceholder = false
  rgb : Hex.ofBytes? bytes = some d.rgb
  again : d.hex = Hex.written (Hex.withoutFull bytes)

theorem exists_isReadBack {t : Text} {c : Color} (h : parse t = .ok c) :
    ∃ d bytes, IsReadBack c d bytes := by
  rcases (isFormed_of_parse h).exists_bytes with ⟨bytes, hbytes, hhex⟩
  rcases exists_parse_written hbytes.lt hbytes.length with ⟨d, hparse, hgenuine, hrgb, hagain⟩
  rw [← hhex] at hparse
  exact ⟨d, bytes, hbytes, hhex, hparse, hgenuine, hrgb, hagain⟩

namespace IsReadBack

variable {c d c' d' : Color} {bytes bytes' : List Nat}

theorem hex_eq (h : IsReadBack c d bytes) (hfull : ¬ c.rgb.RoundsToFull) : d.hex = c.hex := by
  rw [h.again, h.hex, Hex.withoutFull, if_neg (mt h.hasBytes.drop_eq_iff.mp hfull)]

theorem hex_eq_append (h : IsReadBack c d bytes) (hfull : c.rgb.RoundsToFull) :
    c.hex = d.hex ++ "ff".toList := by
  rw [h.again, h.hex]
  exact Hex.written_eq_append (h.hasBytes.drop_eq_iff.mpr hfull)

theorem hex_eq_iff (h : IsReadBack c d bytes) (h' : IsReadBack c' d' bytes') :
    c.hex = c'.hex ↔ d.rgb = d'.rgb := by
  constructor
  · intro heq
    have hparse := h.parse
    rw [heq, h'.parse] at hparse
    cases hparse
    rfl
  · intro heq
    have hrgb := h'.rgb
    rw [← heq] at hrgb
    rw [h.hex, h'.hex, Hex.ofBytes?_inj h.hasBytes.lt h'.hasBytes.lt h.rgb hrgb]

theorem hex_eq_iff_isAlike (h : IsReadBack c d bytes) (h' : IsReadBack c' d' bytes')
    (hfull : ¬ c.rgb.RoundsToFull) (hfull' : ¬ c'.rgb.RoundsToFull) :
    c.hex = c'.hex ↔ d.rgb.IsAlike d'.rgb := by
  constructor
  · intro heq
    rw [(h.hex_eq_iff h').mp heq]
    exact ⟨rfl, rfl, rfl, rfl⟩
  · intro halike
    have hforms := Rgb.hex?_eq_of_isAlike halike
    rw [(isFormed_of_parse h.parse).hex, (isFormed_of_parse h'.parse).hex] at hforms
    rw [← h.hex_eq hfull, ← h'.hex_eq hfull']
    exact Except.ok.inj hforms

end IsReadBack

/--
The hexadecimal form of a color is read as a color, and that color has the same form unless
an opacity below 1 was rounded to the byte of 1. Two forms are equal exactly if they are
read as the same channels and the same opacity; without such a rounding it does not matter
whether an opacity of 1 is given.
-/
theorem exists_parse_hex {t : Text} {c : Color} (h : parse t = .ok c) :
    ∃ d, parse c.hex = .ok d ∧ d.isPlaceholder = false ∧
      (¬ c.rgb.RoundsToFull → d.hex = c.hex) ∧
      (c.rgb.RoundsToFull → c.hex = d.hex ++ "ff".toList) ∧
      ∀ {t' : Text} {c' d' : Color}, parse t' = .ok c' → parse c'.hex = .ok d' →
        (c.hex = c'.hex ↔ d.rgb = d'.rgb) ∧
          (¬ c.rgb.RoundsToFull → ¬ c'.rgb.RoundsToFull →
            (c.hex = c'.hex ↔ d.rgb.IsAlike d'.rgb)) := by
  rcases exists_isReadBack h with ⟨d, bytes, hback⟩
  refine ⟨d, hback.parse, hback.genuine, hback.hex_eq, hback.hex_eq_append, ?_⟩
  intro t' c' d' h' hparse
  rcases exists_isReadBack h' with ⟨e, bytes', hback'⟩
  have he : d' = e := Except.ok.inj (hparse.symm.trans hback'.parse)
  rw [he]
  exact ⟨hback.hex_eq_iff hback', hback.hex_eq_iff_isAlike hback'⟩

theorem exists_parse_hex_halfRed :
    ∃ c d, parse "rgba(255, 0, 0, 0.5)".toList = .ok c ∧ parse c.hex = .ok d ∧
      ¬ c.rgb.RoundsToFull ∧ d.hex = c.hex := by
  have hread : readsAs "rgba(255, 0, 0, 0.5)".toList "#ff000080".toList = true := by
    decide +kernel
  rcases exists_parse_of_readsAs hread with ⟨c, hparse, _, hhex⟩
  rcases exists_parse_hex hparse with ⟨d, hd, _, hsame, hlonger, _⟩
  have hfull : ¬ c.rgb.RoundsToFull := by
    intro hfull
    have hlast := congrArg List.getLast? (hlonger hfull)
    rw [hhex, List.getLast?_append] at hlast
    cases hlast
  exact ⟨c, d, hparse, hd, hfull, hsame hfull⟩

/-- An opacity that is almost 1 is written as a byte that is not written for 1 itself. -/
theorem not_parse_hex_nearlyFull :
    ∃ c d, parse "rgba(255, 0, 0, 0.999)".toList = .ok c ∧ c.isPlaceholder = false ∧
      parse c.hex = .ok d ∧ d.hex ≠ c.hex := by
  have hread : readsAs "rgba(255, 0, 0, 0.999)".toList "#ff0000ff".toList = true := by
    decide +kernel
  have hagain : readsAs "#ff0000ff".toList "#ff0000".toList = true := by decide +kernel
  rcases exists_parse_of_readsAs hread with ⟨c, hparse, hgenuine, hhex⟩
  rcases exists_parse_of_readsAs hagain with ⟨d, hd, _, hdhex⟩
  refine ⟨c, d, hparse, hgenuine, hhex ▸ hd, ?_⟩
  rw [hdhex, hhex]
  decide

end Color

end DesignTokens
