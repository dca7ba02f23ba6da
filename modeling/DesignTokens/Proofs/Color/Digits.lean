import DesignTokens.Proofs.Color.Canonical

/-!
# Digits of hexadecimal colors

Every text with the digits of a color is read, and what is written for the color is a
normal form of these digits: a short form is doubled, letters are small, and an opacity of
`ff` is left out. Colors of bytes without an opacity are read as they were written.
-/

namespace DesignTokens

open Binary

/-!
## Single digits
-/

namespace Text

def hexDigits : Text :=
  "0123456789abcdefABCDEF".toList

theorem mem_hexDigits_of_isHexDigit {c : Char} (h : isHexDigit c = true) : c ∈ hexDigits := by
  have hrange : (0x30 ≤ c.toNat ∧ c.toNat ≤ 0x39) ∨ (0x61 ≤ c.toNat ∧ c.toNat ≤ 0x66) ∨
      (0x41 ≤ c.toNat ∧ c.toNat ≤ 0x46) := by
    unfold isHexDigit hexValue? at h
    simp only [Bool.and_eq_true, decide_eq_true_eq] at h
    split_ifs at h
    · exact .inl ‹_›
    · exact .inr (.inl ‹_›)
    · exact .inr (.inr ‹_›)
    · cases h
  have hall : ∀ n < 0x67, (0x30 ≤ n ∧ n ≤ 0x39) ∨ (0x61 ≤ n ∧ n ≤ 0x66) ∨
      (0x41 ≤ n ∧ n ≤ 0x46) → Char.ofNat n ∈ hexDigits := by
    decide
  rw [← Char.ofNat_toNat c]
  exact hall c.toNat (by omega) hrange

theorem isHexDigit_iff {c : Char} : isHexDigit c = true ↔ c ∈ hexDigits := by
  have hall : ∀ d ∈ hexDigits, isHexDigit d = true := List.all_eq_true.mp (by decide)
  exact ⟨mem_hexDigits_of_isHexDigit, hall c⟩

theorem exists_hexValue? {c : Char} (h : c ∈ hexDigits) :
    ∃ n < 16, hexValue? c = some n ∧ hexDigit n = small c := by
  have hall : ∀ d ∈ hexDigits, ∃ n < 16, hexValue? d = some n ∧ hexDigit n = small d :=
    List.all_iff_forall_prop.mp (by decide)
  exact hall c h

theorem hexValue?_small {c : Char} (h : c ∈ hexDigits) : hexValue? (small c) = hexValue? c := by
  rcases exists_hexValue? h with ⟨n, hlt, hvalue, hdigit⟩
  rw [← hdigit, hexValue?_hexDigit hlt, hvalue]

end Text

/-!
## Digits of a color
-/

namespace Hex

def full (ds : Text) : Text :=
  if ds.length = 3 ∨ ds.length = 4 then doubled ds else ds

def normalDigits (ds : Text) : Text :=
  let small := Text.lower (full ds)
  if small.drop 6 = "ff".toList then small.take 6 else small

/-- Whether a text consists of as many hexadecimal digits as a color has. -/
structure AreDigits (ds : Text) : Prop where
  digits : ∀ c ∈ ds, c ∈ Text.hexDigits
  length : ds.length = 3 ∨ ds.length = 4 ∨ ds.length = 6 ∨ ds.length = 8

variable {ds : Text}

theorem ofDigits?_eq (ds : Text) :
    ofDigits? ds = ((full ds).mapM Text.hexValue?).bind ofValues? :=
  rfl

theorem length_doubled (ds : Text) : (doubled ds).length = 2 * ds.length := by
  simp [doubled, List.length_flatMap, mul_comm]

theorem mem_full {c : Char} : c ∈ full ds ↔ c ∈ ds := by
  unfold full
  split
  · simp [doubled]
  · rfl

theorem AreDigits.length_full (h : AreDigits ds) :
    (full ds).length = 6 ∨ (full ds).length = 8 := by
  have hlength := h.length
  unfold full
  split
  · rw [length_doubled]
    omega
  · omega

theorem full_eq_self (h : ds.length = 6 ∨ ds.length = 8) : full ds = ds :=
  if_neg (by omega)

theorem of_mapM_hexValue? {values : List Nat} (h : ds.mapM Text.hexValue? = some values) :
    (∀ c ∈ ds, c ∈ Text.hexDigits) ∧ values.length = ds.length := by
  induction ds generalizing values with
  | nil =>
      cases h
      exact ⟨nofun, rfl⟩
  | cons c ds ih =>
      simp only [List.mapM_cons, Option.bind_eq_bind, Option.bind_eq_some_iff] at h
      rcases h with ⟨n, hn, rest, hrest, h⟩
      cases h
      rcases ih hrest with ⟨hdigits, hlength⟩
      have hc : Text.isHexDigit c = true := Option.isSome_iff_exists.mpr ⟨n, hn⟩
      exact ⟨List.forall_mem_cons.mpr ⟨Text.isHexDigit_iff.mp hc, hdigits⟩,
        congrArg (· + 1) hlength⟩

theorem length_of_ofValues? {values : List Nat} {c : Rgb} (h : ofValues? values = some c) :
    values.length = 6 ∨ values.length = 8 := by
  unfold ofValues? at h
  split at h
  · exact .inl rfl
  · exact .inr rfl
  · cases h

/-- Exactly the digits of a color are read. -/
theorem exists_ofDigits?_iff : (∃ c, ofDigits? ds = some c) ↔ AreDigits ds := by
  constructor
  · rintro ⟨c, hc⟩
    rw [ofDigits?_eq] at hc
    rcases Option.bind_eq_some_iff.mp hc with ⟨values, hvalues, hc⟩
    rcases of_mapM_hexValue? hvalues with ⟨hdigits, hlength⟩
    have hsize := length_of_ofValues? hc
    refine ⟨fun c hc => hdigits c (mem_full.mpr hc), ?_⟩
    unfold full at hlength
    split at hlength
    · omega
    · omega
  · intro h
    have hdigits : ∀ c ∈ ds, Text.isHexDigit c = true :=
      fun c hc => Text.isHexDigit_iff.mpr (h.digits c hc)
    exact Option.isSome_iff_exists.mp (Color.isSome_ofDigits? hdigits h.length)

/-!
## Digits and bytes

In full there are two digits for each byte. A color has three bytes or four, so the rows of
digits are those of six and of eight.
-/

theorem mapM_hexValue?_lower (h : ∀ c ∈ ds, c ∈ Text.hexDigits) :
    (Text.lower ds).mapM Text.hexValue? = ds.mapM Text.hexValue? := by
  induction ds with
  | nil => rfl
  | cons c ds ih =>
      rw [List.forall_mem_cons] at h
      have hrest := ih h.2
      unfold Text.lower at hrest ⊢
      rw [List.map_cons, List.mapM_cons, List.mapM_cons, Text.hexValue?_small h.1, hrest]

theorem exists_bytes {n : Nat} (h : ∀ c ∈ ds, c ∈ Text.hexDigits) (hlength : ds.length = 2 * n) :
    ∃ bytes : List Nat, bytes.length = n ∧ (∀ b ∈ bytes, b < 256) ∧
      Text.lower ds = bytes.flatMap (Text.hexPadded 2) := by
  induction n generalizing ds with
  | zero => exact ⟨[], rfl, nofun, by rw [List.eq_nil_of_length_eq_zero hlength]; rfl⟩
  | succ n ih =>
      match ds, hlength with
      | c :: d :: ds, hlength =>
          rw [List.forall_mem_cons, List.forall_mem_cons] at h
          rcases Text.exists_hexValue? h.1 with ⟨high, hhigh, _, hc⟩
          rcases Text.exists_hexValue? h.2.1 with ⟨low, hlow, _, hd⟩
          rw [List.length_cons, List.length_cons] at hlength
          rcases ih h.2.2 (by omega) with ⟨bytes, hcount, hbytes, htext⟩
          refine ⟨(16 * high + low) :: bytes, congrArg (· + 1) hcount,
            List.forall_mem_cons.mpr ⟨by omega, hbytes⟩, ?_⟩
          have hbyte : Text.hexPadded 2 (16 * high + low) = [Text.small c, Text.small d] := by
            rw [← hc, ← hd]
            change [Text.hexDigit ((16 * high + low) / 16 % 16),
              Text.hexDigit ((16 * high + low) % 16)] = _
            rw [show (16 * high + low) / 16 % 16 = high by omega,
              show (16 * high + low) % 16 = low by omega]
          rw [List.flatMap_cons, hbyte, ← htext]
          rfl

theorem AreDigits.exists_bytes (h : AreDigits ds) :
    ∃ bytes : List Nat, (bytes.length = 3 ∨ bytes.length = 4) ∧ (∀ b ∈ bytes, b < 256) ∧
      Text.lower (full ds) = bytes.flatMap (Text.hexPadded 2) ∧ ofDigits? ds = ofBytes? bytes := by
  have hdigits : ∀ c ∈ full ds, c ∈ Text.hexDigits := fun c hc => h.digits c (mem_full.mp hc)
  have hsize := h.length_full
  have hbytes : ∃ bytes : List Nat, (bytes.length = 3 ∨ bytes.length = 4) ∧
      (∀ b ∈ bytes, b < 256) ∧ Text.lower (full ds) = bytes.flatMap (Text.hexPadded 2) := by
    rcases hsize with hsix | height
    · rcases Hex.exists_bytes (n := 3) hdigits hsix with ⟨bytes, hcount, hbytes⟩
      exact ⟨bytes, .inl hcount, hbytes⟩
    · rcases Hex.exists_bytes (n := 4) hdigits height with ⟨bytes, hcount, hbytes⟩
      exact ⟨bytes, .inr hcount, hbytes⟩
  rcases hbytes with ⟨bytes, hcount, hbytes, htext⟩
  refine ⟨bytes, hcount, hbytes, htext, ?_⟩
  have hlower : full (Text.lower (full ds)) = Text.lower (full ds) :=
    full_eq_self (by rw [Text.lower, List.length_map]; exact hsize)
  rw [← ofDigits?_flatMap hbytes hcount, ← htext, ofDigits?_eq, ofDigits?_eq, hlower,
    mapM_hexValue?_lower hdigits]

theorem hexPadded_eq_ff_iff {n : Nat} (h : n < 256) :
    Text.hexPadded 2 n = "ff".toList ↔ n = 255 := by
  constructor
  · intro heq
    have hread : Text.hexNumber? (Text.hexPadded 2 n) = some n := Text.hexNumber?_hexPadded h
    rw [heq] at hread
    exact (Option.some.inj hread).symm
  · rintro rfl
    decide

theorem written_withoutFull {bytes : List Nat} (hcount : bytes.length = 3 ∨ bytes.length = 4)
    (hbytes : ∀ b ∈ bytes, b < 256)
    (htext : Text.lower (full ds) = bytes.flatMap (Text.hexPadded 2)) :
    written (withoutFull bytes) = '#' :: normalDigits ds := by
  unfold written normalDigits withoutFull
  rw [htext]
  rcases hcount with hthree | hfour
  · match bytes, hthree with
    | [r, g, b], _ => rfl
  · match bytes, hfour with
    | [r, g, b, a], _ =>
        have hlast := hexPadded_eq_ff_iff (hbytes a (by simp))
        have hdrop : ([r, g, b, a].flatMap (Text.hexPadded 2)).drop 6 = Text.hexPadded 2 a := rfl
        dsimp only
        rw [hdrop]
        by_cases hfull : a = 255
        · rw [if_pos (hlast.mpr hfull), if_pos (by rw [hfull]; rfl)]
          rfl
        · rw [if_neg (mt hlast.mp hfull), if_neg (by simp [hfull])]

/-!
## What digits are read as
-/

/--
What digits are read as: channels, and an opacity where there are eight digits. The opacity is
the float nearest to the share that the last two digits have of 255.
-/
structure AreReadAs (ds : Text) (c : Rgb) : Prop where
  channels : Writes ('#' :: Text.lower (full ds)) c
  solid : c.a = none ↔ (full ds).length = 6
  opacity : ∀ a, c.a = some a → ∃ (n : Nat) (r : ℚ),
    Text.hexNumber? ((Text.lower (full ds)).drop 6) = some n ∧ IsNearest r (n / 255) ∧ Denotes a r

theorem length_full_of_lower {bytes : List Nat}
    (h : Text.lower (full ds) = bytes.flatMap (Text.hexPadded 2)) :
    (full ds).length = 2 * bytes.length := by
  rw [← length_flatMap_hexPadded, ← h, Text.lower, List.length_map]

theorem areReadAs_three {r g b : Nat} (hr : r < 256) (hg : g < 256) (hb : b < 256)
    (h : Text.lower (full ds) = [r, g, b].flatMap (Text.hexPadded 2)) :
    AreReadAs ds ⟨r, g, b, none⟩ := by
  refine ⟨?_, iff_of_true rfl (length_full_of_lower h), ?_⟩
  · rw [h]
    exact ⟨channel?_written rfl hr, channel?_written rfl hg, channel?_written rfl hb⟩
  · intro a ha
    cases ha

theorem areReadAs_four {r g b n : Nat} (hr : r < 256) (hg : g < 256) (hb : b < 256)
    (hn : n < 256) (h : Text.lower (full ds) = [r, g, b, n].flatMap (Text.hexPadded 2)) :
    AreReadAs ds ⟨r, g, b, some (nearest n 255)⟩ := by
  have hlength : (full ds).length = 8 := length_full_of_lower h
  refine ⟨?_, iff_of_false (Option.some_ne_none _) (by omega), ?_⟩
  · rw [h]
    exact ⟨channel?_written rfl hr, channel?_written rfl hg, channel?_written rfl hb⟩
  · intro a ha
    cases ha
    have hdrop : (Text.lower (full ds)).drop 6 = Text.hexPadded 2 n := by
      rw [h]
      rfl
    rcases exists_opacity (n := n) (by omega) with ⟨r, hnearest, hdenotes⟩
    exact ⟨n, r, by rw [hdrop, Text.hexNumber?_hexPadded hn], hnearest, hdenotes⟩

theorem areReadAs_of_ofBytes? {bytes : List Nat} {c : Rgb}
    (hcount : bytes.length = 3 ∨ bytes.length = 4) (hbytes : ∀ b ∈ bytes, b < 256)
    (htext : Text.lower (full ds) = bytes.flatMap (Text.hexPadded 2))
    (hc : ofBytes? bytes = some c) : AreReadAs ds c := by
  rcases hcount with hthree | hfour
  · match bytes, hthree with
    | [r, g, b], _ =>
        cases hc
        exact areReadAs_three (hbytes r (by simp)) (hbytes g (by simp)) (hbytes b (by simp)) htext
  · match bytes, hfour with
    | [r, g, b, n], _ =>
        cases hc
        exact areReadAs_four (hbytes r (by simp)) (hbytes g (by simp)) (hbytes b (by simp))
          (hbytes n (by simp)) htext

theorem AreDigits.exists_read (h : AreDigits ds) :
    ∃ c, ofDigits? ds = some c ∧ c.hex? = .ok ('#' :: normalDigits ds) ∧ AreReadAs ds c := by
  rcases h.exists_bytes with ⟨bytes, hcount, hbytes, htext, hread⟩
  rcases exists_ofBytes? hcount with ⟨c, hc⟩
  refine ⟨c, hread.trans hc, ?_, areReadAs_of_ofBytes? hcount hbytes htext hc⟩
  rw [hex?_of_ofBytes? hbytes hc, written_withoutFull hcount hbytes htext]

end Hex

/-!
## Reading and writing
-/

namespace Rgb

theorem ofHex?_eq_ok_iff {t : Text} {c : Rgb} :
    ofHex? t = .ok c ↔ Hex.ofDigits? (Hex.digits t) = some c := by
  unfold ofHex?
  cases Hex.ofDigits? (Hex.digits t) with
  | none => exact iff_of_false nofun nofun
  | some d => rw [Except.ok.injEq, Option.some.injEq]

/-- A color of bytes without an opacity is read as it was written. -/
theorem exists_ofHex?_hex? {c : Rgb} (hcube : c.IsInCube) (ha : c.a = none) :
    ∃ t, c.hex? = .ok t ∧ ofHex? t = .ok c := by
  rcases c with ⟨r, g, b, a⟩
  cases ha
  rcases hcube with ⟨hr, hg, hb⟩
  dsimp only at hr hg hb
  lift r to Nat using hr.1
  lift g to Nat using hg.1
  lift b to Nat using hb.1
  have hbytes : ∀ n ∈ [r, g, b], n < 256 := by
    simp only [List.forall_mem_cons]
    exact ⟨by omega, by omega, by omega, nofun⟩
  have hread : Hex.ofBytes? [r, g, b] = some ⟨r, g, b, none⟩ := rfl
  exact ⟨_, Hex.hex?_of_ofBytes? hbytes hread, Hex.ofHex?_written hbytes (.inl rfl) hread⟩

/--
A text is read as a color exactly if it holds the digits of one, apart from blanks around it and
number signs before them. It is written again as the normal form of these digits. A color of
bytes without an opacity is read as it was written.
-/
theorem ofHex?_normalForm (t : Text) :
    ((∃ c, ofHex? t = .ok c) ↔ Hex.AreDigits ((Text.strip t).dropWhile (· = '#'))) ∧
      (∀ c, ofHex? t = .ok c →
        c.hex? = .ok ('#' :: Hex.normalDigits ((Text.strip t).dropWhile (· = '#'))) ∧
          Hex.AreReadAs ((Text.strip t).dropWhile (· = '#')) c) ∧
      ∀ c : Rgb, c.IsInCube → c.a = none → ∃ u, c.hex? = .ok u ∧ ofHex? u = .ok c := by
  have hdigits : (Text.strip t).dropWhile (· = '#') = Hex.digits t := rfl
  rw [hdigits]
  refine ⟨?_, ?_, ?_⟩
  · rw [← Hex.exists_ofDigits?_iff]
    exact exists_congr fun c => ofHex?_eq_ok_iff
  · intro c hc
    rw [ofHex?_eq_ok_iff] at hc
    rcases (Hex.exists_ofDigits?_iff.mp ⟨c, hc⟩).exists_read with ⟨d, hd, hread⟩
    rw [hd] at hc
    cases hc
    exact hread
  · intro c hcube ha
    exact exists_ofHex?_hex? hcube ha

theorem ofHex?_normalForm_short :
    (∃ c, ofHex? " ##1aBf\n".toList = .ok c ∧ c.hex? = .ok "#11aabb".toList) ∧
      (⟨0, 128, 255, none⟩ : Rgb).IsInCube ∧
      ∃ u, (⟨0, 128, 255, none⟩ : Rgb).hex? = .ok u ∧ ofHex? u = .ok ⟨0, 128, 255, none⟩ := by
  have hnormal : Hex.normalDigits ((Text.strip " ##1aBf\n".toList).dropWhile (· = '#')) =
      "11aabb".toList := by
    decide
  have hdigits : Hex.AreDigits ((Text.strip " ##1aBf\n".toList).dropWhile (· = '#')) :=
    ⟨List.all_iff_forall_prop.mp (by decide), by decide⟩
  have hcube : (⟨0, 128, 255, none⟩ : Rgb).IsInCube := ⟨by decide, by decide, by decide⟩
  rcases (ofHex?_normalForm " ##1aBf\n".toList).1.mpr hdigits with ⟨c, hc⟩
  have hhex := ((ofHex?_normalForm " ##1aBf\n".toList).2.1 c hc).1
  rw [hnormal] at hhex
  exact ⟨⟨c, hc, hhex⟩, hcube, (ofHex?_normalForm []).2.2 _ hcube rfl⟩

end Rgb
end DesignTokens
