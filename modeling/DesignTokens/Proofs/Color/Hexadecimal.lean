import DesignTokens.Proofs.Color.Agreement

/-!
# The hexadecimal form of a color

A color is written as three bytes of two digits each, and as four if its opacity is
below 1. What is written is read again as a color of the same bytes. Writing that color
gives the same text, unless the fourth byte is 255: this byte is read as the opacity 1,
which is not written.
-/

namespace DesignTokens

open Binary

/-!
## Digits
-/

namespace Text

def smallHexDigits : Text :=
  "0123456789abcdef".toList

theorem hexDigit_mem_smallHexDigits {n : Nat} (h : n < 16) : hexDigit n ∈ smallHexDigits := by
  revert n
  decide

theorem hexValue?_hexDigit {n : Nat} (h : n < 16) : hexValue? (hexDigit n) = some n := by
  revert n
  decide

theorem mem_smallHexDigits_of_mem_hexPadded {width n : Nat} {c : Char}
    (h : c ∈ hexPadded width n) : c ∈ smallHexDigits := by
  induction width generalizing n with
  | zero => cases h
  | succ width ih =>
      rcases List.mem_append.mp h with hlead | hlast
      · exact ih hlead
      · rw [List.mem_singleton.mp hlast]
        exact hexDigit_mem_smallHexDigits (Nat.mod_lt n (by decide))

theorem isHexDigit_of_mem_smallHexDigits {c : Char} (h : c ∈ smallHexDigits) :
    isHexDigit c = true := by
  have hall : ∀ d ∈ smallHexDigits, isHexDigit d = true := List.all_eq_true.mp (by decide)
  exact hall c h

theorem hexNumber?_hexPadded {width n : Nat} (h : n < 16 ^ width) :
    hexNumber? (hexPadded width n) = some n := by
  induction width generalizing n with
  | zero =>
      rw [pow_zero, Nat.lt_one_iff] at h
      rw [h]
      rfl
  | succ width ih =>
      rw [pow_succ] at h
      have hlead : hexNumber? (hexPadded width (n / 16)) = some (n / 16) := ih (by omega)
      unfold hexNumber? at hlead ⊢
      unfold hexPadded
      rw [List.foldlM_append, hlead]
      simp only [List.foldlM_cons, List.foldlM_nil, Option.bind_eq_bind, Option.bind_some,
        hexValue?_hexDigit (Nat.mod_lt n (show 16 > 0 by decide)), Option.map_some, Nat.div_add_mod]
      rfl

end Text

/-!
## Bytes
-/

namespace Hex

def written (bytes : List Nat) : Text :=
  '#' :: bytes.flatMap (Text.hexPadded 2)

def ofBytes? : List Nat → Option Rgb
  | [r, g, b] => some ⟨r, g, b, none⟩
  | [r, g, b, a] => some ⟨r, g, b, some (Binary.nearest a 255)⟩
  | _ => none

theorem length_flatMap_hexPadded (bytes : List Nat) :
    (bytes.flatMap (Text.hexPadded 2)).length = 2 * bytes.length := by
  simp [List.length_flatMap, mul_comm]

theorem mem_smallHexDigits_of_mem {bytes : List Nat} {c : Char}
    (h : c ∈ bytes.flatMap (Text.hexPadded 2)) : c ∈ Text.smallHexDigits := by
  rcases List.mem_flatMap.mp h with ⟨n, _, hc⟩
  exact Text.mem_smallHexDigits_of_mem_hexPadded hc

theorem mapM_hexValue?_flatMap {bytes : List Nat} (h : ∀ n ∈ bytes, n < 256) :
    (bytes.flatMap (Text.hexPadded 2)).mapM Text.hexValue? =
      some (bytes.flatMap fun n => [n / 16, n % 16]) := by
  induction bytes with
  | nil => rfl
  | cons n bytes ih =>
      rw [List.forall_mem_cons] at h
      have hhigh : Text.hexValue? (Text.hexDigit (n / 16 % 16)) = some (n / 16) := by
        rw [Text.hexValue?_hexDigit (by omega), Nat.mod_eq_of_lt (by omega)]
      have hlow : Text.hexValue? (Text.hexDigit (n % 16)) = some (n % 16) :=
        Text.hexValue?_hexDigit (by omega)
      have hdigits : Text.hexPadded 2 n = [Text.hexDigit (n / 16 % 16), Text.hexDigit (n % 16)] :=
        rfl
      simp only [List.flatMap_cons, hdigits, List.cons_append, List.nil_append, List.mapM_cons,
        hhigh, hlow, ih h.2]
      rfl

theorem ofValues?_flatMap (bytes : List Nat) :
    ofValues? (bytes.flatMap fun n => [n / 16, n % 16]) = ofBytes? bytes := by
  match bytes with
  | [] => rfl
  | [_] => rfl
  | [_, _] => rfl
  | [r, g, b] => simp [ofValues?, ofBytes?, Nat.div_add_mod]
  | [r, g, b, a] => simp [ofValues?, ofBytes?, Nat.div_add_mod]
  | _ :: _ :: _ :: _ :: _ :: _ => rfl

theorem ofDigits?_flatMap {bytes : List Nat} (h : ∀ n ∈ bytes, n < 256)
    (hlength : bytes.length = 3 ∨ bytes.length = 4) :
    ofDigits? (bytes.flatMap (Text.hexPadded 2)) = ofBytes? bytes := by
  have hshort : ¬ ((bytes.flatMap (Text.hexPadded 2)).length = 3 ∨
      (bytes.flatMap (Text.hexPadded 2)).length = 4) := by
    rw [length_flatMap_hexPadded]
    omega
  unfold ofDigits?
  dsimp only
  rw [if_neg hshort, mapM_hexValue?_flatMap h, Option.bind_some, ofValues?_flatMap]

end Hex
/-!
## Opacities

A byte is read as the float nearest to its share of 255. Neighbouring shares are much
farther apart than the two roundings on the way back can lead.
-/

theorem abs_share_le {n : Nat} (h : n ≤ 255) : |(n : ℚ) / 255| ≤ 2 ^ 0 := by
  rw [abs_of_nonneg (by positivity), pow_zero, div_le_one (by norm_num)]
  exact_mod_cast h

theorem exists_opacity {n : Nat} (h : n ≤ 255) :
    ∃ r : ℚ, IsNearest r (n / 255) ∧ Denotes (Binary.nearest n 255) r :=
  denotes_nearest n (show 0 < 255 by decide)
    ((le_abs_self _).trans_lt ((abs_share_le h).trans_lt (two_pow_lt_limit (by decide))))

theorem denotes_opacity {n : Nat} (h : n ≤ 255) :
    ∃ r : ℚ, Denotes (Binary.nearest n 255) r ∧ |(n : ℚ) / 255 - r| ≤ 1 / 2 ^ 20 := by
  rcases exists_opacity h with ⟨r, hr, hdenotes⟩
  have hshare := abs_share_le h
  refine ⟨r, hdenotes, hr.abs_sub_le (by decide) ?_⟩
  linarith

/-- A byte that is read as an opacity is written as the same byte. -/
theorem alphaByte?_nearest {n : Nat} (h : n ≤ 255) : alphaByte? (Binary.nearest n 255) = .ok n := by
  have hbyte : (n : ℚ) ≤ 255 := by exact_mod_cast h
  have hnonneg : (0 : ℚ) ≤ n := Nat.cast_nonneg n
  rcases denotes_opacity h with ⟨r, hdenotes, hclose⟩
  have hproduct : |r * 255 - n| ≤ 1 / 2 ^ 12 := by
    rw [abs_le] at hclose ⊢
    constructor <;> linarith
  have hscaled : |r * 255| ≤ 2 ^ 9 := by
    rw [abs_le] at hproduct ⊢
    constructor <;> linarith
  rcases hdenotes.mul Color.denotes_byte (hscaled.trans_lt (two_pow_lt_limit (by decide))) with
    ⟨s, hs, hsdenotes⟩
  have hsclose : |r * 255 - s| ≤ 1 / 2 ^ 20 := hs.abs_sub_le (by decide) (by linarith)
  have hmoved : |s + 1 / 2 - (n + 1 / 2)| ≤ 1 / 8 := by
    rw [abs_le] at hproduct hsclose ⊢
    constructor <;> linarith
  have hhalf : |s + 1 / 2| ≤ 2 ^ 9 := by
    rw [abs_le] at hmoved ⊢
    constructor <;> linarith
  rcases roundHalfUp?_of_denotes hsdenotes with ⟨k, hk, hround⟩
  have hkclose : |s + 1 / 2 - k| ≤ 1 / 2 ^ 20 := hk.abs_sub_le (by decide) (by linarith)
  have hfloor : ⌊k⌋ = (n : ℤ) := by
    rw [Int.floor_eq_iff, Int.cast_natCast]
    rw [abs_le] at hmoved hkclose
    constructor <;> linarith
  unfold alphaByte?
  rw [hround, hfloor]
  change Except.ok (clampInt 0 255 (n : ℤ)).toNat = Except.ok n
  unfold clampInt
  rw [Except.ok.injEq]
  omega

theorem nearest_lt_one_iff {n : Nat} (h : n ≤ 255) : Binary.nearest n 255 < 1 ↔ n < 255 := by
  rcases h.eq_or_lt with rfl | hlt
  · have hfull : Denotes (Binary.nearest 255 255) 1 :=
      denotes_of_parts (2 ^ 52) (-52) (by decide +kernel) (by norm_num)
    rw [hfull.lt_iff denotes_one]
    exact iff_of_false (lt_irrefl 1) (lt_irrefl 255)
  · rcases denotes_opacity h with ⟨r, hdenotes, hclose⟩
    rw [hdenotes.lt_iff denotes_one]
    have hbyte : (n : ℚ) + 1 ≤ 255 := by exact_mod_cast hlt
    rw [abs_le] at hclose
    exact iff_of_true (by linarith) hlt

/-!
## Writing a color
-/

namespace Rgb

def channelByte (n : Int) : Nat :=
  (clampInt 0 255 n).toNat

/--
The bytes that a color is written as: one for each channel, and one for an opacity
that is below 1.
-/
inductive HasBytes (c : Rgb) : List Nat → Prop where
  | three (h : ∀ a, c.a = some a → ¬ a < 1) :
      HasBytes c [channelByte c.r, channelByte c.g, channelByte c.b]
  | four {a : Float} {n : Nat} (ha : c.a = some a) (hlt : a < 1) (hn : alphaByte? a = .ok n) :
      HasBytes c [channelByte c.r, channelByte c.g, channelByte c.b, n]

theorem eq_channelByte {n : Int} {m : Nat} (h : channelByte? n = .ok m) : m = channelByte n := by
  unfold channelByte? at h
  split at h
  · cases h
  · cases h
    rfl

theorem exists_bytes_of_hex? {c : Rgb} {t : Text} (h : c.hex? = .ok t) :
    ∃ bytes, c.HasBytes bytes ∧ t = Hex.written bytes := by
  unfold hex? at h
  rcases Except.bind_eq_ok.mp h with ⟨r, hr, h⟩
  rcases Except.bind_eq_ok.mp h with ⟨g, hg, h⟩
  rcases Except.bind_eq_ok.mp h with ⟨b, hb, h⟩
  rw [eq_channelByte hr, eq_channelByte hg, eq_channelByte hb] at h
  dsimp only at h
  split at h
  · rename_i a ha
    split at h
    · rename_i hlt
      rcases Except.bind_eq_ok.mp h with ⟨n, hn, h⟩
      cases h
      exact ⟨_, .four ha hlt hn, rfl⟩
    · rename_i hge
      cases h
      refine ⟨_, .three ?_, rfl⟩
      intro a' ha'
      rw [ha] at ha'
      cases ha'
      exact hge
  · rename_i hnone
    cases h
    refine ⟨_, .three ?_, rfl⟩
    intro a ha
    rw [hnone] at ha
    cases ha

theorem channelByte_lt (n : Int) : channelByte n < 256 := by
  have hclamp := clampInt_mem n
  unfold channelByte
  omega

theorem channelByte_cast {n : Nat} (h : n < 256) : channelByte n = n := by
  unfold channelByte clampInt
  omega

theorem lt_of_alphaByte? {a : Float} {n : Nat} (h : alphaByte? a = .ok n) : n < 256 := by
  unfold alphaByte? at h
  cases hround : roundHalfUp? (a * 255) with
  | error fault =>
      rw [hround] at h
      cases h
  | ok k =>
      rw [hround] at h
      cases h
      exact channelByte_lt k

namespace HasBytes

variable {c : Rgb} {bytes bytes' : List Nat}

theorem lt (h : c.HasBytes bytes) : ∀ n ∈ bytes, n < 256 := by
  cases h with
  | three _ => simp [channelByte_lt]
  | four _ _ hn => simp [channelByte_lt, lt_of_alphaByte? hn]

theorem length (h : c.HasBytes bytes) : bytes.length = 3 ∨ bytes.length = 4 := by
  cases h with
  | three _ => exact .inl rfl
  | four _ _ _ => exact .inr rfl

theorem length_eq_four_iff (h : c.HasBytes bytes) :
    bytes.length = 4 ↔ ∃ a, c.a = some a ∧ a < 1 := by
  cases h with
  | three hsolid =>
      refine iff_of_false (by simp) ?_
      intro hlow
      rcases hlow with ⟨a, ha, hlt⟩
      exact hsolid a ha hlt
  | four ha hlt _ => exact iff_of_true rfl ⟨_, ha, hlt⟩

theorem unique (h : c.HasBytes bytes) (h' : c.HasBytes bytes') : bytes = bytes' := by
  cases h with
  | three hsolid =>
      cases h' with
      | three _ => rfl
      | four ha hlt _ => exact absurd hlt (hsolid _ ha)
  | four ha hlt hn =>
      cases h' with
      | three hsolid => exact absurd hlt (hsolid _ ha)
      | four ha' _ hn' =>
          rw [ha] at ha'
          cases ha'
          rw [hn] at hn'
          cases hn'
          rfl

end HasBytes

/-- Whether the opacity of a color is below 1 and is written as the byte of 1. -/
def RoundsToFull (c : Rgb) : Prop :=
  ∃ a, c.a = some a ∧ a < 1 ∧ alphaByte? a = .ok 255

theorem HasBytes.drop_eq_iff {c : Rgb} {bytes : List Nat} (h : c.HasBytes bytes) :
    bytes.drop 3 = [255] ↔ c.RoundsToFull := by
  cases h with
  | three hsolid =>
      refine iff_of_false (by simp) ?_
      intro hfull
      rcases hfull with ⟨a, ha, hlt, _⟩
      exact hsolid a ha hlt
  | @four a n ha hlt hn =>
      constructor
      · intro hdrop
        simp only [List.drop_succ_cons, List.drop_zero, List.cons.injEq, and_true] at hdrop
        exact ⟨a, ha, hlt, hdrop ▸ hn⟩
      · intro hfull
        rcases hfull with ⟨a', ha', _, hn'⟩
        rw [ha] at ha'
        cases ha'
        rw [hn] at hn'
        cases hn'
        rfl

def opacity (c : Rgb) : Float :=
  c.a.getD 1

structure IsAlike (c d : Rgb) : Prop where
  r : c.r = d.r
  g : c.g = d.g
  b : c.b = d.b
  opacity : c.opacity = d.opacity

theorem not_one_lt_one : ¬ (1 : Float) < 1 := by
  rw [denotes_one.lt_iff denotes_one]
  exact lt_irrefl 1

theorem hex?_eq_of_isAlike {c d : Rgb} (h : c.IsAlike d) : c.hex? = d.hex? := by
  have hopacity : c.a.getD 1 = d.a.getD 1 := h.opacity
  unfold hex?
  rw [h.r, h.g, h.b]
  cases hc : c.a with
  | none =>
      cases hd : d.a with
      | none => rfl
      | some a =>
          rw [hc, hd] at hopacity
          change 1 = a at hopacity
          simp only [← hopacity, if_neg not_one_lt_one]
  | some a =>
      cases hd : d.a with
      | none =>
          rw [hc, hd] at hopacity
          change a = 1 at hopacity
          simp only [hopacity, if_neg not_one_lt_one]
      | some b =>
          rw [hc, hd] at hopacity
          change a = b at hopacity
          rw [hopacity]

end Rgb

/-!
## Reading what was written
-/

namespace Hex

/-- The bytes of a color without a fourth one that stands for the opacity 1. -/
def withoutFull (bytes : List Nat) : List Nat :=
  if bytes.drop 3 = [255] then bytes.take 3 else bytes

theorem written_eq_append {bytes : List Nat} (h : bytes.drop 3 = [255]) :
    written bytes = written (withoutFull bytes) ++ "ff".toList := by
  have hff : Text.hexPadded 2 255 = "ff".toList := by decide
  have hbytes : bytes = bytes.take 3 ++ [255] := by rw [← h, List.take_append_drop]
  unfold withoutFull
  rw [if_pos h]
  calc written bytes = written (bytes.take 3 ++ [255]) := congrArg written hbytes
    _ = written (bytes.take 3) ++ "ff".toList := by simp [written, hff]

/-- What bytes are read as is written as these bytes, but for a fourth one that is full. -/
theorem hasBytes_of_ofBytes? {bytes : List Nat} {rgb : Rgb} (h : ∀ n ∈ bytes, n < 256)
    (hrgb : ofBytes? bytes = some rgb) : rgb.HasBytes (withoutFull bytes) := by
  unfold ofBytes? at hrgb
  split at hrgb
  · rename_i r g b
    cases hrgb
    simp only [List.forall_mem_cons] at h
    have hbytes : withoutFull [r, g, b] = [r, g, b] := if_neg (by simp)
    have hthree := Rgb.HasBytes.three (c := ⟨r, g, b, none⟩) nofun
    rwa [Rgb.channelByte_cast h.1, Rgb.channelByte_cast h.2.1, Rgb.channelByte_cast h.2.2.1,
      ← hbytes] at hthree
  · rename_i r g b a
    cases hrgb
    simp only [List.forall_mem_cons] at h
    rcases h with ⟨hr, hg, hb, ha, _⟩
    have hbelow := nearest_lt_one_iff (n := a) (by omega)
    by_cases hfull : a = 255
    · have hbytes : withoutFull [r, g, b, a] = [r, g, b] := if_pos (by rw [hfull]; rfl)
      have hthree := Rgb.HasBytes.three (c := ⟨r, g, b, some (Binary.nearest a 255)⟩) (by
        intro x hx
        cases hx
        rw [hbelow]
        omega)
      rwa [Rgb.channelByte_cast hr, Rgb.channelByte_cast hg, Rgb.channelByte_cast hb,
        ← hbytes] at hthree
    · have hbytes : withoutFull [r, g, b, a] = [r, g, b, a] := if_neg (by simp [hfull])
      have hfour := Rgb.HasBytes.four (c := ⟨r, g, b, some (Binary.nearest a 255)⟩) rfl
        (hbelow.mpr (by omega)) (alphaByte?_nearest (by omega))
      rwa [Rgb.channelByte_cast hr, Rgb.channelByte_cast hg, Rgb.channelByte_cast hb,
        ← hbytes] at hfour
  · cases hrgb

theorem isInRange_of_ofBytes? {bytes : List Nat} {rgb : Rgb} (h : ∀ n ∈ bytes, n < 256)
    (hrgb : ofBytes? bytes = some rgb) : rgb.IsInRange := by
  have hbyte : ∀ {n : Nat}, n < 256 → (0 : Int) ≤ n ∧ (n : Int) ≤ 255 := by omega
  unfold ofBytes? at hrgb
  split at hrgb
  · cases hrgb
    simp only [List.forall_mem_cons] at h
    exact ⟨hbyte h.1, hbyte h.2.1, hbyte h.2.2.1, nofun⟩
  · cases hrgb
    simp only [List.forall_mem_cons] at h
    rcases h with ⟨hr, hg, hb, ha, _⟩
    refine ⟨hbyte hr, hbyte hg, hbyte hb, ?_⟩
    intro x hx
    cases hx
    exact isFraction_nearest (by decide) (by omega)
  · cases hrgb

theorem exists_ofBytes? {bytes : List Nat} (h : bytes.length = 3 ∨ bytes.length = 4) :
    ∃ rgb, ofBytes? bytes = some rgb := by
  rcases h with hthree | hfour
  · match bytes, hthree with
    | [_, _, _], _ => exact ⟨_, rfl⟩
  · match bytes, hfour with
    | [_, _, _, _], _ => exact ⟨_, rfl⟩

theorem ofBytes?_inj {bytes bytes' : List Nat} {rgb : Rgb} (h : ∀ n ∈ bytes, n < 256)
    (h' : ∀ n ∈ bytes', n < 256) (hrgb : ofBytes? bytes = some rgb)
    (hrgb' : ofBytes? bytes' = some rgb) : bytes = bytes' := by
  unfold ofBytes? at hrgb hrgb'
  split at hrgb
  · cases hrgb
    split at hrgb'
    · simpa using hrgb'.symm
    · cases hrgb'
    · cases hrgb'
  · rename_i r g b a
    cases hrgb
    split at hrgb'
    · cases hrgb'
    · rename_i r' g' b' a'
      simp only [Option.some.injEq, Rgb.mk.injEq, Int.natCast_inj] at hrgb'
      rcases hrgb' with ⟨hr, hg, hb, hopacity⟩
      have ha := alphaByte?_nearest (n := a) (by have := h a (by simp); omega)
      have ha' := alphaByte?_nearest (n := a') (by have := h' a' (by simp); omega)
      rw [← hopacity, ha'] at ha
      cases ha
      rw [hr, hg, hb]
    · cases hrgb'
  · cases hrgb

end Hex

end DesignTokens
