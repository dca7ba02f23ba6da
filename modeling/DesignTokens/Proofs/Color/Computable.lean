import DesignTokens.Proofs.Color.Channels
import DesignTokens.Color.Parse
import DesignTokens.Proofs.Except
import DesignTokens.Proofs.Number.Decimal

/-!
# Color texts that can be computed

Reading a color text ends with a color or with a fault of the text: the floats in
between are finite, and none of the conversions is undefined for them. The one
exception is a channel in percent that is so large that its share of 255 is infinite.
Apart from it, a color of known components is read if and only if each of its numbers
is one.
-/

namespace DesignTokens

open Binary
open Numeral (IsNumber)

/-!
## Results and their faults
-/

/--
Whether a result has a property if a condition holds, and is refused for a fault of the
text if it does not hold.
-/
inductive Settles {α : Type} (C : Prop) (P : α → Prop) : Except ColorFault α → Prop where
  | ok {x : α} (hc : C) (h : P x) : Settles C P (.ok x)
  | error {fault : ColorFault} (hc : ¬ C) (h : ∀ f, fault ≠ .arithmetic f) :
      Settles C P (.error fault)

namespace Settles

variable {α β : Type} {C D : Prop} {P : α → Prop} {Q : β → Prop} {e : Except ColorFault α}

theorem bind {f : α → Except ColorFault β} (h : Settles C P e)
    (hf : ∀ x, e = .ok x → P x → Settles D Q (f x)) : Settles (C ∧ D) Q (e >>= f) := by
  cases h with
  | @ok x hc hx =>
      change Settles (C ∧ D) Q (f x)
      have hresult := hf x rfl hx
      generalize f x = r at hresult ⊢
      cases hresult with
      | ok hd hy => exact .ok ⟨hc, hd⟩ hy
      | error hd hfault => exact .error (fun hand => hd hand.2) hfault
  | error hc hfault => exact .error (fun hand => hc hand.1) hfault

theorem map {f : α → β} (h : Settles C P e) (hf : ∀ x, P x → Q (f x)) :
    Settles C Q (e.map f) := by
  cases h with
  | ok hc hx => exact .ok hc (hf _ hx)
  | error hc hfault => exact .error hc hfault

theorem computed {r : Except ArithmeticFault α} (h : ∃ x, r = .ok x ∧ P x) :
    Settles True P (Color.computed r) := by
  rcases h with ⟨x, rfl, hx⟩
  exact .ok trivial hx

theorem mono {P' : α → Prop} (h : Settles C P e) (hle : ∀ x, P x → P' x) : Settles C P' e := by
  cases h with
  | ok hc hx => exact .ok hc (hle _ hx)
  | error hc hfault => exact .error hc hfault

theorem of_iff (h : Settles C P e) (hiff : C ↔ D) : Settles D P e :=
  propext hiff ▸ h

theorem ne_arithmetic (h : Settles C P e) (fault : ArithmeticFault) :
    e ≠ .error (.arithmetic fault) := by
  cases h with
  | ok _ _ => exact nofun
  | error _ hfault =>
      intro heq
      cases heq
      exact hfault fault rfl

theorem exists_error_iff (h : Settles C P e) : (∃ fault, e = .error fault) ↔ ¬ C := by
  cases h with
  | ok hc _ => exact iff_of_false nofun (not_not.mpr hc)
  | error hc _ => exact iff_of_true ⟨_, rfl⟩ hc

end Settles

namespace Color

/-!
## Components
-/

def IsFinite (x : Float) : Prop :=
  ∃ a, Denotes x a

theorem isFinite_of_within {x : Float} {n : Nat} (h : Within n x) : IsFinite x := by
  rcases h with ⟨a, ha, _⟩
  exact ⟨a, ha⟩

theorem isFinite_div {x y : Float} {b : ℚ} (hx : IsFinite x) (hy : Denotes y b) (hb : 1 ≤ b) :
    IsFinite (x / y) := by
  rcases hx with ⟨a, ha⟩
  have hpos : 0 < b := by linarith
  have hlimit : |a / b| < limit := by
    rw [abs_div, abs_of_pos hpos]
    exact (div_le_self (abs_nonneg a) hb).trans_lt (ha.abs_le_largest.trans_lt largest_lt_limit)
  rcases ha.div hy hpos.ne' hlimit with ⟨r, _, hr⟩
  exact ⟨r, hr⟩

theorem denotes_hundred : Denotes (100 : Float) 100 :=
  denotes_ofNat (n := 100) (by decide)

theorem settles_numeral (t component : Text) :
    Settles (IsNumber component) (fun x => Numeral.float? component = some x ∧ IsFinite x)
      (componentNumber? t component) := by
  unfold componentNumber?
  split
  · rename_i hnone
    refine .error ?_ nofun
    rintro ⟨x, _, hx, _⟩
    rw [hnone] at hx
    cases hx
  · rename_i x hsome
    split
    · rename_i hwild
      refine .error ?_ nofun
      rintro ⟨y, a, hy, ha⟩
      rw [hsome] at hy
      cases hy
      rw [ha.isNaN_eq, ha.isInf_eq] at hwild
      cases hwild
    · rename_i hfinite
      rw [Bool.or_eq_true, not_or, Bool.not_eq_true, Bool.not_eq_true] at hfinite
      rcases exists_denotes hfinite.1 hfinite.2 with ⟨a, ha⟩
      exact .ok ⟨x, a, hsome, ha⟩ ⟨hsome, a, ha⟩

theorem settles_componentNumber (t component : Text) :
    Settles (IsNumber component) IsFinite (componentNumber? t component) :=
  (settles_numeral t component).mono fun _ hx => hx.2

/-- The number of a component: the component without one percent sign at its end. -/
def quantity (component : Text) : Text :=
  Text.removeTail ['%'] component

theorem quantity_of_some {component number : Text}
    (h : Text.before? ['%'] component = some number) : quantity component = number := by
  rw [quantity, Text.removeTail, h]
  rfl

theorem quantity_of_none {component : Text} (h : Text.before? ['%'] component = none) :
    quantity component = component := by
  rw [quantity, Text.removeTail, h]
  rfl

theorem isFraction_clamp_one {x : Float} (hx : IsFinite x) : IsFraction (clamp 0 1 x) := by
  rcases hx with ⟨a, ha⟩
  exact isFraction_clamp ha denotes_one (by norm_num) le_rfl

theorem settles_alpha (t component : Text) :
    Settles (IsNumber (quantity component)) IsFraction (alpha? t component) := by
  unfold alpha?
  split
  · rename_i number hsome
    rw [quantity_of_some hsome]
    apply (settles_componentNumber t number).map
    intro x hx
    exact isFraction_clamp_one (isFinite_div hx denotes_hundred (by norm_num))
  · rename_i hnone
    rw [quantity_of_none hnone]
    exact (settles_componentNumber t component).map fun x hx => isFraction_clamp_one hx

theorem settles_optionalAlpha (t : Text) {more : List Text} (hmore : more.length ≤ 1) :
    Settles (∀ n ∈ more.map quantity, IsNumber n) (fun a => ∀ x, a = some x → IsFraction x)
      (optionalAlpha? t more) := by
  cases more with
  | nil => exact .ok nofun nofun
  | cons component rest =>
      cases rest with
      | nil =>
          have halpha : Settles (IsNumber (quantity component))
              (fun a => ∀ x, a = some x → IsFraction x) ((alpha? t component).map some) := by
            apply (settles_alpha t component).map
            intro x hx y hy
            cases hy
            exact hx
          apply halpha.of_iff
          rw [List.map_cons, List.map_nil, List.forall_mem_singleton]
      | cons _ rest =>
          simp only [List.length_cons] at hmore
          omega

theorem exists_roundHalfUp {x : Float} (hx : IsFinite x) : ∃ n, roundHalfUp? x = .ok n ∧ True := by
  rcases hx with ⟨a, ha⟩
  rcases roundHalfUp?_of_denotes ha with ⟨r, _, hr⟩
  exact ⟨_, hr, trivial⟩

/-!
## Channels

A number is moved into its range only after it was scaled, and the share of 255 is the one
result on the way that can be infinite.
-/

/-- Whether a component is a percentage of which the share of 255 is beyond all floats. -/
def IsOverflow (component : Text) : Prop :=
  ∃ number x a, Text.before? ['%'] component = some number ∧ Numeral.float? number = some x ∧
    Denotes x a ∧ limit < |a * 255|

theorem denotes_byte : Denotes (255 : Float) 255 :=
  denotes_ofNat (n := 255) (by decide)

/-- No number on the grid is exactly a 255th of the bound. -/
theorem mul_byte_ne_limit {a : ℚ} (ha : IsOnGrid a) : |a * 255| ≠ limit := by
  intro heq
  rcases ha.exists_steps with ⟨k, rfl⟩
  have hexponent : ((2045 : ℕ) : ℤ) + -1074 = 971 := rfl
  have hstep : (2 : ℚ) ^ (971 : ℤ) = 2 ^ 2045 * 2 ^ (-1074 : ℤ) := by
    rw [two_zpow_add, hexponent]
  have hpos : (0 : ℚ) < 2 ^ (-1074 : ℤ) := by positivity
  have hdouble : 2 * (|(k : ℚ)| * 255) = (2 ^ 54 - 1 : ℕ) * 2 ^ 2045 := by
    have hlimit := two_mul_limit_eq
    rw [← heq, hstep, abs_mul, abs_mul, abs_of_pos hpos] at hlimit
    apply mul_right_cancel₀ hpos.ne'
    rw [mul_assoc ((2 ^ 54 - 1 : ℕ) : ℚ), ← hlimit, abs_of_nonneg (show (0 : ℚ) ≤ 255 by norm_num)]
    ring
  have hcast : ((k.natAbs : ℕ) : ℚ) = |(k : ℚ)| := by
    rw [Nat.cast_natAbs, Int.cast_abs]
  -- counted in the smallest steps of the grid, the bound is no multiple of five
  obtain ⟨n, hn, hrest⟩ : ∃ n : ℕ, (n : ℚ) = (2 ^ 54 - 1 : ℕ) * 2 ^ 2045 ∧ n % 5 ≠ 0 := by
    refine ⟨(2 ^ 54 - 1) * 2 ^ 2045, ?_, by decide +kernel⟩
    rw [Nat.cast_mul, Nat.cast_pow, Nat.cast_ofNat]
  rw [← hcast, ← hn] at hdouble
  have hnat : 2 * (k.natAbs * 255) = n := by exact_mod_cast hdouble
  omega

theorem isFinite_share {x : Float} {a : ℚ} (hx : Denotes x a) (h : ¬ limit < |a * 255|) :
    IsFinite (x * 255 / 100) := by
  have hlimit : |a * 255| < limit := lt_of_le_of_ne (not_lt.mp h) (mul_byte_ne_limit hx.isOnGrid)
  rcases hx.mul denotes_byte hlimit with ⟨r, _, hr⟩
  exact isFinite_div ⟨r, hr⟩ denotes_hundred (by norm_num)

/-- A channel is in range however large its number is, unless the scaled number is infinite. -/
theorem settles_channel (t : Text) {component : Text} (h : ¬ IsOverflow component) :
    Settles (IsNumber (quantity component)) (fun n => 0 ≤ n ∧ n ≤ 255) (channel? t component) := by
  have hround : ∀ x, IsFinite x →
      Settles (True ∧ True) (fun n : Int => 0 ≤ n ∧ n ≤ 255)
        (computed (roundHalfUp? x) >>= fun n => .ok (clampInt 0 255 n)) := by
    intro x hx
    apply (Settles.computed (exists_roundHalfUp hx)).bind
    intro n _ _
    exact .ok trivial (clampInt_mem n)
  unfold channel?
  split
  · rename_i number hsome
    rw [quantity_of_some hsome]
    have hshare : Settles (IsNumber number) IsFinite
        ((componentNumber? t number).map fun x => x * 255 / 100) := by
      apply (settles_numeral t number).map
      rintro x ⟨hnumeral, a, ha⟩
      exact isFinite_share ha fun hlimit => h ⟨number, x, a, hsome, hnumeral, ha, hlimit⟩
    exact (hshare.bind fun x _ hx => hround x hx).of_iff (by simp)
  · rename_i hnone
    rw [quantity_of_none hnone]
    exact ((settles_componentNumber t component).bind fun x _ hx => hround x hx).of_iff (by simp)

theorem channel?_of_isOverflow (t : Text) {component : Text} (h : IsOverflow component) :
    channel? t component = .error (.arithmetic .infiniteToInteger) := by
  rcases h with ⟨number, x, a, hsome, hnumeral, ha, hlimit⟩
  have hread : componentNumber? t number = .ok x := by
    unfold componentNumber?
    rw [hnumeral]
    dsimp only
    rw [ha.isNaN_eq, ha.isInf_eq]
    rfl
  have hinfinite : IsInfinite (x * 255 / 100) := (ha.isInfinite_mul denotes_byte hlimit).div denotes_hundred
  unfold channel?
  rw [hsome]
  simp only [hread, Except.map, bind, Except.bind, roundHalfUp?_of_isInfinite hinfinite, computed]

theorem settles_ofRgb {rgb : Rgb} (h : rgb.IsInRange) (format : ColorFormat)
    (oklch : Option Oklch) :
    Settles True (fun c => c.rgb.IsModerate) (ofRgb? rgb format oklch) := by
  rcases h.isModerate.exists_hex with ⟨hex, hhex⟩
  rcases h.exists_toHsl with ⟨hsl, hhsl⟩
  unfold ofRgb?
  rw [hhex, hhsl]
  exact .ok trivial h.isModerate

/-!
## Hexadecimal texts
-/

theorem lt_of_hexValue {c : Char} {n : Nat} (h : Text.hexValue? c = some n) : n < 16 := by
  unfold Text.hexValue? at h
  simp only at h
  split at h
  · simp only [Bool.and_eq_true, decide_eq_true_eq, Option.some.injEq] at *
    omega
  · split at h
    · simp only [Bool.and_eq_true, decide_eq_true_eq, Option.some.injEq] at *
      omega
    · split at h
      · simp only [Bool.and_eq_true, decide_eq_true_eq, Option.some.injEq] at *
        omega
      · cases h

theorem isInRange_ofValues {values : List Nat} {rgb : Rgb} (hvalues : ∀ n ∈ values, n < 16)
    (h : Hex.ofValues? values = some rgb) : rgb.IsInRange := by
  have hbyte : ∀ {high low : Nat}, high < 16 → low < 16 →
      (0 : Int) ≤ (16 * high + low : Nat) ∧ ((16 * high + low : Nat) : Int) ≤ 255 := by
    omega
  unfold Hex.ofValues? at h
  split at h
  · cases h
    simp only [List.forall_mem_cons] at hvalues
    rcases hvalues with ⟨hr1, hr0, hg1, hg0, hb1, hb0, _⟩
    exact ⟨hbyte hr1 hr0, hbyte hg1 hg0, hbyte hb1 hb0, nofun⟩
  · cases h
    simp only [List.forall_mem_cons] at hvalues
    rcases hvalues with ⟨hr1, hr0, hg1, hg0, hb1, hb0, ha1, ha0, _⟩
    refine ⟨hbyte hr1 hr0, hbyte hg1 hg0, hbyte hb1 hb0, ?_⟩
    intro a ha
    cases ha
    exact isFraction_nearest (by decide) (by omega)
  · cases h

theorem exists_of_mem_mapM {α β : Type} {f : α → Option β} {as : List α} {bs : List β}
    (h : as.mapM f = some bs) : ∀ b ∈ bs, ∃ a, f a = some b := by
  induction as generalizing bs with
  | nil =>
      cases h
      exact nofun
  | cons a as ih =>
      rw [List.mapM_cons, Option.bind_eq_bind, Option.bind_eq_some_iff] at h
      rcases h with ⟨b, hb, h⟩
      rcases Option.bind_eq_some_iff.mp h with ⟨rest, hrest, h⟩
      cases h
      intro x hx
      rcases List.mem_cons.mp hx with rfl | hx
      · exact ⟨a, hb⟩
      · exact ih hrest x hx

theorem isInRange_ofDigits? {ds : Text} {rgb : Rgb} (h : Hex.ofDigits? ds = some rgb) :
    rgb.IsInRange := by
  rcases Option.bind_eq_some_iff.mp h with ⟨values, hvalues, hrgb⟩
  refine isInRange_ofValues ?_ hrgb
  intro n hn
  rcases exists_of_mem_mapM hvalues n hn with ⟨c, hc⟩
  exact lt_of_hexValue hc

theorem settles_parseHex (t : Text) :
    Settles (Hex.ofDigits? (Hex.digits t)).isSome (fun c => c.rgb.IsModerate) (parseHex t) := by
  unfold parseHex Rgb.ofHex?
  cases hdigits : Hex.ofDigits? (Hex.digits t) with
  | none => exact .error nofun nofun
  | some rgb =>
      have hrun := settles_ofRgb (isInRange_ofDigits? hdigits) .hex none
      simp only [bind, Except.bind]
      exact hrun.of_iff (by simp)

/-!
## Functions
-/

/--
Whether one of several components overflows as a channel, and those before it are
channels.
-/
inductive OverflowsIn (t : Text) : List Text → Prop where
  | here {component : Text} {rest : List Text} (h : IsOverflow component) :
      OverflowsIn t (component :: rest)
  | later {component : Text} {rest : List Text} {n : Int} (hn : channel? t component = .ok n)
      (h : OverflowsIn t rest) : OverflowsIn t (component :: rest)

section Functions

variable {t first second third : Text} {more : List Text}

theorem settles_parseRgb
    (hcomponents : components? ["rgb".toList, "rgba".toList] t =
      .ok (first :: second :: third :: more))
    (hmore : more.length ≤ 1) (hflow : ¬ OverflowsIn t [first, second, third]) :
    Settles
      (∀ n ∈ [quantity first, quantity second, quantity third] ++ more.map quantity, IsNumber n)
      (fun c => c.rgb.IsModerate) (parseRgb t) := by
  unfold parseRgb
  rw [hcomponents, Except.ok_bind]
  dsimp only
  rw [if_pos hmore]
  apply Settles.of_iff
  · apply (settles_channel t fun h => hflow (.here h)).bind
    intro r hr hr'
    apply (settles_channel t fun h => hflow (.later hr (.here h))).bind
    intro g hg hg'
    apply (settles_channel t fun h => hflow (.later hr (.later hg (.here h)))).bind
    intro b _ hb'
    apply (settles_optionalAlpha t hmore).bind
    intro a _ ha'
    exact settles_ofRgb ⟨hr', hg', hb', ha'⟩ .rgb none
  · simp only [List.cons_append, List.nil_append, List.forall_mem_cons, and_true]

theorem parseRgb_of_overflowsIn
    (hcomponents : components? ["rgb".toList, "rgba".toList] t =
      .ok (first :: second :: third :: more))
    (hmore : more.length ≤ 1) (hflow : OverflowsIn t [first, second, third]) :
    parseRgb t = .error (.arithmetic .infiniteToInteger) := by
  unfold parseRgb
  rw [hcomponents, Except.ok_bind]
  dsimp only
  rw [if_pos hmore]
  cases hflow with
  | here h =>
      rw [channel?_of_isOverflow t h]
      rfl
  | later hr hflow =>
      rw [hr, Except.ok_bind]
      cases hflow with
      | here h =>
          rw [channel?_of_isOverflow t h]
          rfl
      | later hg hflow =>
          rw [hg, Except.ok_bind]
          cases hflow with
          | here h =>
              rw [channel?_of_isOverflow t h]
              rfl
          | later _ hflow => cases hflow

theorem within_percent {x : Float} (hx : IsFinite x) : Within 7 (clamp 0 100 x) := by
  rcases hx with ⟨a, ha⟩
  rcases denotes_clamp ha denotes_zero denotes_hundred (by norm_num) with ⟨b, hb, hnonneg, hle⟩
  apply hb.within
  rw [abs_of_nonneg hnonneg]
  exact hle.trans (show (100 : ℚ) ≤ 2 ^ 7 by norm_num)

theorem exists_wrap {x : Float} (hx : IsFinite x) :
    ∃ hue, wrap? x 360 = .ok hue ∧ Within 10 hue := by
  rcases hx with ⟨a, ha⟩
  obtain ⟨r, hr, hr'⟩ :=
    remainder?_of_denotes (n := 9) ha (show 0 < 360 by decide) (by decide) (by decide)
  have hturn : Within 9 (Float.ofNat 360) := within_ofNat (by decide) (by decide)
  unfold wrap?
  rw [hr]
  simp only [bind, Except.bind]
  split
  · exact ⟨_, rfl, within_ofNat (n := 0) (by decide) (by decide)⟩
  · split
    · exact ⟨_, rfl, hr'.add hturn (by decide)⟩
    · exact ⟨_, rfl, hr'.mono (by decide)⟩

theorem settles_percent (t component : Text) :
    Settles (IsNumber component) (Within 7) ((componentNumber? t component).map (clamp 0 100)) :=
  (settles_componentNumber t component).map fun _ hx => within_percent hx

theorem settles_parseHsl
    (hcomponents : components? ["hsl".toList, "hsla".toList] t =
      .ok (first :: second :: third :: more))
    (hmore : more.length ≤ 1) :
    Settles
      (∀ n ∈ [Text.removeTail "deg".toList first, withoutPercent second, withoutPercent third] ++
        more.map quantity, IsNumber n)
      (fun c => c.rgb.IsModerate) (parseHsl t) := by
  have hturn : Denotes (360 : Float) 360 := denotes_ofNat (n := 360) (by decide)
  have hlevel : ∀ {x : Float}, Within 7 x → Within 10 (x / 100) := by
    intro x hx
    exact (hx.div denotes_hundred (by norm_num) (by decide)).mono (by decide)
  unfold parseHsl
  rw [hcomponents, Except.ok_bind]
  dsimp only
  rw [if_pos hmore]
  apply Settles.of_iff
  · apply (settles_componentNumber t _).bind
    intro h _ hh
    apply (settles_percent t _).bind
    intro s _ hs
    apply (settles_percent t _).bind
    intro l _ hl
    apply (settles_optionalAlpha t hmore).bind
    intro a _ ha
    apply (Settles.computed (exists_wrap hh)).bind
    intro hue _ hhue
    obtain ⟨rgb, hrgb, hmoderate, _⟩ := exists_ofFractions
      (channelsWithin_hslChannels (hhue.div hturn (by norm_num) (by decide)) (hlevel hs)
        (hlevel hl)) ha
    apply (Settles.computed (P := fun c => c.IsModerate) ⟨rgb, hrgb, hmoderate⟩).bind
    intro c _ hc
    apply (Settles.computed (exists_roundHalfUp hh)).bind
    intro degrees _ _
    apply (Settles.computed (exists_roundHalfUp (isFinite_of_within hs))).bind
    intro saturation _ _
    apply (Settles.computed (exists_roundHalfUp (isFinite_of_within hl))).bind
    intro lightness _ _
    rcases hc.exists_hex with ⟨hex, hhex⟩
    apply (Settles.computed (P := fun _ => True) ⟨hex, hhex, trivial⟩).bind
    intro _ _ _
    exact .ok trivial hc
  · simp only [List.cons_append, List.nil_append, List.forall_mem_cons, and_true]

theorem settles_toRgb {l c h : Float} {a : Option Float} (hl : IsFinite l) (hc : IsFinite c)
    (hh : IsFinite h) (ha : ∀ x, a = some x → IsFraction x) :
    Settles True Rgb.IsInRange (computed (Oklch.toRgb? ⟨l, c, h, a⟩)) := by
  rcases hl with ⟨lightness, hl⟩
  rcases hc with ⟨chroma, hc⟩
  rcases hh with ⟨hue, hh⟩
  exact .computed (Oklch.exists_toRgb (c := ⟨l, c, h, a⟩) hl hc hh ha)

theorem settles_parseOklch
    (hcomponents : components? ["oklch".toList] t = .ok (first :: second :: third :: more))
    (hmore : more.length ≤ 1) :
    Settles
      (∀ n ∈ [quantity first, second, Text.removeTail "deg".toList third] ++ more.map quantity,
        IsNumber n)
      (fun c => c.rgb.IsModerate) (parseOklch t) := by
  have hrest : ∀ l, IsFinite l →
      Settles
        (IsNumber second ∧ IsNumber (Text.removeTail "deg".toList third) ∧
          (∀ n ∈ more.map quantity, IsNumber n) ∧ True ∧ True)
        (fun c => c.rgb.IsModerate) (do
          let c ← componentNumber? t second
          let h ← componentNumber? t (Text.removeTail "deg".toList third)
          let a ← optionalAlpha? t more
          let rgb ← computed (Oklch.toRgb? ⟨l, c, h, a⟩)
          ofRgb? rgb .oklch (some ⟨l, c, h, a⟩)) := by
    intro l hl
    apply (settles_componentNumber t _).bind
    intro c _ hc
    apply (settles_componentNumber t _).bind
    intro h _ hh
    apply (settles_optionalAlpha t hmore).bind
    intro a _ ha
    apply (settles_toRgb hl hc hh ha).bind
    intro rgb _ hrgb
    exact settles_ofRgb hrgb .oklch _
  unfold parseOklch
  rw [hcomponents, Except.ok_bind]
  dsimp only
  rw [if_pos hmore]
  split
  · rename_i number hsome
    have hlightness : Settles (IsNumber number) IsFinite
        ((componentNumber? t number).map fun x => x / 100) := by
      apply (settles_componentNumber t number).map
      intro x hx
      exact isFinite_div hx denotes_hundred (by norm_num)
    rw [quantity_of_some hsome]
    apply (hlightness.bind fun l _ hl => hrest l hl).of_iff
    simp only [List.cons_append, List.nil_append, List.forall_mem_cons, and_true]
  · rename_i hnone
    rw [quantity_of_none hnone]
    apply ((settles_componentNumber t first).bind fun l _ hl => hrest l hl).of_iff
    simp only [List.cons_append, List.nil_append, List.forall_mem_cons, and_true]

end Functions

/-!
## All texts
-/

def HasComponents (names : List Text) (t : Text) : Prop :=
  ∃ first second third more,
    components? names t = .ok (first :: second :: third :: more) ∧ more.length ≤ 1

theorem settles_of_not_hasComponents {names : List Text} {t : Text} {P : Color → Prop}
    {body : Text → Text → Text → List Text → Except ColorFault Color} {fault : ColorFault}
    (h : ¬ HasComponents names t) (hfault : ∀ f, fault ≠ .arithmetic f) :
    Settles False P (do
      match ← components? names t with
      | first :: second :: third :: more =>
          if more.length ≤ 1 then body first second third more else throw fault
      | _ => throw fault) := by
  have hread : ∀ e, components? names t = .error e → ∀ f, e ≠ .arithmetic f := by
    intro e he
    unfold components? at he
    simp only at he
    split at he
    · cases he
      exact nofun
    · split at he
      · cases he
      · cases he
        exact nofun
  cases hcomponents : components? names t with
  | error e => exact .error not_false (hread e hcomponents)
  | ok components =>
      rw [Except.ok_bind]
      split
      · rename_i first second third more
        rw [if_neg fun hmore => h ⟨first, second, third, more, hcomponents, hmore⟩]
        exact .error not_false hfault
      · exact .error not_false hfault

/-- Whether a text is a color of red, green and blue of which a channel overflows. -/
def Overflows (t : Text) : Prop :=
  ColorFormat.ofText? t = some .rgb ∧
    ∃ first second third more,
      components? ["rgb".toList, "rgba".toList] (Text.strip t) =
          .ok (first :: second :: third :: more) ∧
        more.length ≤ 1 ∧ OverflowsIn (Text.strip t) [first, second, third]

theorem parse_of_overflows {t : Text} (h : Overflows t) :
    parse t = .error (.arithmetic .infiniteToInteger) := by
  rcases h with ⟨hfamily, first, second, third, more, hcomponents, hmore, hflow⟩
  unfold parse
  rw [hfamily]
  exact parseRgb_of_overflowsIn hcomponents hmore hflow

theorem isModerate_placeholder : placeholder.rgb.IsModerate :=
  ⟨by decide, by decide, by decide, nofun⟩

/-- Every other text is a color of moderate size, or is refused for what it says. -/
theorem exists_settles_parse {t : Text} (h : ¬ Overflows t) :
    ∃ C, Settles C (fun c => c.rgb.IsModerate) (parse t) := by
  unfold parse
  cases hfamily : ColorFormat.ofText? t with
  | none => exact ⟨True, .ok trivial isModerate_placeholder⟩
  | some family =>
      cases family with
      | hex => exact ⟨_, settles_parseHex _⟩
      | rgb =>
          by_cases hread : HasComponents ["rgb".toList, "rgba".toList] (Text.strip t)
          · rcases hread with ⟨first, second, third, more, hcomponents, hmore⟩
            refine ⟨_, settles_parseRgb hcomponents hmore ?_⟩
            intro hflow
            exact h ⟨hfamily, first, second, third, more, hcomponents, hmore, hflow⟩
          · refine ⟨False, ?_⟩
            unfold parseRgb
            exact settles_of_not_hasComponents hread nofun
      | hsl =>
          by_cases hread : HasComponents ["hsl".toList, "hsla".toList] (Text.strip t)
          · rcases hread with ⟨first, second, third, more, hcomponents, hmore⟩
            exact ⟨_, settles_parseHsl hcomponents hmore⟩
          · refine ⟨False, ?_⟩
            unfold parseHsl
            exact settles_of_not_hasComponents hread nofun
      | oklch =>
          by_cases hread : HasComponents ["oklch".toList] (Text.strip t)
          · rcases hread with ⟨first, second, third, more, hcomponents, hmore⟩
            exact ⟨_, settles_parseOklch hcomponents hmore⟩
          · refine ⟨False, ?_⟩
            unfold parseOklch
            exact settles_of_not_hasComponents hread nofun

theorem isModerate_of_parse {t : Text} {c : Color} (h : parse t = .ok c) : c.rgb.IsModerate := by
  by_cases hflow : Overflows t
  · rw [parse_of_overflows hflow] at h
    cases h
  · rcases exists_settles_parse hflow with ⟨_, hparse⟩
    rw [h] at hparse
    cases hparse with
    | ok _ hmoderate => exact hmoderate

end Color
end DesignTokens
