import DesignTokens.Proofs.Source.Nesting
import Mathlib.Data.Nat.Find

/-!
# The extent of a literal

A literal goes from its first quote to the next one of the same kind that is not escaped.
In single quotes no newline may stand before that. Between backticks the expressions are
left out: each of them goes from an opening brace behind a dollar sign to the brace that
closes it, and there are no others.
-/

namespace DesignTokens

namespace Scan

def expressionStop (missing offset : Nat) (close : Scan Nat) (t : Text) :
    Scan (Nat × List (Nat × Nat)) :=
  match close with
  | .error fault => .error fault
  | .ok none => .ok none
  | .ok (some close) =>
      (templateStop missing (close + 1) (t.drop (close - offset))).map fun stop =>
        stop.map fun r => (r.1, (offset + 2, close) :: r.2)

theorem templateStop_expression (missing offset : Nat) (t : Text) :
    templateStop missing offset ('$' :: '{' :: t) =
      expressionStop missing offset (closing missing '}' [] (offset + 2) t) ('{' :: t) := by
  rw [templateStop.eq_def]
  rfl

end Scan

namespace Source

/-!
## Escaped characters
-/

def isEscaped (source : Text) : Nat → Bool
  | 0 => false
  | n + 1 => source[n]? = some '\\' && !isEscaped source n

/-- A character at an offset that no backslash takes with it. -/
structure IsBare (source : Text) (c : Char) (n : Nat) : Prop where
  char : source[n]? = some c
  unescaped : isEscaped source n = false

section Escaped

variable {source : Text} {a : Nat} {c d : Char}

theorem isEscaped_succ (hc : source[a]? = some c) (hne : c ≠ '\\') :
    isEscaped source (a + 1) = false := by
  simp only [isEscaped, hc, Option.some.injEq, decide_eq_false hne, Bool.false_and]

theorem IsBare.isEscaped_succ (h : IsBare source '\\' a) : isEscaped source (a + 1) = true := by
  rw [isEscaped, h.char, h.unescaped]
  rfl

theorem IsBare.isEscaped_add_two (h : IsBare source '\\' a) :
    isEscaped source (a + 2) = false := by
  rw [isEscaped, h.isEscaped_succ, Bool.not_true, Bool.and_false]

theorem IsBare.eq (h : IsBare source c a) (hd : source[a]? = some d) : c = d :=
  Option.some.inj (h.char.symm.trans hd)

theorem IsBare.eq_backslash (h : IsBare source '\\' a) {k : Nat} (hle : a ≤ k) (hlt : k < a + 2)
    (hc : IsBare source c k) : c = '\\' := by
  rcases Nat.eq_or_lt_of_le hle with rfl | hbehind
  · exact hc.eq h.char
  · have hk : k = a + 1 := by omega
    have hfalse := hc.unescaped
    rw [hk, h.isEscaped_succ] at hfalse
    cases hfalse

end Escaped

/-!
## Literals between equal quotes
-/

def quotedFrom (source : Text) (limit : Nat) (quote : Char) (a : Nat) : Scan Nat :=
  Scan.quotedStop 0 quote a (Text.slice source a limit)

/-- A quote at `last` that ends what begins at `a`, with no newline before it in single quotes. -/
structure Ends (source : Text) (quote : Char) (a last : Nat) : Prop where
  le : a ≤ last
  bare : IsBare source quote last
  line : quote = '\'' → ∀ k, a ≤ k → k < last → ¬ IsBare source '\n' k

structure FirstEnd (source : Text) (quote : Char) (a last : Nat) : Prop where
  ends : Ends source quote a last
  first : ∀ k, Ends source quote a k → last ≤ k

section Quoted

variable {source : Text} {limit a b last stop : Nat} {quote c : Char}

theorem ends_skip (hab : a ≤ b)
    (hskip : ∀ k c, a ≤ k → k < b → IsBare source c k → c ≠ quote ∧ (quote = '\'' → c ≠ '\n')) :
    Ends source quote a last ↔ Ends source quote b last := by
  constructor
  · intro h
    refine ⟨?_, h.bare, fun hquote k hle => h.line hquote k (hab.trans hle)⟩
    by_contra hlt
    exact (hskip last quote h.le (Nat.lt_of_not_le hlt) h.bare).1 rfl
  · intro h
    refine ⟨hab.trans h.le, h.bare, fun hquote k hle hlt hbare => ?_⟩
    rcases Nat.lt_or_ge k b with hkb | hbk
    · exact (hskip k '\n' hle hkb hbare).2 hquote rfl
    · exact h.line hquote k hbk hlt hbare

theorem firstEnd_skip (hab : a ≤ b)
    (hskip : ∀ k c, a ≤ k → k < b → IsBare source c k → c ≠ quote ∧ (quote = '\'' → c ≠ '\n')) :
    FirstEnd source quote a last ↔ FirstEnd source quote b last := by
  have hends : ∀ k, Ends source quote a k ↔ Ends source quote b k := fun _ => ends_skip hab hskip
  exact ⟨fun h => ⟨(hends _).mp h.ends, fun k hk => h.first k ((hends k).mpr hk)⟩,
    fun h => ⟨(hends _).mpr h.ends, fun k hk => h.first k ((hends k).mp hk)⟩⟩

theorem quotedFrom_limit (h : limit ≤ a) : quotedFrom source limit quote a = .ok none := by
  rw [quotedFrom, Text.slice_of_le h]
  rfl

theorem quotedFrom_escaped (hlimit : limit ≤ source.length) (hlt : a < limit)
    (hc : source[a]? = some '\\') :
    quotedFrom source limit quote a = quotedFrom source limit quote (a + 2) := by
  rw [quotedFrom, slice_at hlimit hlt hc]
  rcases Nat.lt_or_ge (a + 1) limit with hbehind | hend
  · rcases Text.exists_slice_eq_cons hbehind hlimit with ⟨d, -, htext⟩
    rw [htext, Scan.quotedStop_escaped, quotedFrom]
  · rw [Text.slice_of_le hend, quotedFrom_limit (Nat.le_succ_of_le hend)]
    rfl

theorem quotedFrom_quote (hlimit : limit ≤ source.length) (hlt : a < limit)
    (hc : source[a]? = some quote) (hquote : quote ≠ '\\') :
    quotedFrom source limit quote a = .ok (some (a + 1)) := by
  rw [quotedFrom, slice_at hlimit hlt hc, Scan.quotedStop.eq_def]
  simp only [if_neg hquote, if_true]

theorem quotedFrom_line (hlimit : limit ≤ source.length) (hlt : a < limit)
    (hc : source[a]? = some '\n') : quotedFrom source limit '\'' a = .ok none := by
  have hne : ¬ '\n' = '\\' ∧ ¬ '\n' = '\'' := by decide
  rw [quotedFrom, slice_at hlimit hlt hc, Scan.quotedStop.eq_def]
  simp only [if_neg hne.1, if_neg hne.2, and_self, if_true]

theorem quotedFrom_plain (hlimit : limit ≤ source.length) (hlt : a < limit)
    (hc : source[a]? = some c) (hescape : c ≠ '\\') (hend : c ≠ quote)
    (hline : ¬ (c = '\n' ∧ quote = '\'')) :
    quotedFrom source limit quote a = quotedFrom source limit quote (a + 1) := by
  rw [quotedFrom, slice_at hlimit hlt hc, Scan.quotedStop.eq_def]
  simp only [if_neg hescape, if_neg hend, if_neg hline]
  rfl

theorem firstEnd_quote (h : IsBare source quote a) : FirstEnd source quote a last ↔ last = a := by
  have hends : Ends source quote a a :=
    ⟨Nat.le_refl a, h, fun _ k hle hlt => absurd hlt (Nat.not_lt.mpr hle)⟩
  constructor
  · exact fun hfirst => Nat.le_antisymm (hfirst.first a hends) hfirst.ends.le
  · rintro rfl
    exact ⟨hends, fun k hk => hk.le⟩

theorem not_firstEnd_line (h : IsBare source '\n' a) : ¬ FirstEnd source '\'' a last := by
  intro hfirst
  have hne : a ≠ last := by
    rintro rfl
    exact absurd (h.eq hfirst.ends.bare.char) (by decide)
  exact hfirst.ends.line rfl a (Nat.le_refl a) (Nat.lt_of_le_of_ne hfirst.ends.le hne) h

/-- What the scan finds is one past the first quote that ends the literal, if there is one. -/
theorem quotedFrom_eq_some_iff (hlimit : limit ≤ source.length) (hquote : quote ≠ '\\')
    (hbare : isEscaped source a = false) :
    quotedFrom source limit quote a = .ok (some stop) ↔
      ∃ last, stop = last + 1 ∧ last < limit ∧ FirstEnd source quote a last := by
  induction hk : limit - a using Nat.strong_induction_on generalizing a with
  | _ k ih =>
      subst hk
      rcases Nat.lt_or_ge a limit with hlt | hle
      · rcases Text.exists_slice_eq_cons hlt hlimit with ⟨c, hc, -⟩
        have hhere : IsBare source c a := ⟨hc, hbare⟩
        by_cases hescape : c = '\\'
        · subst hescape
          rw [quotedFrom_escaped hlimit hlt hc,
            ih (limit - (a + 2)) (by omega) hhere.isEscaped_add_two rfl]
          refine exists_congr fun last => and_congr_right fun _ => and_congr_right fun _ =>
            (firstEnd_skip (Nat.le_add_right a 2) fun k c hle hlt hbare => ?_).symm
          rw [hhere.eq_backslash hle hlt hbare]
          exact ⟨hquote.symm, fun _ => by decide⟩
        · by_cases hend : c = quote
          · subst hend
            rw [quotedFrom_quote hlimit hlt hc hquote, Except.ok.injEq, Option.some.injEq]
            simp only [firstEnd_quote hhere]
            refine ⟨fun h => ⟨a, h.symm, hlt, rfl⟩, ?_⟩
            rintro ⟨_, rfl, -, rfl⟩
            rfl
          · by_cases hline : c = '\n' ∧ quote = '\''
            · rcases hline with ⟨rfl, rfl⟩
              rw [quotedFrom_line hlimit hlt hc]
              refine ⟨nofun, ?_⟩
              rintro ⟨last, -, -, h⟩
              exact absurd h (not_firstEnd_line hhere)
            · rw [quotedFrom_plain hlimit hlt hc hescape hend hline,
                ih (limit - (a + 1)) (by omega) (isEscaped_succ hc hescape) rfl]
              refine exists_congr fun last => and_congr_right fun _ => and_congr_right fun _ =>
                (firstEnd_skip (Nat.le_succ a) fun k d hle hlt hbare => ?_).symm
              obtain rfl := Nat.le_antisymm hle (Nat.le_of_lt_succ hlt)
              rw [hbare.eq hc]
              exact ⟨hend, fun hquote h => hline ⟨h, hquote⟩⟩
      · rw [quotedFrom_limit hle]
        refine ⟨nofun, ?_⟩
        rintro ⟨last, -, hlast, hfirst⟩
        have := hfirst.ends.le
        omega

end Quoted

/-!
## Literals between backticks

The scan goes on behind an escaped character, behind an expression, or behind a character
that ends nothing. In each of these cases the literal from there on ends at the same backtick.
-/

def templateFrom (source : Text) (limit a : Nat) : Scan (Nat × List (Nat × Nat)) :=
  Scan.templateStop 0 a (Text.slice source a limit)

/--
What stands from `a` to a backtick at `last`. Outside of the expressions there are no bare
backticks, and a bare dollar sign before a brace begins one of the expressions.
-/
structure IsTemplate (source : Text) (limit : Int) (a last : Nat) (spans : List (Nat × Nat)) :
    Prop where
  le : a ≤ last
  bare : IsBare source '`' last
  separated : spans.Pairwise fun s t => s.2 < t.1
  inside : ∀ s ∈ spans, a + 2 ≤ s.1 ∧ s.1 ≤ s.2 ∧ s.2 < last
  head : ∀ s ∈ spans, IsBare source '$' (s.1 - 2) ∧ source[s.1 - 1]? = some '{'
  closes : ∀ s ∈ spans, closingAt source (s.1 - 1 : Nat) limit = .ok (some (s.2 : Int))
  tick : ∀ k, a ≤ k → k < last → IsBare source '`' k → ∃ s ∈ spans, s.1 ≤ k ∧ k < s.2
  dollar : ∀ k, a ≤ k → k < last → IsBare source '$' k → source[k + 1]? = some '{' →
    ∃ s ∈ spans, s.1 ≤ k + 2 ∧ k < s.2

section Template

variable {source : Text} {limit a b last stop : Nat} {spans : List (Nat × Nat)} {c : Char}

theorem isTemplate_skip (hab : a ≤ b)
    (hskip : ∀ k c, a ≤ k → k < b → IsBare source c k →
      c ≠ '`' ∧ ¬ (c = '$' ∧ source[k + 1]? = some '{')) :
    IsTemplate source limit a last spans ↔ IsTemplate source limit b last spans := by
  constructor
  · intro h
    refine ⟨?_, h.bare, h.separated, fun s hs => ?_, h.head, h.closes,
      fun k hle => h.tick k (hab.trans hle), fun k hle => h.dollar k (hab.trans hle)⟩
    · by_contra hlt
      exact (hskip last _ h.le (Nat.lt_of_not_le hlt) h.bare).1 rfl
    · rcases h.inside s hs with ⟨hle, hrest⟩
      rcases h.head s hs with ⟨hdollar, hbrace⟩
      refine ⟨?_, hrest⟩
      by_contra hlt
      have hoffset : s.1 - 2 + 1 = s.1 - 1 := by omega
      exact (hskip (s.1 - 2) _ (by omega) (by omega) hdollar).2 ⟨rfl, hoffset ▸ hbrace⟩
  · intro h
    refine ⟨hab.trans h.le, h.bare, h.separated, fun s hs => ?_, h.head, h.closes,
      fun k hle hlt hc => ?_, fun k hle hlt hc hbrace => ?_⟩
    · rcases h.inside s hs with ⟨hle, hrest⟩
      exact ⟨by omega, hrest⟩
    · rcases Nat.lt_or_ge k b with hkb | hbk
      · exact absurd rfl (hskip k _ hle hkb hc).1
      · exact h.tick k hbk hlt hc
    · rcases Nat.lt_or_ge k b with hkb | hbk
      · exact absurd ⟨rfl, hbrace⟩ (hskip k _ hle hkb hc).2
      · exact h.dollar k hbk hlt hc hbrace

theorem isTemplate_tick (h : IsBare source '`' a) :
    IsTemplate source limit a last spans ↔ last = a ∧ spans = [] := by
  constructor
  · intro htemplate
    have hlast : last = a := by
      by_contra hne
      have hlt : a < last := Nat.lt_of_le_of_ne htemplate.le (Ne.symm hne)
      rcases htemplate.tick a (Nat.le_refl a) hlt h with ⟨s, hs, hle, -⟩
      have := htemplate.inside s hs
      omega
    refine ⟨hlast, List.eq_nil_iff_forall_not_mem.mpr fun s hs => ?_⟩
    have := htemplate.inside s hs
    omega
  · rintro ⟨rfl, rfl⟩
    exact ⟨Nat.le_refl last, h, .nil, nofun, nofun, nofun, fun k hle hlt => by omega,
      fun k hle hlt => by omega⟩

theorem closingAt_brace {i n : Nat} (hlimit : limit ≤ source.length) (hi : source[i]? = some '{')
    (h : closingAt source i limit = .ok (some (n : Int))) :
    i < n ∧ n < limit ∧ source[n]? = some '}' := by
  rcases nests_of_closingAt hlimit h with ⟨hlt, hn, ⟨opener, closer, hopener, hcloser, hchar⟩, -, -⟩
  rw [hi, Option.some.injEq] at hopener
  subst hopener
  cases hcloser
  exact ⟨hlt, Int.ofNat_lt.mp hn, hchar⟩

theorem add_three_le {start close : Nat} (hlt : close < start) (hstart : 2 ≤ start)
    (hdollar : IsBare source '$' (start - 2)) (hbrace : source[start - 1]? = some '{')
    (hclose : source[close]? = some '}') : close + 3 ≤ start := by
  have hne : start - 1 ≠ close := by
    rintro rfl
    rw [hclose] at hbrace
    cases hbrace
  have hne' : start - 2 ≠ close := by
    rintro rfl
    exact absurd (hdollar.eq hclose) (by decide)
  omega

theorem IsTemplate.exists_first (htemplate : IsTemplate source limit a last spans)
    (h : IsBare source '$' a) (hbrace : source[a + 1]? = some '{') :
    ∃ close rest, spans = (a + 2, close) :: rest := by
  have hne : a ≠ last := by
    rintro rfl
    exact absurd (h.eq htemplate.bare.char) (by decide)
  have hlt : a < last := Nat.lt_of_le_of_ne htemplate.le hne
  rcases htemplate.dollar a (Nat.le_refl a) hlt h hbrace with ⟨s, hs, hle, -⟩
  cases spans with
  | nil => cases hs
  | cons first rest =>
      have hinside := htemplate.inside first List.mem_cons_self
      have hfirst : first.1 = a + 2 := by
        rcases List.mem_cons.mp hs with rfl | hs
        · omega
        · have := (List.pairwise_cons.mp htemplate.separated).1 s hs
          omega
      exact ⟨first.2, rest, by rw [← hfirst]⟩

theorem IsTemplate.tail {close : Nat} {rest : List (Nat × Nat)}
    (htemplate : IsTemplate source limit a last ((a + 2, close) :: rest))
    (hclose : source[close]? = some '}') : IsTemplate source limit (close + 1) last rest := by
  rcases List.pairwise_cons.mp htemplate.separated with ⟨hbehind, hseparated⟩
  have hfirst := htemplate.inside _ List.mem_cons_self
  have hinside : ∀ s ∈ rest, _ := fun s hs => htemplate.inside s (List.mem_cons_of_mem _ hs)
  have hhead : ∀ s ∈ rest, _ := fun s hs => htemplate.head s (List.mem_cons_of_mem _ hs)
  refine ⟨hfirst.2.2, htemplate.bare, hseparated, fun s hs => ?_, hhead,
    fun s hs => htemplate.closes s (List.mem_cons_of_mem _ hs), fun k hle hk hc => ?_,
    fun k hle hk hc hopen => ?_⟩
  · have hstart := (hinside s hs).1
    have hfar := add_three_le (hbehind s hs) (by omega) (hhead s hs).1 (hhead s hs).2 hclose
    exact ⟨hfar, (hinside s hs).2⟩
  · rcases htemplate.tick k (by omega) hk hc with ⟨s, hs, hspan⟩
    rcases List.mem_cons.mp hs with rfl | hs
    · omega
    · exact ⟨s, hs, hspan⟩
  · rcases htemplate.dollar k (by omega) hk hc hopen with ⟨s, hs, hspan⟩
    rcases List.mem_cons.mp hs with rfl | hs
    · omega
    · exact ⟨s, hs, hspan⟩

theorem IsTemplate.cons (hlimit : limit ≤ source.length) (h : IsBare source '$' a)
    (hbrace : source[a + 1]? = some '{') {close : Nat} {rest : List (Nat × Nat)}
    (hend : closingAt source (a + 1 : Nat) limit = .ok (some (close : Int)))
    (htemplate : IsTemplate source limit (close + 1) last rest) :
    IsTemplate source limit a last ((a + 2, close) :: rest) := by
  rcases closingAt_brace hlimit hbrace hend with ⟨hlt, -, hclose⟩
  have hle := htemplate.le
  -- of the characters up to the closing brace, only those of the expression can be others
  have hinside : ∀ k c, a < k → k ≤ close → source[k]? = some c → c ≠ '{' → c ≠ '}' →
      a + 2 ≤ k ∧ k < close := by
    intro k c hka hkc hk hopen hstop
    have hfirst : k ≠ a + 1 := fun heq => hopen (Option.some.inj (hk.symm.trans (heq ▸ hbrace)))
    have hlast : k ≠ close := fun heq => hstop (Option.some.inj (hk.symm.trans (heq ▸ hclose)))
    omega
  refine ⟨by omega, htemplate.bare, ?_, ?_, ?_, ?_, fun k hka hk hc => ?_,
    fun k hka hk hc hopen => ?_⟩
  · refine List.pairwise_cons.mpr ⟨fun s hs => ?_, htemplate.separated⟩
    have := htemplate.inside s hs
    dsimp only
    omega
  · refine List.forall_mem_cons.mpr ⟨?_, fun s hs => ?_⟩
    · dsimp only
      omega
    · have := htemplate.inside s hs
      omega
  · exact List.forall_mem_cons.mpr ⟨⟨h, hbrace⟩, htemplate.head⟩
  · exact List.forall_mem_cons.mpr ⟨hend, htemplate.closes⟩
  · rcases Nat.lt_or_ge close k with hbehind | hkc
    · rcases htemplate.tick k hbehind hk hc with ⟨s, hs, hspan⟩
      exact ⟨s, List.mem_cons_of_mem _ hs, hspan⟩
    · have hne : a ≠ k := by
        rintro rfl
        exact absurd (h.eq hc.char) (by decide)
      exact ⟨_, List.mem_cons_self, hinside k _ (Nat.lt_of_le_of_ne hka hne) hkc hc.char
        (by decide) (by decide)⟩
  · rcases Nat.lt_or_ge close k with hbehind | hkc
    · rcases htemplate.dollar k hbehind hk hc hopen with ⟨s, hs, hspan⟩
      exact ⟨s, List.mem_cons_of_mem _ hs, hspan⟩
    · refine ⟨_, List.mem_cons_self, ?_⟩
      dsimp only
      rcases Nat.eq_or_lt_of_le hka with rfl | hbehind
      · omega
      · have := hinside k _ hbehind hkc hc.char (by decide) (by decide)
        omega

theorem isTemplate_expression (hlimit : limit ≤ source.length) (h : IsBare source '$' a)
    (hbrace : source[a + 1]? = some '{') :
    IsTemplate source limit a last spans ↔
      ∃ close rest, spans = (a + 2, close) :: rest ∧
        closingAt source (a + 1 : Nat) limit = .ok (some (close : Int)) ∧
          IsTemplate source limit (close + 1) last rest := by
  constructor
  · intro htemplate
    rcases htemplate.exists_first h hbrace with ⟨close, rest, rfl⟩
    have hend : closingAt source (a + 1 : Nat) limit = .ok (some (close : Int)) :=
      htemplate.closes _ List.mem_cons_self
    exact ⟨close, rest, rfl, hend, htemplate.tail (closingAt_brace hlimit hbrace hend).2.2⟩
  · rintro ⟨close, rest, rfl, hend, htemplate⟩
    exact htemplate.cons hlimit h hbrace hend

theorem templateFrom_limit (h : limit ≤ a) : templateFrom source limit a = .ok none := by
  rw [templateFrom, Text.slice_of_le h, Scan.templateStop.eq_def]
  rfl

theorem templateFrom_escaped (hlimit : limit ≤ source.length) (hlt : a < limit)
    (hc : source[a]? = some '\\') :
    templateFrom source limit a = templateFrom source limit (a + 2) := by
  rw [templateFrom, slice_at hlimit hlt hc]
  rcases Nat.lt_or_ge (a + 1) limit with hbehind | hend
  · rcases Text.exists_slice_eq_cons hbehind hlimit with ⟨d, -, htext⟩
    rw [htext, Scan.templateStop_escaped, templateFrom]
  · rw [Text.slice_of_le hend, templateFrom_limit (Nat.le_succ_of_le hend),
      Scan.templateStop.eq_def]
    rfl

theorem templateFrom_plain (hlimit : limit ≤ source.length) (hlt : a < limit)
    (hc : source[a]? = some c) (hescape : c ≠ '\\') (htick : c ≠ '`')
    (hdollar : ¬ (c = '$' ∧ a + 1 < limit ∧ source[a + 1]? = some '{')) :
    templateFrom source limit a = templateFrom source limit (a + 1) := by
  have hhead : ¬ (c = '$' ∧ (Text.slice source (a + 1) limit).head? = some '{') := by
    rintro ⟨hc, hhead⟩
    rcases List.head?_eq_some_iff.mp hhead with ⟨t, ht⟩
    rcases Text.slice_eq_cons ht with ⟨hlt, hbrace, -⟩
    exact hdollar ⟨hc, hlt, hbrace⟩
  rw [templateFrom, slice_at hlimit hlt hc, Scan.templateStop.eq_def]
  simp only [if_neg hescape, if_neg htick, if_neg hhead]
  rfl

theorem templateFrom_expression (hlimit : limit ≤ source.length) (hlt : a < limit)
    (hc : source[a]? = some '$') (hbrace : source[a + 1]? = some '{') :
    templateFrom source limit a = .ok (some (stop, spans)) ↔
      ∃ (close : Nat) (rest : List (Nat × Nat)), spans = (a + 2, close) :: rest ∧
        closingAt source (a + 1 : Nat) limit = .ok (some (close : Int)) ∧
          templateFrom source limit (close + 1) = .ok (some (stop, rest)) := by
  rcases Nat.lt_or_ge (a + 1) limit with hbehind | hend
  case inr =>
    rw [templateFrom_plain hlimit hlt hc (by decide) (by decide) fun h => by omega,
      templateFrom_limit hend]
    refine ⟨nofun, ?_⟩
    rintro ⟨close, rest, -, hclose, -⟩
    have := (closingAt_brace hlimit hbrace hclose)
    omega
  have hclosing : ∀ close : Nat, closingAt source (a + 1 : Nat) limit = .ok (some (close : Int)) ↔
      endFrom source limit '}' [] (a + 2) = .ok (some close) := by
    intro close
    rw [closingAt_eq_some_iff hlimit]
    refine ⟨?_, fun h => ⟨hbehind, '{', '}', hbrace, rfl, h⟩⟩
    rintro ⟨-, opener, closer, hopener, hcloser, h⟩
    rw [hbrace, Option.some.injEq] at hopener
    subst hopener
    cases hcloser
    exact h
  simp only [hclosing]
  rw [templateFrom, slice_at hlimit hlt hc, slice_at hlimit hbehind hbrace,
    Scan.templateStop_expression, ← slice_at hlimit hbehind hbrace]
  change Scan.expressionStop 0 a (endFrom source limit '}' [] (a + 2)) _ = _ ↔ _
  rcases Scan.answers_closing '}' [] (a + 2) (Text.slice source (a + 2) limit) with ⟨found, hend⟩
  change endFrom source limit '}' [] (a + 2) = _ at hend
  rw [hend]
  cases found with
  | none =>
      refine ⟨nofun, ?_⟩
      rintro ⟨close, rest, -, ⟨⟩, -⟩
  | some close =>
      have hle := le_of_endFrom hend
      have hoffset : a + 1 + (close - a) = close + 1 := by omega
      dsimp only [Scan.expressionStop]
      rw [Text.drop_slice, hoffset]
      change Scan.mapFound _ (templateFrom source limit (close + 1)) = _ ↔ _
      constructor
      · intro h
        rcases Scan.map_eq_found h with ⟨⟨stop', rest⟩, hrest, heq⟩
        cases heq
        exact ⟨close, rest, rfl, rfl, hrest⟩
      · rintro ⟨_, rest, rfl, ⟨⟩, hrest⟩
        rw [hrest]
        rfl

/-- What the scan finds is one past the backtick that ends the literal, and its expressions. -/
theorem templateFrom_eq_some_iff (hlimit : limit ≤ source.length)
    (hbare : isEscaped source a = false) :
    templateFrom source limit a = .ok (some (stop, spans)) ↔
      ∃ last, stop = last + 1 ∧ last < limit ∧ IsTemplate source limit a last spans := by
  induction hk : limit - a using Nat.strong_induction_on generalizing a spans with
  | _ k ih =>
      subst hk
      rcases Nat.lt_or_ge a limit with hlt | hle
      · rcases Text.exists_slice_eq_cons hlt hlimit with ⟨c, hc, htext⟩
        have hhere : IsBare source c a := ⟨hc, hbare⟩
        by_cases hescape : c = '\\'
        · subst hescape
          rw [templateFrom_escaped hlimit hlt hc,
            ih (limit - (a + 2)) (by omega) hhere.isEscaped_add_two rfl]
          refine exists_congr fun last => and_congr_right fun _ => and_congr_right fun _ =>
            (isTemplate_skip (Nat.le_add_right a 2) fun k c hle hlt hbare => ?_).symm
          rw [hhere.eq_backslash hle hlt hbare]
          exact ⟨by decide, fun h => absurd h.1 (by decide)⟩
        · by_cases htick : c = '`'
          · subst htick
            rw [templateFrom, htext, Scan.templateStop_quote, Except.ok.injEq, Option.some.injEq,
              Prod.mk.injEq]
            simp only [isTemplate_tick hhere]
            refine ⟨fun h => ⟨a, h.1.symm, hlt, rfl, h.2.symm⟩, ?_⟩
            rintro ⟨_, rfl, -, rfl, rfl⟩
            exact ⟨rfl, rfl⟩
          · by_cases hdollar : c = '$' ∧ source[a + 1]? = some '{'
            · rcases hdollar with ⟨rfl, hbrace⟩
              have hrest : ∀ (close : Nat) rest,
                  closingAt source (a + 1 : Nat) limit = .ok (some (close : Int)) →
                    (templateFrom source limit (close + 1) = .ok (some (stop, rest)) ↔
                      ∃ last, stop = last + 1 ∧ last < limit ∧
                        IsTemplate source limit (close + 1) last rest) := by
                intro close rest hclose
                rcases closingAt_brace hlimit hbrace hclose with ⟨hstart, hstop, hchar⟩
                exact ih (limit - (close + 1)) (by omega) (isEscaped_succ hchar (by decide)) rfl
              simp only [templateFrom_expression hlimit hlt hc hbrace,
                isTemplate_expression hlimit hhere hbrace]
              constructor
              · rintro ⟨close, rest, hspans, hclose, htail⟩
                rcases (hrest close rest hclose).mp htail with ⟨last, hstop, hlast, htemplate⟩
                exact ⟨last, hstop, hlast, close, rest, hspans, hclose, htemplate⟩
              · rintro ⟨last, hstop, hlast, close, rest, hspans, hclose, htemplate⟩
                exact ⟨close, rest, hspans, hclose,
                  (hrest close rest hclose).mpr ⟨last, hstop, hlast, htemplate⟩⟩
            · rw [templateFrom_plain hlimit hlt hc hescape htick fun h => hdollar ⟨h.1, h.2.2⟩,
                ih (limit - (a + 1)) (by omega) (isEscaped_succ hc hescape) rfl]
              refine exists_congr fun last => and_congr_right fun _ => and_congr_right fun _ =>
                (isTemplate_skip (Nat.le_succ a) fun k d hle hlt hbare => ?_).symm
              obtain rfl := Nat.le_antisymm hle (Nat.le_of_lt_succ hlt)
              rw [hbare.eq hc]
              exact ⟨htick, hdollar⟩
      · rw [templateFrom_limit hle]
        refine ⟨nofun, ?_⟩
        rintro ⟨last, -, hlast, htemplate⟩
        have := htemplate.le
        omega

end Template

/-!
## Literals at an offset
-/

/-- A literal with its first quote at `i` that ends up to a limit. -/
structure IsLiteralAt (source : Text) (limit : Int) (i : Nat) (l : Literal Nat) : Prop where
  start : l.start = i
  le : i + 2 ≤ l.stop
  le_limit : l.stop ≤ limit
  isQuote : Scan.isQuote l.quote = true
  first : source[i]? = some l.quote
  last : source[l.stop - 1]? = some l.quote
  text : l.text = Text.slice source (i + 1) (l.stop - 1)
  quoted : l.quote ≠ '`' →
    FirstEnd source l.quote (i + 1) (l.stop - 1) ∧ l.interpolations = []
  template : l.quote = '`' → IsTemplate source limit (i + 1) (l.stop - 1) l.interpolations

section Literals

variable {source : Text} {limit i j stop : Nat} {c quote : Char} {l : Literal Nat}

theorem IsLiteralAt.span {limit : Int} (h : IsLiteralAt source limit i l) {span : Nat × Nat}
    (hspan : span ∈ l.interpolations) :
    i + 3 ≤ span.1 ∧ span.1 ≤ span.2 ∧ span.2 + 1 < l.stop ∧ source[span.1 - 1]? = some '{' := by
  by_cases htick : l.quote = '`'
  · rcases (h.template htick).inside span hspan with ⟨hstart, hle, hstop⟩
    exact ⟨hstart, hle, by omega, ((h.template htick).head span hspan).2⟩
  · rw [(h.quoted htick).2] at hspan
    cases hspan

theorem IsLiteralAt.separated {limit : Int} (h : IsLiteralAt source limit i l) :
    l.interpolations.Pairwise fun s t => s.2 < t.1 := by
  by_cases htick : l.quote = '`'
  · exact (h.template htick).separated
  · rw [(h.quoted htick).2]
    exact .nil

theorem take_slice (hstop : stop ≤ limit) :
    (Text.slice source (i + 1) limit).take (stop - i - 2) =
      Text.slice source (i + 1) (stop - 1) := by
  have htake := Text.slice_slice source (Nat.le_refl (i + 1)) ((Nat.sub_le stop 1).trans hstop)
  have hsize : stop - 1 - (i + 1) = stop - i - 2 := by omega
  rwa [Nat.sub_self, List.drop_zero, hsize] at htake

theorem literal?_limit (h : limit ≤ i) : literal? source limit i = none := by
  have hread := literal_slice source limit i
  rw [Text.slice_of_le h] at hread
  exact (Except.ok.inj hread).symm

theorem isLiteralAt_of_literal? (hlimit : limit ≤ source.length)
    (h : literal? source limit i = some l) : IsLiteralAt source limit i l := by
  have hlt : i < limit := by
    by_contra hle
    rw [literal?_limit (Nat.le_of_not_lt hle)] at h
    cases h
  rcases Text.exists_slice_eq_cons hlt hlimit with ⟨c, hc, htext⟩
  have hread := literal_slice source limit i
  rw [h, htext, Scan.literal] at hread
  split at hread
  · rename_i htick
    subst htick
    rcases Scan.map_eq_found hread with ⟨⟨stop, spans⟩, hstop, rfl⟩
    rcases (templateFrom_eq_some_iff hlimit (isEscaped_succ hc (by decide))).mp hstop with
      ⟨last, rfl, hlast, htemplate⟩
    exact ⟨rfl, Nat.succ_le_succ htemplate.le, Int.ofNat_le.mpr hlast, rfl, hc,
      htemplate.bare.char, take_slice hlast, fun hne => absurd rfl hne, fun _ => htemplate⟩
  · rename_i htick
    split at hread
    · rename_i hquote
      have hescape := Scan.isQuote_ne_backslash hquote
      rcases Scan.map_eq_found hread with ⟨stop, hstop, rfl⟩
      rcases (quotedFrom_eq_some_iff hlimit hescape (isEscaped_succ hc hescape)).mp hstop with
        ⟨last, rfl, hlast, hfirst⟩
      exact ⟨rfl, Nat.succ_le_succ hfirst.ends.le, Int.ofNat_le.mpr hlast, hquote, hc,
        hfirst.ends.bare.char, take_slice hlast, fun _ => ⟨hfirst, rfl⟩,
        fun heq => absurd heq htick⟩
    · cases hread

theorem IsLiteralAt.literal? (hlimit : limit ≤ source.length) (h : IsLiteralAt source limit i l) :
    literal? source limit i = some l := by
  rcases l with ⟨quote, start, stop, text, spans⟩
  rcases h with ⟨hstart, hle, hstop, hquote, hc, -, htext, hquoted, htemplate⟩
  dsimp only at *
  subst hstart htext
  have hstop := Int.ofNat_le.mp hstop
  have hescape := Scan.isQuote_ne_backslash hquote
  have hlast : stop = stop - 1 + 1 := by omega
  have hread := literal_slice source limit start
  rw [slice_at hlimit (by omega) hc, Scan.literal] at hread
  by_cases htick : quote = '`'
  · have hend : Scan.templateStop 0 (start + 1) (Text.slice source (start + 1) limit) =
        .ok (some (stop, spans)) :=
      (templateFrom_eq_some_iff hlimit (isEscaped_succ hc hescape)).mpr
        ⟨stop - 1, hlast, by omega, htemplate htick⟩
    rw [if_pos htick, hend] at hread
    rw [← Except.ok.inj hread, ← take_slice hstop]
    rfl
  · rcases hquoted htick with ⟨hfirst, rfl⟩
    have hend : Scan.quotedStop 0 quote (start + 1) (Text.slice source (start + 1) limit) =
        .ok (some stop) :=
      (quotedFrom_eq_some_iff hlimit hescape (isEscaped_succ hc hescape)).mpr
        ⟨stop - 1, hlast, by omega, hfirst⟩
    rw [if_neg htick, if_pos hquote, hend] at hread
    rw [← Except.ok.inj hread, ← take_slice hstop]
    rfl

theorem literal?_eq_some_iff (hlimit : limit ≤ source.length) :
    literal? source limit i = some l ↔ IsLiteralAt source limit i l :=
  ⟨isLiteralAt_of_literal? hlimit, IsLiteralAt.literal? hlimit⟩

/-- If some quote ends the literal, then the first one does. -/
theorem Ends.exists_first {a : Nat} (h : Ends source quote a j) :
    ∃ last, last ≤ j ∧ FirstEnd source quote a last := by
  classical
  have hends : ∃ k, Ends source quote a k := ⟨j, h⟩
  exact ⟨Nat.find hends, Nat.find_min' hends h, Nat.find_spec hends, fun k => Nat.find_min' hends⟩

theorem exists_isLiteralAt_iff {limit : Int} (hquote : quote = '"' ∨ quote = '\'')
    (hi : source[i]? = some quote) :
    (∃ l, IsLiteralAt source limit i l) ↔ ∃ j : Nat, j < limit ∧ Ends source quote (i + 1) j := by
  have htick : quote ≠ '`' := by
    rintro rfl
    revert hquote
    decide
  have hisQuote : Scan.isQuote quote = true := by
    rcases hquote with rfl | rfl <;> rfl
  constructor
  · rintro ⟨l, hl⟩
    obtain rfl : quote = l.quote := Option.some.inj (hi.symm.trans hl.first)
    have hle := hl.le
    have hle_limit := hl.le_limit
    exact ⟨l.stop - 1, by omega, (hl.quoted htick).1.ends⟩
  · rintro ⟨j, hj, hends⟩
    rcases hends.exists_first with ⟨last, hlast, hfirst⟩
    refine ⟨⟨quote, i, last + 1, Text.slice source (i + 1) last, []⟩, rfl,
      Nat.succ_le_succ hfirst.ends.le, ?_, hisQuote, hi, hfirst.ends.bare.char, rfl,
      fun _ => ⟨hfirst, rfl⟩, fun heq => absurd heq htick⟩
    dsimp only
    omega

theorem exists_literalAt {limit : Int} (hlimit : limit ≤ source.length) :
    ∃ found : Option (Literal Nat), literalAt source i limit = .ok (found.map Literal.toInt) ∧
      ∀ l, found = some l ↔ IsLiteralAt source limit i l := by
  by_cases hle : limit ≤ i
  · refine ⟨none, ?_, fun l => ⟨nofun, fun h => ?_⟩⟩
    · rw [literalAt, scanAt, if_pos hle]
      rfl
    · have := h.le
      have := h.le_limit
      omega
  · lift limit to Nat using by omega
    have hlimit := Int.ofNat_le.mp hlimit
    exact ⟨_, literalAt_eq_literal? hlimit i, fun l => literal?_eq_some_iff hlimit⟩

end Literals

/--
Reading a literal at an offset comes to an answer. It is the one literal that is written
there: in equal quotes one is read where some quote ends it, and at any other character
than a quote none is read.
-/
theorem literalAt_reads {source : Text} {limit : Int} (i : Nat) (hlimit : limit ≤ source.length) :
    ∃ found : Option (Literal Nat), literalAt source i limit = .ok (found.map Literal.toInt) ∧
      (∀ l, found = some l ↔ IsLiteralAt source limit i l) ∧
      (∀ quote, quote = '"' ∨ quote = '\'' → source[i]? = some quote →
        (found.isSome = true ↔ ∃ j : Nat, j < limit ∧ Ends source quote (i + 1) j)) ∧
      ((∀ c, source[i]? = some c → Scan.isQuote c = false) → found = none) := by
  rcases exists_literalAt hlimit with ⟨found, hfound, hliteral⟩
  refine ⟨found, hfound, hliteral, fun quote hquote hi => ?_, fun hnone => ?_⟩
  · rw [Option.isSome_iff_exists, ← exists_isLiteralAt_iff hquote hi]
    exact exists_congr hliteral
  · rw [Option.eq_none_iff_forall_ne_some]
    intro l hl
    have hl := (hliteral l).mp hl
    exact absurd hl.isQuote (Bool.eq_false_iff.mp (hnone l.quote hl.first))

theorem literalAt_reads_template :
    literalAt "`a$\x7b'\x7d'\x7d\\`b`".toList (0 : Nat) 12 =
        .ok (some ⟨'`', 0, 12, "a$\x7b'\x7d'\x7d\\`b".toList, [(4, 7)]⟩) ∧
      IsLiteralAt "`a$\x7b'\x7d'\x7d\\`b`".toList 12 0
        ⟨'`', 0, 12, "a$\x7b'\x7d'\x7d\\`b".toList, [(4, 7)]⟩ := by
  have hread : literalAt "`a$\x7b'\x7d'\x7d\\`b`".toList (0 : Nat) 12 =
      .ok (some (Literal.toInt ⟨'`', 0, 12, "a$\x7b'\x7d'\x7d\\`b".toList, [(4, 7)]⟩)) := by
    decide +kernel
  rcases @literalAt_reads "`a$\x7b'\x7d'\x7d\\`b`".toList 12 0 (by decide) with
    ⟨found, hfound, hliteral, -, -⟩
  rw [hread, Except.ok.injEq] at hfound
  rcases Option.map_eq_some_iff.mp hfound.symm with ⟨l, rfl, hl⟩
  exact ⟨hread, Literal.toInt_inj hl ▸ (hliteral l).mp rfl⟩

end Source
end DesignTokens
