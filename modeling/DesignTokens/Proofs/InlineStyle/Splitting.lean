import DesignTokens.Proofs.Source.Look
import DesignTokens.Proofs.Stylesheet.Quotes
import DesignTokens.Proofs.Text.Cuts

/-!
# Literals in entries

The entries of a style object are split at commas by a scan that pairs every quote with
the next bare one of its kind. The scan for literals reads quotes in other ways: an
apostrophe has its pair on its own line, and a literal between backticks goes on behind
backticks that stand in its expressions. As long as both readings come to the same pairs,
no literal is split.
-/

namespace DesignTokens
namespace Pieces

open Stylesheet (IsQuotedText)

/-!
## Cuts behind quotes and comments
-/

section Cuts

variable {rule : Rule} {depth offset : Nat} {before : Option Char} {quote : Char} {t : Text}

theorem cuts_quoted (rest : Text) (hquote : quote ≠ '\\') (h : IsQuotedText quote t) :
    cuts rule ⟨.quoted quote, depth⟩ before offset (t ++ quote :: rest) =
      cuts rule ⟨.plain, depth⟩ (some quote) (offset + t.length + 1) rest := by
  induction h generalizing before offset with
  | nil => exact cuts_cons (by simp [step, hquote])
  | escaped c _ ih =>
      rw [List.cons_append, List.cons_append, cuts_cons (step_backslash rule depth before quote _),
        cuts_cons rfl, ih]
      congr 1
      simp only [List.length_cons]
      omega
  | cons hc hne _ ih =>
      rw [List.cons_append, cuts_cons (step_quoted rule depth before _ hc hne), ih]
      congr 1
      simp only [List.length_cons]
      omega

theorem cuts_literal (rest : Text) (hquote : isQuote quote = true) (h : IsQuotedText quote t) :
    cuts rule ⟨.plain, depth⟩ before offset (quote :: (t ++ quote :: rest)) =
      cuts rule ⟨.plain, depth⟩ (some quote) (offset + t.length + 2) rest := by
  rw [cuts_cons (step_quote rule depth before _ hquote),
    cuts_quoted rest (Scan.isQuote_ne_backslash hquote) h]
  congr 1
  omega

def IsPaired (t : Text) : Prop :=
  ∃ quote u rest, IsQuotedText quote u ∧ t = quote :: (u ++ quote :: rest)

theorem IsPaired.escaped (c : Char) (h : IsPaired (quote :: t)) :
    IsPaired (quote :: '\\' :: c :: t) := by
  rcases h with ⟨q, u, rest, hu, ht⟩
  rw [List.cons.injEq] at ht
  exact ⟨q, '\\' :: c :: u, rest, .escaped c hu, by rw [ht.1, ht.2]; rfl⟩

theorem IsPaired.cons {c : Char} (hc : c ≠ '\\') (hne : c ≠ quote) (h : IsPaired (quote :: t)) :
    IsPaired (quote :: c :: t) := by
  rcases h with ⟨q, u, rest, hu, ht⟩
  rw [List.cons.injEq] at ht
  exact ⟨q, c :: u, rest, .cons hc (ht.1 ▸ hne) hu, by rw [ht.1, ht.2]; rfl⟩

/-- Behind a quote that has no pair there are no cuts. -/
theorem cuts_unpaired (h : ¬ IsPaired (quote :: t)) :
    cuts rule ⟨.quoted quote, depth⟩ before offset t = [] := by
  induction hn : t.length using Nat.strong_induction_on generalizing before offset t with
  | _ n ih =>
      subst hn
      cases t with
      | nil => rfl
      | cons c t =>
          by_cases hc : c = '\\'
          · subst hc
            rw [cuts_cons (step_backslash rule depth before quote _)]
            cases t with
            | nil => rfl
            | cons d t =>
                rw [cuts_cons rfl]
                exact ih t.length (Scan.length_drop_lt '\\' (d :: t) 1)
                  (fun hpaired => h (hpaired.escaped d)) rfl
          · by_cases hquote : c = quote
            · subst hquote
              exact absurd ⟨c, [], t, .nil, rfl⟩ h
            · rw [cuts_cons (step_quoted rule depth before _ hc hquote)]
              exact ih t.length (Scan.length_drop_lt c t 0)
                (fun hpaired => h (hpaired.cons hc hquote)) rfl

theorem cuts_line {stop : Nat} {rest : Text} (h : Scan.afterLine? offset t = some (stop, rest)) :
    cuts rule ⟨.line, depth⟩ before offset t =
      cuts rule ⟨.plain, depth⟩ (some '\n') stop rest := by
  induction t generalizing before offset with
  | nil => cases h
  | cons c t ih =>
      rw [Scan.afterLine?] at h
      split at h
      · rename_i hc
        cases h
        subst hc
        exact cuts_cons rfl
      · rename_i hc
        have hstep : step rule ⟨.line, depth⟩ before c t.head? = (⟨.line, depth⟩, false) := by
          simp [step, hc]
        rw [cuts_cons hstep, ih h]

theorem cuts_block {stop : Nat} {rest : Text} (h : Scan.afterBlock? offset t = some (stop, rest)) :
    cuts rule ⟨.block, depth⟩ before offset t =
      cuts rule ⟨.plain, depth⟩ (some '/') stop rest := by
  induction t generalizing before offset with
  | nil => cases h
  | cons c t ih =>
      rw [Scan.afterBlock?] at h
      split at h
      · rename_i hmark
        rcases List.head?_eq_some_iff.mp hmark.2 with ⟨u, rfl⟩
        cases h
        rw [hmark.1, cuts_cons rfl, cuts_cons rfl]
        rfl
      · rename_i hmark
        rw [cuts_cons (step_block rule depth before hmark), ih h]

theorem cuts_lineComment {c : Char} {stop : Nat} {rest : Text}
    (hcomment : commentAt? before c t.head? = some .line)
    (h : Scan.afterLine? (offset + 1) t = some (stop, rest)) :
    cuts .entries ⟨.plain, depth⟩ before offset (c :: t) =
      cuts .entries ⟨.plain, depth⟩ (some '\n') stop rest := by
  have hstep : step .entries ⟨.plain, depth⟩ before c t.head? = (⟨.line, depth⟩, false) := by
    simp [step, Rule.entries, hcomment]
  rw [cuts_cons hstep, cuts_line h]

theorem cuts_blockComment {c : Char} {stop : Nat} {rest : Text}
    (hcomment : commentAt? before c t.head? = some .opening) (hmark : t.head? = some '*')
    (h : Scan.afterBlock? (offset + 2) t.tail = some (stop, rest)) :
    cuts .entries ⟨.plain, depth⟩ before offset (c :: t) =
      cuts .entries ⟨.plain, depth⟩ (some '/') stop rest := by
  have hstep : step .entries ⟨.plain, depth⟩ before c t.head? = (⟨.opening, depth⟩, false) := by
    simp [step, Rule.entries, hcomment]
  rcases List.head?_eq_some_iff.mp hmark with ⟨u, rfl⟩
  rw [cuts_cons hstep, cuts_cons rfl]
  exact cuts_block h

theorem exists_step_plain {next : Option Char} {c : Char} (hquote : isQuote c = false)
    (hcomment : commentAt? before c next = none) :
    ∃ depth' cut, step .entries ⟨.plain, depth⟩ before c next = (⟨.plain, depth'⟩, cut) := by
  simp only [step, Rule.entries, hcomment, if_true, stepPlain, hquote, Bool.false_eq_true, if_false]
  split
  · exact ⟨_, _, rfl⟩
  · split <;> exact ⟨_, _, rfl⟩

end Cuts

end Pieces

/-!
## Two readings of the quotes

Where the cuts see a pair of quotes, the literals may end elsewhere, since they can hold
expressions. The scan of the cuts is followed from one place to the next where the literals
look for a beginning, as long as both find the same pairs.
-/

namespace Window

def isStray (w : Window) : Bool :=
  w.text.head?.any Scan.isQuote && w.literal?.isNone

end Window

namespace Scan

open Pieces (IsPaired cuts commentAt?)
open Stylesheet (IsQuotedText)

section Looks

variable {before : Option Char} {offset depth : Nat} {c : Char} {t : Text} {w : Window}
  {l : Literal Nat}

theorem cuts_of_literal? (h : Window.literal? ⟨offset, before, c :: t⟩ = some l)
    (hquoted : IsQuotedText l.quote l.text) :
    cuts .entries ⟨.plain, depth⟩ before offset (c :: t) =
      cuts .entries ⟨.plain, depth⟩ (some c) l.stop (t.drop (l.stop - offset - 1)) := by
  rcases exists_of_literal? h with ⟨hquote, -, hstop, rest, htext⟩
  rw [List.cons.injEq] at htext
  obtain ⟨rfl, rfl⟩ := htext
  have hdrop : (l.text ++ l.quote :: rest).drop (l.stop - offset - 1) = rest := by
    have hlength : l.stop - offset - 1 = (l.text ++ [l.quote]).length := by
      rw [List.length_append, List.length_singleton, hstop]
      dsimp only
      omega
    have hparts : l.text ++ l.quote :: rest = (l.text ++ [l.quote]) ++ rest := by simp
    rw [hlength, hparts, List.drop_left]
  rw [hdrop, Pieces.cuts_literal rest hquote hquoted, hstop]

/--
Whether in a text up to an offset the quotes are paired as the literals are: a quote with
which no literal begins has no pair, and a literal holds no bare quote of its own kind.
-/
structure AgreesUpTo (stop : Nat) (ws : List Window) : Prop where
  stray : ∀ w ∈ ws, w.start < stop → w.isStray = true → ¬ IsPaired w.text
  literal : ∀ w ∈ ws, w.start ≤ stop → ∀ l, w.literal? = some l → IsQuotedText l.quote l.text

theorem AgreesUpTo.tail {stop : Nat} {ws : List Window} (h : AgreesUpTo stop (w :: ws)) :
    AgreesUpTo stop ws :=
  ⟨fun v hv => h.stray v (List.mem_cons_of_mem w hv),
    fun v hv => h.literal v (List.mem_cons_of_mem w hv)⟩

/-- Where both readings agree, no literal is cut. -/
theorem not_cut (hw : w ∈ looks before offset t) (hl : w.literal? = some l)
    (h : AgreesUpTo w.start (looks before offset t)) :
    ∀ k ∈ cuts .entries ⟨.plain, depth⟩ before offset t, ¬ (w.start ≤ k ∧ k < l.stop) := by
  fun_induction looks before offset t generalizing depth with
  | case1 => cases hw
  | case2 before offset c t hcomment hnone ih =>
      rcases List.mem_cons.mp hw with rfl | htail
      · rw [hnone] at hl
        cases hl
      have hlt := le_of_mem_looks htail
      cases hquote : Scan.isQuote c with
      | true =>
          have hstray := h.stray _ List.mem_cons_self (by dsimp only; omega)
            (by simp [Window.isStray, hquote, hnone])
          rw [Pieces.cuts_cons (Pieces.step_quote .entries depth before _ hquote),
            Pieces.cuts_unpaired hstray]
          exact fun k hk => absurd hk List.not_mem_nil
      | false =>
          rcases Pieces.exists_step_plain hquote hcomment with ⟨depth', cut, hstep⟩
          have hrest : ∀ k ∈ cuts .entries ⟨.plain, depth'⟩ (some c) (offset + 1) t,
              ¬ (w.start ≤ k ∧ k < l.stop) := ih htail h.tail
          cases cut with
          | false =>
              rw [Pieces.cuts_cons hstep]
              exact hrest
          | true =>
              rw [Pieces.cuts_cut hstep, List.forall_mem_cons]
              exact ⟨by omega, hrest⟩
  | case3 before offset c t hcomment m hm ih =>
      have hle : offset ≤ w.start := by
        rcases List.mem_cons.mp hw with rfl | htail
        · exact Nat.le_refl offset
        · exact Nat.le_trans (Nat.le_of_lt (lt_of_literal? hm)) (le_of_mem_looks htail)
      have hquoted := h.literal _ List.mem_cons_self hle m hm
      rw [cuts_of_literal? hm hquoted]
      rcases List.mem_cons.mp hw with rfl | htail
      · intro k hk
        rw [hm, Option.some.injEq] at hl
        subst hl
        have hbehind := Pieces.le_of_mem_cuts hk
        omega
      · exact ih htail h.tail
  | case4 => cases hw
  | case5 before offset c t hline stop rest hstop _ ih =>
      rw [Pieces.cuts_lineComment hline hstop]
      exact ih hw h
  | case6 => cases hw
  | case7 before offset c t place hline hplace stop rest hstop _ ih =>
      rcases block_of_commentAt? hline hplace with ⟨rfl, -, hmark⟩
      rw [Pieces.cuts_blockComment hplace hmark.2 hstop]
      exact ih hw h

end Looks

/-!
## Quotes that are paired alike
-/

theorem IsLiteralText.isQuotedText {quote : Char} {t : Text} (h : IsLiteralText quote t) :
    IsQuotedText quote t := by
  induction h with
  | nil => exact .nil
  | escaped c _ ih => exact .escaped c ih
  | cons hc hstays _ ih => exact .cons hc hstays.ends ih

theorem isLiteralText_of_isQuotedText_double {t : Text} (h : IsQuotedText '"' t) :
    IsLiteralText '"' t := by
  induction h with
  | nil => exact .nil
  | escaped c _ ih => exact .escaped c ih
  | cons hc hne _ ih =>
      exact .cons hc ⟨hne, fun hline => absurd hline.2 (by decide),
        fun hbegin => absurd hbegin.2.1 (by decide)⟩ ih

theorem not_isPaired_of_double {before : Option Char} {offset : Nat} {t : Text}
    (h : Window.literal? ⟨offset, before, '"' :: t⟩ = none) : ¬ IsPaired ('"' :: t) := by
  rintro ⟨quote, u, rest, hu, ht⟩
  rw [List.cons.injEq] at ht
  obtain ⟨rfl, rfl⟩ := ht
  have hread := literal_written 0 offset rest rfl (isLiteralText_of_isQuotedText_double hu)
  rw [literal?_eq hread] at h
  cases h

theorem isQuotedText_of_static {before : Option Char} {offset : Nat} {t : Text} {l : Literal Nat}
    (h : Window.literal? ⟨offset, before, t⟩ = some l) (hstatic : l.isDynamic = false) :
    IsQuotedText l.quote l.text := by
  rcases (literal_static_iff 0 offset).mp ⟨eq_ok_of_found h, hstatic⟩ with
    ⟨quote, u, rest, -, hu, -, rfl⟩
  exact hu.isQuotedText

end Scan

namespace InlineStyle

open Pieces (Covers IsPaired cuts)
open Source (HasAt)
open Stylesheet (IsQuotedText)

/--
Whether up to an offset the quotes of a text are paired as its literals are: an apostrophe
or a backtick with which no literal begins has no pair, and a literal with expressions
holds no bare backtick.
-/
structure PairsAlike (t : Text) (stop : Nat) : Prop where
  stray : ∀ w ∈ Scan.looks none 0 t, w.start < stop → w.isStray = true →
    w.text.head? ≠ some '"' → ¬ IsPaired w.text
  dynamic : ∀ l ∈ (Window.whole t).literals false, l.start ≤ stop → l.isDynamic = true →
    IsQuotedText l.quote l.text

variable {t : Text} {l : Literal Nat}

theorem PairsAlike.agreesUpTo (hl : l ∈ (Window.whole t).literals false) {stop : Nat}
    (h : PairsAlike t stop) : Scan.AgreesUpTo stop (Scan.looks none 0 t) := by
  constructor
  · intro w hw hlt hstray
    by_cases hdouble : w.text.head? = some '"'
    · rcases w with ⟨start, before, text⟩
      rcases List.head?_eq_some_iff.mp hdouble with ⟨u, rfl⟩
      unfold Window.isStray at hstray
      rw [Bool.and_eq_true, Option.isNone_iff_eq_none] at hstray
      exact Scan.not_isPaired_of_double hstray.2
    · exact h.stray w hw hlt hstray hdouble
  · intro w hw hle m hm
    cases hdynamic : m.isDynamic with
    | false => exact Scan.isQuotedText_of_static hm hdynamic
    | true =>
        have hmem : m ∈ (Window.whole t).literals false := by
          rw [Window.literals_whole_eq hl, List.mem_filterMap]
          exact ⟨w, hw, hm⟩
        have hstart := (Scan.exists_of_literal? hm).2.1
        exact h.dynamic m hmem (hstart ▸ hle) hdynamic

/--
A literal lies in one entry if and only if the text is not cut inside of it. That is so as
long as the quotes up to the literal are paired as the literals are.
-/
theorem literal_in_one_entry (hl : l ∈ (Window.whole t).literals false) :
    ((∃ piece ∈ Pieces.ofText .entries t, Covers piece l.start l.stop) ↔
        ∀ k ∈ cuts .entries .top none 0 t, ¬ (l.start ≤ k ∧ k < l.stop)) ∧
      (PairsAlike t l.start →
        ∃ piece ∈ Pieces.ofText .entries t, Covers piece l.start l.stop) := by
  have hmem := hl
  rw [Window.literals_whole_eq hl, List.mem_filterMap] at hmem
  rcases hmem with ⟨w, hw, hfound⟩
  rcases Scan.exists_of_literal? hfound with ⟨hquote, hstart, hstop, rest, htext⟩
  have hat : HasAt t w.start (l.quote :: (l.text ++ l.quote :: rest)) := by
    have hwhole : HasAt t 0 t := List.prefix_rfl
    rw [← htext]
    exact Scan.hasAt_of_mem_looks hwhole hw
  have hlength := hat.le_length (List.cons_ne_nil _ _)
  simp only [List.length_cons, List.length_append] at hlength
  have hiff : (∃ piece ∈ Pieces.ofText .entries t, Covers piece w.start l.stop) ↔
      ∀ k ∈ cuts .entries .top none 0 t, ¬ (w.start ≤ k ∧ k < l.stop) :=
    Pieces.exists_mem_ofText_iff hat.getElem? (Scan.isBlank_of_isQuote hquote) (by omega) (by omega)
  rw [hstart]
  exact ⟨hiff, fun hpairs => hiff.mpr (Scan.not_cut hw hfound (hpairs.agreesUpTo hl))⟩

def mixedEntries : Text :=
  "a: 'x, y', /* don't, */ b: `$\x7bf(\"1\", 2)\x7d, c`".toList

theorem literal_in_one_entry_mixed :
    ∃ l ∈ (Window.whole mixedEntries).literals false, l.isDynamic = true ∧
      ∃ piece ∈ Pieces.ofText .entries mixedEntries, Covers piece l.start l.stop := by
  have hliterals : (Window.whole mixedEntries).literals false =
      [⟨'\'', 3, 9, "x, y".toList, []⟩,
        ⟨'`', 27, 44, "$\x7bf(\"1\", 2)\x7d, c".toList, [(30, 39)]⟩] := by
    decide +kernel
  have hstray : ∀ w ∈ Scan.looks none 0 mixedEntries, w.isStray = false := by decide +kernel
  have hbare : ∀ l ∈ (Window.whole mixedEntries).literals false,
      '\\' ∉ l.text ∧ l.quote ∉ l.text := by
    rw [hliterals]
    decide
  have hpairs : ∀ stop, PairsAlike mixedEntries stop := by
    intro stop
    refine ⟨fun w hw _ hwstray => ?_, fun l hl _ _ => ?_⟩
    · rw [hstray w hw] at hwstray
      cases hwstray
    · exact Stylesheet.isQuotedText_of_not_mem (hbare l hl).1 (hbare l hl).2
  have hmem : (⟨'`', 27, 44, "$\x7bf(\"1\", 2)\x7d, c".toList, [(30, 39)]⟩ : Literal Nat) ∈
      (Window.whole mixedEntries).literals false := by
    rw [hliterals]
    exact List.mem_cons_of_mem _ List.mem_cons_self
  exact ⟨_, hmem, rfl, (literal_in_one_entry hmem).2 (hpairs _)⟩

/-- A literal in an expression between backticks ends the pair of the outer one. -/
example :
    (Window.whole "a: `$\x7b`x,y`\x7d`".toList).literals false =
        [⟨'`', 3, 13, "$\x7b`x,y`\x7d".toList, [(6, 11)]⟩] ∧
      Pieces.ofText .entries "a: `$\x7b`x,y`\x7d`".toList =
        [(0, "a: `$\x7b`x".toList), (9, "y`\x7d`".toList)] := by
  decide +kernel

end InlineStyle
end DesignTokens
