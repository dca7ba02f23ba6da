import DesignTokens.Source.Literal

/-!
# Scanning written literals and brackets

A literal whose text does not end it is read as a whole, and a beginning of it
without the last quote is no literal. Brackets are closed behind everything that
is balanced in itself, and where they are closed stands the bracket that is asked
for.
-/

namespace DesignTokens
namespace Scan

/-!
## Texts between quotes
-/

/--
A character other than a backslash that stays between quotes: it does not end the
literal, and with the character behind it it begins no expression.
-/
structure StaysInside (quote c : Char) (next : Option Char) : Prop where
  ends : c ≠ quote
  line : ¬ (c = '\n' ∧ quote = '\'')
  expression : ¬ (c = '$' ∧ quote = '`' ∧ next = some '{')

instance (quote c : Char) (next : Option Char) : Decidable (StaysInside quote c next) :=
  decidable_of_iff
    (c ≠ quote ∧ ¬ (c = '\n' ∧ quote = '\'') ∧ ¬ (c = '$' ∧ quote = '`' ∧ next = some '{'))
    ⟨fun ⟨h1, h2, h3⟩ => ⟨h1, h2, h3⟩, fun h => ⟨h.1, h.2, h.3⟩⟩

/--
A text that makes one literal without expressions between quotes. A backslash takes
the next character with it.
-/
inductive IsLiteralText (quote : Char) : Text → Prop where
  | nil : IsLiteralText quote []
  | escaped (c : Char) {t : Text} : IsLiteralText quote t → IsLiteralText quote ('\\' :: c :: t)
  | cons {c : Char} {t : Text} : c ≠ '\\' → StaysInside quote c t.head? → IsLiteralText quote t →
      IsLiteralText quote (c :: t)

theorem isLiteralText_escaped_iff {quote c : Char} {t : Text} :
    IsLiteralText quote ('\\' :: c :: t) ↔ IsLiteralText quote t := by
  refine ⟨fun h => ?_, .escaped c⟩
  cases h with
  | escaped _ h => exact h
  | cons hc _ _ => exact absurd rfl hc

theorem isLiteralText_cons_iff {quote c : Char} {t : Text} (hc : c ≠ '\\') :
    IsLiteralText quote (c :: t) ↔ StaysInside quote c t.head? ∧ IsLiteralText quote t := by
  refine ⟨fun h => ?_, fun h => .cons hc h.1 h.2⟩
  cases h with
  | escaped c h => exact absurd rfl hc
  | cons _ hstays h => exact ⟨hstays, h⟩

theorem not_isLiteralText_backslash (quote : Char) : ¬ IsLiteralText quote ['\\'] := by
  intro h
  cases h with
  | cons hc _ _ => exact hc rfl

instance decidableLiteralText (quote : Char) : (t : Text) → Decidable (IsLiteralText quote t)
  | [] => isTrue .nil
  | c :: t =>
      if hc : c = '\\' then
        match t with
        | [] => isFalse (hc ▸ not_isLiteralText_backslash quote)
        | _ :: t =>
            have := decidableLiteralText quote t
            decidable_of_iff (IsLiteralText quote t) (hc ▸ isLiteralText_escaped_iff.symm)
      else
        have := decidableLiteralText quote t
        decidable_of_iff _ (isLiteralText_cons_iff hc).symm

theorem isLiteralText_of_staysInside {quote : Char} {t : Text}
    (h : ∀ c ∈ t, c ≠ '\\' ∧ ∀ next, StaysInside quote c next) : IsLiteralText quote t := by
  induction t with
  | nil => exact .nil
  | cons c t ih =>
      rcases h c List.mem_cons_self with ⟨hc, hstays⟩
      exact .cons hc (hstays _) (ih fun d hd => h d (List.mem_cons_of_mem c hd))

theorem isQuote_ne_backslash {quote : Char} (h : isQuote quote = true) : quote ≠ '\\' := by
  rintro rfl
  revert h
  decide

theorem isBlank_of_isQuote {c : Char} (h : Scan.isQuote c = true) : Text.isBlank c = false := by
  simp only [Scan.isQuote, Bool.or_eq_true, decide_eq_true_eq] at h
  rcases h with (rfl | rfl) | rfl <;> decide

/-!
## Literals between equal quotes
-/

theorem quotedStop_quote (missing offset : Nat) {quote : Char} (t : Text) (h : quote ≠ '\\') :
    quotedStop missing quote offset (quote :: t) = .ok (some (offset + 1)) := by
  rw [quotedStop.eq_def]
  simp [h]

theorem quotedStop_escaped (missing offset : Nat) (quote c : Char) (t : Text) :
    quotedStop missing quote offset ('\\' :: c :: t) = quotedStop missing quote (offset + 2) t := by
  rw [quotedStop.eq_def]
  simp

theorem quotedStop_cons (missing offset : Nat) {quote c : Char} {next : Option Char} (t : Text)
    (hc : c ≠ '\\') (h : StaysInside quote c next) :
    quotedStop missing quote offset (c :: t) = quotedStop missing quote (offset + 1) t := by
  rw [quotedStop.eq_def]
  simp only [if_neg hc, if_neg h.ends, if_neg h.line]

theorem quotedStop_written (missing offset : Nat) {quote : Char} {t : Text} (rest : Text)
    (hquote : quote ≠ '\\') (h : IsLiteralText quote t) :
    quotedStop missing quote offset (t ++ quote :: rest) = .ok (some (offset + t.length + 1)) := by
  induction h generalizing offset with
  | nil => exact quotedStop_quote missing offset rest hquote
  | escaped c _ ih =>
      rw [List.cons_append, List.cons_append, quotedStop_escaped, ih]
      simp only [List.length_cons, Except.ok.injEq, Option.some.injEq]
      omega
  | cons hc hstays _ ih =>
      rw [List.cons_append, quotedStop_cons missing offset _ hc hstays, ih]
      simp only [List.length_cons, Except.ok.injEq, Option.some.injEq]
      omega

theorem quotedStop_prefix (offset : Nat) {quote : Char} {s t : Text} (h : IsLiteralText quote t)
    (hs : s <+: t) : quotedStop 0 quote offset s = .ok none := by
  induction h generalizing s offset with
  | nil =>
      rw [List.prefix_nil.mp hs]
      rfl
  | escaped c _ ih =>
      rcases List.prefix_cons_iff.mp hs with rfl | ⟨u, rfl, hu⟩
      · rfl
      · rcases List.prefix_cons_iff.mp hu with rfl | ⟨v, rfl, hv⟩
        · rfl
        · rw [quotedStop_escaped, ih (offset + 2) hv]
  | cons hc hstays _ ih =>
      rcases List.prefix_cons_iff.mp hs with rfl | ⟨u, rfl, hu⟩
      · rfl
      · rw [quotedStop_cons 0 offset u hc hstays, ih (offset + 1) hu]

/-!
## Literals between backticks
-/

theorem templateStop_quote (missing offset : Nat) (t : Text) :
    templateStop missing offset ('`' :: t) = .ok (some (offset + 1, [])) := by
  rw [templateStop.eq_def]
  simp

theorem templateStop_escaped (missing offset : Nat) (c : Char) (t : Text) :
    templateStop missing offset ('\\' :: c :: t) = templateStop missing (offset + 2) t := by
  rw [templateStop.eq_def]
  simp

theorem templateStop_cons (missing offset : Nat) {c : Char} (t : Text) (hc : c ≠ '\\')
    (h : StaysInside '`' c t.head?) :
    templateStop missing offset (c :: t) = templateStop missing (offset + 1) t := by
  have hexpression : ¬ (c = '$' ∧ t.head? = some '{') := fun hbegin =>
    h.expression ⟨hbegin.1, rfl, hbegin.2⟩
  rw [templateStop.eq_def]
  simp only [if_neg hc, if_neg h.ends, if_neg hexpression]

/-- What follows a text matters to its last character only if it has none behind it. -/
theorem StaysInside.ofPrefix {quote c : Char} {s t : Text} (hs : s <+: t)
    (h : StaysInside quote c t.head?) : StaysInside quote c s.head? := by
  refine ⟨h.ends, h.line, ?_⟩
  rintro ⟨hdollar, htick, hbrace⟩
  rcases hs with ⟨rest, rfl⟩
  apply h.expression ⟨hdollar, htick, ?_⟩
  rw [List.head?_append, hbrace]
  rfl

theorem StaysInside.of_append {quote c d : Char} {t : Text} (rest : Text) (hd : d ≠ '{')
    (h : StaysInside quote c t.head?) : StaysInside quote c (t ++ d :: rest).head? := by
  refine ⟨h.ends, h.line, ?_⟩
  rintro ⟨hdollar, htick, hbrace⟩
  cases t with
  | nil =>
      rw [List.nil_append, List.head?_cons, Option.some.injEq] at hbrace
      exact hd hbrace
  | cons e t => exact h.expression ⟨hdollar, htick, hbrace⟩

theorem templateStop_written (missing offset : Nat) {t : Text} (rest : Text)
    (h : IsLiteralText '`' t) :
    templateStop missing offset (t ++ '`' :: rest) = .ok (some (offset + t.length + 1, [])) := by
  induction h generalizing offset with
  | nil => exact templateStop_quote missing offset rest
  | escaped c _ ih =>
      rw [List.cons_append, List.cons_append, templateStop_escaped, ih]
      simp only [List.length_cons, Except.ok.injEq, Option.some.injEq, Prod.mk.injEq, and_true]
      omega
  | cons hc hstays _ ih =>
      rw [List.cons_append,
        templateStop_cons missing offset _ hc (hstays.of_append rest (by decide)), ih]
      simp only [List.length_cons, Except.ok.injEq, Option.some.injEq, Prod.mk.injEq, and_true]
      omega

theorem templateStop_prefix (offset : Nat) {s t : Text} (h : IsLiteralText '`' t) (hs : s <+: t) :
    templateStop 0 offset s = .ok none := by
  have hnil : ∀ offset : Nat, templateStop 0 offset [] = .ok none := by
    intro offset
    rw [templateStop.eq_def]
    rfl
  induction h generalizing s offset with
  | nil =>
      rw [List.prefix_nil.mp hs]
      exact hnil offset
  | escaped c _ ih =>
      rcases List.prefix_cons_iff.mp hs with rfl | ⟨u, rfl, hu⟩
      · exact hnil offset
      · rcases List.prefix_cons_iff.mp hu with rfl | ⟨v, rfl, hv⟩
        · rw [templateStop.eq_def]
          simp [atEnd]
        · rw [templateStop_escaped, ih (offset + 2) hv]
  | cons hc hstays _ ih =>
      rcases List.prefix_cons_iff.mp hs with rfl | ⟨u, rfl, hu⟩
      · exact hnil offset
      · rw [templateStop_cons 0 offset u hc (hstays.ofPrefix hu), ih (offset + 1) hu]

/-!
## Literals
-/

theorem literal_written (missing offset : Nat) {quote : Char} {t : Text} (rest : Text)
    (hquote : isQuote quote = true) (h : IsLiteralText quote t) :
    literal missing offset (quote :: (t ++ quote :: rest)) =
      .ok (some ⟨quote, offset, offset + t.length + 2, t, []⟩) := by
  have hstop : offset + 1 + t.length + 1 = offset + t.length + 2 := by omega
  have htake : (t ++ quote :: rest).take (offset + t.length + 2 - offset - 2) = t := by
    have hlen : offset + t.length + 2 - offset - 2 = t.length := by omega
    rw [hlen, List.take_left]
  rw [literal]
  by_cases htick : quote = '`'
  · subst htick
    rw [if_pos rfl, templateStop_written missing (offset + 1) rest h]
    simp only [Except.map, Option.map, hstop, htake]
  · rw [if_neg htick, if_pos hquote,
      quotedStop_written missing (offset + 1) rest (isQuote_ne_backslash hquote) h]
    simp only [Except.map, Option.map, hstop, htake]

theorem literal_prefix (offset : Nat) {quote : Char} {s t : Text} (hquote : isQuote quote = true)
    (h : IsLiteralText quote t) (hs : s <+: t) : literal 0 offset (quote :: s) = .ok none := by
  rw [literal]
  by_cases htick : quote = '`'
  · subst htick
    rw [if_pos rfl, templateStop_prefix (offset + 1) h hs]
    rfl
  · rw [if_neg htick, if_pos hquote, quotedStop_prefix (offset + 1) h hs]
    rfl

/-!
## Steps between brackets
-/

def literalStop (missing offset : Nat) (quote : Char) (t : Text) : Scan Nat :=
  if quote = '`' then (templateStop missing (offset + 1) t).map fun stop => stop.map (·.1)
  else quotedStop missing quote (offset + 1) t

section Steps

variable {missing offset : Nat} {top c : Char} {below : List Char} {t : Text}

theorem closing_literal {stop : Nat} (hquote : isQuote c = true)
    (h : literalStop missing offset c t = .ok (some stop)) :
    closing missing top below offset (c :: t) =
      closing missing top below stop (t.drop (stop - offset - 1)) := by
  rw [closing.eq_def]
  unfold literalStop at h
  simp only [if_pos hquote, h]

theorem closing_quote (hquote : isQuote c = true) (h : literalStop missing offset c t = .ok none) :
    closing missing top below offset (c :: t) = closing missing top below (offset + 1) t := by
  rw [closing.eq_def]
  unfold literalStop at h
  simp only [if_pos hquote, h]

theorem closing_fault {fault : SourceFault} (hquote : isQuote c = true)
    (h : literalStop missing offset c t = .error fault) :
    closing missing top below offset (c :: t) = .error fault := by
  rw [closing.eq_def]
  unfold literalStop at h
  simp only [if_pos hquote, h]

theorem closing_opener {d : Char} (hquote : isQuote c = false) (h : closer? c = some d) :
    closing missing top below offset (c :: t) =
      closing missing d (top :: below) (offset + 1) t := by
  rw [closing.eq_def]
  simp only [hquote, Bool.false_eq_true, if_false, h]

theorem closing_plain (hquote : isQuote c = false) (hopener : closer? c = none) (htop : c ≠ top) :
    closing missing top below offset (c :: t) = closing missing top below (offset + 1) t := by
  rw [closing.eq_def]
  simp only [hquote, Bool.false_eq_true, if_false, hopener, if_neg htop]

theorem closing_top {next : Char} (hquote : isQuote c = false) (hopener : closer? c = none) :
    closing missing c (next :: below) offset (c :: t) =
      closing missing next below (offset + 1) t := by
  rw [closing.eq_def]
  simp only [hquote, Bool.false_eq_true, if_false, hopener, if_true]

theorem closing_last (hquote : isQuote c = false) (hopener : closer? c = none) :
    closing missing c [] offset (c :: t) = .ok (some offset) := by
  rw [closing.eq_def]
  simp only [hquote, Bool.false_eq_true, if_false, hopener, if_true]

/-- The brackets that are open behind a character outside of literals, or `none` if this
character closes the last one. -/
def openBehind (top : Char) (below : List Char) (c : Char) : Option (Char × List Char) :=
  match closer? c with
  | some d => some (d, top :: below)
  | none =>
      if c = top then
        match below with
        | [] => none
        | next :: rest => some (next, rest)
      else some (top, below)

theorem closing_some {top' : Char} {below' : List Char} (hquote : isQuote c = false)
    (h : openBehind top below c = some (top', below')) :
    closing missing top below offset (c :: t) = closing missing top' below' (offset + 1) t := by
  unfold openBehind at h
  split at h
  · rename_i hopener
    cases h
    exact closing_opener hquote hopener
  · rename_i hopener
    split at h
    · rename_i htop
      subst htop
      cases below with
      | nil => cases h
      | cons next rest =>
          cases h
          exact closing_top hquote hopener
    · rename_i htop
      cases h
      exact closing_plain hquote hopener htop

theorem eq_of_openBehind_eq_none (h : openBehind top below c = none) :
    closer? c = none ∧ top = c ∧ below = [] := by
  unfold openBehind at h
  split at h
  · cases h
  · rename_i hopener
    split at h
    · rename_i htop
      cases below with
      | nil => exact ⟨hopener, htop.symm, rfl⟩
      | cons next rest => cases h
    · cases h

theorem closing_none (hquote : isQuote c = false) (h : openBehind top below c = none) :
    closing missing top below offset (c :: t) = .ok (some offset) := by
  rcases eq_of_openBehind_eq_none h with ⟨hopener, rfl, rfl⟩
  exact closing_last hquote hopener

/-- Whatever is opened or closed before the end, the outermost bracket stays the last one. -/
theorem getLast?_openBehind {top' : Char} {below' : List Char}
    (h : openBehind top below c = some (top', below')) :
    (top' :: below').getLast? = (top :: below).getLast? := by
  unfold openBehind at h
  split at h
  · cases h
    exact List.getLast?_cons_cons
  · split at h
    · cases below with
      | nil => cases h
      | cons next rest =>
          cases h
          exact List.getLast?_cons_cons.symm
    · cases h
      rfl

end Steps

theorem literalStop_written (missing offset : Nat) {quote : Char} {t : Text} (rest : Text)
    (hquote : isQuote quote = true) (h : IsLiteralText quote t) :
    literalStop missing offset quote (t ++ quote :: rest) =
      .ok (some (offset + t.length + 2)) := by
  have hstop : offset + 1 + t.length + 1 = offset + t.length + 2 := by omega
  unfold literalStop
  by_cases htick : quote = '`'
  · subst htick
    rw [if_pos rfl, templateStop_written missing (offset + 1) rest h, hstop]
    rfl
  · rw [if_neg htick, quotedStop_written missing (offset + 1) rest (isQuote_ne_backslash hquote) h,
      hstop]

/-!
## Balanced texts

A balanced text leaves the open brackets as they are: by induction over its structure,
whatever is opened in it is closed in it.
-/

def IsCloser (c : Char) : Prop :=
  ∃ o, closer? o = some c

theorem isCloser_iff {c : Char} : IsCloser c ↔ c = '}' ∨ c = ']' ∨ c = ')' := by
  constructor
  · rintro ⟨o, ho⟩
    unfold closer? at ho
    split at ho
    · exact .inl (Option.some.inj ho).symm
    · exact .inr (.inl (Option.some.inj ho).symm)
    · exact .inr (.inr (Option.some.inj ho).symm)
    · simp at ho
  · rintro (rfl | rfl | rfl)
    · exact ⟨'{', rfl⟩
    · exact ⟨'[', rfl⟩
    · exact ⟨'(', rfl⟩

def isPlain (c : Char) : Bool :=
  !isQuote c && closer? c = none && c ≠ '}' && c ≠ ']' && c ≠ ')'

theorem isPlain_iff {c : Char} :
    isPlain c = true ↔ isQuote c = false ∧ closer? c = none ∧ ¬ IsCloser c := by
  simp only [isPlain, Bool.and_eq_true, Bool.not_eq_true', decide_eq_true_eq, isCloser_iff, not_or,
    and_assoc]

theorem isQuote_eq_false_of_isCloser {c : Char} (h : IsCloser c) : isQuote c = false := by
  rcases isCloser_iff.mp h with rfl | rfl | rfl <;> rfl

theorem closer?_eq_none_of_isCloser {c : Char} (h : IsCloser c) : closer? c = none := by
  rcases isCloser_iff.mp h with rfl | rfl | rfl <;> rfl

theorem isQuote_eq_false_of_closer? {c d : Char} (h : closer? c = some d) : isQuote c = false := by
  unfold closer? at h
  split at h <;> first | rfl | simp at h

/--
A text in which every bracket is closed by one of its own kind, and every quote
belongs to a literal. Brackets in literals do not count.
-/
inductive IsBalanced : Text → Prop where
  | nil : IsBalanced []
  | plain {c : Char} {t : Text} : isPlain c = true → IsBalanced t → IsBalanced (c :: t)
  | literal {quote : Char} {s t : Text} : isQuote quote = true → IsLiteralText quote s →
      IsBalanced t → IsBalanced (quote :: (s ++ quote :: t))
  | bracket {opener closer : Char} {s t : Text} : closer? opener = some closer →
      IsBalanced s → IsBalanced t → IsBalanced (opener :: (s ++ closer :: t))

theorem closing_balanced (missing offset : Nat) {top : Char} (below : List Char) {s : Text}
    (rest : Text) (htop : IsCloser top) (h : IsBalanced s) :
    closing missing top below offset (s ++ rest) =
      closing missing top below (offset + s.length) rest := by
  -- the inside of a bracket is scanned for the end of that bracket, so `top` has to be general
  induction h generalizing top below offset rest with
  | nil => rfl
  | @plain c t hplain _ ih =>
      rcases isPlain_iff.mp hplain with ⟨hquote, hopener, hcloser⟩
      have hne : c ≠ top := by
        rintro rfl
        exact hcloser htop
      rw [List.cons_append, closing_plain hquote hopener hne, ih (offset + 1) below rest htop,
        List.length_cons]
      congr 1
      omega
  | @literal quote s t hquote hs _ ih =>
      have hstop := literalStop_written missing offset (t ++ rest) hquote hs
      have hdrop : (s ++ quote :: (t ++ rest)).drop (offset + s.length + 2 - offset - 1) =
          t ++ rest := by
        have hlen : offset + s.length + 2 - offset - 1 = (s ++ [quote]).length := by
          rw [List.length_append, List.length_singleton]
          omega
        have htext : s ++ quote :: (t ++ rest) = (s ++ [quote]) ++ (t ++ rest) := by simp
        rw [hlen, htext, List.drop_left]
      have htext : quote :: (s ++ quote :: t) ++ rest = quote :: (s ++ quote :: (t ++ rest)) := by
        simp
      rw [htext, closing_literal hquote hstop, hdrop, ih _ below rest htop]
      congr 1
      simp only [List.length_cons, List.length_append]
      omega
  | @bracket opener closer s t hcloser _ _ ihs iht =>
      have hclose : IsCloser closer := ⟨opener, hcloser⟩
      have htext : opener :: (s ++ closer :: t) ++ rest =
          opener :: (s ++ (closer :: (t ++ rest))) := by
        simp
      rw [htext, closing_opener (isQuote_eq_false_of_closer? hcloser) hcloser,
        ihs _ _ _ hclose,
        closing_top (isQuote_eq_false_of_isCloser hclose) (closer?_eq_none_of_isCloser hclose),
        iht _ below rest htop]
      congr 1
      simp only [List.length_cons, List.length_append]
      omega

theorem isBalanced_of_isPlain {t : Text} (h : ∀ c ∈ t, isPlain c = true) : IsBalanced t := by
  induction t with
  | nil => exact .nil
  | cons c t ih =>
      exact .plain (h c List.mem_cons_self) (ih fun d hd => h d (List.mem_cons_of_mem _ hd))

theorem isBalanced_of_all {t : Text} (h : t.all isPlain = true) : IsBalanced t :=
  isBalanced_of_isPlain (List.all_eq_true.mp h)

theorem IsBalanced.append {s t : Text} (hs : IsBalanced s) (ht : IsBalanced t) :
    IsBalanced (s ++ t) := by
  induction hs with
  | nil => exact ht
  | plain hplain _ ih => exact .plain hplain ih
  | @literal quote s u hquote hs _ ih =>
      have htext : quote :: (s ++ quote :: u) ++ t = quote :: (s ++ quote :: (u ++ t)) := by simp
      rw [htext]
      exact .literal hquote hs ih
  | @bracket opener closer s u hcloser hs _ _ ih =>
      have htext : opener :: (s ++ closer :: u) ++ t = opener :: (s ++ closer :: (u ++ t)) := by
        simp
      rw [htext]
      exact .bracket hcloser hs ih

theorem IsBalanced.flatMap {α : Type} {f : α → Text} {l : List α}
    (h : ∀ a ∈ l, IsBalanced (f a)) : IsBalanced (l.flatMap f) := by
  induction l with
  | nil => exact .nil
  | cons a l ih =>
      rw [List.flatMap_cons]
      exact (h a List.mem_cons_self).append (ih fun b hb => h b (List.mem_cons_of_mem _ hb))

/-!
## Where brackets are closed
-/

theorem lt_of_quotedStop {missing offset stop : Nat} {quote : Char} {t : Text}
    (h : quotedStop missing quote offset t = .ok (some stop)) : offset < stop := by
  fun_induction quotedStop missing quote offset t with
  | case1 => simp [atEnd] at h; split at h <;> simp at h
  | case2 => simp [atEnd] at h; split at h <;> simp at h
  | case3 _ _ _ ih =>
      have hlt := ih h
      omega
  | case4 =>
      simp only [Except.ok.injEq, Option.some.injEq] at h
      omega
  | case5 => simp at h
  | case6 _ _ _ _ _ _ ih =>
      have hlt := ih h
      omega

theorem eq_ok_of_found {α : Type} {scan : Scan α} {a : α} (h : found scan = some a) :
    scan = .ok (some a) := by
  cases scan with
  | error fault => cases h
  | ok r => exact congrArg Except.ok h

theorem atEnd_ne_found {α : Type} (missing : Nat) (a : α) : atEnd missing ≠ .ok (some a) := by
  unfold atEnd
  split <;> simp

theorem getElem?_of_succ_le {α : Type} {a : α} {t : List α} {offset n : Nat}
    (h : offset + 1 ≤ n) : (a :: t)[n - offset]? = t[n - (offset + 1)]? := by
  have hsub : n - offset = n - (offset + 1) + 1 := by omega
  rw [hsub, List.getElem?_cons_succ]

theorem getElem?_of_lt_of_le {α : Type} {a : α} {t : List α} {offset stop n : Nat}
    (hstop : offset < stop) (hn : stop ≤ n) :
    (t.drop (stop - offset - 1))[n - stop]? = (a :: t)[n - offset]? := by
  have hsub : n - offset = (stop - offset - 1 + (n - stop)) + 1 := by omega
  rw [List.getElem?_drop, hsub, List.getElem?_cons_succ]

theorem exists_of_map_fst {α β : Type} {n : α} {scan : Scan (α × β)}
    (h : (scan.map fun stop => stop.map (·.1)) = .ok (some n)) :
    ∃ r, scan = .ok (some r) ∧ r.1 = n := by
  match scan, h with
  | .error _, h => simp [Except.map] at h
  | .ok none, h => simp [Except.map] at h
  | .ok (some r), h =>
      refine ⟨r, rfl, ?_⟩
      simpa only [Except.map, Option.map, Except.ok.injEq, Option.some.injEq] using h

theorem templateStop_cases {missing offset : Nat} {c : Char} {t : Text}
    {r : Nat × List (Nat × Nat)} (h : templateStop missing offset (c :: t) = .ok (some r)) :
    (c = '`' ∧ r = (offset + 1, [])) ∨
      (∃ d t', t = d :: t' ∧ templateStop missing (offset + 2) t' = .ok (some r)) ∨
      (∃ close s, closing missing '}' [] (offset + 2) t.tail = .ok (some close) ∧
        templateStop missing (close + 1) (t.drop (close - offset)) = .ok (some s) ∧
          r = (s.1, (offset + 2, close) :: s.2)) ∨
      templateStop missing (offset + 1) t = .ok (some r) := by
  rw [templateStop.eq_def] at h
  simp only at h
  split at h
  · cases t with
    | nil => exact absurd h (atEnd_ne_found (missing - 1) r)
    | cons d t => exact .inr (.inl ⟨d, t, rfl, h⟩)
  · split at h
    · rename_i hquote
      simp only [Except.ok.injEq, Option.some.injEq] at h
      exact .inl ⟨hquote, h.symm⟩
    · split at h
      · split at h
        · simp at h
        · simp at h
        · rename_i close hclose
          cases hrest : templateStop missing (close + 1) (t.drop (close - offset)) with
          | error fault => simp [hrest, Except.map] at h
          | ok stop =>
              cases stop with
              | none => simp [hrest, Except.map] at h
              | some s =>
                  simp only [hrest, Except.map, Option.map, Except.ok.injEq,
                    Option.some.injEq] at h
                  exact .inr (.inr (.inl ⟨close, s, hclose, hrest, h.symm⟩))
      · exact .inr (.inr (.inr h))

mutual

theorem lt_of_templateStop {missing offset : Nat} {t : Text} {r : Nat × List (Nat × Nat)}
    (h : templateStop missing offset t = .ok (some r)) : offset < r.1 := by
  match t, h with
  | [], h =>
      rw [templateStop.eq_def] at h
      exact absurd h (atEnd_ne_found missing r)
  | c :: t, h =>
      rcases templateStop_cases h with ⟨-, rfl⟩ | ⟨d, t', ht, htail⟩ |
        ⟨close, s, hclose, hrest, rfl⟩ | htail
      · exact Nat.lt_succ_self offset
      · have hlength : t'.length < t.length := by simp [ht]
        have hlt := lt_of_templateStop htail
        omega
      · have hle := (closing_spec hclose).1
        have hlt := lt_of_templateStop hrest
        exact Nat.lt_trans (by omega) hlt
      · have hlt := lt_of_templateStop htail
        omega
termination_by t.length
decreasing_by
  all_goals simp only [List.length_cons, List.length_drop, List.length_tail]
  all_goals omega

/--
The bracket that closes the outermost one of the open brackets is the one that it asks for.
-/
theorem closing_spec {missing offset n : Nat} {top : Char} {below : List Char} {t : Text}
    (h : closing missing top below offset t = .ok (some n)) :
    offset ≤ n ∧ t[n - offset]? = (top :: below).getLast? := by
  match t, h with
  | [], h =>
      rw [closing.eq_def] at h
      exact absurd h (atEnd_ne_found missing n)
  | c :: t, h =>
      cases hquote : isQuote c with
      | true =>
          cases hstop : literalStop missing offset c t with
          | error fault => simp [closing_fault hquote hstop] at h
          | ok found =>
              cases found with
              | none =>
                  rw [closing_quote hquote hstop] at h
                  rcases closing_spec h with ⟨hle, hchar⟩
                  exact ⟨by omega, by rw [getElem?_of_succ_le hle, hchar]⟩
              | some stop =>
                  have hlt : offset < stop := by
                    unfold literalStop at hstop
                    split at hstop
                    · rcases exists_of_map_fst hstop with ⟨r, htemplate, hr⟩
                      have hlt := lt_of_templateStop htemplate
                      omega
                    · have hlt := lt_of_quotedStop hstop
                      omega
                  rw [closing_literal hquote hstop] at h
                  rcases closing_spec h with ⟨hle, hchar⟩
                  exact ⟨by omega, by rw [← getElem?_of_lt_of_le hlt hle, hchar]⟩
      | false =>
          cases hbehind : openBehind top below c with
          | none =>
              rcases eq_of_openBehind_eq_none hbehind with ⟨-, rfl, rfl⟩
              rw [closing_none hquote hbehind, Except.ok.injEq, Option.some.injEq] at h
              subst h
              simp
          | some brackets =>
              rcases brackets with ⟨top', below'⟩
              rw [closing_some hquote hbehind] at h
              rcases closing_spec h with ⟨hle, hchar⟩
              exact ⟨by omega, by
                rw [getElem?_of_succ_le hle, hchar, getLast?_openBehind hbehind]⟩
termination_by t.length
decreasing_by
  all_goals simp only [List.length_cons, List.length_drop]
  all_goals omega

end

end Scan

theorem Window.closing?_congr {v w : Window} (hstart : v.start = w.start)
    (htext : v.text = w.text) :
    v.closing? = w.closing? := by
  rw [Window.closing?, Window.closing?, hstart, htext]

theorem Window.closing?_of_text {w : Window} {rest : Text} (h : w.text = '{' :: rest) :
    w.closing? = Scan.found (Scan.closing 0 '}' [] (w.start + 1) rest) := by
  rw [Window.closing?, h]
  rfl

theorem Window.closing?_spec {w : Window} {rest : Text} {n : Nat} (hw : w.text = '{' :: rest)
    (h : w.closing? = some n) : ∃ m, n = w.start + 1 + m ∧ rest[m]? = some '}' := by
  have hclosing : Scan.closing 0 '}' [] (w.start + 1) rest = .ok (some n) := by
    rw [Window.closing?_of_text hw] at h
    exact Scan.eq_ok_of_found h
  rcases Scan.closing_spec hclosing with ⟨hle, hchar⟩
  exact ⟨n - (w.start + 1), by omega, hchar⟩

end DesignTokens
