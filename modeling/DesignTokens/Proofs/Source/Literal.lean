import DesignTokens.Proofs.Except
import DesignTokens.Proofs.Source.Scan
import DesignTokens.Proofs.Source.Window

/-!
# Literals and bodies in a source

What is read in a window stands in the source of the window: the body between two
brackets, and the texts of literals, also of those in the expressions of other
literals. A literal without expressions is read exactly where one is written.
-/

namespace DesignTokens
namespace Scan

open Source (HasAt)

theorem length_drop_lt (c : Char) (t : Text) (n : Nat) : (t.drop n).length < (c :: t).length := by
  rw [List.length_drop, List.length_cons]
  omega

theorem length_take_drop_lt (c : Char) (t : Text) (n m : Nat) :
    ((t.drop n).take m).length < (c :: t).length :=
  (List.length_take_le' m _).trans_lt (length_drop_lt c t n)

/-!
## Expressions and literals
-/

inductive EndsTemplate : Nat → Text → Nat × List (Nat × Nat) → Prop where
  | tick (offset : Nat) (t : Text) : EndsTemplate offset ('`' :: t) (offset + 1, [])
  | escaped {offset : Nat} {t : Text} {r : Nat × List (Nat × Nat)} (c d : Char)
      (h : EndsTemplate (offset + 2) t r) : EndsTemplate offset (c :: d :: t) r
  | expression {offset close : Nat} {t : Text} {r : Nat × List (Nat × Nat)} (c : Char)
      (hclose : offset + 2 ≤ close) (h : EndsTemplate (close + 1) (t.drop (close - offset)) r) :
      EndsTemplate offset (c :: t) (r.1, (offset + 2, close) :: r.2)
  | other {offset : Nat} {t : Text} {r : Nat × List (Nat × Nat)} (c : Char)
      (h : EndsTemplate (offset + 1) t r) : EndsTemplate offset (c :: t) r

theorem endsTemplate_of_templateStop {missing offset : Nat} {t : Text} {r : Nat × List (Nat × Nat)}
    (h : templateStop missing offset t = .ok (some r)) : EndsTemplate offset t r := by
  induction hn : t.length using Nat.strong_induction_on generalizing offset t r with
  | _ n ih =>
      subst hn
      cases t with
      | nil =>
          rw [templateStop.eq_def] at h
          exact absurd h (atEnd_ne_found missing r)
      | cons c t =>
          rcases templateStop_cases h with ⟨rfl, rfl⟩ | ⟨d, t', rfl, htail⟩ |
            ⟨close, s, hclose, hrest, rfl⟩ | htail
          · exact .tick offset t
          · exact .escaped c d (ih t'.length (length_drop_lt c (d :: t') 1) htail rfl)
          · exact .expression c (closing_spec hclose).1 (ih _ (length_drop_lt c t _) hrest rfl)
          · exact .other c (ih t.length (length_drop_lt c t 0) htail rfl)

theorem EndsTemplate.le_of_mem {offset : Nat} {t : Text} {r : Nat × List (Nat × Nat)}
    (h : EndsTemplate offset t r) : ∀ span ∈ r.2, offset ≤ span.1 := by
  induction h with
  | tick offset t => exact fun span hspan => absurd hspan List.not_mem_nil
  | escaped c d h ih => exact fun span hspan => (Nat.le_add_right _ 2).trans (ih span hspan)
  | @expression offset close t r c hclose h ih =>
      intro span hspan
      rcases List.mem_cons.mp hspan with rfl | hspan
      · exact Nat.le_add_right offset 2
      · have hle := ih span hspan
        omega
  | other c h ih => exact fun span hspan => (Nat.le_add_right _ 1).trans (ih span hspan)

theorem EndsTemplate.exists_tick {offset : Nat} {t : Text} {r : Nat × List (Nat × Nat)}
    (h : EndsTemplate offset t r) :
    ∃ u rest, t = u ++ '`' :: rest ∧ r.1 = offset + u.length + 1 := by
  induction h with
  | tick offset t => exact ⟨[], t, rfl, rfl⟩
  | escaped c d h ih =>
      rcases ih with ⟨u, rest, rfl, hr⟩
      refine ⟨c :: d :: u, rest, rfl, ?_⟩
      simp only [List.length_cons]
      omega
  | @expression offset close t r c hclose h ih =>
      rcases ih with ⟨u, rest, hu, hr⟩
      have hshort : close - offset ≤ t.length := by
        by_contra hlong
        rw [List.drop_eq_nil_of_le (by omega)] at hu
        exact absurd hu (by simp)
      refine ⟨c :: (t.take (close - offset) ++ u), rest, ?_, ?_⟩
      · rw [List.cons_append, List.append_assoc, ← hu, List.take_append_drop]
      · simp only [List.length_cons, List.length_append, List.length_take_of_le hshort]
        omega
  | other c h ih =>
      rcases ih with ⟨u, rest, rfl, hr⟩
      refine ⟨c :: u, rest, rfl, ?_⟩
      simp only [List.length_cons]
      omega

theorem map_eq_found {α β : Type} {scan : Scan α} {f : α → β} {b : β}
    (h : (scan.map fun found => found.map f) = .ok (some b)) :
    ∃ a, scan = .ok (some a) ∧ f a = b := by
  match scan, h with
  | .error _, h => simp [Except.map] at h
  | .ok none, h => simp [Except.map] at h
  | .ok (some a), h =>
      refine ⟨a, rfl, ?_⟩
      simpa only [Except.map, Option.map, Except.ok.injEq, Option.some.injEq] using h

/-- A literal starts with its text, and its expressions and its end lie behind its first quote. -/
theorem literal_spec {missing offset : Nat} {c : Char} {t : Text} {l : Literal Nat}
    (h : literal missing offset (c :: t) = .ok (some l)) :
    l.start = offset ∧ offset < l.stop ∧ l.text <+: t ∧
      ∀ span ∈ l.interpolations, offset + 1 ≤ span.1 := by
  rw [literal] at h
  split at h
  · rcases map_eq_found h with ⟨r, hstop, rfl⟩
    have hlt := lt_of_templateStop hstop
    exact ⟨rfl, Nat.lt_of_succ_lt hlt, List.take_prefix _ t,
      (endsTemplate_of_templateStop hstop).le_of_mem⟩
  · split at h
    · rcases map_eq_found h with ⟨n, hstop, rfl⟩
      have hlt := lt_of_quotedStop hstop
      exact ⟨rfl, Nat.lt_of_succ_lt hlt, List.take_prefix _ t, by simp⟩
    · simp at h

/-!
## Literals without expressions
-/

theorem exists_of_quotedStop {missing offset stop : Nat} {quote : Char} {t : Text}
    (htick : quote ≠ '`') (h : quotedStop missing quote offset t = .ok (some stop)) :
    ∃ u rest, IsLiteralText quote u ∧ t = u ++ quote :: rest := by
  fun_induction quotedStop missing quote offset t with
  | case1 => exact absurd h (atEnd_ne_found _ stop)
  | case2 => exact absurd h (atEnd_ne_found _ stop)
  | case3 offset c t ih =>
      rcases ih h with ⟨u, rest, hu, rfl⟩
      exact ⟨'\\' :: c :: u, rest, .escaped c hu, rfl⟩
  | case4 offset t hc => exact ⟨[], t, .nil, rfl⟩
  | case5 => cases h
  | case6 offset c t hc hne hline ih =>
      rcases ih h with ⟨u, rest, hu, rfl⟩
      have hstays : StaysInside quote c u.head? := ⟨hne, hline, fun hbegin => htick hbegin.2.1⟩
      exact ⟨c :: u, rest, .cons hc hstays hu, rfl⟩

theorem exists_of_literal {missing offset : Nat} {c : Char} {t : Text} {l : Literal Nat}
    (h : literal missing offset (c :: t) = .ok (some l)) :
    isQuote c = true ∧ l.quote = c ∧
      ∃ rest, t = l.text ++ c :: rest ∧ l.stop = offset + l.text.length + 2 := by
  have htake : ∀ {u rest : Text} {stop : Nat}, stop = offset + 1 + u.length + 1 →
      (u ++ c :: rest).take (stop - offset - 2) = u := by
    intro u rest stop hstop
    have hlen : stop - offset - 2 = u.length := by omega
    rw [hlen, List.take_left]
  rw [literal] at h
  split at h
  · rename_i htick
    rcases map_eq_found h with ⟨r, hstop, rfl⟩
    rcases (endsTemplate_of_templateStop hstop).exists_tick with ⟨u, rest, rfl, hr⟩
    subst htick
    rw [htake hr]
    exact ⟨rfl, rfl, rest, rfl, by dsimp only; omega⟩
  · rename_i htick
    split at h
    · rename_i hquote
      rcases map_eq_found h with ⟨stop, hstop, rfl⟩
      rcases exists_of_quotedStop htick hstop with ⟨u, rest, hu, rfl⟩
      rw [quotedStop_written missing (offset + 1) rest (isQuote_ne_backslash hquote) hu,
        Except.ok.injEq, Option.some.injEq] at hstop
      rw [htake hstop.symm]
      exact ⟨hquote, rfl, rest, rfl, by dsimp only; omega⟩
    · cases h

theorem interpolations_ne_nil {missing offset : Nat} {t : Text} {r : Nat × List (Nat × Nat)}
    (hbrace : t.head? = some '{') (h : templateStop missing offset ('$' :: t) = .ok (some r)) :
    r.2 ≠ [] := by
  have hdollar : ¬ '$' = '\\' ∧ ¬ '$' = '`' := by decide
  rw [templateStop.eq_def] at h
  simp only [if_neg hdollar.1, if_neg hdollar.2, hbrace, and_self, if_true] at h
  split at h
  · cases h
  · cases h
  · rcases map_eq_found h with ⟨stop, -, rfl⟩
    exact List.cons_ne_nil _ _

theorem exists_of_templateStop {missing offset stop : Nat} {t : Text}
    (h : templateStop missing offset t = .ok (some (stop, []))) :
    ∃ u rest, IsLiteralText '`' u ∧ t = u ++ '`' :: rest := by
  induction hn : t.length using Nat.strong_induction_on generalizing offset t with
  | _ n ih =>
      subst hn
      cases t with
      | nil =>
          rw [templateStop.eq_def] at h
          exact absurd h (atEnd_ne_found missing _)
      | cons c t =>
          by_cases hc : c = '\\'
          · subst hc
            cases t with
            | nil =>
                rw [templateStop.eq_def] at h
                exact absurd h (atEnd_ne_found _ _)
            | cons d t =>
                rw [templateStop_escaped] at h
                rcases ih t.length (length_drop_lt '\\' (d :: t) 1) h rfl with ⟨u, rest, hu, rfl⟩
                exact ⟨'\\' :: d :: u, rest, .escaped d hu, rfl⟩
          · by_cases hquote : c = '`'
            · subst hquote
              exact ⟨[], t, .nil, rfl⟩
            · by_cases hbegin : c = '$' ∧ t.head? = some '{'
              · rcases hbegin with ⟨rfl, hbrace⟩
                exact absurd rfl (interpolations_ne_nil hbrace h)
              · have hstays : StaysInside '`' c t.head? :=
                  ⟨hquote, fun hline => absurd hline.2 (by decide),
                    fun hexpression => hbegin ⟨hexpression.1, hexpression.2.2⟩⟩
                rw [templateStop_cons missing offset t hc hstays] at h
                rcases ih t.length (length_drop_lt c t 0) h rfl with ⟨u, rest, hu, rfl⟩
                have hinside := hstays.ofPrefix (List.prefix_append u ('`' :: rest))
                exact ⟨c :: u, rest, .cons hc hinside hu, rfl⟩

theorem literal_static_iff (missing offset : Nat) {t : Text} {l : Literal Nat} :
    literal missing offset t = .ok (some l) ∧ l.isDynamic = false ↔
      ∃ quote u rest, isQuote quote = true ∧ IsLiteralText quote u ∧
        t = quote :: (u ++ quote :: rest) ∧ l = ⟨quote, offset, offset + u.length + 2, u, []⟩ := by
  constructor
  · rintro ⟨h, hstatic⟩
    cases t with
    | nil => exact absurd h (atEnd_ne_found missing l)
    | cons c t =>
        have hwritten : ∃ u rest, isQuote c = true ∧ IsLiteralText c u ∧ t = u ++ c :: rest := by
          rw [literal] at h
          split at h
          · rename_i htick
            rcases map_eq_found h with ⟨⟨stop, spans⟩, hstop, rfl⟩
            have hspans : spans = [] := by simpa [Literal.isDynamic] using hstatic
            rw [hspans] at hstop
            rcases exists_of_templateStop hstop with ⟨u, rest, hu, ht⟩
            rw [htick]
            exact ⟨u, rest, rfl, hu, ht⟩
          · rename_i htick
            split at h
            · rename_i hquote
              rcases map_eq_found h with ⟨stop, hstop, rfl⟩
              rcases exists_of_quotedStop htick hstop with ⟨u, rest, hu, ht⟩
              exact ⟨u, rest, hquote, hu, ht⟩
            · cases h
        rcases hwritten with ⟨u, rest, hquote, hu, rfl⟩
        rw [literal_written missing offset rest hquote hu] at h
        cases h
        exact ⟨c, u, rest, hquote, hu, rfl, rfl⟩
  · rintro ⟨quote, u, rest, hquote, hu, rfl, rfl⟩
    exact ⟨literal_written missing offset rest hquote hu, rfl⟩

/-!
## Literals behind each other
-/

theorem afterLine?_eq_drop {offset stop : Nat} {t rest : Text}
    (h : afterLine? offset t = some (stop, rest)) :
    ∃ n, stop = offset + n ∧ rest = t.drop n := by
  induction t generalizing offset with
  | nil => simp [afterLine?] at h
  | cons c t ih =>
      unfold afterLine? at h
      split at h
      · cases h
        exact ⟨1, rfl, rfl⟩
      · rcases ih h with ⟨n, rfl, rfl⟩
        exact ⟨n + 1, by omega, rfl⟩

theorem afterBlock?_eq_drop {offset stop : Nat} {t rest : Text}
    (h : afterBlock? offset t = some (stop, rest)) :
    ∃ n, stop = offset + n ∧ rest = t.drop n := by
  induction t generalizing offset with
  | nil => simp [afterBlock?] at h
  | cons c t ih =>
      unfold afterBlock? at h
      split at h
      · cases h
        exact ⟨2, rfl, List.drop_one.symm⟩
      · rcases ih h with ⟨n, rfl, rfl⟩
        exact ⟨n + 1, by omega, rfl⟩

theorem afterLine?_shift (offset d : Nat) (t : Text) :
    afterLine? (offset + d) t = (afterLine? offset t).map fun r => (r.1 + d, r.2) := by
  induction t generalizing offset with
  | nil => rfl
  | cons c t ih =>
      rw [afterLine?, afterLine?]
      split
      · rw [Option.map_some, Nat.add_right_comm]
      · rw [Nat.add_right_comm, ih]

theorem afterBlock?_shift (offset d : Nat) (t : Text) :
    afterBlock? (offset + d) t = (afterBlock? offset t).map fun r => (r.1 + d, r.2) := by
  induction t generalizing offset with
  | nil => rfl
  | cons c t ih =>
      rw [afterBlock?, afterBlock?]
      split
      · rw [Option.map_some, Nat.add_right_comm]
      · rw [Nat.add_right_comm, ih]

section Steps

variable {missing offset : Nat} {nested : Bool} {before : Option Char} {c : Char} {t : Text}

theorem literals_nil (nested : Bool) (before : Option Char) (offset : Nat) :
    literals 0 nested before offset [] = .ok [] := by
  rw [literals, if_pos rfl]

theorem literals_line (h : c = '/' ∧ t.head? = some '/' ∧ before ≠ some ':') :
    literals missing nested before offset (c :: t) =
      match afterLine? (offset + 1) t with
      | none => .ok []
      | some r => literals missing nested (some '\n') r.1 r.2 := by
  rw [literals, if_pos h]
  split <;> simp_all

theorem literals_block (hline : ¬ (c = '/' ∧ t.head? = some '/' ∧ before ≠ some ':'))
    (h : c = '/' ∧ t.head? = some '*') :
    literals missing nested before offset (c :: t) =
      match afterBlock? (offset + 2) t.tail with
      | none => .ok []
      | some r => literals missing nested (some '/') r.1 r.2 := by
  rw [literals, if_neg hline, if_pos h]
  split <;> simp_all

/--
If a comment begins with `c`, the character behind which the literals go on, and how
many characters of `t` lie before; `some none` if the comment does not end.
-/
def passedComment? (before : Option Char) (c : Char) (t : Text) : Option (Option (Char × Nat)) :=
  if c = '/' ∧ t.head? = some '/' ∧ before ≠ some ':' then
    some ((afterLine? 0 t).map fun r => ('\n', r.1))
  else if c = '/' ∧ t.head? = some '*' then
    some ((afterBlock? 1 t.tail).map fun r => ('/', r.1))
  else none

theorem passedComment?_eq_none_iff :
    passedComment? before c t = none ↔
      ¬ (c = '/' ∧ t.head? = some '/' ∧ before ≠ some ':') ∧
        ¬ (c = '/' ∧ t.head? = some '*') := by
  unfold passedComment?
  split
  · rename_i hline
    exact iff_of_false nofun fun h => h.1 hline
  · rename_i hline
    split
    · rename_i hblock
      exact iff_of_false nofun fun h => h.2 hblock
    · rename_i hblock
      exact iff_of_true rfl ⟨hline, hblock⟩

theorem literals_open (h : passedComment? before c t = some none) :
    literals missing nested before offset (c :: t) = .ok [] := by
  unfold passedComment? at h
  split at h
  · rename_i hline
    rw [Option.some.injEq, Option.map_eq_none_iff] at h
    rw [literals_line hline, ← Nat.zero_add (offset + 1), afterLine?_shift, h]
    rfl
  · rename_i hline
    split at h
    · rename_i hblock
      rw [Option.some.injEq, Option.map_eq_none_iff] at h
      have hstart : offset + 2 = 1 + (offset + 1) := by omega
      rw [literals_block hline hblock, hstart, afterBlock?_shift, h]
      rfl
    · cases h

theorem literals_passed {r : Char × Nat} (h : passedComment? before c t = some (some r)) :
    literals missing nested before offset (c :: t) =
      literals missing nested (some r.1) (offset + 1 + r.2) (t.drop r.2) := by
  unfold passedComment? at h
  split at h
  · rename_i hline
    rw [Option.some.injEq, Option.map_eq_some_iff] at h
    rcases h with ⟨⟨stop, rest⟩, hstop, rfl⟩
    rcases afterLine?_eq_drop hstop with ⟨n, rfl, rfl⟩
    rw [literals_line hline, ← Nat.zero_add (offset + 1), afterLine?_shift, hstop]
    dsimp only [Option.map_some]
    rw [Nat.zero_add, Nat.zero_add, Nat.add_comm n]
  · rename_i hline
    split at h
    · rename_i hblock
      rw [Option.some.injEq, Option.map_eq_some_iff] at h
      rcases h with ⟨⟨stop, rest⟩, hstop, rfl⟩
      rcases afterBlock?_eq_drop hstop with ⟨n, rfl, rfl⟩
      have hstart : offset + 2 = 1 + (offset + 1) := by omega
      rw [literals_block hline hblock, hstart, afterBlock?_shift, hstop]
      dsimp only [Option.map_some]
      rw [List.drop_tail, Nat.add_comm n 1, Nat.add_comm (1 + n)]
    · cases h

theorem literals_of_none (hcomment : passedComment? before c t = none)
    (h : literal missing offset (c :: t) = .ok none) :
    literals missing nested before offset (c :: t) =
      literals missing nested (some c) (offset + 1) t := by
  rcases passedComment?_eq_none_iff.mp hcomment with ⟨hline, hblock⟩
  rw [literals, if_neg hline, if_neg hblock, h]
  rfl

def innerLiterals (nested : Bool) (offset : Nat) (l : Literal Nat) (t : Text) :
    Except SourceFault (List (List (Literal Nat))) :=
  if nested then
    l.interpolations.mapM fun span =>
      literals 0 nested (some '{') span.1 ((t.drop (span.1 - offset - 1)).take (span.2 - span.1))
  else .ok []

theorem literals_of_some {l : Literal Nat} (hcomment : passedComment? before c t = none)
    (h : literal missing offset (c :: t) = .ok (some l)) :
    literals missing nested before offset (c :: t) =
      (innerLiterals nested offset l t >>= fun inner =>
        literals missing nested (some c) l.stop (t.drop (l.stop - offset - 1)) >>= fun later =>
          .ok (l :: inner.flatten ++ later)) := by
  rcases passedComment?_eq_none_iff.mp hcomment with ⟨hline, hblock⟩
  rw [literals, if_neg hline, if_neg hblock, h]
  unfold innerLiterals
  cases nested <;> rfl

theorem exists_of_mem_innerLiterals {l : Literal Nat} {inner : List (List (Literal Nat))}
    (h : innerLiterals nested offset l t = .ok inner) :
    ∀ ms ∈ inner, ∃ span ∈ l.interpolations, literals 0 nested (some '{') span.1
      ((t.drop (span.1 - offset - 1)).take (span.2 - span.1)) = .ok ms := by
  unfold innerLiterals at h
  split at h
  · exact Except.exists_of_mem_mapM h
  · cases h
    exact fun _ hms => absurd hms List.not_mem_nil

end Steps

/--
What is read behind a character: nothing, what a later part of the text holds, or a
literal, the literals in its expressions, and those behind it.
-/
theorem literals_cases {missing offset : Nat} {nested : Bool} {before : Option Char} {c : Char}
    {t : Text} {ls : List (Literal Nat)}
    (h : literals missing nested before offset (c :: t) = .ok ls) :
    ls = [] ∨
      (∃ before' n, literals missing nested before' (offset + 1 + n) (t.drop n) = .ok ls) ∨
      ∃ l inner later, ls = l :: inner ++ later ∧
        literal missing offset (c :: t) = .ok (some l) ∧
        (∀ m ∈ inner, ∃ span ∈ l.interpolations, ∃ ms,
          literals 0 nested (some '{') span.1
            ((t.drop (span.1 - offset - 1)).take (span.2 - span.1)) = .ok ms ∧ m ∈ ms) ∧
        literals missing nested (some c) l.stop (t.drop (l.stop - offset - 1)) = .ok later := by
  cases hcomment : passedComment? before c t with
  | some passed =>
      cases passed with
      | none =>
          rw [literals_open hcomment] at h
          cases h
          exact .inl rfl
      | some r =>
          rw [literals_passed hcomment] at h
          exact .inr (.inl ⟨_, r.2, h⟩)
  | none =>
      cases hfound : literal missing offset (c :: t) with
      | error fault =>
          rcases passedComment?_eq_none_iff.mp hcomment with ⟨hline, hblock⟩
          rw [literals, if_neg hline, if_neg hblock, hfound] at h
          cases h
      | ok found =>
          cases found with
          | none =>
              rw [literals_of_none hcomment hfound] at h
              exact .inr (.inl ⟨_, 0, h⟩)
          | some l =>
              rw [literals_of_some hcomment hfound] at h
              rcases Except.bind_eq_ok.mp h with ⟨inner, hinner, h⟩
              rcases Except.bind_eq_ok.mp h with ⟨later, hlater, h⟩
              cases h
              refine .inr (.inr ⟨l, inner.flatten, later, rfl, rfl, ?_, hlater⟩)
              intro m hm
              rcases List.mem_flatten.mp hm with ⟨ms, hms, hm⟩
              rcases exists_of_mem_innerLiterals hinner ms hms with ⟨span, hspan, hread⟩
              exact ⟨span, hspan, ms, hread, hm⟩

theorem read_of_mem_literals {source : Text} {missing offset : Nat} {nested : Bool}
    {before : Option Char} {t : Text} {ls : List (Literal Nat)} (hat : HasAt source offset t)
    (h : literals missing nested before offset t = .ok ls) :
    ∀ l ∈ ls, ∃ missing' c u, HasAt source l.start (c :: u) ∧
      literal missing' l.start (c :: u) = .ok (some l) := by
  induction hn : t.length using Nat.strong_induction_on generalizing missing offset before t ls with
  | _ length ih =>
      subst hn
      cases t with
      | nil =>
          rw [literals] at h
          split at h
          · cases h
            exact fun _ hm => absurd hm List.not_mem_nil
          · cases h
      | cons c t =>
          intro m hm
          rcases literals_cases h with rfl | ⟨before', n, hlater⟩ |
            ⟨l, inner, later, rfl, hliteral, hinner, hlater⟩
          · exact absurd hm List.not_mem_nil
          · exact ih _ (length_drop_lt c t n) (hat.tail.drop n) hlater rfl m hm
          · rcases literal_spec hliteral with ⟨rfl, hstop, -, hspans⟩
            rcases List.mem_append.mp hm with hm | hm
            · rcases List.mem_cons.mp hm with rfl | hm
              · exact ⟨missing, c, t, hat, hliteral⟩
              · rcases hinner m hm with ⟨span, hspan, ms, hread, hm⟩
                have hle := hspans span hspan
                have hspan := (hat.dropTo hle).ofPrefix (List.take_prefix (span.2 - span.1) _)
                exact ih _ (length_take_drop_lt c t _ _) hspan hread rfl m hm
            · exact ih _ (length_drop_lt c t _) (hat.dropTo hstop) hlater rfl m hm

theorem hasAt_of_mem_literals {source : Text} {missing offset : Nat} {nested : Bool}
    {before : Option Char} {t : Text} {ls : List (Literal Nat)} (hat : HasAt source offset t)
    (h : literals missing nested before offset t = .ok ls) :
    ∀ l ∈ ls, HasAt source l.contentStart l.text := by
  intro l hl
  rcases read_of_mem_literals hat h l hl with ⟨missing', c, u, hread, hliteral⟩
  exact hread.tail.ofPrefix (literal_spec hliteral).2.2.1

end Scan

/-!
## Windows
-/

namespace Window

open Source (HasAt)

section InSource

variable {source : Text} {w : Window}

theorem IsIn.skipBlanks (h : w.IsIn source) : w.skipBlanks.IsIn source :=
  h.drop _

theorem IsIn.strip (h : w.IsIn source) : w.strip.IsIn source :=
  h.skipBlanks.take _

theorem IsIn.body? {body : Window} (h : w.IsIn source) (hbody : w.body? = some body) :
    body.IsIn source := by
  rcases Option.map_eq_some_iff.mp hbody with ⟨close, -, rfl⟩
  exact (h.drop _).take _

theorem IsIn.literal? {l : Literal Nat} (h : w.IsIn source) (hl : w.literal? = some l) :
    HasAt source l.contentStart l.text := by
  have hread : Scan.literal 0 w.start w.text = .ok (some l) := Scan.eq_ok_of_found hl
  unfold IsIn at h
  cases htext : w.text with
  | nil =>
      rw [htext] at hread
      cases hread
  | cons c t =>
      rw [htext] at hread h
      rcases Scan.literal_spec hread with ⟨hstart, -, hprefix, -⟩
      rw [Literal.contentStart, hstart]
      exact h.tail.ofPrefix hprefix

theorem IsIn.literals {nested : Bool} (h : w.IsIn source) :
    ∀ l ∈ w.literals nested, HasAt source l.contentStart l.text := by
  unfold Window.literals
  split
  · rename_i ls hread
    exact Scan.hasAt_of_mem_literals h hread
  · exact fun _ hl => absurd hl List.not_mem_nil

end InSource

end Window
end DesignTokens
