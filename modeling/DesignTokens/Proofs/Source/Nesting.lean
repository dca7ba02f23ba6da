import DesignTokens.Proofs.Source.Look
import DesignTokens.Proofs.Source.Reading

/-!
# Nested brackets

The scan for the end of a bracket keeps the closing brackets that it waits for. An opening
bracket that it comes to is closed before the bracket from which it started, where a scan
from that opening bracket ends as well. So the stretches between brackets and their ends
are nested or apart from each other.
-/

namespace DesignTokens
namespace Scan

variable {missing offset : Nat} {c : Char} {t : Text} {l : Literal Nat}

theorem literalStop_of_some (h : literal missing offset (c :: t) = .ok (some l)) :
    literalStop missing offset c t = .ok (some l.stop) := by
  rw [literal] at h
  unfold literalStop
  split at h
  · rename_i hquote
    rcases map_eq_found h with ⟨r, hstop, rfl⟩
    rw [if_pos hquote, hstop]
    rfl
  · rename_i hquote
    split at h
    · rcases map_eq_found h with ⟨stop, hstop, rfl⟩
      rw [if_neg hquote, hstop]
    · cases h

theorem map_eq_none {α β : Type} {scan : Scan α} {f : α → β}
    (h : (scan.map fun found => found.map f) = .ok none) : scan = .ok none := by
  match scan, h with
  | .error _, h => cases h
  | .ok none, _ => rfl
  | .ok (some _), h => cases h

theorem literalStop_of_none (hquote : isQuote c = true)
    (h : literal missing offset (c :: t) = .ok none) :
    literalStop missing offset c t = .ok none := by
  rw [literal] at h
  unfold literalStop
  split at h
  · rename_i htick
    rw [if_pos htick, map_eq_none h]
    rfl
  · rename_i htick
    rw [if_neg htick, map_eq_none h]

end Scan

namespace Source

/-!
## Steps of the scan in its source
-/

def endFrom (source : Text) (limit : Nat) (top : Char) (below : List Char) (a : Nat) : Scan Nat :=
  Scan.closing 0 top below a (Text.slice source a limit)

section Steps

variable {source : Text} {limit a n : Nat} {top c d : Char} {below : List Char} {m : Literal Nat}

def literal? (source : Text) (limit a : Nat) : Option (Literal Nat) :=
  (Window.between source a limit).literal?

theorem literal_slice (source : Text) (limit a : Nat) :
    Scan.literal 0 a (Text.slice source a limit) = .ok (literal? source limit a) :=
  (Window.between source a limit).literal_eq

theorem exists_cons_of_literal? (h : literal? source limit a = some m) :
    ∃ quote, Scan.isQuote quote = true ∧ source[a]? = some quote ∧ a < m.stop ∧
      Text.slice source a limit = quote :: Text.slice source (a + 1) limit := by
  rcases Scan.exists_of_literal? h with ⟨hquote, -, hstop, rest, htext⟩
  rcases Text.slice_eq_cons htext with ⟨-, hchar, hrest⟩
  change Text.slice source a limit = _ at htext
  change m.stop = a + _ + 2 at hstop
  rw [hrest] at htext
  exact ⟨m.quote, hquote, hchar, by omega, htext⟩

theorem endFrom_limit (h : limit ≤ a) : endFrom source limit top below a = .ok none := by
  rw [endFrom, Text.slice_of_le h, Scan.closing.eq_def]
  rfl

theorem endFrom_literal (h : literal? source limit a = some m) :
    endFrom source limit top below a = endFrom source limit top below m.stop := by
  rcases exists_cons_of_literal? h with ⟨quote, hquote, -, hlt, htext⟩
  have hread := literal_slice source limit a
  rw [htext, h] at hread
  have hoffset : a + 1 + (m.stop - a - 1) = m.stop := by omega
  rw [endFrom, htext, Scan.closing_literal hquote (Scan.literalStop_of_some hread),
    Text.drop_slice, hoffset, endFrom]

theorem slice_at (hlimit : limit ≤ source.length) (hlt : a < limit) (hc : source[a]? = some c) :
    Text.slice source a limit = c :: Text.slice source (a + 1) limit := by
  rcases Text.exists_slice_eq_cons hlt hlimit with ⟨d, hd, htext⟩
  rw [hc, Option.some.injEq] at hd
  rw [htext, hd]

theorem endFrom_opener (hlimit : limit ≤ source.length) (hlt : a < limit)
    (hc : source[a]? = some c) (hopener : Scan.closer? c = some d) :
    endFrom source limit top below a = endFrom source limit d (top :: below) (a + 1) := by
  rw [endFrom, slice_at hlimit hlt hc,
    Scan.closing_opener (Scan.isQuote_eq_false_of_closer? hopener) hopener, endFrom]

theorem endFrom_other (hlimit : limit ≤ source.length) (hlt : a < limit)
    (hnone : literal? source limit a = none) (hc : source[a]? = some c)
    (hopener : Scan.closer? c = none) (hne : Scan.isQuote c = true ∨ c ≠ top) :
    endFrom source limit top below a = endFrom source limit top below (a + 1) := by
  have hread := literal_slice source limit a
  rw [slice_at hlimit hlt hc, hnone] at hread
  rw [endFrom, slice_at hlimit hlt hc]
  cases hquote : Scan.isQuote c with
  | true => rw [Scan.closing_quote hquote (Scan.literalStop_of_none hquote hread), endFrom]
  | false =>
      rw [hquote] at hne
      rw [Scan.closing_plain hquote hopener (hne.resolve_left Bool.false_ne_true), endFrom]

theorem endFrom_top {next : Char} (hlimit : limit ≤ source.length) (hlt : a < limit)
    (hc : source[a]? = some c) (hopener : Scan.closer? c = none) (hquote : Scan.isQuote c = false) :
    endFrom source limit c (next :: below) a = endFrom source limit next below (a + 1) := by
  rw [endFrom, slice_at hlimit hlt hc, Scan.closing_top hquote hopener, endFrom]

theorem endFrom_last (hlimit : limit ≤ source.length) (hlt : a < limit)
    (hc : source[a]? = some c) (hopener : Scan.closer? c = none) (hquote : Scan.isQuote c = false) :
    endFrom source limit c [] a = .ok (some a) := by
  rw [endFrom, slice_at hlimit hlt hc, Scan.closing_last hquote hopener]

theorem le_of_endFrom (h : endFrom source limit top below a = .ok (some n)) : a ≤ n :=
  (Scan.closing_spec h).1

theorem lt_of_endFrom (h : endFrom source limit top below a = .ok (some n)) : a < limit := by
  by_contra hle
  rw [endFrom_limit (Nat.le_of_not_lt hle)] at h
  cases h

/-- How a scan that ends at `n` goes on from `a`. -/
inductive EndStep (source : Text) (limit : Nat) (top : Char) (below : List Char) (a n : Nat) :
    Prop where
  | literal {m : Literal Nat} : literal? source limit a = some m →
      endFrom source limit top below m.stop = .ok (some n) → EndStep source limit top below a n
  | opener {c d : Char} : source[a]? = some c → Scan.closer? c = some d →
      endFrom source limit d (top :: below) (a + 1) = .ok (some n) →
        EndStep source limit top below a n
  | other {c : Char} : literal? source limit a = none → source[a]? = some c →
      Scan.closer? c = none → Scan.isQuote c = true ∨ c ≠ top →
        endFrom source limit top below (a + 1) = .ok (some n) → EndStep source limit top below a n
  | top {next : Char} {rest : List Char} : below = next :: rest → source[a]? = some top →
      Scan.closer? top = none → Scan.isQuote top = false →
        endFrom source limit next rest (a + 1) = .ok (some n) → EndStep source limit top below a n
  | last : below = [] → source[a]? = some top → Scan.closer? top = none →
      Scan.isQuote top = false → n = a → EndStep source limit top below a n

theorem endStep_of_endFrom (hlimit : limit ≤ source.length)
    (h : endFrom source limit top below a = .ok (some n)) : EndStep source limit top below a n := by
  have hlt := lt_of_endFrom h
  rcases Text.exists_slice_eq_cons hlt hlimit with ⟨c, hc, -⟩
  cases hread : literal? source limit a with
  | some m => exact .literal hread (endFrom_literal hread ▸ h)
  | none =>
      cases hopener : Scan.closer? c with
      | some d => exact .opener hc hopener (endFrom_opener hlimit hlt hc hopener ▸ h)
      | none =>
          by_cases hne : Scan.isQuote c = true ∨ c ≠ top
          · exact .other hread hc hopener hne (endFrom_other hlimit hlt hread hc hopener hne ▸ h)
          · rw [not_or, Bool.not_eq_true, not_not] at hne
            rcases hne with ⟨hquote, rfl⟩
            cases below with
            | nil =>
                rw [endFrom_last hlimit hlt hc hopener hquote] at h
                exact .last rfl hc hopener hquote (Option.some.inj (Except.ok.inj h)).symm
            | cons next rest =>
                exact .top rfl hc hopener hquote (endFrom_top hlimit hlt hc hopener hquote ▸ h)

end Steps

/-!
## Brackets inside of brackets
-/

section Frame

variable {source : Text} {limit a n : Nat} {top next : Char} {below rest : List Char}

/-- What is open inside of other brackets is closed before they are. -/
theorem endFrom_append (hlimit : limit ≤ source.length)
    (h : endFrom source limit top (below ++ next :: rest) a = .ok (some n)) :
    ∃ m, endFrom source limit top below a = .ok (some m) ∧ m < n ∧
      endFrom source limit next rest (m + 1) = .ok (some n) := by
  -- both scans do the same as long as one of the inner brackets is open
  induction hk : limit - a using Nat.strong_induction_on generalizing top below a with
  | _ k ih =>
      subst hk
      have hlt := lt_of_endFrom h
      cases endStep_of_endFrom hlimit h with
      | literal hread h =>
          rcases exists_cons_of_literal? hread with ⟨-, -, -, hbehind, -⟩
          rw [endFrom_literal hread]
          exact ih _ (by omega) h rfl
      | opener hc hopener h =>
          rw [endFrom_opener hlimit hlt hc hopener]
          rw [← List.cons_append] at h
          exact ih _ (by omega) h rfl
      | other hread hc hopener hne h =>
          rw [endFrom_other hlimit hlt hread hc hopener hne]
          exact ih _ (by omega) h rfl
      | top hbelow hc hopener hquote h =>
          cases below with
          | nil =>
              cases hbelow
              exact ⟨a, endFrom_last hlimit hlt hc hopener hquote, le_of_endFrom h, h⟩
          | cons inner below =>
              cases hbelow
              rw [endFrom_top hlimit hlt hc hopener hquote]
              exact ih _ (by omega) h rfl
      | last hbelow => exact absurd hbelow (by simp)

end Frame

/-!
## Closed brackets
-/

/--
What stands between a bracket and the one that closes it, from `a` to `b`: literals, other
brackets up to those that close them, and any other character than the one that closes it.
-/
inductive IsBody (source : Text) (limit : Int) : (closer : Char) → (a b : Nat) → Prop where
  | nil (closer : Char) (a : Nat) : IsBody source limit closer a a
  | literal {closer : Char} {a b stop : Nat} {l : Literal Int} :
      literalAt source a limit = .ok (some l) → l.stop = stop →
        IsBody source limit closer stop b → IsBody source limit closer a b
  | character {closer c : Char} {a b : Nat} : a < limit → literalAt source a limit = .ok none →
      source[a]? = some c → Scan.closer? c = none → c ≠ closer →
        IsBody source limit closer (a + 1) b → IsBody source limit closer a b
  | bracket {closer opener inner : Char} {a b m : Nat} : source[a]? = some opener →
      Scan.closer? opener = some inner → IsBody source limit inner (a + 1) m →
        source[m]? = some inner → m < limit → IsBody source limit closer (m + 1) b →
          IsBody source limit closer a b

structure IsClosedAt (source : Text) (limit : Int) (i c : Nat) : Prop where
  lt_limit : c < limit
  exists_body : ∃ opener closer, source[i]? = some opener ∧ Scan.closer? opener = some closer ∧
    source[c]? = some closer ∧ IsBody source limit closer (i + 1) c

section Closed

variable {source : Text} {limit a b c i n stop : Nat} {top : Char} {l : Literal Int}

theorem literalAt_eq_literal? (hlimit : limit ≤ source.length) (a : Nat) :
    literalAt source a limit = .ok ((literal? source limit a).map Literal.toInt) :=
  literalAt_eq hlimit

theorem literal?_of_some (hlimit : limit ≤ source.length)
    (h : literalAt source a limit = .ok (some l)) (hstop : l.stop = stop) :
    ∃ m, literal? source limit a = some m ∧ m.stop = stop := by
  rw [literalAt_eq_literal? hlimit, Except.ok.injEq, Option.map_eq_some_iff] at h
  rcases h with ⟨m, hm, rfl⟩
  exact ⟨m, hm, Int.ofNat.inj hstop⟩

theorem literal?_of_none (hlimit : limit ≤ source.length)
    (h : literalAt source a limit = .ok none) : literal? source limit a = none := by
  rw [literalAt_eq_literal? hlimit, Except.ok.injEq, Option.map_eq_none_iff] at h
  exact h

theorem IsBody.le (hlimit : limit ≤ source.length) (h : IsBody source limit top a b) : a ≤ b := by
  induction h with
  | nil => exact Nat.le_refl _
  | literal hread hstop _ ih =>
      rcases literal?_of_some hlimit hread hstop with ⟨m, hm, rfl⟩
      rcases exists_cons_of_literal? hm with ⟨-, -, -, hlt, -⟩
      omega
  | character _ _ _ _ _ _ ih => omega
  | bracket _ _ _ _ _ _ ih ih' => omega

/-- The scan for the end of a bracket gets over whatever can stand in its body. -/
theorem IsBody.endFrom (hlimit : limit ≤ source.length) (htop : Scan.IsCloser top)
    (h : IsBody source limit top a b) (below : List Char) :
    endFrom source limit top below a = endFrom source limit top below b := by
  induction h generalizing below with
  | nil => rfl
  | literal hread hstop _ ih =>
      rcases literal?_of_some hlimit hread hstop with ⟨m, hm, rfl⟩
      rw [endFrom_literal hm, ih htop]
  | character hlt hnone hc hopener hne _ ih =>
      rw [endFrom_other hlimit (Int.ofNat_lt.mp hlt) (literal?_of_none hlimit hnone) hc hopener
        (.inr hne), ih htop]
  | @bracket closer opener inner a b m hc hopener hinner hm hlt _ ih ih' =>
      have hcloser : Scan.IsCloser inner := ⟨opener, hopener⟩
      have hle := hinner.le hlimit
      have hm' : m < limit := Int.ofNat_lt.mp hlt
      rw [endFrom_opener hlimit (by omega) hc hopener, ih hcloser,
        endFrom_top hlimit hm' hm (Scan.closer?_eq_none_of_isCloser hcloser)
          (Scan.isQuote_eq_false_of_isCloser hcloser), ih' htop]

/-- Where the scan ends, it has come over a body to the bracket that it waits for. -/
theorem isBody_of_endFrom (hlimit : limit ≤ source.length) (htop : Scan.IsCloser top)
    (h : endFrom source limit top [] a = .ok (some n)) :
    IsBody source limit top a n ∧ source[n]? = some top ∧ n < limit := by
  induction hk : limit - a using Nat.strong_induction_on generalizing top a n with
  | _ k ih =>
      subst hk
      have hlt := lt_of_endFrom h
      have hliteral := literalAt_eq_literal? hlimit a
      cases endStep_of_endFrom hlimit h with
      | @literal m hread h =>
          rcases exists_cons_of_literal? hread with ⟨-, -, -, hbehind, -⟩
          rcases ih (limit - m.stop) (by omega) htop h rfl with ⟨hbody, hn⟩
          rw [hread] at hliteral
          exact ⟨.literal hliteral rfl hbody, hn⟩
      | @opener c d hc hopener h =>
          rw [← List.nil_append (top :: [])] at h
          rcases endFrom_append hlimit h with ⟨m, hinner, hmn, hrest⟩
          have hle := le_of_endFrom hinner
          rcases ih _ (by omega) ⟨c, hopener⟩ hinner rfl with ⟨hbody, hm, hlt'⟩
          rcases ih (limit - (m + 1)) (by omega) htop hrest rfl with ⟨hbody', hn⟩
          exact ⟨.bracket hc hopener hbody hm (Int.ofNat_lt.mpr hlt') hbody', hn⟩
      | @other c hread hc hopener hne h =>
          rcases ih _ (by omega) htop h rfl with ⟨hbody, hn⟩
          rw [hread] at hliteral
          refine ⟨.character (Int.ofNat_lt.mpr hlt) hliteral hc hopener ?_ hbody, hn⟩
          rintro rfl
          rw [Scan.isQuote_eq_false_of_isCloser htop] at hne
          exact hne.elim Bool.false_ne_true fun hne => hne rfl
      | top hbelow => cases hbelow
      | last _ hc _ _ hn =>
          subst hn
          exact ⟨.nil top n, hc, hlt⟩

end Closed

/-!
## Brackets that the scan opens
-/

/-- The scan from `a` comes to `b`: it skips literals as a whole and goes on behind others. -/
inductive Passes (source : Text) (limit : Int) : (a b : Nat) → Prop where
  | here (a : Nat) : Passes source limit a a
  | literal {a b stop : Nat} {l : Literal Int} : literalAt source a limit = .ok (some l) →
      l.stop = stop → Passes source limit stop b → Passes source limit a b
  | character {a b : Nat} : a < limit → literalAt source a limit = .ok none →
      Passes source limit (a + 1) b → Passes source limit a b

/-- The scan that begins behind the bracket at `i` and ends at `c` opens the bracket at `o`. -/
structure Opens (source : Text) (limit : Int) (i c o : Nat) : Prop where
  passes : Passes source limit (i + 1) o
  lt : o < c
  exists_opener : ∃ opener closer, source[o]? = some opener ∧ Scan.closer? opener = some closer

/-- The bracket at `i` ends at `c`, and all that is opened between them ends between them. -/
structure Nests (source : Text) (limit : Int) (i c : Nat) : Prop where
  lt : i < c
  lt_limit : c < limit
  exists_opener : ∃ opener closer, source[i]? = some opener ∧ Scan.closer? opener = some closer ∧
    source[c]? = some closer
  inner : ∀ o, Opens source limit i c o →
    ∃ d : Nat, closingAt source o limit = .ok (some (d : Int)) ∧ o < d ∧ d < c
  laminar : ∀ o p d e : Nat, Opens source limit i c o → Opens source limit i c p →
    closingAt source o limit = .ok (some (d : Int)) →
      closingAt source p limit = .ok (some (e : Int)) → o < p → d < p ∨ e < d

section Opened

variable {source : Text} {limit a b c i o : Nat} {top : Char} {below : List Char}

theorem Passes.le (hlimit : limit ≤ source.length) (h : Passes source limit a b) : a ≤ b := by
  induction h with
  | here => exact Nat.le_refl _
  | literal hread hstop _ ih =>
      rcases literal?_of_some hlimit hread hstop with ⟨m, hm, rfl⟩
      rcases exists_cons_of_literal? hm with ⟨-, -, -, hlt, -⟩
      omega
  | character _ _ _ ih => omega

theorem Passes.between (hlimit : limit ≤ source.length) (hb : Passes source limit a b)
    (hc : Passes source limit a c) (hle : b ≤ c) : Passes source limit b c := by
  induction hb with
  | here => exact hc
  | literal hread hstop hb ih =>
      refine ih ?_ hle
      cases hc with
      | here =>
          rcases literal?_of_some hlimit hread hstop with ⟨m, hm, rfl⟩
          rcases exists_cons_of_literal? hm with ⟨-, -, -, hlt, -⟩
          have := hb.le hlimit
          omega
      | literal hread' hstop' hc =>
          rw [hread, Except.ok.injEq, Option.some.injEq] at hread'
          rw [← hread', hstop] at hstop'
          rw [Int.ofNat.inj hstop']
          exact hc
      | character _ hnone _ =>
          rw [hread] at hnone
          cases hnone
  | character hlt hnone hb ih =>
      refine ih ?_ hle
      cases hc with
      | here =>
          have := hb.le hlimit
          omega
      | literal hread _ _ =>
          rw [hnone] at hread
          cases hread
      | character _ _ hc => exact hc

/-- At a place to which a scan comes before its end, it still waits for some bracket. -/
theorem Passes.endFrom (hlimit : limit ≤ source.length) (h : Passes source limit a b)
    (hend : endFrom source limit top below a = .ok (some c)) (hle : b ≤ c) :
    ∃ top' below', Source.endFrom source limit top' below' b = .ok (some c) := by
  induction h generalizing top below with
  | here => exact ⟨top, below, hend⟩
  | literal hread hstop _ ih =>
      rcases literal?_of_some hlimit hread hstop with ⟨m, hm, rfl⟩
      rw [endFrom_literal hm] at hend
      exact ih hend hle
  | @character a b hlt hnone hb ih =>
      cases endStep_of_endFrom hlimit hend with
      | literal hread _ =>
          rw [literal?_of_none hlimit hnone] at hread
          cases hread
      | opener _ _ hend => exact ih hend hle
      | other _ _ _ _ hend => exact ih hend hle
      | top _ _ _ _ hend => exact ih hend hle
      | last _ _ _ _ hn =>
          have := hb.le hlimit
          omega

theorem literal?_eq_none_of_closer? {d x : Char} (hx : source[a]? = some x)
    (hopener : Scan.closer? x = some d) : literal? source limit a = none := by
  cases hread : literal? source limit a with
  | none => rfl
  | some m =>
      rcases exists_cons_of_literal? hread with ⟨quote, hquote, hchar, -, -⟩
      rw [hx, Option.some.injEq] at hchar
      rw [← hchar, Scan.isQuote_eq_false_of_closer? hopener] at hquote
      cases hquote

theorem Passes.of_opener (hlimit : limit ≤ source.length) {d x : Char} (hx : source[a]? = some x)
    (hopener : Scan.closer? x = some d) (h : Passes source limit a b) (hlt : a < b) :
    Passes source limit (a + 1) b := by
  cases h with
  | here => exact absurd hlt (Nat.lt_irrefl a)
  | literal hread hstop _ =>
      rcases literal?_of_some hlimit hread hstop with ⟨m, hm, -⟩
      rw [literal?_eq_none_of_closer? hx hopener] at hm
      cases hm
  | character _ _ h => exact h

theorem closingAt_eq_some_iff (hlimit : limit ≤ source.length) :
    closingAt source i limit = .ok (some (c : Int)) ↔
      i < limit ∧ ∃ opener closer, source[i]? = some opener ∧
        Scan.closer? opener = some closer ∧
          Source.endFrom source limit closer [] (i + 1) = .ok (some c) := by
  have hfound : closingAt source i limit = .ok (some (c : Int)) ↔
      Scan.bracket 0 i (Text.slice source i limit) = .ok (some c) := by
    have hbracket := (Window.between source i limit).bracket_eq
    change Scan.bracket 0 i (Text.slice source i limit) = _ at hbracket
    rw [closingAt_eq hlimit, hbracket, Except.ok.injEq, Except.ok.injEq, Option.map_eq_some_iff]
    refine ⟨?_, fun h => ⟨c, h, rfl⟩⟩
    rintro ⟨n, hn, hcast⟩
    rw [hn, Int.ofNat.inj hcast]
  rw [hfound]
  by_cases hlt : i < limit
  · rcases Text.exists_slice_eq_cons hlt hlimit with ⟨x, hx, htext⟩
    rw [htext, Scan.bracket, hx]
    cases hopener : Scan.closer? x with
    | none =>
        refine ⟨fun h => absurd (Except.ok.inj h) (Option.some_ne_none c).symm, ?_⟩
        rintro ⟨-, _, _, ⟨⟩, hd, -⟩
        rw [hopener] at hd
        cases hd
    | some d =>
        refine ⟨fun h => ⟨hlt, x, d, rfl, hopener, h⟩, ?_⟩
        rintro ⟨-, _, _, ⟨⟩, he, h⟩
        rw [hopener, Option.some.injEq] at he
        rw [← he] at h
        exact h
  · rw [Text.slice_of_le (Nat.le_of_not_lt hlt)]
    exact ⟨fun h => absurd h (Scan.atEnd_ne_found 0 c), fun h => absurd h.1 hlt⟩

theorem closingAt_eq_some_iff_isClosedAt (hlimit : limit ≤ source.length) :
    closingAt source i limit = .ok (some (c : Int)) ↔ IsClosedAt source limit i c := by
  rw [closingAt_eq_some_iff hlimit]
  constructor
  · rintro ⟨-, opener, closer, hi, hopener, hend⟩
    rcases isBody_of_endFrom hlimit ⟨opener, hopener⟩ hend with ⟨hbody, hc, hlt⟩
    exact ⟨Int.ofNat_lt.mpr hlt, opener, closer, hi, hopener, hc, hbody⟩
  · rintro ⟨hlt, opener, closer, hi, hopener, hc, hbody⟩
    have hcloser : Scan.IsCloser closer := ⟨opener, hopener⟩
    have hlt := Int.ofNat_lt.mp hlt
    have hle := hbody.le hlimit
    refine ⟨by omega, opener, closer, hi, hopener, ?_⟩
    rw [hbody.endFrom hlimit hcloser, endFrom_last hlimit hlt hc
      (Scan.closer?_eq_none_of_isCloser hcloser) (Scan.isQuote_eq_false_of_isCloser hcloser)]

/-- A bracket that the scan opens ends before the scan does. -/
theorem Opens.exists_closingAt (hlimit : limit ≤ source.length)
    (hend : closingAt source i limit = .ok (some (c : Int))) (h : Opens source limit i c o) :
    ∃ d : Nat, closingAt source o limit = .ok (some (d : Int)) ∧ o < d ∧ d < c := by
  rcases (closingAt_eq_some_iff hlimit).mp hend with ⟨-, _, _, -, -, hscan⟩
  rcases h.exists_opener with ⟨x, closer, hx, hopener⟩
  rcases h.passes.endFrom hlimit hscan (Nat.le_of_lt h.lt) with ⟨top, below, hwaits⟩
  have hlt := lt_of_endFrom hwaits
  rw [endFrom_opener hlimit hlt hx hopener] at hwaits
  rw [← List.nil_append (top :: below)] at hwaits
  rcases endFrom_append hlimit hwaits with ⟨d, hinner, hdc, -⟩
  have hle := le_of_endFrom hinner
  exact ⟨d, (closingAt_eq_some_iff hlimit).mpr ⟨hlt, x, closer, hx, hopener, hinner⟩, hle, hdc⟩

theorem Opens.inside (hlimit : limit ≤ source.length) {p d : Nat} (ho : Opens source limit i c o)
    (hp : Opens source limit i c p) (hlt : o < p) (hd : p < d) : Opens source limit o d p := by
  rcases ho.exists_opener with ⟨x, closer, hx, hopener⟩
  have hpasses := ho.passes.between hlimit hp.passes (Nat.le_of_lt hlt)
  exact ⟨hpasses.of_opener hlimit hx hopener hlt, hd, hp.exists_opener⟩

theorem nests_of_closingAt (hlimit : limit ≤ source.length)
    (hend : closingAt source i limit = .ok (some (c : Int))) : Nests source limit i c := by
  rcases (closingAt_eq_some_iff_isClosedAt hlimit).mp hend with
    ⟨hlt, opener, closer, hi, hopener, hc, hbody⟩
  refine ⟨hbody.le hlimit, hlt, ⟨opener, closer, hi, hopener, hc⟩, fun o ho =>
    ho.exists_closingAt hlimit hend, ?_⟩
  intro o p d e ho hp hd he hop
  by_cases hpd : p < d
  · rcases (ho.inside hlimit hp hop hpd).exists_closingAt hlimit hd with ⟨e', he', -, hed⟩
    rw [he, Except.ok.injEq, Option.some.injEq] at he'
    exact .inr (Int.ofNat.inj he' ▸ hed)
  · -- where the bracket at `o` ends stands no opening bracket
    rcases (closingAt_eq_some_iff_isClosedAt hlimit).mp hd with ⟨-, x, closer, -, hx, hclose, -⟩
    rcases hp.exists_opener with ⟨y, inner, hy, hinner⟩
    refine .inl (Nat.lt_of_le_of_ne (Nat.le_of_not_lt hpd) ?_)
    rintro rfl
    rw [hy, Option.some.injEq] at hclose
    rw [hclose, Scan.closer?_eq_none_of_isCloser ⟨x, hx⟩] at hinner
    cases hinner

end Opened

/--
The search for the end of a bracket comes to an answer. It finds the end where what stands
behind the bracket makes its body, and then all brackets that it opens on its way end
before that, nested in each other or apart from each other.
-/
theorem closingAt_nests {source : Text} {limit : Int} (i : Nat) (hlimit : limit ≤ source.length) :
    ∃ found : Option Nat, closingAt source i limit = .ok (found.map fun n : Nat => (n : Int)) ∧
      ∀ c, (found = some c ↔ IsClosedAt source limit i c) ∧
        (found = some c → Nests source limit i c) := by
  by_cases hle : limit ≤ i
  · refine ⟨none, ?_, fun c => ⟨⟨nofun, fun h => ?_⟩, nofun⟩⟩
    · rw [closingAt, scanAt, if_pos hle]
      rfl
    · rcases h with ⟨hlt, _, _, -, -, -, hbody⟩
      lift limit to Nat using by omega
      have := hbody.le (Int.ofNat_le.mp hlimit)
      omega
  · lift limit to Nat using by omega
    have hlimit := Int.ofNat_le.mp hlimit
    refine ⟨_, closingAt_eq hlimit, fun c => ?_⟩
    have hfound : (Window.between source i limit).closing? = some c ↔
        closingAt source i limit = .ok (some (c : Int)) := by
      rw [closingAt_eq hlimit, Except.ok.injEq, Option.map_eq_some_iff]
      refine ⟨fun h => ⟨c, h, rfl⟩, ?_⟩
      rintro ⟨n, hn, hcast⟩
      rw [hn, Int.ofNat.inj hcast]
    rw [hfound]
    exact ⟨closingAt_eq_some_iff_isClosedAt hlimit, nests_of_closingAt hlimit⟩

theorem closingAt_nests_mixed :
    closingAt "\x7b(')'][x])\x7d".toList (0 : Nat) 11 = .ok (some (10 : Nat)) ∧
      Nests "\x7b(')'][x])\x7d".toList 11 0 10 := by
  have hclose : closingAt "\x7b(')'][x])\x7d".toList (0 : Nat) 11 = .ok (some (10 : Nat)) := by
    decide +kernel
  rcases @closingAt_nests "\x7b(')'][x])\x7d".toList 11 0 (by decide) with
    ⟨found, hfound, hnests⟩
  rw [hclose, Except.ok.injEq] at hfound
  rcases Option.map_eq_some_iff.mp hfound.symm with ⟨c, rfl, hc⟩
  exact ⟨hclose, Int.ofNat.inj hc ▸ (hnests c).2 rfl⟩

end Source
end DesignTokens
