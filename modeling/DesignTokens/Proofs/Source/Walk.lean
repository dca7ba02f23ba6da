import DesignTokens.Proofs.Source.Extent

/-!
# The walk over a source

The search for literals walks over a source from one place to the next: behind a comment,
behind a literal, or behind any other character. Outside of the literals that it finds,
every quote stands in a comment or begins no literal.
-/

namespace DesignTokens
namespace Source

/-!
## Comments
-/

/-- Where a comment ends: one past the first end mark from `a` on, or at the limit. -/
inductive StopsBehind (source : Text) (limit : Nat) (mark : Text) (a : Nat) : Nat → Prop where
  | mark {n : Nat} : a ≤ n → n + mark.length ≤ limit → HasAt source n mark →
      (∀ k, a ≤ k → k < n → ¬ HasAt source k mark) →
        StopsBehind source limit mark a (n + mark.length)
  | limit : (∀ k, a ≤ k → k + mark.length ≤ limit → ¬ HasAt source k mark) →
      StopsBehind source limit mark a limit

/--
A comment from `a` to `e`. Two slashes directly behind a colon are part of an address and
begin no comment.
-/
inductive IsComment (source : Text) (limit a e : Nat) : Prop where
  | line : a + 2 ≤ limit → HasAt source a ['/', '/'] → Window.charBefore? source a ≠ some ':' →
      StopsBehind source limit ['\n'] a e → IsComment source limit a e
  | block : a + 2 ≤ limit → HasAt source a ['/', '*'] →
      StopsBehind source limit ['*', '/'] (a + 2) e → IsComment source limit a e

section Comments

variable {source mark : Text} {limit a e n : Nat} {c d : Char}

theorem hasAt_singleton_iff : HasAt source a [c] ↔ source[a]? = some c := by
  refine ⟨HasAt.getElem?, fun h => ?_⟩
  rcases List.getElem?_eq_some_iff.mp h with ⟨ha, rfl⟩
  exact ⟨_, (List.drop_eq_getElem_cons ha).symm⟩

theorem hasAt_pair_iff : HasAt source a [c, d] ↔ source[a]? = some c ∧ source[a + 1]? = some d := by
  refine ⟨fun h => ⟨h.getElem?, h.tail.getElem?⟩, fun ⟨hc, hd⟩ => ?_⟩
  rcases List.getElem?_eq_some_iff.mp hc with ⟨ha, rfl⟩
  rcases hasAt_singleton_iff.mpr hd with ⟨rest, hrest⟩
  refine ⟨rest, ?_⟩
  rw [List.drop_eq_getElem_cons ha, ← hrest]
  rfl

theorem exists_stopsBehind (source : Text) (limit : Nat) (mark : Text) (a : Nat) :
    ∃ e, StopsBehind source limit mark a e := by
  classical
  by_cases h : ∃ n, a ≤ n ∧ n + mark.length ≤ limit ∧ HasAt source n mark
  · have hfirst := Nat.find_spec h
    refine ⟨_, .mark hfirst.1 hfirst.2.1 hfirst.2.2 fun k hle hlt hmark => ?_⟩
    exact Nat.find_min h hlt ⟨hle, by omega, hmark⟩
  · exact ⟨limit, .limit fun k hle hk hmark => h ⟨k, hle, hk, hmark⟩⟩

theorem StopsBehind.le (h : StopsBehind source limit mark a e) (ha : a ≤ limit) :
    a ≤ e ∧ e ≤ limit := by
  cases h with
  | mark hle hlimit => exact ⟨by omega, hlimit⟩
  | limit => exact ⟨ha, Nat.le_refl limit⟩

theorem afterLine?_mark (hlimit : limit ≤ source.length) (hle : a ≤ n) (hn : n < limit)
    (hmark : source[n]? = some '\n') (hfirst : ∀ k, a ≤ k → k < n → source[k]? ≠ some '\n') :
    Scan.afterLine? a (Text.slice source a limit) =
      some (n + 1, Text.slice source (n + 1) limit) := by
  induction hk : n - a generalizing a with
  | zero =>
      obtain rfl : a = n := by omega
      rw [slice_at hlimit hn hmark, Scan.afterLine?, if_pos rfl]
  | succ k ih =>
      rcases Text.exists_slice_eq_cons (Nat.lt_of_le_of_lt hle hn) hlimit with ⟨c, hc, htext⟩
      have hne : c ≠ '\n' := fun heq => hfirst a (Nat.le_refl a) (by omega) (heq ▸ hc)
      rw [htext, Scan.afterLine?, if_neg hne]
      exact ih (by omega) (fun k hle => hfirst k (by omega)) (by omega)

theorem afterLine?_eq_none (hlimit : limit ≤ source.length)
    (h : ∀ k, a ≤ k → k < limit → source[k]? ≠ some '\n') :
    Scan.afterLine? a (Text.slice source a limit) = none := by
  induction hk : limit - a generalizing a with
  | zero =>
      rw [Text.slice_of_le (by omega)]
      rfl
  | succ k ih =>
      have hlt : a < limit := by omega
      rcases Text.exists_slice_eq_cons hlt hlimit with ⟨c, hc, htext⟩
      have hne : c ≠ '\n' := fun heq => h a (Nat.le_refl a) hlt (heq ▸ hc)
      rw [htext, Scan.afterLine?, if_neg hne]
      exact ih (fun k hle => h k (by omega)) (by omega)

theorem head?_slice_eq_some (hlimit : limit ≤ source.length) :
    (Text.slice source a limit).head? = some c ↔ a < limit ∧ source[a]? = some c := by
  constructor
  · intro h
    rcases List.head?_eq_some_iff.mp h with ⟨t, ht⟩
    rcases Text.slice_eq_cons ht with ⟨hlt, hc, -⟩
    exact ⟨hlt, hc⟩
  · rintro ⟨hlt, hc⟩
    rw [slice_at hlimit hlt hc]
    rfl

theorem pair_iff (hlimit : limit ≤ source.length) (hc : source[a]? = some c) {x y : Char} :
    c = x ∧ (Text.slice source (a + 1) limit).head? = some y ↔
      a + 2 ≤ limit ∧ HasAt source a [x, y] := by
  rw [head?_slice_eq_some hlimit, hasAt_pair_iff, hc, Option.some.injEq]
  tauto

theorem afterBlock?_mark (hlimit : limit ≤ source.length) (hle : a ≤ n) (hn : n + 2 ≤ limit)
    (hmark : HasAt source n ['*', '/'])
    (hfirst : ∀ k, a ≤ k → k < n → ¬ HasAt source k ['*', '/']) :
    Scan.afterBlock? a (Text.slice source a limit) =
      some (n + 2, Text.slice source (n + 2) limit) := by
  induction hk : n - a generalizing a with
  | zero =>
      obtain rfl : a = n := by omega
      have hc := (hasAt_pair_iff.mp hmark).1
      rw [slice_at hlimit (by omega) hc, Scan.afterBlock?,
        if_pos ((pair_iff hlimit hc).mpr ⟨hn, hmark⟩), ← List.drop_one, Text.drop_slice]
  | succ k ih =>
      have hlt : a < limit := by omega
      rcases Text.exists_slice_eq_cons hlt hlimit with ⟨c, hc, htext⟩
      have hne := hfirst a (Nat.le_refl a) (by omega)
      rw [htext, Scan.afterBlock?, if_neg fun h => hne ((pair_iff hlimit hc).mp h).2]
      exact ih (by omega) (fun k hle => hfirst k (by omega)) (by omega)

theorem afterBlock?_eq_none (hlimit : limit ≤ source.length)
    (h : ∀ k, a ≤ k → k + 2 ≤ limit → ¬ HasAt source k ['*', '/']) :
    Scan.afterBlock? a (Text.slice source a limit) = none := by
  induction hk : limit - a generalizing a with
  | zero =>
      rw [Text.slice_of_le (by omega)]
      rfl
  | succ k ih =>
      have hlt : a < limit := by omega
      rcases Text.exists_slice_eq_cons hlt hlimit with ⟨c, hc, htext⟩
      rw [htext, Scan.afterBlock?, if_neg fun hpair =>
        have hmark := (pair_iff hlimit hc).mp hpair
        h a (Nat.le_refl a) hmark.1 hmark.2]
      exact ih (fun k hle => h k (by omega)) (by omega)

end Comments

/-!
## Steps of the walk
-/

def row (source : Text) (nested : Bool) (limit a : Nat) : List (Literal Nat) :=
  (Window.between source a limit).literals nested

section Walk

variable {source : Text} {nested : Bool} {limit a e : Nat} {l : Literal Nat}

theorem literals_slice (source : Text) (nested : Bool) (limit a : Nat) :
    Scan.literals 0 nested (Window.charBefore? source a) a (Text.slice source a limit) =
      .ok (row source nested limit a) :=
  (Window.between source a limit).literals_eq nested

theorem row_limit (h : limit ≤ a) : row source nested limit a = [] := by
  have hread := literals_slice source nested limit a
  rw [Text.slice_of_le h, Scan.literals_nil] at hread
  exact (Except.ok.inj hread).symm

theorem row_comment (hlimit : limit ≤ source.length) (h : IsComment source limit a e) :
    row source nested limit a = row source nested limit e := by
  have hread := literals_slice source nested limit a
  have hstop := literals_slice source nested limit e
  cases h with
  | line hle hat hbefore h =>
      have hc := (hasAt_pair_iff.mp hat).1
      have hpair := (pair_iff hlimit hc).mpr ⟨hle, hat⟩
      rw [slice_at hlimit (by omega) hc, Scan.literals_line ⟨hpair.1, hpair.2, hbefore⟩] at hread
      cases h with
      | @mark n han hn hmark hfirst =>
          rw [hasAt_singleton_iff] at hmark
          have hne : a ≠ n := by
            rintro rfl
            rw [hc] at hmark
            cases hmark
          rw [afterLine?_mark (n := n) hlimit (by omega) hn hmark fun k hle hlt h =>
            hfirst k (by omega) hlt (hasAt_singleton_iff.mpr h)] at hread
          change Scan.literals 0 nested source[n]? _ _ = _ at hstop
          rw [hmark] at hstop
          exact Except.ok.inj (hread.symm.trans hstop)
      | limit hnone =>
          rw [afterLine?_eq_none hlimit fun k hle hlt h =>
            hnone k (by omega) hlt (hasAt_singleton_iff.mpr h)] at hread
          rw [row_limit (Nat.le_refl limit)]
          exact (Except.ok.inj hread).symm
  | block hle hat h =>
      have hc := (hasAt_pair_iff.mp hat).1
      have hpair := (pair_iff hlimit hc).mpr ⟨hle, hat⟩
      have hline : ¬ ('/' = '/' ∧ (Text.slice source (a + 1) limit).head? = some '/' ∧
          Window.charBefore? source a ≠ some ':') := by
        rintro ⟨-, hhead, -⟩
        rw [hpair.2] at hhead
        cases hhead
      rw [slice_at hlimit (by omega) hc, Scan.literals_block hline hpair, ← List.drop_one,
        Text.drop_slice] at hread
      cases h with
      | @mark n han hn hmark hfirst =>
          rw [afterBlock?_mark (n := n) hlimit han hn hmark hfirst] at hread
          change Scan.literals 0 nested source[n + 1]? _ _ = _ at hstop
          rw [(hasAt_pair_iff.mp hmark).2] at hstop
          exact Except.ok.inj (hread.symm.trans hstop)
      | limit hnone =>
          rw [afterBlock?_eq_none hlimit hnone] at hread
          rw [row_limit (Nat.le_refl limit)]
          exact (Except.ok.inj hread).symm

theorem IsComment.lt (h : IsComment source limit a e) : a < e ∧ e ≤ limit := by
  cases h with
  | line hle hat _ h =>
      cases h with
      | @mark n han hn hmark hfirst => exact ⟨Nat.lt_succ_of_le han, hn⟩
      | limit => exact ⟨by omega, Nat.le_refl limit⟩
  | block hle hat h =>
      have := h.le hle
      omega

theorem passedComment?_of_not_comment (hlimit : limit ≤ source.length) {c : Char}
    (hc : source[a]? = some c) (h : ∀ e, ¬ IsComment source limit a e) :
    Scan.passedComment? (Window.charBefore? source a) c (Text.slice source (a + 1) limit) =
      none := by
  refine Scan.passedComment?_eq_none_iff.mpr ⟨?_, ?_⟩
  · rintro ⟨hslash, hhead, hbefore⟩
    rcases (pair_iff hlimit hc).mp ⟨hslash, hhead⟩ with ⟨hle, hat⟩
    rcases exists_stopsBehind source limit ['\n'] a with ⟨e, he⟩
    exact h e (.line hle hat hbefore he)
  · rintro ⟨hslash, hhead⟩
    rcases (pair_iff hlimit hc).mp ⟨hslash, hhead⟩ with ⟨hle, hat⟩
    rcases exists_stopsBehind source limit ['*', '/'] (a + 2) with ⟨e, he⟩
    exact h e (.block hle hat he)

theorem row_character (hlimit : limit ≤ source.length) (hlt : a < limit)
    (hcomment : ∀ e, ¬ IsComment source limit a e) (hnone : literal? source limit a = none) :
    row source nested limit a = row source nested limit (a + 1) := by
  rcases Text.exists_slice_eq_cons hlt hlimit with ⟨c, hc, htext⟩
  have hpassed := passedComment?_of_not_comment hlimit hc hcomment
  have hread := literals_slice source nested limit a
  have hstop := literals_slice source nested limit (a + 1)
  have hliteral := literal_slice source limit a
  rw [htext, hnone] at hliteral
  rw [htext, Scan.literals_of_none hpassed hliteral] at hread
  change Scan.literals 0 nested source[a]? _ _ = _ at hstop
  rw [hc] at hstop
  exact Except.ok.inj (hread.symm.trans hstop)

theorem charBefore?_eq (h : 0 < a) : Window.charBefore? source a = source[a - 1]? := by
  cases a with
  | zero => exact absurd h (Nat.lt_irrefl 0)
  | succ n => rfl

def inner (source : Text) (l : Literal Nat) : List (Literal Nat) :=
  l.interpolations.flatMap fun span => row source true span.2 span.1

/-- A literal is followed by those in its expressions, and the walk goes on behind it. -/
theorem row_literal (hlimit : limit ≤ source.length)
    (hcomment : ∀ e, ¬ IsComment source limit a e) (h : literal? source limit a = some l) :
    row source nested limit a =
      l :: (if nested then inner source l else []) ++ row source nested limit l.stop := by
  have hl := (literal?_eq_some_iff hlimit).mp h
  have hle := hl.le
  have hstop := Int.ofNat_le.mp hl.le_limit
  have hlt : a < limit := by omega
  rcases Text.exists_slice_eq_cons hlt hlimit with ⟨c, hc, htext⟩
  have hpassed := passedComment?_of_not_comment hlimit hc hcomment
  have hread := literals_slice source nested limit a
  have hliteral := literal_slice source limit a
  rw [htext, h] at hliteral
  have hinner : Scan.innerLiterals nested a l (Text.slice source (a + 1) limit) =
      .ok (if nested then l.interpolations.map fun span => row source true span.2 span.1
        else []) := by
    unfold Scan.innerLiterals
    cases nested with
    | false => rfl
    | true =>
        rw [if_pos rfl, if_pos rfl, Except.mapM_eq_ok_iff, List.forall₂_map_right_iff,
          List.forall₂_same]
        intro span hspan
        rcases hl.span hspan with ⟨hstart, -, hend, hbrace⟩
        have hoffset : span.1 - a - 1 = span.1 - (a + 1) := by omega
        rw [hoffset, Text.slice_slice source (by omega) (by omega), ← hbrace,
          ← charBefore?_eq (by omega)]
        exact literals_slice source true span.2 span.1
  have hlater : Scan.literals 0 nested (some c) l.stop
      ((Text.slice source (a + 1) limit).drop (l.stop - a - 1)) =
        .ok (row source nested limit l.stop) := by
    have hoffset : a + 1 + (l.stop - a - 1) = l.stop := by omega
    have hbefore : Window.charBefore? source l.stop = some c := by
      rw [charBefore?_eq (by omega), hl.last, ← hl.first, hc]
    rw [Text.drop_slice, hoffset, ← hbefore]
    exact literals_slice source nested limit l.stop
  rw [htext, Scan.literals_of_some hpassed hliteral, hinner, Except.ok_bind, hlater,
    Except.ok_bind, Except.ok.injEq] at hread
  rw [← hread]
  cases nested <;> rfl

/-- What holds at the limit and is carried back over every step of the walk holds everywhere. -/
theorem walk_induction (hlimit : limit ≤ source.length) {motive : Nat → Prop}
    (stop : ∀ a, limit ≤ a → motive a)
    (comment : ∀ a e, IsComment source limit a e → motive e → motive a)
    (literal : ∀ a l, (∀ e, ¬ IsComment source limit a e) → literal? source limit a = some l →
      IsLiteralAt source limit a l → motive l.stop → motive a)
    (character : ∀ a, a < limit → (∀ e, ¬ IsComment source limit a e) →
      literal? source limit a = none → motive (a + 1) → motive a) (a : Nat) : motive a := by
  induction hk : limit - a using Nat.strong_induction_on generalizing a with
  | _ k ih =>
      subst hk
      rcases Nat.lt_or_ge a limit with hlt | hle
      · by_cases hcomment : ∃ e, IsComment source limit a e
        · rcases hcomment with ⟨e, he⟩
          have := he.lt
          exact comment a e he (ih _ (by omega) e rfl)
        · rw [not_exists] at hcomment
          cases hread : literal? source limit a with
          | none => exact character a hlt hcomment hread (ih _ (by omega) (a + 1) rfl)
          | some l =>
              have hl := (literal?_eq_some_iff hlimit).mp hread
              have := hl.le
              exact literal a l hcomment hread hl (ih _ (by omega) l.stop rfl)
      · exact stop a hle

end Walk

/-- The walk from `a` comes to `b`: it goes on behind a comment, a literal, or a character. -/
inductive Walks (source : Text) (limit : Nat) : (a b : Nat) → Prop where
  | here (a : Nat) : Walks source limit a a
  | comment {a b e : Nat} : IsComment source limit a e → Walks source limit e b →
      Walks source limit a b
  | literal {a b stop : Nat} {l : Literal Int} : (∀ e, ¬ IsComment source limit a e) →
      literalAt source a limit = .ok (some l) → l.stop = stop → Walks source limit stop b →
        Walks source limit a b
  | character {a b : Nat} : a < limit → (∀ e, ¬ IsComment source limit a e) →
      literalAt source a limit = .ok none → Walks source limit (a + 1) b → Walks source limit a b

/-- The walk from `a` skips a comment in which the character at `k` stands. -/
def Skips (source : Text) (limit a k : Nat) : Prop :=
  ∃ b e, Walks source limit a b ∧ IsComment source limit b e ∧ b ≤ k ∧ k < e

section Outer

variable {source : Text} {limit a k : Nat}

theorem mem_row (hlimit : limit ≤ source.length) :
    ∀ l ∈ row source false limit a, a ≤ l.start ∧ IsLiteralAt source limit l.start l := by
  induction a using walk_induction hlimit with
  | stop a hle =>
      rw [row_limit hle]
      nofun
  | comment a e he ih =>
      rw [row_comment hlimit he]
      intro l hl
      have := he.lt
      exact ⟨by have := (ih l hl).1; omega, (ih l hl).2⟩
  | literal a m hcomment hread hm ih =>
      rw [row_literal hlimit hcomment hread]
      intro l hl
      rcases List.mem_cons.mp hl with rfl | hl
      · rw [hm.start]
        exact ⟨Nat.le_refl a, hm⟩
      · have := hm.le
        exact ⟨by have := (ih l hl).1; omega, (ih l hl).2⟩
  | character a hlt hcomment hnone ih =>
      rw [row_character hlimit hlt hcomment hnone]
      intro l hl
      exact ⟨Nat.le_of_succ_le (ih l hl).1, (ih l hl).2⟩

theorem pairwise_row (hlimit : limit ≤ source.length) :
    (row source false limit a).Pairwise fun l m => l.stop ≤ m.start := by
  induction a using walk_induction hlimit with
  | stop a hle =>
      rw [row_limit hle]
      exact .nil
  | comment a e he ih =>
      rw [row_comment hlimit he]
      exact ih
  | literal a l hcomment hread hl ih =>
      rw [row_literal hlimit hcomment hread]
      exact .cons (fun m hm => (mem_row hlimit m hm).1) ih
  | character a hlt hcomment hnone ih =>
      rw [row_character hlimit hlt hcomment hnone]
      exact ih

/-- Outside of the literals that the walk finds, every literal would begin in a comment. -/
theorem skips_or_literal?_eq_none (hlimit : limit ≤ source.length) (hle : a ≤ k) (hlt : k < limit)
    (hout : ∀ l ∈ row source false limit a, ¬ (l.start ≤ k ∧ k < l.stop)) :
    Skips source limit a k ∨ literal? source limit k = none := by
  induction a using walk_induction hlimit with
  | stop a hend => omega
  | comment a e he ih =>
      rw [row_comment hlimit he] at hout
      rcases Nat.lt_or_ge k e with hke | hek
      · exact .inl ⟨a, e, .here a, he, hle, hke⟩
      · rcases ih hek hout with ⟨b, e', hb, hskip⟩ | hnone
        · exact .inl ⟨b, e', .comment he hb, hskip⟩
        · exact .inr hnone
  | literal a l hcomment hread hl ih =>
      rw [row_literal hlimit hcomment hread] at hout
      have hbehind : l.stop ≤ k := by
        have := hout l List.mem_cons_self
        rw [hl.start] at this
        omega
      rcases ih hbehind fun m hm => hout m (List.mem_cons_of_mem l hm) with
        ⟨b, e', hb, hskip⟩ | hnone
      · have hliteral := literalAt_eq_literal? hlimit a
        rw [hread] at hliteral
        exact .inl ⟨b, e', .literal hcomment hliteral rfl hb, hskip⟩
      · exact .inr hnone
  | character a hlt' hcomment hnone ih =>
      rw [row_character hlimit hlt' hcomment hnone] at hout
      rcases Nat.eq_or_lt_of_le hle with rfl | hbehind
      · exact .inr hnone
      · rcases ih hbehind hout with ⟨b, e', hb, hskip⟩ | hnone'
        · have hliteral := literalAt_eq_literal? hlimit a
          rw [hnone] at hliteral
          exact .inl ⟨b, e', .character hlt' hcomment hliteral hb, hskip⟩
        · exact .inr hnone'

end Outer

end Source
end DesignTokens
