import DesignTokens.Proofs.Source.Walk

/-!
# Literals in literals

With the literals in the expressions of other literals, the literals of a source are nested
in each other or apart from each other. Each of them is read up to the end of the innermost
expression around it, and those that are in no other literal are the ones that are found
when expressions are skipped.
-/

namespace DesignTokens
namespace Source

def IsInside (span : Nat × Nat) (m : Literal Nat) : Prop :=
  span.1 ≤ m.start ∧ m.stop ≤ span.2

/--
Up to where a literal is read among others: up to the limit if it lies in none of their
expressions, or else up to the end of the innermost expression around it.
-/
inductive IsWindowEnd (all : List (Literal Nat)) (limit : Nat) (m : Literal Nat) : Nat → Prop where
  | outer : (∀ l ∈ all, ∀ s ∈ l.interpolations, ¬ IsInside s m) → IsWindowEnd all limit m limit
  | inner {l : Literal Nat} {s : Nat × Nat} : l ∈ all → s ∈ l.interpolations → IsInside s m →
      (∀ l' ∈ all, ∀ s' ∈ l'.interpolations, IsInside s' m → s'.1 ≤ s.1 ∧ s.2 ≤ s'.2) →
        IsWindowEnd all limit m s.2

theorem eq_of_pairwise {α : Type} {R : α → α → Prop} {as : List α} {a b : α} (h : as.Pairwise R)
    (ha : a ∈ as) (hb : b ∈ as) (hab : ¬ R a b) (hba : ¬ R b a) : a = b := by
  induction h with
  | nil => cases ha
  | cons hhead _ ih =>
      rcases List.mem_cons.mp ha with rfl | ha'
      · rcases List.mem_cons.mp hb with rfl | hb'
        · rfl
        · exact absurd (hhead b hb') hab
      · rcases List.mem_cons.mp hb with rfl | hb'
        · exact absurd (hhead a ha') hba
        · exact ih ha' hb'

section Group

variable {source : Text} {limit a : Nat} {l m x : Literal Nat} {s t : Nat × Nat}

def group (source : Text) (l : Literal Nat) : List (Literal Nat) :=
  l :: inner source l

/-- The literals are those that are found when expressions are skipped, each with its group. -/
theorem row_nested (hlimit : limit ≤ source.length) (a : Nat) :
    row source true limit a = (row source false limit a).flatMap (group source) := by
  induction a using walk_induction hlimit with
  | stop a hle => rw [row_limit hle, row_limit hle, List.flatMap_nil]
  | comment a e he ih => rw [row_comment hlimit he, row_comment hlimit he, ih]
  | literal a l hcomment hread _ ih =>
      rw [row_literal hlimit hcomment hread, row_literal hlimit hcomment hread, ih]
      rfl
  | character a hlt hcomment hnone ih =>
      rw [row_character hlimit hlt hcomment hnone, row_character hlimit hlt hcomment hnone, ih]

theorem mem_row_nested (hlimit : limit ≤ source.length) :
    m ∈ row source true limit a ↔ ∃ l ∈ row source false limit a, m ∈ group source l := by
  rw [row_nested hlimit, List.mem_flatMap]

theorem mem_group : m ∈ group source l ↔
    m = l ∨ ∃ s ∈ l.interpolations, m ∈ row source true s.2 s.1 := by
  rw [group, List.mem_cons, inner, List.mem_flatMap]

/-- What holds of a window if it holds of the expressions in it holds of every window. -/
theorem window_induction {motive : (limit a : Nat) → limit ≤ source.length → Prop}
    (step : ∀ limit a hlimit,
      (∀ l ∈ row source false limit a, ∀ s ∈ l.interpolations, ∃ hs, motive s.2 s.1 hs) →
        motive limit a hlimit)
    (limit a : Nat) (hlimit : limit ≤ source.length) : motive limit a hlimit := by
  induction hk : limit - a using Nat.strong_induction_on generalizing limit a with
  | _ k ih =>
      subst hk
      refine step limit a hlimit fun l hl s hs => ?_
      rcases mem_row hlimit l hl with ⟨hstart, hread⟩
      rcases hread.span hs with ⟨hfirst, hle, hlast, -⟩
      have hstop := Int.ofNat_le.mp hread.le_limit
      exact ⟨by omega, ih _ (by omega) s.2 s.1 (by omega) rfl⟩

theorem exists_isLiteralAt (hlimit : limit ≤ source.length) :
    ∀ m ∈ row source true limit a,
      a ≤ m.start ∧ ∃ stop : Nat, stop ≤ limit ∧ IsLiteralAt source stop m.start m := by
  induction limit, a, hlimit using window_induction with
  | step limit a hlimit ih =>
      intro m hm
      rcases (mem_row_nested hlimit).mp hm with ⟨l, hl, hm⟩
      rcases mem_row hlimit l hl with ⟨hstart, hread⟩
      rcases mem_group.mp hm with rfl | ⟨s, hs, hm⟩
      · exact ⟨hstart, limit, Nat.le_refl limit, hread⟩
      · rcases hread.span hs with ⟨hfirst, hle, hlast, -⟩
        have hstop := Int.ofNat_le.mp hread.le_limit
        rcases ih l hl s hs with ⟨-, ih⟩
        rcases ih m hm with ⟨hle', stop, hwindow, hinner⟩
        exact ⟨by omega, stop, by omega, hinner⟩

theorem within_row (hlimit : limit ≤ source.length) (hm : m ∈ row source true limit a) :
    a ≤ m.start ∧ m.start < m.stop ∧ m.stop ≤ limit := by
  rcases exists_isLiteralAt hlimit m hm with ⟨hle, stop, hstop, hread⟩
  have := hread.le
  have := Int.ofNat_le.mp hread.le_limit
  omega

theorem span_row (hlimit : limit ≤ source.length) (hm : m ∈ row source true limit a)
    (hs : s ∈ m.interpolations) : m.start < s.1 ∧ s.2 < m.stop := by
  rcases exists_isLiteralAt hlimit m hm with ⟨-, stop, -, hread⟩
  have := hread.span hs
  omega

/-!
## The order of the literals
-/

theorem span_group {limit : Int} (hlimit : limit ≤ source.length)
    (hl : IsLiteralAt source limit a l) (hs : s ∈ l.interpolations)
    (hm : m ∈ row source true s.2 s.1) :
    IsInside s m ∧ l.start < m.start ∧ m.start < m.stop ∧ m.stop < l.stop := by
  rcases hl.span hs with ⟨hfirst, -, hlast, -⟩
  have hstart := hl.start
  have hstop := hl.le_limit
  have hwithin := within_row (by omega) hm
  exact ⟨⟨hwithin.1, hwithin.2.2⟩, by omega, by omega, by omega⟩

theorem within_group {limit : Int} (hlimit : limit ≤ source.length)
    (hl : IsLiteralAt source limit a l) (hm : m ∈ group source l) :
    l.start ≤ m.start ∧ m.start < m.stop ∧ m.stop ≤ l.stop := by
  rcases mem_group.mp hm with rfl | ⟨s, hs, hm⟩
  · have := hl.start
    have := hl.le
    omega
  · have := span_group hlimit hl hs hm
    omega

/-- A literal ends before a later one begins, or the later one lies in one of its expressions. -/
def Precedes (l m : Literal Nat) : Prop :=
  l.start < m.start ∧ (l.stop ≤ m.start ∨ ∃ s ∈ l.interpolations, IsInside s m)

theorem pairwise_row_nested (hlimit : limit ≤ source.length) :
    (row source true limit a).Pairwise Precedes := by
  induction limit, a, hlimit using window_induction with
  | step limit a hlimit ih =>
      have happart : ∀ {l m : Literal Nat}, l.start < l.stop → l.stop ≤ m.start → Precedes l m :=
        fun hlt hle => ⟨Nat.lt_of_lt_of_le hlt hle, .inl hle⟩
      rw [row_nested hlimit, List.pairwise_flatMap]
      constructor
      · intro l hl
        have hread := (mem_row hlimit l hl).2
        have hbound := Int.ofNat_le.mpr hlimit
        refine List.pairwise_cons.mpr ⟨fun m hm => ?_, ?_⟩
        · rcases List.mem_flatMap.mp hm with ⟨s, hs, hm⟩
          rcases span_group hbound hread hs hm with ⟨hinside, hlt, -⟩
          exact ⟨hlt, .inr ⟨s, hs, hinside⟩⟩
        · rw [inner, List.pairwise_flatMap]
          refine ⟨fun s hs => (ih l hl s hs).2, hread.separated.imp_of_mem ?_⟩
          intro s t hs ht hlt x hx y hy
          rcases span_group hbound hread hs hx with ⟨⟨-, hx⟩, -, hlt, -⟩
          rcases span_group hbound hread ht hy with ⟨⟨hy, -⟩, -⟩
          exact happart hlt (by omega)
      · refine (pairwise_row hlimit).imp_of_mem ?_
        intro l m hl hm hle x hx y hy
        have hbound := Int.ofNat_le.mpr hlimit
        have hx := within_group hbound (mem_row hlimit l hl).2 hx
        have hy := within_group hbound (mem_row hlimit m hm).2 hy
        exact happart hx.2.1 (by omega)

/-!
## The windows of the literals
-/

theorem mem_group_of_isInside (hlimit : limit ≤ source.length) (hl : l ∈ row source false limit a)
    (hm : m ∈ group source l) (hx : x ∈ row source true limit a) (ht : t ∈ x.interpolations)
    (hinside : IsInside t m) : x ∈ group source l := by
  rcases (mem_row_nested hlimit).mp hx with ⟨l', hl', hx'⟩
  have hbound := Int.ofNat_le.mpr hlimit
  have hm := within_group hbound (mem_row hlimit l hl).2 hm
  have hx'' := within_group hbound (mem_row hlimit l' hl').2 hx'
  have hspan := span_row hlimit hx ht
  rcases hinside with ⟨hstart, hstop⟩
  have hsame : l = l' := eq_of_pairwise (pairwise_row hlimit) hl hl' (by omega) (by omega)
  rwa [hsame]

/-- What lies around a literal of an expression is that expression, or lies in it. -/
theorem eq_or_mem_of_isInside {limit : Int} (hlimit : limit ≤ source.length)
    (hl : IsLiteralAt source limit a l) (hs : s ∈ l.interpolations)
    (hm : m ∈ row source true s.2 s.1) (hx : x ∈ group source l) (ht : t ∈ x.interpolations)
    (hinside : IsInside t m) : x = l ∧ t = s ∨ x ∈ row source true s.2 s.1 := by
  rcases span_group hlimit hl hs hm with ⟨⟨hstart, hstop⟩, -, hlt, -⟩
  rcases hinside with ⟨hstart', hstop'⟩
  rcases mem_group.mp hx with rfl | ⟨s', hs', hx⟩
  · exact .inl ⟨rfl, eq_of_pairwise hl.separated ht hs (by omega) (by omega)⟩
  · rcases span_group hlimit hl hs' hx with ⟨⟨hle, hle'⟩, -⟩
    rcases hl.span hs' with ⟨-, -, hlast, -⟩
    have hbound := hl.le_limit
    have hspan := span_row (by omega) hx ht
    have hsame : s = s' := eq_of_pairwise hl.separated hs hs' (by omega) (by omega)
    exact .inr (hsame ▸ hx)

theorem exists_isWindowEnd (hlimit : limit ≤ source.length) :
    ∀ m ∈ row source true limit a, ∃ stop : Nat, stop ≤ limit ∧
      IsWindowEnd (row source true limit a) limit m stop ∧ IsLiteralAt source stop m.start m := by
  induction limit, a, hlimit using window_induction with
  | step limit a hlimit ih =>
      intro m hm
      rcases (mem_row_nested hlimit).mp hm with ⟨l, hl, hm⟩
      have hread := (mem_row hlimit l hl).2
      have hbound := Int.ofNat_le.mpr hlimit
      rcases mem_group.mp hm with rfl | ⟨s, hs, hinner⟩
      · refine ⟨limit, Nat.le_refl limit, .outer fun x hx t ht hinside => ?_, hread⟩
        have hgroup := mem_group_of_isInside hlimit hl hm hx ht hinside
        have hle := (within_group hbound hread hgroup).1
        have hspan := (span_row hlimit hx ht).1
        have := hinside.1
        omega
      · rcases ih l hl s hs with ⟨hshort, ih⟩
        rcases ih m hinner with ⟨stop, hle, hstop, hliteral⟩
        have hlast := (hread.span hs).2.2.1
        have hlimit' := Int.ofNat_le.mp hread.le_limit
        have hall : ∀ x ∈ row source true s.2 s.1, x ∈ row source true limit a := fun x hx =>
          (mem_row_nested hlimit).mpr ⟨l, hl, mem_group.mpr (.inr ⟨s, hs, hx⟩)⟩
        have haround : ∀ x ∈ row source true limit a, ∀ t ∈ x.interpolations, IsInside t m →
            x = l ∧ t = s ∨ x ∈ row source true s.2 s.1 := fun x hx t ht hinside =>
          eq_or_mem_of_isInside hbound hread hs hinner
            (mem_group_of_isInside hlimit hl hm hx ht hinside) ht hinside
        refine ⟨stop, by omega, ?_, hliteral⟩
        cases hstop with
        | outer hnone =>
            have hself : l ∈ row source true limit a :=
              (mem_row_nested hlimit).mpr ⟨l, hl, List.mem_cons_self⟩
            refine .inner hself hs (span_group hbound hread hs hinner).1 fun x hx t ht hinside => ?_
            rcases haround x hx t ht hinside with ⟨-, rfl⟩ | hx
            · exact ⟨Nat.le_refl _, Nat.le_refl _⟩
            · exact absurd hinside (hnone x hx t ht)
        | @inner y u hy hu hinside hleast =>
            refine .inner (hall y hy) hu hinside fun x hx t ht hinside => ?_
            rcases haround x hx t ht hinside with ⟨-, rfl⟩ | hx
            · have hwithin := within_row hshort hy
              have hspan := span_row hshort hy hu
              omega
            · exact hleast x hx t ht hinside

/-- The literals in no other literal are those that are found when expressions are skipped. -/
theorem row_eq_filter (hlimit : limit ≤ source.length) :
    row source false limit a = (row source true limit a).filter fun m =>
      ∀ l ∈ row source true limit a, ¬ (l.start < m.start ∧ m.stop ≤ l.stop) := by
  have hbound := Int.ofNat_le.mpr hlimit
  have hgroup : ∀ l ∈ row source false limit a,
      ((group source l).filter fun m =>
        ∀ l ∈ row source true limit a, ¬ (l.start < m.start ∧ m.stop ≤ l.stop)) = [l] := by
    intro l hl
    have hread := (mem_row hlimit l hl).2
    have hself : l ∈ row source true limit a :=
      (mem_row_nested hlimit).mpr ⟨l, hl, List.mem_cons_self⟩
    rw [group, List.filter_cons_of_pos, List.filter_eq_nil_iff.mpr]
    · intro m hm
      rcases List.mem_flatMap.mp hm with ⟨s, hs, hm⟩
      rcases span_group hbound hread hs hm with ⟨-, hlt, -, hstop⟩
      rw [decide_eq_true_eq]
      exact fun hnone => hnone l hself ⟨hlt, Nat.le_of_lt hstop⟩
    · rw [decide_eq_true_eq]
      rintro x hx ⟨hlt, hstop⟩
      rcases (mem_row_nested hlimit).mp hx with ⟨l', hl', hx⟩
      have hx := within_group hbound (mem_row hlimit l' hl').2 hx
      have hself' := within_group hbound hread List.mem_cons_self
      have hsame : l' = l := eq_of_pairwise (pairwise_row hlimit) hl' hl (by omega) (by omega)
      subst hsame
      omega
  rw [row_nested hlimit, List.filter_flatMap, ← row_nested hlimit, List.flatMap_congr hgroup,
    List.flatMap_singleton']

end Group

/--
The literals of a source, with and without those in expressions: they stand in the order of
their beginnings and are nested or apart, each of them is read in the innermost window
around it, and outside of the outermost ones every literal would begin in a comment.
-/
structure IsSequence (source : Text) (start limit : Nat) (all outer : List (Literal Nat)) :
    Prop where
  increasing : all.Pairwise fun l m => l.start < m.start
  within : ∀ l ∈ all, start ≤ l.start ∧ l.start < l.stop ∧ l.stop ≤ limit
  laminar : all.Pairwise fun l m => l.stop ≤ m.start ∨ ∃ s ∈ l.interpolations, IsInside s m
  reads : ∀ m ∈ all, ∃ stop : Nat, IsWindowEnd all limit m stop ∧
    literalAt source m.start stop = .ok (some m.toInt)
  outermost : outer = all.filter fun m => ∀ l ∈ all, ¬ (l.start < m.start ∧ m.stop ≤ l.stop)
  complete : ∀ k : Nat, start ≤ k → k < limit →
    (∀ l ∈ outer, ¬ (l.start ≤ k ∧ k < l.stop)) →
      Skips source limit start k ∨ literalAt source k limit = .ok none

/-- The search for literals comes to an answer, with and without those in expressions. -/
theorem literalsBetween_laminar {source : Text} {limit : Nat} (start : Nat)
    (hlimit : limit ≤ source.length) :
    ∃ all outer : List (Literal Nat),
      literalsBetween source true start limit = .ok (all.map Literal.toInt) ∧
        literalsBetween source false start limit = .ok (outer.map Literal.toInt) ∧
          IsSequence source start limit all outer := by
  refine ⟨row source true limit start, row source false limit start,
    literalsBetween_eq true hlimit, literalsBetween_eq false hlimit,
    (pairwise_row_nested hlimit).imp And.left, fun l hl => within_row hlimit hl,
    (pairwise_row_nested hlimit).imp And.right, fun m hm => ?_, row_eq_filter hlimit,
    fun k hle hlt hout => ?_⟩
  · rcases exists_isWindowEnd hlimit m hm with ⟨stop, hle, hstop, hread⟩
    have hle := hle.trans hlimit
    refine ⟨stop, hstop, ?_⟩
    rw [literalAt_eq_literal? hle, (literal?_eq_some_iff hle).mpr hread]
    rfl
  · refine (skips_or_literal?_eq_none hlimit hle hlt hout).imp_right fun hnone => ?_
    rw [literalAt_eq_literal? hlimit, hnone]
    rfl

theorem literalsBetween_laminar_comment :
    14 ≤ "//'x'\n`$\x7b'b'\x7d`".toList.length ∧
      IsSequence "//'x'\n`$\x7b'b'\x7d`".toList 0 14
        [⟨'`', 6, 14, "$\x7b'b'\x7d".toList, [(9, 12)]⟩, ⟨'\'', 9, 12, "b".toList, []⟩]
        [⟨'`', 6, 14, "$\x7b'b'\x7d".toList, [(9, 12)]⟩] := by
  have hlength : 14 ≤ "//'x'\n`$\x7b'b'\x7d`".toList.length := by decide
  have hinj : Function.Injective (List.map Literal.toInt) :=
    List.map_injective_iff.mpr fun _ _ => Literal.toInt_inj
  have hread : literalsBetween "//'x'\n`$\x7b'b'\x7d`".toList true (0 : Nat) (14 : Nat) =
        .ok (List.map Literal.toInt
          [⟨'`', 6, 14, "$\x7b'b'\x7d".toList, [(9, 12)]⟩, ⟨'\'', 9, 12, "b".toList, []⟩]) ∧
      literalsBetween "//'x'\n`$\x7b'b'\x7d`".toList false (0 : Nat) (14 : Nat) =
        .ok (List.map Literal.toInt [⟨'`', 6, 14, "$\x7b'b'\x7d".toList, [(9, 12)]⟩]) := by
    decide +kernel
  rcases literalsBetween_laminar 0 hlength with ⟨all, outer, hall, houter, hsequence⟩
  rw [hread.1, Except.ok.injEq] at hall
  rw [hread.2, Except.ok.injEq] at houter
  rw [← hinj hall, ← hinj houter] at hsequence
  exact ⟨hlength, hsequence⟩

end Source
end DesignTokens
