import DesignTokens.Proofs.Text.Cuts

/-!
# Texts and their pieces

Behind every cut the scan begins anew. So a text is one piece, or it is its first piece,
a separator, and a text that is cut by itself. From this it follows where the pieces
stand, that none of them is cut again, and that two texts with a separator between them
have the pieces of both, if the scan of the first one ends outside of everything.
-/

namespace DesignTokens
namespace Pieces

open Source (HasAt)

def finish (rule : Rule) : State → (before : Option Char) → Text → State
  | s, _, [] => s
  | s, before, c :: t => finish rule (step rule s before c t.head?).1 (some c) t

/-- Whether the scan of a text ends outside of brackets, quotes and comments. -/
def IsClosed (rule : Rule) (t : Text) : Prop :=
  finish rule .top none t = .top

def IsUncut (rule : Rule) (t : Text) : Prop :=
  cuts rule .top none 0 t = []

/-- The characters that open, close or announce something. -/
def marks : List Char :=
  [':', '/', '*', '"', '\'', '`', '(', '[', '{', ')', ']', '}']

def Separator.IsUnmarked (separator : Separator) : Prop :=
  ∀ c ∈ marks, separator.holds c = false

theorem isUnmarked_of_usual {separator : Separator}
    (h : separator = .blank ∨ separator = .char ',') : separator.IsUnmarked := by
  have hnone : marks.any separator.holds = false := by
    rcases h with rfl | rfl <;> decide
  exact fun c hc => Bool.eq_false_iff.mpr (List.any_eq_false.mp hnone c hc)

theorem Separator.IsUnmarked.not_mem {separator : Separator} (h : separator.IsUnmarked) {c : Char}
    (hc : separator.holds c = true) : c ∉ marks := by
  intro hmark
  rw [h c hmark] at hc
  cases hc

/-!
## Steps in their context
-/

section Steps

variable {rule : Rule} {s s' : State} {before : Option Char} {c d : Char}

/-- What follows a character matters only if it is a mark of a comment. -/
theorem step_next {next : Option Char} (hnext : ∀ d ∈ next, d ∉ marks) :
    step rule s before c next = step rule s before c none := by
  have hslash : next ≠ some '/' := fun h => hnext '/' h (by decide)
  have hstar : next ≠ some '*' := fun h => hnext '*' h (by decide)
  cases hplace : s.place <;> simp [step, hplace, commentAt?, hslash, hstar]

theorem step_before (next : Option Char) (hbefore : before ≠ some ':') :
    step rule s before c next = step rule s none c next := by
  cases hplace : s.place <;> simp [step, hplace, commentAt?, hbefore]

theorem step_head?_append (t u : Text) (hd : d ∉ marks) :
    step rule s before c (t ++ d :: u).head? = step rule s before c t.head? := by
  cases t with
  | nil => exact step_next (by simpa using hd)
  | cons e t => rfl

/-- A character that is no mark is a cut outside of everything if it separates. -/
theorem step_top (next : Option Char) (hc : c ∉ marks) :
    step rule .top before c next = (.top, rule.separator.holds c) := by
  simp only [marks, List.mem_cons, List.not_mem_nil, or_false, not_or] at hc
  simp [step, State.top, commentAt?, stepPlain, isQuote, isOpener, isCloser, hc]

theorem step_cut {next : Option Char} (h : step rule s before c next = (s', true)) :
    s = .top ∧ s' = .top ∧ rule.separator.holds c = true := by
  rcases s with ⟨place, depth⟩
  cases place with
  | plain =>
      simp only [step] at h
      split at h
      · cases h
      · simp only [stepPlain] at h
        split at h
        · cases h
        · split at h
          · cases h
          · split at h
            · cases h
            · rw [Prod.mk.injEq, Bool.and_eq_true, decide_eq_true_eq] at h
              rcases h with ⟨rfl, rfl, hc⟩
              exact ⟨rfl, rfl, hc⟩
  | quoted quote =>
      simp only [step] at h
      split at h
      · cases h
      · split at h <;> cases h
  | escaped quote => cases h
  | line =>
      simp only [step] at h
      split at h <;> cases h
  | opening => cases h
  | block =>
      simp only [step] at h
      split at h <;> cases h
  | closing => cases h

theorem step_fst {rule' : Rule} (hcomments : rule'.comments = rule.comments)
    (next : Option Char) :
    (step rule' s before c next).1 = (step rule s before c next).1 := by
  cases hplace : s.place with
  | plain =>
      simp only [step, hplace, hcomments]
      split
      · rfl
      · simp only [stepPlain]
        split_ifs <;> rfl
  | _ => simp [step, hplace]

end Steps

/-!
## Texts with a separator between them
-/

section Context

variable {rule : Rule} {s : State} {before : Option Char} {offset : Nat} {c : Char} {t u : Text}

theorem finish_before (hbefore : before ≠ some ':') :
    finish rule s before t = finish rule s none t := by
  cases t with
  | nil => rfl
  | cons c t => rw [finish, finish, step_before _ hbefore]

theorem cuts_eq (rule : Rule) (s : State) (before : Option Char) (offset : Nat) (c : Char)
    (t : Text) :
    cuts rule s before offset (c :: t) =
      (if (step rule s before c t.head?).2 then [offset] else []) ++
        cuts rule (step rule s before c t.head?).1 (some c) (offset + 1) t := by
  rcases hstep : step rule s before c t.head? with ⟨s', cut⟩
  cases cut with
  | false => exact cuts_cons hstep
  | true => exact cuts_cut hstep

theorem cuts_eq_nil_congr (offset offset' : Nat) :
    cuts rule s before offset t = [] ↔ cuts rule s before offset' t = [] := by
  induction t generalizing s before offset offset' with
  | nil => exact Iff.rfl
  | cons c t ih =>
      rw [cuts_eq, cuts_eq, List.append_eq_nil_iff, List.append_eq_nil_iff,
        ih (offset + 1) (offset' + 1)]
      simp

theorem cuts_before (hbefore : before ≠ some ':') :
    cuts rule s before offset t = cuts rule s none offset t := by
  cases t with
  | nil => rfl
  | cons c t => rw [cuts, cuts, step_before _ hbefore]

theorem between_before (hbefore : before ≠ some ':') :
    between rule s before t = between rule s none t := by
  cases t with
  | nil => rfl
  | cons c t => rw [between, between, step_before _ hbefore]

theorem ne_colon_of_not_mem (hc : c ∉ marks) : some c ≠ some ':' := by
  rintro h
  cases h
  exact hc (by decide)

theorem finish_append (hc : c ∉ marks) (hclosed : finish rule s before t = .top) :
    finish rule s before (t ++ c :: u) = finish rule .top none u := by
  induction t generalizing s before with
  | nil =>
      change s = .top at hclosed
      rw [hclosed, List.nil_append, finish, step_top _ hc, finish_before (ne_colon_of_not_mem hc)]
  | cons d t ih =>
      rw [finish] at hclosed
      rw [List.cons_append, finish, step_head?_append t u hc, ih hclosed]

theorem cuts_append (hc : c ∉ marks) (hclosed : finish rule s before t = .top) :
    cuts rule s before offset (t ++ c :: u) =
      cuts rule s before offset t ++
        ((if rule.separator.holds c then [offset + t.length] else []) ++
          cuts rule .top none (offset + t.length + 1) u) := by
  induction t generalizing s before offset with
  | nil =>
      change s = .top at hclosed
      rw [hclosed, List.nil_append, cuts_eq, step_top _ hc,
        cuts_before (ne_colon_of_not_mem hc)]
      rfl
  | cons d t ih =>
      rw [finish] at hclosed
      have hoffset : offset + 1 + t.length = offset + (d :: t).length := by
        rw [List.length_cons]
        omega
      rw [List.cons_append, cuts_eq, cuts_eq, step_head?_append t u hc, ih hclosed, hoffset,
        List.append_assoc]

/-- A separator outside of everything has the pieces of what stands before and behind it. -/
theorem between_append (hc : c ∉ marks) (hseparates : rule.separator.holds c = true)
    (hclosed : finish rule s before t = .top) :
    between rule s before (t ++ c :: u) = between rule s before t ++ between rule .top none u := by
  induction t generalizing s before with
  | nil =>
      change s = .top at hclosed
      have hcut : step rule s before c u.head? = (.top, true) := by
        rw [hclosed, step_top _ hc, hseparates]
      rw [List.nil_append, between_cut hcut, between_before (ne_colon_of_not_mem hc)]
      rfl
  | cons d t ih =>
      rw [finish] at hclosed
      have hrest := ih hclosed
      rcases hstep : step rule s before d t.head? with ⟨s', cut⟩
      rw [hstep] at hrest
      have hstep' := hstep
      rw [← step_head?_append t u hc] at hstep'
      cases cut with
      | true =>
          rw [List.cons_append, between_cut hstep', between_cut hstep, hrest, List.cons_append]
      | false =>
          rw [List.cons_append, between_cons hstep', between_cons hstep, hrest]
          cases hpieces : between rule s' (some d) t with
          | nil => exact absurd hpieces (between_ne_nil rule s' (some d) t)
          | cons piece pieces => rfl

end Context

theorem isUncut_append_iff {rule : Rule} {c : Char} {t u : Text} (hc : c ∉ marks)
    (hclosed : IsClosed rule t) :
    IsUncut rule (t ++ c :: u) ↔
      IsUncut rule t ∧ rule.separator.holds c = false ∧ IsUncut rule u := by
  unfold IsUncut
  rw [cuts_append hc hclosed, List.append_eq_nil_iff, List.append_eq_nil_iff,
    cuts_eq_nil_congr (0 + t.length + 1) 0]
  simp

theorem isClosed_append_iff {rule : Rule} {c : Char} {t u : Text} (hc : c ∉ marks)
    (hclosed : IsClosed rule t) : IsClosed rule (t ++ c :: u) ↔ IsClosed rule u := by
  unfold IsClosed
  rw [finish_append hc hclosed]

/-!
## Cutting a text into pieces
-/

/-- The pieces of a text: the text itself, or a first piece and those behind its separator. -/
inductive IsCutInto (rule : Rule) : Text → List Text → Prop where
  | whole {t : Text} (h : IsUncut rule t) : IsCutInto rule t [t]
  | cut {t u : Text} {c : Char} {pieces : List Text} (huncut : IsUncut rule t)
      (hclosed : IsClosed rule t) (hc : rule.separator.holds c = true)
      (hrest : IsCutInto rule u pieces) : IsCutInto rule (t ++ c :: u) (t :: pieces)

theorem between_cases {rule : Rule} (hrule : rule.separator.IsUnmarked) (s : State)
    (before : Option Char) (t : Text) :
    cuts rule s before 0 t = [] ∧ between rule s before t = [t] ∨
      ∃ first c rest, t = first ++ c :: rest ∧ cuts rule s before 0 first = [] ∧
        finish rule s before first = .top ∧ rule.separator.holds c = true ∧
          between rule s before t = first :: between rule .top none rest := by
  induction t generalizing s before with
  | nil => exact .inl ⟨rfl, rfl⟩
  | cons c t ih =>
      rcases hstep : step rule s before c t.head? with ⟨s', cut⟩
      cases cut with
      | true =>
          rcases step_cut hstep with ⟨rfl, rfl, hc⟩
          have hmark : c ∉ marks := hrule.not_mem hc
          refine .inr ⟨[], c, t, rfl, rfl, rfl, hc, ?_⟩
          rw [between_cut hstep, between_before (ne_colon_of_not_mem hmark)]
      | false =>
          rcases ih s' (some c) with ⟨huncut, hbetween⟩ | ⟨first, d, rest, rfl, huncut, hclosed,
            hd, hbetween⟩
          · refine .inl ⟨?_, ?_⟩
            · rw [cuts_cons hstep, cuts_eq_nil_congr _ 0]
              exact huncut
            · rw [between_cons hstep, hbetween]
              rfl
          · have hmark : d ∉ marks := hrule.not_mem hd
            have hfirst := hstep
            rw [step_head?_append first rest hmark] at hfirst
            refine .inr ⟨c :: first, d, rest, rfl, ?_, ?_, hd, ?_⟩
            · rw [cuts_cons hfirst, cuts_eq_nil_congr _ 0]
              exact huncut
            · rw [finish, hfirst]
              exact hclosed
            · rw [between_cons hstep, hbetween]
              rfl

theorem isCutInto_between {rule : Rule} (hrule : rule.separator.IsUnmarked) (t : Text) :
    IsCutInto rule t (between rule .top none t) := by
  induction hlength : t.length using Nat.strong_induction_on generalizing t with
  | _ n ih =>
      rcases between_cases hrule .top none t with ⟨huncut, hbetween⟩ | ⟨first, c, rest, rfl,
        huncut, hclosed, hc, hbetween⟩
      · rw [hbetween]
        exact .whole huncut
      · rw [hbetween]
        refine .cut huncut hclosed hc (ih rest.length ?_ rest rfl)
        rw [← hlength, List.length_append, List.length_cons]
        omega

theorem IsUncut.between_eq {rule : Rule} (hrule : rule.separator.IsUnmarked) {t : Text}
    (h : IsUncut rule t) : between rule .top none t = [t] := by
  rcases between_cases hrule .top none t with ⟨-, hbetween⟩ | ⟨first, c, rest, rfl, -, hclosed, hc,
    -⟩
  · exact hbetween
  · rw [isUncut_append_iff (hrule.not_mem hc) hclosed, hc] at h
    cases h.2.1

/-- No piece of a text is cut again. -/
theorem IsCutInto.isUncut {rule : Rule} {t : Text} {pieces : List Text}
    (h : IsCutInto rule t pieces) : ∀ piece ∈ pieces, IsUncut rule piece := by
  induction h with
  | whole h => exact List.forall_mem_singleton.mpr h
  | cut huncut _ _ _ ih => exact List.forall_mem_cons.mpr ⟨huncut, ih⟩

def extent : List Text → Nat
  | [] => 0
  | p :: ps => p.length + 1 + extent ps

theorem IsCutInto.extent_eq {rule : Rule} {t : Text} {pieces : List Text}
    (h : IsCutInto rule t pieces) : extent pieces = t.length + 1 := by
  induction h with
  | whole h => rfl
  | cut _ _ _ _ ih =>
      rw [extent, ih, List.length_append, List.length_cons]
      omega

/-!
## Offsets
-/

theorem placed_append (offset : Nat) (ps qs : List Text) :
    placed offset (ps ++ qs) =
      placed offset ps ++ placed (offset + extent ps) qs := by
  induction ps generalizing offset with
  | nil => rfl
  | cons p ps ih =>
      rw [List.cons_append, placed, placed, ih, extent, List.cons_append, Nat.add_assoc offset,
        Nat.add_assoc offset]

theorem placed_add (offset n : Nat) (ps : List Text) :
    placed (offset + n) ps = (placed offset ps).map fun p => (p.1 + n, p.2) := by
  induction ps generalizing offset with
  | nil => rfl
  | cons p ps ih =>
      have hnext : offset + n + p.length + 1 = offset + p.length + 1 + n := by omega
      rw [placed, placed, List.map_cons, hnext, ih]

theorem pairwise_placed (offset : Nat) (ps : List Text) :
    (placed offset ps).Pairwise fun p q => p.1 + p.2.length < q.1 := by
  induction ps generalizing offset with
  | nil => exact .nil
  | cons p ps ih =>
      refine .cons (fun q hq => ?_) (ih _)
      exact Nat.lt_of_succ_le (le_of_mem_placed hq)

theorem holds_of_mem_cuts {rule : Rule} {s : State} {before : Option Char} {offset k : Nat}
    {t : Text} (h : k ∈ cuts rule s before offset t) :
    ∃ c, t[k - offset]? = some c ∧ rule.separator.holds c = true := by
  induction t generalizing s before offset with
  | nil => cases h
  | cons c t ih =>
      rcases hstep : step rule s before c t.head? with ⟨s', cut⟩
      have hrest : k ∈ cuts rule s' (some c) (offset + 1) t →
          ∃ d, (c :: t)[k - offset]? = some d ∧ rule.separator.holds d = true := by
        intro hk
        rcases ih hk with ⟨d, hd, hholds⟩
        refine ⟨d, ?_, hholds⟩
        have hle := le_of_mem_cuts hk
        have hindex : k - offset = k - (offset + 1) + 1 := by omega
        rw [hindex, List.getElem?_cons_succ]
        exact hd
      cases cut with
      | false =>
          rw [cuts_cons hstep] at h
          exact hrest h
      | true =>
          rw [cuts_cut hstep, List.mem_cons] at h
          rcases h with rfl | h
          · rw [Nat.sub_self]
            exact ⟨c, rfl, (step_cut hstep).2.2⟩
          · exact hrest h

/-!
## The pieces of a text
-/

/-- Whether texts at offsets are what separators and blanks leave of a text. -/
structure IsPartition (rule : Rule) (t : Text) (pieces : List (Nat × Text)) : Prop where
  slice : ∀ piece ∈ pieces, Text.slice t piece.1 (piece.1 + piece.2.length) = piece.2
  kept : ∀ piece ∈ pieces, Text.isAllBlank piece.2 = false
  /-- the offsets ascend, and no piece reaches the next one -/
  ordered : pieces.Pairwise fun p q => p.1 + p.2.length < q.1
  rest : ∀ i c, t[i]? = some c → (∀ piece ∈ pieces, ¬ Covers piece i (i + 1)) →
    rule.separator.holds c = true ∨ Text.isBlank c = true

theorem isPartition_ofText (rule : Rule) (t : Text) : IsPartition rule t (ofText rule t) where
  slice := by
    intro piece hpiece
    have hwhole : HasAt t 0 t := List.prefix_rfl
    exact (hasAt_of_mem_placed hwhole piece (List.mem_of_mem_filter hpiece)).slice
  kept := by
    intro piece hpiece
    simpa using (List.mem_filter.mp hpiece).2
  ordered := (pairwise_placed 0 _).filter _
  rest := by
    intro i c hchar houtside
    by_contra hneither
    rw [not_or, Bool.not_eq_true, Bool.not_eq_true] at hneither
    have hlt : i < t.length := (List.getElem?_eq_some_iff.mp hchar).1
    have hinside : ∃ piece ∈ ofText rule t, Covers piece i (i + 1) := by
      rw [exists_mem_ofText_iff hchar hneither.2 (Nat.lt_succ_self i) hlt]
      intro k hk hstretch
      rcases holds_of_mem_cuts hk with ⟨d, hd, hholds⟩
      have hi : k - 0 = i := by omega
      rw [hi, hchar] at hd
      cases hd
      rw [hneither.1] at hholds
      cases hholds
    rcases hinside with ⟨piece, hpiece, hcovers⟩
    exact houtside piece hpiece hcovers

theorem ofText_of_isUncut {rule : Rule} (hrule : rule.separator.IsUnmarked) {t : Text}
    (huncut : IsUncut rule t) (hkept : Text.isAllBlank t = false) : ofText rule t = [(0, t)] :=
  ofText_eq_placed (huncut.between_eq hrule) (List.forall_mem_singleton.mpr hkept)

theorem ofText_append {rule : Rule} (hrule : rule.separator.IsUnmarked) {t u : Text} {c : Char}
    (hc : rule.separator.holds c = true) (hclosed : IsClosed rule t) :
    ofText rule (t ++ c :: u) =
      ofText rule t ++ (ofText rule u).map fun piece => (piece.1 + (t.length + 1), piece.2) := by
  rw [ofText, between_append (hrule.not_mem hc) hc hclosed, placed_append,
    (isCutInto_between hrule t).extent_eq, placed_add, List.filter_append, List.filter_map]
  rfl

/--
A text that is cut at commas or at blanks is partitioned by its pieces, none of which is
cut again, and a separator outside of everything parts it into two texts with pieces of
their own.
-/
theorem ofText_partitions {rule : Rule}
    (hrule : rule.separator = .blank ∨ rule.separator = .char ',') :
    (∀ t, IsPartition rule t (ofText rule t)) ∧
      (∀ t, ∀ piece ∈ ofText rule t, ofText rule piece.2 = [(0, piece.2)]) ∧
      ∀ t c u, rule.separator.holds c = true → IsClosed rule t →
        ofText rule (t ++ c :: u) =
          ofText rule t ++
            (ofText rule u).map fun piece => (piece.1 + (t.length + 1), piece.2) := by
  have hmarks := isUnmarked_of_usual hrule
  refine ⟨isPartition_ofText rule, ?_, fun t c u hc hclosed => ofText_append hmarks hc hclosed⟩
  intro t piece hpiece
  have hmem : piece.2 ∈ between rule .top none t :=
    mem_of_mem_placed (List.mem_of_mem_filter hpiece)
  exact ofText_of_isUncut hmarks ((isCutInto_between hmarks t).isUncut piece.2 hmem)
    ((isPartition_ofText rule t).kept piece hpiece)

theorem ofText_partitions_entries :
    Rule.entries.separator = .char ',' ∧ Rule.entries.separator.holds ',' = true ∧
      IsClosed .entries "f(x, y), /* , */ 'p,q'".toList ∧
      ofText .entries ("f(x, y), /* , */ 'p,q'".toList ++ ',' :: " b".toList) =
        [(0, "f(x, y)".toList), (8, " /* , */ 'p,q'".toList), (23, " b".toList)] := by
  have hclosed : IsClosed .entries "f(x, y), /* , */ 'p,q'".toList := by
    unfold IsClosed
    decide
  have hparted := (ofText_partitions (.inr rfl)).2.2 _ ',' " b".toList rfl hclosed
  refine ⟨rfl, rfl, hclosed, hparted.trans ?_⟩
  decide

end Pieces
end DesignTokens
