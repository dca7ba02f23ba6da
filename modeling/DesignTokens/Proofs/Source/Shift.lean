import DesignTokens.Proofs.Source.Literal

/-!
# Scans from other offsets

A scan reads a text alike wherever it begins to count: all offsets that it finds are moved
by the same distance. A scan up to a limit inside of its source has no fault.
-/

namespace DesignTokens

def Literal.shift (d : Nat) (l : Literal Nat) : Literal Nat where
  quote := l.quote
  start := l.start + d
  stop := l.stop + d
  text := l.text
  interpolations := l.interpolations.map fun span => (span.1 + d, span.2 + d)

namespace Scan

/-!
## What is found from a later offset on

The scan of a literal between backticks and that of the brackets in its expressions call each
other, each time for a shorter text. Both statements are proved by the same recursion.
-/

section Shift

variable {α β : Type}

def mapFound (f : α → β) (scan : Scan α) : Scan β :=
  scan.map fun found => found.map f

@[simp] theorem mapFound_none (f : α → β) : mapFound f (.ok none) = .ok none := rfl

@[simp] theorem mapFound_some (f : α → β) (a : α) : mapFound f (.ok (some a)) = .ok (some (f a)) :=
  rfl

@[simp] theorem mapFound_atEnd (f : α → β) (missing : Nat) :
    mapFound f (atEnd missing) = atEnd missing := by
  unfold atEnd
  split <;> rfl

theorem mapFound_mapFound {γ : Type} (g : β → γ) (f : α → β) (scan : Scan α) :
    mapFound g (mapFound f scan) = mapFound (fun a => g (f a)) scan := by
  match scan with
  | .error _ => rfl
  | .ok none => rfl
  | .ok (some _) => rfl

end Shift

theorem quotedStop_shift (missing offset d : Nat) (quote : Char) (t : Text) :
    quotedStop missing quote (offset + d) t =
      mapFound (· + d) (quotedStop missing quote offset t) := by
  fun_induction quotedStop missing quote offset t with
  | case1 => exact (mapFound_atEnd _ missing).symm
  | case2 => exact (mapFound_atEnd _ (missing - 1)).symm
  | case3 offset c t ih =>
      rw [quotedStop_escaped, ← ih, Nat.add_right_comm]
  | case4 offset t hquote =>
      rw [quotedStop_quote missing _ t hquote, mapFound_some, Nat.add_right_comm]
  | case5 offset c t hc hne hline =>
      rw [quotedStop.eq_def]
      simp only [if_neg hc, if_neg hne, if_pos hline, mapFound_none]
  | case6 offset c t hc hne hline ih =>
      rw [quotedStop.eq_def]
      simp only [if_neg hc, if_neg hne, if_neg hline, ← ih, Nat.add_right_comm]

def shiftStop (d : Nat) (r : Nat × List (Nat × Nat)) : Nat × List (Nat × Nat) :=
  (r.1 + d, r.2.map fun span => (span.1 + d, span.2 + d))

mutual

theorem templateStop_shift (missing offset d : Nat) (t : Text) :
    templateStop missing (offset + d) t =
      mapFound (shiftStop d) (templateStop missing offset t) := by
  match t with
  | [] =>
      rw [templateStop.eq_def, templateStop.eq_def]
      exact (mapFound_atEnd _ missing).symm
  | c :: t =>
      rw [templateStop.eq_def, templateStop.eq_def]
      dsimp only
      split
      · cases t with
        | nil => exact (mapFound_atEnd _ (missing - 1)).symm
        | cons e t =>
            dsimp only
            rw [Nat.add_right_comm offset d 2, templateStop_shift missing (offset + 2) d t]
      · split
        · rw [mapFound_some, shiftStop, Nat.add_right_comm]
          rfl
        · split
          · rw [Nat.add_right_comm offset d 2, closing_shift missing '}' [] (offset + 2) d t.tail]
            cases closing missing '}' [] (offset + 2) t.tail with
            | error fault => rfl
            | ok found =>
                cases found with
                | none => rfl
                | some close =>
                    dsimp only [mapFound_some]
                    rw [Nat.add_right_comm close d 1, Nat.add_sub_add_right,
                      templateStop_shift missing (close + 1) d (t.drop (close - offset))]
                    cases templateStop missing (close + 1) (t.drop (close - offset)) with
                    | error fault => rfl
                    | ok found => cases found <;> rfl
          · rw [Nat.add_right_comm offset d 1, templateStop_shift missing (offset + 1) d t]
termination_by t.length
decreasing_by
  all_goals simp only [List.length_cons, List.length_drop, List.length_tail]
  all_goals omega

theorem closing_shift (missing : Nat) (top : Char) (below : List Char) (offset d : Nat) (t : Text) :
    closing missing top below (offset + d) t =
      mapFound (· + d) (closing missing top below offset t) := by
  match t with
  | [] =>
      rw [closing.eq_def, closing.eq_def]
      exact (mapFound_atEnd _ missing).symm
  | c :: t =>
      cases hquote : isQuote c with
      | true =>
          have hshift : literalStop missing (offset + d) c t =
              mapFound (· + d) (literalStop missing offset c t) := by
            unfold literalStop
            split
            · rw [Nat.add_right_comm offset d 1, templateStop_shift missing (offset + 1) d t]
              exact (mapFound_mapFound _ (shiftStop d) _).trans (mapFound_mapFound (· + d) _ _).symm
            · rw [Nat.add_right_comm offset d 1, quotedStop_shift]
          cases hstop : literalStop missing offset c t with
          | error fault =>
              rw [hstop] at hshift
              rw [closing_fault hquote hstop, closing_fault hquote hshift]
              rfl
          | ok found =>
              rw [hstop] at hshift
              cases found with
              | none =>
                  rw [closing_quote hquote hstop, closing_quote hquote hshift,
                    Nat.add_right_comm offset d 1, closing_shift missing top below (offset + 1) d t]
              | some stop =>
                  have hdrop : stop + d - (offset + d) - 1 = stop - offset - 1 := by omega
                  rw [closing_literal hquote hstop, closing_literal hquote hshift, hdrop,
                    closing_shift missing top below stop d (t.drop (stop - offset - 1))]
      | false =>
          cases hbehind : openBehind top below c with
          | none => rw [closing_none hquote hbehind, closing_none hquote hbehind, mapFound_some]
          | some brackets =>
              rcases brackets with ⟨top', below'⟩
              rw [closing_some hquote hbehind, closing_some hquote hbehind,
                Nat.add_right_comm offset d 1, closing_shift missing top' below' (offset + 1) d t]
termination_by t.length
decreasing_by
  all_goals simp only [List.length_cons, List.length_drop]
  all_goals omega

end

theorem bracket_shift (missing offset d : Nat) (t : Text) :
    bracket missing (offset + d) t = mapFound (· + d) (bracket missing offset t) := by
  cases t with
  | nil => exact (mapFound_atEnd _ missing).symm
  | cons c t =>
      rw [bracket, bracket]
      cases closer? c with
      | none => rfl
      | some e =>
          dsimp only
          rw [Nat.add_right_comm, closing_shift]

theorem literal_shift (missing offset d : Nat) (t : Text) :
    literal missing (offset + d) t = mapFound (Literal.shift d) (literal missing offset t) := by
  cases t with
  | nil => exact (mapFound_atEnd _ missing).symm
  | cons c t =>
      rw [literal, literal]
      split
      · rw [Nat.add_right_comm, templateStop_shift]
        refine (mapFound_mapFound _ (shiftStop d) _).trans
          (Eq.trans ?_ (mapFound_mapFound (Literal.shift d) _ _).symm)
        congr 1
        funext r
        simp only [shiftStop, Literal.shift, Nat.add_sub_add_right]
      · split
        · rw [Nat.add_right_comm, quotedStop_shift]
          refine (mapFound_mapFound _ (· + d) _).trans
            (Eq.trans ?_ (mapFound_mapFound (Literal.shift d) _ _).symm)
          congr 1
          funext stop
          simp only [Literal.shift, Nat.add_sub_add_right, List.map_nil]
        · rfl

/-!
## Scans without a fault
-/

def Answers {α : Type} (scan : Scan α) : Prop :=
  ∃ found, scan = .ok found

theorem answers_mapFound {α β : Type} {scan : Scan α} (f : α → β) (h : Answers scan) :
    Answers (mapFound f scan) := by
  rcases h with ⟨found, rfl⟩
  exact ⟨found.map f, rfl⟩

theorem answers_quotedStop (quote : Char) (offset : Nat) (t : Text) :
    Answers (quotedStop 0 quote offset t) := by
  fun_induction quotedStop 0 quote offset t with
  | case1 => exact ⟨none, rfl⟩
  | case2 => exact ⟨none, rfl⟩
  | case3 _ _ _ ih => exact ih
  | case4 => exact ⟨_, rfl⟩
  | case5 => exact ⟨none, rfl⟩
  | case6 _ _ _ _ _ _ ih => exact ih

mutual

theorem answers_templateStop (offset : Nat) (t : Text) : Answers (templateStop 0 offset t) := by
  match t with
  | [] =>
      rw [templateStop.eq_def]
      exact ⟨none, rfl⟩
  | c :: t =>
      rw [templateStop.eq_def]
      dsimp only
      split
      · cases t with
        | nil => exact ⟨none, rfl⟩
        | cons e t => exact answers_templateStop (offset + 2) t
      · split
        · exact ⟨_, rfl⟩
        · split
          · rcases answers_closing '}' [] (offset + 2) t.tail with ⟨found, hfound⟩
            rw [hfound]
            cases found with
            | none => exact ⟨none, rfl⟩
            | some close =>
                exact answers_mapFound _
                  (answers_templateStop (close + 1) (t.drop (close - offset)))
          · exact answers_templateStop (offset + 1) t
termination_by t.length
decreasing_by
  all_goals simp only [List.length_cons, List.length_drop, List.length_tail]
  all_goals omega

theorem answers_closing (top : Char) (below : List Char) (offset : Nat) (t : Text) :
    Answers (closing 0 top below offset t) := by
  match t with
  | [] =>
      rw [closing.eq_def]
      exact ⟨none, rfl⟩
  | c :: t =>
      cases hquote : isQuote c with
      | true =>
          have hanswers : Answers (literalStop 0 offset c t) := by
            unfold literalStop
            split
            · exact answers_mapFound _ (answers_templateStop (offset + 1) t)
            · exact answers_quotedStop c (offset + 1) t
          rcases hanswers with ⟨found, hstop⟩
          cases found with
          | none =>
              rw [closing_quote hquote hstop]
              exact answers_closing top below (offset + 1) t
          | some stop =>
              rw [closing_literal hquote hstop]
              exact answers_closing top below stop (t.drop (stop - offset - 1))
      | false =>
          cases hbehind : openBehind top below c with
          | none => exact ⟨_, closing_none hquote hbehind⟩
          | some brackets =>
              rcases brackets with ⟨top', below'⟩
              rw [closing_some hquote hbehind]
              exact answers_closing top' below' (offset + 1) t
termination_by t.length
decreasing_by
  all_goals simp only [List.length_cons, List.length_drop]
  all_goals omega

end

theorem answers_bracket (offset : Nat) (t : Text) : Answers (bracket 0 offset t) := by
  cases t with
  | nil => exact ⟨none, rfl⟩
  | cons c t =>
      rw [bracket]
      cases closer? c with
      | none => exact ⟨none, rfl⟩
      | some d => exact answers_closing d [] (offset + 1) t

theorem answers_literal (offset : Nat) (t : Text) : Answers (literal 0 offset t) := by
  cases t with
  | nil => exact ⟨none, rfl⟩
  | cons c t =>
      rw [literal]
      split
      · exact answers_mapFound _ (answers_templateStop (offset + 1) t)
      · split
        · exact answers_mapFound _ (answers_quotedStop c (offset + 1) t)
        · exact ⟨none, rfl⟩

theorem exists_literals (nested : Bool) (before : Option Char) (offset : Nat) (t : Text) :
    ∃ ls, literals 0 nested before offset t = .ok ls := by
  induction hn : t.length using Nat.strong_induction_on generalizing before offset t with
  | _ length ih =>
      subst hn
      cases t with
      | nil => exact ⟨[], literals_nil nested before offset⟩
      | cons c t =>
          cases hcomment : passedComment? before c t with
          | some passed =>
              cases passed with
              | none => exact ⟨[], literals_open hcomment⟩
              | some r =>
                  rw [literals_passed hcomment]
                  exact ih _ (length_drop_lt c t r.2) _ _ _ rfl
          | none =>
              rcases answers_literal offset (c :: t) with ⟨found, hfound⟩
              cases found with
              | none =>
                  rw [literals_of_none hcomment hfound]
                  exact ih _ (length_drop_lt c t 0) _ _ _ rfl
              | some l =>
                  have hinner : ∃ inner, innerLiterals nested offset l t = .ok inner := by
                    unfold innerLiterals
                    split
                    · have hrows : ∀ span ∈ l.interpolations, ∃ row,
                          literals 0 nested (some '{') span.1
                            ((t.drop (span.1 - offset - 1)).take (span.2 - span.1)) = .ok row ∧
                              True := fun span _ =>
                        (ih _ (length_take_drop_lt c t _ _) _ _ _ rfl).imp fun _ h => ⟨h, trivial⟩
                      rcases Except.exists_mapM hrows with ⟨inner, hinner, -⟩
                      exact ⟨inner, hinner⟩
                    · exact ⟨[], rfl⟩
                  rcases hinner with ⟨inner, hinner⟩
                  rcases ih _ (length_drop_lt c t _) (some c) l.stop _ rfl with ⟨later, hlater⟩
                  rw [literals_of_some hcomment hfound, hinner, Except.ok_bind, hlater]
                  exact ⟨_, rfl⟩

/-!
## Literals from a later offset on
-/

/-- The literals in the expressions of a literal move with it if those in shorter texts do. -/
theorem innerLiterals_shift {nested : Bool} {offset d : Nat} {l : Literal Nat} {t : Text}
    {inner : List (List (Literal Nat))}
    (hrows : ∀ (start n m : Nat) (row : List (Literal Nat)),
      literals 0 nested (some '{') start ((t.drop n).take m) = .ok row →
        literals 0 nested (some '{') (start + d) ((t.drop n).take m) =
          .ok (row.map (Literal.shift d)))
    (h : innerLiterals nested offset l t = .ok inner) :
    innerLiterals nested (offset + d) (l.shift d) t =
      .ok (inner.map (List.map (Literal.shift d))) := by
  unfold innerLiterals at h ⊢
  cases nested with
  | false =>
      cases h
      rfl
  | true =>
      rw [if_pos rfl, Except.mapM_eq_ok_iff] at h ⊢
      rw [Literal.shift, List.forall₂_map_left_iff, List.forall₂_map_right_iff]
      refine h.imp fun span row hrow => ?_
      have hdrop : span.1 + d - (offset + d) - 1 = span.1 - offset - 1 := by omega
      dsimp only
      rw [hdrop, Nat.add_sub_add_right]
      exact hrows _ _ _ row hrow

theorem literals_shift {nested : Bool} {before : Option Char} {offset d : Nat} {t : Text}
    {ls : List (Literal Nat)} (h : literals 0 nested before offset t = .ok ls) :
    literals 0 nested before (offset + d) t = .ok (ls.map (Literal.shift d)) := by
  induction hn : t.length using Nat.strong_induction_on generalizing before offset t ls with
  | _ length ih =>
      subst hn
      cases t with
      | nil =>
          rw [literals_nil] at h ⊢
          cases h
          rfl
      | cons c t =>
          cases hcomment : passedComment? before c t with
          | some passed =>
              cases passed with
              | none =>
                  rw [literals_open hcomment] at h ⊢
                  cases h
                  rfl
              | some r =>
                  rw [literals_passed hcomment] at h ⊢
                  rw [Nat.add_right_comm offset d 1, Nat.add_right_comm (offset + 1) d r.2]
                  exact ih _ (length_drop_lt c t r.2) h rfl
          | none =>
              have hshift := literal_shift 0 offset d (c :: t)
              rcases answers_literal offset (c :: t) with ⟨found, hfound⟩
              rw [hfound] at hshift
              cases found with
              | none =>
                  rw [literals_of_none hcomment hfound] at h
                  rw [literals_of_none hcomment hshift, Nat.add_right_comm]
                  exact ih _ (length_drop_lt c t 0) h rfl
              | some l =>
                  rw [literals_of_some hcomment hfound] at h
                  rcases Except.bind_eq_ok.mp h with ⟨inner, hinner, h⟩
                  rcases Except.bind_eq_ok.mp h with ⟨later, hlater, h⟩
                  cases h
                  have hdrop : l.stop + d - (offset + d) - 1 = l.stop - offset - 1 := by omega
                  have hinner' := innerLiterals_shift
                    (fun _ n m _ hrow => ih _ (length_take_drop_lt c t n m) hrow rfl) hinner
                  rw [literals_of_some hcomment hshift, hinner', Except.ok_bind]
                  have hlater' := ih _ (length_drop_lt c t _) hlater rfl
                  rw [Literal.shift]
                  dsimp only
                  rw [hdrop, hlater', Except.ok_bind, List.map_append, List.map_cons,
                    List.map_flatten]
                  rfl

end Scan
end DesignTokens
