import DesignTokens.Proofs.Source.Window
import DesignTokens.Proofs.Text.Pieces

/-!
# Where a text is cut

A stretch of a text lies in one piece exactly if the text is not cut inside of it. The
pieces are parts of the text that stand at their offsets, and no piece is lost that has
a character other than a blank.
-/

namespace DesignTokens
namespace Pieces

open Source (HasAt)

def cuts (rule : Rule) : State → (before : Option Char) → (offset : Nat) → Text → List Nat
  | _, _, _, [] => []
  | s, before, offset, c :: t =>
      let (s', cut) := step rule s before c t.head?
      let rest := cuts rule s' (some c) (offset + 1) t
      if cut then offset :: rest else rest

section Cuts

variable {rule : Rule} {s s' : State} {before : Option Char} {offset : Nat} {c : Char} {t : Text}

theorem cuts_cons (h : step rule s before c t.head? = (s', false)) :
    cuts rule s before offset (c :: t) = cuts rule s' (some c) (offset + 1) t := by
  simp only [cuts, h, Bool.false_eq_true, if_false]

theorem cuts_cut (h : step rule s before c t.head? = (s', true)) :
    cuts rule s before offset (c :: t) = offset :: cuts rule s' (some c) (offset + 1) t := by
  simp only [cuts, h, if_true]

theorem le_of_mem_cuts {k : Nat} (h : k ∈ cuts rule s before offset t) : offset ≤ k := by
  induction t generalizing s before offset with
  | nil => cases h
  | cons c t ih =>
      rcases hstep : step rule s before c t.head? with ⟨s', cut⟩
      cases cut with
      | false =>
          rw [cuts_cons hstep] at h
          exact Nat.le_of_succ_le (ih h)
      | true =>
          rw [cuts_cut hstep, List.mem_cons] at h
          rcases h with rfl | h
          · exact Nat.le_refl k
          · exact Nat.le_of_succ_le (ih h)

end Cuts

/-!
## Pieces and cuts
-/

/-- Whether a piece at an offset covers a stretch of the text. -/
def Covers (piece : Nat × Text) (start stop : Nat) : Prop :=
  piece.1 ≤ start ∧ stop ≤ piece.1 + piece.2.length

theorem le_of_mem_placed {offset : Nat} {ps : List Text} {piece : Nat × Text}
    (h : piece ∈ placed offset ps) : offset ≤ piece.1 := by
  induction ps generalizing offset with
  | nil => cases h
  | cons p ps ih =>
      rw [placed, List.mem_cons] at h
      rcases h with rfl | h
      · exact Nat.le_refl offset
      · exact Nat.le_trans (by omega) (ih h)

theorem not_covers_of_lt {offset start stop : Nat} {ps : List Text} (hstart : start < offset) :
    ¬ ∃ piece ∈ placed offset ps, Covers piece start stop := by
  rintro ⟨piece, hpiece, hcovers⟩
  have hle := le_of_mem_placed hpiece
  exact absurd (Nat.le_trans hle hcovers.1) (by omega)

theorem exists_covers_cons_iff {offset start stop : Nat} {c : Char} {p : Text} {ps : List Text}
    (hstart : offset ≤ start) :
    (∃ piece ∈ placed offset ((c :: p) :: ps), Covers piece start stop) ↔
      ∃ piece ∈ placed (offset + 1) (p :: ps),
        Covers piece (max start (offset + 1)) (max stop (offset + 1)) := by
  have hnext : offset + (c :: p).length + 1 = offset + 1 + p.length + 1 := by
    rw [List.length_cons]
    omega
  simp only [placed, List.exists_mem_cons_iff, hnext]
  refine or_congr ?_ ?_
  · simp only [Covers, List.length_cons]
    omega
  · refine exists_congr fun piece => and_congr_right fun hpiece => ?_
    have hle := le_of_mem_placed hpiece
    simp only [Covers]
    omega

/-- A stretch lies in one piece if and only if no cut falls into it. -/
theorem exists_covers_iff {rule : Rule} {s : State} {before : Option Char} {offset start stop : Nat}
    {t : Text} (hstart : offset ≤ start) (hle : start ≤ stop) (hstop : stop ≤ offset + t.length) :
    (∃ piece ∈ placed offset (between rule s before t), Covers piece start stop) ↔
      ∀ k ∈ cuts rule s before offset t, ¬ (start ≤ k ∧ k < stop) := by
  induction t generalizing s before offset start stop with
  | nil =>
      rw [List.length_nil] at hstop
      have hcovers : Covers (offset, []) start stop := ⟨hstart, hstop⟩
      simp [between, placed, cuts, hcovers]
  | cons c t ih =>
      rw [List.length_cons] at hstop
      rcases hstep : step rule s before c t.head? with ⟨s', cut⟩
      cases cut with
      | false =>
          rw [between_cons hstep, cuts_cons hstep]
          cases hpieces : between rule s' (some c) t with
          | nil => exact absurd hpieces (between_ne_nil rule s' (some c) t)
          | cons p ps =>
              rw [List.modifyHead_cons, exists_covers_cons_iff hstart, ← hpieces,
                ih (by omega) (by omega) (by omega)]
              refine forall₂_congr fun k hk => not_congr ?_
              have hk := le_of_mem_cuts hk
              omega
      | true =>
          rw [between_cut hstep, cuts_cut hstep, placed, List.exists_mem_cons_iff,
            List.forall_mem_cons, List.length_nil]
          by_cases hbehind : offset + 1 ≤ start
          · have hfirst : ¬ Covers (offset, []) start stop := by
              simp only [Covers, List.length_nil]
              omega
            have hcut : ¬ (start ≤ offset ∧ offset < stop) := by omega
            rw [Nat.add_zero, ih hbehind hle (by omega)]
            simp only [hfirst, false_or, hcut, not_false_eq_true, true_and]
          · -- the stretch begins at the cut, and lies in a piece only if it is empty
            have hothers : ¬ ∃ piece ∈ placed (offset + 0 + 1) (between rule s' (some c) t),
                Covers piece start stop :=
              not_covers_of_lt (by omega)
            rw [or_iff_left hothers, Covers, List.length_nil]
            constructor
            · rintro ⟨-, hempty⟩
              exact ⟨by omega, fun k _ => by omega⟩
            · rintro ⟨hempty, -⟩
              omega

theorem hasAt_cons {source : Text} {offset : Nat} {c : Char} {t p : Text}
    (hat : HasAt source offset (c :: t)) (h : HasAt source (offset + 1) p) :
    HasAt source offset (c :: p) := by
  rcases hat with ⟨rest, hrest⟩
  unfold HasAt at h ⊢
  rw [← List.drop_drop, ← hrest, List.cons_append, List.drop_succ_cons, List.drop_zero] at h
  rw [← hrest, List.cons_append]
  exact List.cons_prefix_cons.mpr ⟨rfl, h⟩

theorem hasAt_of_mem_placed {source : Text} {rule : Rule} {s : State} {before : Option Char}
    {offset : Nat} {t : Text} (hat : HasAt source offset t) :
    ∀ piece ∈ placed offset (between rule s before t), HasAt source piece.1 piece.2 := by
  induction t generalizing s before offset with
  | nil =>
      intro piece hpiece
      rw [between, placed, placed, List.mem_singleton] at hpiece
      rw [hpiece]
      exact hat
  | cons c t ih =>
      rcases hstep : step rule s before c t.head? with ⟨s', cut⟩
      have hrest : ∀ piece ∈ placed (offset + 1) (between rule s' (some c) t),
          HasAt source piece.1 piece.2 := ih hat.tail
      cases cut with
      | false =>
          rw [between_cons hstep]
          cases hpieces : between rule s' (some c) t with
          | nil => exact absurd hpieces (between_ne_nil rule s' (some c) t)
          | cons p ps =>
              rw [hpieces, placed, List.forall_mem_cons] at hrest
              rw [List.modifyHead_cons, placed, List.forall_mem_cons, List.length_cons]
              refine ⟨hasAt_cons hat hrest.1, ?_⟩
              have hnext : offset + (p.length + 1) + 1 = offset + 1 + p.length + 1 := by omega
              rw [hnext]
              exact hrest.2
      | true =>
          rw [between_cut hstep, placed, List.forall_mem_cons]
          exact ⟨List.nil_prefix, hrest⟩

theorem mem_of_covers {source : Text} {piece : Nat × Text} {start stop : Nat} {c : Char}
    (hat : HasAt source piece.1 piece.2) (hcovers : Covers piece start stop) (hlt : start < stop)
    (hchar : source[start]? = some c) : c ∈ piece.2 := by
  rcases hat with ⟨rest, hrest⟩
  rcases hcovers with ⟨hstart, hstop⟩
  have hplace : piece.2[start - piece.1]? = source[start]? := by
    calc piece.2[start - piece.1]?
        = (piece.2 ++ rest)[start - piece.1]? :=
          (List.getElem?_append_left (by omega)).symm
      _ = source[start]? := by rw [hrest, List.getElem?_drop, Nat.add_sub_cancel' hstart]
  exact List.mem_of_getElem? (hplace.trans hchar)

/--
A stretch that begins with a character other than a blank lies in a piece of the text if
and only if the text is not cut inside of it.
-/
theorem exists_mem_ofText_iff {rule : Rule} {t : Text} {start stop : Nat} {c : Char}
    (hchar : t[start]? = some c) (hblank : Text.isBlank c = false) (hlt : start < stop)
    (hstop : stop ≤ t.length) :
    (∃ piece ∈ ofText rule t, Covers piece start stop) ↔
      ∀ k ∈ cuts rule .top none 0 t, ¬ (start ≤ k ∧ k < stop) := by
  have hcovers : (∃ piece ∈ placed 0 (between rule .top none t), Covers piece start stop) ↔
      ∀ k ∈ cuts rule .top none 0 t, ¬ (start ≤ k ∧ k < stop) :=
    exists_covers_iff (Nat.zero_le start) (Nat.le_of_lt hlt) (by omega)
  rw [← hcovers]
  constructor
  · rintro ⟨piece, hpiece, hcovers⟩
    exact ⟨piece, List.mem_of_mem_filter hpiece, hcovers⟩
  · rintro ⟨piece, hpiece, hcovers⟩
    have hat : HasAt t piece.1 piece.2 := by
      have hwhole : HasAt t 0 t := List.prefix_rfl
      exact hasAt_of_mem_placed hwhole piece hpiece
    have hmem := mem_of_covers hat hcovers hlt hchar
    have hkept : Text.isAllBlank piece.2 = false :=
      List.all_eq_false.mpr ⟨c, hmem, by rw [hblank]; exact Bool.false_ne_true⟩
    exact ⟨piece, List.mem_filter.mpr ⟨hpiece, by rw [hkept]; rfl⟩, hcovers⟩

end Pieces
end DesignTokens
