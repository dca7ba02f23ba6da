import DesignTokens.Proofs.Source.Literal
import DesignTokens.Text.Pieces

/-!
# Where literals are looked for

The scan for literals looks for one behind every comment, behind every literal that it
finds, and behind every other character. A quote at such a place with which no literal
begins is stray.
-/

namespace DesignTokens
namespace Scan

open Pieces (commentAt?)

/-- The places at which the scan for literals looks for one, in a text at an offset. -/
def looks (before : Option Char) (offset : Nat) : Text → List Window
  | [] => []
  | c :: t =>
      match commentAt? before c t.head? with
      | none =>
          match Window.literal? ⟨offset, before, c :: t⟩ with
          | none => ⟨offset, before, c :: t⟩ :: looks (some c) (offset + 1) t
          | some l =>
              ⟨offset, before, c :: t⟩ :: looks (some c) l.stop (t.drop (l.stop - offset - 1))
      | some .line =>
          match h : afterLine? (offset + 1) t with
          | none => []
          | some (stop, rest) =>
              have := length_of_afterLine? h
              looks (some '\n') stop rest
      | some _ =>
          match h : afterBlock? (offset + 2) t.tail with
          | none => []
          | some (stop, rest) =>
              have := length_of_afterBlock? h
              looks (some '/') stop rest
termination_by t => t.length
decreasing_by
  · simp only [List.length_cons]
    omega
  · simp only [List.length_cons, List.length_drop]
    omega
  · simp only [List.length_cons]
    omega
  · simp only [List.length_cons, List.length_tail] at *
    omega

theorem commentAt?_eq_line_iff {before next : Option Char} {c : Char} :
    commentAt? before c next = some .line ↔ c = '/' ∧ next = some '/' ∧ before ≠ some ':' := by
  unfold commentAt?
  split
  · simp_all
  · split <;> simp_all

theorem commentAt?_eq_none_iff {before next : Option Char} {c : Char} :
    commentAt? before c next = none ↔
      ¬ (c = '/' ∧ next = some '/' ∧ before ≠ some ':') ∧ ¬ (c = '/' ∧ next = some '*') := by
  unfold commentAt?
  split
  · simp_all
  · split <;> simp_all

theorem block_of_commentAt? {before next : Option Char} {c : Char} {place : Pieces.Place}
    (hline : place ≠ .line) (h : commentAt? before c next = some place) :
    place = .opening ∧ ¬ (c = '/' ∧ next = some '/' ∧ before ≠ some ':') ∧
      (c = '/' ∧ next = some '*') := by
  unfold commentAt? at h
  split at h
  · cases h
    exact absurd rfl hline
  · split at h
    · cases h
      simp_all
    · cases h

theorem literal?_eq {before : Option Char} {offset : Nat} {t : Text}
    {result : Option (Literal Nat)} (h : literal 0 offset t = .ok result) :
    Window.literal? ⟨offset, before, t⟩ = result := by
  unfold Window.literal?
  rw [h]
  rfl

/-- The scan finds the literals with which the places begin where it looks for one. -/
theorem literals_eq_looks {before : Option Char} {offset : Nat} {t : Text}
    {ls : List (Literal Nat)} (h : literals 0 false before offset t = .ok ls) :
    ls = (looks before offset t).filterMap Window.literal? := by
  fun_induction looks before offset t generalizing ls with
  | case1 before offset =>
      rw [literals] at h
      cases h
      rfl
  | case2 before offset c t hcomment hnone ih =>
      rw [commentAt?_eq_none_iff] at hcomment
      rw [literals, if_neg hcomment.1, if_neg hcomment.2] at h
      rcases Except.bind_eq_ok.mp h with ⟨result, hresult, h⟩
      have hfound : result = none := (literal?_eq hresult).symm.trans hnone
      rw [hfound] at h
      rw [List.filterMap_cons_none hnone]
      exact ih h
  | case3 before offset c t hcomment l hl ih =>
      rw [commentAt?_eq_none_iff] at hcomment
      rw [literals, if_neg hcomment.1, if_neg hcomment.2] at h
      rcases Except.bind_eq_ok.mp h with ⟨result, hresult, h⟩
      have hfound : result = some l := (literal?_eq hresult).symm.trans hl
      rw [hfound] at h
      rcases Except.bind_eq_ok.mp h with ⟨inner, hinner, h⟩
      rcases Except.bind_eq_ok.mp h with ⟨later, hlater, h⟩
      cases hinner
      cases h
      rw [List.filterMap_cons_some hl, ← ih hlater]
      rfl
  | case4 before offset c t hline hnone =>
      rw [commentAt?_eq_line_iff] at hline
      rw [literals_line hline, hnone] at h
      cases h
      rfl
  | case5 before offset c t hline stop rest hstop _ ih =>
      rw [commentAt?_eq_line_iff] at hline
      rw [literals_line hline, hstop] at h
      exact ih h
  | case6 before offset c t place hline hplace hnone =>
      rcases block_of_commentAt? hline hplace with ⟨-, hnot, hblock⟩
      rw [literals_block hnot hblock, hnone] at h
      cases h
      rfl
  | case7 before offset c t place hline hplace stop rest hstop _ ih =>
      rcases block_of_commentAt? hline hplace with ⟨-, hnot, hblock⟩
      rw [literals_block hnot hblock, hstop] at h
      exact ih h

/-!
## Places and what is read there
-/

open Source (HasAt)

section Looks

variable {before : Option Char} {offset : Nat} {c : Char} {t : Text} {w : Window} {l : Literal Nat}

theorem exists_of_literal? (h : w.literal? = some l) :
    isQuote l.quote = true ∧ l.start = w.start ∧ l.stop = w.start + l.text.length + 2 ∧
      ∃ rest, w.text = l.quote :: (l.text ++ l.quote :: rest) := by
  have hread : literal 0 w.start w.text = .ok (some l) := eq_ok_of_found h
  cases htext : w.text with
  | nil =>
      rw [htext] at hread
      exact absurd hread (atEnd_ne_found 0 l)
  | cons c t =>
      rw [htext] at hread
      rcases exists_of_literal hread with ⟨hquote, rfl, rest, rfl, hstop⟩
      exact ⟨hquote, (literal_spec hread).1, hstop, rest, rfl⟩

theorem lt_of_literal? (h : Window.literal? ⟨offset, before, t⟩ = some l) : offset < l.stop := by
  have hstop := (exists_of_literal? h).2.2.1
  dsimp only at hstop
  omega

theorem le_of_mem_looks (h : w ∈ looks before offset t) : offset ≤ w.start := by
  fun_induction looks before offset t with
  | case1 => cases h
  | case2 before offset c t hcomment hnone ih =>
      rcases List.mem_cons.mp h with rfl | h
      · exact Nat.le_refl offset
      · exact Nat.le_of_succ_le (ih h)
  | case3 before offset c t hcomment m hm ih =>
      rcases List.mem_cons.mp h with rfl | h
      · exact Nat.le_refl offset
      · exact Nat.le_trans (Nat.le_of_lt (lt_of_literal? hm)) (ih h)
  | case4 => cases h
  | case5 before offset c t hline stop rest hstop _ ih =>
      rcases afterLine?_eq_drop hstop with ⟨n, rfl, -⟩
      have hle := ih h
      omega
  | case6 => cases h
  | case7 before offset c t place hline hplace stop rest hstop _ ih =>
      rcases afterBlock?_eq_drop hstop with ⟨n, rfl, -⟩
      have hle := ih h
      omega

theorem hasAt_of_mem_looks {source : Text} (hat : HasAt source offset t)
    (h : w ∈ looks before offset t) : HasAt source w.start w.text := by
  fun_induction looks before offset t with
  | case1 => cases h
  | case2 before offset c t hcomment hnone ih =>
      rcases List.mem_cons.mp h with rfl | h
      · exact hat
      · exact ih hat.tail h
  | case3 before offset c t hcomment m hm ih =>
      rcases List.mem_cons.mp h with rfl | h
      · exact hat
      · exact ih (hat.dropTo (lt_of_literal? hm)) h
  | case4 => cases h
  | case5 before offset c t hline stop rest hstop _ ih =>
      rcases afterLine?_eq_drop hstop with ⟨n, rfl, rfl⟩
      exact ih (hat.tail.drop n) h
  | case6 => cases h
  | case7 before offset c t place hline hplace stop rest hstop _ ih =>
      rcases afterBlock?_eq_drop hstop with ⟨n, rfl, rfl⟩
      have hrest : HasAt source (offset + 2 + n) (t.tail.drop n) := by
        rw [List.drop_tail, show offset + 2 + n = offset + 1 + (n + 1) by omega]
        exact hat.tail.drop (n + 1)
      exact ih hrest h

end Looks

end Scan

namespace Window

variable {t : Text} {l : Literal Nat}

theorem literals_whole_eq (hl : l ∈ (whole t).literals false) :
    (whole t).literals false = (Scan.looks none 0 t).filterMap literal? := by
  unfold literals at hl ⊢
  cases hread : Scan.literals 0 false (whole t).before (whole t).start (whole t).text with
  | ok ls => exact Scan.literals_eq_looks hread
  | error fault =>
      rw [hread] at hl
      exact absurd hl List.not_mem_nil

end Window
end DesignTokens
