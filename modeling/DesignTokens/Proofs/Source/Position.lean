import DesignTokens.Proofs.Finding.Place
import DesignTokens.Source.Position
import Mathlib.Data.Prod.Lex

/-!
# Lines and columns

The lines of a source are what stands between its newlines. An offset cuts its line in two:
its position counts the lines above and the characters before it, and both parts together
are its line. So offset and position determine each other, and they have the same order.
-/

namespace DesignTokens
namespace Source

def lines (source : Text) : List Text :=
  Text.segments (· = '\n') source

def ended (ls : List Text) : Text :=
  ls.flatMap (· ++ ['\n'])

/-- A line of a source, counted from one, and a column on it or one behind its last character. -/
structure IsPosition (source : Text) (position : Nat × Nat) (line : Text) : Prop where
  number : 1 ≤ position.1 ∧ position.1 ≤ (lines source).length
  column : 1 ≤ position.2 ∧ position.2 ≤ line.length + 1
  line : (lines source)[position.1 - 1]? = some line

/-- The offset of a position: the lines above it and the characters before it on its line. -/
def offsetOf (source : Text) (position : Nat × Nat) : Nat :=
  (ended ((lines source).take (position.1 - 1))).length + (position.2 - 1)

structure CutsAt (source : Text) (offset : Nat) (above : List Text) (before behind : Text)
    (below : List Text) : Prop where
  cut : lines source = above ++ (before ++ behind) :: below
  offset : offset = (ended above).length + before.length

theorem ended_cons (line : Text) (ls : List Text) :
    ended (line :: ls) = line ++ '\n' :: ended ls :=
  (List.flatMap_cons ..).trans (List.append_assoc ..)

theorem ended_append (ls ms : List Text) : ended (ls ++ ms) = ended ls ++ ended ms :=
  List.flatMap_append

theorem ended_concat (ls : List Text) (line : Text) :
    ended (ls ++ [line]) = ended ls ++ line ++ ['\n'] := by
  rw [ended_append, ended_cons, List.append_assoc]
  rfl

theorem eq_newline_of_mem_head?_reverse_ended (ls : List Text) :
    ∀ c ∈ (ended ls).reverse.head?, c = '\n' := by
  intro c hc
  rcases List.eq_nil_or_concat ls with hnil | ⟨ls, line, hconcat⟩
  · rw [hnil] at hc
    cases hc
  · rw [hconcat, List.concat_eq_append, ended_concat, List.reverse_concat] at hc
    exact (Option.some.inj hc).symm

theorem count_newline_ended {ls : List Text} (h : ∀ line ∈ ls, '\n' ∉ line) :
    (ended ls).count '\n' = ls.length := by
  induction ls with
  | nil => rfl
  | cons line ls ih =>
      rw [List.forall_mem_cons] at h
      rw [ended_cons, List.count_append, List.count_cons_self, List.count_eq_zero_of_not_mem h.1,
        ih h.2, List.length_cons, Nat.zero_add]

theorem newline_not_mem_of_mem_lines {source line : Text} (h : line ∈ lines source) :
    '\n' ∉ line := by
  intro hc
  have hseparates := Text.separates_of_mem_segments h '\n' hc
  rw [decide_eq_true rfl] at hseparates
  cases hseparates

theorem takeWhile_line {t rest : Text} (ht : '\n' ∉ t) (hrest : ∀ c ∈ rest.head?, c = '\n') :
    (t ++ rest).takeWhile (· ≠ '\n') = t := by
  apply Text.takeWhile_append_of_stop
  · intro c hc
    rw [decide_eq_true_eq]
    intro hnewline
    exact ht (hnewline ▸ hc)
  · intro c hc
    rw [hrest c hc]
    rfl

/-!
## Cutting a line in two
-/

theorem exists_cut {ls : List Text} {offset : Nat} (hne : ls ≠ [])
    (hoffset : offset ≤ (Text.join ['\n'] ls).length) :
    ∃ above before behind below, ls = above ++ (before ++ behind) :: below ∧
      offset = (ended above).length + before.length := by
  induction ls generalizing offset with
  | nil => exact absurd rfl hne
  | cons line ls ih =>
      rcases Nat.lt_or_ge line.length offset with hbehind | hon
      · have hls : ls ≠ [] := by
          intro hnil
          rw [hnil] at hoffset
          exact absurd hbehind (Nat.not_lt.mpr hoffset)
        rw [Text.join_cons hls, List.length_append, List.length_cons] at hoffset
        have hrest : offset - (line.length + 1) ≤ (Text.join ['\n'] ls).length := by omega
        rcases ih hls hrest with ⟨above, before, behind, below, hcut, hlength⟩
        refine ⟨line :: above, before, behind, below, ?_, ?_⟩
        · rw [hcut, List.cons_append]
        · rw [ended_cons, List.length_append, List.length_cons]
          omega
      · refine ⟨[], line.take offset, line.drop offset, ls, ?_, ?_⟩
        · rw [List.take_append_drop, List.nil_append]
        · rw [List.length_take_of_le hon]
          exact (Nat.zero_add offset).symm

theorem exists_cutsAt {source : Text} {offset : Nat} (h : offset ≤ source.length) :
    ∃ above before behind below, CutsAt source offset above before behind below := by
  have hoffset : offset ≤ (Text.join ['\n'] (lines source)).length := by
    rw [lines, Text.join_segments]
    exact h
  rcases exists_cut (Text.segments_ne_nil _ source) hoffset with
    ⟨above, before, behind, below, hlines, hlength⟩
  exact ⟨above, before, behind, below, hlines, hlength⟩

section Cut

variable {source before behind : Text} {offset : Nat} {above below : List Text}

theorem CutsAt.exists_rest (h : CutsAt source offset above before behind below) :
    ∃ rest, source = ended above ++ before ++ (behind ++ rest) ∧
      ∀ c ∈ rest.head?, c = '\n' := by
  have hsource := Text.join_segments '\n' source
  change Text.join ['\n'] (lines source) = source at hsource
  rw [h.cut, Text.join_append_of_ne_nil _ _ (List.cons_ne_nil _ _), ← ended] at hsource
  cases below with
  | nil =>
      refine ⟨[], ?_, nofun⟩
      rw [← hsource, List.append_nil, List.append_assoc]
      rfl
  | cons line below =>
      refine ⟨'\n' :: Text.join ['\n'] (line :: below), ?_, ?_⟩
      · rw [← hsource, Text.join_cons (List.cons_ne_nil _ _)]
        simp only [List.append_assoc]
      · intro c hc
        exact (Option.some.inj hc).symm

theorem CutsAt.take_drop (h : CutsAt source offset above before behind below) :
    source.take offset = ended above ++ before ∧
      ∃ rest, source.drop offset = behind ++ rest ∧ ∀ c ∈ rest.head?, c = '\n' := by
  rcases h.exists_rest with ⟨rest, hsource, hrest⟩
  have hoffset : offset = (ended above ++ before).length := by
    rw [List.length_append, h.offset]
  constructor
  · rw [hsource, hoffset, List.take_left]
  · refine ⟨rest, ?_, hrest⟩
    rw [hsource, hoffset, List.drop_left]

theorem CutsAt.le_length (h : CutsAt source offset above before behind below) :
    offset ≤ source.length := by
  have hlength := congrArg List.length h.take_drop.1
  rw [List.length_append, ← h.offset, List.length_take] at hlength
  omega

theorem CutsAt.newline_not_mem (h : CutsAt source offset above before behind below) :
    (∀ line ∈ above, '\n' ∉ line) ∧ '\n' ∉ before ∧ '\n' ∉ behind := by
  have hmem : ∀ line ∈ above ++ (before ++ behind) :: below, '\n' ∉ line := by
    rw [← h.cut]
    exact fun line => newline_not_mem_of_mem_lines
  rw [List.forall_mem_append, List.forall_mem_cons, List.mem_append, not_or] at hmem
  exact ⟨hmem.1, hmem.2.1⟩

theorem CutsAt.count_newline (h : CutsAt source offset above before behind below) :
    (source.take offset).count '\n' = above.length := by
  rcases h.newline_not_mem with ⟨habove, hbefore, -⟩
  rw [h.take_drop.1, List.count_append, count_newline_ended habove,
    List.count_eq_zero_of_not_mem hbefore, Nat.add_zero]

theorem CutsAt.lineBefore_eq (h : CutsAt source offset above before behind below) :
    lineBefore source offset = before := by
  have hbefore : '\n' ∉ before.reverse := by
    rw [List.mem_reverse]
    exact h.newline_not_mem.2.1
  rw [lineBefore, h.take_drop.1, List.reverse_append,
    takeWhile_line hbefore (eq_newline_of_mem_head?_reverse_ended above), List.reverse_reverse]

theorem CutsAt.lineAfter_eq (h : CutsAt source offset above before behind below) :
    lineAfter source offset = behind := by
  rcases h.take_drop.2 with ⟨rest, hdrop, hrest⟩
  rw [lineAfter, hdrop, takeWhile_line h.newline_not_mem.2.2 hrest]

/-!
## Positions of offsets
-/

/-- The position counts the lines above and the characters before an offset. -/
theorem CutsAt.lineAndColumn_eq (h : CutsAt source offset above before behind below) :
    lineAndColumn source offset = (above.length + 1, before.length + 1) := by
  have hinside : ¬ ((offset : Int) < 0 ∨ (source.length : Int) < offset) := by
    have := h.le_length
    omega
  rw [lineAndColumn, if_neg hinside]
  dsimp only
  rw [Int.toNat_natCast, h.count_newline, h.lineBefore_eq]

theorem CutsAt.fullLine_eq (h : CutsAt source offset above before behind below) :
    fullLine source offset = before ++ behind := by
  rw [fullLine, place_natCast h.le_length, h.lineBefore_eq, h.lineAfter_eq]

theorem CutsAt.isPosition (h : CutsAt source offset above before behind below) :
    IsPosition source (above.length + 1, before.length + 1) (before ++ behind) := by
  constructor
  · rw [h.cut, List.length_append, List.length_cons]
    omega
  · rw [List.length_append]
    omega
  · rw [h.cut, Nat.add_sub_cancel, List.getElem?_append_right (Nat.le_refl _), Nat.sub_self]
    rfl

theorem CutsAt.offsetOf_eq (h : CutsAt source offset above before behind below) :
    offsetOf source (above.length + 1, before.length + 1) = offset := by
  rw [offsetOf, h.cut, Nat.add_sub_cancel, Nat.add_sub_cancel, List.take_left, h.offset]

end Cut

section Position

variable {source line : Text} {position : Nat × Nat}

/-- A position cuts its line before its column. -/
theorem IsPosition.cutsAt (h : IsPosition source position line) :
    CutsAt source (offsetOf source position) ((lines source).take (position.1 - 1))
      (line.take (position.2 - 1)) (line.drop (position.2 - 1))
      ((lines source).drop position.1) := by
  have hcolumn : position.2 - 1 ≤ line.length := by
    have := h.column
    omega
  constructor
  · rcases List.getElem?_eq_some_iff.mp h.line with ⟨hlt, hline⟩
    have hnext : position.1 - 1 + 1 = position.1 := Nat.sub_add_cancel h.number.1
    have hdrop := List.drop_eq_getElem_cons hlt
    rw [hline, hnext] at hdrop
    rw [List.take_append_drop, ← hdrop, List.take_append_drop]
  · rw [List.length_take_of_le hcolumn, offsetOf]

theorem IsPosition.lineAndColumn_eq (h : IsPosition source position line) :
    lineAndColumn source (offsetOf source position) = position := by
  have hlength : position.1 - 1 ≤ (lines source).length := by
    have := h.number
    omega
  have hcolumn : position.2 - 1 ≤ line.length := by
    have := h.column
    omega
  rw [h.cutsAt.lineAndColumn_eq, List.length_take_of_le hlength, List.length_take_of_le hcolumn,
    Nat.sub_add_cancel h.number.1, Nat.sub_add_cancel h.column.1]

theorem IsPosition.length_ended_take (h : IsPosition source position line) :
    (ended ((lines source).take position.1)).length =
      (ended ((lines source).take (position.1 - 1))).length + (line.length + 1) := by
  have hnext : position.1 - 1 + 1 = position.1 := Nat.sub_add_cancel h.number.1
  rw [← hnext, List.take_add_one, Nat.add_sub_cancel, h.line, ended_append, List.length_append,
    Option.toList_some, ended_cons, List.length_append]
  rfl

theorem length_ended_take_le (ls : List Text) {n m : Nat} (h : n ≤ m) :
    (ended (ls.take n)).length ≤ (ended (ls.take m)).length := by
  rcases List.take_prefix_take_left (l := ls) h with ⟨rest, hrest⟩
  rw [← hrest, ended_append, List.length_append]
  exact Nat.le_add_right _ _

/-- What is further behind on its line, or on a line further below, has a greater offset. -/
theorem IsPosition.offsetOf_lt {position' : Nat × Nat} (h : IsPosition source position line)
    (hlt : toLex position < toLex position') :
    offsetOf source position < offsetOf source position' := by
  have hcolumn := h.column
  rw [offsetOf, offsetOf]
  rcases Prod.Lex.toLex_lt_toLex.mp hlt with hbelow | ⟨hsame, hbehind⟩
  · have hlines := length_ended_take_le (lines source) (Nat.le_sub_one_of_lt hbelow)
    rw [h.length_ended_take] at hlines
    omega
  · rw [← hsame]
    omega

end Position

section Order

variable {source : Text} {offset a b : Int}

theorem isPosition_lineAndColumn (hpos : 0 ≤ offset) (hle : offset ≤ source.length) :
    IsPosition source (lineAndColumn source offset) (fullLine source offset) ∧
      offset = offsetOf source (lineAndColumn source offset) := by
  obtain ⟨n, rfl⟩ := Int.eq_ofNat_of_zero_le hpos
  rcases exists_cutsAt (Int.ofNat_le.mp hle) with ⟨above, before, behind, below, hcut⟩
  rw [hcut.lineAndColumn_eq, hcut.fullLine_eq, hcut.offsetOf_eq]
  exact ⟨hcut.isPosition, rfl⟩

theorem lineAndColumn_eq_zero_iff :
    lineAndColumn source offset = (0, 0) ↔ offset < 0 ∨ (source.length : Int) < offset := by
  constructor
  · intro hzero
    by_contra hinside
    rw [not_or, Int.not_lt, Int.not_lt] at hinside
    have hnumber := (isPosition_lineAndColumn hinside.1 hinside.2).1.number.1
    rw [hzero] at hnumber
    exact absurd hnumber (by decide)
  · intro houtside
    exact if_pos houtside

theorem lineAndColumn_inj (ha : 0 ≤ a) (ha' : a ≤ source.length) (hb : 0 ≤ b)
    (hb' : b ≤ source.length) (h : lineAndColumn source a = lineAndColumn source b) : a = b := by
  rw [(isPosition_lineAndColumn ha ha').2, (isPosition_lineAndColumn hb hb').2, h]

theorem lt_of_lineAndColumn_lt (ha : 0 ≤ a) (ha' : a ≤ source.length) (hb : 0 ≤ b)
    (hb' : b ≤ source.length)
    (h : toLex (lineAndColumn source a) < toLex (lineAndColumn source b)) : a < b := by
  rcases isPosition_lineAndColumn ha ha' with ⟨hposition, hoffset⟩
  rw [hoffset, (isPosition_lineAndColumn hb hb').2]
  exact Int.ofNat_lt.mpr (hposition.offsetOf_lt h)

theorem lt_iff_lineAndColumn_lt (ha : 0 ≤ a) (ha' : a ≤ source.length) (hb : 0 ≤ b)
    (hb' : b ≤ source.length) :
    a < b ↔ toLex (lineAndColumn source a) < toLex (lineAndColumn source b) := by
  constructor
  · intro hlt
    rcases lt_trichotomy (toLex (lineAndColumn source a)) (toLex (lineAndColumn source b))
      with hless | hsame | hgreater
    · exact hless
    · exact absurd (lineAndColumn_inj ha ha' hb hb' (toLex_inj.mp hsame)) (Int.ne_of_lt hlt)
    · exact absurd hlt (lt_asymm (lt_of_lineAndColumn_lt hb hb' ha ha' hgreater))
  · exact lt_of_lineAndColumn_lt ha ha' hb hb'

end Order

/--
Offsets in a source and positions in it correspond to each other in the same order, with
`offsetOf` as the way back. An offset outside of the source has no position.
-/
theorem lineAndColumn_invertible (source : Text) :
    (∀ offset : Int, lineAndColumn source offset = (0, 0) ↔
      offset < 0 ∨ (source.length : Int) < offset) ∧
    (∀ offset : Int, 0 ≤ offset → offset ≤ source.length →
      IsPosition source (lineAndColumn source offset) (fullLine source offset) ∧
        offset = offsetOf source (lineAndColumn source offset)) ∧
    (∀ position line, IsPosition source position line →
      offsetOf source position ≤ source.length ∧
        lineAndColumn source (offsetOf source position) = position) ∧
    ∀ a b : Int, 0 ≤ a → a ≤ source.length → 0 ≤ b → b ≤ source.length →
      (lineAndColumn source a = lineAndColumn source b → a = b) ∧
        (a < b ↔ toLex (lineAndColumn source a) < toLex (lineAndColumn source b)) := by
  refine ⟨?_, ?_, ?_, ?_⟩
  · intro offset
    exact lineAndColumn_eq_zero_iff
  · intro offset hpos hle
    exact isPosition_lineAndColumn hpos hle
  · intro position line hposition
    exact ⟨hposition.cutsAt.le_length, hposition.lineAndColumn_eq⟩
  · intro a b ha ha' hb hb'
    exact ⟨lineAndColumn_inj ha ha' hb hb', lt_iff_lineAndColumn_lt ha ha' hb hb'⟩

theorem lineAndColumn_invertible_emptyLine :
    (0 : Int) ≤ 2 ∧ (2 : Int) ≤ "ab\n\nc".toList.length ∧ (0 : Int) ≤ 3 ∧
      (3 : Int) ≤ "ab\n\nc".toList.length ∧
      IsPosition "ab\n\nc".toList (1, 3) "ab".toList ∧ IsPosition "ab\n\nc".toList (2, 1) [] ∧
      toLex (1, 3) < toLex (2, 1) := by
  have hnewline : lineAndColumn "ab\n\nc".toList 2 = (1, 3) ∧
      fullLine "ab\n\nc".toList 2 = "ab".toList := by decide
  have hempty : lineAndColumn "ab\n\nc".toList 3 = (2, 1) ∧
      fullLine "ab\n\nc".toList 3 = [] := by decide
  rcases lineAndColumn_invertible "ab\n\nc".toList with ⟨-, hposition, -, horder⟩
  have hfirst := (hposition 2 (by decide) (by decide)).1
  have hsecond := (hposition 3 (by decide) (by decide)).1
  have hlt := (horder 2 3 (by decide) (by decide) (by decide) (by decide)).2.mp (by decide)
  rw [hnewline.1, hnewline.2] at hfirst
  rw [hempty.1, hempty.2] at hsecond
  rw [hnewline.1, hempty.1] at hlt
  exact ⟨by decide, by decide, by decide, by decide, hfirst, hsecond, hlt⟩

end Source
end DesignTokens
