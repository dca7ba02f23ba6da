import DesignTokens.Proofs.InlineStyle.Entry
import DesignTokens.Proofs.Source.CommentRow
import DesignTokens.Proofs.Source.Literal

/-!
# Plain and computed values

A value is reported as a plain literal if one literal without expressions stands at its
beginning and everything behind it can be cut into comments. All other values count as
computed. This is too little, where comments stand before the literal, and too much,
where a comment runs past its end mark over what is computed.
-/

namespace DesignTokens

def Scan.IsLiteralBefore (rest t : Text) : Prop :=
  ∃ quote u, isQuote quote = true ∧ IsLiteralText quote u ∧ t = quote :: (u ++ quote :: rest)

theorem Scan.IsLiteralBefore.unique {rest rest' t : Text} (h : IsLiteralBefore rest t)
    (h' : IsLiteralBefore rest' t) : rest = rest' := by
  rcases h with ⟨quote, u, hquote, hu, rfl⟩
  rcases h' with ⟨quote', u', hquote', hu', ht⟩
  have hread := literal_written 0 0 rest hquote hu
  rw [ht, literal_written 0 0 rest' hquote' hu'] at hread
  simp only [Except.ok.injEq, Option.some.injEq, Literal.mk.injEq] at hread
  rcases hread with ⟨rfl, -, -, rfl, -⟩
  simpa using ht

namespace InlineStyle

open Scan (IsLiteralBefore)
open Source (IsGap IsLooseRow)

/-!
## Values
-/

/-- One literal without expressions, with blanks and complete comments around it. -/
def IsOneLiteral (t : Text) : Prop :=
  ∃ lead s tail, IsGap false lead ∧ IsGap true tail ∧ t = lead ++ s ∧ IsLiteralBefore tail s

/--
A value that is taken for what it is not: a literal behind comments, or a literal and
something else that is cut into comments.
-/
def IsMisread (t : Text) : Prop :=
  (∃ lead s tail, lead ≠ [] ∧ IsGap false lead ∧ IsGap true tail ∧ t = lead ++ s ∧
      IsLiteralBefore tail s) ∨
    ∃ row, IsLooseRow row ∧ ¬ IsGap true row ∧ IsLiteralBefore row t

theorem isSome_plainLiteral?_iff {value : Window} :
    (plainLiteral? value).isSome = true ↔
      ∃ row, IsLooseRow row ∧ IsLiteralBefore row value.text := by
  have hdrop : ∀ (quote : Char) (u rest : Text),
      (quote :: (u ++ quote :: rest)).drop (value.start + u.length + 2 - value.start) = rest := by
    intro quote u rest
    have hlength : value.start + u.length + 2 - value.start = u.length + 1 + 1 := by omega
    rw [hlength, List.drop_succ_cons, ← List.drop_drop, List.drop_left]
    rfl
  constructor
  · intro h
    rcases Option.isSome_iff_exists.mp h with ⟨l, hl⟩
    rcases Option.filter_eq_some_iff.mp hl with ⟨hliteral, hplain⟩
    rw [Bool.and_eq_true, Bool.not_eq_true'] at hplain
    rcases (Scan.literal_static_iff 0 value.start).mp
      ⟨Scan.eq_ok_of_found hliteral, hplain.1⟩ with ⟨quote, u, rest, hquote, hu, ht, rfl⟩
    have hrow := hplain.2
    rw [ht, hdrop, Source.isComments_iff] at hrow
    exact ⟨rest, hrow, quote, u, hquote, hu, ht⟩
  · rintro ⟨row, hrow, quote, u, hquote, hu, ht⟩
    rcases (Scan.literal_static_iff 0 value.start).mpr ⟨quote, u, row, hquote, hu, ht, rfl⟩ with
      ⟨hread, hstatic⟩
    have hliteral : value.literal? = some ⟨quote, value.start, value.start + u.length + 2, u, []⟩ :=
      congrArg Scan.found hread
    rw [Option.isSome_iff_exists]
    refine ⟨_, Option.filter_eq_some_iff.mpr ⟨hliteral, ?_⟩⟩
    rw [hstatic, ht, hdrop, Source.isComments_iff.mpr hrow]
    rfl

theorem not_isLiteralBefore_of_isGap {lead s row : Text} (h : IsGap false lead) (hne : lead ≠ []) :
    ¬ IsLiteralBefore row (lead ++ s) := by
  rintro ⟨quote, u, hquote, -, ht⟩
  cases lead with
  | nil => exact hne rfl
  | cons c lead =>
      have hc : c = quote := (List.cons.inj ht).1
      subst hc
      rcases h.head with hblank | rfl
      · rw [Scan.isBlank_of_isQuote hquote] at hblank
        cases hblank
      · exact absurd hquote (by decide)

theorem isOneLiteral_iff_isGap {t row : Text} (h : IsLiteralBefore row t) :
    IsOneLiteral t ↔ IsGap true row := by
  constructor
  · rintro ⟨lead, s, tail, hlead, htail, rfl, hs⟩
    by_cases hne : lead = []
    · subst hne
      exact hs.unique h ▸ htail
    · exact absurd h (not_isLiteralBefore_of_isGap hlead hne)
  · intro hrow
    exact ⟨[], t, row, .nil, hrow, rfl, h⟩

theorem isMisread_iff_of_isLiteralBefore {t row : Text} (h : IsLiteralBefore row t) :
    IsMisread t ↔ IsLooseRow row ∧ ¬ IsGap true row := by
  constructor
  · rintro (⟨lead, s, tail, hne, hlead, -, rfl, -⟩ | ⟨row', hrow, hgap, h'⟩)
    · exact absurd h (not_isLiteralBefore_of_isGap hlead hne)
    · exact h'.unique h ▸ ⟨hrow, hgap⟩
  · rintro ⟨hrow, hgap⟩
    exact .inr ⟨row, hrow, hgap, h⟩

theorem isMisread_iff_isOneLiteral {t : Text} (h : ∀ row, ¬ IsLiteralBefore row t) :
    IsMisread t ↔ IsOneLiteral t := by
  constructor
  · rintro (⟨lead, s, tail, -, hlead, htail, ht, hs⟩ | ⟨row, -, -, h'⟩)
    · exact ⟨lead, s, tail, hlead, htail, ht, hs⟩
    · exact absurd h' (h row)
  · rintro ⟨lead, s, tail, hlead, htail, rfl, hs⟩
    refine .inl ⟨lead, s, tail, ?_, hlead, htail, rfl, hs⟩
    rintro rfl
    exact h tail hs

/-- What is accepted as a plain literal is one literal, and all of these, unless it is misread. -/
theorem accepted_iff_isOneLiteral {t : Text}
    (hlast : ∀ c ∈ t.getLast?, Text.isBlank c = false) :
    ((∃ row, IsLooseRow row ∧ IsLiteralBefore row t) ↔ IsOneLiteral t) ↔ ¬ IsMisread t := by
  by_cases h : ∃ row, IsLiteralBefore row t
  · rcases h with ⟨row, h⟩
    have haccepted : (∃ row, IsLooseRow row ∧ IsLiteralBefore row t) ↔ IsLooseRow row := by
      refine ⟨?_, fun hrow => ⟨row, hrow, h⟩⟩
      rintro ⟨row', hrow, h'⟩
      exact h'.unique h ▸ hrow
    have hgap : IsGap true row → IsLooseRow row := by
      intro hgap
      rcases h with ⟨quote, u, -, -, rfl⟩
      refine hgap.isLooseRow fun c hc => hlast c ?_
      rw [List.getLast?_cons, List.getLast?_append, List.getLast?_cons, Option.mem_def.mp hc]
      rfl
    rw [haccepted, isOneLiteral_iff_isGap h, isMisread_iff_of_isLiteralBefore h]
    tauto
  · rw [not_exists] at h
    have hnone : ¬ ∃ row, IsLooseRow row ∧ IsLiteralBefore row t := fun ⟨row, _, h'⟩ => h row h'
    rw [isMisread_iff_isOneLiteral h]
    tauto

/-!
## Reports
-/

/-- The report on a plain literal: one record that is not dynamic, or a remark on its shape. -/
inductive IsPlainReport (slot : Slot) : Report → Prop where
  | record {f : Finding} : f.details.dynamic = false → IsPlainReport slot ⟨[f], []⟩
  | remark (value : Text) :
      IsPlainReport slot
        (remark .info
          ("Value for ".toList ++ slot.property ++ " is not a ".toList ++ slot.category.name ++
            " literal".toList)
          value)

/-- The report on a computed value: records that are dynamic, or a remark. -/
inductive IsComputedReport (slot : Slot) : Report → Prop where
  | records {fs : List Finding} : fs ≠ [] → (∀ f ∈ fs, f.details.dynamic = true) →
      IsComputedReport slot ⟨fs, []⟩
  | remark (value : Text) :
      IsComputedReport slot
        (remark .info
          ("Computed value for ".toList ++ slot.property ++ " was not evaluated".toList) value)

section Entry

variable {site : Site} {slot : Slot} {value : Window}

theorem isPlainReport_plainReport (site : Site) (slot : Slot) (l : Literal Nat) :
    IsPlainReport slot (plainReport site slot l) := by
  unfold plainReport
  split
  · exact .record (dynamic_describe slot.category _ false)
  · exact .remark _

theorem isComputedReport_computedReport (site : Site) (slot : Slot) (value : Window) :
    IsComputedReport slot (computedReport site slot value) := by
  unfold computedReport
  split
  · exact .remark _
  · rename_i ls hls
    refine .records (by simpa using hls) fun f hf => ?_
    rcases List.mem_map.mp hf with ⟨l, -, rfl⟩
    exact dynamic_describe slot.category _ true

theorem IsComputedReport.dynamic {r : Report} (h : IsComputedReport slot r) :
    ∀ f ∈ r.findings, f.details.dynamic = true := by
  cases h with
  | records _ hfs => exact hfs
  | remark v => exact fun f hf => absurd hf List.not_mem_nil

theorem IsPlainReport.not_isComputedReport {r : Report} (h : IsPlainReport slot r) :
    ¬ IsComputedReport slot r := by
  intro hcomputed
  -- two records differ in being dynamic, two remarks in the first letter of their messages
  have hmessage : ∀ d ∈ r.diagnostics, d.message.head? = some 'C' := by
    cases hcomputed with
    | records _ _ => exact fun d hd => absurd hd List.not_mem_nil
    | remark v =>
        intro d hd
        cases List.mem_singleton.mp hd
        rfl
  cases h with
  | record hf =>
      rw [hcomputed.dynamic _ (List.mem_singleton_self _)] at hf
      cases hf
  | remark v => cases hmessage _ (List.mem_singleton_self _)

theorem strip_of_mem_entries {body : Window} {e : Entry} (he : e ∈ entries body) :
    Text.strip e.value.text = e.value.text := by
  rcases List.mem_filterMap.mp he with ⟨piece, -, hentry⟩
  unfold entry? at hentry
  split at hentry
  · cases hentry
  · dsimp only at hentry
    split at hentry
    · cases hentry
    · cases hentry
      rw [Window.strip_text, Text.strip_strip]

/--
The report on an entry whose value is no object. It is that on a plain literal exactly if
a literal without expressions begins the value and the rest can be cut into comments; in
every other case all records are dynamic. These are the values that are one literal, up to
blanks and complete comments around it, exactly as far as they are not misread.
-/
theorem entryReport_isPlainReport_iff (site : Site) (inner : List Text → Window → Report)
    (path : List Text) {body : Window} {e : Entry} {slot : Slot} (he : e ∈ entries body)
    (hobject : e.value.text.head? ≠ some '{')
    (hslot : slot? site.options path e.key = some slot) :
    (IsPlainReport slot (entryReport site inner path e) ↔
        ∃ row, IsLooseRow row ∧ IsLiteralBefore row e.value.text) ∧
      (¬ IsPlainReport slot (entryReport site inner path e) →
        IsComputedReport slot (entryReport site inner path e)) ∧
      ((IsPlainReport slot (entryReport site inner path e) ↔ IsOneLiteral e.value.text) ↔
        ¬ IsMisread e.value.text) := by
  have hvalue : entryReport site inner path e = valueReport site slot e.value := by
    simp only [entryReport, if_neg hobject, hslot]
  have hlast : ∀ c ∈ e.value.text.getLast?, Text.isBlank c = false := by
    intro c hc
    rw [← strip_of_mem_entries he] at hc
    exact Text.isBlank_of_getLast?_strip hc
  have hplain : IsPlainReport slot (entryReport site inner path e) ↔
      ∃ row, IsLooseRow row ∧ IsLiteralBefore row e.value.text := by
    rw [← isSome_plainLiteral?_iff, hvalue, valueReport]
    cases plainLiteral? e.value with
    | none =>
        have hcomputed := isComputedReport_computedReport site slot e.value
        exact iff_of_false (fun h => h.not_isComputedReport hcomputed) Bool.false_ne_true
    | some l => exact iff_of_true (isPlainReport_plainReport site slot l) rfl
  refine ⟨hplain, fun hnot => ?_, ?_⟩
  · rw [hplain, ← isSome_plainLiteral?_iff, Option.not_isSome_iff_eq_none] at hnot
    rw [hvalue, valueReport, hnot]
    exact isComputedReport_computedReport site slot e.value
  · rw [hplain]
    exact accepted_iff_isOneLiteral hlast

end Entry

def commentedStyle : Text :=
  "<div style=\x7b\x7b color: /* a */ '#fff', padding: '4px' /* b */ + x /* c */ \x7d\x7d />".toList

theorem entryReport_isPlainReport_iff_commentedStyle :
    ∃ body before past, (tailAt commentedStyle 12).body? = some body ∧
      entries body = [before, past] ∧
      (IsOneLiteral before.value.text ∧
        ¬ IsPlainReport ⟨.color, "color".toList, ["style".toList, "color".toList]⟩
          (entryReport ⟨commentedStyle, .standard, 5⟩ (fun _ _ => .empty) ["style".toList]
            before)) ∧
      ¬ IsOneLiteral past.value.text ∧
        IsPlainReport ⟨.spacing, "padding".toList, ["style".toList, "padding".toList]⟩
          (entryReport ⟨commentedStyle, .standard, 5⟩ (fun _ _ => .empty) ["style".toList]
            past) := by
  have hentries : (tailAt commentedStyle 12).body?.map entries =
      some
        [⟨"color".toList, ⟨21, some ' ', "/* a */ '#fff'".toList⟩⟩,
          ⟨"padding".toList, ⟨46, some ' ', "'4px' /* b */ + x /* c */".toList⟩⟩] := by
    decide +kernel
  rcases Option.map_eq_some_iff.mp hentries with ⟨body, hbody, hentries⟩
  have hcolor : slot? .standard ["style".toList] "color".toList =
      some ⟨.color, "color".toList, ["style".toList, "color".toList]⟩ := by
    decide +kernel
  have hpadding : slot? .standard ["style".toList] "padding".toList =
      some ⟨.spacing, "padding".toList, ["style".toList, "padding".toList]⟩ := by
    decide +kernel
  have hbefore := entryReport_isPlainReport_iff ⟨commentedStyle, .standard, 5⟩
    (fun _ _ => .empty) ["style".toList] (hentries ▸ List.mem_cons_self) (by decide) hcolor
  have hpast := entryReport_isPlainReport_iff ⟨commentedStyle, .standard, 5⟩
    (fun _ _ => .empty) ["style".toList] (hentries ▸ List.mem_cons_of_mem _ List.mem_cons_self)
    (by decide) hpadding
  have hlead : IsGap false "/* a */ ".toList :=
    @IsGap.block false " a ".toList [' '] (by decide) (.blank (by decide) .nil)
  have hliteral : IsLiteralBefore [] "'#fff'".toList :=
    ⟨'\'', "#fff".toList, by decide, by decide, rfl⟩
  have hone : IsOneLiteral "/* a */ '#fff'".toList :=
    ⟨"/* a */ ".toList, "'#fff'".toList, [], hlead, .nil, rfl, hliteral⟩
  have hmisread : IsMisread "/* a */ '#fff'".toList :=
    .inl ⟨"/* a */ ".toList, "'#fff'".toList, [], by decide, hlead, .nil, rfl, hliteral⟩
  have hrow : IsLooseRow " /* b */ + x /* c */".toList :=
    Source.isComments_iff.mp (by decide +kernel)
  have hoperand :
      IsLiteralBefore " /* b */ + x /* c */".toList "'4px' /* b */ + x /* c */".toList :=
    ⟨'\'', "4px".toList, by decide, by decide, rfl⟩
  refine ⟨body, _, _, hbody, hentries, ⟨hone, fun hplain => ?_⟩, ?_, ?_⟩
  · exact hbefore.2.2.mp (iff_of_true hplain hone) hmisread
  · rw [isOneLiteral_iff_isGap hoperand]
    decide +kernel
  · exact hpast.1.mpr ⟨_, hrow, hoperand⟩

end InlineStyle
end DesignTokens
