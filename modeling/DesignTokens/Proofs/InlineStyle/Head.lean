import DesignTokens.Proofs.InlineStyle.Element

/-!
# Heads of style attributes

The head of the attribute of a written element is found where it is written. No
other head is found unless a comment or a literal holds one.
-/

namespace DesignTokens
namespace InlineStyle

open Reader (StopsAt)

/-!
## Reading a head
-/

theorem attributeHead_stopsAt {x : Char} (hblank : Text.isBlank x = false)
    (hx : x ∉ "style=\x7b".toList) : StopsAt x attributeHead := by
  have hsplit : "style=\x7b".toList = "style".toList ++ (['='] ++ ['{']) := rfl
  rw [hsplit, List.mem_append, List.mem_append, not_or, not_or] at hx
  rcases hx with ⟨hname, hsign, hbrace⟩
  apply Reader.stopsAt_sequence
  intro r hr
  simp only [List.mem_cons, List.not_mem_nil, or_false] at hr
  rcases hr with rfl | rfl | rfl | rfl | rfl
  · exact Reader.stopsAt_exactly hname
  · exact Reader.stopsAt_many hblank
  · exact Reader.stopsAt_exactly hsign
  · exact Reader.stopsAt_many hblank
  · exact Reader.stopsAt_exactly hbrace

theorem eq_of_attributeHead {t rest : Text} (h : attributeHead t = some rest) :
    ∃ gap v : Text, (∀ c ∈ gap, Text.isBlank c = true) ∧ '{' ∈ v ∧
      t = "style".toList ++ gap ++ '=' :: v := by
  simp only [attributeHead, Reader.sequence, Option.bind_eq_some_iff] at h
  rcases h with ⟨t1, h1, t2, h2, t3, h3, t4, h4, t5, h5, -⟩
  have hword : t = "style".toList ++ t1 := Text.after?_eq_some_iff.mp h1
  have hsign : t2 = ['='] ++ t3 := Text.after?_eq_some_iff.mp h3
  have hgap : t1.dropWhile Text.isBlank = t2 := Option.some.inj h2
  have hbrace : '{' ∈ t3 := by
    have hafter : t3.dropWhile Text.isBlank = t4 := Option.some.inj h4
    have hmem : '{' ∈ t4 := by simp [Text.after?_eq_some_iff.mp h5]
    rw [← hafter] at hmem
    exact (List.dropWhile_sublist Text.isBlank).subset hmem
  refine ⟨t1.takeWhile Text.isBlank, t3, fun c hc => List.mem_takeWhile_imp hc, hbrace, ?_⟩
  have hsplit : t1.takeWhile Text.isBlank ++ '=' :: t3 = t1 := by
    have hsplit := @List.takeWhile_append_dropWhile _ Text.isBlank t1
    rw [hgap, hsign] at hsplit
    exact hsplit
  rw [hword, List.append_assoc, hsplit]

theorem not_mem_of_blank {gap : Text} (h : ∀ c ∈ gap, Text.isBlank c = true) : '=' ∉ gap :=
  not_mem_of_all (by decide) h

theorem attributeHead_eq_none {t : Text} (h : '=' ∉ t) : attributeHead t = none := by
  cases hread : attributeHead t with
  | none => rfl
  | some rest =>
      rcases eq_of_attributeHead hread with ⟨gap, v, -, -, ht⟩
      exact absurd (by simp [ht]) h

theorem attributeHead_before {c : Char} {t v : Text} (h : '=' ∉ c :: t) :
    attributeHead (c :: t ++ " style=".toList ++ v) = none := by
  cases hread : attributeHead (c :: t ++ " style=".toList ++ v) with
  | none => rfl
  | some rest =>
      rcases eq_of_attributeHead hread with ⟨gap, u, hgap, -, ht⟩
      exfalso
      have hsign : '=' ∉ "style".toList ++ gap := by
        simp [not_mem_of_blank hgap]
      have hword : '=' ∉ c :: t ++ " style".toList := by
        simpa using h
      have htext : ("style".toList ++ gap) ++ '=' :: u =
          (c :: t ++ " style".toList) ++ '=' :: v := by
        rw [← ht]
        simp
      have heq : "style".toList ++ gap = c :: t ++ " style".toList := by
        rcases append_cons_of_not_mem hword htext with ⟨w, hw, hrest⟩
        cases w with
        | nil => rw [hw, List.append_nil]
        | cons d w =>
            rw [List.cons_append, List.cons.injEq] at hrest
            rw [hw, hrest.1] at hsign
            simp at hsign
      -- The last character of the word would have to be a blank.
      rcases List.eq_nil_or_concat gap with rfl | ⟨g, d, rfl⟩
      · have hlength := congrArg List.length heq
        simp at hlength
      · have hends : ("style".toList ++ g) ++ [d] = (c :: t ++ " styl".toList) ++ ['e'] := by
          simpa using heq
        have hlast := (List.append_inj' hends rfl).2
        have hblank := hgap d (by simp)
        rw [List.head_eq_of_cons_eq hlast] at hblank
        exact absurd hblank (by decide)

theorem occurrencesFrom_tag {tag : Text} (before : Option Char) (offset : Nat) (v : Text)
    (h : '=' ∉ tag) :
    Source.occurrencesFrom attributeHead before offset (tag ++ " style=\x7b".toList ++ v) =
      (offset + tag.length + 1, offset + tag.length + 8) ::
        Source.occurrencesFrom attributeHead (some '{') (offset + tag.length + 8) v := by
  induction tag generalizing before offset with
  | nil =>
      -- behind the space a word begins
      have hspace : attributeHead (' ' :: 's' :: ("tyle=\x7b".toList ++ v)) = none := rfl
      have hsign : Text.isBlank '=' = false := by decide
      have hbrace : Text.isBlank '{' = false := by decide
      have hread : attributeHead ('s' :: ("tyle=\x7b".toList ++ v)) = some v := by
        simp [attributeHead, Reader.sequence, Reader.exactly, Text.after?, Reader.blanks,
          Reader.many, hsign, hbrace]
      have hword : (some ' ').any Text.isWord = false := by decide +kernel
      have hlength : ("tyle=\x7b".toList ++ v).length - v.length = 6 := by
        rw [List.length_append, Nat.add_sub_cancel]
        rfl
      have htext : [] ++ " style=\x7b".toList ++ v = ' ' :: 's' :: ("tyle=\x7b".toList ++ v) := by
        simp
      rw [htext, Source.occurrencesFrom_cons before offset hspace, Source.occurrencesFrom, hword,
        if_neg Bool.false_ne_true, hread]
      simp only [hlength]
      rfl
  | cons c tag ih =>
      have htext : c :: tag ++ " style=\x7b".toList ++ v =
          c :: (tag ++ " style=".toList ++ '{' :: v) := by simp
      have hnone : attributeHead (c :: (tag ++ " style=".toList ++ '{' :: v)) = none :=
        attributeHead_before h
      have htail : tag ++ " style=".toList ++ '{' :: v = tag ++ " style=\x7b".toList ++ v := by
        simp
      rw [htext, Source.occurrencesFrom_cons before offset hnone, htail,
        ih (some c) (offset + 1) (List.not_mem_of_not_mem_cons h), List.length_cons]
      have hstart : offset + 1 + tag.length = offset + (tag.length + 1) := by omega
      rw [hstart]

/-!
## Texts without heads

What stands before a place matters to a head by its last character only. So a character that
is no part of a head separates two texts that can be searched one after the other.
-/

/-- Whether no head is found in a text behind the character `before`. -/
def IsQuiet (before : Option Char) (t : Text) : Prop :=
  Source.occurrencesFrom attributeHead before 0 t = []

section IsQuiet

variable {before : Option Char} {x : Char} {t v : Text}

theorem IsQuiet.occurrencesFrom (h : IsQuiet before t) (offset : Nat) :
    Source.occurrencesFrom attributeHead before offset t = [] :=
  Source.occurrencesFrom_eq_nil offset id h

theorem isQuiet_of_not_mem (h : '=' ∉ t) : IsQuiet before t :=
  Source.occurrencesFrom_of_not_mem (fun _ => attributeHead_eq_none) before 0 h

/-- A character that is no part of a head separates the texts before and behind it. -/
theorem isQuiet_append (hblank : Text.isBlank x = false) (hx : x ∉ "style=\x7b".toList) :
    IsQuiet before (t ++ x :: v) ↔ IsQuiet before t ∧ IsQuiet (some x) v := by
  have happend := Source.occurrencesFrom_append (attributeHead_stopsAt hblank hx) rfl before 0 t v
  unfold IsQuiet
  rw [happend, List.append_eq_nil_iff]
  refine and_congr_right fun _ => ⟨fun h => ?_, fun h => ?_⟩
  · exact Source.occurrencesFrom_eq_nil 0 id h
  · exact Source.occurrencesFrom_eq_nil _ id h

theorem isQuiet_some (h : Text.isWord x = false) : IsQuiet (some x) t ↔ IsQuiet none t := by
  refine ⟨fun hquiet => ?_, fun hquiet => ?_⟩
  · exact Source.occurrencesFrom_eq_nil 0 (fun hword => absurd hword (by simp [h])) hquiet
  · exact Source.occurrencesFrom_eq_nil 0 (fun hword => absurd hword (by simp)) hquiet

end IsQuiet

structure WrittenEntry.IsQuiet (e : WrittenEntry) : Prop where
  comment : ∀ body ∈ e.comment, InlineStyle.IsQuiet none body
  text : InlineStyle.IsQuiet none e.text

theorem isQuiet_comment {before : Option Char} {ahead body rest : Text}
    (hahead : ∀ c ∈ ahead, Text.isBlank c = true) :
    IsQuiet before (ahead ++ (Source.commentText body ++ rest)) ↔
      IsQuiet none body ∧ IsQuiet (some '/') rest := by
  have hslash : Text.isBlank '/' = false := by decide
  have hstar : Text.isBlank '*' = false := by decide
  have hword : Text.isWord '*' = false := by decide +kernel
  have hblanks : IsQuiet before ahead := isQuiet_of_not_mem (not_mem_of_blank hahead)
  have hnil : ∀ {b : Option Char}, IsQuiet b [] := isQuiet_of_not_mem (by simp)
  rw [Source.commentText_append, isQuiet_append hslash (by decide),
    ← List.nil_append ('*' :: (_ ++ _)), isQuiet_append hstar (by decide),
    isQuiet_append hstar (by decide), ← List.nil_append ('/' :: rest),
    isQuiet_append hslash (by decide), isQuiet_some hword]
  simp only [hblanks, hnil, true_and]

theorem quote_separates {quote : Char} (h : Scan.isQuote quote = true) :
    quote ∉ "style=\x7b".toList ∧ Text.isWord quote = false := by
  simp only [Scan.isQuote, Bool.or_eq_true, decide_eq_true_eq] at h
  rcases h with (rfl | rfl) | rfl <;> decide +kernel

theorem isQuiet_pair {before : Option Char} {options : ScanOptions} {e : WrittenEntry}
    {behind rest : Text} (h : e.IsStyle options) (hbehind : ∀ c ∈ behind, Text.isBlank c = true) :
    IsQuiet before (behind ++ (e.pair ++ rest)) ↔
      IsQuiet none e.text ∧ IsQuiet (some e.quote) rest := by
  have hcolon : Text.isBlank ':' = false := by decide
  have hquote : Text.isBlank e.quote = false := Scan.isBlank_of_isQuote h.quote
  rcases quote_separates h.quote with ⟨hmark, hword⟩
  have hkey : '=' ∉ behind ++ e.key := by
    have hkey := not_mem_of_all (x := '=') (by decide) (key_of_propertyCategory? h.known).2.1
    simp [not_mem_of_blank hbehind, hkey]
  have htext : behind ++ (e.pair ++ rest) =
      (behind ++ e.key) ++ ':' :: ([' '] ++ e.quote :: (e.text ++ e.quote :: rest)) := by
    simp [WrittenEntry.pair, WrittenEntry.literal]
  have hquiet : IsQuiet before (behind ++ e.key) := isQuiet_of_not_mem hkey
  have hspace : IsQuiet (some ':') [' '] := isQuiet_of_not_mem (by decide)
  rw [htext, isQuiet_append hcolon (by decide), isQuiet_append hquote hmark,
    isQuiet_append hquote hmark, isQuiet_some hword]
  simp only [hquiet, hspace, true_and]

theorem isQuiet_piece {before : Option Char} {options : ScanOptions} {p : Piece} {rest : Text}
    (h : p.IsStyle options) :
    IsQuiet before (p.written ++ rest) ↔
      p.entry.IsQuiet ∧ IsQuiet (some p.entry.quote) rest := by
  rcases h.lead with ⟨ahead, behind, hahead, hbehind, hlead⟩
  have htext : p.written ++ rest =
      ahead ++ (p.entry.commentText ++ (behind ++ (p.entry.pair ++ rest))) := by
    simp [Piece.written, hlead]
  rw [htext]
  cases hcomment : p.entry.comment with
  | none =>
      have hgap : ∀ c ∈ ahead ++ behind, Text.isBlank c = true := by
        intro c hc
        exact (List.mem_append.mp hc).elim (hahead c) (hbehind c)
      have hlead : ahead ++ (p.entry.commentText ++ (behind ++ (p.entry.pair ++ rest))) =
          (ahead ++ behind) ++ (p.entry.pair ++ rest) := by
        simp [WrittenEntry.commentText, hcomment]
      rw [hlead, isQuiet_pair h.entry hgap]
      refine and_congr_left fun _ => ⟨fun htext => ⟨by simp [hcomment], htext⟩, fun h => h.text⟩
  | some body =>
      have hlead : ahead ++ (p.entry.commentText ++ (behind ++ (p.entry.pair ++ rest))) =
          ahead ++ (Source.commentText body ++ (behind ++ (p.entry.pair ++ rest))) := by
        simp [WrittenEntry.commentText, hcomment]
      rw [hlead, isQuiet_comment hahead, isQuiet_pair h.entry hbehind, ← and_assoc]
      refine and_congr_left fun _ => ⟨fun hparts => ⟨?_, hparts.2⟩, fun hentry => ?_⟩
      · intro b hb
        rw [hcomment] at hb
        rw [← Option.some.inj hb]
        exact hparts.1
      · exact ⟨hentry.comment body hcomment, hentry.text⟩

theorem isQuiet_pieces {before : Option Char} {options : ScanOptions} {ps : List Piece} {p : Piece}
    {rest : Text} (h : ∀ q ∈ ps ++ [p], q.IsStyle options) (hrest : '=' ∉ rest) :
    IsQuiet before (writtenPieces ps ++ (p.written ++ rest)) ↔
      ∀ q ∈ ps ++ [p], q.entry.IsQuiet := by
  induction ps generalizing before with
  | nil =>
      have hend : IsQuiet (some p.entry.quote) rest := isQuiet_of_not_mem hrest
      rw [writtenPieces, List.flatMap_nil, List.nil_append, isQuiet_piece (h p (by simp))]
      simp [hend]
  | cons q ps ih =>
      have hcomma : Text.isBlank ',' = false := by decide
      have hnil : IsQuiet (some q.entry.quote) [] := isQuiet_of_not_mem (by simp)
      have htext : writtenPieces (q :: ps) ++ (p.written ++ rest) =
          q.written ++ ([] ++ ',' :: (writtenPieces ps ++ (p.written ++ rest))) := by
        simp [writtenPieces]
      rw [htext, isQuiet_piece (h q (by simp)), isQuiet_append hcomma (by decide),
        ih fun r hr => h r (List.mem_cons_of_mem _ hr)]
      simp [hnil]

/-- The head of the attribute is the only one if no comment and no literal holds another one. -/
theorem occurrences_source {options : ScanOptions} {el : WrittenElement} (htag : '=' ∉ el.tag)
    (h : ∀ e ∈ el.entries, e.IsStyle options) :
    ∃ rest, Source.occurrences attributeHead el.source = el.head :: rest ∧
      (rest = [] ↔ ∀ e ∈ el.entries, e.IsQuiet) := by
  rcases el.exists_pieces_eq with ⟨ps, p, hpieces, hbody⟩
  have hstyle := WrittenElement.isStyle_pieces h
  have htext : el.source = ('<' :: el.tag) ++ " style=\x7b".toList ++ ('{' :: el.tail) := by
    simp [WrittenElement.source, WrittenElement.tail]
  have hlength : ('<' :: el.tag).length = el.tag.length + 1 := List.length_cons
  have hsign : '=' ∉ '<' :: el.tag := by simp [htag]
  refine ⟨Source.occurrencesFrom attributeHead (some '{') (el.brace + 1) ('{' :: el.tail), ?_, ?_⟩
  · rw [Source.occurrences, htext, occurrencesFrom_tag none 0 _ hsign, hlength, Nat.zero_add]
    rfl
  · have hbrace : attributeHead ('{' :: el.tail) = none := rfl
    have htail : el.tail = writtenPieces ps ++ (p.written ++ " \x7d\x7d />".toList) := by
      rw [WrittenElement.tail, hbody]
      simp
    have hquiet : IsQuiet (some '{') el.tail ↔ ∀ q ∈ el.pieces, q.entry.IsQuiet := by
      rw [htail, hpieces]
      exact isQuiet_pieces (hpieces ▸ hstyle) (by decide)
    have hentries : (∀ q ∈ el.pieces, q.entry.IsQuiet) ↔ ∀ e ∈ el.entries, e.IsQuiet := by
      rw [← el.pieces_entry]
      simp
    rw [Source.occurrencesFrom_cons _ _ hbrace, ← hentries, ← hquiet]
    exact ⟨fun hnil => Source.occurrencesFrom_eq_nil 0 id hnil, fun h => h.occurrencesFrom _⟩

end InlineStyle
end DesignTokens
