import DesignTokens.Proofs.InlineStyle.Object
import DesignTokens.Proofs.Source.Occurrence

/-!
# Written elements

An element is written with one `style` attribute, whose object has one space
behind its opening brace, behind each comma and before its closing brace. The
body of the object that a scan finds reaches up to a closing brace, which is the
one of the object or stands in a comment or a literal.
-/

namespace DesignTokens
namespace InlineStyle

/--
An element with a `style` attribute. A comment stands directly before the first entry
or directly behind the comma between two entries.
-/
structure WrittenElement where
  tag : Text
  first : WrittenEntry
  others : List WrittenEntry

namespace WrittenElement

def entries (el : WrittenElement) : List WrittenEntry :=
  el.first :: el.others

def body (el : WrittenElement) : Text :=
  ' ' :: (el.first.commentText ++ el.first.pair) ++
    el.others.flatMap (fun e => ',' :: (e.commentText ++ ' ' :: e.pair)) ++ [' ']

def source (el : WrittenElement) : Text :=
  '<' :: (el.tag ++ " style=\x7b\x7b".toList ++ el.body ++ "\x7d\x7d />".toList)

def withoutComments (el : WrittenElement) : WrittenElement :=
  ⟨el.tag, el.first.bare, el.others.map WrittenEntry.bare⟩

def brace (el : WrittenElement) : Nat :=
  el.tag.length + 8

def close (el : WrittenElement) : Nat :=
  el.brace + 2 + el.body.length

def head (el : WrittenElement) : Nat × Nat :=
  (el.tag.length + 2, el.brace + 1)

/--
Whether the braces of the attribute and of the object are closed by the ones that are
written to close them. Brackets are matched without regard to comments, so that
brackets and quotes in a comment can be taken for others.
-/
structure KeepsBraces (el : WrittenElement) : Prop where
  outer : (tailAt el.source el.brace).closing? = some (el.close + 1)
  inner : (Window.between el.source (el.brace + 1) (el.close + 1)).closing? = some el.close

def pieces (el : WrittenElement) : List Piece :=
  ⟨' ' :: el.first.commentText, el.first⟩ ::
    el.others.map fun e => ⟨e.commentText ++ [' '], e⟩

theorem pieces_entry (el : WrittenElement) : el.pieces.map Piece.entry = el.entries := by
  rw [pieces, entries, List.map_cons, List.map_map]
  congr 1
  exact List.map_id _

theorem exists_pieces_eq (el : WrittenElement) : ∃ (ps : List Piece) (p : Piece),
    el.pieces = ps ++ [p] ∧ el.body = writtenPieces ps ++ (p.written ++ [' ']) := by
  have hpieces : ∀ (qs : List Piece) (q : Piece), ∃ (ps : List Piece) (p : Piece),
      q :: qs = ps ++ [p] ∧
        q.written ++ (qs.flatMap (fun r => ',' :: r.written) ++ [' ']) =
          writtenPieces ps ++ (p.written ++ [' ']) := by
    intro qs
    induction qs with
    | nil => exact fun q => ⟨[], q, rfl, rfl⟩
    | cons r qs ih =>
        intro q
        rcases ih r with ⟨ps, p, hpieces, htext⟩
        refine ⟨q :: ps, p, by rw [hpieces]; rfl, ?_⟩
        simp only [writtenPieces, List.flatMap_cons, List.append_assoc, List.cons_append,
          List.nil_append] at htext ⊢
        rw [htext]
  rcases hpieces _ _ with ⟨ps, p, heq, htext⟩
  refine ⟨ps, p, heq, ?_⟩
  rw [← htext, List.flatMap_map]
  simp [body, Piece.written]

theorem isStyle_pieces {options : ScanOptions} {el : WrittenElement}
    (h : ∀ e ∈ el.entries, e.IsStyle options) : ∀ p ∈ el.pieces, p.IsStyle options := by
  intro p hp
  rcases List.mem_cons.mp hp with rfl | hp
  · exact ⟨⟨[' '], [], Text.isBlank_space, by simp, by simp⟩, h _ List.mem_cons_self⟩
  · rcases List.mem_map.mp hp with ⟨e, he, rfl⟩
    exact ⟨⟨[], [' '], by simp, Text.isBlank_space, by simp⟩, h e (List.mem_cons_of_mem _ he)⟩

/-!
## The body that is found
-/

def tail (el : WrittenElement) : Text :=
  el.body ++ "\x7d\x7d />".toList

theorem source_drop_brace (el : WrittenElement) :
    el.source.drop el.brace = '{' :: '{' :: el.tail := by
  have htext : el.source = ('<' :: (el.tag ++ " style=".toList)) ++ '{' :: '{' :: el.tail := by
    simp [source, tail]
  have hlength : el.brace = ('<' :: (el.tag ++ " style=".toList)).length := by
    simp [brace]
  rw [htext, hlength, List.drop_left]

theorem tailAt_text (el : WrittenElement) :
    (tailAt el.source el.brace).text = '{' :: '{' :: el.tail := by
  rw [tailAt, Window.between_length_text, source_drop_brace]

theorem le_of_tail_getElem? {el : WrittenElement} {i : Nat} (h : el.tail[i]? = some '}') :
    i ≤ el.body.length + 1 := by
  by_contra hlt
  have hi : i - el.body.length = (i - el.body.length - 2) + 2 := by omega
  rw [tail, List.getElem?_append_right (by omega), hi] at h
  have hmem := List.mem_of_getElem? (l := " />".toList) h
  revert hmem
  decide

def expression (el : WrittenElement) (n : Nat) : Window :=
  (tailAt el.source el.brace).inside (el.brace + 1) (el.brace + 1 + n)

theorem expression_start (el : WrittenElement) (n : Nat) :
    (el.expression n).start = el.brace + 1 := by
  rw [expression, Window.inside, Window.take_start, Window.drop_start]
  simp [tailAt, Window.between]

theorem expression_text (el : WrittenElement) (n : Nat) :
    (el.expression (n + 1)).text = '{' :: el.tail.take n := by
  rw [expression, Window.inside, Window.take_text, Window.drop_text, tailAt_text]
  simp [tailAt, Window.between]

theorem isIn_expression (el : WrittenElement) (n : Nat) : (el.expression n).IsIn el.source :=
  ((Window.isIn_between el.source el.brace el.source.length).drop _).take _

theorem keepsBraces_iff {el : WrittenElement} {n : Nat}
    (h : (tailAt el.source el.brace).closing? = some (el.brace + 1 + n)) :
    el.KeepsBraces ↔ n = el.body.length + 2 ∧ (el.expression n).closing? = some el.close := by
  have hbetween : (Window.between el.source (el.brace + 1) (el.close + 1)).closing? =
      (el.expression (el.body.length + 2)).closing? := by
    apply Window.closing?_congr
    · rw [expression_start]
      rfl
    · have hdrop : el.source.drop (el.brace + 1) = '{' :: el.tail := by
        rw [← List.drop_drop, source_drop_brace]
        rfl
      have hlength : el.close + 1 - (el.brace + 1) = el.body.length + 2 := by
        rw [close]
        omega
      rw [expression_text, Window.between, Text.slice, hdrop, hlength]
      rfl
  constructor
  · rintro ⟨houter, hinner⟩
    rw [h, Option.some.injEq, close] at houter
    have hn : n = el.body.length + 2 := by omega
    subst hn
    exact ⟨rfl, hbetween.symm.trans hinner⟩
  · rintro ⟨rfl, hinner⟩
    refine ⟨?_, hbetween.trans hinner⟩
    rw [h, close]
    congr 1
    omega

theorem attributeReport_eq {el : WrittenElement} {n : Nat} (options : ScanOptions)
    (h : (tailAt el.source el.brace).closing? = some (el.brace + 1 + (n + 1))) :
    attributeReport el.source options el.head =
      match (el.expression (n + 1)).body? with
      | some body => objectReport ⟨el.source, options, el.head.1⟩ ["style".toList] body
      | none => .empty := by
  have hhead : el.head.2 - 1 = el.brace := by simp [head]
  have hbrace : (el.expression (n + 1)).text.head? = some '{' := by
    rw [expression_text]
    rfl
  have hblanks : (el.expression (n + 1)).skipBlanks = el.expression (n + 1) :=
    Window.skipBlanks_eq_self hbrace (by decide)
  have hbody : (tailAt el.source el.brace).body? = some (el.expression (n + 1)) := by
    rw [Window.body?, h]
    rfl
  cases hobject : (el.expression (n + 1)).body? with
  | none =>
      simp only [attributeReport, hhead, hbody, expressionReport, hblanks, if_pos hbrace, hobject]
  | some body =>
      simp only [attributeReport, hhead, hbody, expressionReport, hblanks, if_pos hbrace, hobject]

def object (el : WrittenElement) (n k : Nat) : Window :=
  (el.expression n).inside (el.brace + 2) (el.brace + 2 + k)

theorem isIn_object (el : WrittenElement) (n k : Nat) : (el.object n k).IsIn el.source :=
  ((el.isIn_expression n).drop _).take _

theorem object_text {el : WrittenElement} {n k : Nat} (hn : k ≤ n) (hk : k ≤ el.body.length) :
    (el.object (n + 1) k).text = el.body.take k := by
  have hdrop : el.brace + 2 - (el.brace + 1) = 1 := by omega
  have htake : el.brace + 2 + k - (el.brace + 2) = k := by omega
  have hbody : el.tail.take k = el.body.take k := List.take_append_of_le_length hk
  rw [object, Window.inside, Window.take_text, Window.drop_text, expression_start,
    expression_text, hdrop, htake, List.drop_one, List.tail_cons, List.take_take,
    Nat.min_eq_left hn, hbody]

theorem attributeReport_cases (el : WrittenElement) (options : ScanOptions) :
    ((attributeReport el.source options el.head).findings = [] ∧ ¬ el.KeepsBraces) ∨
      ∃ (w : Window) (k : Nat),
        (attributeReport el.source options el.head).findings =
          (objectReport ⟨el.source, options, el.head.1⟩ ["style".toList] w).findings ∧
        w.IsIn el.source ∧ w.text = el.body.take k ∧
        ((k = el.body.length ∧ el.KeepsBraces) ∨
          (el.body[k]? = some '}' ∧ ¬ el.KeepsBraces)) := by
  have hhead : el.head.2 - 1 = el.brace := by simp [head]
  cases hclose : (tailAt el.source el.brace).closing? with
  | none =>
      refine .inl ⟨?_, fun h => by simp [h.outer] at hclose⟩
      simp [attributeReport, hhead, Window.body?, hclose, remark, Report.remark]
  | some close =>
      -- `j` and `k` count what of the tail and of the body the two scans of braces keep
      rcases Window.closing?_spec el.tailAt_text hclose with ⟨m, rfl, hchar⟩
      obtain ⟨j, rfl⟩ : ∃ j, m = j + 1 := by
        cases m with
        | zero => simp at hchar
        | succ j => exact ⟨j, rfl⟩
      rw [List.getElem?_cons_succ] at hchar
      have hj : j ≤ el.body.length + 1 := le_of_tail_getElem? hchar
      have htext := el.expression_text j
      have hreport := attributeReport_eq options hclose
      have hkeeps := keepsBraces_iff hclose
      cases hinner : (el.expression (j + 1)).closing? with
      | none =>
          refine .inl ⟨?_, fun h => ?_⟩
          · simp [hreport, Window.body?, hinner, Report.empty]
          · simp [(hkeeps.mp h).2] at hinner
      | some inner =>
          rcases Window.closing?_spec htext hinner with ⟨k, rfl, hk⟩
          rw [expression_start] at hinner
          have hkj : k < j := by
            by_contra hle
            rw [List.getElem?_take_eq_none (Nat.le_of_not_lt hle)] at hk
            exact Option.some_ne_none _ hk.symm
          rw [List.getElem?_take_of_lt hkj] at hk
          have hkbody : k ≤ el.body.length := by omega
          refine .inr ⟨el.object (j + 1) k, k, ?_, el.isIn_object _ _,
            object_text hkj.le hkbody, ?_⟩
          · rw [hreport, Window.body?, hinner, expression_start]
            rfl
          · rcases Nat.lt_or_eq_of_le hkbody with hlt | rfl
            · refine .inr ⟨?_, fun h => ?_⟩
              · rwa [tail, List.getElem?_append_left hlt] at hk
              · have hclose := (hkeeps.mp h).2
                rw [hinner, Option.some.injEq, WrittenElement.close] at hclose
                omega
            · have hj' : j = el.body.length + 1 := by omega
              refine .inl ⟨rfl, hkeeps.mpr ⟨by omega, ?_⟩⟩
              rw [hinner, WrittenElement.close]

/-!
## Findings of the attribute
-/

section Findings

variable {el : WrittenElement} {options : ScanOptions}

theorem attributeReport_of_keepsBraces (h : ∀ e ∈ el.entries, e.IsStyle options)
    (hkeeps : el.KeepsBraces) : ∃ start stop : Nat,
      AreFindings el.entries start stop (attributeReport el.source options el.head).findings := by
  rcases attributeReport_cases el options with ⟨-, hno⟩ | ⟨w, k, hfindings, hin, hw, hk⟩
  · exact absurd hkeeps hno
  · rcases hk with ⟨rfl, -⟩ | ⟨-, hno⟩
    · rcases el.exists_pieces_eq with ⟨ps, p, hpieces, hbody⟩
      have hstyle := isStyle_pieces h
      rw [List.take_length, hbody] at hw
      rw [hpieces] at hstyle
      rcases objectReport_whole ⟨el.source, options, el.head.1⟩ hin hstyle hw with ⟨stop, hfs⟩
      rw [← hpieces, el.pieces_entry] at hfs
      exact ⟨w.start, stop, hfindings ▸ hfs⟩
    · exact absurd hkeeps hno

/-- If they are not, there are fewer findings of plain values than entries. -/
theorem countP_attributeReport_lt (h : ∀ e ∈ el.entries, e.IsStyle options)
    (hkeeps : ¬ el.KeepsBraces) :
    (attributeReport el.source options el.head).findings.countP (fun f => !f.record.dynamic) <
      el.entries.length := by
  rcases attributeReport_cases el options with ⟨hnil, -⟩ | ⟨w, k, hfindings, hin, hw, hk⟩
  · rw [hnil]
    exact Nat.succ_pos _
  · rcases hk with ⟨-, hyes⟩ | ⟨hbrace, -⟩
    · exact absurd hyes hkeeps
    · rcases el.exists_pieces_eq with ⟨ps, p, hpieces, hbody⟩
      have hstyle := isStyle_pieces h
      rw [hpieces] at hstyle
      have hsplit : el.body.take k ++ '}' :: el.body.drop (k + 1) =
          writtenPieces ps ++ (p.written ++ [' ']) := by
        rcases List.getElem?_eq_some_iff.mp hbrace with ⟨hk, hchar⟩
        rw [← hbody, ← hchar, List.getElem_cons_drop, List.take_append_drop]
      rcases exists_isCut hstyle hsplit with ⟨qs, q, rest, s, hqs, hs, hcut⟩
      rw [hqs] at hstyle
      have hcount := countP_objectReport_cut ⟨el.source, options, el.head.1⟩ hin
        (fun r hr => hstyle r (List.mem_append_left _ hr)) (hstyle q (by simp)) hcut (hw.trans hs)
      have hlength : el.entries.length = qs.length + rest.length + 1 := by
        rw [← el.pieces_entry, List.length_map, hpieces, hqs, List.length_append, List.length_cons]
        omega
      rw [hfindings]
      omega

end Findings

/-!
## Balanced comments
-/

theorem isBalanced_pair {options : ScanOptions} {e : WrittenEntry} (h : e.IsStyle options) :
    Scan.IsBalanced e.pair := by
  have halpha := (key_of_propertyCategory? h.known).2.1
  have hkey : Scan.IsBalanced e.key := Scan.isBalanced_of_isPlain fun c hc =>
    Pieces.isPlain_of_isOrdinary (isOrdinary_of_isAlpha (halpha c hc))
  have hmarks : Scan.IsBalanced ": ".toList := Scan.isBalanced_of_all (by decide)
  have hpair : e.pair = e.key ++ (": ".toList ++ e.literal) := by simp [WrittenEntry.pair]
  rw [hpair]
  exact hkey.append (hmarks.append (.literal h.quote h.text .nil))

theorem isBalanced_commentText {e : WrittenEntry}
    (h : ∀ body ∈ e.comment, Scan.IsBalanced body) : Scan.IsBalanced e.commentText := by
  unfold WrittenEntry.commentText
  cases hcomment : e.comment with
  | none => exact .nil
  | some body =>
      have hbegin : Scan.IsBalanced "/*".toList := Scan.isBalanced_of_all (by decide)
      have hend : Scan.IsBalanced "*/".toList := Scan.isBalanced_of_all (by decide)
      exact (hbegin.append (h body hcomment)).append hend

theorem isBalanced_body {options : ScanOptions} {el : WrittenElement}
    (h : ∀ e ∈ el.entries, e.IsStyle options)
    (hcomments : ∀ e ∈ el.entries, ∀ body ∈ e.comment, Scan.IsBalanced body) :
    Scan.IsBalanced el.body := by
  have hspace : Scan.IsBalanced " ".toList := Scan.isBalanced_of_all (by decide)
  have hcomma : Scan.IsBalanced ",".toList := Scan.isBalanced_of_all (by decide)
  have hothers : Scan.IsBalanced
      (el.others.flatMap fun e => ',' :: (e.commentText ++ ' ' :: e.pair)) := by
    apply Scan.IsBalanced.flatMap
    intro e he
    have he : e ∈ el.entries := List.mem_cons_of_mem _ he
    exact hcomma.append ((isBalanced_commentText (hcomments e he)).append
      (hspace.append (isBalanced_pair (h e he))))
  have hfirst : el.first ∈ el.entries := List.mem_cons_self
  have hlead := hspace.append ((isBalanced_commentText (hcomments _ hfirst)).append
    (isBalanced_pair (h _ hfirst)))
  exact (hlead.append hothers).append hspace

/-- Comments with balanced brackets and closed literals keep the braces. -/
theorem keepsBraces_of_isBalanced {options : ScanOptions} {el : WrittenElement}
    (h : ∀ e ∈ el.entries, e.IsStyle options)
    (hcomments : ∀ e ∈ el.entries, ∀ body ∈ e.comment, Scan.IsBalanced body) :
    el.KeepsBraces := by
  have hbody := isBalanced_body h hcomments
  have hcloser : Scan.IsCloser '}' := ⟨'{', rfl⟩
  have hquote : Scan.isQuote '}' = false := by decide
  have hopener : Scan.closer? '}' = none := by decide
  have houter : (tailAt el.source el.brace).closing? =
      some (el.brace + 1 + (el.body.length + 2)) := by
    have hbraces : Scan.closing 0 '}' [] (el.brace + 1) ('{' :: el.tail) =
        .ok (some (el.brace + 1 + 1 + el.body.length + 1)) := by
      rw [Scan.closing_opener (by decide) rfl, tail, Scan.closing_balanced 0 _ _ _ hcloser hbody]
      exact (Scan.closing_top hquote hopener).trans (Scan.closing_last hquote hopener)
    rw [Window.closing?_of_text el.tailAt_text]
    change Scan.found (Scan.closing 0 '}' [] (el.brace + 1) ('{' :: el.tail)) = _
    rw [hbraces, Scan.found]
    congr 1
    omega
  rw [keepsBraces_iff houter]
  refine ⟨rfl, ?_⟩
  have htail : el.tail.take (el.body.length + 1) = el.body ++ ['}'] := by
    rw [tail, List.take_length_add_append]
    rfl
  have hbraces : Scan.closing 0 '}' [] (el.brace + 1 + 1) (el.body ++ ['}']) =
      .ok (some (el.brace + 1 + 1 + el.body.length)) := by
    rw [Scan.closing_balanced 0 _ _ _ hcloser hbody]
    exact Scan.closing_last hquote hopener
  rw [Window.closing?_of_text (el.expression_text (el.body.length + 1)), expression_start, htail,
    hbraces]
  rfl

end WrittenElement

end InlineStyle
end DesignTokens
