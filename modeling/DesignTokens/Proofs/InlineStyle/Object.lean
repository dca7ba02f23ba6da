import DesignTokens.Proofs.InlineStyle.Entry

/-!
# Written objects

The body of an object is written as entries between commas. Each entry is a piece
of the body, and the findings are those of the pieces. A body that stops inside of
a comment or a literal has the findings of the entries before that one, and apart
from them only parts of computed values.
-/

namespace DesignTokens
namespace InlineStyle

/-!
## Entries between commas
-/

/-- An entry as a piece of an object: what stands before its key, and key and value. -/
structure Piece where
  lead : Text
  entry : WrittenEntry

namespace Piece

def written (p : Piece) : Text :=
  p.lead ++ p.entry.pair

structure IsStyle (options : ScanOptions) (p : Piece) : Prop where
  lead : ∃ before behind : Text, (∀ c ∈ before, Text.isBlank c = true) ∧
    (∀ c ∈ behind, Text.isBlank c = true) ∧
      p.lead = before ++ (p.entry.commentText ++ behind)
  entry : p.entry.IsStyle options

theorem IsStyle.isLead {options : ScanOptions} {p : Piece} (h : p.IsStyle options) :
    IsLead p.lead := by
  rcases h.lead with ⟨before, behind, hbefore, hbehind, hlead⟩
  rw [hlead, WrittenEntry.commentText]
  cases hcomment : p.entry.comment with
  | none => exact (IsLead.blanks hbehind).blank_append hbefore
  | some body => exact .comment hbefore (h.entry.comment body hcomment) (.blanks hbehind)

end Piece

def writtenPieces (ps : List Piece) : Text :=
  ps.flatMap fun p => p.written ++ [',']

theorem isOrdinary_of_isBlank {c : Char} (h : Text.isBlank c = true) :
    Pieces.isOrdinary c = true :=
  Pieces.isOrdinary_of (by decide) h

theorem isOrdinary_of_isAlpha {c : Char} (h : c.isAlpha = true) : Pieces.isOrdinary c = true :=
  Pieces.isOrdinary_of (by decide) h

theorem isOrdinary_of_isKeyChar {c : Char} (h : isKeyChar c = true) :
    Pieces.isOrdinary c = true :=
  Pieces.isOrdinary_of (by decide +kernel) h

theorem leads_lead {lead : Text} (h : IsLead lead) : Pieces.Leads .entries .top lead .top := by
  induction h with
  | blanks hblanks => exact Pieces.leads_ordinary fun c hc => isOrdinary_of_isBlank (hblanks c hc)
  | comment hblanks hbody _ ih =>
      exact (Pieces.leads_ordinary fun c hc => isOrdinary_of_isBlank (hblanks c hc)).append
        ((Pieces.leads_comment _ 0 hbody).append ih)

theorem leads_key {options : ScanOptions} {e : WrittenEntry} (h : e.IsStyle options) :
    Pieces.Leads .entries .top (e.key ++ ":".toList ++ " ".toList) .top := by
  have hcolon : ∀ c ∈ ":".toList, Pieces.isOrdinary c = true := List.all_eq_true.mp (by decide)
  have hspace : ∀ c ∈ " ".toList, Pieces.isOrdinary c = true := List.all_eq_true.mp (by decide)
  have hkey := (key_of_propertyCategory? h.known).2.1
  exact ((Pieces.leads_ordinary fun c hc => isOrdinary_of_isAlpha (hkey c hc)).append
    (Pieces.leads_ordinary hcolon)).append (Pieces.leads_ordinary hspace)

theorem Piece.IsStyle.leads {options : ScanOptions} {p : Piece} (h : p.IsStyle options) :
    Pieces.Leads .entries .top p.written .top := by
  have htext : p.written =
      p.lead ++ (p.entry.key ++ ":".toList ++ " ".toList ++ p.entry.literal) := by
    simp [Piece.written, WrittenEntry.pair]
  rw [htext]
  exact (leads_lead h.isLead).append ((leads_key h.entry).append
    (Pieces.leads_literal _ 0 h.entry.quote h.entry.text))

theorem isAllBlank_append_cons {s t : Text} {c : Char} (h : Text.isBlank c = false) :
    Text.isAllBlank (s ++ c :: t) = false := by
  simp [Text.isAllBlank, h]

theorem Piece.IsStyle.not_blank {options : ScanOptions} {p : Piece} (h : p.IsStyle options)
    (rest : Text) : Text.isAllBlank (p.written ++ rest) = false := by
  rcases key_of_propertyCategory? h.entry.known with ⟨hne, hkey, -⟩
  rcases List.exists_cons_of_ne_nil hne with ⟨c, k, hck⟩
  have hc : c.isAlpha = true := hkey c (by simp [hck])
  have htext : p.written ++ rest = p.lead ++ c :: (k ++ ':' :: ' ' :: p.entry.literal ++ rest) := by
    simp [Piece.written, WrittenEntry.pair, hck]
  rw [htext]
  exact isAllBlank_append_cons (isBlank_of_isAlpha hc)

/-!
## The findings of an object
-/

theorem findings_concat_filterMap {α β : Type} (entry : α → Option β) (report : β → Report)
    (l : List α) :
    (Report.concat ((l.filterMap entry).map report)).findings =
      l.flatMap fun a =>
        (match entry a with
          | none => Report.empty
          | some b => report b).findings := by
  induction l with
  | nil => rfl
  | cons a l ih =>
      rw [List.filterMap_cons, List.flatMap_cons, ← ih]
      cases entry a with
      | none => rfl
      | some b => rfl

theorem objectReport_findings {site : Site} {path : List Text} {body : Window} {ps : List Text}
    (h : Pieces.between .entries .top none body.text = ps)
    (hps : ∀ p ∈ ps, Text.isAllBlank p = false) :
    (objectReport site path body).findings =
      (Pieces.placed 0 ps).flatMap fun piece =>
        (pieceReport site (innerReport site) path
          ((body.drop piece.1).take piece.2.length)).findings := by
  rw [objectReport, entries, Pieces.ofText_eq_placed h hps, findings_concat_filterMap]
  congr 1
  funext piece
  unfold pieceReport
  cases entry? ((body.drop piece.1).take piece.2.length) with
  | none => rfl
  | some e => rfl

/--
Findings for entries between two offsets of a source: one for each entry, in the
order of the entries and of their places.
-/
structure AreFindings (es : List WrittenEntry) (start stop : Nat) (fs : List Finding) : Prop where
  records : fs.map Finding.record = es.map WrittenEntry.record
  inOrder : fs.Pairwise fun f g => f.location.start < g.location.start
  bounds : ∀ f ∈ fs, (start : Int) ≤ f.location.start ∧ f.location.start < stop

theorem AreFindings.nil (start stop : Nat) : AreFindings [] start stop [] :=
  ⟨rfl, .nil, by simp⟩

theorem AreFindings.cons {e : WrittenEntry} {es : List WrittenEntry} {f : Finding}
    {fs : List Finding} {start next stop : Nat} (hf : f.record = e.record)
    (hstart : (start : Int) ≤ f.location.start) (hnext : f.location.start < next)
    (hstop : next ≤ stop) (h : AreFindings es next stop fs) :
    AreFindings (e :: es) start stop (f :: fs) := by
  refine ⟨?_, ?_, ?_⟩
  · rw [List.map_cons, List.map_cons, hf, h.records]
  · refine List.pairwise_cons.mpr ⟨?_, h.inOrder⟩
    intro g hg
    exact Int.lt_of_lt_of_le hnext (h.bounds g hg).1
  · intro g hg
    rcases List.mem_cons.mp hg with rfl | hg
    · exact ⟨hstart, Int.lt_of_lt_of_le hnext (Int.ofNat_le.mpr hstop)⟩
    · have hbounds := h.bounds g hg
      omega

/-- The findings of an object are one for each entry before the last comma, and those behind it. -/
theorem findings_pieces {site : Site} {inner : List Text → Window → Report} {body : Window}
    {ps : List Piece} {last : Text} {offset : Nat} (hin : body.IsIn site.source)
    (hps : ∀ p ∈ ps, p.IsStyle site.options)
    (htext : body.text.drop offset = writtenPieces ps ++ last) :
    ∃ (fs : List Finding) (w : Window),
      ((Pieces.placed offset (ps.map Piece.written ++ [last])).flatMap fun piece =>
        (pieceReport site inner ["style".toList]
          ((body.drop piece.1).take piece.2.length)).findings) =
          fs ++ (pieceReport site inner ["style".toList] w).findings ∧
      AreFindings (ps.map Piece.entry) (body.start + offset) w.start fs ∧
      w.text = last ∧ body.start + offset ≤ w.start ∧ w.IsIn site.source := by
  induction ps generalizing offset with
  | nil =>
      have hlast : ((body.drop offset).take last.length).text = last := by
        rw [Window.take_text, Window.drop_text, htext]
        simp [writtenPieces]
      refine ⟨[], (body.drop offset).take last.length, ?_, .nil _ _, hlast, ?_, ?_⟩
      · simp [Pieces.placed]
      · rw [Window.take_start, Window.drop_start]
      · exact (hin.drop offset).take _
  | cons p ps ih =>
      have hp : p.IsStyle site.options := hps p List.mem_cons_self
      have hdrop : body.text.drop offset = p.written ++ ',' :: (writtenPieces ps ++ last) := by
        rw [htext]
        simp [writtenPieces]
      have hw : ((body.drop offset).take p.written.length).text = p.written := by
        rw [Window.take_text, Window.drop_text, hdrop, List.take_left]
      have hrest : body.text.drop (offset + p.written.length + 1) = writtenPieces ps ++ last := by
        rw [Nat.add_assoc, ← List.drop_drop, hdrop, ← List.drop_drop, List.drop_left]
        rfl
      have hpin := (hin.drop offset).take p.written.length
      have hwritten : ((body.drop offset).take p.written.length).text =
          p.lead ++ p.entry.pair ++ [] := by
        rw [hw, Piece.written, List.append_nil]
      obtain ⟨f, hreport, hrecord, hstart, hstop⟩ :=
        pieceReport_written inner ["style".toList] hp.entry hpin hp.isLead (by simp) hwritten
      rcases ih (fun q hq => hps q (List.mem_cons_of_mem _ hq)) hrest with
          ⟨fs, w, hfindings, hfs, htextw, hle, hwin⟩
      rw [Window.take_start, Window.drop_start] at hstart
      rw [Window.stop, hw, Window.take_start, Window.drop_start] at hstop
      refine ⟨f :: fs, w, ?_, ?_, htextw, by omega, hwin⟩
      · rw [List.map_cons, List.cons_append, Pieces.placed, List.flatMap_cons, hfindings, hreport]
        rfl
      · rw [← Nat.add_assoc, ← Nat.add_assoc] at hfs hle
        exact .cons hrecord hstart (by omega) hle hfs

theorem AreFindings.append {es es' : List WrittenEntry} {fs fs' : List Finding}
    {start next stop : Nat} (h : AreFindings es start next fs) (h' : AreFindings es' next stop fs')
    (hstart : start ≤ next) (hstop : next ≤ stop) :
    AreFindings (es ++ es') start stop (fs ++ fs') := by
  refine ⟨?_, ?_, ?_⟩
  · rw [List.map_append, List.map_append, h.records, h'.records]
  · refine List.pairwise_append.mpr ⟨h.inOrder, h'.inOrder, ?_⟩
    intro f hf g hg
    exact Int.lt_of_lt_of_le (h.bounds f hf).2 (h'.bounds g hg).1
  · intro f hf
    rcases List.mem_append.mp hf with hf | hf
    · have hbounds := h.bounds f hf
      omega
    · have hbounds := h'.bounds f hf
      omega

section Object

variable {site : Site} {body : Window} {ps : List Piece}

theorem objectReport_pieces {last : Text} (hin : body.IsIn site.source)
    (hps : ∀ p ∈ ps, p.IsStyle site.options) (hwhole : Pieces.IsWhole .entries .top last)
    (hlast : Text.isAllBlank last = false) (htext : body.text = writtenPieces ps ++ last) :
    ∃ (fs : List Finding) (w : Window),
      (objectReport site ["style".toList] body).findings =
        fs ++ (pieceReport site (innerReport site) ["style".toList] w).findings ∧
      AreFindings (ps.map Piece.entry) body.start w.start fs ∧
      w.text = last ∧ body.start ≤ w.start ∧ w.IsIn site.source := by
  have hbetween : Pieces.between .entries .top none body.text = ps.map Piece.written ++ [last] := by
    have hpieces : ∀ t ∈ ps.map Piece.written, Pieces.Leads .entries .top t .top := by
      intro t ht
      rcases List.mem_map.mp ht with ⟨p, hp, rfl⟩
      exact (hps p hp).leads
    have hbetween := Pieces.between_entries none hpieces hwhole
    rw [List.flatMap_map] at hbetween
    rw [htext]
    exact hbetween
  have hblank : ∀ t ∈ ps.map Piece.written ++ [last], Text.isAllBlank t = false := by
    intro t ht
    rcases List.mem_append.mp ht with ht | ht
    · rcases List.mem_map.mp ht with ⟨p, hp, rfl⟩
      have hnot := (hps p hp).not_blank []
      rwa [List.append_nil] at hnot
    · rw [List.mem_singleton.mp ht]
      exact hlast
  rw [objectReport_findings hbetween hblank]
  have hzero : body.text.drop 0 = writtenPieces ps ++ last := htext
  exact findings_pieces hin hps hzero

/-- An object has one finding for each of its entries. -/
theorem objectReport_whole (site : Site) {p : Piece} (hin : body.IsIn site.source)
    (hps : ∀ q ∈ ps ++ [p], q.IsStyle site.options)
    (htext : body.text = writtenPieces ps ++ (p.written ++ [' '])) :
    ∃ stop, AreFindings ((ps ++ [p]).map Piece.entry) body.start stop
      (objectReport site ["style".toList] body).findings := by
  have hp : p.IsStyle site.options := hps p (by simp)
  have hleads : Pieces.Leads .entries .top [' '] .top :=
    Pieces.leads_ordinary fun c hc => isOrdinary_of_isBlank (Text.isBlank_space c hc)
  obtain ⟨fs, w, hfindings, hfs, hw, hle, hwin⟩ := objectReport_pieces hin
    (fun q hq => hps q (List.mem_append_left _ hq)) (hp.leads.append hleads).isWhole
    (hp.not_blank [' ']) htext
  obtain ⟨f, hreport, hrecord, hstart, hstop⟩ :=
    pieceReport_written (innerReport site) ["style".toList] hp.entry hwin hp.isLead
      Text.isBlank_space hw
  refine ⟨w.stop + 1, ?_⟩
  rw [hfindings, hreport, List.map_append]
  have hlast : AreFindings [p.entry] w.start (w.stop + 1) [f] :=
    .cons hrecord hstart (by omega) (Nat.le_refl _) (.nil _ _)
  exact hfs.append hlast hle (by rw [Window.stop]; omega)

end Object

/-!
## Objects that stop too early

An object that stops in one of its pieces has the pieces before it. The piece in which it
stops has lost the end of its value, and there is no plain value in it.
-/

/-- A beginning of a piece that stops in the comment or in the literal. -/
inductive Piece.IsCut (p : Piece) : Text → Prop where
  | comment {before body s : Text} : (∀ c ∈ before, Text.isBlank c = true) →
      p.entry.comment = some body → s <+: body → p.IsCut (before ++ '/' :: '*' :: s)
  | literal {s : Text} : s <+: p.entry.text →
      p.IsCut (p.lead ++ (p.entry.key ++ ':' :: ' ' :: p.entry.quote :: s))

section Cut

variable {options : ScanOptions} {p : Piece} {s : Text}

theorem Piece.IsCut.isWhole (h : p.IsCut s) (hp : p.IsStyle options) :
    Pieces.IsWhole .entries .top s := by
  cases h with
  | comment hbefore hcomment hs =>
      exact (Pieces.leads_ordinary fun c hc => isOrdinary_of_isBlank (hbefore c hc)).isWhole_append
        (Pieces.isWhole_comment_prefix _ 0 (hp.entry.comment _ hcomment) hs)
  | @literal s hs =>
      have htext : p.lead ++ (p.entry.key ++ ':' :: ' ' :: p.entry.quote :: s) =
          p.lead ++ (p.entry.key ++ ":".toList ++ " ".toList) ++ p.entry.quote :: s := by
        simp
      rw [htext]
      exact ((leads_lead hp.isLead).append (leads_key hp.entry)).isWhole_append
        (Pieces.isWhole_literal_prefix _ 0 hp.entry.quote hp.entry.text hs)

theorem Piece.IsCut.not_blank (h : p.IsCut s) : Text.isAllBlank s = false := by
  cases h with
  | comment hbefore hcomment hs => exact isAllBlank_append_cons (by decide)
  | literal hs =>
      rw [← List.append_assoc]
      exact isAllBlank_append_cons (by decide)

theorem Piece.IsCut.dynamic {site : Site} {inner : List Text → Window → Report} {path : List Text}
    {w : Window} {f : Finding} (h : p.IsCut w.text) (hp : p.IsStyle site.options)
    (hf : f ∈ (pieceReport site inner path w).findings) : f.record.dynamic = true := by
  generalize hw : w.text = s at h
  cases h with
  | comment hbefore hcomment hs =>
      rw [pieceReport_open (.blanks hbefore) (hp.entry.comment _ hcomment) hs hw] at hf
      simp [Report.empty] at hf
  | literal hs => exact dynamic_of_mem_pieceReport_prefix hp.entry hp.isLead hs hw hf

/-- An object that stops too early has fewer findings of plain values than entries. -/
theorem countP_objectReport_cut (site : Site) {body : Window} {ps : List Piece}
    (hin : body.IsIn site.source) (hps : ∀ q ∈ ps, q.IsStyle site.options)
    (hp : p.IsStyle site.options) (hcut : p.IsCut s) (htext : body.text = writtenPieces ps ++ s) :
    (objectReport site ["style".toList] body).findings.countP (fun f => !f.record.dynamic) ≤
      ps.length := by
  rcases objectReport_pieces hin hps (hcut.isWhole hp) hcut.not_blank htext with
      ⟨fs, w, hfindings, hfs, hw, -, -⟩
  rw [← hw] at hcut
  have hnone : (pieceReport site (innerReport site) ["style".toList] w).findings.countP
      (fun f => !f.record.dynamic) = 0 := by
    rw [List.countP_eq_zero]
    intro f hf
    rw [hcut.dynamic hp hf]
    simp
  have hlength : fs.length = ps.length := by
    have hrecords := congrArg List.length hfs.records
    simpa using hrecords
  rw [hfindings, List.countP_append, hnone, ← hlength]
  exact List.countP_le_length

/-!
## Where a closing brace stands
-/

theorem append_cons_eq_append {u v a b : Text} {x : Char} (h : u ++ x :: v = a ++ b) :
    (∃ a', a = u ++ x :: a') ∨ ∃ b', u = a ++ b' ∧ b' ++ x :: v = b := by
  rcases List.append_eq_append_iff.mp h with ⟨a', ha, hb⟩ | ⟨b', hu, hb⟩
  · cases a' with
    | nil => exact .inr ⟨[], by simp [ha], by simpa using hb⟩
    | cons c a' =>
        rw [List.cons_append, List.cons.injEq] at hb
        exact .inl ⟨a', by rw [ha, hb.1]⟩
  · exact .inr ⟨b', hu, hb.symm⟩

theorem append_cons_of_not_mem {u v a b : Text} {x : Char} (hx : x ∉ a)
    (h : u ++ x :: v = a ++ b) : ∃ b', u = a ++ b' ∧ b' ++ x :: v = b := by
  rcases append_cons_eq_append h with ⟨a', ha⟩ | hb
  · exact absurd (by simp [ha]) hx
  · exact hb

theorem not_mem_of_all {p : Char → Bool} {t : Text} {x : Char} (hx : p x = false)
    (h : ∀ c ∈ t, p c = true) : x ∉ t := by
  intro hmem
  rw [h x hmem] at hx
  exact Bool.false_ne_true hx.symm

theorem isCut_comment {before rest : Text} (hbefore : ∀ c ∈ before, Text.isBlank c = true)
    (h : p.entry.commentText = s ++ '}' :: rest) : p.IsCut (before ++ s) := by
  unfold WrittenEntry.commentText at h
  cases hcomment : p.entry.comment with
  | none => simp [hcomment] at h
  | some body =>
      have htext : s ++ '}' :: rest = ['/', '*'] ++ (body ++ ['*', '/']) := by
        rw [hcomment] at h
        rw [← h]
        simp [Source.commentText]
      rcases append_cons_of_not_mem (by decide) htext with ⟨s1, hs, h1⟩
      rw [hs]
      refine .comment hbefore hcomment ?_
      rcases append_cons_eq_append h1 with ⟨rest, hbody⟩ | ⟨s2, -, h2⟩
      · exact ⟨'}' :: rest, hbody.symm⟩
      · have hmem : '}' ∈ ['*', '/'] := by simp [← h2]
        exact absurd hmem (by decide)

theorem Piece.IsStyle.isCut {v : Text} (hp : p.IsStyle options) (h : s ++ '}' :: v = p.written) :
    p.IsCut s := by
  rcases hp.lead with ⟨before, behind, hbefore, hbehind, hlead⟩
  have hkey := (key_of_propertyCategory? hp.entry.known).2.1
  have hquote : '}' ≠ p.entry.quote := by
    intro hbrace
    have hquote := hp.entry.quote
    rw [← hbrace] at hquote
    revert hquote
    decide
  have htext : p.written = before ++ (p.entry.commentText ++ (behind ++ (p.entry.key ++
      ([':', ' ', p.entry.quote] ++ (p.entry.text ++ [p.entry.quote]))))) := by
    simp [Piece.written, hlead, WrittenEntry.pair, WrittenEntry.literal]
  rw [htext] at h
  rcases append_cons_of_not_mem (not_mem_of_all (by decide) hbefore) h with ⟨s1, hs, h1⟩
  rcases append_cons_eq_append h1 with ⟨rest, hcomment⟩ | ⟨s2, hs1, h2⟩
  · rw [hs]
    exact isCut_comment hbefore hcomment
  · rcases append_cons_of_not_mem (not_mem_of_all (by decide) hbehind) h2 with ⟨s3, hs2, h3⟩
    rcases append_cons_of_not_mem (not_mem_of_all (by decide) hkey) h3 with ⟨s4, hs3, h4⟩
    have hmarks : '}' ∉ [':', ' ', p.entry.quote] := by simp [hquote]
    rcases append_cons_of_not_mem hmarks h4 with ⟨s5, hs4, h5⟩
    have hprefix : s5 <+: p.entry.text := by
      rcases append_cons_eq_append h5 with ⟨rest, ht⟩ | ⟨s6, -, h6⟩
      · exact ⟨'}' :: rest, ht.symm⟩
      · have hmem : '}' ∈ [p.entry.quote] := by simp [← h6]
        exact absurd (List.mem_singleton.mp hmem) hquote
    have hcut := Piece.IsCut.literal hprefix
    rw [hlead] at hcut
    rw [hs, hs1, hs2, hs3, hs4]
    simpa using hcut

/-- A closing brace in an object stands in one of its pieces. -/
theorem exists_isCut {ps : List Piece} {u v : Text} (hps : ∀ q ∈ ps ++ [p], q.IsStyle options)
    (h : u ++ '}' :: v = writtenPieces ps ++ (p.written ++ [' '])) :
    ∃ (qs : List Piece) (q : Piece) (rest : List Piece) (s : Text),
      ps ++ [p] = qs ++ q :: rest ∧ u = writtenPieces qs ++ s ∧ q.IsCut s := by
  induction ps generalizing u with
  | nil =>
      rcases append_cons_eq_append (a := p.written) h with ⟨rest, hwritten⟩ | ⟨s, -, hs⟩
      · exact ⟨[], p, [], u, rfl, rfl, (hps p (by simp)).isCut hwritten.symm⟩
      · have hmem : '}' ∈ [' '] := by simp [← hs]
        exact absurd hmem (by decide)
  | cons q ps ih =>
      have htext : u ++ '}' :: v =
          q.written ++ ([','] ++ (writtenPieces ps ++ (p.written ++ [' ']))) := by
        rw [h]
        simp [writtenPieces]
      rcases append_cons_eq_append htext with ⟨rest, hwritten⟩ | ⟨u1, hu, h1⟩
      · exact ⟨[], q, ps ++ [p], u, rfl, rfl, (hps q (by simp)).isCut hwritten.symm⟩
      · rcases append_cons_of_not_mem (by decide) h1 with ⟨u2, hu1, h2⟩
        rcases ih (fun r hr => hps r (List.mem_cons_of_mem _ hr)) h2 with
            ⟨qs, r, rest, s, hpieces, hu2, hcut⟩
        refine ⟨q :: qs, r, rest, s, by rw [List.cons_append, hpieces, List.cons_append], ?_, hcut⟩
        rw [hu, hu1, hu2]
        simp [writtenPieces]

end Cut

end InlineStyle
end DesignTokens
