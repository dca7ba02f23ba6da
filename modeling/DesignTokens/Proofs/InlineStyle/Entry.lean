import DesignTokens.Finding.InlineStyle
import DesignTokens.Proofs.Source.Window
import DesignTokens.Proofs.Text.Pieces

/-!
# Written entries

An entry is written as a key of the property table, a colon and a literal that
fits the property, with blanks and comments before the key. It gives exactly one
finding, which does not depend on the comments. A beginning of an entry that does
not reach the end of the literal gives no finding of a plain value, and one that
does not reach the end of a comment gives nothing at all.
-/

namespace DesignTokens

/-- What a finding says apart from its place and its surroundings. -/
structure Record where
  category : Category
  value : Text
  property : Text
  path : List Text
  dynamic : Bool
deriving DecidableEq, Repr

def Finding.record (f : Finding) : Record :=
  ⟨f.category, f.value, f.property, f.path, f.details.dynamic⟩

namespace InlineStyle

/-- An entry as it is written, with a comment before it or none, and the category of its key. -/
structure WrittenEntry where
  comment : Option Text
  key : Text
  category : Category
  quote : Char
  text : Text

namespace WrittenEntry

def commentText (e : WrittenEntry) : Text :=
  match e.comment with
  | none => []
  | some body => Source.commentText body

def literal (e : WrittenEntry) : Text :=
  e.quote :: (e.text ++ [e.quote])

def pair (e : WrittenEntry) : Text :=
  e.key ++ ':' :: ' ' :: e.literal

def bare (e : WrittenEntry) : WrittenEntry :=
  { e with comment := none }

def record (e : WrittenEntry) : Record :=
  ⟨e.category, Text.strip e.text, e.key, ["style".toList, e.key], false⟩

/--
Whether an entry is a style: its key is a known property whose category is asked for,
and its value is one literal of the shape that the property asks for.
-/
structure IsStyle (options : ScanOptions) (e : WrittenEntry) : Prop where
  comment : ∀ body ∈ e.comment, Source.IsCommentBody body
  known : propertyCategory? e.key = some e.category
  asked : e.category ∈ options.categories
  quote : Scan.isQuote e.quote = true
  text : Scan.IsLiteralText e.quote e.text
  fits : Shape.fits e.category (some e.key) (Text.strip e.text) = true

instance (options : ScanOptions) (e : WrittenEntry) : Decidable (e.IsStyle options) :=
  decidable_of_iff
    ((∀ body ∈ e.comment, Source.IsCommentBody body) ∧
      propertyCategory? e.key = some e.category ∧ e.category ∈ options.categories ∧
        Scan.isQuote e.quote = true ∧ Scan.IsLiteralText e.quote e.text ∧
          Shape.fits e.category (some e.key) (Text.strip e.text) = true)
    ⟨fun ⟨h1, h2, h3, h4, h5, h6⟩ => ⟨h1, h2, h3, h4, h5, h6⟩,
      fun h => ⟨h.1, h.2, h.3, h.4, h.5, h.6⟩⟩

end WrittenEntry

/-!
## Keys
-/

theorem styleProperties_keys : ∀ p ∈ styleProperties,
    p.1.toList ≠ [] ∧ p.1.toList.all Char.isAlpha = true ∧
      camelCase p.1.toList = p.1.toList := by
  decide +kernel

theorem key_of_propertyCategory? {key : Text} {category : Category}
    (h : propertyCategory? key = some category) :
    key ≠ [] ∧ (∀ c ∈ key, c.isAlpha = true) ∧ camelCase key = key := by
  unfold propertyCategory? at h
  rcases Option.map_eq_some_iff.mp h with ⟨p, hfind, -⟩
  have hkey : p.1.toList = key := by
    have hp := List.find?_some hfind
    exact of_decide_eq_true hp
  rcases styleProperties_keys p (List.mem_of_find?_eq_some hfind) with ⟨hne, hall, hcamel⟩
  rw [← hkey]
  exact ⟨hne, List.all_eq_true.mp hall, hcamel⟩

theorem isNameChar_of_isAlpha {c : Char} (h : c.isAlpha = true) : isNameChar c = true := by
  simp [isNameChar, Text.isWord, Text.isAlphanumeric, Char.isAlphanum, h]

def isKeyChar (c : Char) : Bool :=
  isNameChar c || c = '-'

theorem isKeyChar_of_isNameStart {c : Char} (h : isNameStart c = true) : isKeyChar c = true := by
  simp only [isNameStart, Bool.or_eq_true, decide_eq_true_eq] at h
  rcases h with (h | rfl) | rfl
  · rw [isKeyChar, isNameChar_of_isAlpha h, Bool.true_or]
  · decide +kernel
  · decide +kernel

def isBareKey : Text → Bool
  | [] => false
  | c :: key => isNameStart c && key.all isKeyChar

theorem isBareKey_of_known {key : Text} {category : Category}
    (h : propertyCategory? key = some category) : isBareKey key = true := by
  rcases key_of_propertyCategory? h with ⟨hne, hkey, -⟩
  rcases List.exists_cons_of_ne_nil hne with ⟨c, k, rfl⟩
  have hstart : isNameStart c = true := by
    simp [isNameStart, hkey c List.mem_cons_self]
  have hall : k.all isKeyChar = true := by
    rw [List.all_eq_true]
    intro d hd
    rw [isKeyChar, isNameChar_of_isAlpha (hkey d (List.mem_cons_of_mem _ hd)), Bool.true_or]
  rw [isBareKey, hstart, hall]
  rfl

theorem exists_cons_of_isBareKey {key : Text} (h : isBareKey key = true) :
    ∃ c k, key = c :: k ∧ isNameStart c = true ∧ ∀ d ∈ k, isKeyChar d = true := by
  cases key with
  | nil => simp [isBareKey] at h
  | cons c k =>
      rw [isBareKey, Bool.and_eq_true] at h
      exact ⟨c, k, rfl, h.1, List.all_eq_true.mp h.2⟩

theorem keySplit_written {key : Text} (rest : Text) (h : isBareKey key = true) :
    keySplit (key ++ ':' :: rest) = (key, ':' :: rest) := by
  rcases exists_cons_of_isBareKey h with ⟨c, k, rfl, hstart, hname⟩
  have hquote : ¬ (c = '"' ∨ c = '\'') := by
    rintro (rfl | rfl) <;> revert hstart <;> decide
  have hcolon : isKeyChar ':' = false := by decide +kernel
  have htake : (k ++ ':' :: rest).takeWhile (fun d => isNameChar d || d = '-') = k := by
    change (k ++ ':' :: rest).takeWhile isKeyChar = k
    rw [List.takeWhile_append_of_pos hname, List.takeWhile_cons, hcolon]
    simp
  have hdrop : (k ++ ':' :: rest).dropWhile (fun d => isNameChar d || d = '-') = ':' :: rest := by
    change (k ++ ':' :: rest).dropWhile isKeyChar = ':' :: rest
    rw [List.dropWhile_append_of_pos hname, List.dropWhile_cons, hcolon]
    simp
  rw [List.cons_append, keySplit, if_neg hquote, if_pos hstart, htake, hdrop]

theorem isBlank_of_isAlpha {c : Char} (h : c.isAlpha = true) : Text.isBlank c = false := by
  apply Text.isBlank_of_graphic
  unfold Char.isAlpha Char.isUpper Char.isLower at h
  simp only [Bool.or_eq_true, Bool.and_eq_true, decide_eq_true_eq, UInt32.le_iff_toNat_le] at h
  rcases h with ⟨h1, h2⟩ | ⟨h1, h2⟩
  · exact ⟨Nat.le_trans (by decide) h1, h2.trans (by decide)⟩
  · exact ⟨Nat.le_trans (by decide) h1, h2.trans (by decide)⟩

theorem isBlank_of_isNameStart {c : Char} (h : isNameStart c = true) : Text.isBlank c = false := by
  simp only [isNameStart, Bool.or_eq_true, decide_eq_true_eq] at h
  rcases h with (h | rfl) | rfl
  · exact isBlank_of_isAlpha h
  · decide
  · decide

/-!
## Before the key
-/

/-- What stands before the key of an entry: blanks and comments. -/
inductive IsLead : Text → Prop where
  | blanks {t : Text} : (∀ c ∈ t, Text.isBlank c = true) → IsLead t
  | comment {t body rest : Text} : (∀ c ∈ t, Text.isBlank c = true) →
      Source.IsCommentBody body → IsLead rest → IsLead (t ++ (Source.commentText body ++ rest))

theorem IsLead.blank_append {t lead : Text} (ht : ∀ c ∈ t, Text.isBlank c = true)
    (h : IsLead lead) : IsLead (t ++ lead) := by
  have happend : ∀ {u : Text}, (∀ c ∈ u, Text.isBlank c = true) →
      ∀ c ∈ t ++ u, Text.isBlank c = true := by
    intro u hu c hc
    rcases List.mem_append.mp hc with hc | hc
    · exact ht c hc
    · exact hu c hc
  cases h with
  | blanks hlead => exact .blanks (happend hlead)
  | comment hblanks hbody hrest =>
      rw [← List.append_assoc]
      exact .comment (happend hblanks) hbody hrest

theorem skipComments_lead {lead t : Text} {c : Char} (h : IsLead lead)
    (hblank : Text.isBlank c = false) (hslash : c ≠ '/') :
    ∃ blanks : Text, (∀ d ∈ blanks, Text.isBlank d = true) ∧
      Source.skipComments (lead ++ c :: t) = blanks ++ c :: t := by
  induction h with
  | @blanks u hu => exact ⟨u, hu, Source.skipComments_of_ne_slash hu hblank hslash⟩
  | comment hu hbody _ ih =>
      rcases ih with ⟨blanks, hblanks, hskip⟩
      refine ⟨blanks, hblanks, ?_⟩
      rw [List.append_assoc, List.append_assoc, Source.skipComments_comment _ hu hbody, hskip]

theorem skipComments_lead_open {lead s body : Text} (h : IsLead lead)
    (hbody : Source.IsCommentBody body) (hs : s <+: body) :
    ∃ blanks : Text, (∀ d ∈ blanks, Text.isBlank d = true) ∧
      Source.skipComments (lead ++ '/' :: '*' :: s) = blanks ++ '/' :: '*' :: s := by
  induction h with
  | @blanks u hu => exact ⟨u, hu, Source.skipComments_open hu hbody hs⟩
  | comment hu hbody' _ ih =>
      rcases ih with ⟨blanks, hblanks, hskip⟩
      refine ⟨blanks, hblanks, ?_⟩
      rw [List.append_assoc, List.append_assoc, Source.skipComments_comment _ hu hbody', hskip]

theorem key?_written {lead key : Text} (rest : Text) (hlead : IsLead lead)
    (hkey : isBareKey key = true) :
    key? (Source.skipComments (lead ++ (key ++ ':' :: rest))) = some (key, rest) := by
  have hsplit := keySplit_written rest hkey
  rcases exists_cons_of_isBareKey hkey with ⟨c, k, rfl, hstart, -⟩
  have hblank : Text.isBlank c = false := isBlank_of_isNameStart hstart
  have hslash : c ≠ '/' := by
    rintro rfl
    revert hstart
    decide
  have hcolon : Text.isBlank ':' = false := by decide
  obtain ⟨blanks, hblanks, hskip⟩ := skipComments_lead (t := k ++ ':' :: rest) hlead hblank hslash
  have hstrip : Text.stripLeft (blanks ++ c :: (k ++ ':' :: rest)) = c :: k ++ ':' :: rest := by
    rw [Text.stripLeft_append_of_blank _ hblanks]
    simp [Text.stripLeft, hblank]
  have hafter : Text.after? [':'] (Text.stripLeft (':' :: rest)) = some rest := by
    simp [Text.stripLeft, hcolon, Text.after?]
  rw [List.cons_append, hskip, key?, hstrip, hsplit]
  simp only [hafter, Option.map_some]

theorem key?_open {lead s body : Text} (hlead : IsLead lead)
    (hbody : Source.IsCommentBody body) (hs : s <+: body) :
    key? (Source.skipComments (lead ++ '/' :: '*' :: s)) = none := by
  rcases skipComments_lead_open hlead hbody hs with ⟨blanks, hblanks, hskip⟩
  have hslash : Text.isBlank '/' = false := by decide
  have hstrip : Text.stripLeft (blanks ++ '/' :: '*' :: s) = '/' :: '*' :: s := by
    rw [Text.stripLeft_append_of_blank _ hblanks]
    simp [Text.stripLeft, hslash]
  rw [hskip, key?, hstrip]
  rfl

/-!
## Entries in windows
-/

theorem entry?_written {w : Window} {lead key rest : Text} (hlead : IsLead lead)
    (hkey : isBareKey key = true) (hw : w.text = lead ++ (key ++ ':' :: rest))
    (hrest : Text.strip rest ≠ []) :
    ∃ v : Window, entry? w = some ⟨key, v⟩ ∧ v.text = Text.strip rest ∧
      v.start = w.start + lead.length + key.length + 1 + (rest.takeWhile Text.isBlank).length := by
  have hlength : w.text.length = lead.length + key.length + 1 + rest.length := by
    rw [hw]
    simp only [List.length_append, List.length_cons]
    omega
  have hstart : w.text.length - rest.length = lead.length + key.length + 1 := by omega
  have hdrop : (w.drop (lead.length + key.length + 1)).text = rest := by
    have htext : lead ++ (key ++ ':' :: rest) = (lead ++ key ++ [':']) ++ rest := by simp
    have hprefix : lead.length + key.length + 1 = (lead ++ key ++ [':']).length := by
      simp [Nat.add_assoc]
    rw [Window.drop_text, hw, htext, hprefix, List.drop_left]
  have hread : key? (Source.skipComments w.text) = some (key, rest) := by
    rw [hw]
    exact key?_written rest hlead hkey
  have htext : (w.drop (lead.length + key.length + 1)).strip.text = Text.strip rest := by
    rw [Window.strip_text, hdrop]
  refine ⟨(w.drop (lead.length + key.length + 1)).strip, ?_, htext, ?_⟩
  · have hvalue : (w.drop (lead.length + key.length + 1)).strip.text ≠ [] := by
      rw [htext]
      exact hrest
    simp only [hread, hstart, entry?, if_neg hvalue]
  · rw [Window.strip_start, hdrop, Window.drop_start]
    omega

theorem entry?_open {w : Window} {lead s body : Text} (hlead : IsLead lead)
    (hbody : Source.IsCommentBody body) (hs : s <+: body)
    (hw : w.text = lead ++ '/' :: '*' :: s) : entry? w = none := by
  have hread : key? (Source.skipComments w.text) = none := by
    rw [hw]
    exact key?_open hlead hbody hs
  simp only [hread, entry?]

/-!
## Values
-/

@[simp] theorem dynamic_describe (category : Category) (value : Text) (dynamic : Bool) :
    (Details.describe category value dynamic).dynamic = dynamic := by
  cases category <;> rfl

theorem hasAt_strip {source t : Text} {offset : Nat} (h : Source.HasAt source offset t) :
    Source.HasAt source (offset + (t.length - (Text.stripLeft t).length)) (Text.strip t) := by
  have hsplit : t.takeWhile Text.isBlank ++ Text.stripLeft t = t :=
    List.takeWhile_append_dropWhile
  have hlength : t.length - (Text.stripLeft t).length = (t.takeWhile Text.isBlank).length := by
    have hlength := congrArg List.length hsplit
    rw [List.length_append] at hlength
    omega
  rw [hlength]
  rw [← hsplit] at h
  exact h.right.ofPrefix (Text.stripRight_prefix (Text.stripLeft t))

theorem record_literalFinding {site : Site} {slot : Slot} {dynamic : Bool} {l : Literal Nat}
    (h : Source.HasAt site.source l.contentStart l.text) :
    (literalFinding site slot dynamic l).record =
      ⟨slot.category, Text.strip l.text, slot.property, slot.path, dynamic⟩ := by
  simp only [Finding.record, literalFinding, Site.finding, dynamic_describe, (hasAt_strip h).slice]

theorem start_literalFinding (site : Site) (slot : Slot) (dynamic : Bool) (l : Literal Nat) :
    (l.contentStart : Int) ≤ (literalFinding site slot dynamic l).location.start ∧
      (literalFinding site slot dynamic l).location.start ≤ l.contentStart + l.text.length := by
  simp only [literalFinding, Site.finding, Source.location]
  omega

theorem plainLiteral?_written {v : Window} {quote : Char} {t : Text}
    (hquote : Scan.isQuote quote = true) (ht : Scan.IsLiteralText quote t)
    (hv : v.text = quote :: (t ++ [quote])) :
    plainLiteral? v = some ⟨quote, v.start, v.start + t.length + 2, t, []⟩ := by
  have hread : v.literal? = some ⟨quote, v.start, v.start + t.length + 2, t, []⟩ := by
    rw [Window.literal?, hv, Scan.literal_written 0 v.start [] hquote ht]
    rfl
  have hdrop : v.text.drop (v.start + t.length + 2 - v.start) = [] := by
    rw [hv, List.drop_eq_nil_iff]
    simp only [List.length_cons, List.length_append, List.length_nil]
    omega
  rw [plainLiteral?, hread]
  simp only [Option.filter, Literal.isDynamic, List.isEmpty_nil, hdrop]
  rfl

theorem plainLiteral?_prefix {v : Window} {quote : Char} {s t : Text}
    (hquote : Scan.isQuote quote = true) (ht : Scan.IsLiteralText quote t) (hs : s <+: t)
    (hv : v.text = quote :: s) : plainLiteral? v = none := by
  have hread : v.literal? = none := by
    rw [Window.literal?, hv, Scan.literal_prefix v.start hquote ht hs]
    rfl
  rw [plainLiteral?, hread]
  rfl

/-- In a value without a plain literal all findings are parts of what the source computes. -/
theorem dynamic_of_mem_computedReport {site : Site} {slot : Slot} {value : Window} {f : Finding}
    (h : f ∈ (computedReport site slot value).findings) : f.record.dynamic = true := by
  unfold computedReport at h
  split at h
  · simp [remark, Report.remark] at h
  · rcases List.mem_map.mp h with ⟨l, -, rfl⟩
    exact dynamic_describe slot.category _ true

/-!
## Reports on entries
-/

section Report

variable {site : Site} {inner : List Text → Window → Report} {path : List Text} {e : WrittenEntry}

def pieceReport (site : Site) (inner : List Text → Window → Report) (path : List Text)
    (piece : Window) : Report :=
  match entry? piece with
  | none => .empty
  | some e => entryReport site inner path e

theorem entryReport_quoted {v : Window} {key t : Text} {quote : Char} {slot : Slot}
    (hslot : slot? site.options path key = some slot) (hquote : Scan.isQuote quote = true)
    (hv : v.text = quote :: t) :
    entryReport site inner path ⟨key, v⟩ = valueReport site slot v := by
  have hbrace : v.text.head? ≠ some '{' := by
    rw [hv]
    intro hhead
    rw [Option.some.inj hhead] at hquote
    revert hquote
    decide
  simp only [entryReport, if_neg hbrace, hslot]

theorem pieceReport_literal (inner : List Text → Window → Report) (path : List Text)
    {w : Window} {lead key after t : Text} {quote : Char} {slot : Slot} (hlead : IsLead lead)
    (hkey : isBareKey key = true) (hslot : slot? site.options path key = some slot)
    (hquote : Scan.isQuote quote = true) (ht : Scan.IsLiteralText quote t)
    (hfits : Shape.fits slot.category (some slot.property) (Text.strip t) = true)
    (hafter : ∀ c ∈ after, Text.isBlank c = true)
    (hw : w.text = lead ++ (key ++ ':' :: ' ' :: quote :: (t ++ [quote])) ++ after) :
    pieceReport site inner path w =
      ⟨[literalFinding site slot false
        ⟨quote, w.start + lead.length + key.length + 2,
          w.start + lead.length + key.length + 2 + t.length + 2, t, []⟩], []⟩ := by
  have hblank : Text.isBlank quote = false := Scan.isBlank_of_isQuote hquote
  have hspace : Text.isBlank ' ' = true := by decide
  have htext : w.text = lead ++ (key ++ ':' :: ([' '] ++ (quote :: (t ++ [quote])) ++ after)) := by
    rw [hw]
    simp
  have hstrip : Text.strip ([' '] ++ (quote :: (t ++ [quote])) ++ after) =
      quote :: (t ++ [quote]) := by
    rw [Text.strip_pad _ Text.isBlank_space hafter]
    exact Text.strip_of_not_blank hblank hblank
  have hblanks : (([' '] ++ (quote :: (t ++ [quote])) ++ after).takeWhile Text.isBlank).length =
      1 := by
    simp [hspace, hblank]
  have hne : Text.strip ([' '] ++ (quote :: (t ++ [quote])) ++ after) ≠ [] := by
    rw [hstrip]
    exact List.cons_ne_nil _ _
  rcases entry?_written hlead hkey htext hne with ⟨v, hentry, hv, hstart⟩
  rw [hstrip] at hv
  rw [hblanks] at hstart
  have hplain := plainLiteral?_written hquote ht hv
  rw [hstart] at hplain
  simp only [pieceReport, hentry]
  rw [entryReport_quoted hslot hquote hv, valueReport, hplain]
  simp only [plainReport, Slot.fits, hfits, if_true]

theorem WrittenEntry.IsStyle.slot? (h : e.IsStyle site.options) (path : List Text) :
    InlineStyle.slot? site.options path e.key = some ⟨e.category, e.key, path ++ [e.key]⟩ := by
  simp only [InlineStyle.slot?, (key_of_propertyCategory? h.known).2.2, h.known, if_pos h.asked]

/-- A written entry gives one finding, wherever it stands and whatever comments stand before it. -/
theorem pieceReport_written (inner : List Text → Window → Report) (path : List Text)
    {w : Window} {lead after : Text} (h : e.IsStyle site.options) (hin : w.IsIn site.source)
    (hlead : IsLead lead) (hafter : ∀ c ∈ after, Text.isBlank c = true)
    (hw : w.text = lead ++ e.pair ++ after) :
    ∃ f : Finding, pieceReport site inner path w = ⟨[f], []⟩ ∧
      f.record = ⟨e.category, Text.strip e.text, e.key, path ++ [e.key], false⟩ ∧
      (w.start : Int) ≤ f.location.start ∧ f.location.start ≤ w.stop := by
  have hreport := pieceReport_literal inner path hlead (isBareKey_of_known h.known)
    (h.slot? path) h.quote h.text h.fits hafter hw
  refine ⟨_, hreport, ?_, ?_⟩
  · have htext : w.text = (lead ++ (e.key ++ [':', ' ', e.quote])) ++
        (e.text ++ (e.quote :: after)) := by
      rw [hw]
      simp [WrittenEntry.pair, WrittenEntry.literal]
    have hcontent : Source.HasAt site.source (w.start + lead.length + e.key.length + 2 + 1)
        e.text := by
      unfold Window.IsIn at hin
      rw [htext] at hin
      have hat := hin.right.left
      have hlength : (lead ++ (e.key ++ [':', ' ', e.quote])).length =
          lead.length + e.key.length + 3 := by
        simp [Nat.add_assoc]
      rw [hlength] at hat
      convert hat using 1
      omega
    exact record_literalFinding hcontent
  · have hlength : w.text.length =
        lead.length + e.key.length + 4 + e.text.length + after.length := by
      rw [hw, WrittenEntry.pair, WrittenEntry.literal]
      simp only [List.length_append, List.length_cons, List.length_nil]
      omega
    obtain ⟨hfrom, hto⟩ := start_literalFinding site ⟨e.category, e.key, path ++ [e.key]⟩ false
      ⟨e.quote, w.start + lead.length + e.key.length + 2,
        w.start + lead.length + e.key.length + 2 + e.text.length + 2, e.text, []⟩
    simp only [Literal.contentStart] at hfrom hto
    rw [Window.stop, hlength]
    omega

/-- A beginning of an entry without the last quote gives no finding of a plain value. -/
theorem dynamic_of_mem_pieceReport_prefix {w : Window} {lead s : Text} {f : Finding}
    (h : e.IsStyle site.options) (hlead : IsLead lead) (hs : s <+: e.text)
    (hw : w.text = lead ++ (e.key ++ ':' :: ' ' :: e.quote :: s))
    (hf : f ∈ (pieceReport site inner path w).findings) : f.record.dynamic = true := by
  have hquote : Text.isBlank e.quote = false := Scan.isBlank_of_isQuote h.quote
  have hstrip : Text.strip (' ' :: e.quote :: s) = e.quote :: Text.stripRight s := by
    have hleft : Text.stripLeft (' ' :: e.quote :: s) = e.quote :: s := by
      have hspace : Text.isBlank ' ' = true := by decide
      simp [Text.stripLeft, hspace, hquote]
    rw [Text.strip, hleft, Text.stripRight_cons hquote]
  have hliteral : Text.strip (' ' :: e.quote :: s) ≠ [] := by
    rw [hstrip]
    exact List.cons_ne_nil _ _
  rcases entry?_written hlead (isBareKey_of_known h.known) hw hliteral with ⟨v, hentry, hv, -⟩
  rw [hstrip] at hv
  have hprefix : Text.stripRight s <+: e.text := (Text.stripRight_prefix s).trans hs
  have hplain := plainLiteral?_prefix h.quote h.text hprefix hv
  simp only [pieceReport, hentry] at hf
  rw [entryReport_quoted (h.slot? path) h.quote hv, valueReport, hplain] at hf
  exact dynamic_of_mem_computedReport hf

/-- A comment that does not end hides the entry behind it. -/
theorem pieceReport_open {w : Window} {lead s body : Text} (hlead : IsLead lead)
    (hbody : Source.IsCommentBody body) (hs : s <+: body)
    (hw : w.text = lead ++ '/' :: '*' :: s) : pieceReport site inner path w = .empty := by
  simp only [pieceReport, entry?_open hlead hbody hs hw]

end Report

end InlineStyle
end DesignTokens
