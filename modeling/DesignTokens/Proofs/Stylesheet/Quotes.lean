import DesignTokens.Proofs.Stylesheet.Place

/-!
# Texts between quotes

A value that is read is opaque between its quotes: whatever stands there, as long as no
comment begins in it, all other variables keep their values. Every other statement is
searched for declarations, between its quotes as well, so that every variable can be
declared there.
-/

namespace DesignTokens
namespace Stylesheet

/-!
## Quotes in values
-/

/-- The quotes that hide what stands between them. -/
def isQuote (c : Char) : Bool :=
  c = '"' || c = '\''

/-- What stands between two quotes: a backslash takes the next character with it. -/
inductive IsQuotedText (quote : Char) : Text → Prop where
  | nil : IsQuotedText quote []
  | escaped (c : Char) {t : Text} : IsQuotedText quote t → IsQuotedText quote ('\\' :: c :: t)
  | cons {c : Char} {t : Text} : c ≠ '\\' → c ≠ quote → IsQuotedText quote t →
      IsQuotedText quote (c :: t)

theorem isQuotedText_of_not_mem {quote : Char} {t : Text} (hback : '\\' ∉ t) (h : quote ∉ t) :
    IsQuotedText quote t := by
  induction t with
  | nil => exact .nil
  | cons c t ih =>
      rw [List.mem_cons, not_or] at hback h
      exact .cons (Ne.symm hback.1) (Ne.symm h.1) (ih hback.2 h.2)

def IsQuotable (t : Text) : Prop :=
  ∀ c ∈ t, c ≠ '"' ∧ c ≠ '\'' ∧ c ≠ '\\' ∧ c ≠ '\n'

instance (t : Text) : Decidable (IsQuotable t) :=
  List.decidableBAll _ t

theorem IsQuotable.isQuotedText {quote : Char} {t : Text} (hquote : isQuote quote = true)
    (h : IsQuotable t) : IsQuotedText quote t := by
  refine isQuotedText_of_not_mem (fun hback => (h _ hback).2.2.1 rfl) fun hmem => ?_
  rcases h _ hmem with ⟨hdouble, hsingle, -, -⟩
  simp [isQuote, hdouble, hsingle] at hquote

/-- A scan of a value goes through a text without ending, from one state to another. -/
def ValueState.Passes (s : ValueState) (t : Text) (after : ValueState) : Prop :=
  splitValue s t = (t, []) ∧ t.foldl ValueState.step s = after

namespace ValueState.Passes

theorem nil (s : ValueState) : s.Passes [] s :=
  ⟨rfl, rfl⟩

theorem cons {s after : ValueState} {c : Char} {t : Text} (hc : s.ends c = false)
    (h : (s.step c).Passes t after) : s.Passes (c :: t) after := by
  constructor
  · rw [splitValue, hc, if_neg Bool.false_ne_true, h.1]
  · exact h.2

theorem append_iff {s after : ValueState} {t u : Text} :
    s.Passes (t ++ u) after ↔
      ∃ between, s.Passes t between ∧ between.Passes u after := by
  induction t generalizing s with
  | nil =>
      refine ⟨fun h => ⟨s, nil s, h⟩, ?_⟩
      rintro ⟨between, ⟨-, rfl⟩, h⟩
      exact h
  | cons c t ih =>
      cases hc : s.ends c with
      | true =>
          refine ⟨fun h => ?_, fun ⟨_, h, _⟩ => ?_⟩ <;>
            simp [Passes, splitValue, hc] at h
      | false =>
          have hcons : ∀ {u : Text} {after : ValueState},
              s.Passes (c :: u) after ↔ (s.step c).Passes u after := by
            intro u after
            simp [Passes, splitValue, hc, Prod.ext_iff]
          rw [List.cons_append, hcons, ih]
          simp only [hcons]

end ValueState.Passes

theorem IsQuotedText.passes {quote : Char} {t : Text} (depth : Nat) (h : IsQuotedText quote t) :
    ValueState.Passes ⟨.quoted quote, depth⟩ t ⟨.quoted quote, depth⟩ := by
  have hends : ∀ {place : ValuePlace} (c : Char), place ≠ .plain →
      ValueState.ends ⟨place, depth⟩ c = false := by
    intro place c hplace
    simp [ValueState.ends, ValueState.top, hplace]
  induction h with
  | nil => exact .nil _
  | escaped c _ ih => exact .cons (hends _ (by simp)) (.cons (hends c (by simp)) ih)
  | cons hc hne _ ih =>
      refine .cons (hends _ (by simp)) ?_
      simpa [ValueState.step, hc, hne] using ih

def quotedIn (before : Text) (quote : Char) (after t : Text) : Text :=
  before ++ quote :: (t ++ quote :: after)

section Quoted

variable {before after old new : Text} {quote : Char}

theorem isQuote_cases (h : isQuote quote = true) : quote = '"' ∨ quote = '\'' := by
  simpa [isQuote] using h

/-- A closed value stays closed with another text between two of its quotes. -/
theorem isClosed_quotedIn (hquote : isQuote quote = true)
    (hplace : (before.foldl ValueState.step .top).place = .plain)
    (hold : IsQuotedText quote old) (hnew : IsQuotedText quote new)
    (h : IsClosed (quotedIn before quote after old)) :
    IsClosed (quotedIn before quote after new) := by
  rcases ValueState.Passes.append_iff.mp h with ⟨⟨place, depth⟩, hbefore, hrest⟩
  rw [hbefore.2] at hplace
  have hplain : place = .plain := hplace
  subst hplain
  have hends : ValueState.ends ⟨.plain, depth⟩ quote = false := by
    rcases isQuote_cases hquote with rfl | rfl <;> simp [ValueState.ends]
  have hstep : ValueState.step ⟨.plain, depth⟩ quote = ⟨.quoted quote, depth⟩ := by
    simp [ValueState.step, isQuote_cases hquote]
  have hinside : ValueState.Passes ⟨.quoted quote, depth⟩ (old ++ quote :: after) .top := by
    rw [ValueState.Passes, splitValue, hends, hstep] at hrest
    simpa [ValueState.Passes, Prod.ext_iff, hstep] using hrest
  rcases ValueState.Passes.append_iff.mp hinside with ⟨between, hfirst, hlast⟩
  -- at the second quote the scan is where it was behind the first, whatever it went through
  have hbetween : between = ⟨.quoted quote, depth⟩ :=
    hfirst.2.symm.trans (hold.passes depth).2
  rw [hbetween] at hlast
  have hafter : ValueState.Passes ⟨.quoted quote, depth⟩ (new ++ quote :: after) .top :=
    ValueState.Passes.append_iff.mpr ⟨_, hnew.passes depth, hlast⟩
  rw [← hstep] at hafter
  exact ValueState.Passes.append_iff.mpr ⟨_, hbefore, .cons hends hafter⟩

/-- Two characters behind each other do not stand around a third one. -/
theorem infix_of_infix_append_cons {x y c : Char} {t u : Text} (hx : c ≠ x) (hy : c ≠ y)
    (h : [x, y] <:+: t ++ c :: u) : [x, y] <:+: t ∨ [x, y] <:+: u := by
  induction t with
  | nil =>
      rcases List.infix_cons_iff.mp h with h | h
      · exact absurd (List.cons_prefix_cons.mp h).1.symm hx
      · exact .inr h
  | cons d t ih =>
      rcases List.infix_cons_iff.mp h with h | h
      · rcases List.cons_prefix_cons.mp h with ⟨rfl, hsecond⟩
        cases t with
        | nil => exact absurd (List.cons_prefix_cons.mp hsecond).1.symm hy
        | cons e t =>
            rcases List.cons_prefix_cons.mp hsecond with ⟨rfl, -⟩
            exact .inl ⟨[], t, rfl⟩
      · rcases ih h with h | h
        · exact .inl (h.trans (List.suffix_cons d t).isInfix)
        · exact .inr h

theorem unmarked_quotedIn (hquote : isQuote quote = true)
    (h : ¬ ['/', '*'] <:+: quotedIn before quote after old) (hnew : ¬ ['/', '*'] <:+: new) :
    ¬ ['/', '*'] <:+: quotedIn before quote after new := by
  have hne : quote ≠ '/' ∧ quote ≠ '*' := by
    rcases isQuote_cases hquote with rfl | rfl <;> decide
  have hbefore : before <:+: quotedIn before quote after old := ⟨[], _, rfl⟩
  have hafter : after <:+: quotedIn before quote after old :=
    ⟨before ++ quote :: (old ++ [quote]), [], by simp [quotedIn]⟩
  intro hmark
  rcases infix_of_infix_append_cons hne.1 hne.2 hmark with hmark | hmark
  · exact h (hmark.trans hbefore)
  · rcases infix_of_infix_append_cons hne.1 hne.2 hmark with hmark | hmark
    · exact hnew hmark
    · exact h (hmark.trans hafter)

end Quoted

def declaring (word : Text) : Text :=
  ';' :: ("--".toList ++ word ++ [] ++ [':'])

theorem isQuotable_declaring {word : Text} (h : ∀ c ∈ word, isNameChar c = true) :
    IsQuotable (declaring word) ∧ ¬ ['/', '*'] <:+: declaring word := by
  constructor
  · have hchar : ∀ c, isNameChar c = true → c ≠ '"' ∧ c ≠ '\'' ∧ c ≠ '\\' ∧ c ≠ '\n' := by
      intro c hc
      refine ⟨?_, ?_, ?_, ?_⟩ <;>
        · rintro rfl
          exact absurd hc (by decide)
    intro c hc
    simp only [declaring, List.mem_cons, List.mem_append, List.not_mem_nil, or_false] at hc
    rcases hc with rfl | (hc | hc) | rfl
    · decide
    · exact hchar c (List.all_eq_true.mp (by decide : "--".toList.all isNameChar = true) c hc)
    · exact hchar c (h c hc)
    · decide
  · have hword : '/' ∉ declaring word := by simp [declaring, no_slash_of_name h]
    exact fun hmark => hword (hmark.subset List.mem_cons_self)

/-!
## Strings of a stylesheet

A stylesheet is taken apart at the two quotes of a string: the statement up to the first
quote, what stands between the quotes, the statement behind them, and the block around it.
-/

/-- How a statement begins: as the declaration of a custom property, or in any other way. -/
inductive Opening where
  | custom (lead name gap : Text)
  | other

def Opening.statement : Opening → Text → Statement
  | custom lead name gap, value => .custom lead name gap value
  | other, text => .other text

def Opening.written : Opening → Text
  | custom lead name gap => lead ++ ("--".toList ++ name ++ gap ++ [':'])
  | other => []

theorem Opening.written_statement (opening : Opening) (t : Text) :
    (opening.statement t).written = opening.written ++ t := by
  cases opening with
  | custom lead name gap => simp [statement, Statement.written, Opening.written]
  | other => rfl

/-- A stylesheet without the text between two of its quotes. -/
structure Spot where
  place : Place
  opening : Opening
  before : Text
  quote : Char
  after : Text

namespace Spot

def filled (p : Spot) (t : Text) : Statement :=
  p.opening.statement (quotedIn p.before p.quote p.after t)

def sheet (p : Spot) (t : Text) : Text :=
  (p.place.fill (p.filled t)).written

/-- The variable whose value is read with the quotes in it. -/
def name? (p : Spot) : Option Text :=
  match p.opening, p.place.isUnheard false with
  | .custom _ name _, false => some ("--".toList ++ name)
  | _, _ => none

/-- The stylesheet can be written with a text between the quotes, which make a string of it. -/
structure IsWritable (p : Spot) (t : Text) : Prop where
  quote : isQuote p.quote = true
  plain : (p.before.foldl ValueState.step .top).place = .plain
  quoted : IsQuotedText p.quote t
  writable : (p.place.fill (p.filled t)).IsWritable
  silent : ∀ s ∈ (p.place.fill (p.filled t)).unheard false, s.IsSilent

variable {p : Spot} {old new : Text}

theorem written_filled (p : Spot) (t : Text) :
    (p.filled t).written = quotedIn (p.opening.written ++ p.before) p.quote p.after t := by
  rw [filled, Opening.written_statement, quotedIn, quotedIn, List.append_assoc]

theorem IsWritable.replace (h : p.IsWritable old) (hnew : IsQuotable new)
    (hmark : ¬ ['/', '*'] <:+: new) (hsilent : p.name? = none → (p.filled new).IsSilent) :
    p.IsWritable new := by
  rcases h with ⟨hquote, hplain, hold, hwritable, hunheard⟩
  have hquoted : IsQuotedText p.quote new := hnew.isQuotedText hquote
  have hholds := Place.holds_fill_iff.mp hwritable
  have hplaces := Place.forall_unheard_fill_iff.mp hunheard
  have hfilled : (p.filled new).IsWritable := by
    have hstatement := hholds.1
    revert hstatement hsilent
    unfold filled name?
    cases p.opening with
    | custom lead name gap =>
        intro _ hcustom
        have hcustom : IsCustom lead name gap (quotedIn p.before p.quote p.after old) := hcustom
        have hclosed := isClosed_quotedIn hquote hplain hold hquoted hcustom.closed
        have hunmarked := unmarked_quotedIn hquote hcustom.unmarked hmark
        exact ⟨hcustom.lead, hcustom.name_ne, hcustom.name_chars, hcustom.gap, hclosed, hunmarked⟩
    | other =>
        intro hnone hinert
        have hinert : IsInert (quotedIn p.before p.quote p.after old) := hinert
        exact ⟨hnone rfl, unmarked_quotedIn hquote hinert.unmarked hmark⟩
  have hown : p.place.isUnheard false = true → (p.filled new).IsSilent := by
    intro hrule
    apply hsilent
    unfold name?
    rw [hrule]
    cases p.opening <;> rfl
  exact ⟨hquote, hplain, hquoted, Place.holds_fill_iff.mpr ⟨hfilled, hholds.2⟩,
    Place.forall_unheard_fill_iff.mpr ⟨hown, hplaces.2⟩⟩

def own (p : Spot) (t : Text) : List (Text × Text) :=
  p.name?.toList.map fun name => (name, Text.strip (quotedIn p.before p.quote p.after t))

theorem heard_sheet (p : Spot) (t : Text) :
    (p.place.fill (p.filled t)).heard false =
      p.place.heardBefore false ++ (p.own t ++ p.place.heardAfter) := by
  have hown : (if p.place.isUnheard false then [] else (p.filled t).entries) = p.own t := by
    rcases p with ⟨place, opening, before, quote, after⟩
    cases opening with
    | custom lead name gap =>
        cases hunheard : place.isUnheard false <;>
          simp [own, name?, hunheard, filled, Opening.statement, Statement.entries]
    | other => simp [own, name?, filled, Opening.statement, Statement.entries]
  rw [Place.heard_fill, hown]

theorem properties_sheet (h : p.IsWritable old) :
    properties (p.sheet old) =
      Table.lastValues
        ((p.place.heardBefore false).filter (fun d => d.2 ≠ []) ++
          (p.own old ++ p.place.heardAfter.filter fun d => d.2 ≠ [])) := by
  have hquote : Text.isBlank p.quote = false := by
    rcases isQuote_cases h.quote with hq | hq <;> rw [hq] <;> decide
  have hown : (p.own old).filter (fun d => d.2 ≠ []) = p.own old := by
    rw [List.filter_eq_self]
    intro d hd
    rcases List.mem_map.mp hd with ⟨name, -, rfl⟩
    exact decide_eq_true (Text.strip_ne_nil (List.mem_append_right _ List.mem_cons_self) hquote)
  rw [properties_eq_lastValues, sheet, declarations_block h.writable h.silent, heard_sheet,
    List.filter_append, List.filter_append, hown]

/-- With another string in which nothing begins, all other variables keep their values. -/
theorem properties_replace (hold : p.IsWritable old) (hnew : p.IsWritable new) :
    (properties (p.sheet new)).names = (properties (p.sheet old)).names ∧
      ∀ name, (p.name? = some name → ∃ d ∈ p.place.heardAfter, d.1 = name ∧ d.2 ≠ []) →
        (properties (p.sheet new)).get? name = (properties (p.sheet old)).get? name := by
  rw [properties_sheet hold, properties_sheet hnew, own, own]
  cases p.name? with
  | none => exact ⟨rfl, fun _ _ => rfl⟩
  | some own =>
      constructor
      · rw [Table.names_lastValues, Table.names_lastValues]
        simp
      · intro name hname
        refine Table.get?_lastValues_entry _ _ ?_
        rintro rfl
        rcases hname rfl with ⟨d, hd, hd', hvalue⟩
        exact List.mem_map.mpr ⟨d, List.mem_filter.mpr ⟨hd, decide_eq_true hvalue⟩, hd'⟩

/-- Before the text between the quotes of a statement that is not read, nothing is declared. -/
theorem IsWritable.isSilent_before (h : p.IsWritable old) (hnone : p.name? = none)
    {last : Option Char} (hlast : Follows (p.place.isUnheard false) last) :
    IsSilent last (p.opening.written ++ p.before ++ [p.quote]) := by
  have htext : (p.filled old).written =
      (p.opening.written ++ p.before ++ [p.quote]) ++ (old ++ p.quote :: p.after) := by
    simp [written_filled, quotedIn]
  have hstatement := (Place.holds_fill_iff.mp h.writable).1
  have hunheard := (Place.forall_unheard_fill_iff.mp h.silent).1
  have hsilent : IsSilent last (p.filled old).written := by
    cases hrule : p.place.isUnheard false with
    | true =>
        rw [hrule] at hlast
        have hbrace : last = some '\x7d' := hlast
        rw [hbrace]
        exact (hunheard hrule).behindRule
    | false =>
        unfold name? at hnone
        rw [hrule] at hnone
        unfold filled at hstatement ⊢
        cases hopening : p.opening with
        | custom lead name gap =>
            rw [hopening] at hnone
            cases hnone
        | other =>
            rw [hopening] at hstatement
            have hinert : IsInert (quotedIn p.before p.quote p.after old) := hstatement
            exact hinert.silent.of_begins last rfl
  rw [htext] at hsilent
  exact hsilent.left

theorem mem_names_declaring {word : Text} (h : p.IsWritable old) (hnone : p.name? = none)
    (hne : word ≠ []) (hword : ∀ c ∈ word, isNameChar c = true) :
    "--".toList ++ word ∈ (properties (p.sheet (declaring word))).names := by
  have hholds := Place.holds_fill_iff.mp h.writable
  have hunmarked : (p.place.fill (p.filled (declaring word))).Holds Statement.IsUnmarked := by
    have hsheet := h.writable.mono fun _ => Statement.IsWritable.isUnmarked
    rw [Place.holds_fill_iff] at hsheet ⊢
    have hold : (p.filled old).IsUnmarked := hsheet.1
    rw [Statement.IsUnmarked, written_filled] at hold
    refine ⟨?_, hsheet.2⟩
    rw [Statement.IsUnmarked, written_filled]
    exact unmarked_quotedIn h.quote hold (isQuotable_declaring hword).2
  rcases @Place.declarationsFrom_fill p.place false none hholds.2
    (Place.forall_unheard_fill_iff.mp h.silent).2 rfl with ⟨last, after, hlast, hread⟩
  -- behind the semicolon the rest of the stylesheet, from the second quote on, is the value
  have htext : (p.filled (declaring word)).written ++ (after ++ []) =
      (p.opening.written ++ p.before ++ [p.quote]) ++
        ';' :: ("--".toList ++ word ++ [] ++ ':' :: (p.quote :: (p.after ++ after))) := by
    simp [written_filled, quotedIn, declaring]
  have hsemicolon : ∀ c ∈ (';' :: ("--".toList ++ word ++ [] ++
      ':' :: (p.quote :: (p.after ++ after)))).head?, endsHead c = true := by
    intro c hc
    cases hc
    decide
  have hblank : Text.isBlank p.quote = false ∧ ValueState.ends .top p.quote = false := by
    rcases isQuote_cases h.quote with hq | hq <;> rw [hq] <;> decide
  have hvalue : Text.strip (splitValue .top (p.quote :: (p.after ++ after))).1 ≠ [] := by
    rw [splitValue, hblank.2, if_neg Bool.false_ne_true]
    exact Text.strip_ne_nil List.mem_cons_self hblank.1
  have hdeclared : ∃ d ∈ declarations (p.sheet (declaring word)),
      d.1 = "--".toList ++ word ∧ d.2 ≠ [] := by
    have hsheet := hread (p.filled (declaring word)) []
    rw [htext, declarationsFrom_silent (h.isSilent_before hnone hlast) hsemicolon,
      List.head?_cons, List.tail_cons,
      declarationsFrom_of_some rfl (declarationHead?_written _ hne hword (by simp)),
      List.append_nil, ← withoutComments_written_block hunmarked] at hsheet
    refine ⟨("--".toList ++ word, _), ?_, rfl, hvalue⟩
    rw [declarations, sheet, hsheet]
    exact List.mem_append_right _ List.mem_cons_self
  rcases hdeclared with ⟨d, hd, hname, hd'⟩
  rw [properties_eq_lastValues, Table.names_lastValues, List.mem_eraseDups]
  exact List.mem_map.mpr ⟨d, List.mem_filter.mpr ⟨hd, decide_eq_true hd'⟩, hname⟩

end Spot

/--
Between the quotes of a value that is read, every text in which no comment begins is
opaque: the names of the variables stay, and the values of all that are not declared
around it alone. In any other statement the same holds of a text that declares nothing
there; but every variable is declared by some text between its quotes.
-/
theorem properties_quoted (p : Spot) (old : Text) (h : p.IsWritable old) :
    (∀ new, IsQuotable new → ¬ ['/', '*'] <:+: new →
      (p.name? = none → (p.filled new).IsSilent) →
        (properties (p.sheet new)).names = (properties (p.sheet old)).names ∧
          ∀ name, (p.name? = some name → ∃ d ∈ p.place.heardAfter, d.1 = name ∧ d.2 ≠ []) →
            (properties (p.sheet new)).get? name = (properties (p.sheet old)).get? name) ∧
      (p.name? = none → ∀ word, word ≠ [] → (∀ c ∈ word, isNameChar c = true) →
        ∃ new, IsQuotable new ∧ ¬ ['/', '*'] <:+: new ∧
          "--".toList ++ word ∈ (properties (p.sheet new)).names) := by
  refine ⟨fun new hnew hmark hsilent => ?_, fun hnone word hne hword => ?_⟩
  · exact Spot.properties_replace h (h.replace hnew hmark hsilent)
  · rcases isQuotable_declaring hword with ⟨hquotable, hmark⟩
    exact ⟨declaring word, hquotable, hmark, Spot.mem_names_declaring h hnone hne hword⟩

def Spot.inValue : Spot where
  place := .inRule ":root".toList
    (.first (.statement (.custom [] "b".toList [] " 2".toList) (.last (.other []))))
    (.last (.other []))
  opening := .custom [] "a".toList []
  before := " url(".toList
  quote := '"'
  after := ")".toList

def Spot.inContent : Spot where
  place := .inRule ".a".toList (.first (.last (.other [])))
    (.rule ":root".toList
      (.statement (.custom [] "a".toList [] "2".toList) (.last (.other []))) (.last (.other [])))
  opening := .other
  before := "content:".toList
  quote := '"'
  after := []

theorem properties_quoted_inValue_inContent :
    (properties (Spot.inValue.sheet "x;\x7d --c: 1;".toList)).get? "--b".toList =
        some "2".toList ∧
      (properties (Spot.inContent.sheet "a;b".toList)).names = ["--a".toList] ∧
      ∃ new, IsQuotable new ∧ ¬ ['/', '*'] <:+: new ∧
        "--evil".toList ∈ (properties (Spot.inContent.sheet new)).names := by
  have hvalue : Spot.inValue.IsWritable [] :=
    ⟨rfl, by decide +kernel, .nil, by decide +kernel, by decide +kernel⟩
  have hcontent : Spot.inContent.IsWritable [] :=
    ⟨rfl, by decide +kernel, .nil, by decide +kernel, by decide +kernel⟩
  have hvalues := (properties_quoted Spot.inValue [] hvalue).1 "x;\x7d --c: 1;".toList
    (by decide) (by decide) (by decide)
  have hnames := properties_quoted Spot.inContent [] hcontent
  have hnone : Spot.inContent.name? = none := rfl
  have hevil : ∀ c ∈ "evil".toList, isNameChar c = true := List.all_eq_true.mp (by decide)
  refine ⟨?_, ?_, hnames.2 hnone "evil".toList (by decide) hevil⟩
  · rw [hvalues.2 "--b".toList (by decide)]
    decide +kernel
  · have hkept := hnames.1 "a;b".toList (by decide) (by decide)
      fun _ => by decide +kernel
    rw [hkept.1]
    decide +kernel

/-- A comment that begins in a string ends in the next one that holds its end. -/
example : properties ":root\x7b--a:\"/*\";--b:1;--c:\"*/\";\x7d".toList =
    [("--a".toList, "\"\"".toList)] := by
  decide +kernel

end Stylesheet
end DesignTokens
