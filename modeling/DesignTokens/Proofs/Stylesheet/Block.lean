import DesignTokens.Proofs.Stylesheet.RoundTrip

/-!
# Blocks of statements

A stylesheet is written as a block: statements between semicolons, rules that hold
blocks themselves, to any depth, and comments between all of these. Every custom
property that is declared where a statement begins is read, at any depth. The closing
brace of a rule does not begin a statement, so that a declaration directly behind a
rule is passed over.
-/

namespace DesignTokens
namespace Stylesheet

open Source (commentText IsCommentBody)

/-!
## Written blocks
-/

inductive Statement where
  /-- the declaration of a custom property, with blanks before it and before its colon -/
  | custom (lead name gap value : Text)
  /-- an ordinary declaration, or any other text, which may be empty -/
  | other (text : Text)

namespace Statement

def written : Statement → Text
  | .custom lead name gap value => lead ++ ("--".toList ++ name ++ gap ++ ':' :: value)
  | .other text => text

def entries : Statement → List (Text × Text)
  | .custom _ name _ value => [("--".toList ++ name, Text.strip value)]
  | .other _ => []

end Statement

/-- Statements, rules and comments up to a closing brace or the end of a stylesheet. -/
inductive Block where
  /-- the last statement, without a semicolon -/
  | last (s : Statement)
  | statement (s : Statement) (rest : Block)
  | rule (selector : Text) (inner rest : Block)
  | comment (body : Text) (rest : Block)

namespace Block

def written : Block → Text
  | .last s => s.written
  | .statement s rest => s.written ++ ';' :: rest.written
  | .rule selector inner rest => selector ++ '\x7b' :: (inner.written ++ '\x7d' :: rest.written)
  | .comment body rest => commentText body ++ rest.written

def text : Block → Text
  | .last s => s.written
  | .statement s rest => s.written ++ ';' :: rest.text
  | .rule selector inner rest => selector ++ '\x7b' :: (inner.text ++ '\x7d' :: rest.text)
  | .comment _ rest => rest.text

def declared : Block → List (Text × Text)
  | .last s => s.entries
  | .statement s rest => s.entries ++ rest.declared
  | .rule _ inner rest => inner.declared ++ rest.declared
  | .comment _ rest => rest.declared

/-- What a block declares elsewhere than directly behind a rule. -/
def heard (behindRule : Bool) : Block → List (Text × Text)
  | .last s => if behindRule then [] else s.entries
  | .statement s rest => (if behindRule then [] else s.entries) ++ rest.heard false
  | .rule _ inner rest => inner.heard false ++ rest.heard true
  | .comment _ rest => rest.heard behindRule

def unheard (behindRule : Bool) : Block → List Statement
  | .last s => if behindRule then [s] else []
  | .statement s rest => (if behindRule then [s] else []) ++ rest.unheard false
  | .rule _ inner rest => inner.unheard false ++ rest.unheard true
  | .comment _ rest => rest.unheard behindRule

end Block

/-!
## What can be written
-/

/-- The declaration of a custom property with a closed value, in which no comment begins. -/
structure IsCustom (lead name gap value : Text) : Prop where
  lead : ∀ c ∈ lead, Text.isBlank c = true
  name_ne : name ≠ []
  name_chars : ∀ c ∈ name, isNameChar c = true
  gap : ∀ c ∈ gap, Text.isBlank c = true
  closed : IsClosed value
  unmarked : ¬ ['/', '*'] <:+: value

/-- A text in which neither a declaration nor a comment begins. -/
structure IsInert (t : Text) : Prop where
  silent : IsSilent none t
  unmarked : ¬ ['/', '*'] <:+: t

instance (lead name gap value : Text) : Decidable (IsCustom lead name gap value) :=
  -- only the characters of the declaration are tried, not all characters there are
  have : Decidable (∀ c ∈ lead, Text.isBlank c = true) := List.decidableBAll _ _
  have : Decidable (∀ c ∈ name, isNameChar c = true) := List.decidableBAll _ _
  have : Decidable (∀ c ∈ gap, Text.isBlank c = true) := List.decidableBAll _ _
  decidable_of_iff
    ((∀ c ∈ lead, Text.isBlank c = true) ∧ name ≠ [] ∧ (∀ c ∈ name, isNameChar c = true) ∧
      (∀ c ∈ gap, Text.isBlank c = true) ∧ IsClosed value ∧ ¬ ['/', '*'] <:+: value)
    ⟨fun ⟨h1, h2, h3, h4, h5, h6⟩ => ⟨h1, h2, h3, h4, h5, h6⟩,
      fun h => ⟨h.1, h.2, h.3, h.4, h.5, h.6⟩⟩

instance (t : Text) : Decidable (IsInert t) :=
  decidable_of_iff (IsSilent none t ∧ ¬ ['/', '*'] <:+: t)
    ⟨fun ⟨h1, h2⟩ => ⟨h1, h2⟩, fun h => ⟨h.1, h.2⟩⟩

def Statement.IsWritable : Statement → Prop
  | .custom lead name gap value => IsCustom lead name gap value
  | .other text => IsInert text

instance : (s : Statement) → Decidable s.IsWritable
  | .custom lead name gap value => inferInstanceAs (Decidable (IsCustom lead name gap value))
  | .other text => inferInstanceAs (Decidable (IsInert text))

/-- Whether all statements of a block are of a kind, its selectors inert and its comments closed. -/
def Block.Holds (P : Statement → Prop) : Block → Prop
  | .last s => P s
  | .statement s rest => P s ∧ rest.Holds P
  | .rule selector inner rest => IsInert selector ∧ inner.Holds P ∧ rest.Holds P
  | .comment body rest => IsCommentBody body ∧ rest.Holds P

instance Block.decidableHolds (P : Statement → Prop) [DecidablePred P] :
    (b : Block) → Decidable (b.Holds P)
  | .last s => inferInstanceAs (Decidable (P s))
  | .statement s rest =>
      have := rest.decidableHolds P
      inferInstanceAs (Decidable (P s ∧ rest.Holds P))
  | .rule selector inner rest =>
      have := inner.decidableHolds P
      have := rest.decidableHolds P
      inferInstanceAs (Decidable (IsInert selector ∧ inner.Holds P ∧ rest.Holds P))
  | .comment body rest =>
      have := rest.decidableHolds P
      inferInstanceAs (Decidable (IsCommentBody body ∧ rest.Holds P))

theorem Block.Holds.mono {P Q : Statement → Prop} {b : Block} (hPQ : ∀ s, P s → Q s)
    (h : b.Holds P) : b.Holds Q := by
  induction b with
  | last s => exact hPQ s h
  | statement s b ih => exact ⟨hPQ s h.1, ih h.2⟩
  | rule selector inner b ihInner ih => exact ⟨h.1, ihInner h.2.1, ih h.2.2⟩
  | comment body b ih => exact ⟨h.1, ih h.2⟩

def Block.IsWritable (b : Block) : Prop :=
  b.Holds Statement.IsWritable

instance (b : Block) : Decidable b.IsWritable :=
  inferInstanceAs (Decidable (b.Holds _))

def Statement.IsUnmarked (s : Statement) : Prop :=
  ¬ ['/', '*'] <:+: s.written

/-- Nothing is declared in a statement, apart from what the statement declares itself. -/
def Statement.IsSilent : Statement → Prop
  | .custom lead name gap value =>
      Stylesheet.IsSilent (some '\x7d') (Statement.custom lead name gap value).written
  | .other t => Stylesheet.IsSilent none t

instance : (s : Statement) → Decidable s.IsSilent
  | .custom _ _ _ _ => inferInstanceAs (Decidable (Stylesheet.IsSilent _ _))
  | .other _ => inferInstanceAs (Decidable (Stylesheet.IsSilent _ _))

theorem Statement.IsSilent.behindRule {s : Statement} (h : s.IsSilent) :
    Stylesheet.IsSilent (some '\x7d') s.written := by
  cases s with
  | custom lead name gap value => exact h
  | other t => exact Stylesheet.IsSilent.of_begins (some '\x7d') rfl h

/-!
## Comments of a block
-/

theorem not_infix_append {c : Char} {mark t u : Text} (ht : c ∉ t) (hu : ¬ c :: mark <:+: u) :
    ¬ c :: mark <:+: t ++ u := by
  induction t with
  | nil => exact hu
  | cons d t ih =>
      rw [List.mem_cons, not_or] at ht
      rw [List.cons_append, List.infix_cons_iff, not_or]
      refine ⟨fun hprefix => ht.1 ?_, ih ht.2⟩
      exact (List.cons_prefix_cons.mp hprefix).1

theorem not_slash_of_isBlank {t : Text} (h : ∀ c ∈ t, Text.isBlank c = true) : '/' ∉ t := by
  intro hmem
  have hslash := h '/' hmem
  revert hslash
  decide

theorem Statement.IsWritable.isUnmarked {s : Statement} (h : s.IsWritable) : s.IsUnmarked := by
  cases s with
  | custom lead name gap value =>
      have hcustom : IsCustom lead name gap value := h
      have hhead : '/' ∉ lead ++ ("--".toList ++ name ++ gap ++ [':']) := by
        have hlead := not_slash_of_isBlank hcustom.lead
        have hname := no_slash_of_name hcustom.name_chars
        have hgap := not_slash_of_isBlank hcustom.gap
        simp [hlead, hname, hgap]
      have htext : (Statement.custom lead name gap value).written =
          (lead ++ ("--".toList ++ name ++ gap ++ [':'])) ++ value := by
        simp [Statement.written]
      rw [Statement.IsUnmarked, htext]
      exact not_infix_append hhead hcustom.unmarked
  | other t =>
      have hinert : IsInert t := h
      exact hinert.unmarked

theorem withoutComments_block {b : Block} {rest : Text} (h : b.Holds Statement.IsUnmarked)
    (hrest : rest.head? ≠ some '*') :
    withoutComments (b.written ++ rest) = b.text ++ withoutComments rest := by
  have hcons : ∀ {c : Char} (u : Text), c ≠ '/' →
      withoutComments (c :: u) = c :: withoutComments u :=
    fun _ hc => withoutComments_cons fun hmark => hc hmark.1
  induction b generalizing rest with
  | last s => exact withoutComments_append h fun _ => hrest
  | statement s b ih =>
      have hb := ih h.2 hrest
      rw [Block.written, List.append_assoc, withoutComments_append h.1 fun _ => by simp,
        List.cons_append, hcons _ (by decide), hb, Block.text, List.append_assoc,
        List.cons_append]
  | rule selector inner b ihInner ih =>
      have hb := ih h.2.2 hrest
      have hinner : withoutComments (inner.written ++ '\x7d' :: (b.written ++ rest)) =
          inner.text ++ '\x7d' :: (b.text ++ withoutComments rest) := by
        rw [ihInner h.2.1 (by simp), hcons _ (by decide), hb]
      have hselector : ∀ u : Text, withoutComments (selector ++ '\x7b' :: u) =
          selector ++ '\x7b' :: withoutComments u := by
        intro u
        rw [withoutComments_append h.1.unmarked fun _ => by simp, hcons _ (by decide)]
      simp only [Block.written, Block.text, List.append_assoc, List.cons_append]
      rw [hselector, hinner]
  | comment body b ih =>
      rw [Block.written, List.append_assoc, commentText, withoutComments_comment _ h.1]
      exact ih h.2 hrest

theorem withoutComments_written_block {b : Block} (h : b.Holds Statement.IsUnmarked) :
    withoutComments b.written = b.text := by
  have hblock := @withoutComments_block b [] h (by simp)
  rwa [withoutComments, List.append_nil, List.append_nil] at hblock

/-!
## Declarations of a block

By induction over the block. Of the text before a statement the search knows the last
character that is not blank, and behind a closing brace it passes over the statement.
-/

def IsTail (tail : Text) : Prop :=
  ∀ c ∈ tail.head?, c = ';' ∨ c = '\x7d'

theorem IsTail.endsHead {tail : Text} (h : IsTail tail) :
    ∀ c ∈ tail.head?, endsHead c = true := by
  intro c hc
  rcases h c hc with rfl | rfl <;> decide

theorem IsTail.ends {tail : Text} (h : IsTail tail) :
    ∀ c ∈ tail.head?, ValueState.ends .top c = true := by
  intro c hc
  rcases h c hc with rfl | rfl <;> decide

theorem declarationsFrom_blanks {last : Option Char} {t : Text} (rest : Text)
    (h : ∀ c ∈ t, Text.isBlank c = true) :
    declarationsFrom last (t ++ rest) = declarationsFrom last rest := by
  induction t with
  | nil => rfl
  | cons c t ih =>
      rw [List.forall_mem_cons] at h
      have hne : c ≠ '-' := by
        rintro rfl
        exact absurd h.1 (by decide)
      rw [List.cons_append, declarationsFrom_of_none fun _ => declarationHead?_of_ne _ hne, h.1,
        if_pos rfl]
      exact ih h.2

/-- The last character before a statement, apart from blanks. -/
def Follows (behindRule : Bool) (last : Option Char) : Prop :=
  if behindRule then last = some '\x7d' else beginsStatement last = true

/-- A statement is read unless it stands directly behind a rule. -/
theorem declarationsFrom_statement {s : Statement} {behindRule : Bool} {last : Option Char}
    {tail : Text} (h : s.IsWritable)
    (hsilent : ∀ unheard ∈ if behindRule then [s] else [], unheard.IsSilent)
    (hlast : Follows behindRule last) (htail : IsTail tail) :
    declarationsFrom last (s.written ++ tail) =
      (if behindRule then [] else s.entries) ++ declarationsFrom tail.head? tail.tail := by
  cases behindRule with
  | true =>
      have hs : s.IsSilent := hsilent s (List.mem_singleton_self s)
      have hbrace : last = some '\x7d' := hlast
      rw [hbrace]
      exact declarationsFrom_silent hs.behindRule htail.endsHead
  | false =>
      have hbegins : beginsStatement last = true := hlast
      cases s with
      | custom lead name gap value =>
          have hcustom : IsCustom lead name gap value := h
          have htext : (Statement.custom lead name gap value).written ++ tail =
              lead ++ ("--".toList ++ name ++ gap ++ ':' :: (value ++ tail)) := by
            simp [Statement.written]
          rw [htext, declarationsFrom_blanks _ hcustom.lead,
            declarationsFrom_written hbegins hcustom.name_ne hcustom.name_chars hcustom.gap
              hcustom.closed htail.ends]
          rfl
      | other t =>
          have hinert : IsInert t := h
          exact declarationsFrom_silent (hinert.silent.of_begins last rfl) htail.endsHead

theorem declarationsFrom_selector {selector : Text} (last : Option Char) (t : Text)
    (h : IsInert selector) :
    declarationsFrom last (selector ++ '\x7b' :: t) = declarationsFrom (some '\x7b') t := by
  have hbrace : ∀ c ∈ ('\x7b' :: t).head?, endsHead c = true := by
    intro c hc
    cases hc
    decide
  exact declarationsFrom_silent (h.silent.of_begins last rfl) hbrace

/-- What is read of a block is what it declares elsewhere than directly behind a rule. -/
theorem declarationsFrom_block {b : Block} {behindRule : Bool} {last : Option Char} {tail : Text}
    (h : b.IsWritable) (hsilent : ∀ s ∈ b.unheard behindRule, s.IsSilent)
    (hlast : Follows behindRule last) (htail : IsTail tail) :
    declarationsFrom last (b.text ++ tail) =
      b.heard behindRule ++ declarationsFrom tail.head? tail.tail := by
  -- the scan keeps nothing of the text before a statement but its last character
  induction b generalizing behindRule last tail with
  | last s => exact declarationsFrom_statement h hsilent hlast htail
  | statement s b ih =>
      rw [Block.unheard, List.forall_mem_append] at hsilent
      have hbehind : Follows false (some ';') := rfl
      have hsemi : IsTail (';' :: (b.text ++ tail)) := by simp [IsTail]
      rw [Block.text, List.append_assoc, List.cons_append,
        declarationsFrom_statement h.1 hsilent.1 hlast hsemi, List.head?_cons, List.tail_cons,
        ih h.2 hsilent.2 hbehind htail, Block.heard, List.append_assoc]
  | rule selector inner b ihInner ih =>
      rw [Block.unheard, List.forall_mem_append] at hsilent
      have hinside : Follows false (some '\x7b') := rfl
      have hbehind : Follows true (some '\x7d') := rfl
      have hclose : IsTail ('\x7d' :: (b.text ++ tail)) := by simp [IsTail]
      simp only [Block.text, Block.heard, List.append_assoc, List.cons_append]
      rw [declarationsFrom_selector last _ h.1, ihInner h.2.1 hsilent.1 hinside hclose,
        List.head?_cons, List.tail_cons, ih h.2.2 hsilent.2 hbehind htail]
  | comment body b ih => exact ih h.2 hsilent hlast htail

theorem declarations_block {b : Block} (h : b.IsWritable)
    (hsilent : ∀ s ∈ b.unheard false, s.IsSilent) : declarations b.written = b.heard false := by
  have htext := withoutComments_written_block (h.mono fun _ => Statement.IsWritable.isUnmarked)
  have hread := @declarationsFrom_block b false none [] h hsilent rfl nofun
  rw [List.append_nil] at hread
  rw [declarations, htext, hread]
  simp [declarationsFrom]

end Stylesheet
end DesignTokens
