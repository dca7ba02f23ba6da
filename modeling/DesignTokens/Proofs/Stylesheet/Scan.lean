import DesignTokens.Proofs.Source.Comment
import DesignTokens.Proofs.Text
import DesignTokens.Stylesheet.Declarations

/-!
# Reading stylesheets part by part

What a stylesheet declares is told by its parts: a comment leaves no trace, a
text without a comment mark is kept, and a declaration with a closed value is read
as it stands. A part in which no declaration begins is passed over as far as the
next character that cannot belong to the head of a declaration.
-/

namespace DesignTokens

namespace Stylesheet

/-!
## Comments
-/

theorem withoutComments_cons {c : Char} {t : Text} (h : ¬ (c = '/' ∧ t.head? = some '*')) :
    withoutComments (c :: t) = c :: withoutComments t := by
  rw [withoutComments, if_neg h]

/-- A text without comment marks is kept, unless it makes a comment mark with what follows it. -/
theorem withoutComments_append {t rest : Text} (h : ¬ ['/', '*'] <:+: t)
    (hrest : t.getLast? = some '/' → rest.head? ≠ some '*') :
    withoutComments (t ++ rest) = t ++ withoutComments rest := by
  induction t with
  | nil => rfl
  | cons c t ih =>
      rw [List.infix_cons_iff, not_or] at h
      have hmark : ¬ (c = '/' ∧ (t ++ rest).head? = some '*') := by
        rintro ⟨rfl, hhead⟩
        cases t with
        | nil => exact hrest rfl hhead
        | cons d t =>
            have hd : d = '*' := by simpa using hhead
            apply h.1
            rw [hd]
            exact ⟨t, rfl⟩
      have hlast : t.getLast? = some '/' → rest.head? ≠ some '*' := by
        intro ht
        apply hrest
        cases t with
        | nil => simp at ht
        | cons d t => rw [List.getLast?_cons_cons, ht]
      rw [List.cons_append, withoutComments_cons hmark, ih h.2 hlast, List.cons_append]

theorem withoutComments_comment {body : Text} (rest : Text) (h : ¬ ['*', '/'] <:+: body) :
    withoutComments ("/*".toList ++ body ++ "*/".toList ++ rest) = withoutComments rest := by
  have htext : "/*".toList ++ body ++ "*/".toList ++ rest =
      '/' :: '*' :: (body ++ '*' :: '/' :: rest) := by simp
  have hend := Scan.afterBlock?_append 0 rest h
  rw [htext, withoutComments, if_pos ⟨rfl, rfl⟩]
  split
  · rename_i stop rest' hafter
    rw [List.tail_cons, hend] at hafter
    have hrest : rest' = rest := by
      simp only [Option.some.injEq, Prod.mk.injEq] at hafter
      exact hafter.2.symm
    exact congrArg withoutComments hrest
  · rename_i hafter
    rw [List.tail_cons, hend] at hafter
    simp at hafter

/-!
## Values
-/

/-- The scan of a value goes through all of it and ends outside quotes and brackets. -/
def IsClosed (value : Text) : Prop :=
  splitValue .top value = (value, []) ∧ value.foldl ValueState.step .top = .top

instance (value : Text) : Decidable (IsClosed value) :=
  inferInstanceAs (Decidable (_ ∧ _))

theorem splitValue_of_ends {s : ValueState} {value tail : Text}
    (hvalue : splitValue s value = (value, []))
    (htail : ∀ c ∈ tail.head?, (value.foldl ValueState.step s).ends c = true) :
    splitValue s (value ++ tail) = (value, tail) := by
  induction value generalizing s with
  | nil =>
      cases tail with
      | nil => rfl
      | cons c tail =>
          have hends : s.ends c = true := htail c rfl
          rw [List.nil_append, splitValue, if_pos hends]
  | cons d value ih =>
      rw [splitValue] at hvalue
      split at hvalue
      · simp at hvalue
      · rename_i hd
        simp only [Prod.mk.injEq, List.cons.injEq, true_and] at hvalue
        have hrest := ih (Prod.ext hvalue.1 hvalue.2) htail
        rw [List.cons_append, splitValue, if_neg hd, hrest]

/-!
## Heads of declarations
-/

theorem declarationHead?_of_ne {c : Char} (t : Text) (h : c ≠ '-') :
    declarationHead? (c :: t) = none := by
  unfold declarationHead?
  split
  · rename_i heq
    exact absurd (List.cons.inj heq).1 h
  · rfl

theorem isBlank_of_isNameChar {c : Char} (h : isNameChar c = true) : Text.isBlank c = false := by
  apply Text.isBlank_of_graphic
  simp only [isNameChar, Bool.or_eq_true, decide_eq_true_eq] at h
  rcases h with (h | rfl) | rfl
  · exact Text.graphic_of_isAlphanum h
  · decide
  · decide

theorem declarationHead?_written {name gap : Text} (value : Text) (hne : name ≠ [])
    (hname : ∀ c ∈ name, isNameChar c = true) (hgap : ∀ c ∈ gap, Text.isBlank c = true) :
    declarationHead? ("--".toList ++ name ++ gap ++ ':' :: value) =
      some ("--".toList ++ name, value) := by
  have hstop : ∀ c ∈ (gap ++ ':' :: value).head?, isNameChar c = false := by
    intro c hc
    cases gap with
    | nil =>
        cases hc
        decide
    | cons g gap =>
        cases hc
        rw [Bool.eq_false_iff]
        intro hc
        have hblank := hgap c List.mem_cons_self
        rw [isBlank_of_isNameChar hc] at hblank
        cases hblank
  have hcolon : ∀ c ∈ (':' :: value).head?, Text.isBlank c = false := by
    intro c hc
    cases hc
    decide
  have htext : "--".toList ++ name ++ gap ++ ':' :: value =
      '-' :: '-' :: (name ++ (gap ++ ':' :: value)) := by simp
  rw [htext]
  simp only [declarationHead?, Text.takeWhile_append_of_stop hname hstop,
    Text.dropWhile_append_of_stop hname hstop, Text.dropWhile_append_of_stop hgap hcolon, hne,
    if_false]
  rfl

theorem exists_of_declarationHead? {t name value : Text}
    (h : declarationHead? t = some (name, value)) :
    ∃ word gap : Text, name = "--".toList ++ word ∧ word ≠ [] ∧
      (∀ c ∈ word, isNameChar c = true) ∧ (∀ c ∈ gap, Text.isBlank c = true) ∧
        t = "--".toList ++ word ++ gap ++ ':' :: value := by
  unfold declarationHead? at h
  split at h
  · rename_i r
    split at h
    · rename_i v hv
      split at h
      · cases h
      · rename_i hword
        cases h
        have hrest : (r.dropWhile isNameChar).takeWhile Text.isBlank ++ ':' :: value =
            r.dropWhile isNameChar := by
          rw [← hv, List.takeWhile_append_dropWhile]
        refine ⟨r.takeWhile isNameChar, (r.dropWhile isNameChar).takeWhile Text.isBlank, rfl,
          hword, fun c hc => List.mem_takeWhile_imp hc, fun c hc => List.mem_takeWhile_imp hc, ?_⟩
        rw [List.append_assoc, hrest, List.append_assoc, List.takeWhile_append_dropWhile]
        rfl
    · cases h
  · cases h

theorem declarationHead?_append {t name value : Text} (u : Text)
    (h : declarationHead? t = some (name, value)) :
    declarationHead? (t ++ u) = some (name, value ++ u) := by
  rcases exists_of_declarationHead? h with ⟨word, gap, rfl, hne, hword, hgap, rfl⟩
  rw [List.append_assoc, List.cons_append]
  exact declarationHead?_written (value ++ u) hne hword hgap

def endsHead (c : Char) : Bool :=
  !isNameChar c && !Text.isBlank c && c ≠ ':'

theorem declarationHead?_stop {t : Text} {c : Char} (u : Text) (hc : endsHead c = true)
    (h : declarationHead? t = none) : declarationHead? (t ++ c :: u) = none := by
  rw [Option.eq_none_iff_forall_ne_some]
  rintro ⟨name, value⟩ hhead
  simp only [endsHead, Bool.and_eq_true, Bool.not_eq_true', decide_eq_true_eq] at hc
  rcases hc with ⟨⟨hname, hblank⟩, hcolon⟩
  rcases exists_of_declarationHead? hhead with ⟨word, gap, rfl, hne, hword, hgap, htext⟩
  rcases List.append_eq_append_iff.mp htext with ⟨v, hv, hu⟩ | ⟨v, rfl, hu⟩
  · -- the character would stand before the colon
    cases v with
    | nil => exact hcolon (List.cons.inj hu).1
    | cons d v =>
        rw [← (List.cons.inj hu).1] at hv
        have hmem : c ∈ "--".toList ++ word ++ gap := by
          rw [hv]
          exact List.mem_append_right t List.mem_cons_self
        rcases List.mem_append.mp hmem with hmem | hmem
        · have hword' : ∀ d ∈ "--".toList ++ word, isNameChar d = true := by
            intro d hd
            rcases List.mem_append.mp hd with hd | hd
            · exact List.all_eq_true.mp (by decide : "--".toList.all isNameChar = true) d hd
            · exact hword d hd
          rw [hword' c hmem] at hname
          cases hname
        · rw [hgap c hmem] at hblank
          cases hblank
  · cases v with
    | nil => exact hcolon (List.cons.inj hu).1.symm
    | cons d v =>
        rw [← (List.cons.inj hu).1, declarationHead?_written v hne hword hgap] at h
        cases h

/-!
## The search for declarations
-/

theorem declarationsFrom_of_none {last : Option Char} {c : Char} {t : Text}
    (h : beginsStatement last = true → declarationHead? (c :: t) = none) :
    declarationsFrom last (c :: t) =
      declarationsFrom (if Text.isBlank c then last else some c) t := by
  have hnone : (if beginsStatement last then declarationHead? (c :: t) else none) = none := by
    split
    · rename_i hlast
      exact h hlast
    · rfl
  rw [declarationsFrom]
  split
  · rename_i hsome
    rw [hnone] at hsome
    cases hsome
  · rfl

theorem declarationsFrom_of_some {last : Option Char} {t name rest : Text}
    (hlast : beginsStatement last = true) (h : declarationHead? t = some (name, rest)) :
    declarationsFrom last t =
      (name, Text.strip (splitValue .top rest).1) ::
        declarationsFrom (splitValue .top rest).2.head? (splitValue .top rest).2.tail := by
  cases t with
  | nil => cases h
  | cons c t =>
      rw [declarationsFrom]
      split
      · rename_i name' rest' hsome
        rw [if_pos hlast, h] at hsome
        cases hsome
        rfl
      · rename_i hnone
        rw [if_pos hlast, h] at hnone
        cases hnone

/-- A declaration with a closed value is read where a statement begins. -/
theorem declarationsFrom_written {last : Option Char} {name gap value tail : Text}
    (hlast : beginsStatement last = true) (hne : name ≠ [])
    (hname : ∀ c ∈ name, isNameChar c = true) (hgap : ∀ c ∈ gap, Text.isBlank c = true)
    (hvalue : IsClosed value) (htail : ∀ c ∈ tail.head?, ValueState.ends .top c = true) :
    declarationsFrom last ("--".toList ++ name ++ gap ++ ':' :: (value ++ tail)) =
      ("--".toList ++ name, Text.strip value) :: declarationsFrom tail.head? tail.tail := by
  have hsplit : splitValue .top (value ++ tail) = (value, tail) := by
    apply splitValue_of_ends hvalue.1
    rw [hvalue.2]
    exact htail
  rw [declarationsFrom_of_some hlast (declarationHead?_written _ hne hname hgap), hsplit]

/-- The last character of a text that is not blank, or the one before the text. -/
def lastSolid (before : Option Char) (t : Text) : Option Char :=
  t.foldl (fun last c => if Text.isBlank c then last else some c) before

theorem declarationsFrom_append {t : Text} (last : Option Char) (rest : Text) (h : '-' ∉ t) :
    declarationsFrom last (t ++ rest) = declarationsFrom (lastSolid last t) rest := by
  induction t generalizing last with
  | nil => rfl
  | cons c t ih =>
      rw [List.mem_cons, not_or] at h
      rw [List.cons_append,
        declarationsFrom_of_none fun _ => declarationHead?_of_ne _ (Ne.symm h.1)]
      exact ih _ h.2

/-!
## Texts that declare nothing
-/

/-- Nothing is declared in a text, where `last` is the last character before it. -/
def IsSilent (last : Option Char) (t : Text) : Prop :=
  declarationsFrom last t = []

instance (last : Option Char) (t : Text) : Decidable (IsSilent last t) :=
  inferInstanceAs (Decidable (_ = _))

theorem isSilent_nil (last : Option Char) : IsSilent last [] := by
  rw [IsSilent, declarationsFrom]

theorem isSilent_cons_iff {last : Option Char} {c : Char} {t : Text} :
    IsSilent last (c :: t) ↔
      (beginsStatement last = true → declarationHead? (c :: t) = none) ∧
        IsSilent (if Text.isBlank c then last else some c) t := by
  unfold IsSilent
  constructor
  · intro h
    have hnone : beginsStatement last = true → declarationHead? (c :: t) = none := by
      intro hlast
      cases hhead : declarationHead? (c :: t) with
      | none => rfl
      | some r =>
          rw [declarationsFrom_of_some hlast hhead] at h
          cases h
    rw [declarationsFrom_of_none hnone] at h
    exact ⟨hnone, h⟩
  · rintro ⟨hnone, h⟩
    rw [declarationsFrom_of_none hnone, h]

/-- What declares nothing where a statement begins declares nothing anywhere. -/
theorem IsSilent.of_begins {last : Option Char} {t : Text} (before : Option Char)
    (hlast : beginsStatement last = true) (h : IsSilent last t) : IsSilent before t := by
  induction t generalizing last with
  | nil => exact isSilent_nil before
  | cons c t ih =>
      rw [isSilent_cons_iff] at h ⊢
      refine ⟨fun _ => h.1 hlast, ?_⟩
      cases hblank : Text.isBlank c with
      | true =>
          rw [hblank, if_pos rfl] at h
          exact ih hlast h.2
      | false =>
          rw [hblank] at h
          exact h.2

theorem IsSilent.left {last : Option Char} {t u : Text} (h : IsSilent last (t ++ u)) :
    IsSilent last t := by
  induction t generalizing last with
  | nil => exact isSilent_nil last
  | cons c t ih =>
      rw [List.cons_append, isSilent_cons_iff] at h
      rw [isSilent_cons_iff]
      refine ⟨fun hlast => ?_, ih h.2⟩
      cases hhead : declarationHead? (c :: t) with
      | none => rfl
      | some r =>
          have happend := declarationHead?_append u hhead
          rw [List.cons_append, h.1 hlast] at happend
          cases happend

/-- The search goes past a text that declares nothing, up to a character that ends heads. -/
theorem declarationsFrom_silent {last : Option Char} {t tail : Text} (h : IsSilent last t)
    (htail : ∀ c ∈ tail.head?, endsHead c = true) :
    declarationsFrom last (t ++ tail) = declarationsFrom tail.head? tail.tail := by
  cases tail with
  | nil =>
      rw [List.append_nil, h]
      exact (isSilent_nil none).symm
  | cons e tail =>
      have he : endsHead e = true := htail e rfl
      induction t generalizing last with
      | nil =>
          have hblank : Text.isBlank e = false := by
            simp only [endsHead, Bool.and_eq_true, Bool.not_eq_true'] at he
            exact he.1.2
          have hhead := declarationHead?_stop (t := []) tail he rfl
          rw [List.nil_append, declarationsFrom_of_none fun _ => hhead, hblank]
          rfl
      | cons c t ih =>
          rw [isSilent_cons_iff] at h
          have hhead : beginsStatement last = true →
              declarationHead? (c :: (t ++ e :: tail)) = none :=
            fun hlast => declarationHead?_stop tail he (h.1 hlast)
          rw [List.cons_append, declarationsFrom_of_none hhead]
          exact ih h.2

end Stylesheet
end DesignTokens
