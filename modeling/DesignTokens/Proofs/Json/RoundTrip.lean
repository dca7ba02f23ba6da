import DesignTokens.Json.Reader
import DesignTokens.Json.Writer
import DesignTokens.Proofs.Color.Hexadecimal

/-!
# Written documents are read back

A document is read from its written form as the document that it is, whatever characters
its texts have, if the literals of its numbers are literals. All written characters are
those of ASCII.
-/

namespace DesignTokens
namespace Json

/-!
## Texts

A text is read back character by character. Only a character beyond U+FFFF is written as two
units, and no other character is written as one of these.
-/

theorem string?_plain {c : Char} (rest : Text) (hquote : c ≠ '"') (hslash : c ≠ '\\') :
    string? (c :: rest) = (string? rest).map fun s => (c :: s.1, s.2) := by
  rw [string?.eq_def]
  split
  · rename_i heq
    cases heq
  · rename_i heq
    exact absurd (List.cons.inj heq).1 hquote
  · rename_i heq
    exact absurd (List.cons.inj heq).1 hslash
  · rename_i heq
    cases heq
    rfl

theorem string?_escape {t rest : Text} {c : Char} (h : escape? t = some (c, rest)) :
    string? ('\\' :: t) = (string? rest).map fun s => (c :: s.1, s.2) := by
  rw [string?.eq_def]
  simp only
  split
  · rename_i hnone
    rw [h] at hnone
    cases hnone
  · rename_i hsome
    rw [h] at hsome
    cases hsome
    rfl

theorem unit?_hexPadded {n : Nat} (h : n < 16 ^ 4) (rest : Text) :
    unit? (Text.hexPadded 4 n ++ rest) = some (n, rest) := by
  have hnumber := Text.hexNumber?_hexPadded h
  have hlength := Text.length_hexPadded 4 n
  generalize Text.hexPadded 4 n = ds at hnumber hlength ⊢
  match ds, hlength with
  | [a, b, c, d], _ =>
      change (Text.hexNumber? [a, b, c, d]).map _ = _
      rw [hnumber]
      rfl

theorem toNat_valid (c : Char) :
    c.toNat < 0xD800 ∨ 0xDFFF < c.toNat ∧ c.toNat < 0x110000 :=
  c.valid

theorem isLeading_toNat (c : Char) : isLeading c.toNat = false ∧ isTrailing c.toNat = false := by
  have hvalid := toNat_valid c
  simp only [isLeading, isTrailing, Bool.and_eq_false_iff, decide_eq_false_iff_not]
  omega

theorem ofUnit_toNat (c : Char) : ofUnit c.toNat = c := by
  rcases isLeading_toNat c with ⟨hleading, htrailing⟩
  rw [ofUnit, hleading, htrailing, Bool.or_self, if_neg (by decide), Char.ofNat_toNat]

theorem escape?_unit {c : Char} (h : c.toNat < 0x10000) (rest : Text) :
    escape? ('u' :: (Text.hexPadded 4 c.toNat ++ rest)) = some (c, rest) := by
  unfold escape?
  simp only [unit?_hexPadded h, (isLeading_toNat c).1, ofUnit_toNat, Bool.false_eq_true, if_false]

section Pair

variable {c : Char} {leading trailing : Nat} (hleading : isLeading leading = true)
  (htrailing : isTrailing trailing = true)
  (hvalue : 0x10000 + (leading - 0xD800) * 0x400 + (trailing - 0xDC00) = c.toNat) (rest : Text)

include htrailing hvalue

theorem partner?_unit : partner? leading (unitEscape trailing ++ rest) = some (c, rest) := by
  have hbound : trailing < 16 ^ 4 := by
    simp only [isTrailing, Bool.and_eq_true, decide_eq_true_eq] at htrailing
    omega
  unfold unitEscape partner?
  simp only [List.cons_append, unit?_hexPadded hbound, htrailing, if_true, hvalue,
    Char.ofNat_toNat]

include hleading

theorem escape?_pair :
    escape? ('u' :: (Text.hexPadded 4 leading ++ (unitEscape trailing ++ rest))) =
      some (c, rest) := by
  have hbound : leading < 16 ^ 4 := by
    simp only [isLeading, Bool.and_eq_true, decide_eq_true_eq] at hleading
    omega
  unfold escape?
  simp only [unit?_hexPadded hbound, hleading, if_true, partner?_unit htrailing hvalue]

end Pair

theorem exists_pair {c : Char} (h : 0x10000 ≤ c.toNat) :
    isLeading (0xD800 + (c.toNat - 0x10000) / 0x400) = true ∧
      isTrailing (0xDC00 + (c.toNat - 0x10000) % 0x400) = true := by
  have hvalid := toNat_valid c
  simp only [isLeading, isTrailing, Bool.and_eq_true, decide_eq_true_eq]
  omega

theorem string?_escaped (c : Char) (rest : Text) :
    string? (escaped c ++ rest) = (string? rest).map fun s => (c :: s.1, s.2) := by
  have hc : ∀ n : Nat, c.toNat = n → c = Char.ofNat n := by
    rintro _ rfl
    exact (Char.ofNat_toNat c).symm
  unfold escaped
  split
  · rename_i hself
    rcases hself with rfl | rfl
    · exact string?_escape rfl
    · exact string?_escape rfl
  split
  · rename_i hline
    rw [hline]
    exact string?_escape rfl
  split
  · rename_i hreturn
    rw [hreturn]
    exact string?_escape rfl
  split
  · rename_i htab
    rw [htab]
    exact string?_escape rfl
  split
  · rename_i hfeed
    rw [hc _ hfeed]
    exact string?_escape rfl
  split
  · rename_i hback
    rw [hc _ hback]
    exact string?_escape rfl
  split
  · rename_i hself _ _ _ _ _ _
    rw [not_or] at hself
    exact string?_plain rest hself.1 hself.2
  split
  · rename_i hunit
    exact string?_escape (escape?_unit hunit rest)
  · rename_i hpair
    simp only
    rw [List.append_assoc]
    rcases exists_pair (not_lt.mp hpair) with ⟨hleading, htrailing⟩
    exact string?_escape (escape?_pair hleading htrailing (by omega) rest)

theorem string?_written (t rest : Text) :
    string? (t.flatMap escaped ++ '"' :: rest) = some (t, rest) := by
  induction t with
  | nil => rw [List.flatMap_nil, List.nil_append, string?]
  | cons c t ih =>
      rw [List.flatMap_cons, List.append_assoc, string?_escaped, ih]
      rfl

theorem quoted_append (name rest : Text) :
    quoted name ++ rest = '"' :: (name.flatMap escaped ++ '"' :: rest) := by
  rw [quoted, List.append_assoc, List.cons_append]
  rfl

/-!
## Spaces and literals
-/

theorem skipSpace_cons {c : Char} {t : Text} (h : isSpace c = false) :
    skipSpace (c :: t) = c :: t :=
  List.dropWhile_cons_of_neg (by rw [h]; decide)

theorem skipSpace_newline (depth : Nat) (t : Text) :
    skipSpace (newline depth ++ t) = skipSpace t := by
  have hspaces : ∀ c ∈ newline depth, isSpace c = true := by
    refine List.forall_mem_cons.mpr ⟨by decide, ?_⟩
    intro c hc
    rw [List.eq_of_mem_replicate hc]
    decide
  exact List.dropWhile_append_of_pos hspaces

structure IsLiteral (t : Text) : Prop where
  numeric : ∀ c ∈ t, isNumeric c = true
  bare : bare? t = some (.number t)

def EndsLiteral (t : Text) : Prop :=
  ∀ c ∈ t.head?, isNumeric c = false

theorem endsLiteral_cons {c : Char} (t : Text) (h : isNumeric c = false) :
    EndsLiteral (c :: t) := by
  intro d hd
  rw [List.head?_cons, Option.mem_some_iff] at hd
  rwa [← hd]

/-- A word in front of what is no literal is read by itself. -/
theorem value?_bare {fuel : Nat} {t w rest : Text} {j : Json}
    (ht : skipSpace t = w ++ rest) (hw : ∀ c ∈ w, isNumeric c = true) (hj : bare? w = some j)
    (hrest : EndsLiteral rest) : value? (fuel + 1) t = some (j, rest) := by
  have hne : w ≠ [] := by
    rintro rfl
    cases hj
  have htake := Text.takeWhile_append_of_stop hw hrest
  have hdrop := Text.dropWhile_append_of_stop hw hrest
  have hhead : ∀ c r, w ++ rest = c :: r → isNumeric c = true := by
    intro c r heq
    cases w with
    | nil => exact absurd rfl hne
    | cons d w =>
        cases heq
        exact hw c List.mem_cons_self
  rw [value?, ht]
  split
  · rename_i heq
    exact absurd (hhead _ _ heq) (by decide)
  · rename_i heq
    exact absurd (hhead _ _ heq) (by decide)
  · rename_i heq
    exact absurd (hhead _ _ heq) (by decide)
  · rw [htake, hdrop, hj]
    rfl

/-!
## Values

Reading takes one unit of fuel for each level of a value, item or field. Every step takes at
least one character off the text, so its length is fuel enough. Items and fields are read by
induction over their list, values by induction over the document.
-/

inductive IsLegible : Json → Prop where
  | null : IsLegible .null
  | bool (b : Bool) : IsLegible (.bool b)
  | number {literal : Text} (h : IsLiteral literal) : IsLegible (.number literal)
  | text (t : Text) : IsLegible (.text t)
  | array {items : List Json} (h : ∀ j ∈ items, IsLegible j) : IsLegible (.array items)
  | object {fields : List (Text × Json)} (h : ∀ f ∈ fields, IsLegible f.2) :
      IsLegible (.object fields)

theorem isSpace_of_isNumeric {c : Char} (h : isNumeric c = true) :
    isSpace c = false ∧ c ≠ ']' := by
  constructor
  · by_contra hspace
    rw [Bool.not_eq_false] at hspace
    simp only [isSpace, Bool.or_eq_true, decide_eq_true_eq] at hspace
    rcases hspace with ((rfl | rfl) | rfl) | rfl <;> exact absurd h (by decide)
  · rintro rfl
    exact absurd h (by decide)

/-- A written document begins neither with a space nor like the end of an array. -/
theorem exists_head_written {j : Json} (h : IsLegible j) (depth : Nat) :
    ∃ c r, written depth j = c :: r ∧ isSpace c = false ∧ c ≠ ']' := by
  cases h with
  | null => exact ⟨_, _, rfl, by decide⟩
  | bool b => cases b <;> exact ⟨_, _, rfl, by decide⟩
  | @number literal h =>
      cases literal with
      | nil => cases h.bare
      | cons c r => exact ⟨c, r, rfl, isSpace_of_isNumeric (h.numeric c List.mem_cons_self)⟩
  | text t => exact ⟨_, _, rfl, by decide⟩
  | @array items h => cases items <;> exact ⟨_, _, rfl, by decide⟩
  | @object fields h => cases fields <;> exact ⟨_, _, rfl, by decide⟩

theorem skipSpace_written {j : Json} (h : IsLegible j) (depth : Nat) (rest : Text) :
    skipSpace (written depth j ++ rest) = written depth j ++ rest := by
  rcases exists_head_written h depth with ⟨c, r, hwritten, hspace, _⟩
  rw [hwritten, List.cons_append, skipSpace_cons hspace]

theorem skipSpace_newline_written {j : Json} (h : IsLegible j) (depth : Nat) (rest : Text) :
    skipSpace (newline depth ++ (written depth j ++ rest)) = written depth j ++ rest := by
  rw [skipSpace_newline, skipSpace_written h]

theorem skipSpace_quoted (name rest : Text) :
    skipSpace (quoted name ++ rest) = quoted name ++ rest := by
  rw [quoted_append, skipSpace_cons (by decide)]

/-- Whether a document is read back in front of any text that ends literals. -/
def IsReadBack (j : Json) : Prop :=
  ∀ depth fuel t rest, skipSpace t = written depth j ++ rest → EndsLiteral rest →
    (written depth j ++ rest).length ≤ fuel → value? fuel t = some (j, rest)

/-- A written document is not empty, so there is fuel for it. -/
theorem isReadBack_of_succ {j : Json} (h : IsLegible j)
    (hread : ∀ depth fuel t rest, skipSpace t = written depth j ++ rest → EndsLiteral rest →
      (written depth j ++ rest).length ≤ fuel + 1 → value? (fuel + 1) t = some (j, rest)) :
    IsReadBack j := by
  intro depth fuel t rest ht hrest hfuel
  cases fuel with
  | zero =>
      rcases exists_head_written h depth with ⟨c, r, hwritten, _⟩
      rw [hwritten] at hfuel
      cases hfuel
  | succ fuel => exact hread depth fuel t rest ht hrest hfuel

theorem endsLiteral_newline (depth : Nat) (t : Text) : EndsLiteral (newline depth ++ t) :=
  endsLiteral_cons _ (by decide)

section Items

variable {depth outer : Nat} {rest : Text}

theorem endsLiteral_writtenItems (js : List Json) :
    EndsLiteral (writtenItems depth js ++ (newline outer ++ ']' :: rest)) := by
  cases js with
  | nil => exact endsLiteral_newline outer _
  | cons j js => exact endsLiteral_cons _ (by decide)

theorem items?_written {j : Json} {js : List Json} (hlegible : ∀ i ∈ j :: js, IsLegible i)
    (hread : ∀ i ∈ j :: js, IsReadBack i) {fuel : Nat} {t : Text}
    (ht : skipSpace t = written depth j ++ (writtenItems depth js ++ (newline outer ++ ']' :: rest)))
    (hfuel : (skipSpace t).length < fuel) : items? fuel t = some (j :: js, rest) := by
  induction js generalizing j fuel t with
  | nil =>
      cases fuel with
      | zero => exact absurd hfuel (Nat.not_lt_zero _)
      | succ fuel =>
          have hvalue := hread j List.mem_cons_self depth fuel t _ ht
            (endsLiteral_writtenItems []) (by rw [← ht]; omega)
          have hclose : skipSpace (writtenItems depth [] ++ (newline outer ++ ']' :: rest)) =
              ']' :: rest := by
            rw [writtenItems, List.nil_append, skipSpace_newline, skipSpace_cons (by decide)]
          rw [items?, hvalue]
          simp only [hclose]
  | cons i is ih =>
      cases fuel with
      | zero => exact absurd hfuel (Nat.not_lt_zero _)
      | succ fuel =>
          have hvalue := hread j List.mem_cons_self depth fuel t _ ht
            (endsLiteral_writtenItems (i :: is)) (by rw [← ht]; omega)
          have hcomma : skipSpace (writtenItems depth (i :: is) ++ (newline outer ++ ']' :: rest)) =
              ',' :: (newline depth ++ (written depth i ++
                (writtenItems depth is ++ (newline outer ++ ']' :: rest)))) := by
            rw [writtenItems]
            simp only [List.cons_append, List.append_assoc]
            exact skipSpace_cons (by decide)
          have hnext := skipSpace_newline_written (hlegible i (by simp)) depth
            (writtenItems depth is ++ (newline outer ++ ']' :: rest))
          have hitems : items? fuel _ = some (i :: is, rest) :=
            ih (fun k hk => hlegible k (List.mem_cons_of_mem j hk))
              (fun k hk => hread k (List.mem_cons_of_mem j hk)) hnext (by
                rw [hnext]
                rw [ht, writtenItems] at hfuel
                simp only [List.length_append, List.length_cons] at hfuel ⊢
                omega)
          rw [items?, hvalue]
          simp only [hcomma, hitems, Option.map_some]

end Items

section Fields

variable {depth outer : Nat} {rest : Text}

theorem skipSpace_space (t : Text) : skipSpace (' ' :: t) = skipSpace t :=
  List.dropWhile_cons_of_pos (by decide)

theorem fields?_brace {fuel : Nat} {name t r s rest : Text} {j : Json}
    (ht : skipSpace t = quoted name ++ ':' :: r) (hj : value? fuel r = some (j, s))
    (hs : skipSpace s = '}' :: rest) : fields? (fuel + 1) t = some ([(name, j)], rest) := by
  rw [fields?, ht, quoted_append]
  simp only [string?_written, skipSpace_cons (show isSpace ':' = false by decide), hj, hs]

theorem fields?_comma {fuel : Nat} {name t r s u rest : Text} {j : Json} {fs : List (Text × Json)}
    (ht : skipSpace t = quoted name ++ ':' :: r) (hj : value? fuel r = some (j, s))
    (hs : skipSpace s = ',' :: u) (hu : fields? fuel u = some (fs, rest)) :
    fields? (fuel + 1) t = some ((name, j) :: fs, rest) := by
  rw [fields?, ht, quoted_append]
  simp only [string?_written, skipSpace_cons (show isSpace ':' = false by decide), hj, hs, hu,
    Option.map_some]

def behindName (depth outer : Nat) (j : Json) (fs : List (Text × Json)) (rest : Text) : Text :=
  ' ' :: (written depth j ++ (writtenFields depth fs ++ (newline outer ++ '}' :: rest)))

theorem skipSpace_behindName {j : Json} (h : IsLegible j) (depth outer : Nat)
    (fs : List (Text × Json)) (rest : Text) :
    skipSpace (behindName depth outer j fs rest) =
      written depth j ++ (writtenFields depth fs ++ (newline outer ++ '}' :: rest)) := by
  rw [behindName, skipSpace_space, skipSpace_written h]

theorem endsLiteral_writtenFields (fs : List (Text × Json)) :
    EndsLiteral (writtenFields depth fs ++ (newline outer ++ '}' :: rest)) := by
  cases fs with
  | nil => exact endsLiteral_newline outer _
  | cons f fs => exact endsLiteral_cons _ (by decide)

theorem fields?_written {name : Text} {j : Json} {fs : List (Text × Json)}
    (hlegible : ∀ f ∈ (name, j) :: fs, IsLegible f.2)
    (hread : ∀ f ∈ (name, j) :: fs, IsReadBack f.2) {fuel : Nat} {t : Text}
    (ht : skipSpace t = quoted name ++ ':' :: behindName depth outer j fs rest)
    (hfuel : (skipSpace t).length < fuel) : fields? fuel t = some ((name, j) :: fs, rest) := by
  induction fs generalizing name j fuel t with
  | nil =>
      cases fuel with
      | zero => exact absurd hfuel (Nat.not_lt_zero _)
      | succ fuel =>
          have hj := skipSpace_behindName (hlegible _ List.mem_cons_self) depth outer [] rest
          have hvalue := hread (name, j) List.mem_cons_self depth fuel _ _ hj
            (endsLiteral_writtenFields []) (by
              rw [ht] at hfuel
              simp only [behindName, List.length_append, List.length_cons] at hfuel ⊢
              omega)
          have hclose : skipSpace (writtenFields depth [] ++ (newline outer ++ '}' :: rest)) =
              '}' :: rest := by
            rw [writtenFields, List.nil_append, skipSpace_newline, skipSpace_cons (by decide)]
          exact fields?_brace ht hvalue hclose
  | cons f fs ih =>
      rcases f with ⟨name', j'⟩
      cases fuel with
      | zero => exact absurd hfuel (Nat.not_lt_zero _)
      | succ fuel =>
          have hj := skipSpace_behindName (hlegible _ List.mem_cons_self) depth outer
            ((name', j') :: fs) rest
          have hvalue := hread (name, j) List.mem_cons_self depth fuel _ _ hj
            (endsLiteral_writtenFields ((name', j') :: fs)) (by
              rw [ht] at hfuel
              simp only [behindName, List.length_append, List.length_cons] at hfuel ⊢
              omega)
          have hcomma : skipSpace (writtenFields depth ((name', j') :: fs) ++
              (newline outer ++ '}' :: rest)) =
              ',' :: (newline depth ++ (quoted name' ++ ':' :: behindName depth outer j' fs rest)) := by
            rw [writtenFields, behindName]
            simp only [List.cons_append, List.append_assoc, List.nil_append]
            exact skipSpace_cons (by decide)
          have hnext : skipSpace (newline depth ++
              (quoted name' ++ ':' :: behindName depth outer j' fs rest)) =
              quoted name' ++ ':' :: behindName depth outer j' fs rest := by
            rw [skipSpace_newline, skipSpace_quoted]
          have hfields : fields? fuel _ = some ((name', j') :: fs, rest) :=
            ih (fun k hk => hlegible k (List.mem_cons_of_mem _ hk))
              (fun k hk => hread k (List.mem_cons_of_mem _ hk)) hnext (by
                rw [hnext]
                rw [ht, behindName, writtenFields] at hfuel
                simp only [behindName, List.length_append, List.length_cons] at hfuel ⊢
                omega)
          exact fields?_comma ht hvalue hcomma hfields

end Fields

theorem value?_text {fuel : Nat} {t s rest : Text} (ht : skipSpace t = quoted s ++ rest) :
    value? (fuel + 1) t = some (.text s, rest) := by
  rw [value?, ht, quoted_append]
  simp only [string?_written, Option.map_some]

theorem value?_array_nil {fuel : Nat} {t r rest : Text} (ht : skipSpace t = '[' :: r)
    (hr : skipSpace r = ']' :: rest) : value? (fuel + 1) t = some (.array [], rest) := by
  rw [value?, ht]
  simp only [hr]

theorem value?_array_cons {fuel : Nat} {t r s : Text} {c : Char} (ht : skipSpace t = '[' :: r)
    (hr : skipSpace r = c :: s) (hc : c ≠ ']') :
    value? (fuel + 1) t = (items? fuel (c :: s)).map fun a => (.array a.1, a.2) := by
  rw [value?, ht]
  simp only [hr]
  split
  · rename_i heq
    exact absurd (List.cons.inj heq).1 hc
  · rfl

theorem value?_object_nil {fuel : Nat} {t r rest : Text} (ht : skipSpace t = '{' :: r)
    (hr : skipSpace r = '}' :: rest) : value? (fuel + 1) t = some (.object [], rest) := by
  rw [value?, ht]
  simp only [hr]

theorem value?_object_cons {fuel : Nat} {t r s : Text} {c : Char} (ht : skipSpace t = '{' :: r)
    (hr : skipSpace r = c :: s) (hc : c ≠ '}') :
    value? (fuel + 1) t = (fields? fuel (c :: s)).map fun a => (.object a.1, a.2) := by
  rw [value?, ht]
  simp only [hr]
  split
  · rename_i heq
    exact absurd (List.cons.inj heq).1 hc
  · rfl

theorem isReadBack_array {js : List Json} (h : ∀ j ∈ js, IsLegible j)
    (hread : ∀ j ∈ js, IsReadBack j) : IsReadBack (.array js) := by
  refine isReadBack_of_succ (.array h) fun depth fuel t rest ht _ hfuel => ?_
  cases js with
  | nil =>
      rw [written] at ht
      exact value?_array_nil ht (skipSpace_cons (by decide))
  | cons j js =>
      have hj : IsLegible j := h j List.mem_cons_self
      rw [← ht] at hfuel
      rw [written] at ht
      simp only [List.cons_append, List.append_assoc, List.nil_append] at ht
      have hspace := skipSpace_newline_written hj (depth + 1)
        (writtenItems (depth + 1) js ++ (newline depth ++ ']' :: rest))
      have hitems : items? fuel (written (depth + 1) j ++
          (writtenItems (depth + 1) js ++ (newline depth ++ ']' :: rest))) =
          some (j :: js, rest) :=
        items?_written h hread (skipSpace_written hj _ _) (by
          rw [skipSpace_written hj]
          rw [ht] at hfuel
          simp only [newline, List.length_append, List.length_cons] at hfuel ⊢
          omega)
      rcases exists_head_written hj (depth + 1) with ⟨c, r, hwritten, _, hc⟩
      rw [hwritten, List.cons_append] at ht hspace hitems
      rw [value?_array_cons ht hspace hc, hitems]
      rfl

theorem isReadBack_object {fields : List (Text × Json)} (h : ∀ f ∈ fields, IsLegible f.2)
    (hread : ∀ f ∈ fields, IsReadBack f.2) : IsReadBack (.object fields) := by
  refine isReadBack_of_succ (.object h) fun depth fuel t rest ht _ hfuel => ?_
  cases fields with
  | nil =>
      rw [written] at ht
      exact value?_object_nil ht (skipSpace_cons (by decide))
  | cons f fs =>
      rcases f with ⟨name, j⟩
      rw [← ht] at hfuel
      rw [written] at ht
      simp only [List.cons_append, List.append_assoc, List.nil_append] at ht
      have hspace : skipSpace (newline (depth + 1) ++
          (quoted name ++ ':' :: behindName (depth + 1) depth j fs rest)) =
          quoted name ++ ':' :: behindName (depth + 1) depth j fs rest := by
        rw [skipSpace_newline, skipSpace_quoted]
      have hfields : fields? fuel (quoted name ++ ':' :: behindName (depth + 1) depth j fs rest) =
          some ((name, j) :: fs, rest) :=
        fields?_written h hread (skipSpace_quoted _ _) (by
          rw [skipSpace_quoted]
          rw [ht] at hfuel
          simp only [behindName, newline, List.length_append, List.length_cons] at hfuel ⊢
          omega)
      rw [value?_object_cons ht (hspace.trans (quoted_append name _)) (by decide),
        ← quoted_append, hfields]
      rfl

/-- A document whose literals are literals is read back. -/
theorem IsLegible.isReadBack {j : Json} (h : IsLegible j) : IsReadBack j := by
  induction h with
  | null =>
      refine isReadBack_of_succ .null fun depth fuel t rest ht hrest _ => ?_
      rw [written] at ht
      exact value?_bare ht (List.all_eq_true.mp (by decide)) rfl hrest
  | bool b =>
      refine isReadBack_of_succ (.bool b) fun depth fuel t rest ht hrest _ => ?_
      cases b with
      | false =>
          rw [written] at ht
          exact value?_bare ht (List.all_eq_true.mp (by decide)) rfl hrest
      | true =>
          rw [written] at ht
          exact value?_bare ht (List.all_eq_true.mp (by decide)) rfl hrest
  | number h =>
      refine isReadBack_of_succ (.number h) fun depth fuel t rest ht hrest _ => ?_
      rw [written] at ht
      exact value?_bare ht h.numeric h.bare hrest
  | text s =>
      refine isReadBack_of_succ (.text s) fun depth fuel t rest ht hrest _ => ?_
      rw [written] at ht
      exact value?_text ht
  | array h ih => exact isReadBack_array h ih
  | object h ih => exact isReadBack_object h ih

theorem ofText?_written {j : Json} (h : IsLegible j) : ofText? (written 0 j) = some j := by
  have hread := h.isReadBack 0 (2 * (written 0 j).length + 2) (written 0 j) []
    (by
      have hskip := skipSpace_written h 0 []
      rwa [List.append_nil] at hskip ⊢)
    nofun (by rw [List.append_nil]; omega)
  rw [ofText?, hread]
  rfl

/-!
## Written characters
-/

/-- The characters with which documents are written: those of ASCII that are printed, and line
feeds. -/
def IsWritten (c : Char) : Prop :=
  c = '\n' ∨ 0x20 ≤ c.toNat ∧ c.toNat < 0x7F

instance (c : Char) : Decidable (IsWritten c) :=
  inferInstanceAs (Decidable (_ ∨ _))

theorem isWritten_of_all {t : Text} (h : t.all (fun c => decide (IsWritten c)) = true) :
    ∀ c ∈ t, IsWritten c :=
  fun c hc => of_decide_eq_true (List.all_eq_true.mp h c hc)

theorem isWritten_of_isNumeric {c : Char} (h : isNumeric c = true) : IsWritten c := by
  simp only [isNumeric, Bool.or_eq_true, decide_eq_true_eq] at h
  rcases h with ((h | rfl) | rfl) | rfl
  · have hgraphic := Text.graphic_of_isAlphanum h
    exact .inr (by omega)
  · decide
  · decide
  · decide

theorem isWritten_unitEscape (n : Nat) : ∀ c ∈ unitEscape n, IsWritten c := by
  have hdigits : ∀ c ∈ Text.smallHexDigits, IsWritten c := isWritten_of_all (by decide)
  refine List.forall_mem_cons.mpr ⟨by decide, List.forall_mem_cons.mpr ⟨by decide, ?_⟩⟩
  exact fun c hc => hdigits c (Text.mem_smallHexDigits_of_mem_hexPadded hc)

theorem isWritten_escaped (c : Char) : ∀ d ∈ escaped c, IsWritten d := by
  unfold escaped
  split
  · rename_i hself
    rcases hself with rfl | rfl
    · exact isWritten_of_all (by decide)
    · exact isWritten_of_all (by decide)
  split
  · exact isWritten_of_all (by decide)
  split
  · exact isWritten_of_all (by decide)
  split
  · exact isWritten_of_all (by decide)
  split
  · exact isWritten_of_all (by decide)
  split
  · exact isWritten_of_all (by decide)
  split
  · rename_i hprinted
    exact List.forall_mem_singleton.mpr (.inr hprinted)
  split
  · exact isWritten_unitEscape _
  · exact List.forall_mem_append.mpr ⟨isWritten_unitEscape _, isWritten_unitEscape _⟩

theorem isWritten_quoted (t : Text) : ∀ c ∈ quoted t, IsWritten c := by
  unfold quoted
  rw [List.forall_mem_append, List.forall_mem_cons, List.forall_mem_flatMap]
  exact ⟨⟨by decide, fun c _ => isWritten_escaped c⟩, isWritten_of_all (by decide)⟩

theorem isWritten_newline (depth : Nat) : ∀ c ∈ newline depth, IsWritten c := by
  refine List.forall_mem_cons.mpr ⟨by decide, ?_⟩
  intro c hc
  rw [List.eq_of_mem_replicate hc]
  decide

theorem isWritten_writtenItems {js : List Json} {depth : Nat}
    (h : ∀ j ∈ js, ∀ c ∈ written depth j, IsWritten c) :
    ∀ c ∈ writtenItems depth js, IsWritten c := by
  induction js with
  | nil => nofun
  | cons j js ih =>
      rw [List.forall_mem_cons] at h
      rw [writtenItems]
      simp only [List.forall_mem_append, List.forall_mem_cons]
      exact ⟨⟨⟨by decide, isWritten_newline depth⟩, h.1⟩, ih h.2⟩

theorem isWritten_writtenFields {fs : List (Text × Json)} {depth : Nat}
    (h : ∀ f ∈ fs, ∀ c ∈ written depth f.2, IsWritten c) :
    ∀ c ∈ writtenFields depth fs, IsWritten c := by
  induction fs with
  | nil => nofun
  | cons f fs ih =>
      rw [List.forall_mem_cons] at h
      rw [writtenFields]
      simp only [List.forall_mem_append, List.forall_mem_cons]
      exact ⟨⟨⟨⟨⟨by decide, isWritten_newline depth⟩, isWritten_quoted f.1⟩,
        by decide, by decide, nofun⟩, h.1⟩, ih h.2⟩

theorem IsLegible.isWritten {j : Json} (h : IsLegible j) (depth : Nat) :
    ∀ c ∈ written depth j, IsWritten c := by
  induction h generalizing depth with
  | null =>
      rw [written]
      exact isWritten_of_all (by decide)
  | bool b =>
      cases b
      · rw [written]
        exact isWritten_of_all (by decide)
      · rw [written]
        exact isWritten_of_all (by decide)
  | number h =>
      rw [written]
      exact fun c hc => isWritten_of_isNumeric (h.numeric c hc)
  | text t =>
      rw [written]
      exact isWritten_quoted t
  | @array items h ih =>
      cases items with
      | nil =>
          rw [written]
          exact isWritten_of_all (by decide)
      | cons i is =>
          rw [written]
          simp only [List.forall_mem_append, List.forall_mem_cons] at ih ⊢
          exact ⟨⟨⟨⟨⟨by decide, isWritten_newline _⟩, ih.1 _⟩,
            isWritten_writtenItems fun j hj => ih.2 j hj _⟩, isWritten_newline _⟩,
            by decide, nofun⟩
  | @object fields h ih =>
      cases fields with
      | nil =>
          rw [written]
          exact isWritten_of_all (by decide)
      | cons f fs =>
          rw [written]
          simp only [List.forall_mem_append, List.forall_mem_cons] at ih ⊢
          exact ⟨⟨⟨⟨⟨⟨⟨by decide, isWritten_newline _⟩, isWritten_quoted _⟩,
            by decide, by decide, nofun⟩, ih.1 _⟩,
            isWritten_writtenFields fun j hj => ih.2 j hj _⟩, isWritten_newline _⟩,
            by decide, nofun⟩

end Json
end DesignTokens
