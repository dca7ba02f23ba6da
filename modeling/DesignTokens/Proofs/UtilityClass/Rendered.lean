import DesignTokens.Finding.Finder
import DesignTokens.Proofs.Finding.Order
import DesignTokens.Proofs.Source.Occurrence
import DesignTokens.Proofs.UtilityClass.Written

/-!
# Rendered classes

A list of utility classes is rendered as the `className` attribute of an element. A
scan of the element finds every class where its value is written, and nothing else,
whatever variants, hyphens and parentheses the classes hold.
-/

namespace DesignTokens
namespace UtilityClass

/-- A class that is to be rendered, with a number of hyphens before its prefix. -/
structure RenderedClass where
  variant : Text
  hyphens : Nat
  base : UtilityPrefix
  value : Text

def marks : List Char :=
  ['"', '\'', '`', '\\', '[', ']', '{', '}']

namespace RenderedClass

def lead (c : RenderedClass) : Text :=
  List.replicate c.hyphens '-' ++ c.base.text.toList

def opening (c : RenderedClass) : Text :=
  c.variant ++ c.lead ++ ['[']

def text (c : RenderedClass) : Text :=
  c.opening ++ c.value ++ [']']

def target (c : RenderedClass) : StyleTarget :=
  c.base.target c.value

/--
Whether a class can be found: its prefix is known and stands behind a colon or at the
beginning, its value is not blank and closes its parentheses, and the category of its
target is asked for.
-/
structure IsClass (options : ScanOptions) (c : RenderedClass) : Prop where
  known : c.base ∈ UtilityPrefix.all
  variant : c.variant = [] ∨ c.variant.getLast? = some ':'
  clean : ∀ d ∈ c.variant ++ c.value, d ∉ marks
  filled : Text.isAllBlank c.value = false
  closed : openParens? 0 c.value = some 0
  asked : c.target.category ∈ options.categories

instance (options : ScanOptions) (c : RenderedClass) : Decidable (c.IsClass options) :=
  -- only the characters of the class are tried, not all characters there are
  have : Decidable (∀ d ∈ c.variant ++ c.value, d ∉ marks) := List.decidableBAll _ _
  decidable_of_iff
    (c.base ∈ UtilityPrefix.all ∧ (c.variant = [] ∨ c.variant.getLast? = some ':') ∧
      (∀ d ∈ c.variant ++ c.value, d ∉ marks) ∧ Text.isAllBlank c.value = false ∧
        openParens? 0 c.value = some 0 ∧ c.target.category ∈ options.categories)
    ⟨fun ⟨h1, h2, h3, h4, h5, h6⟩ => ⟨h1, h2, h3, h4, h5, h6⟩,
      fun h => ⟨h.1, h.2, h.3, h.4, h.5, h.6⟩⟩

def finding (site : Site) (start : Nat) (c : RenderedClass) : Finding where
  category := c.target.category
  value := c.value
  property := c.target.property.toList
  scope := .utilityClass
  location := Source.location site.source start (start + c.value.length)
  context := site.context? start (start + c.value.length)
  path := ["className".toList, c.lead ++ '[' :: c.value ++ [']']]
  details := .describe c.target.category c.value false

end RenderedClass

theorem utilityPrefixes_texts : ∀ p ∈ UtilityPrefix.all,
    p.text.toList.all isLeadChar = true ∧ p.text.toList.dropWhile (· = '-') = p.text.toList ∧
      UtilityPrefix.ofText? p.text.toList = some p := by
  decide +kernel

section Class

variable {options : ScanOptions} {c : RenderedClass}

theorem RenderedClass.IsClass.isLeadChar (h : c.IsClass options) :
    ∀ d ∈ c.lead, UtilityClass.isLeadChar d = true := by
  intro d hd
  rcases List.mem_append.mp hd with hd | hd
  · rw [List.eq_of_mem_replicate hd]
    decide +kernel
  · exact List.all_eq_true.mp (utilityPrefixes_texts c.base h.known).1 d hd

theorem RenderedClass.IsClass.ofText? (h : c.IsClass options) :
    UtilityPrefix.ofText? (c.lead.dropWhile (· = '-')) = some c.base := by
  rcases utilityPrefixes_texts c.base h.known with ⟨-, hdrop, hfind⟩
  have hhyphens : ∀ d ∈ List.replicate c.hyphens '-', decide (d = '-') = true := by
    intro d hd
    exact decide_eq_true (List.eq_of_mem_replicate hd)
  rw [RenderedClass.lead, List.dropWhile_append_of_pos hhyphens, hdrop, hfind]

/-!
## Classes in their list
-/

theorem RenderedClass.IsClass.run (h : c.IsClass options) :
    (c.variant ++ c.lead).foldl extendRun [] = c.lead.reverse := by
  have hvariant : c.variant.foldl extendRun [] = [] := by
    rcases h.variant with hnil | hlast
    · rw [hnil]
      rfl
    · rcases List.getLast?_eq_some_iff.mp hlast with ⟨v, hv⟩
      rw [hv]
      exact foldl_extendRun_concat (by decide +kernel)
  rw [List.foldl_append, hvariant, foldl_extendRun_lead h.isLeadChar, List.append_nil]

end Class

/-!
## The attribute

A class may hold what looks like the head of an attribute. Such a head stands between the
quotes of the attribute, and no literal begins behind it.
-/

open Reader (StopsAt)

theorem attributeHead_stopsAt {x : Char} (hblank : Text.isBlank x = false)
    (hx : x ∉ "className=".toList) : StopsAt x attributeHead := by
  have hsplit : "className=".toList = "className".toList ++ ['='] := rfl
  rw [hsplit, List.mem_append, not_or] at hx
  rcases hx with ⟨hname, hsign⟩
  apply Reader.stopsAt_sequence
  intro r hr
  simp only [List.mem_cons, List.not_mem_nil, or_false] at hr
  rcases hr with rfl | rfl | rfl | rfl
  · exact Reader.stopsAt_exactly hname
  · exact Reader.stopsAt_many hblank
  · exact Reader.stopsAt_exactly hsign
  · exact Reader.stopsAt_many hblank

section Attribute

variable {options : ScanOptions} {cs : List RenderedClass}

theorem attributeHead_eq_none {c : Char} {t : Text} (h : c ≠ 'c') :
    attributeHead (c :: t) = none := by
  simp [attributeHead, Reader.sequence, Reader.exactly, Text.after?, Ne.symm h]

theorem attributeHead_written (t : Text) :
    attributeHead ("className=".toList ++ '"' :: t) = some ('"' :: t) := by
  have hsign : Text.isBlank '=' = false := by decide
  have hquote : Text.isBlank '"' = false := by decide
  simp [attributeHead, Reader.sequence, Reader.exactly, Text.after?, Reader.blanks, Reader.many,
    hsign, hquote]

theorem occurrencesFrom_tag (t : Text) :
    Source.occurrencesFrom attributeHead none 0 ("<div className=".toList ++ '"' :: t) =
      (5, 15) :: Source.occurrencesFrom attributeHead (some '=') 15 ('"' :: t) := by
  have hword : (some ' ').any Text.isWord = false := by decide +kernel
  have hlength : ("lassName=".toList ++ '"' :: t).length - ('"' :: t).length = 9 := by
    rw [List.length_append, Nat.add_sub_cancel]
    rfl
  have htext : "<div className=".toList ++ '"' :: t =
      '<' :: 'd' :: 'i' :: 'v' :: ' ' :: 'c' :: ("lassName=".toList ++ '"' :: t) := by
    simp
  have hread : attributeHead ('c' :: ("lassName=".toList ++ '"' :: t)) = some ('"' :: t) := by
    have hread := attributeHead_written t
    simpa using hread
  rw [htext]
  iterate 5 rw [Source.occurrencesFrom_cons _ _ (attributeHead_eq_none (by decide))]
  rw [Source.occurrencesFrom, hword, if_neg Bool.false_ne_true, hread]
  simp only [hlength]
  rfl

end Attribute

end UtilityClass
end DesignTokens
