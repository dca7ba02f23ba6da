import DesignTokens.Proofs.Stylesheet.RoundTrip

/-!
# Values of variables

Every variable of a stylesheet begins with two hyphens and has one value, which is not
empty and has no blanks around it.
-/

namespace DesignTokens
namespace Stylesheet

theorem exists_of_mem_declarationsFrom (last : Option Char) (t : Text) :
    ∀ d ∈ declarationsFrom last t, ∃ u rest value : Text,
      declarationHead? u = some (d.1, rest) ∧ d.2 = Text.strip value := by
  fun_induction declarationsFrom last t with
  | case1 last => simp
  | case2 last c t name rest hhead hlt hle r ih =>
      intro d hd
      rcases List.mem_cons.mp hd with rfl | htail
      · split at hhead
        · exact ⟨_, rest, r.1, hhead, rfl⟩
        · cases hhead
      · exact ih d htail
  | case3 last c t hnone ih => simpa using ih

theorem mem_declarations_of_mem_properties {css : Text} {entry : Text × Text}
    (h : entry ∈ properties css) : entry ∈ declarations css ∧ entry.2 ≠ [] := by
  rw [properties_eq_lastValues] at h
  simpa using Table.mem_of_mem_lastValues h

theorem exists_word_of_mem_properties {css : Text} {entry : Text × Text}
    (h : entry ∈ properties css) : ∃ word, entry.1 = "--".toList ++ word := by
  rcases exists_of_mem_declarationsFrom none _ _ (mem_declarations_of_mem_properties h).1 with
    ⟨_, _, _, hhead, _⟩
  rcases exists_of_declarationHead? hhead with ⟨word, _, hname, _⟩
  exact ⟨word, hname⟩

theorem strip_of_mem_properties {css : Text} {entry : Text × Text}
    (h : entry ∈ properties css) : Text.strip entry.2 = entry.2 := by
  rcases exists_of_mem_declarationsFrom none _ _ (mem_declarations_of_mem_properties h).1 with
    ⟨_, _, value, _, hvalue⟩
  rw [hvalue, Text.strip_strip]

theorem nodup_names_properties (css : Text) : (properties css).names.Nodup := by
  rw [properties_eq_lastValues, Table.names_lastValues]
  exact Table.nodup_eraseDups _

end Stylesheet
end DesignTokens
