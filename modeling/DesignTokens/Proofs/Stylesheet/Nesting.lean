import DesignTokens.Proofs.Stylesheet.Block

/-!
# Variables of nested rules

A stylesheet gives every variable that is declared in it, at any depth, with its last
value, as far as no declaration stands directly behind a rule. Such a declaration is
lost, and its variable has the last value that it is given elsewhere.
-/

namespace DesignTokens
namespace Stylesheet

theorem Block.filter_heard {b : Block} {behindRule : Bool} {name : Text}
    (h : ∀ s ∈ b.unheard behindRule, ∀ d ∈ s.entries, d.1 ≠ name) :
    (b.heard behindRule).filter (fun d => d.1 = name) =
      b.declared.filter fun d => d.1 = name := by
  have hstatement : ∀ {s : Statement} {behindRule : Bool},
      (∀ s' ∈ if behindRule then [s] else [], ∀ d ∈ s'.entries, d.1 ≠ name) →
      (if behindRule then [] else s.entries).filter (fun d => d.1 = name) =
        s.entries.filter fun d => d.1 = name := by
    intro s behindRule hs
    cases behindRule with
    | false => rfl
    | true =>
        have hnone := hs s (List.mem_singleton_self s)
        rw [if_pos rfl, List.filter_nil, eq_comm, List.filter_eq_nil_iff]
        simpa using hnone
  induction b generalizing behindRule with
  | last s => exact hstatement h
  | statement s b ih =>
      rw [unheard, List.forall_mem_append] at h
      rw [heard, declared, List.filter_append, List.filter_append, hstatement h.1, ih h.2]
  | rule selector inner b ihInner ih =>
      rw [unheard, List.forall_mem_append] at h
      rw [heard, declared, List.filter_append, List.filter_append, ihInner h.1, ih h.2]
  | comment body b ih => exact ih h

theorem Block.heard_subset {b : Block} (behindRule : Bool) :
    ∀ d ∈ b.heard behindRule, d ∈ b.declared := by
  induction b generalizing behindRule with
  | last s =>
      intro d hd
      cases behindRule with
      | true => exact absurd hd List.not_mem_nil
      | false => exact hd
  | statement s b ih =>
      intro d hd
      rcases List.mem_append.mp hd with hd | hd
      · cases behindRule with
        | true => exact absurd hd List.not_mem_nil
        | false => exact List.mem_append_left _ hd
      · exact List.mem_append_right _ (ih false d hd)
  | rule selector inner b ihInner ih =>
      intro d hd
      rcases List.mem_append.mp hd with hd | hd
      · exact List.mem_append_left _ (ihInner false d hd)
      · exact List.mem_append_right _ (ih true d hd)
  | comment body b ih => exact ih behindRule

/--
The table of a stylesheet holds what is declared elsewhere than directly behind a rule.
It gives every variable its last value exactly if it does so for the variables that are
declared directly behind rules.
-/
theorem properties_block (b : Block) (h : b.IsWritable)
    (hsilent : ∀ s ∈ b.unheard false, s.IsSilent) (hvalues : ∀ d ∈ b.declared, d.2 ≠ []) :
    properties b.written = Table.lastValues (b.heard false) ∧
      ((∀ name, (properties b.written).get? name = (Table.lastValues b.declared).get? name) ↔
        ∀ s ∈ b.unheard false, ∀ d ∈ s.entries,
          (Table.lastValues (b.heard false)).get? d.1 =
            (Table.lastValues b.declared).get? d.1) := by
  have hfilter : (b.heard false).filter (fun d => d.2 ≠ []) = b.heard false := by
    rw [List.filter_eq_self]
    intro d hd
    simpa using hvalues d (b.heard_subset false d hd)
  have htable : properties b.written = Table.lastValues (b.heard false) := by
    rw [properties_eq_lastValues, declarations_block h hsilent, hfilter]
  refine ⟨htable, ?_⟩
  rw [htable]
  constructor
  · intro hall s _ d _
    exact hall d.1
  · intro hunheard name
    by_cases hname : ∃ s ∈ b.unheard false, ∃ d ∈ s.entries, d.1 = name
    · rcases hname with ⟨s, hs, d, hd, rfl⟩
      exact hunheard s hs d hd
    · -- every declaration of the variable is read, in the order of the text
      refine Table.get?_lastValues_congr (b.filter_heard ?_)
      intro s hs d hd hd'
      exact hname ⟨s, hs, d, hd, hd'⟩

def Block.nested : Block :=
  .rule ":root".toList
    (.statement (.custom [] "a".toList [] " '\x7d' \x7b;\x7d".toList)
      (.rule "&:hover ".toList
        (.comment "--b: 1;".toList
          (.rule "i".toList (.last (.other [])) (.last (.custom [] "b".toList [] "2".toList))))
        (.statement (.custom " ".toList "c".toList [] " 3".toList)
          (.statement (.custom [] "d".toList " ".toList " 4".toList)
            (.last (.custom [] "a".toList [] " 5".toList))))))
    (.last (.other []))

theorem properties_block_nested :
    Block.nested.IsWritable ∧
      properties Block.nested.written = [("--a".toList, "5".toList), ("--d".toList, "4".toList)] ∧
      (properties Block.nested.written).get? "--c".toList ≠
        (Table.lastValues Block.nested.declared).get? "--c".toList := by
  have hwritable : Block.nested.IsWritable := by decide +kernel
  have hread := properties_block Block.nested hwritable (by decide +kernel) (by decide +kernel)
  have htable : properties Block.nested.written =
      [("--a".toList, "5".toList), ("--d".toList, "4".toList)] := by
    rw [hread.1]
    decide +kernel
  refine ⟨hwritable, htable, ?_⟩
  rw [htable]
  decide +kernel

end Stylesheet
end DesignTokens
