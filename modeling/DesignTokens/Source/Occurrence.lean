import DesignTokens.Text.Reader
import DesignTokens.Text.Word

/-!
# Occurrences

The stretches of a source that a reader takes where a word begins. The search
goes on behind each of them.
-/

namespace DesignTokens
namespace Source

def occurrencesFrom (r : Reader) (before : Option Char) (offset : Nat) :
    Text → List (Nat × Nat)
  | [] => []
  | c :: t =>
      match if before.any Text.isWord then none else r (c :: t) with
      | none => occurrencesFrom r (some c) (offset + 1) t
      | some rest =>
          let n := t.length - rest.length
          (offset, offset + n + 1) ::
            occurrencesFrom r (c :: t)[n]? (offset + n + 1) (t.drop n)
termination_by t => t.length
decreasing_by
  all_goals simp only [List.length_cons, List.length_drop]
  all_goals omega

/-- The stretches that a reader takes where a word begins, with start and stop. -/
def occurrences (r : Reader) (source : Text) : List (Nat × Nat) :=
  occurrencesFrom r none 0 source

end Source
end DesignTokens
