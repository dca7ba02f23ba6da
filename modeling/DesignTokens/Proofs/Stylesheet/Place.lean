import DesignTokens.Proofs.Stylesheet.Block

/-!
# Places of statements

A block with one of its statements taken out. What is declared around the place does
not depend on the statement that is put there, as long as it can be read. However it
is written, the search for declarations comes to it in the same state.
-/

namespace DesignTokens
namespace Stylesheet

open Source (IsCommentBody)

/-- A block without one of its statements. -/
inductive Place where
  | last
  /-- in front of a semicolon -/
  | first (rest : Block)
  | behindStatement (s : Statement) (place : Place)
  | inRule (selector : Text) (place : Place) (rest : Block)
  | behindRule (selector : Text) (inner : Block) (place : Place)
  | behindComment (body : Text) (place : Place)

namespace Place

def fill (s : Statement) : Place → Block
  | last => .last s
  | first rest => .statement s rest
  | behindStatement before place => .statement before (place.fill s)
  | inRule selector place rest => .rule selector (place.fill s) rest
  | behindRule selector inner place => .rule selector inner (place.fill s)
  | behindComment body place => .comment body (place.fill s)

def Holds (P : Statement → Prop) : Place → Prop
  | last => True
  | first rest => rest.Holds P
  | behindStatement s place => P s ∧ place.Holds P
  | inRule selector place rest => IsInert selector ∧ place.Holds P ∧ rest.Holds P
  | behindRule selector inner place => IsInert selector ∧ inner.Holds P ∧ place.Holds P
  | behindComment body place => IsCommentBody body ∧ place.Holds P

def isUnheard (closed : Bool) : Place → Bool
  | last => closed
  | first _ => closed
  | behindStatement _ place => place.isUnheard false
  | inRule _ place _ => place.isUnheard false
  | behindRule _ _ place => place.isUnheard true
  | behindComment _ place => place.isUnheard closed

def unheard (closed : Bool) : Place → List Statement
  | last => []
  | first rest => rest.unheard false
  | behindStatement s place => (if closed then [s] else []) ++ place.unheard false
  | inRule _ place rest => place.unheard false ++ rest.unheard true
  | behindRule _ inner place => inner.unheard false ++ place.unheard true
  | behindComment _ place => place.unheard closed

/-- What is declared before the place, elsewhere than directly behind a rule. -/
def heardBefore (closed : Bool) : Place → List (Text × Text)
  | last => []
  | first _ => []
  | behindStatement s place => (if closed then [] else s.entries) ++ place.heardBefore false
  | inRule _ place _ => place.heardBefore false
  | behindRule _ inner place => inner.heard false ++ place.heardBefore true
  | behindComment _ place => place.heardBefore closed

def heardAfter : Place → List (Text × Text)
  | last => []
  | first rest => rest.heard false
  | behindStatement _ place => place.heardAfter
  | inRule _ place rest => place.heardAfter ++ rest.heard true
  | behindRule _ _ place => place.heardAfter
  | behindComment _ place => place.heardAfter

theorem holds_fill_iff {P : Statement → Prop} {place : Place} {s : Statement} :
    (place.fill s).Holds P ↔ P s ∧ place.Holds P := by
  induction place with
  | last => exact (and_iff_left trivial).symm
  | first rest => exact Iff.rfl
  | behindStatement before place ih => simp only [fill, Block.Holds, Holds, ih, and_left_comm]
  | inRule selector place rest ih =>
      simp only [fill, Block.Holds, Holds, ih, and_assoc, and_left_comm]
  | behindRule selector inner place ih => simp only [fill, Block.Holds, Holds, ih, and_left_comm]
  | behindComment body place ih => simp only [fill, Block.Holds, Holds, ih, and_left_comm]

theorem heard_fill (place : Place) (s : Statement) (closed : Bool) :
    (place.fill s).heard closed =
      place.heardBefore closed ++
        ((if place.isUnheard closed then [] else s.entries) ++ place.heardAfter) := by
  induction place generalizing closed with
  | last => exact (List.append_nil _).symm
  | first rest => rfl
  | behindStatement before place ih =>
      rw [fill, Block.heard, ih, heardBefore, List.append_assoc]
      rfl
  | inRule selector place rest ih =>
      rw [fill, Block.heard, ih, List.append_assoc, List.append_assoc]
      rfl
  | behindRule selector inner place ih =>
      rw [fill, Block.heard, ih, heardBefore, List.append_assoc]
      rfl
  | behindComment body place ih => exact ih closed

theorem forall_unheard_fill_iff {P : Statement → Prop} {place : Place} {s : Statement}
    {closed : Bool} :
    (∀ u ∈ (place.fill s).unheard closed, P u) ↔
      (place.isUnheard closed = true → P s) ∧ ∀ u ∈ place.unheard closed, P u := by
  induction place generalizing closed with
  | last => cases closed <;> simp [fill, Block.unheard, isUnheard, unheard]
  | first rest => cases closed <;> simp [fill, Block.unheard, isUnheard, unheard]
  | behindStatement before place ih =>
      simp only [fill, Block.unheard, isUnheard, unheard, List.forall_mem_append, ih,
        and_left_comm]
  | inRule selector place rest ih =>
      simp only [fill, Block.unheard, isUnheard, unheard, List.forall_mem_append, ih, and_assoc]
  | behindRule selector inner place ih =>
      simp only [fill, Block.unheard, isUnheard, unheard, List.forall_mem_append, ih,
        and_left_comm]
  | behindComment body place ih => exact ih

/-- The search for declarations comes to a statement behind all that is declared before it. -/
theorem declarationsFrom_fill {place : Place} {closed : Bool} {last : Option Char}
    (h : place.Holds Statement.IsWritable)
    (hsilent : ∀ u ∈ place.unheard closed, u.IsSilent) (hlast : Follows closed last) :
    ∃ (before : Option Char) (after : Text), Follows (place.isUnheard closed) before ∧
      ∀ (s : Statement) (tail : Text), declarationsFrom last ((place.fill s).text ++ tail) =
        place.heardBefore closed ++ declarationsFrom before (s.written ++ (after ++ tail)) := by
  induction place generalizing closed last with
  | last => exact ⟨last, [], hlast, fun _ _ => rfl⟩
  | first rest =>
      refine ⟨last, ';' :: rest.text, hlast, fun s tail => ?_⟩
      rw [fill, Block.text, List.append_assoc]
      rfl
  | behindStatement before place ih =>
      rw [unheard, List.forall_mem_append] at hsilent
      have hbehind : Follows false (some ';') := rfl
      rcases ih h.2 hsilent.2 hbehind with ⟨solid, after, hsolid, hread⟩
      refine ⟨solid, after, hsolid, fun s tail => ?_⟩
      have htail : IsTail (';' :: ((place.fill s).text ++ tail)) := by simp [IsTail]
      rw [fill, Block.text, List.append_assoc, List.cons_append,
        declarationsFrom_statement h.1 hsilent.1 hlast htail, List.head?_cons, List.tail_cons,
        hread, heardBefore, List.append_assoc]
  | inRule selector place rest ih =>
      rw [unheard, List.forall_mem_append] at hsilent
      have hinside : Follows false (some '\x7b') := rfl
      rcases ih h.2.1 hsilent.1 hinside with ⟨solid, after, hsolid, hread⟩
      refine ⟨solid, after ++ '\x7d' :: rest.text, hsolid, fun s tail => ?_⟩
      simp only [fill, Block.text, List.append_assoc, List.cons_append]
      rw [declarationsFrom_selector last _ h.1, hread, heardBefore]
  | behindRule selector inner place ih =>
      rw [unheard, List.forall_mem_append] at hsilent
      have hinside : Follows false (some '\x7b') := rfl
      have hbehind : Follows true (some '\x7d') := rfl
      rcases ih h.2.2 hsilent.2 hbehind with ⟨solid, after, hsolid, hread⟩
      refine ⟨solid, after, hsolid, fun s tail => ?_⟩
      have hclose : IsTail ('\x7d' :: ((place.fill s).text ++ tail)) := by simp [IsTail]
      simp only [fill, Block.text, List.append_assoc, List.cons_append]
      rw [declarationsFrom_selector last _ h.1,
        declarationsFrom_block h.2.1 hsilent.1 hinside hclose, List.head?_cons, List.tail_cons,
        hread, heardBefore, List.append_assoc]
  | behindComment body place ih => exact ih h.2 hsilent hlast

end Place

end Stylesheet
end DesignTokens
