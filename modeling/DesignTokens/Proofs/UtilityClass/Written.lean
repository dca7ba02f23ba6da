import DesignTokens.Finding.UtilityClass
import DesignTokens.Proofs.Source.Literal

/-!
# Written classes

The classes in a text are read from the left: the run of the characters of a prefix
is kept up to a bracket, and the bracket is closed behind its value. Every class that
is read stands in the source, prefix, bracket and value behind each other.
-/

namespace DesignTokens
namespace UtilityClass

open Source (HasAt)

/-!
## Reading classes
-/

section Reading

variable {run t : Text} {offset : Nat} {c : Char}

def extendRun (run : Text) (c : Char) : Text :=
  if isLeadChar c then c :: run else []

theorem writtenFrom_nil (run : Text) (offset : Nat) : writtenFrom run offset [] = [] := by
  rw [writtenFrom]

theorem writtenFrom_plain (hexpression : ¬ (c = '$' ∧ t.head? = some '{')) (hc : c ≠ '[') :
    writtenFrom run offset (c :: t) = writtenFrom (extendRun run c) (offset + 1) t := by
  rw [writtenFrom, if_neg hexpression, if_neg hc]
  rfl

theorem writtenFrom_bracket {close : Nat}
    (h : Scan.closing 0 ']' [] (offset + 1) t = .ok (some close)) :
    writtenFrom run offset ('[' :: t) =
      ⟨run.reverse, offset, t.take (close - offset - 1)⟩ ::
        writtenFrom [] (close + 1) (t.drop (close - offset)) := by
  have hexpression : ¬ ('[' = '$' ∧ t.head? = some '{') := fun hbegin =>
    absurd hbegin.1 (by decide)
  rw [writtenFrom, if_neg hexpression, if_pos rfl, h]
  rfl

theorem foldl_extendRun_lead (h : ∀ c ∈ t, isLeadChar c = true) :
    t.foldl extendRun run = t.reverse ++ run := by
  induction t generalizing run with
  | nil => rfl
  | cons c t ih =>
      have hc : extendRun run c = c :: run := if_pos (h c List.mem_cons_self)
      rw [List.foldl_cons, hc, ih fun d hd => h d (List.mem_cons_of_mem c hd)]
      simp

theorem foldl_extendRun_concat (h : isLeadChar c = false) :
    (t ++ [c]).foldl extendRun run = [] := by
  rw [List.foldl_append, List.foldl_cons, List.foldl_nil, extendRun, h]
  rfl

end Reading

/-!
## Where classes stand
-/

/-- A class stands in a source: its prefix directly before its bracket, and its value behind it. -/
structure Written.StandsIn (source : Text) (w : Written) : Prop where
  lead : ∀ c ∈ w.lead, isLeadChar c = true
  le : w.lead.length ≤ w.bracket
  hasAt : HasAt source (w.bracket - w.lead.length) w.text

theorem standsIn_of_closing {source run t : Text} {offset close : Nat}
    (hrun : ∀ c ∈ run, isLeadChar c = true) (hle : run.length ≤ offset)
    (hat : HasAt source (offset - run.length) (run.reverse ++ '[' :: t))
    (hclose : Scan.closing 0 ']' [] (offset + 1) t = .ok (some close)) :
    Written.StandsIn source ⟨run.reverse, offset, t.take (close - offset - 1)⟩ := by
  rcases Scan.closing_spec hclose with ⟨hlt, hchar⟩
  have hlast : close - (offset + 1) = close - offset - 1 := by omega
  rw [hlast] at hchar
  have hvalue : t.take (close - offset - 1) ++ [']'] = t.take (close - offset - 1 + 1) := by
    rw [List.take_add_one, hchar]
    rfl
  have htext : Written.text ⟨run.reverse, offset, t.take (close - offset - 1)⟩ =
      run.reverse ++ '[' :: t.take (close - offset - 1 + 1) := by
    rw [← hvalue]
    simp [Written.text]
  constructor
  · intro c hc
    exact hrun c (List.mem_reverse.mp hc)
  · rw [List.length_reverse]
    exact hle
  · rw [List.length_reverse, htext]
    apply hat.ofPrefix
    rw [List.prefix_append_right_inj, List.prefix_cons_inj]
    exact List.take_prefix _ t

def StartsRun (source : Text) (offset : Nat) : Prop :=
  ∀ c, Window.charBefore? source offset = some c → isLeadChar c = false

/--
The run is the reversed text directly before an offset. It begins at `first` or behind a
character that belongs to no prefix.
-/
structure IsRun (source : Text) (first : Nat) (run : Text) (offset : Nat) (t : Text) : Prop where
  lead : ∀ c ∈ run, isLeadChar c = true
  le : run.length ≤ offset
  hasAt : HasAt source (offset - run.length) (run.reverse ++ t)
  starts : offset - run.length = first ∨ StartsRun source (offset - run.length)

section Run

variable {source run t : Text} {first offset : Nat} {c d : Char}

theorem startsRun_succ (hc : source[offset]? = some c) (h : isLeadChar c = false) :
    StartsRun source (offset + 1) := by
  intro d hd
  change source[offset]? = some d at hd
  rw [hc, Option.some.injEq] at hd
  rw [← hd]
  exact h

theorem isRun_nil (h : HasAt source offset t) : IsRun source offset [] offset t :=
  ⟨fun _ hc => absurd hc List.not_mem_nil, Nat.zero_le _, h, .inl rfl⟩

theorem IsRun.behind (h : IsRun source first run offset t) : HasAt source offset t := by
  have hright := h.hasAt.right
  rw [List.length_reverse, Nat.sub_add_cancel h.le] at hright
  exact hright

theorem IsRun.extend (h : IsRun source first run offset (c :: t)) (hc : isLeadChar c = true) :
    IsRun source first (c :: run) (offset + 1) t where
  lead := List.forall_mem_cons.mpr ⟨hc, h.lead⟩
  le := Nat.succ_le_succ h.le
  hasAt := by
    have htext : (c :: run).reverse ++ t = run.reverse ++ c :: t := by simp
    rw [htext, List.length_cons, Nat.add_sub_add_right]
    exact h.hasAt
  starts := by
    rw [List.length_cons, Nat.add_sub_add_right]
    exact h.starts

theorem IsRun.restart {stop : Nat} (h : IsRun source first run offset (c :: t))
    (hle : offset ≤ stop) (hd : (c :: t)[stop - offset]? = some d) (hlead : isLeadChar d = false) :
    IsRun source first [] (stop + 1) (t.drop (stop - offset)) where
  lead := fun _ hc => absurd hc List.not_mem_nil
  le := Nat.zero_le _
  hasAt := by
    have hdrop := h.behind.drop (stop - offset + 1)
    rw [← Nat.add_assoc, Nat.add_sub_cancel' hle] at hdrop
    exact hdrop
  starts := by
    have hchar := h.behind.getElem?_add hd
    rw [Nat.add_sub_cancel' hle] at hchar
    exact .inr (startsRun_succ hchar hlead)

theorem getElem?_of_closing {closer : Char} {close n : Nat} {u : Text}
    (hu : u = (c :: t).drop n)
    (h : Scan.closing 0 closer [] (offset + n) u = .ok (some close)) :
    offset + n ≤ close ∧ (c :: t)[close - offset]? = some closer := by
  rcases Scan.closing_spec h with ⟨hle, hchar⟩
  have hoffset : n + (close - (offset + n)) = close - offset := by omega
  rw [hu, List.getElem?_drop, hoffset] at hchar
  exact ⟨hle, hchar⟩

/-- The classes that are read stand in the source, with all characters of their prefixes. -/
theorem standsIn_of_mem_writtenFrom (h : IsRun source first run offset t) :
    ∀ w ∈ writtenFrom run offset t, w.StandsIn source ∧
      (w.bracket - w.lead.length = first ∨ StartsRun source (w.bracket - w.lead.length)) := by
  induction run, offset, t using writtenFrom.induct with
  | case1 run offset =>
      rw [writtenFrom_nil]
      exact fun _ hw => absurd hw List.not_mem_nil
  | case2 run offset c t hexpression hclose =>
      rw [writtenFrom, if_pos hexpression, hclose]
      exact fun _ hw => absurd hw List.not_mem_nil
  | case3 run offset c t hexpression close hclose ih =>
      have hread := Scan.eq_ok_of_found hclose
      rcases getElem?_of_closing (c := c) (n := 2) List.drop_one.symm hread with ⟨hle, hchar⟩
      rw [writtenFrom, if_pos hexpression, hclose]
      exact ih (h.restart (by omega) hchar (by decide +kernel))
  | case4 run offset t hclose hexpression ih =>
      rw [writtenFrom, if_neg hexpression, if_pos rfl, hclose]
      have hrest := h.restart (d := '[') (Nat.le_refl offset) (by simp) (by decide +kernel)
      rw [Nat.sub_self, List.drop_zero] at hrest
      exact ih hrest
  | case5 run offset t close hclose hexpression ih =>
      have hread := Scan.eq_ok_of_found hclose
      rcases getElem?_of_closing (c := '[') (n := 1) rfl hread with ⟨hle, hchar⟩
      rw [writtenFrom_bracket hread]
      intro w hw
      rcases List.mem_cons.mp hw with rfl | hw
      · refine ⟨standsIn_of_closing h.lead h.le h.hasAt hread, ?_⟩
        rw [List.length_reverse]
        exact h.starts
      · exact ih (h.restart (by omega) hchar (by decide +kernel)) w hw
  | case6 run offset c t hexpression hc ih =>
      rw [writtenFrom_plain hexpression hc, extendRun]
      by_cases hlead : isLeadChar c = true
      · rw [dif_pos hlead] at ih
        rw [if_pos hlead]
        exact ih (h.extend hlead)
      · rw [dif_neg hlead] at ih
        rw [if_neg hlead]
        have hrest := h.restart (Nat.le_refl offset) (by simp) (Bool.eq_false_iff.mpr hlead)
        rw [Nat.sub_self, List.drop_zero] at hrest
        exact ih hrest

end Run

/-!
## Parentheses in values
-/

/--
The number of open parentheses behind a text, if no parenthesis is closed that is not
open.
-/
def openParens? : (depth : Nat) → Text → Option Nat
  | depth, [] => some depth
  | depth, c :: t =>
      if c = '(' then openParens? (depth + 1) t
      else if c = ')' then
        match depth with
        | 0 => none
        | depth + 1 => openParens? depth t
      else openParens? depth t

end UtilityClass
end DesignTokens
