import DesignTokens.Proofs.Text
import DesignTokens.Source.Window
import Mathlib.Data.List.Infix

/-!
# Windows in their source

A text stands at an offset of a source if the source goes on with it there. Parts
of such a text stand at the offsets that their lengths give, and so do the texts
of windows that are cut out of other windows.
-/

namespace DesignTokens
namespace Source

def HasAt (source : Text) (offset : Nat) (t : Text) : Prop :=
  t <+: source.drop offset

section HasAt

variable {source t u : Text} {offset : Nat}

theorem HasAt.left (h : HasAt source offset (t ++ u)) : HasAt source offset t :=
  (List.prefix_append t u).trans h

theorem HasAt.right (h : HasAt source offset (t ++ u)) : HasAt source (offset + t.length) u := by
  have hdrop := List.IsPrefix.drop h t.length
  rw [List.drop_left, List.drop_drop] at hdrop
  exact hdrop

theorem HasAt.tail {c : Char} (h : HasAt source offset (c :: t)) : HasAt source (offset + 1) t :=
  h.right (t := [c])

theorem HasAt.drop (h : HasAt source offset t) (n : Nat) :
    HasAt source (offset + n) (t.drop n) := by
  have hdrop := List.IsPrefix.drop h n
  rw [List.drop_drop] at hdrop
  exact hdrop

theorem HasAt.dropTo {c : Char} {n : Nat} (h : HasAt source offset (c :: t)) (hn : offset < n) :
    HasAt source n (t.drop (n - offset - 1)) := by
  have hrest := h.tail.drop (n - offset - 1)
  rw [Nat.sub_sub, Nat.add_sub_cancel' hn] at hrest
  exact hrest

theorem HasAt.ofPrefix (h : HasAt source offset t) (hu : u <+: t) : HasAt source offset u :=
  hu.trans h

theorem HasAt.slice (h : HasAt source offset t) :
    Text.slice source offset (offset + t.length) = t := by
  rcases h with ⟨rest, hrest⟩
  rw [Text.slice, ← hrest, Nat.add_sub_cancel_left, List.take_left]

theorem HasAt.le_length (h : HasAt source offset t) (ht : t ≠ []) :
    offset + t.length ≤ source.length := by
  have hlength := List.IsPrefix.length_le h
  have hpos := List.length_pos_iff.mpr ht
  rw [List.length_drop] at hlength
  omega

theorem HasAt.getElem? {c : Char} (h : HasAt source offset (c :: t)) :
    source[offset]? = some c := by
  rcases h with ⟨rest, hrest⟩
  have hchar := congrArg (·[0]?) hrest
  rw [List.getElem?_drop] at hchar
  exact hchar.symm

theorem HasAt.getElem?_add {c : Char} {n : Nat} (h : HasAt source offset t) (hn : t[n]? = some c) :
    source[offset + n]? = some c := by
  rcases h with ⟨rest, hrest⟩
  rcases List.getElem?_eq_some_iff.mp hn with ⟨hlt, -⟩
  rw [← List.getElem?_drop, ← hrest, List.getElem?_append_left hlt, hn]

theorem hasAt_drop (source : Text) (offset n : Nat) :
    HasAt source offset ((source.drop offset).take n) :=
  List.take_prefix n _

end HasAt
end Source

namespace Text

theorem stripRight_prefix (t : Text) : stripRight t <+: t := by
  refine ⟨(t.reverse.takeWhile isBlank).reverse, ?_⟩
  rw [stripRight, ← List.reverse_append, List.takeWhile_append_dropWhile, List.reverse_reverse]

theorem drop_blanks (t : Text) : t.drop (t.takeWhile isBlank).length = stripLeft t := by
  have hdrop := @List.drop_left _ (t.takeWhile isBlank) (t.dropWhile isBlank)
  rw [List.takeWhile_append_dropWhile] at hdrop
  exact hdrop

theorem strip_of_not_blank {t : Text} {c d : Char} (hc : isBlank c = false)
    (hd : isBlank d = false) : strip (c :: (t ++ [d])) = c :: (t ++ [d]) := by
  have hleft : stripLeft (c :: (t ++ [d])) = c :: (t ++ [d]) := by
    simp [stripLeft, hc]
  have hright : stripRight (c :: (t ++ [d])) = c :: (t ++ [d]) := by
    simp [stripRight, hd]
  rw [strip, hleft, hright]

theorem stripRight_cons {t : Text} {c : Char} (hc : isBlank c = false) :
    stripRight (c :: t) = c :: stripRight t := by
  unfold stripRight
  rw [List.reverse_cons, List.dropWhile_append]
  split
  · rename_i hempty
    rw [List.isEmpty_iff.mp hempty]
    simp [hc]
  · simp

end Text

namespace Window

@[simp] theorem drop_text (w : Window) (n : Nat) : (w.drop n).text = w.text.drop n := by
  cases n <;> rfl

@[simp] theorem drop_start (w : Window) (n : Nat) : (w.drop n).start = w.start + n := by
  cases n <;> rfl

@[simp] theorem take_text (w : Window) (n : Nat) : (w.take n).text = w.text.take n := rfl

@[simp] theorem take_start (w : Window) (n : Nat) : (w.take n).start = w.start := rfl

theorem skipBlanks_text (w : Window) : w.skipBlanks.text = Text.stripLeft w.text := by
  rw [skipBlanks, drop_text, Text.drop_blanks]

theorem strip_text (w : Window) : w.strip.text = Text.strip w.text := by
  unfold strip
  rw [take_text, skipBlanks_text, ← List.prefix_iff_eq_take.mp (Text.stripRight_prefix _)]
  rfl

theorem strip_start (w : Window) :
    w.strip.start = w.start + (w.text.takeWhile Text.isBlank).length := by
  unfold strip
  rw [take_start, skipBlanks, drop_start]

theorem skipBlanks_eq_self {w : Window} {c : Char} (h : w.text.head? = some c)
    (hc : Text.isBlank c = false) : w.skipBlanks = w := by
  rcases List.head?_eq_some_iff.mp h with ⟨rest, hrest⟩
  have hlength : (w.text.takeWhile Text.isBlank).length = 0 := by
    rw [hrest, List.takeWhile_cons_of_neg (by simp [hc])]
    rfl
  rw [skipBlanks, hlength]
  rfl

def IsIn (source : Text) (w : Window) : Prop :=
  Source.HasAt source w.start w.text

theorem IsIn.drop {source : Text} {w : Window} (h : w.IsIn source) (n : Nat) :
    (w.drop n).IsIn source := by
  unfold IsIn
  rw [drop_text, drop_start]
  exact Source.HasAt.drop h n

theorem IsIn.take {source : Text} {w : Window} (h : w.IsIn source) (n : Nat) :
    (w.take n).IsIn source :=
  Source.HasAt.ofPrefix h (List.take_prefix n w.text)

theorem between_length_text (source : Text) (start : Nat) :
    (between source start source.length).text = source.drop start := by
  rw [between, Text.slice]
  apply List.take_of_length_le
  rw [List.length_drop]

theorem isIn_between (source : Text) (start stop : Nat) : (between source start stop).IsIn source :=
  Source.hasAt_drop source start (stop - start)

end Window
end DesignTokens
