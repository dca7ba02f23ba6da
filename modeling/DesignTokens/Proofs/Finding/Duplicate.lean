import DesignTokens.Proofs.Finding.Order
import DesignTokens.Replacement
import Mathlib.Data.Prod.Lex
import Mathlib.Data.List.Sort

/-!
# Findings at one place

Ordered findings are told by the first finding of each place: ordering does not change
it, and two ordered lists that agree in it are equal. So it does not matter whether the
parts of a list are ordered before the whole is, and the earlier part wins.
-/

namespace DesignTokens
namespace Finding

def place (f : Finding) : Int × Int :=
  (f.location.start, f.location.stop)

def firstAt? (place : Int × Int) (fs : List Finding) : Option Finding :=
  fs.find? fun f => f.place = place

variable {f g : Finding} {fs gs : List Finding} {place : Int × Int}

theorem precedes_iff_lt : f.precedes g = true ↔ toLex f.place < toLex g.place := by
  rw [precedes_iff, Prod.Lex.toLex_lt_toLex]
  rfl

theorem place_ne_of_precedes (h : f.precedes g = true) : f.place ≠ g.place := by
  intro heq
  rw [precedes_iff_lt, heq] at h
  exact lt_irrefl _ h

theorem place_eq_of_not_precedes (hfg : ¬ f.precedes g = true) (hgf : ¬ g.precedes f = true) :
    f.place = g.place := by
  rw [precedes_iff_lt, not_lt] at hfg hgf
  exact toLex_inj.mp (le_antisymm hgf hfg)

/-!
## The first finding of a place
-/

theorem firstAt?_cons (f : Finding) (fs : List Finding) :
    firstAt? place (f :: fs) = if f.place = place then some f else firstAt? place fs := by
  unfold firstAt?
  rw [List.find?_cons]
  by_cases h : f.place = place <;> simp [h]

theorem firstAt?_append (fs gs : List Finding) :
    firstAt? place (fs ++ gs) = (firstAt? place fs).or (firstAt? place gs) :=
  List.find?_append

theorem firstAt?_eq_none (h : ∀ f ∈ fs, f.place ≠ place) : firstAt? place fs = none := by
  refine List.find?_eq_none.mpr ?_
  intro f hf
  rw [decide_eq_true_eq]
  exact h f hf

theorem isSome_firstAt?_iff : (firstAt? place fs).isSome = true ↔ place ∈ fs.map Finding.place := by
  unfold firstAt?
  rw [List.find?_isSome, List.mem_map]
  simp only [decide_eq_true_eq]

theorem mem_of_firstAt? (h : firstAt? place fs = some f) : f ∈ fs :=
  List.mem_of_find?_eq_some h

theorem firstAt?_of_mem (hfs : fs.Pairwise fun f g => f.precedes g = true) (hf : f ∈ fs) :
    firstAt? f.place fs = some f := by
  induction fs with
  | nil => cases hf
  | cons g fs ih =>
      rcases List.pairwise_cons.mp hfs with ⟨hfirst, hrest⟩
      rw [firstAt?_cons]
      rcases List.mem_cons.mp hf with rfl | hf
      · rw [if_pos rfl]
      · rw [if_neg (place_ne_of_precedes (hfirst f hf)), ih hrest hf]

theorem firstAt?_insert (f : Finding) (hgs : gs.Pairwise fun f g => f.precedes g = true) :
    firstAt? place (insert f gs) =
      (firstAt? place gs).or (if f.place = place then some f else none) := by
  induction gs with
  | nil => exact firstAt?_cons f []
  | cons g gs ih =>
      rcases List.pairwise_cons.mp hgs with ⟨hfirst, hrest⟩
      rw [insert]
      split
      · rename_i hbefore
        rw [firstAt?_cons f]
        by_cases hf : f.place = place
        · have hnone : firstAt? place (g :: gs) = none := by
            refine firstAt?_eq_none ?_
            intro k hk
            rw [← hf]
            rcases List.mem_cons.mp hk with rfl | hk
            · exact (place_ne_of_precedes hbefore).symm
            · exact (place_ne_of_precedes (precedes_trans hbefore (hfirst k hk))).symm
          rw [if_pos hf, hnone, Option.none_or, if_pos hf]
        · rw [if_neg hf, if_neg hf, Option.or_none]
      · rename_i hbefore
        split
        · rw [firstAt?_cons, firstAt?_cons, ih hrest]
          by_cases hg : g.place = place
          · rw [if_pos hg, if_pos hg, Option.some_or]
          · rw [if_neg hg, if_neg hg]
        · rename_i hafter
          rw [firstAt?_cons, place_eq_of_not_precedes hbefore hafter]
          by_cases hg : g.place = place
          · rw [if_pos hg, Option.some_or]
          · rw [if_neg hg, if_neg hg, Option.or_none]

theorem firstAt?_foldl_insert (hgs : gs.Pairwise fun f g => f.precedes g = true) :
    firstAt? place (fs.foldl (fun gs f => insert f gs) gs) =
      (firstAt? place gs).or (firstAt? place fs) := by
  induction fs generalizing gs with
  | nil => exact Option.or_none.symm
  | cons f fs ih =>
      rw [List.foldl_cons, ih (pairwise_insert hgs), firstAt?_insert f hgs, Option.or_assoc,
        firstAt?_cons]
      by_cases hf : f.place = place
      · rw [if_pos hf, if_pos hf, Option.some_or]
      · rw [if_neg hf, if_neg hf, Option.none_or]

theorem firstAt?_ordered (place : Int × Int) (fs : List Finding) :
    firstAt? place (ordered fs) = firstAt? place fs :=
  firstAt?_foldl_insert .nil

/-!
## Ordering parts and wholes
-/

/-- Ordered findings are told by the first finding of each place. -/
theorem eq_of_firstAt?_eq (hfs : fs.Pairwise fun f g => f.precedes g = true)
    (hgs : gs.Pairwise fun f g => f.precedes g = true)
    (h : ∀ place, firstAt? place fs = firstAt? place gs) : fs = gs := by
  have hirrefl : Std.Irrefl fun f g : Finding => f.precedes g = true :=
    ⟨fun f hf => place_ne_of_precedes hf rfl⟩
  have hasymm : Std.Antisymm fun f g : Finding => f.precedes g = true :=
    ⟨fun f g hfg hgf => absurd rfl (place_ne_of_precedes (precedes_trans hfg hgf))⟩
  refine hfs.eq_of_mem_iff hgs ?_
  intro f
  constructor
  · intro hf
    have hfirst := firstAt?_of_mem hfs hf
    rw [h] at hfirst
    exact mem_of_firstAt? hfirst
  · intro hf
    have hfirst := firstAt?_of_mem hgs hf
    rw [← h] at hfirst
    exact mem_of_firstAt? hfirst

theorem ordered_congr (h : ∀ place, firstAt? place fs = firstAt? place gs) :
    ordered fs = ordered gs := by
  refine eq_of_firstAt?_eq (pairwise_ordered fs).1 (pairwise_ordered gs).1 ?_
  intro place
  rw [firstAt?_ordered, firstAt?_ordered, h]

/-- Parts of a list may be ordered before the whole is. -/
theorem ordered_flatMap_ordered {α : Type} (found : α → List Finding) (as : List α) :
    ordered (as.flatMap fun a => ordered (found a)) = ordered (as.flatMap found) := by
  refine ordered_congr ?_
  intro place
  induction as with
  | nil => rfl
  | cons a as ih =>
      rw [List.flatMap_cons, List.flatMap_cons, firstAt?_append, firstAt?_append, ih,
        firstAt?_ordered]

theorem ordered_append_ordered (fs gs : List Finding) :
    ordered (ordered fs ++ ordered gs) = ordered (fs ++ gs) := by
  refine ordered_congr ?_
  intro place
  rw [firstAt?_append, firstAt?_append, firstAt?_ordered, firstAt?_ordered]

theorem findings_eq_ordered (finders : List Finder) (source : Text) (options : ScanOptions) :
    Replacement.findings finders source options =
      ordered ((finders.filter fun finder => options.allows finder.scope).flatMap
        fun finder => (finder.report source options).findings) := by
  rw [← ordered_flatMap_ordered]
  unfold Replacement.findings
  congr 1
  induction finders with
  | nil => rfl
  | cons finder finders ih =>
      rw [List.flatMap_cons, ih, Finder.scan, List.filter_cons]
      by_cases hallows : options.allows finder.scope = true
      · rw [if_pos hallows, if_pos hallows, List.flatMap_cons]
      · rw [if_neg hallows, if_neg hallows]
        rfl

/-!
## What ordering does
-/

/--
Ordering sorts findings by their places and keeps the first one of each place. Nothing is
lost if parts are ordered before: the first part wins where both have a finding, and stays
whatever comes behind it. So the findings of several finders are those of all their searches.
-/
theorem ordered_keepsFirst (fs gs : List Finding) :
    ((ordered fs).Pairwise fun f g => toLex f.place < toLex g.place) ∧
      (∀ place, place ∈ (ordered fs).map Finding.place ↔ place ∈ fs.map Finding.place) ∧
      (∀ f ∈ ordered fs, ∃ before after, fs = before ++ f :: after ∧
        ∀ g ∈ before, g.place ≠ f.place) ∧
      ordered (ordered fs ++ ordered gs) = ordered (fs ++ gs) ∧
      (ordered fs).Sublist (ordered (fs ++ gs)) ∧
      ∀ (finders : List Finder) (source : Text) (options : ScanOptions),
        Replacement.findings finders source options =
          ordered ((finders.filter fun finder => options.allows finder.scope).flatMap
            fun finder => (finder.report source options).findings) := by
  have hpairwise := (pairwise_ordered fs).1
  refine ⟨hpairwise.imp precedes_iff_lt.mp, ?_, ?_, ordered_append_ordered fs gs,
    sublist_ordered_append fs gs, ?_⟩
  · intro place
    rw [← isSome_firstAt?_iff, ← isSome_firstAt?_iff, firstAt?_ordered]
  · intro f hf
    have hfirst := firstAt?_of_mem hpairwise hf
    rw [firstAt?_ordered] at hfirst
    rcases List.find?_eq_some_iff_append.mp hfirst with ⟨-, before, after, hsplit, hbefore⟩
    refine ⟨before, after, hsplit, ?_⟩
    intro g hg
    have hother := hbefore g hg
    rwa [Bool.not_eq_true', decide_eq_false_iff_not] at hother
  · exact findings_eq_ordered

def colorAt (value : Text) (start stop : Int) : Finding where
  category := .color
  value := value
  property := "color".toList
  scope := .inlineStyle
  location := ⟨start, stop, 1, 1⟩
  context := none
  path := []
  details := ⟨.color none, false⟩

theorem ordered_keepsFirst_repeatedStretch :
    ∃ fs gs f before after,
      fs = [colorAt "b".toList 5 9, colorAt "a".toList 5 7, colorAt "c".toList 5 9] ∧
        gs = [colorAt "d".toList 5 7, colorAt "e".toList 0 9] ∧
        f.value = "b".toList ∧ f ∈ ordered fs ∧
        (fs = before ++ f :: after ∧ ∀ g ∈ before, g.place ≠ f.place) ∧
        ordered (ordered fs ++ ordered gs) = ordered (fs ++ gs) ∧
        (ordered (fs ++ gs)).map (·.value) = ["e".toList, "a".toList, "b".toList] := by
  have hordered := ordered_keepsFirst
    [colorAt "b".toList 5 9, colorAt "a".toList 5 7, colorAt "c".toList 5 9]
    [colorAt "d".toList 5 7, colorAt "e".toList 0 9]
  have hmem : colorAt "b".toList 5 9 ∈ ordered
      [colorAt "b".toList 5 9, colorAt "a".toList 5 7, colorAt "c".toList 5 9] :=
    List.mem_cons_of_mem _ List.mem_cons_self
  rcases hordered with ⟨-, -, hfirst, happend, -⟩
  rcases hfirst _ hmem with ⟨before, after, hsplit⟩
  exact ⟨_, _, _, before, after, rfl, rfl, rfl, hmem, hsplit, happend, by decide⟩

end Finding
end DesignTokens
