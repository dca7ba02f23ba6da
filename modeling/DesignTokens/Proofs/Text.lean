import DesignTokens.Text.Blank
import Mathlib.Data.List.TakeWhile

/-!
# Texts between blanks

Blanks at the ends of a text do not change what stripping leaves of it. Texts are
joined by a glue behind each of them but the last one. The fields of a text are the
words that were written between separators.
-/

namespace DesignTokens
namespace Text

theorem isBlank_space : ∀ c ∈ [' '], isBlank c = true :=
  List.all_eq_true.mp (by decide)

theorem isBlank_of_graphic {c : Char} (h : 0x21 ≤ c.toNat ∧ c.toNat ≤ 0x7E) :
    isBlank c = false := by
  simp only [isBlank, isWhiteSpace, Bool.or_eq_false_iff, Bool.and_eq_false_iff,
    decide_eq_false_iff_not]
  omega

theorem graphic_of_isAlphanum {c : Char} (h : c.isAlphanum = true) :
    0x21 ≤ c.toNat ∧ c.toNat ≤ 0x7E := by
  unfold Char.isAlphanum Char.isAlpha Char.isUpper Char.isLower Char.isDigit at h
  simp only [Bool.or_eq_true, Bool.and_eq_true, decide_eq_true_eq, UInt32.le_iff_toNat_le] at h
  rcases h with (h | h) | h
  · exact ⟨Nat.le_trans (by decide) h.1, h.2.trans (by decide)⟩
  · exact ⟨Nat.le_trans (by decide) h.1, h.2.trans (by decide)⟩
  · exact ⟨Nat.le_trans (by decide) h.1, h.2.trans (by decide)⟩

section Stop

variable {p : Char → Bool} {t u : Text}

theorem takeWhile_append_of_stop (ht : ∀ c ∈ t, p c = true) (hu : ∀ c ∈ u.head?, p c = false) :
    (t ++ u).takeWhile p = t := by
  rw [List.takeWhile_append_of_pos ht]
  cases u with
  | nil => exact List.append_nil t
  | cons c u => rw [List.takeWhile_cons_of_neg (by simp [hu c rfl]), List.append_nil]

theorem dropWhile_append_of_stop (ht : ∀ c ∈ t, p c = true) (hu : ∀ c ∈ u.head?, p c = false) :
    (t ++ u).dropWhile p = u := by
  rw [List.dropWhile_append_of_pos ht]
  cases u with
  | nil => rfl
  | cons c u => rw [List.dropWhile_cons_of_neg (by simp [hu c rfl])]

end Stop

theorem stripLeft_append_of_blank {before : Text} (t : Text)
    (h : ∀ c ∈ before, isBlank c = true) :
    stripLeft (before ++ t) = stripLeft t :=
  List.dropWhile_append_of_pos h

theorem stripRight_append_of_blank {after : Text} (t : Text)
    (h : ∀ c ∈ after, isBlank c = true) :
    stripRight (t ++ after) = stripRight t := by
  have hr : ∀ c ∈ after.reverse, isBlank c = true := by
    intro c hc
    exact h c (List.mem_reverse.mp hc)
  unfold stripRight
  rw [List.reverse_append, List.dropWhile_append_of_pos hr]

theorem strip_pad {before after : Text} (t : Text)
    (hb : ∀ c ∈ before, isBlank c = true) (ha : ∀ c ∈ after, isBlank c = true) :
    strip (before ++ t ++ after) = strip t := by
  unfold strip
  rw [List.append_assoc, stripLeft_append_of_blank (t ++ after) hb]
  unfold stripLeft
  rw [List.dropWhile_append]
  split
  · rename_i hempty
    rw [List.isEmpty_iff.mp hempty, List.dropWhile_eq_nil_iff.mpr ha]
  · exact stripRight_append_of_blank (t.dropWhile isBlank) ha

theorem exists_pad (t : Text) :
    ∃ before after : Text, (∀ c ∈ before, isBlank c = true) ∧ (∀ c ∈ after, isBlank c = true) ∧
      t = before ++ strip t ++ after := by
  refine ⟨t.takeWhile isBlank, ((stripLeft t).reverse.takeWhile isBlank).reverse, ?_, ?_, ?_⟩
  · intro c hc
    exact List.mem_takeWhile_imp hc
  · intro c hc
    exact List.mem_takeWhile_imp (List.mem_reverse.mp hc)
  · have hright : strip t ++ ((stripLeft t).reverse.takeWhile isBlank).reverse = stripLeft t := by
      unfold strip stripRight
      rw [← List.reverse_append, List.takeWhile_append_dropWhile, List.reverse_reverse]
    rw [List.append_assoc, hright]
    exact List.takeWhile_append_dropWhile.symm

theorem mem_of_mem_strip {t : Text} {c : Char} (hc : c ∈ strip t) : c ∈ t := by
  rcases exists_pad t with ⟨before, after, -, -, ht⟩
  rw [ht]
  exact List.mem_append_left _ (List.mem_append_right _ hc)

theorem strip_ne_nil {t : Text} {c : Char} (hc : c ∈ t) (hblank : isBlank c = false) :
    strip t ≠ [] := by
  rcases exists_pad t with ⟨before, after, hbefore, hafter, ht⟩
  intro hnil
  rw [ht, hnil, List.append_nil, List.mem_append] at hc
  rcases hc with hc | hc
  · rw [hbefore c hc] at hblank
    cases hblank
  · rw [hafter c hc] at hblank
    cases hblank

theorem strip_of_ends {t : Text} (hhead : ∀ c ∈ t.head?, isBlank c = false)
    (hlast : ∀ c ∈ t.getLast?, isBlank c = false) : strip t = t := by
  have hleft : stripLeft t = t := dropWhile_append_of_stop (t := []) nofun hhead
  rw [← List.head?_reverse] at hlast
  have hright : t.reverse.dropWhile isBlank = t.reverse :=
    dropWhile_append_of_stop (t := []) nofun hlast
  rw [strip, hleft, stripRight, hright, List.reverse_reverse]

theorem strip_eq_self {t : Text} (h : ∀ c ∈ t, isBlank c = false) : strip t = t :=
  strip_of_ends (fun c hc => h c (List.mem_of_mem_head? hc))
    fun c hc => h c (List.mem_of_getLast? hc)

/-- What blanks before and behind a text do not change holds of it also without them. -/
theorem strip_iff {P : Text → Prop} (hcons : ∀ c t, isBlank c = true → (P (c :: t) ↔ P t))
    (hconcat : ∀ t c, isBlank c = true → (P (t ++ [c]) ↔ P t)) (t : Text) :
    P (strip t) ↔ P t := by
  have hbefore : ∀ (before u : Text), (∀ c ∈ before, isBlank c = true) →
      (P (before ++ u) ↔ P u) := by
    intro before u h
    induction before with
    | nil => exact Iff.rfl
    | cons c before ih =>
        rw [List.forall_mem_cons] at h
        exact (hcons c _ h.1).trans (ih h.2)
  have hafter : ∀ (u after : Text), (∀ c ∈ after, isBlank c = true) →
      (P (u ++ after) ↔ P u) := by
    intro u after h
    induction after generalizing u with
    | nil => rw [List.append_nil]
    | cons c after ih =>
        rw [List.forall_mem_cons] at h
        rw [List.append_cons]
        exact (ih (u ++ [c]) h.2).trans (hconcat u c h.1)
  rcases exists_pad t with ⟨before, after, hb, ha, ht⟩
  have hpad := (hafter (before ++ strip t) after ha).trans (hbefore before (strip t) hb)
  rw [← ht] at hpad
  exact hpad.symm

theorem strip_strip (t : Text) : strip (strip t) = strip t := by
  rcases exists_pad t with ⟨before, after, hb, ha, ht⟩
  have h := strip_pad (strip t) hb ha
  rw [← ht] at h
  exact h.symm

theorem isBlank_of_getLast?_strip {t : Text} {c : Char} (hc : c ∈ (strip t).getLast?) :
    isBlank c = false := by
  unfold strip stripRight at hc
  rw [List.getLast?_reverse] at hc
  have hstop := List.head?_dropWhile_not isBlank (stripLeft t).reverse
  rw [Option.mem_def.mp hc] at hstop
  exact hstop

theorem removeLead_cases (lead t : Text) :
    removeLead lead t = t ∨ t = lead ++ removeLead lead t := by
  unfold removeLead
  cases hafter : after? lead t with
  | none => exact .inl rfl
  | some rest => exact .inr (after?_eq_some_iff.mp hafter)

theorem join_cons {c : Char} {t : Text} {ts : List Text} (h : ts ≠ []) :
    join [c] (t :: ts) = t ++ c :: join [c] ts := by
  rw [join.eq_3 _ _ _ h, List.append_assoc, List.singleton_append]

theorem join_append_of_ne_nil (glue : Text) (ts : List Text) {us : List Text} (h : us ≠ []) :
    join glue (ts ++ us) = ts.flatMap (· ++ glue) ++ join glue us := by
  induction ts with
  | nil => rfl
  | cons t ts ih =>
      rw [List.cons_append, join.eq_3 _ _ _ (List.append_ne_nil_of_right_ne_nil ts h), ih,
        List.flatMap_cons, List.append_assoc (t ++ glue)]

theorem join_concat (glue : Text) (ts : List Text) (t : Text) :
    join glue (ts ++ [t]) = ts.flatMap (· ++ glue) ++ t :=
  join_append_of_ne_nil glue ts (List.cons_ne_nil t [])

/-- The end of the glue can be put in front of all texts but the first one. -/
theorem join_append (glue glue' t : Text) (ts : List Text) :
    join (glue ++ glue') (t :: ts) = join glue (t :: ts.map (glue' ++ ·)) := by
  induction ts generalizing t with
  | nil => rfl
  | cons u ts ih =>
      have hlead : join glue ((glue' ++ u) :: ts.map (glue' ++ ·)) =
          glue' ++ join glue (u :: ts.map (glue' ++ ·)) := by
        cases ts with
        | nil => rfl
        | cons v ts => simp [join]
      rw [List.map_cons, join.eq_3 _ _ _ (List.cons_ne_nil u ts), ih,
        join.eq_3 _ _ _ (List.cons_ne_nil _ _), hlead]
      simp

theorem has_iff {part t : Text} : has part t = true ↔ part <:+: t := by
  unfold has
  induction t with
  | nil => by_cases h : part = [] <;> simp [cut?, h]
  | cons c t ih =>
      rw [List.infix_cons_iff, ← ih]
      cases hafter : after? part (c :: t) with
      | none =>
          have hprefix : ¬ part <+: c :: t := by
            rintro ⟨rest, hrest⟩
            rw [after?_eq_some_iff.mpr hrest.symm] at hafter
            cases hafter
          simp only [cut?, hafter, Option.isSome_map, hprefix, false_or]
      | some rest =>
          have hprefix : part <+: c :: t := ⟨rest, (after?_eq_some_iff.mp hafter).symm⟩
          simp only [cut?, hafter, Option.isSome_some, hprefix, true_or]

theorem before?_eq_none {tail t : Text} {c : Char} (hc : c ∈ tail) (h : c ∉ t) :
    before? tail t = none := by
  rw [Option.eq_none_iff_forall_ne_some]
  intro before hbefore
  rcases Option.map_eq_some_iff.mp hbefore with ⟨rest, hrest, _⟩
  have hreverse := after?_eq_some_iff.mp hrest
  apply h
  rw [← List.mem_reverse, hreverse]
  exact List.mem_append_left _ (List.mem_reverse.mpr hc)

theorem before?_append (t tail : Text) : before? tail (t ++ tail) = some t := by
  have hafter : after? tail.reverse (t ++ tail).reverse = some t.reverse := by
    rw [after?_eq_some_iff, List.reverse_append]
  rw [before?, hafter, Option.map_some, List.reverse_reverse]

theorem eq_append_of_before? {t tail before : Text} (h : before? tail t = some before) :
    t = before ++ tail := by
  rcases Option.map_eq_some_iff.mp h with ⟨rest, hrest, rfl⟩
  have hreverse := congrArg List.reverse (after?_eq_some_iff.mp hrest)
  rwa [List.reverse_reverse, List.reverse_append, List.reverse_reverse] at hreverse

theorem filter_strip (t : Text) :
    (strip t).filter (fun c => !isBlank c) = t.filter (fun c => !isBlank c) := by
  have hnone : ∀ {s : Text}, (∀ c ∈ s, isBlank c = true) →
      s.filter (fun c => !isBlank c) = [] := by
    intro s hs
    rw [List.filter_eq_nil_iff]
    intro c hc
    simp [hs c hc]
  rcases exists_pad t with ⟨before, after, hb, ha, ht⟩
  have h := congrArg (List.filter fun c => !isBlank c) ht
  rw [List.filter_append, List.filter_append, hnone hb, hnone ha] at h
  simpa using h.symm

/-!
## Fields
-/

section Fields

variable {separates : Char → Bool}

theorem fields_of_separates {lead : Text} (t : Text) (h : ∀ c ∈ lead, separates c = true) :
    fields separates (lead ++ t) = fields separates t := by
  induction lead with
  | nil => rfl
  | cons c lead ih =>
      rw [List.forall_mem_cons] at h
      rw [← ih h.2]
      unfold fields
      rw [List.cons_append, segments, if_pos h.1]
      rfl

theorem segments_append {word t first : Text} {others : List Text}
    (hword : ∀ c ∈ word, separates c = false) (ht : segments separates t = first :: others) :
    segments separates (word ++ t) = (word ++ first) :: others := by
  induction word with
  | nil => exact ht
  | cons c word ih =>
      rw [List.forall_mem_cons] at hword
      rw [List.cons_append, segments, if_neg (by simp [hword.1]), ih hword.2]
      rfl

theorem fields_word {word t : Text} (hne : word ≠ []) (hword : ∀ c ∈ word, separates c = false)
    (ht : ∀ c ∈ t.head?, separates c = true) :
    fields separates (word ++ t) = word :: fields separates t := by
  have hkept : ∀ ws : List Text, (word :: ws).filter (fun s => !s.isEmpty) =
      word :: ws.filter fun s => !s.isEmpty :=
    fun ws => List.filter_cons_of_pos (by simpa using hne)
  cases t with
  | nil =>
      unfold fields
      rw [segments_append hword rfl, List.append_nil, hkept]
      rfl
  | cons c t =>
      have hc := ht c rfl
      have hsegments : segments separates (c :: t) = [] :: segments separates t := by
        rw [segments, if_pos hc]
      unfold fields
      rw [segments_append hword hsegments, hsegments, List.append_nil, hkept]
      rfl

theorem join_segments (separator : Char) (t : Text) :
    join [separator] (segments (· = separator) t) = t := by
  induction t with
  | nil => rfl
  | cons c t ih =>
      have hne := segments_ne_nil (· = separator) t
      by_cases hc : c = separator
      · rw [segments, if_pos (decide_eq_true hc), join_cons hne, ih, hc, List.nil_append]
      · rw [segments, if_neg (by simpa using hc)]
        cases hsegments : segments (· = separator) t with
        | nil => exact absurd hsegments hne
        | cons first rest =>
            rw [hsegments] at ih
            rw [← ih]
            cases rest with
            | nil => rfl
            | cons second rest => rfl

theorem separates_of_mem_segments {t word : Text} (h : word ∈ segments separates t) :
    ∀ c ∈ word, separates c = false := by
  induction t generalizing word with
  | nil =>
      rw [List.mem_singleton.mp h]
      exact nofun
  | cons c t ih =>
      unfold segments at h
      split at h
      · rcases List.mem_cons.mp h with rfl | h
        · exact nofun
        · exact ih h
      · rename_i hc
        rw [Bool.not_eq_true] at hc
        split at h
        · rw [List.mem_singleton.mp h, List.forall_mem_singleton]
          exact hc
        · rename_i first rest hsegments
          rw [hsegments] at ih
          rcases List.mem_cons.mp h with rfl | h
          · exact List.forall_mem_cons.mpr ⟨hc, ih List.mem_cons_self⟩
          · exact ih (List.mem_cons_of_mem _ h)

/--
Words with separators before and behind them are the fields of the text, where each
word but the first has a separator before it.
-/
theorem fields_flatMap {α : Type} (lead word trail : α → Text) (xs : List α) {tail : Text}
    (hlead : ∀ x ∈ xs, ∀ c ∈ lead x, separates c = true)
    (hword : ∀ x ∈ xs, word x ≠ [] ∧ ∀ c ∈ word x, separates c = false)
    (htrail : ∀ x ∈ xs, ∀ c ∈ trail x, separates c = true)
    (hparted : ∀ x ∈ xs.tail, lead x ≠ []) (htail : ∀ c ∈ tail, separates c = true) :
    fields separates (xs.flatMap (fun x => lead x ++ word x ++ trail x) ++ tail) =
      xs.map word := by
  induction xs with
  | nil =>
      have hfields := fields_of_separates [] htail
      rwa [List.append_nil] at hfields
  | cons x xs ih =>
      rw [List.forall_mem_cons] at hlead hword htrail
      have hrest : fields separates
          (xs.flatMap (fun x => lead x ++ word x ++ trail x) ++ tail) = xs.map word :=
        ih hlead.2 hword.2 htrail.2 (fun y hy => hparted y (List.mem_of_mem_tail hy))
      -- a separator ends the word: one of its trail, of the next lead or of the tail
      have hhead : ∀ c ∈ (trail x ++ (xs.flatMap (fun x => lead x ++ word x ++ trail x) ++
          tail)).head?, separates c = true := by
        intro c hc
        cases ht : trail x with
        | cons d ds =>
            rw [ht] at hc
            cases hc
            exact htrail.1 c (ht ▸ List.mem_cons_self)
        | nil =>
            rw [ht, List.nil_append] at hc
            cases xs with
            | nil => exact htail c (List.mem_of_mem_head? hc)
            | cons y ys =>
                cases hl : lead y with
                | nil => exact absurd hl (hparted y List.mem_cons_self)
                | cons d ds =>
                    rw [List.flatMap_cons, hl] at hc
                    cases hc
                    exact hlead.2 y List.mem_cons_self c (hl ▸ List.mem_cons_self)
      rw [List.flatMap_cons, List.append_assoc, List.append_assoc, List.append_assoc,
        fields_of_separates _ hlead.1, fields_word hword.1.1 hword.1.2 hhead,
        fields_of_separates _ htrail.1, hrest, List.map_cons]

end Fields

end Text
end DesignTokens
