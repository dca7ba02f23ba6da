import DesignTokens.Table
import Mathlib.Data.List.Induction

/-!
# Tables of last values

A table that is filled entry by entry holds every name at the place of its first
entry with the value of its last one. Names and values together determine a
table.
-/

namespace DesignTokens
namespace Table

variable {α : Type}

/-- The names of entries in the order of their first entries, with the values of their last ones. -/
def lastValues (entries : List (Text × α)) : Table α :=
  (entries.map (·.1)).eraseDups.filterMap fun name =>
    (get? name entries.reverse).map fun a => (name, a)

theorem get?_eq_none_iff (name : Text) (t : Table α) : get? name t = none ↔ name ∉ t.names := by
  induction t with
  | nil => simp [get?, names]
  | cons entry t ih =>
      rcases entry with ⟨n, a⟩
      by_cases h : n = name
      · simp [get?, names, h]
      · simp [get?, names, h, Ne.symm h, ih] at ih ⊢

theorem mem_of_get? {name : Text} {a : α} {t : Table α} (h : get? name t = some a) :
    (name, a) ∈ t := by
  induction t with
  | nil => simp [get?] at h
  | cons entry t ih =>
      rcases entry with ⟨n, b⟩
      by_cases hn : n = name
      · simp only [get?, hn, if_true, Option.some.injEq] at h
        simp [hn, h]
      · simp only [get?, hn, if_false] at h
        exact List.mem_cons_of_mem _ (ih h)

theorem get?_of_mem {name : Text} {a : α} {t : Table α} (hnames : t.names.Nodup)
    (h : (name, a) ∈ t) : get? name t = some a := by
  induction t with
  | nil => cases h
  | cons entry t ih =>
      rcases entry with ⟨n, b⟩
      rcases List.nodup_cons.mp hnames with ⟨hnot, hrest⟩
      rcases List.mem_cons.mp h with heq | htail
      · cases heq
        simp [get?]
      · have hne : n ≠ name := by
          rintro rfl
          exact hnot (List.mem_map.mpr ⟨_, htail, rfl⟩)
        rw [get?, if_neg hne]
        exact ih hrest htail

theorem ext_of_nodup {s t : Table α} (hnames : s.names = t.names) (hs : s.names.Nodup)
    (hget : ∀ name, get? name s = get? name t) : s = t := by
  induction s generalizing t with
  | nil =>
      cases t with
      | nil => rfl
      | cons entry t => simp [names] at hnames
  | cons entry s ih =>
      cases t with
      | nil => simp [names] at hnames
      | cons other t =>
          rcases entry with ⟨n, a⟩
          rcases other with ⟨m, b⟩
          simp only [names, List.map_cons, List.cons.injEq] at hnames
          rcases hnames with ⟨rfl, hrest⟩
          have hab : a = b := by
            have h := hget n
            simpa [get?] using h
          have hnot : n ∉ names s := (List.nodup_cons.mp hs).1
          have htail : s = t := by
            apply ih hrest (List.nodup_cons.mp hs).2
            intro name
            by_cases h : n = name
            · subst h
              rw [(get?_eq_none_iff n s).mpr hnot, eq_comm, get?_eq_none_iff]
              rw [show names t = names s from hrest.symm]
              exact hnot
            · have hn := hget name
              simpa [get?, h] using hn
          rw [hab, htail]

theorem mem_of_mem_lastValues {entry : Text × α} {entries : List (Text × α)}
    (h : entry ∈ lastValues entries) : entry ∈ entries := by
  unfold lastValues at h
  rcases List.mem_filterMap.mp h with ⟨name, _, hname⟩
  rcases Option.map_eq_some_iff.mp hname with ⟨a, ha, rfl⟩
  exact List.mem_reverse.mp (mem_of_get? ha)

/-!
## Editing a table
-/

/-- A change of the value under a name; under a new name `fresh` is changed. -/
structure Edit (α : Type) where
  name : Text
  fresh : α
  apply : α → α

def edited (edits : List (Edit α)) : Table α :=
  edits.foldl (fun t e => t.change e.name e.fresh e.apply) []

def editedValue? (edits : List (Edit α)) : Option α :=
  edits.foldl (fun a e => some (e.apply (a.getD e.fresh))) none

theorem edited_append_singleton (edits : List (Edit α)) (e : Edit α) :
    edited (edits ++ [e]) = (edited edits).change e.name e.fresh e.apply := by
  simp [edited]

theorem editedValue?_cons (e : Edit α) (edits : List (Edit α)) :
    editedValue? (e :: edits) = some (edits.foldl (fun a e => e.apply a) (e.apply e.fresh)) := by
  have hsome : ∀ a : α, edits.foldl (fun a e => some (e.apply (a.getD e.fresh))) (some a) =
      some (edits.foldl (fun a e => e.apply a) a) := by
    induction edits with
    | nil => intro a; rfl
    | cons e edits ih => intro a; exact ih (e.apply a)
  exact hsome (e.apply e.fresh)

theorem eraseDups_append_singleton (ns : List Text) (n : Text) :
    (ns ++ [n]).eraseDups = if n ∈ ns then ns.eraseDups else ns.eraseDups ++ [n] := by
  rw [List.eraseDups_append]
  by_cases h : n ∈ ns
  · simp [h, List.removeAll]
  · simp [h, List.removeAll, List.eraseDups_cons]

theorem nodup_eraseDups (ns : List Text) : ns.eraseDups.Nodup := by
  induction ns using List.reverseRecOn with
  | nil => simp
  | append_singleton ns n ih =>
      rw [eraseDups_append_singleton]
      split
      · exact ih
      · rename_i h
        rw [List.nodup_append]
        refine ⟨ih, by simp, ?_⟩
        intro m hm k hk hmk
        rw [List.mem_singleton.mp hk] at hmk
        rw [hmk, List.mem_eraseDups] at hm
        exact h hm

theorem names_edited (edits : List (Edit α)) :
    (edited edits).names = (edits.map (·.name)).eraseDups := by
  induction edits using List.reverseRecOn with
  | nil => rfl
  | append_singleton edits e ih =>
      rw [edited_append_singleton, names_change, ih, List.map_append, List.map_singleton,
        eraseDups_append_singleton]
      simp only [List.mem_eraseDups]

theorem get?_edited (name : Text) (edits : List (Edit α)) :
    get? name (edited edits) = editedValue? (edits.filter fun e => e.name = name) := by
  induction edits using List.reverseRecOn with
  | nil => rfl
  | append_singleton edits e ih =>
      rw [edited_append_singleton, get?_change, List.filter_append]
      by_cases h : e.name = name
      · subst h
        simp [ih, editedValue?]
      · simp [h, Ne.symm h, ih]

theorem get?_filterMap (f : Text → Option α) (name : Text) (ns : List Text) :
    get? name (ns.filterMap fun n => (f n).map fun a => (n, a)) =
      if name ∈ ns then f name else none := by
  induction ns with
  | nil => simp [get?]
  | cons n ns ih =>
      by_cases h : n = name
      · subst h
        cases hf : f n with
        | none => simp [hf, ih]
        | some a => simp [hf, get?]
      · cases hf : f n with
        | none => simp [hf, ih, Ne.symm h]
        | some a => simp [hf, get?, h, ih, Ne.symm h]

theorem names_filterMap (f : Text → Option α) (ns : List Text)
    (h : ∀ n ∈ ns, (f n).isSome = true) :
    names (ns.filterMap fun n => (f n).map fun a => (n, a)) = ns := by
  induction ns with
  | nil => rfl
  | cons n ns ih =>
      rcases Option.isSome_iff_exists.mp (h n List.mem_cons_self) with ⟨a, ha⟩
      have htail := ih fun m hm => h m (List.mem_cons_of_mem n hm)
      simpa [ha, names] using htail

theorem names_lastValues (entries : List (Text × α)) :
    (lastValues entries).names = (entries.map (·.1)).eraseDups := by
  unfold lastValues
  apply names_filterMap
  intro n hn
  rw [List.mem_eraseDups] at hn
  rw [Option.isSome_iff_ne_none, ne_eq, get?_eq_none_iff]
  simpa [names] using hn

/-- A table of edits holds every name at the place of its first edit. -/
theorem edited_eq (edits : List (Edit α)) :
    edited edits =
      (edits.map (·.name)).eraseDups.filterMap fun name =>
        (editedValue? (edits.filter fun e => e.name = name)).map fun a => (name, a) := by
  have hsome : ∀ name ∈ (edits.map (·.name)).eraseDups,
      (editedValue? (edits.filter fun e => e.name = name)).isSome = true := by
    intro name hname
    rw [← get?_edited, Option.isSome_iff_ne_none, ne_eq, get?_eq_none_iff, names_edited]
    exact fun hnot => hnot hname
  apply ext_of_nodup
  · rw [names_edited, names_filterMap _ _ hsome]
  · rw [names_edited]
    exact nodup_eraseDups _
  · intro name
    rw [get?_filterMap, get?_edited]
    split
    · rfl
    · rename_i hnot
      rw [← get?_edited, get?_eq_none_iff, names_edited]
      exact hnot

/-!
## Last values
-/

theorem get?_lastValues (name : Text) (entries : List (Text × α)) :
    get? name (lastValues entries) = get? name entries.reverse := by
  unfold lastValues
  rw [get?_filterMap]
  split
  · rfl
  · rename_i hname
    rw [List.mem_eraseDups] at hname
    rw [eq_comm, get?_eq_none_iff, names, List.map_reverse, List.mem_reverse]
    exact hname

theorem get?_filter (name : Text) (t : Table α) :
    get? name (t.filter fun entry => entry.1 = name) = get? name t := by
  induction t with
  | nil => rfl
  | cons entry t ih =>
      rcases entry with ⟨n, a⟩
      by_cases h : n = name
      · simp [get?, h]
      · simp [get?, h, ih]

theorem get?_lastValues_congr {name : Text} {entries others : List (Text × α)}
    (h : (entries.filter fun entry => entry.1 = name) = others.filter fun entry => entry.1 = name) :
    get? name (lastValues entries) = get? name (lastValues others) := by
  rw [get?_lastValues, get?_lastValues, ← get?_filter, ← get?_filter name others.reverse,
    List.filter_reverse, List.filter_reverse, h]

theorem get?_append (name : Text) (s t : Table α) :
    get? name (s ++ t) = (get? name s).or (get? name t) := by
  induction s with
  | nil => rfl
  | cons entry s ih =>
      rcases entry with ⟨n, a⟩
      by_cases h : n = name
      · simp [get?, h]
      · simp [get?, h, ih]

/-- An entry does not matter to other names, nor to its own one if that has an entry behind it. -/
theorem get?_lastValues_entry {n name : Text} {before after : List (Text × α)} (a b : α)
    (h : n = name → name ∈ after.map (·.1)) :
    get? name (lastValues (before ++ (n, a) :: after)) =
      get? name (lastValues (before ++ (n, b) :: after)) := by
  have hlast : ∀ a : α, get? name (lastValues (before ++ (n, a) :: after)) =
      (get? name after.reverse).or (get? name ((n, a) :: before.reverse)) := by
    intro a
    rw [get?_lastValues, ← get?_append]
    simp
  rw [hlast, hlast]
  by_cases hn : n = name
  · have hsome : get? name after.reverse ≠ none := by
      rw [ne_eq, get?_eq_none_iff, names, List.map_reverse, List.mem_reverse]
      exact fun hnot => hnot (h hn)
    rcases Option.ne_none_iff_exists'.mp hsome with ⟨c, hc⟩
    rw [hc]
    rfl
  · rw [get?, get?, if_neg hn, if_neg hn]

theorem eraseDups_filter (p : Text → Bool) (ns : List Text) :
    (ns.filter p).eraseDups = ns.eraseDups.filter p := by
  induction ns using List.reverseRecOn with
  | nil => rfl
  | append_singleton ns n ih =>
      rw [List.filter_append, eraseDups_append_singleton]
      by_cases hp : p n = true
      · have hkept : [n].filter p = [n] := by simp [hp]
        rw [hkept, eraseDups_append_singleton, ih]
        by_cases hn : n ∈ ns <;> simp [hn, hp]
      · have hdropped : [n].filter p = [] := by simp [hp]
        rw [hdropped, List.append_nil, ih]
        by_cases hn : n ∈ ns <;> simp [hn, hp]

theorem eraseDups_map_eraseDups (f : Text → Text) (ns : List Text) :
    (ns.eraseDups.map f).eraseDups = (ns.map f).eraseDups := by
  induction ns using List.reverseRecOn with
  | nil => rfl
  | append_singleton ns n ih =>
      rw [List.map_append, List.map_singleton, eraseDups_append_singleton,
        eraseDups_append_singleton, ← ih]
      by_cases hn : n ∈ ns
      · rw [if_pos hn, if_pos (List.mem_map_of_mem hn)]
      · rw [if_neg hn, List.map_append, List.map_singleton, eraseDups_append_singleton]
        simp only [List.mem_map, List.mem_eraseDups]

theorem filter_lastValues (p : Text → Bool) (entries : List (Text × α)) :
    (lastValues entries).filter (fun entry => p entry.1) =
      lastValues (entries.filter fun entry => p entry.1) := by
  have hnames : ∀ t : Table α, names (t.filter fun entry => p entry.1) = t.names.filter p := by
    intro t
    unfold names
    rw [List.filter_map]
    rfl
  have hget : ∀ (name : Text) (t : Table α), get? name (t.filter fun entry => p entry.1) =
      if p name = true then get? name t else none := by
    intro name t
    rw [← get?_filter, List.filter_filter]
    split
    · rename_i hname
      rw [← get?_filter name t]
      congr 1
      refine List.filter_congr fun entry _ => ?_
      by_cases h : entry.1 = name <;> simp [h, hname]
    · rename_i hname
      rw [get?_eq_none_iff]
      intro hmem
      rcases List.mem_map.mp hmem with ⟨entry, hentry, hentryname⟩
      have hboth := (List.mem_filter.mp hentry).2
      simp only [hentryname, decide_true, Bool.true_and] at hboth
      exact hname hboth
  apply ext_of_nodup
  · rw [hnames, names_lastValues, names_lastValues, ← eraseDups_filter, List.filter_map]
    rfl
  · rw [hnames, names_lastValues]
    exact (nodup_eraseDups _).filter _
  · intro name
    rw [hget, get?_lastValues, get?_lastValues, ← List.filter_reverse, hget]

/-- The name that comes up last, with its last value. -/
def newest? (entries : List (Text × α)) : Option (Text × α) :=
  (lastValues entries).getLast?

theorem name_newest? (entries : List (Text × α)) :
    (newest? entries).map (·.1) = (entries.map (·.1)).eraseDups.getLast? := by
  rw [← names_lastValues, names, List.getLast?_map]
  rfl

/-- The name that comes up last has the last entry if that is an entry under it. -/
theorem newest?_eq_getLast?_iff {entries : List (Text × α)} {last : Text × α}
    (hlast : entries.getLast? = some last) :
    newest? entries = some last ↔ (entries.map (·.1)).eraseDups.getLast? = some last.1 := by
  rw [← name_newest?]
  refine ⟨fun h => by rw [h]; rfl, fun h => ?_⟩
  rcases Option.map_eq_some_iff.mp h with ⟨newest, hnewest, hname⟩
  have hvalue : get? newest.1 (lastValues entries) = some newest.2 := by
    apply get?_of_mem
    · rw [names_lastValues]
      exact nodup_eraseDups _
    · exact List.mem_of_getLast? hnewest
  rw [get?_lastValues] at hvalue
  rcases List.head?_eq_some_iff.mp (List.head?_reverse.trans hlast) with ⟨before, hreverse⟩
  rw [hreverse, hname, get?, if_pos rfl] at hvalue
  rw [hnewest, Option.some.injEq]
  exact Prod.ext hname (Option.some.inj hvalue).symm

/-!
## Filling a table
-/

def fill (entries : List (Text × α)) : Table α :=
  entries.foldl (fun t entry => t.put entry.1 entry.2) []

def putting (entry : Text × α) : Edit α :=
  ⟨entry.1, entry.2, fun _ => entry.2⟩

theorem editedValue?_putting (name : Text) (entries : List (Text × α)) :
    editedValue? ((entries.map putting).filter fun e => e.name = name) =
      get? name entries.reverse := by
  induction entries using List.reverseRecOn with
  | nil => rfl
  | append_singleton entries entry ih =>
      rcases entry with ⟨n, a⟩
      rw [List.map_append, List.filter_append, List.reverse_append]
      by_cases h : n = name
      · simp [editedValue?, putting, get?, h]
      · simpa [editedValue?, putting, get?, h] using ih

theorem fill_eq (entries : List (Text × α)) : fill entries = lastValues entries := by
  have hfill : fill entries = edited (entries.map putting) := by
    unfold fill edited
    rw [List.foldl_map]
    rfl
  rw [hfill, edited_eq, lastValues, List.map_map]
  simp only [editedValue?_putting]
  rfl

end Table
end DesignTokens
