import DesignTokens.Proofs.Text
import DesignTokens.Text.Reader

/-!
# What readers take

What a reader in sequence takes is put together from what each of its parts takes. A text
that is written as the parts ask for is read again, in front of anything that a part
cannot go on with.
-/

namespace DesignTokens
namespace Reader

/-- Whether every beginning that a reader takes off a text has a property. -/
def Takes (P : Text → Prop) (r : Reader) : Prop :=
  ∀ t rest, r t = some rest → ∃ taken, t = taken ++ rest ∧ P taken

theorem takes_exactly (lead : Text) : Takes (fun x => x = lead) (exactly lead) := by
  intro t rest ht
  exact ⟨lead, Text.after?_eq_some_iff.mp ht, rfl⟩

theorem takes_many (p : Char → Bool) :
    Takes (fun x => ∀ c ∈ x, p c = true) (many p) := by
  intro t rest ht
  cases ht
  exact ⟨t.takeWhile p, List.takeWhile_append_dropWhile.symm, fun c hc => List.mem_takeWhile_imp hc⟩

theorem takes_some1 (p : Char → Bool) :
    Takes (fun x => x ≠ [] ∧ ∀ c ∈ x, p c = true) (some1 p) := by
  intro t rest ht
  cases t with
  | nil => cases ht
  | cons c t =>
      change (if p c then some (t.dropWhile p) else none) = some rest at ht
      split at ht
      · rename_i hc
        rcases takes_many p t rest ht with ⟨taken, htaken, hall⟩
        refine ⟨c :: taken, by rw [htaken, List.cons_append], List.cons_ne_nil c taken, ?_⟩
        exact List.forall_mem_cons.mpr ⟨hc, hall⟩
      · cases ht

theorem Takes.mono {P Q : Text → Prop} {r : Reader} (h : Takes P r) (hle : ∀ x, P x → Q x) :
    Takes Q r := by
  intro t rest ht
  rcases h t rest ht with ⟨taken, htaken, hp⟩
  exact ⟨taken, htaken, hle taken hp⟩

theorem takes_sequence {P Q : Text → Prop} {r : Reader} {rs : List Reader} (hr : Takes P r)
    (hrs : Takes Q (sequence rs)) :
    Takes (fun x => ∃ a b, x = a ++ b ∧ P a ∧ Q b) (sequence (r :: rs)) := by
  intro t rest ht
  rcases Option.bind_eq_some_iff.mp ht with ⟨middle, hmiddle, hrest⟩
  rcases hr t middle hmiddle with ⟨a, rfl, ha⟩
  rcases hrs middle rest hrest with ⟨b, rfl, hb⟩
  exact ⟨a ++ b, (List.append_assoc a b rest).symm, a, b, rfl, ha, hb⟩

theorem sequence_singleton (r : Reader) : sequence [r] = r :=
  funext fun _ => Option.bind_fun_some _

theorem takes_single {P : Text → Prop} {r : Reader} (hr : Takes P r) :
    Takes P (sequence [r]) :=
  (sequence_singleton r).symm ▸ hr

theorem sequence_append (rs rs' : List Reader) (t : Text) :
    sequence (rs ++ rs') t = (sequence rs t).bind (sequence rs') := by
  induction rs generalizing t with
  | nil => rfl
  | cons r rs ih =>
      change (r t).bind (sequence (rs ++ rs')) =
        ((r t).bind (sequence rs)).bind (sequence rs')
      rw [Option.bind_assoc]
      exact Option.bind_congr fun middle _ => ih middle

theorem takes_optional {P : Text → Prop} {r : Reader} (hr : Takes P r) :
    Takes (fun x => x = [] ∨ P x) (optional r) := by
  intro t rest ht
  unfold optional at ht
  cases h : r t with
  | none =>
      rw [h] at ht
      cases ht
      exact ⟨[], rfl, .inl rfl⟩
  | some rest' =>
      rw [h] at ht
      cases ht
      rcases hr t rest' h with ⟨taken, htaken, hp⟩
      exact ⟨taken, htaken, .inr hp⟩

theorem takes_anyOf {P : Text → Prop} {rs : List Reader} (hrs : ∀ r ∈ rs, Takes P r) :
    Takes P (anyOf rs) := by
  intro t rest ht
  rcases List.exists_of_findSome?_eq_some ht with ⟨r, hr, hrest⟩
  exact hrs r hr t rest hrest

/-!
## Reading what was written
-/

theorem sequence_cons {r : Reader} {rs : List Reader} {t u : Text} (h : r t = some u) :
    sequence (r :: rs) t = sequence rs u :=
  congrArg (Option.bind · (sequence rs)) h

theorem optional_of_some {r : Reader} {t u : Text} (h : r t = some u) : optional r t = some u := by
  unfold optional
  rw [h]
  rfl

theorem exactly_append (lead rest : Text) : exactly lead (lead ++ rest) = some rest :=
  Text.after?_eq_some_iff.mpr rfl

section Stop

variable {p : Char → Bool} {t u : Text}

theorem many_append (ht : ∀ c ∈ t, p c = true) (hu : ∀ c ∈ u.head?, p c = false) :
    many p (t ++ u) = some u :=
  congrArg some (Text.dropWhile_append_of_stop ht hu)

theorem some1_append (hne : t ≠ []) (ht : ∀ c ∈ t, p c = true) (hu : ∀ c ∈ u.head?, p c = false) :
    some1 p (t ++ u) = some u := by
  cases t with
  | nil => exact absurd rfl hne
  | cons c t =>
      rw [List.forall_mem_cons] at ht
      change (if p c then some ((t ++ u).dropWhile p) else none) = some u
      rw [if_pos ht.1, Text.dropWhile_append_of_stop ht.2 hu]

end Stop

end Reader
end DesignTokens
