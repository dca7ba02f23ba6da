import Mathlib.Data.List.Forall2

/-!
# Runs without a fault

A run in steps gives a result exactly if every step gives one. Its faults are those of
its steps.
-/

namespace DesignTokens
namespace Except

variable {ε α β : Type}

theorem bind_eq_ok {x : Except ε α} {f : α → Except ε β} {b : β} :
    (x >>= f) = .ok b ↔ ∃ a, x = .ok a ∧ f a = .ok b := by
  cases x with
  | error e => simp [bind, Except.bind]
  | ok a => simp [bind, Except.bind]

theorem ok_bind (x : α) (f : α → Except ε β) : (.ok x >>= f : Except ε β) = f x :=
  rfl

theorem map_mapError (x : Except ε α) (f : α → β) (g : ε → ε) :
    (x.mapError g).map f = (x.map f).mapError g := by
  cases x with
  | error e => rfl
  | ok a => rfl

/-- If the steps of two runs differ in their faults only, so do the runs. -/
theorem bind_eq_mapError {x x' : Except ε α} {f f' : α → Except ε β} {g : ε → ε}
    (hx : x' = x.mapError g) (hf : ∀ a, f' a = (f a).mapError g) :
    (x' >>= f') = (x >>= f).mapError g := by
  rw [hx]
  cases x with
  | error e => rfl
  | ok a => exact hf a

theorem exists_mapM {P : β → Prop} {f : α → Except ε β} {as : List α}
    (h : ∀ a ∈ as, ∃ b, f a = .ok b ∧ P b) :
    ∃ bs, as.mapM f = .ok bs ∧ bs.length = as.length ∧ ∀ b ∈ bs, P b := by
  induction as with
  | nil => exact ⟨[], rfl, rfl, nofun⟩
  | cons a as ih =>
      rw [List.forall_mem_cons] at h
      rcases h.1 with ⟨b, hb, hp⟩
      rcases ih h.2 with ⟨bs, hbs, hlength, hall⟩
      refine ⟨b :: bs, ?_, congrArg (· + 1) hlength, List.forall_mem_cons.mpr ⟨hp, hall⟩⟩
      rw [List.mapM_cons, hb, ok_bind, hbs]
      rfl

theorem mapM_eq_map {f : α → Except ε β} {g : α → β} {as : List α}
    (h : ∀ a ∈ as, f a = .ok (g a)) : as.mapM f = .ok (as.map g) := by
  induction as with
  | nil => rfl
  | cons a as ih =>
      rw [List.forall_mem_cons] at h
      rw [List.mapM_cons, h.1, ok_bind, ih h.2]
      rfl

theorem mapM_eq_ok_iff {f : α → Except ε β} {as : List α} {bs : List β} :
    as.mapM f = .ok bs ↔ List.Forall₂ (fun a b => f a = .ok b) as bs := by
  induction as generalizing bs with
  | nil =>
      rw [List.forall₂_nil_left_iff, List.mapM_nil]
      exact ⟨fun h => by cases h; rfl, fun h => by rw [h]; rfl⟩
  | cons a as ih =>
      rw [List.mapM_cons, bind_eq_ok, List.forall₂_cons_left_iff]
      constructor
      · rintro ⟨b, hb, h⟩
        rcases bind_eq_ok.mp h with ⟨rest, hrest, h⟩
        cases h
        exact ⟨b, rest, hb, ih.mp hrest, rfl⟩
      · rintro ⟨b, rest, hb, hrest, rfl⟩
        refine ⟨b, hb, ?_⟩
        rw [ih.mpr hrest]
        rfl

theorem exists_mapM_error_iff {f : α → Except ε β} {as : List α} :
    (∃ e, as.mapM f = .error e) ↔ ∃ a ∈ as, ∃ e, f a = .error e := by
  induction as with
  | nil =>
      refine iff_of_false ?_ (fun h => ?_)
      · rintro ⟨e, h⟩
        cases h
      · rcases h with ⟨a, ha, -⟩
        cases ha
  | cons a as ih =>
      rw [List.exists_mem_cons_iff, ← ih, List.mapM_cons]
      cases hstep : f a with
      | error e => exact iff_of_true ⟨e, rfl⟩ (.inl ⟨e, rfl⟩)
      | ok b =>
          rw [ok_bind]
          cases hrest : as.mapM f with
          | error e => exact iff_of_true ⟨e, rfl⟩ (.inr ⟨e, rfl⟩)
          | ok bs =>
              refine iff_of_false ?_ ?_
              · rintro ⟨e, h⟩
                cases h
              · rintro (⟨e, h⟩ | ⟨e, h⟩) <;> cases h

theorem exists_of_mem_mapM {f : α → Except ε β} {as : List α} {bs : List β}
    (h : as.mapM f = .ok bs) : ∀ b ∈ bs, ∃ a ∈ as, f a = .ok b := by
  induction as generalizing bs with
  | nil =>
      cases h
      exact nofun
  | cons a as ih =>
      rw [List.mapM_cons] at h
      rcases bind_eq_ok.mp h with ⟨b, hb, h⟩
      rcases bind_eq_ok.mp h with ⟨rest, hrest, h⟩
      cases h
      intro x hx
      rcases List.mem_cons.mp hx with rfl | hx
      · exact ⟨a, List.mem_cons_self, hb⟩
      · rcases ih hrest x hx with ⟨a', ha', hx⟩
        exact ⟨a', List.mem_cons_of_mem a ha', hx⟩

end Except
end DesignTokens
