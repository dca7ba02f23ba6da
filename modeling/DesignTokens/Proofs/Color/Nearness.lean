import DesignTokens.Color.Distance
import DesignTokens.Proofs.Color.Computable
import DesignTokens.Proofs.Number.SquareRoot

/-!
# Nearest colors

The distance of colors of moderate size can be computed, and it is a finite float. So
there is a nearest color for every color, and how sure it is can be compared with a
threshold.
-/

namespace DesignTokens

open Binary
open Color (IsFinite)

/-!
## Numbers that are not negative
-/

/-- Whether a float denotes a number from zero to a power of two. -/
def IsMagnitude (n : Nat) (x : Float) : Prop :=
  ∃ a, Denotes x a ∧ 0 ≤ a ∧ a ≤ 2 ^ n

theorem isMagnitude_mul_self {x : Float} {n : Nat} (hx : Within n x) (hn : n ≤ 500) :
    IsMagnitude (n + n) (x * x) := by
  rcases hx with ⟨a, ha, hbound⟩
  have hsquare : |a * a| ≤ 2 ^ (n + n) := by
    rw [abs_mul, pow_add]
    exact mul_le_mul hbound hbound (abs_nonneg a) (by positivity)
  rcases ha.mul ha (hsquare.trans_lt (two_pow_lt_limit (by omega))) with ⟨r, hr, hdenotes⟩
  refine ⟨r, hdenotes, hr.ge_of_ge denotes_zero.isOnGrid (mul_self_nonneg a), ?_⟩
  exact hr.le_of_le (isOnGrid_two_pow _) ((le_abs_self _).trans hsquare)

theorem IsMagnitude.mono {x : Float} {m n : Nat} (hx : IsMagnitude m x) (hle : m ≤ n) :
    IsMagnitude n x := by
  rcases hx with ⟨a, ha, hnonneg, hbound⟩
  exact ⟨a, ha, hnonneg, hbound.trans (pow_le_pow_right₀ (by norm_num) hle)⟩

theorem IsMagnitude.add {x y : Float} {n : Nat} (hx : IsMagnitude n x) (hy : IsMagnitude n y)
    (hn : n < 1000) : IsMagnitude (n + 1) (x + y) := by
  rcases hx with ⟨a, ha, ha0, ha1⟩
  rcases hy with ⟨b, hb, hb0, hb1⟩
  have hsum : a + b ≤ 2 ^ (n + 1) := by
    rw [pow_succ]
    linarith
  have hlimit : |a + b| < limit := by
    rw [abs_of_nonneg (by linarith)]
    exact hsum.trans_lt (two_pow_lt_limit hn)
  rcases ha.add hb hlimit with ⟨r, hr, hdenotes⟩
  exact ⟨r, hdenotes, hr.ge_of_ge denotes_zero.isOnGrid (by linarith),
    hr.le_of_le (isOnGrid_two_pow _) hsum⟩

theorem IsMagnitude.within_sqrt {x : Float} {n : Nat} (hx : IsMagnitude (n + n) x) :
    Within n x.sqrt := by
  rcases hx with ⟨a, ha, hnonneg, hbound⟩
  exact ha.within_sqrt hnonneg (pow_add (2 : ℚ) n n ▸ hbound)

/-!
## Distances
-/

namespace Rgb

theorem exists_coordinates {c : Rgb} (h : c.IsModerate) :
    ∃ p, c.coordinates? = .ok p ∧ ChannelsWithin 100 p := by
  rcases floatOfInt?_of_le h.r (by decide) with ⟨r, hr, hr'⟩
  rcases floatOfInt?_of_le h.g (by decide) with ⟨g, hg, hg'⟩
  rcases floatOfInt?_of_le h.b (by decide) with ⟨b, hb, hb'⟩
  refine ⟨(r, g, b), ?_, ⟨hr', hg', hb'⟩⟩
  unfold coordinates?
  rw [hr, hg, hb]
  rfl

theorem denotes_diagonal : Denotes diagonal (7769992811508829 * 2 ^ (-44 : ℤ)) :=
  denotes_of_parts 7769992811508829 (-44) (by decide +kernel) (by norm_num)

theorem within_separation {p q : Point} (hp : ChannelsWithin 100 p)
    (hq : ChannelsWithin 100 q) : Within 102 (separation p q) := by
  have hr := isMagnitude_mul_self (hp.r.sub hq.r (by decide)) (by decide)
  have hg := isMagnitude_mul_self (hp.g.sub hq.g (by decide)) (by decide)
  have hb := isMagnitude_mul_self (hp.b.sub hq.b (by decide)) (by decide)
  have hsum := (hr.add hg (by decide)).add (hb.mono (Nat.le_succ _)) (by decide)
  exact (hsum.within_sqrt (n := 102)).div denotes_diagonal (by norm_num) (by decide)

theorem isFinite_confidence {distance : Float} (h : Within 102 distance) :
    IsFinite (confidence distance) :=
  Color.isFinite_of_within ((within_one.mono (by decide)).sub h (by decide))

theorem getElem?_of_firstLeast? {xs : List Float} {i : Nat} {x : Float}
    (h : firstLeast? xs = some (i, x)) : xs[i]? = some x := by
  induction xs generalizing i x with
  | nil => cases h
  | cons y ys ih =>
      unfold firstLeast? at h
      split at h
      · cases h
        rfl
      · rename_i j z hleast
        split at h
        · cases h
          exact ih hleast
        · cases h
          rfl

/-- The nearest one of several colors of moderate size is found, with a finite certainty. -/
theorem exists_closest {target : Rgb} {candidates : List Rgb} (htarget : target.IsModerate)
    (hcandidates : ∀ c ∈ candidates, c.IsModerate) :
    ∃ found, target.closest? candidates = .ok found ∧
      ∀ m, found = some m → m.1 < candidates.length ∧ IsFinite m.2 := by
  rcases exists_coordinates htarget with ⟨p, hp, hp'⟩
  rcases Except.exists_mapM (fun c hc => exists_coordinates (hcandidates c hc)) with
    ⟨points, hpoints, hlength, hpoints'⟩
  unfold closest? points?
  rw [hpoints, Except.ok_bind]
  cases points with
  | nil => exact ⟨none, rfl, nofun⟩
  | cons q qs =>
      unfold closestPoint?
      rw [hp]
      refine ⟨_, rfl, ?_⟩
      rintro m hm
      rcases Option.map_eq_some_iff.mp hm with ⟨⟨i, d⟩, hleast, rfl⟩
      have hd := getElem?_of_firstLeast? hleast
      rw [List.getElem?_map] at hd
      rcases Option.map_eq_some_iff.mp hd with ⟨w, hw, rfl⟩
      rcases List.getElem?_eq_some_iff.mp hw with ⟨hi, rfl⟩
      refine ⟨hlength ▸ hi, isFinite_confidence (within_separation ?_ hp')⟩
      exact hpoints' _ (List.getElem_mem hi)

end Rgb
end DesignTokens
