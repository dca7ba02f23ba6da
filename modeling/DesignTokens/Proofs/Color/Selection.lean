import DesignTokens.Proofs.Color.Canonical
import DesignTokens.Proofs.Color.Nearness

/-!
# The nearest color

For channels from 0 to 255 the sum of the squares under the root is exact, the roots of
different sums are apart by more than the division by the diagonal can blur, and equal
sums have equal distances. So the computed distances are ordered like the squared
distances of the channels, and the search for the least one finds the first color at the
least squared distance.
-/

namespace DesignTokens

open Binary
open Color (IsFinite)

namespace Rgb

/-!
## Squared distances
-/

def squaredDistance (c d : Rgb) : Int :=
  (c.r - d.r) ^ 2 + (c.g - d.g) ^ 2 + (c.b - d.b) ^ 2

def point (c : Rgb) : Point :=
  (nearestInt c.r, nearestInt c.g, nearestInt c.b)

def squareSum (p q : Point) : Float :=
  (p.1 - q.1) * (p.1 - q.1) + (p.2.1 - q.2.1) * (p.2.1 - q.2.1) +
    (p.2.2 - q.2.2) * (p.2.2 - q.2.2)

theorem separation_eq (p q : Point) : separation p q = (squareSum p q).sqrt / diagonal :=
  rfl

theorem coordinates?_eq {c : Rgb} (h : c.IsInCube) : c.coordinates? = .ok c.point := by
  have hchannel : ∀ {n : Int}, 0 ≤ n ∧ n ≤ 255 → floatOfInt? n = .ok (nearestInt n) := by
    intro n hn
    have hdigits : |n| ≤ 2 ^ 53 := by
      rw [abs_of_nonneg hn.1]
      omega
    exact (floatOfInt?_eq (intCast_lt_limit hdigits)).1
  unfold coordinates?
  rw [hchannel h.r, hchannel h.g, hchannel h.b]
  rfl

theorem square_le {m n : Int} (hm : 0 ≤ m ∧ m ≤ 255) (hn : 0 ≤ n ∧ n ≤ 255) :
    (m - n) ^ 2 ≤ 255 ^ 2 := by
  apply sq_le_sq'
  · omega
  · omega

theorem denotes_square {m n : Int} (hm : 0 ≤ m ∧ m ≤ 255) (hn : 0 ≤ n ∧ n ≤ 255) :
    Denotes ((nearestInt m - nearestInt n) * (nearestInt m - nearestInt n))
      ((m - n) ^ 2 : Int) := by
  have hdigits : ∀ {k : Int}, 0 ≤ k ∧ k ≤ 255 → |k| ≤ 2 ^ 53 := by
    intro k hk
    rw [abs_of_nonneg hk.1]
    omega
  have hdifference : |m - n| ≤ 2 ^ 53 := by
    rw [abs_le]
    omega
  have hsquare : |(m - n) * (m - n)| ≤ 2 ^ 53 := by
    have hle := square_le hm hn
    rw [abs_of_nonneg (mul_self_nonneg _), ← sq]
    omega
  have hside := (denotes_nearestInt (hdigits hm)).sub_intCast (denotes_nearestInt (hdigits hn))
    hdifference
  rw [sq]
  exact hside.mul_intCast hside hsquare

section Cube

variable {c d e : Rgb}

theorem squaredDistance_nonneg (c d : Rgb) : 0 ≤ squaredDistance c d := by
  unfold squaredDistance
  positivity

theorem squaredDistance_le (hc : c.IsInCube) (hd : d.IsInCube) :
    squaredDistance c d ≤ 195075 := by
  have hr := square_le hc.r hd.r
  have hg := square_le hc.g hd.g
  have hb := square_le hc.b hd.b
  unfold squaredDistance
  omega

theorem squaredDistance_lt (hc : c.IsInCube) (hd : d.IsInCube) :
    squaredDistance c d < 2 ^ 18 :=
  (squaredDistance_le hc hd).trans_lt (by decide)

theorem denotes_squareSum (hc : c.IsInCube) (hd : d.IsInCube) :
    Denotes (squareSum c.point d.point) (squaredDistance c d : Int) := by
  have hr := square_le hc.r hd.r
  have hg := square_le hc.g hd.g
  have hb := square_le hc.b hd.b
  have hpair : |(c.r - d.r) ^ 2 + (c.g - d.g) ^ 2| ≤ 2 ^ 53 := by
    rw [abs_of_nonneg (by positivity)]
    omega
  have hall : |(c.r - d.r) ^ 2 + (c.g - d.g) ^ 2 + (c.b - d.b) ^ 2| ≤ 2 ^ 53 := by
    rw [abs_of_nonneg (by positivity)]
    omega
  have hsum := (denotes_square hc.r hd.r).add_intCast (denotes_square hc.g hd.g) hpair
  exact hsum.add_intCast (denotes_square hc.b hd.b) hall

/-!
## Order of distances
-/

/-- A number that a root divided by the diagonal may be rounded to. -/
structure IsShare (r v : ℚ) : Prop where
  nonneg : 0 ≤ r
  le : r ≤ 2 ^ 9
  nearest : IsNearest v (r / (7769992811508829 * 2 ^ (-44 : ℤ)))

theorem diagonal_bounds :
    (2 : ℚ) ^ 8 ≤ 7769992811508829 * 2 ^ (-44 : ℤ) ∧
      (7769992811508829 * 2 ^ (-44 : ℤ) : ℚ) ≤ 2 ^ 9 := by
  norm_num

theorem quotient_le {r : ℚ} (h0 : 0 ≤ r) (h1 : r ≤ 2 ^ 9) :
    |r / (7769992811508829 * 2 ^ (-44 : ℤ))| ≤ 2 ^ 1 := by
  have hbounds := diagonal_bounds
  generalize (7769992811508829 * 2 ^ (-44 : ℤ) : ℚ) = diagonal at hbounds ⊢
  rw [abs_of_nonneg (div_nonneg h0 (by linarith)), div_le_iff₀ (by linarith)]
  linarith

theorem exists_share (hc : c.IsInCube) (hd : d.IsInCube) :
    ∃ r v, IsRoot r (squaredDistance c d : Int) ∧ IsShare r v ∧
      Denotes (separation c.point d.point) v := by
  have hnonneg : (0 : ℚ) ≤ (squaredDistance c d : Int) := by
    exact_mod_cast squaredDistance_nonneg c d
  have hlt : ((squaredDistance c d : Int) : ℚ) < 2 ^ 18 := by
    exact_mod_cast squaredDistance_lt hc hd
  rcases (denotes_squareSum hc hd).sqrt hnonneg with ⟨r, hr, hdenotes⟩
  have hr0 : 0 ≤ r := hr.ge_of_ge (isOnGrid_intCast (n := 0) (by decide)) (by simpa using hnonneg)
  have hr1 : r ≤ 2 ^ 9 := hr.le_of_le (isOnGrid_two_pow 9) (by positivity) (by linarith)
  rcases hdenotes.div denotes_diagonal (by norm_num)
      ((quotient_le hr0 hr1).trans_lt (two_pow_lt_limit (by decide))) with ⟨v, hv, hshare⟩
  exact ⟨r, v, hr, ⟨hr0, hr1, hv⟩, hshare⟩

/-- The division by the diagonal keeps roots apart that are apart by a step. -/
theorem IsShare.lt_of_step_le {r v r' v' : ℚ} (h : IsShare r v) (h' : IsShare r' v')
    (hstep : 1 / 2 ^ 12 ≤ r' - r) : v < v' := by
  have hbounds := diagonal_bounds
  have hv := h.nearest
  have hv' := h'.nearest
  generalize (7769992811508829 * 2 ^ (-44 : ℤ) : ℚ) = diagonal at hbounds hv hv'
  have hpos : 0 < diagonal := by linarith
  have hclose : ∀ {s w : ℚ}, 0 ≤ s → s ≤ 2 ^ 9 → IsNearest w (s / diagonal) →
      |s / diagonal - w| ≤ 1 / 2 ^ 40 := by
    intro s w hs hs' hw
    apply hw.abs_sub_le (by decide)
    rw [abs_of_nonneg (div_nonneg hs hpos.le), div_mul_eq_mul_div, div_le_iff₀ hpos]
    linarith
  have hquotients : 1 / 2 ^ 21 ≤ r' / diagonal - r / diagonal := by
    rw [← sub_div, le_div_iff₀ hpos]
    linarith
  have hbelow := hclose h.nonneg h.le hv
  have habove := hclose h'.nonneg h'.le hv'
  rw [abs_le] at hbelow habove
  linarith

theorem lt_of_squaredDistance_lt {r v r' v' : ℚ} (hc : c.IsInCube) (he : e.IsInCube)
    (hr : IsRoot r (squaredDistance c e : Int)) (hr' : IsRoot r' (squaredDistance d e : Int))
    (hv : IsShare r v) (hv' : IsShare r' v')
    (hlt : squaredDistance c e < squaredDistance d e) : v < v' := by
  have hbound := squaredDistance_lt hc he
  have hnonneg := squaredDistance_nonneg c e
  have hnonneg' := squaredDistance_nonneg d e
  generalize squaredDistance c e = n at *
  generalize squaredDistance d e = n' at *
  lift n to ℕ using hnonneg
  lift n' to ℕ using hnonneg'
  rw [Int.cast_natCast] at hr hr'
  exact hv.lt_of_step_le hv' (hr.step_le_sub hr' (by exact_mod_cast hlt) (by exact_mod_cast hbound))

theorem separation_eq_of_squaredDistance_eq (hc : c.IsInCube) (hd : d.IsInCube)
    (he : e.IsInCube) (heq : squaredDistance c e = squaredDistance d e)
    (hne : squaredDistance c e ≠ 0) :
    separation c.point e.point = separation d.point e.point := by
  have hsum := denotes_squareSum hd he
  rw [← heq] at hsum
  rw [separation_eq, separation_eq,
    (denotes_squareSum hc he).sqrt_eq hsum (by exact_mod_cast hne)]

theorem IsShare.eq_zero {r v : ℚ} (h : IsShare r v) (hr : IsRoot r 0) : v = 0 := by
  have hzero : IsOnGrid 0 := isOnGrid_intCast (n := 0) (by decide)
  have hr0 : r = 0 := le_antisymm (hr.le_of_le hzero le_rfl (by norm_num)) h.nonneg
  have hv := h.nearest
  rw [hr0, zero_div] at hv
  exact hv.eq_of_isOnGrid hzero

/-- Computed distances are ordered like the squared distances of the channels. -/
theorem separation_lt_iff (hc : c.IsInCube) (hd : d.IsInCube) (he : e.IsInCube) :
    separation c.point e.point < separation d.point e.point ↔
      squaredDistance c e < squaredDistance d e := by
  rcases exists_share hc he with ⟨r, v, hr, hv, hdenotes⟩
  rcases exists_share hd he with ⟨r', v', hr', hv', hdenotes'⟩
  rcases lt_trichotomy (squaredDistance c e) (squaredDistance d e) with hlt | heq | hgt
  · rw [hdenotes.lt_iff hdenotes']
    exact iff_of_true (lt_of_squaredDistance_lt hc he hr hr' hv hv' hlt) hlt
  · refine iff_of_false ?_ heq.not_lt
    by_cases hzero : squaredDistance c e = 0
    · rw [← heq, hzero, Int.cast_zero] at hr'
      rw [hzero, Int.cast_zero] at hr
      rw [hdenotes.lt_iff hdenotes', hv.eq_zero hr, hv'.eq_zero hr']
      exact lt_irrefl 0
    · rw [separation_eq_of_squaredDistance_eq hc hd he heq hzero, hdenotes'.lt_iff hdenotes']
      exact lt_irrefl v'
  · rw [hdenotes.lt_iff hdenotes']
    exact iff_of_false (lt_of_squaredDistance_lt hd he hr' hr hv' hv hgt).not_gt hgt.not_gt

theorem distance?_eq (hc : c.IsInCube) (hd : d.IsInCube) :
    c.distance? d = .ok (separation c.point d.point) := by
  unfold distance?
  rw [coordinates?_eq hc, coordinates?_eq hd]
  rfl

theorem within_separation_of_isInCube (hc : c.IsInCube) (hd : d.IsInCube) :
    Within 1 (separation c.point d.point) := by
  rcases exists_share hc hd with ⟨r, v, _, hv, hdenotes⟩
  apply hdenotes.within
  exact hv.nearest.abs_le_of_abs_le (isOnGrid_two_pow 1) (quotient_le hv.nonneg hv.le)

theorem isFinite_confidence_of_distance? {x : Float} (hc : c.IsInCube) (hd : d.IsInCube)
    (hx : c.distance? d = .ok x) : IsFinite (confidence x) := by
  rw [distance?_eq hc hd] at hx
  cases hx
  exact isFinite_confidence ((within_separation_of_isInCube hc hd).mono (by decide))

theorem squaredDistance_eq_zero {t : Text} (hc : c.IsInCube) (hd : d.IsInCube)
    (h : c.hex? = .ok t) (h' : d.hex? = .ok t) : squaredDistance c d = 0 := by
  rcases (Hex.writes_of_hex? h hc).channels_eq (Hex.writes_of_hex? h' hd) with ⟨hr, hg, hb⟩
  unfold squaredDistance
  rw [hr, hg, hb, sub_self, sub_self, sub_self]
  rfl

end Cube

/-!
## The first of the least
-/

theorem eq_nil_of_firstLeast? {xs : List Float} (h : firstLeast? xs = none) : xs = [] := by
  cases xs with
  | nil => rfl
  | cons x xs =>
      unfold firstLeast? at h
      split at h
      · cases h
      · split at h <;> cases h

theorem exists_of_firstLeast? {xs : List Float} (hxs : ∀ x ∈ xs, IsFinite x) {i : Nat} {x : Float}
    (h : firstLeast? xs = some (i, x)) :
    ∃ before after, xs = before ++ x :: after ∧ before.length = i ∧ (∀ y ∈ before, x < y) ∧
      ∀ y ∈ after, ¬ y < x := by
  induction xs generalizing i x with
  | nil => cases h
  | cons y ys ih =>
      rw [List.forall_mem_cons] at hxs
      unfold firstLeast? at h
      split at h
      · rename_i hnone
        cases h
        rw [eq_nil_of_firstLeast? hnone]
        exact ⟨[], [], rfl, rfl, nofun, nofun⟩
      · rename_i j z hleast
        rcases ih hxs.2 hleast with ⟨before, after, rfl, hlength, hbefore, hafter⟩
        split at h
        · rename_i hlt
          cases h
          refine ⟨y :: before, after, rfl, congrArg (· + 1) hlength, ?_, hafter⟩
          exact List.forall_mem_cons.mpr ⟨hlt, hbefore⟩
        · rename_i hge
          cases h
          refine ⟨[], before ++ z :: after, rfl, rfl, nofun, ?_⟩
          -- the head is not above the least of the rest, and that is not above the others
          rcases hxs.1 with ⟨a, ha⟩
          rcases hxs.2 z (by simp) with ⟨b, hb⟩
          rw [hb.lt_iff ha, not_lt] at hge
          intro w hw
          rcases hxs.2 w hw with ⟨c, hc⟩
          have hle : b ≤ c := by
            rw [← not_lt, ← hc.lt_iff hb]
            rcases List.mem_append.mp hw with hw | hw
            · rw [hc.lt_iff hb, not_lt]
              exact ((hb.lt_iff hc).mp (hbefore w hw)).le
            · rcases List.mem_cons.mp hw with rfl | hw
              · rw [hb.lt_iff hb]
                exact lt_irrefl b
              · exact hafter w hw
          rw [hc.lt_iff ha, not_lt]
          exact hge.trans hle

/-- A place in a list whose color is nearest to a color, and nearer than all before it. -/
structure IsFirstNearest {α : Type} (rgb : α → Rgb) (target : Rgb) (before : List α) (x : α)
    (after : List α) : Prop where
  before : ∀ y ∈ before, squaredDistance (rgb x) target < squaredDistance (rgb y) target
  after : ∀ y ∈ after, squaredDistance (rgb x) target ≤ squaredDistance (rgb y) target

theorem IsFirstNearest.le {α : Type} {rgb : α → Rgb} {target : Rgb} {before after : List α} {x : α}
    (h : IsFirstNearest rgb target before x after) {y : α} (hy : y ∈ before ++ x :: after) :
    squaredDistance (rgb x) target ≤ squaredDistance (rgb y) target := by
  rcases List.mem_append.mp hy with hy | hy
  · exact (h.before y hy).le
  · rcases List.mem_cons.mp hy with rfl | hy
    · exact le_rfl
    · exact h.after y hy

theorem closestPoint?_eq {target : Rgb} {points : List Point} (htarget : target.IsInCube)
    (hne : points ≠ []) :
    target.closestPoint? points =
      .ok ((firstLeast? (points.map fun q => separation q target.point)).map fun f =>
        (f.1, confidence f.2)) := by
  cases points with
  | nil => exact absurd rfl hne
  | cons q points =>
      unfold closestPoint?
      rw [coordinates?_eq htarget]
      rfl

/-- The search for the closest color finds the first one at the least squared distance. -/
theorem exists_closest_of_isInCube {α : Type} {rgb : α → Rgb} {target : Rgb} {xs : List α}
    (htarget : target.IsInCube) (hxs : ∀ x ∈ xs, (rgb x).IsInCube) (hne : xs ≠ []) :
    ∃ before x after d, xs = before ++ x :: after ∧ IsFirstNearest rgb target before x after ∧
      (rgb x).distance? target = .ok d ∧
      target.closest? (xs.map rgb) = .ok (some (before.length, confidence d)) := by
  have hpoints : points? (xs.map rgb) = .ok (xs.map fun x => (rgb x).point) := by
    unfold points?
    rw [Except.mapM_eq_map (g := point), List.map_map]
    · rfl
    · intro c hc
      rcases List.mem_map.mp hc with ⟨x, hx, rfl⟩
      exact coordinates?_eq (hxs x hx)
  have hfinite : ∀ y ∈ xs.map fun x => separation (rgb x).point target.point, IsFinite y := by
    intro y hy
    rcases List.mem_map.mp hy with ⟨x, hx, rfl⟩
    exact Color.isFinite_of_within (within_separation_of_isInCube (hxs x hx) htarget)
  cases hleast : firstLeast? (xs.map fun x => separation (rgb x).point target.point) with
  | none => exact absurd (List.map_eq_nil_iff.mp (eq_nil_of_firstLeast? hleast)) hne
  | some found =>
      rcases found with ⟨i, y⟩
      rcases exists_of_firstLeast? hfinite hleast with
        ⟨lower, upper, hsplit, hlength, hlower, hupper⟩
      rcases List.map_eq_append_iff.mp hsplit with ⟨before, rest, rfl, rfl, hrest⟩
      rcases List.map_eq_cons_iff.mp hrest with ⟨x, after, rfl, rfl, rfl⟩
      have hx : (rgb x).IsInCube := hxs x (by simp)
      refine ⟨before, x, after, _, rfl, ⟨?_, ?_⟩, distance?_eq hx htarget, ?_⟩
      · intro z hz
        have hlt := hlower _ (List.mem_map.mpr ⟨z, hz, rfl⟩)
        exact (separation_lt_iff hx (hxs z (by simp [hz])) htarget).mp hlt
      · intro z hz
        have hge := hupper _ (List.mem_map.mpr ⟨z, hz, rfl⟩)
        rwa [separation_lt_iff (hxs z (by simp [hz])) hx htarget, not_lt] at hge
      · rw [List.length_map] at hlength
        unfold closest?
        rw [hpoints, Except.ok_bind, closestPoint?_eq htarget (by simp), List.map_map]
        change Except.ok ((firstLeast? (List.map (fun x => separation (rgb x).point target.point)
          (before ++ x :: after))).map _) = _
        rw [hleast, ← hlength]
        rfl

end Rgb
end DesignTokens
