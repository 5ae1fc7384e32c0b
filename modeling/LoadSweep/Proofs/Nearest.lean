import Mathlib.Data.Nat.Dist
import LoadSweep.Proofs.Doubles

/-!
# `LoadSweep/Proofs/Nearest.lean` — what rounding to 53 places means

The result of an operation on doubles is one exact quotient, rounded. What that is can be said
without saying how it is computed: of all numbers of 53 binary places, none is nearer to the
quotient (`NearestTo`). Quotients are compared after multiplication with their denominator, so there
are only natural numbers here. Which of two equally near numbers is taken is left open, and what is
derived from `NearestTo` holds either way.

Two facts make such numbers usable. A quotient that already has 53 places is kept
(`NearestTo.exact`). And numbers of 53 places do not stand close: the next one is farther away than
a 2⁵³-th of the greater of the two (`Fits53.gap`), so a quotient that is only a little below one is
rounded to it (`NearestTo.reaches`).
-/

set_option autoImplicit false

namespace LoadSweep.Number

/-! ## The nearest integer -/

/-- No multiple of the denominator is nearer than that of the rounded quotient. -/
theorem dist_roundHalfEven_le {num den : Nat} (h : 0 < den) (k : Nat) :
    num.dist (roundHalfEven num den * den) ≤ num.dist (k * den) := by
  have hnum := Nat.div_add_mod' num den
  have hmod := Nat.mod_lt num h
  -- a multiple stands at the quotient or below it, or at the next one or above it
  have hside : k * den ≤ num / den * den ∨ num / den * den + den ≤ k * den := by
    rcases Nat.lt_or_ge (num / den) k with hlt | hle
    · right
      rw [← Nat.succ_mul]
      exact Nat.mul_le_mul_right den hlt
    · left
      exact Nat.mul_le_mul_right den hle
  have hround : roundHalfEven num den = num / den ∧ 2 * (num % den) ≤ den ∨
      roundHalfEven num den = num / den + 1 ∧ den ≤ 2 * (num % den) := by
    simp only [roundHalfEven]
    split
    · left
      omega
    · split <;> omega
  unfold Nat.dist
  rcases hround with ⟨heq, hhalf⟩ | ⟨heq, hhalf⟩
  · rw [heq]
    omega
  · rw [heq, Nat.succ_mul]
    omega

/-! ## Numbers of 53 places -/

/-- A number that 53 binary places hold, wherever they stand. -/
def Fits53 (u : Nat) : Prop := ∃ m e, m < 2 ^ 53 ∧ u = m * 2 ^ e

namespace Fits53

variable {u v : Nat}

theorem of_lt {m : Nat} (h : m < 2 ^ 53) (e : Nat) : Fits53 (m * 2 ^ e) := ⟨m, e, h, rfl⟩

/-- On the grid of a place, or below the numbers that have all their places above it. -/
theorem grid (h : Fits53 u) (e : Nat) :
    (∃ k, u = k * 2 ^ e) ∨ 0 < e ∧ u < 2 ^ (e + 52) := by
  obtain ⟨m, f, hm, rfl⟩ := h
  rcases Nat.lt_or_ge f e with hlt | hle
  · right
    refine ⟨Nat.zero_lt_of_lt hlt, ?_⟩
    calc m * 2 ^ f < 2 ^ 53 * 2 ^ f := Nat.mul_lt_mul_of_pos_right hm (Nat.two_pow_pos f)
      _ = 2 ^ (53 + f) := (Nat.pow_add 2 53 f).symm
      _ ≤ 2 ^ (e + 52) := Nat.pow_le_pow_right (by decide) (by omega)
  · left
    refine ⟨m * 2 ^ (f - e), ?_⟩
    rw [Nat.mul_assoc, ← Nat.pow_add, Nat.sub_add_cancel hle]

/-- The greater of two is at most 2⁵³ times their distance. -/
theorem gap (hu : Fits53 u) (hv : Fits53 v) (h : u < v) : v ≤ (v - u) * 2 ^ 53 := by
  obtain ⟨m, e, hm, rfl⟩ := hu
  obtain ⟨n, f, hn, rfl⟩ := hv
  rcases Nat.le_total f e with hle | hle
  · -- both stand on the finer grid, that of the greater
    have hgrid : m * 2 ^ e = m * 2 ^ (e - f) * 2 ^ f := by
      rw [Nat.mul_assoc, ← Nat.pow_add, Nat.sub_add_cancel hle]
    rw [hgrid] at h ⊢
    have hlt : m * 2 ^ (e - f) < n := Nat.lt_of_mul_lt_mul_right h
    rw [← Nat.sub_mul]
    calc n * 2 ^ f ≤ 2 ^ 53 * 2 ^ f := Nat.mul_le_mul_right _ (Nat.le_of_lt hn)
      _ ≤ (n - m * 2 ^ (e - f)) * (2 ^ 53 * 2 ^ f) :=
        Nat.le_mul_of_pos_left _ (Nat.sub_pos_of_lt hlt)
      _ = (n - m * 2 ^ (e - f)) * 2 ^ f * 2 ^ 53 := by
        rw [Nat.mul_assoc, Nat.mul_comm (2 ^ f)]
  · -- both stand on the grid of the smaller, which has fewer than 2⁵³ steps below it
    have hgrid : n * 2 ^ f = n * 2 ^ (f - e) * 2 ^ e := by
      rw [Nat.mul_assoc, ← Nat.pow_add, Nat.sub_add_cancel hle]
    rw [hgrid] at h ⊢
    have hlt : m < n * 2 ^ (f - e) := Nat.lt_of_mul_lt_mul_right h
    rw [← Nat.sub_mul, Nat.mul_right_comm _ (2 ^ e)]
    apply Nat.mul_le_mul_right
    generalize n * 2 ^ (f - e) = k at *
    have hspan : 2 ^ 53 = 9007199254740992 := by decide
    rw [hspan] at hm ⊢
    omega

end Fits53

/-! ## The nearest number of 53 places -/

/-- `u` is a number of 53 places, and none of them is nearer to `num / den`. -/
structure NearestTo (num den u : Nat) : Prop where
  fits : Fits53 u
  nearest : ∀ v, Fits53 v → num.dist (u * den) ≤ num.dist (v * den)

namespace NearestTo

variable {x u v k den : Nat}

theorem dist_le (h : NearestTo (x * den) den u) (hden : 0 < den) (hv : Fits53 v) :
    x.dist u ≤ x.dist v := by
  have hle := h.nearest v hv
  rw [Nat.dist_mul_right, Nat.dist_mul_right] at hle
  exact Nat.le_of_mul_le_mul_right hle hden

/-- What has 53 places is its own nearest number. -/
theorem exact (h : NearestTo (x * den) den u) (hden : 0 < den) (hx : Fits53 x) : u = x := by
  have hzero := h.dist_le hden hx
  rw [Nat.dist_self, Nat.le_zero] at hzero
  exact (Nat.eq_of_dist_eq_zero hzero).symm

/-- A number of 53 places is reached from a little below, nearer than half the way to the next. -/
theorem reaches (h : NearestTo (x * den) den u) (hden : 0 < den) (hk : Fits53 k)
    (hclose : (k - x) * 2 ^ 54 < k) : k ≤ u := by
  have hnear := h.dist_le hden hk
  by_contra hbelow
  have hgap := h.fits.gap hk (Nat.lt_of_not_le hbelow)
  have hspan : 2 ^ 53 = 9007199254740992 ∧ 2 ^ 54 = 2 * 9007199254740992 := by decide
  rw [hspan.1] at hgap
  rw [hspan.2] at hclose
  unfold Nat.dist at hnear
  omega

/-- What is farther away on one side than a number of 53 places on the other is not reached. -/
theorem stays (h : NearestTo (x * den) den u) (hden : 0 < den) (hv : Fits53 v) (hbelow : v ≤ x)
    (hfar : 2 * x < v + k) : u < k := by
  have hnear := h.dist_le hden hv
  unfold Nat.dist at hnear
  omega

end NearestTo

namespace Double

/-- **Rounding gives a nearest number of 53 places.** -/
theorem nearest_nearestTo {num den : Nat} (h : 0 < den) : NearestTo num den (nearest num den) := by
  have hle := nearest_le num den
  have hlost := @lastPlace_le (num / den)
  rw [nearest_eq] at hle ⊢
  generalize lastPlace (num / den) = e at *
  have hstep : 0 < den * 2 ^ e := Nat.mul_pos h (Nat.two_pow_pos e)
  generalize hr : roundHalfEven num (den * 2 ^ e) = r at *
  have hmultiple : ∀ k, k * 2 ^ e * den = k * (den * 2 ^ e) := by
    intro k
    rw [Nat.mul_assoc, Nat.mul_comm (2 ^ e)]
  constructor
  · rw [Nat.add_comm, Nat.pow_add] at hle
    rcases Nat.lt_or_eq_of_le (Nat.le_of_mul_le_mul_right hle (Nat.two_pow_pos e)) with hlt | heq
    · exact .of_lt hlt e
    · -- rounded up past 53 ones
      refine ⟨2 ^ 52, e + 1, by decide, ?_⟩
      rw [heq, ← Nat.pow_add, ← Nat.pow_add]
      congr 1
      omega
  · intro v hv
    have hgrid : ∀ k, num.dist (r * 2 ^ e * den) ≤ num.dist (k * 2 ^ e * den) := by
      intro k
      rw [hmultiple, hmultiple, ← hr]
      exact dist_roundHalfEven_le hstep k
    rcases hv.grid e with ⟨k, rfl⟩ | ⟨hpos, hbelow⟩
    · exact hgrid k
    · -- the least number with all its places is below the quotient and nearer than `v`
      have hleast : v * den ≤ 2 ^ 52 * 2 ^ e * den := by
        apply Nat.mul_le_mul_right
        rw [← Nat.pow_add, Nat.add_comm]
        exact Nat.le_of_lt hbelow
      have hnum : 2 ^ 52 * 2 ^ e * den ≤ num := by
        rw [← Nat.pow_add, Nat.add_comm]
        exact (Nat.le_div_iff_mul_le h).mp (hlost hpos)
      refine Nat.le_trans (hgrid (2 ^ 52)) ?_
      rw [Nat.dist_eq_sub_of_le_right hnum, Nat.dist_eq_sub_of_le_right (hleast.trans hnum)]
      exact Nat.sub_le_sub_left hleast num

theorem nearestTo_of_ofFraction {num den u : Nat} (hden : 0 < den)
    (h : ofFraction num den = .finite false u) : NearestTo (num * unitsPerOne) den u := by
  simp only [ofFraction, ofUnits] at h
  split at h
  · obtain ⟨-, rfl⟩ := Double.finite.inj h
    exact nearest_nearestTo hden
  · exact absurd h (by simp)

theorem toCounter_finite (bits u : Nat) :
    (finite false u).toCounter bits = min (u / unitsPerOne) (2 ^ bits - 1) := rfl

/-- A product of values without a sign is their exact product, rounded, unless it is too large. -/
theorem mul_nearest {a b : Nat} (h : nearest (a * b) unitsPerOne < limit) :
    ∃ u, (finite false a).mul (finite false b) = .finite false u ∧
      NearestTo (a * b) unitsPerOne u := by
  refine ⟨nearest (a * b) unitsPerOne, ?_, nearest_nearestTo unitsPerOne_pos⟩
  simp only [mul, bne_self_eq_false, ofUnits, if_pos h]

/-- A count of up to 53 places is converted exactly. -/
theorem ofNat_eq {n : Nat} (h : n < 2 ^ 53) : ofNat n = .finite false (n * unitsPerOne) := by
  have hfits : Fits53 (n * unitsPerOne) := ⟨n, 1074, h, congrArg (n * ·) unitsPerOne_eq⟩
  have hnear : NearestTo (n * unitsPerOne * 1) 1 (nearest (n * unitsPerOne) 1) := by
    rw [Nat.mul_one]
    exact nearest_nearestTo Nat.one_pos
  have hexact : nearest (n * unitsPerOne) 1 = n * unitsPerOne := hnear.exact Nat.one_pos hfits
  have hlimit : n * unitsPerOne < limit := by
    calc n * unitsPerOne < 2 ^ 53 * unitsPerOne :=
          Nat.mul_lt_mul_of_pos_right h unitsPerOne_pos
      _ ≤ limit := by decide +kernel
  show ofUnits false (n * unitsPerOne) 1 = _
  unfold ofUnits
  dsimp only
  rw [hexact, if_pos hlimit]

end Double

end LoadSweep.Number
