import Mathlib.Algebra.Group.Nat.Defs
import LoadSweep.Number.Double

/-!
# `LoadSweep/Proofs/Doubles.lean` — the order of doubles, and what keeps it

A percentile goes through a clamp, a product, a cut to an integer and a quotient, each rounded on
its own. What makes it monotone all the same is one fact about each of these: **it keeps the order
of its argument**. They are stated here for all values, so the edges are theirs and nobody else's:
a NaN is in no order, the two zeros are equal, past the finite range there is an infinity.

All of it comes down to `nearest`, which rounds one exact quotient. Two quotients with the same last
place keep their order because `roundHalfEven` does. With different last places the power of two at
the leading one of the greater is between them, since rounding never crosses a power of two.
-/

set_option autoImplicit false

namespace LoadSweep.Number.Double

/-! ## Rounding to 53 places -/

theorem unitsPerOne_eq : unitsPerOne = 2 ^ 1074 := by decide +kernel

/-- What has its last place at `e` has at most 53 places … -/
theorem lt_lastPlace (q : Nat) : q < 2 ^ (lastPlace q + 53) := by
  have hlog : q.log2 + 1 ≤ lastPlace q + 53 := by
    simp only [lastPlace]
    omega
  exact Nat.lt_of_lt_of_le Nat.lt_log2_self (Nat.pow_le_pow_right (by decide) hlog)

/-- … and no fewer, if any were lost. -/
theorem lastPlace_le {q : Nat} (h : 0 < lastPlace q) : 2 ^ (lastPlace q + 52) ≤ q := by
  have hlog : q.log2 = lastPlace q + 52 := by
    simp only [lastPlace] at h ⊢
    omega
  rw [← hlog]
  apply Nat.log2_self_le
  rintro rfl
  simp [lastPlace] at h

theorem nearest_eq (num den : Nat) : nearest num den
    = roundHalfEven num (den * 2 ^ lastPlace (num / den)) * 2 ^ lastPlace (num / den) := rfl

/-- A rounded number of units is at most the power of two above its 53 places. -/
theorem nearest_le (num den : Nat) : nearest num den ≤ 2 ^ (lastPlace (num / den) + 53) := by
  have hq := lt_lastPlace (num / den)
  generalize he : lastPlace (num / den) = e at *
  have hlt : num / (den * 2 ^ e) < 2 ^ 53 := by
    rw [← Nat.div_div_eq_div_mul]
    apply Nat.div_lt_of_lt_mul
    rwa [← Nat.pow_add]
  have hr := roundHalfEven_le num (den * 2 ^ e)
  calc nearest num den = roundHalfEven num (den * 2 ^ e) * 2 ^ e := by rw [nearest_eq, he]
    _ ≤ 2 ^ 53 * 2 ^ e := Nat.mul_le_mul_right _ (by omega)
    _ = 2 ^ (e + 53) := by rw [Nat.pow_add, Nat.mul_comm]

/-- A number of units that has lost places is at least the power of two at its leading one. -/
theorem le_nearest {num den : Nat} (h : 0 < lastPlace (num / den)) :
    2 ^ (lastPlace (num / den) + 52) ≤ nearest num den := by
  have hq := lastPlace_le h
  generalize he : lastPlace (num / den) = e at *
  have hle : 2 ^ 52 ≤ num / (den * 2 ^ e) := by
    rwa [← Nat.div_div_eq_div_mul, Nat.le_div_iff_mul_le (Nat.two_pow_pos e), ← Nat.pow_add, Nat.add_comm]
  have hr := div_le_roundHalfEven num (den * 2 ^ e)
  calc 2 ^ (e + 52) = 2 ^ 52 * 2 ^ e := by rw [Nat.pow_add, Nat.mul_comm]
    _ ≤ roundHalfEven num (den * 2 ^ e) * 2 ^ e := Nat.mul_le_mul_right _ (by omega)
    _ = nearest num den := by rw [nearest_eq, he]

theorem nearest_mono {a b : Nat} (den : Nat) (h : a ≤ b) : nearest a den ≤ nearest b den := by
  have hq : a / den ≤ b / den := Nat.div_le_div_right h
  have hlog : (a / den).log2 ≤ (b / den).log2 := by
    by_cases hz : a / den = 0
    · simp [hz]
    · have hb : b / den ≠ 0 := fun hb => hz (Nat.le_zero.mp (hb ▸ hq))
      exact (Nat.le_log2 hb).mpr (Nat.le_trans (Nat.log2_self_le hz) hq)
  have hplace : lastPlace (a / den) ≤ lastPlace (b / den) := Nat.sub_le_sub_right hlog 52
  rcases Nat.eq_or_lt_of_le hplace with same | lower
  · simp only [nearest, same]
    exact Nat.mul_le_mul_right _ (roundHalfEven_mono _ h)
  · calc nearest a den ≤ 2 ^ (lastPlace (a / den) + 53) := nearest_le a den
      _ ≤ 2 ^ (lastPlace (b / den) + 52) := Nat.pow_le_pow_right (by decide) (by omega)
      _ ≤ nearest b den := le_nearest (Nat.zero_lt_of_lt lower)

/-! ## The order -/

/-- The units of a finite value with their sign. -/
def signed (negative : Bool) (units : Nat) : Int := if negative then -units else units

@[simp] theorem signed_false (a : Nat) : signed false a = a := rfl

@[simp] theorem signed_true (a : Nat) : signed true a = -a := rfl

theorem lt_finite (s t : Bool) (a b : Nat) :
    (finite s a).lt (finite t b) = decide (signed s a < signed t b) := by
  cases s with
  | false =>
    cases t with
    | false => exact decide_eq_decide.mpr Int.ofNat_lt.symm
    | true => exact (decide_eq_false (by rw [signed_false, signed_true]; omega)).symm
  | true =>
    cases t with
    | false => exact decide_eq_decide.mpr (by rw [signed_true, signed_false]; omega)
    | true => exact decide_eq_decide.mpr (by rw [signed_true, signed_true]; omega)

/-- `x` is at most `y`, as doubles are compared: a NaN is neither below nor above anything. -/
def Le (x y : Double) : Prop := x ≠ .nan ∧ y ≠ .nan ∧ y.lt x = false

instance (x y : Double) : Decidable (x.Le y) := inferInstanceAs (Decidable (_ ∧ _ ∧ _))

@[simp] theorem finite_le_finite (s t : Bool) (a b : Nat) :
    (finite s a).Le (finite t b) ↔ signed s a ≤ signed t b := by
  simp [Le, lt_finite]

@[simp] theorem finite_le_infinite (s t : Bool) (a : Nat) :
    (finite s a).Le (infinite t) ↔ t = false := by
  cases t <;> simp [Le, lt]

@[simp] theorem infinite_le_finite (s t : Bool) (b : Nat) :
    (infinite s).Le (finite t b) ↔ s = true := by
  cases s <;> simp [Le, lt]

@[simp] theorem infinite_le_infinite (s t : Bool) :
    (infinite s).Le (infinite t) ↔ (t = true → s = true) := by
  cases s <;> cases t <;> simp [Le, lt]

@[simp] theorem not_nan_le (y : Double) : ¬ nan.Le y := fun h => h.1 rfl

@[simp] theorem not_le_nan (x : Double) : ¬ x.Le nan := fun h => h.2.1 rfl

theorem Le.refl {x : Double} (h : x ≠ .nan) : x.Le x := by
  cases x with
  | nan => exact absurd rfl h
  | infinite s => simp
  | finite s a => simp

theorem Le.trans {x y z : Double} (h : x.Le y) (h' : y.Le z) : x.Le z := by
  cases x <;> cases y <;> cases z <;> simp_all
  omega

theorem Le.of_not_lt {x y : Double} (hx : x ≠ .nan) (hy : y ≠ .nan) (h : ¬ y.lt x) : x.Le y :=
  ⟨hx, hy, by simpa using h⟩

theorem Le.not_lt {x y : Double} (h : x.Le y) : ¬ y.lt x := by
  simp [h.2.2]

/-! ## Conversions, and what is without a sign -/

theorem ofUnits_le {a b : Nat} (den : Nat) (h : a ≤ b) :
    (ofUnits false a den).Le (ofUnits false b den) := by
  have hu := nearest_mono den h
  simp only [ofUnits]
  generalize limit = top
  split
  · split
    · simpa [signed] using hu
    · simp
  · rw [if_neg (by omega)]
    simp

theorem ofNat_le {a b : Nat} (h : a ≤ b) : (ofNat a).Le (ofNat b) := by
  unfold ofNat ofFraction
  exact ofUnits_le 1 (Nat.mul_le_mul_right unitsPerOne h)

/-- Rounding keeps the sign, also past the finite range. -/
theorem ofUnits_cases (s : Bool) (num den : Nat) :
    (∃ u, ofUnits s num den = .finite s u) ∨ ofUnits s num den = .infinite s := by
  unfold ofUnits
  dsimp only
  split
  · exact .inl ⟨_, rfl⟩
  · exact .inr rfl

/-- A value without a sign, an infinity included. -/
def Unsigned (x : Double) : Prop := (∃ u, x = .finite false u) ∨ x = .infinite false

theorem unsigned_ofNat (n : Nat) : (ofNat n).Unsigned := by
  unfold ofNat ofFraction
  exact ofUnits_cases false (n * unitsPerOne) 1

theorem ofUnits_zero (s : Bool) (den : Nat) : ofUnits s 0 den = .finite s 0 := by
  have h0 : nearest 0 den = 0 := by simp [nearest, roundHalfEven]
  unfold ofUnits
  dsimp only
  rw [h0, if_pos limit_pos]

theorem ofUnits_le_infinite (num den : Nat) : (ofUnits false num den).Le (.infinite false) := by
  rcases ofUnits_cases false num den with ⟨u, hu⟩ | hu <;> simp [hu]

/-! ## The operations of a percentile -/

/-- Bringing two values into one range keeps their order. -/
theorem clamp_le {x y lo hi : Double} (h : x.Le y) (hr : lo.Le hi) :
    (x.clamp lo hi).Le (y.clamp lo hi) := by
  have hx : x ≠ .nan := h.1
  have hy : y ≠ .nan := h.2.1
  have hlo : lo ≠ .nan := hr.1
  have hhi : hi ≠ .nan := hr.2.1
  unfold clamp
  by_cases hxl : x.lt lo
  · rw [if_pos hxl]
    by_cases hyl : y.lt lo
    · rw [if_pos hyl]
      exact .refl hlo
    · rw [if_neg hyl]
      split
      · exact hr
      · exact .of_not_lt hlo hy hyl
  · rw [if_neg hxl]
    have hlx : lo.Le x := .of_not_lt hlo hx hxl
    rw [if_neg (hlx.trans h).not_lt]
    by_cases hyh : hi.lt y
    · rw [if_pos hyh]
      split
      · exact .refl hhi
      · exact .of_not_lt hx hhi ‹_›
    · have hyh : y.Le hi := .of_not_lt hy hhi hyh
      rw [if_neg hyh.not_lt, if_neg (h.trans hyh).not_lt]
      exact h

theorem toCounter_le {x y : Double} (bits : Nat) (h : x.Le y) :
    x.toCounter bits ≤ y.toCounter bits := by
  cases x with
  | nan => simp at h
  | infinite s =>
    cases y with
    | nan => simp at h
    | infinite t => cases s <;> simp_all [toCounter]
    | finite t b => simp_all [toCounter]
  | finite s a =>
    cases y with
    | nan => simp at h
    | infinite t =>
      obtain rfl : t = false := by simpa using h
      cases s with
      | false => exact Nat.min_le_right _ _
      | true => simp [toCounter]
    | finite t b =>
      cases s with
      | true => simp [toCounter]
      | false =>
        cases t with
        | true =>
          obtain rfl : a = 0 := by simp at h; omega
          simp [toCounter]
        | false =>
          have hab : a / unitsPerOne ≤ b / unitsPerOne := Nat.div_le_div_right (by simpa using h)
          simp only [toCounter, Bool.false_eq_true, if_false]
          omega

theorem toCounter_ofUnits_true (bits num den : Nat) :
    (ofUnits true num den).toCounter bits = 0 := by
  rcases ofUnits_cases true num den with ⟨u, hu⟩ | hu <;> simp [hu, toCounter]

/-- Nothing is counted of a product whose first factor is not above zero. -/
theorem toCounter_mul_of_le_zero {x c : Double} (bits : Nat) (hc : c.Unsigned) (h : x.Le zero) :
    (x.mul c).toCounter bits = 0 := by
  cases x with
  | nan => simp at h
  | infinite s =>
    obtain rfl : s = true := by simpa [zero] using h
    rcases hc with ⟨w, rfl⟩ | rfl
    · by_cases h0 : w = 0 <;> simp [h0, mul, toCounter]
    · simp [mul, toCounter]
  | finite s a =>
    have ha : s = false → a = 0 := by
      rintro rfl
      simpa [zero] using h
    cases s with
    | true =>
      rcases hc with ⟨w, rfl⟩ | rfl
      · simp [mul, toCounter_ofUnits_true]
      · by_cases h0 : a = 0 <;> simp [h0, mul, toCounter]
    | false =>
      obtain rfl := ha rfl
      rcases hc with ⟨w, rfl⟩ | rfl
      · simp [mul, ofUnits_zero, toCounter]
      · simp [mul, toCounter]

/-- Multiplied by a value without a sign and cut to an integer, the greater of two values stays the
greater. The product itself need not: an infinity times zero is a NaN, of which nothing is counted
as of a zero. -/
theorem toCounter_mul_le {x y c : Double} (bits : Nat) (hc : c.Unsigned) (h : x.Le y) :
    (x.mul c).toCounter bits ≤ (y.mul c).toCounter bits := by
  by_cases hx : x.Le zero
  · rw [toCounter_mul_of_le_zero bits hc hx]
    exact Nat.zero_le _
  · cases x with
    | nan => simp at h
    | infinite s =>
      obtain rfl : s = false := by simpa [zero] using hx
      obtain rfl : y = .infinite false := by cases y <;> simp_all
      exact Nat.le_refl _
    | finite s a =>
      obtain ⟨rfl, ha⟩ : s = false ∧ a ≠ 0 := by
        cases s with
        | false => exact ⟨rfl, by rintro rfl; exact hx (.refl (by simp))⟩
        | true => simp [zero] at hx
      cases y with
      | nan => simp at h
      | infinite t =>
        obtain rfl : t = false := by simpa using h
        rcases hc with ⟨w, rfl⟩ | rfl
        · by_cases h0 : w = 0
          · simp [h0, mul, ofUnits_zero, toCounter]
          · apply toCounter_le
            simp [h0, mul, ofUnits_le_infinite]
        · simp [ha, mul]
      | finite t b =>
        obtain ⟨rfl, hab⟩ : t = false ∧ a ≤ b := by
          cases t <;> simp at h <;> simp <;> omega
        rcases hc with ⟨w, rfl⟩ | rfl
        · apply toCounter_le
          simp only [mul, bne_self_eq_false]
          exact ofUnits_le unitsPerOne (Nat.mul_le_mul_right w hab)
        · have hb : b ≠ 0 := by omega
          simp [ha, hb, mul]

/-- Divided by a value above zero, the greater of two values without a sign stays the greater. -/
theorem div_le {x y : Double} {k : Nat} (hx : x.Unsigned) (hk : 0 < k) (h : x.Le y) :
    (x.div (.finite false k)).Le (y.div (.finite false k)) := by
  have hk : k ≠ 0 := by omega
  rcases hx with ⟨a, rfl⟩ | rfl
  · cases y with
    | nan => simp at h
    | infinite t =>
      obtain rfl : t = false := by simpa using h
      simp [div, hk, ofUnits_le_infinite]
    | finite t b =>
      cases t with
      | true =>
        obtain ⟨rfl, rfl⟩ : a = 0 ∧ b = 0 := by simp at h; omega
        simp [div, hk, ofUnits_zero]
      | false =>
        simp only [div, hk, if_false, bne_self_eq_false]
        exact ofUnits_le k (Nat.mul_le_mul_right unitsPerOne (by simpa using h))
  · obtain rfl : y = .infinite false := by cases y <;> simp_all
    simp [div]

end LoadSweep.Number.Double
