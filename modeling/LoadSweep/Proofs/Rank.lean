import LoadSweep.Proofs.Nearest
import LoadSweep.Proofs.Percentile

/-!
# `LoadSweep/Proofs/Rank.lean` — the position of a percentile is the exact one

The position of a percentile is a product of two doubles, cut to an integer. The constants 0.95 and
0.99 are no doubles; what stands for them is a little smaller. So wherever the true product is an
integer, the product of the doubles lies below it, and everything depends on the rounding of that
product: it has to go up. It does, because a constant of 53 places misses its true value by less
than the product's own 53 places can show (`div_of_nearest`). The positions in between are no
concern: there the true product is a hundredth part away from the next integer.
-/

set_option autoImplicit false

namespace LoadSweep

open Number Double

/-! ## The product, cut to an integer -/

/-- The constant stands for `a` hundredths and is `d` times 2⁻⁵³, which is too little by `r`
hundredths of 2⁻⁵³. Whatever number of 53 places is nearest to its product with `m`, the integer
part of it is that of the true product. -/
theorem div_of_nearest {a d r m u : Nat} (hconst : 100 * d + r = a * 2 ^ 53) (hr : 2 * r < a)
    (ha : a ≤ 100) (hm : m < 2 ^ 32)
    (h : NearestTo (d * 2 ^ 1021 * (m * unitsPerOne)) unitsPerOne u) :
    u / unitsPerOne = a * m / 100 := by
  have hone : unitsPerOne = 2 ^ 53 * 2 ^ 1021 := by decide +kernel
  have hpos : 0 < unitsPerOne := unitsPerOne_pos
  -- how far the places of the constant are below one does not matter any more
  generalize 1021 = e at h hone
  have hs : 0 < 2 ^ e := Nat.two_pow_pos e
  have hproduct : d * 2 ^ e * (m * unitsPerOne) = d * m * 2 ^ e * unitsPerOne := by
    rw [← Nat.mul_assoc, Nat.mul_right_comm d]
  rw [hproduct] at h
  -- the three products with `m` are all that matters from here on
  have hx : 100 * (d * m) + r * m = a * m * 2 ^ 53 := by
    rw [← Nat.mul_assoc, ← Nat.add_mul, hconst, Nat.mul_right_comm]
  have hz : 2 * (r * m) + m ≤ a * m := by
    rw [← Nat.mul_assoc, ← Nat.succ_mul]
    exact Nat.mul_le_mul_right m hr
  have hy : a * m ≤ 100 * m := Nat.mul_le_mul_right m ha
  generalize d * m = x at *
  generalize r * m = z at *
  generalize a * m = y at *
  generalize hk : y / 100 = k
  have hspan : 2 ^ 53 = 9007199254740992 ∧ 2 ^ 54 = 18014398509481984 ∧
      2 ^ 32 = 4294967296 := by decide
  obtain ⟨h53, h54, h32⟩ := hspan
  rw [h53] at hx
  rw [h32] at hm
  apply Nat.div_eq_of_lt_le
  · rcases Nat.eq_zero_or_pos k with rfl | hkpos
    · rw [Nat.zero_mul]
      exact Nat.zero_le u
    · refine h.reaches hpos (unitsPerOne_eq ▸ .of_lt (by omega) 1074) ?_
      rw [show unitsPerOne = _ from hone, ← Nat.mul_assoc, ← Nat.sub_mul, Nat.mul_right_comm]
      refine Nat.mul_lt_mul_of_pos_right ?_ hs
      rw [h53, h54]
      omega
  · -- the product without its last 32 places has 53 of them, or fewer
    refine h.stays hpos (v := x / 2 ^ 32 * 2 ^ (32 + e)) (.of_lt ?_ _) ?_ ?_
    · rw [h53, h32]
      omega
    · rw [Nat.pow_add, ← Nat.mul_assoc]
      exact Nat.mul_le_mul_right _ (Nat.div_mul_le_self x (2 ^ 32))
    · rw [Nat.pow_add, hone, ← Nat.mul_assoc, ← Nat.mul_assoc, ← Nat.mul_assoc, ← Nat.add_mul]
      refine Nat.mul_lt_mul_of_pos_right ?_ hs
      rw [h53, h32]
      omega

/-! ## The position -/

theorem lt_limit {u : Nat} (h : u / unitsPerOne < 2 ^ 32) : u < limit := by
  have hpos : 0 < unitsPerOne := unitsPerOne_pos
  calc u < 2 ^ 32 * unitsPerOne := (Nat.div_lt_iff_lt_mul hpos).mp h
    _ ≤ limit := by decide +kernel

/-- How the percentile of `a` hundredths gets its position among `n` samples, `p` units standing for
`a` hundredths: every step is exact or gives a nearest double, and whichever that is, the position
is the integer part of the exact product. -/
structure RanksExactly (a n p : Nat) : Prop where
  constant : Double.ofFraction a 100 = .finite false p
  constant_nearest : NearestTo (a * unitsPerOne) 100 p
  count : Double.ofNat (n - 1) = .finite false ((n - 1) * unitsPerOne)
  product : ∃ u, (Double.ofFraction a 100).mul (.ofNat (n - 1)) = .finite false u ∧
    NearestTo (p * ((n - 1) * unitsPerOne)) unitsPerOne u
  cut : ∀ u, NearestTo (p * ((n - 1) * unitsPerOne)) unitsPerOne u →
    u / unitsPerOne = a * (n - 1) / 100
  rank : percentileRank (.ofFraction a 100) n = a * (n - 1) / 100

theorem ranksExactly {a d r n : Nat} (hconst : 100 * d + r = a * 2 ^ 53) (hr : 2 * r < a)
    (ha : a ≤ 100) (hdouble : Double.ofFraction a 100 = .finite false (d * 2 ^ 1021))
    (hclamp : (Double.ofFraction a 100).clamp .zero (.ofNat 1) = .ofFraction a 100)
    (hn : n - 1 < 2 ^ 32) : RanksExactly a n (d * 2 ^ 1021) := by
  have hcount : Double.ofNat (n - 1) = .finite false ((n - 1) * unitsPerOne) :=
    ofNat_eq (hn.trans (by decide))
  have hcut : ∀ u, NearestTo (d * 2 ^ 1021 * ((n - 1) * unitsPerOne)) unitsPerOne u →
      u / unitsPerOne = a * (n - 1) / 100 := fun u hu => div_of_nearest hconst hr ha hn hu
  have hle : a * (n - 1) / 100 ≤ n - 1 := Nat.div_le_of_le_mul (Nat.mul_le_mul_right _ ha)
  have hpos : 0 < unitsPerOne := unitsPerOne_pos
  have hfinite : nearest (d * 2 ^ 1021 * ((n - 1) * unitsPerOne)) unitsPerOne < limit := by
    apply lt_limit
    rw [hcut _ (nearest_nearestTo hpos)]
    exact hle.trans_lt hn
  obtain ⟨u, hmul, hnear⟩ := mul_nearest hfinite
  rw [← hdouble, ← hcount] at hmul
  refine ⟨hdouble, nearestTo_of_ofFraction (by decide) hdouble, hcount, ⟨u, hmul, hnear⟩, hcut, ?_⟩
  have hspan : 2 ^ 32 ≤ 2 ^ 64 - 1 := by decide
  unfold percentileRank
  dsimp only
  rw [hclamp, hmul, toCounter_finite, hcut u hnear]
  omega

/-- The three constants of a row. One half is a double, the other two are a little below. -/
theorem ranksExactly_of_mem {a n : Nat} (ha : a ∈ [50, 95, 99]) (hn : n - 1 < 2 ^ 32) :
    ∃ p, RanksExactly a n p := by
  simp only [List.mem_cons, List.not_mem_nil, or_false] at ha
  rcases ha with rfl | rfl | rfl
  · exact ⟨_, ranksExactly (d := 4503599627370496) (r := 0) (by decide) (by decide) (by decide)
      (by decide +kernel) (by decide +kernel) hn⟩
  · exact ⟨_, ranksExactly (d := 8556839292003942) (r := 40) (by decide) (by decide) (by decide)
      (by decide +kernel) (by decide +kernel) hn⟩
  · exact ⟨_, ranksExactly (d := 8917127262193582) (r := 8) (by decide) (by decide) (by decide)
      (by decide +kernel) (by decide +kernel) hn⟩

/-- A percentile of the pool stands where the exact product says. -/
theorem standsAt_pooled {results : List WorkerResult} {a n : Nat} (ha : a ∈ [50, 95, 99])
    (hlength : (allSamples results).length = n) (hpos : 1 ≤ n) (hn : n - 1 < 2 ^ 32) :
    StandsAt (pooled results).toList (a * (n - 1) / 100)
      (percentile (pooled results) (.ofFraction a 100)) := by
  have hsize : (pooled results).size = n := by
    rw [← hlength, ← (pooled_perm results).length_eq, Array.length_toList]
  obtain ⟨p, hexact⟩ := ranksExactly_of_mem ha hn
  have hstands := standsAt_percentile (.ofFraction a 100) (pooled_ascending results)
    (hsize ▸ hpos)
  rwa [hsize, hexact.rank] at hstands

/-- **The reported percentile rank is the exact one.** For up to 2³² samples the positions of the
three percentiles, computed in doubles, are the integer quotients, whichever nearest double the
product is rounded to. So the percentiles of every row are the samples at these positions of their
ascending list. -/
theorem ranks_exact :
    (∀ n : Nat, 1 ≤ n → n ≤ 2 ^ 32 → ∀ a ∈ [50, 95, 99], ∃ p, RanksExactly a n p) ∧
    ∀ (cell : Cell) (results : List WorkerResult) (n : Nat), (allSamples results).length = n →
      1 ≤ n → n ≤ 2 ^ 32 → ∃ sorted : List Nat,
        sorted.Pairwise (· ≤ ·) ∧ sorted.Perm (allSamples results) ∧
        StandsAt sorted (50 * (n - 1) / 100) (aggregate cell results).p50 ∧
        StandsAt sorted (95 * (n - 1) / 100) (aggregate cell results).p95 ∧
        StandsAt sorted (99 * (n - 1) / 100) (aggregate cell results).p99 := by
  have hbelow : ∀ n : Nat, 1 ≤ n → n ≤ 2 ^ 32 → n - 1 < 2 ^ 32 := by
    intro n hpos hn
    omega
  refine ⟨fun n hpos hn a ha => ranksExactly_of_mem ha (hbelow n hpos hn), ?_⟩
  intro cell results n hlength hpos hn
  have hlast := hbelow n hpos hn
  exact ⟨(pooled results).toList, pooled_ascending results, pooled_perm results,
    standsAt_pooled (by decide) hlength hpos hlast, standsAt_pooled (by decide) hlength hpos hlast,
    standsAt_pooled (by decide) hlength hpos hlast⟩

/-- Twenty-one samples in descending order. -/
def Sample.falling : List WorkerResult := [⟨21, 0, ((List.range 21).reverse).toArray⟩]

/-- The greatest number of samples, and one at which the product falls short of an integer: 95
hundredths of 20 are 19, and the double that stands for 0.95 is smaller than that. -/
theorem ranks_exact_sample :
    (1 ≤ 2 ^ 32 ∧ percentileRank (.ofFraction 99 100) (2 ^ 32) = 4252017622) ∧
    (allSamples Sample.falling).length = 21 ∧
    (∃ p, Double.ofFraction 95 100 = .finite false p ∧ p * 100 < 95 * unitsPerOne) ∧
    percentileRank (.ofFraction 95 100) 21 = 19 ∧
    ∃ sorted : List Nat, sorted.Perm (allSamples Sample.falling) ∧
      StandsAt sorted 19 (aggregate Sample.cell Sample.falling).p95 := by
  obtain ⟨hranks, hrows⟩ := ranks_exact
  have hlength : (allSamples Sample.falling).length = 21 := by decide
  obtain ⟨_, hmost⟩ := hranks (2 ^ 32) (by decide) (by decide) 99 (by decide)
  obtain ⟨p, hexact⟩ := hranks 21 (by decide) (by decide) 95 (by decide)
  obtain ⟨sorted, -, hperm, -, hp95, -⟩ :=
    hrows Sample.cell Sample.falling 21 hlength (by decide) (by decide)
  have hshort : Double.ofFraction 95 100 = .finite false (8556839292003942 * 2 ^ 1021) := by
    decide +kernel
  refine ⟨⟨by decide, hmost.rank⟩, hlength, ⟨_, hshort, by decide +kernel⟩, hexact.rank, sorted,
    hperm, hp95⟩

end LoadSweep
