import Mathlib.Order.Bounds.Basic
import LoadSweep.Proofs.Doubles
import LoadSweep.Proofs.Pooling

/-!
# `LoadSweep/Proofs/Percentile.lean` — a percentile is an order statistic

The percentile `p` of `n` ascending samples is the sample at `percentileRank p n`. Three facts about
that position carry the file. It is inside the list whatever `p` is, as the last step of its
definition cuts it off there. In an ascending list a position says how many samples are on either
side (`standsAt_of_ascending`). And it does not fall as `p` rises (`percentileRank_mono`), because
each of its steps keeps the order (`LoadSweep/Proofs/Doubles.lean`).
-/

set_option autoImplicit false

namespace LoadSweep

open Number

/-- A latency in microseconds. -/
def micros (nanos : Nat) : Double := (Double.ofNat nanos).div (.ofNat 1000)

theorem micros_le {a b : Nat} (h : a ≤ b) : (micros a).Le (micros b) := by
  have thousand : Double.ofNat 1000 = .finite false (1000 * Double.unitsPerOne) := by
    decide +kernel
  unfold micros
  rw [thousand]
  exact Double.div_le (Double.unsigned_ofNat a) (by decide +kernel) (Double.ofNat_le h)

/-! ## The position -/

theorem percentileRank_le (p : Double) (n : Nat) : percentileRank p n ≤ n - 1 :=
  Nat.min_le_right _ _

/-- A greater percentile stands no lower. -/
theorem percentileRank_mono {p q : Double} (n : Nat) (h : p.Le q) :
    percentileRank p n ≤ percentileRank q n := by
  have unit : Double.zero.Le (.ofNat 1) := by decide +kernel
  have hc := Double.toCounter_mul_le 64 (Double.unsigned_ofNat (n - 1)) (Double.clamp_le h unit)
  simp only [percentileRank]
  omega

theorem percentile_of_empty (p : Double) : percentile #[] p = .zero := rfl

/-- A percentile is the sample at its position. -/
theorem percentile_eq {sorted : Array Nat} {x : Nat} {p : Double}
    (h : sorted[percentileRank p sorted.size]? = some x) : percentile sorted p = micros x := by
  obtain ⟨hlt, rfl⟩ := Array.getElem?_eq_some_iff.mp h
  have hpos : 0 < sorted.size := by omega
  simp [percentile, hpos, micros]

theorem exists_at_rank {sorted : Array Nat} (p : Double) (h : 0 < sorted.size) :
    ∃ x, sorted[percentileRank p sorted.size]? = some x :=
  ⟨_, Array.getElem?_eq_getElem (percentileRank_lt p h)⟩

/-! ## Order statistics -/

/-- In an ascending list a sample has all before it on one side and all after it on the other. -/
theorem countP_of_ascending {sorted : List Nat} {i x : Nat} (ascending : sorted.Pairwise (· ≤ ·))
    (h : sorted[i]? = some x) :
    i + 1 ≤ sorted.countP (· ≤ x) ∧ sorted.length - i ≤ sorted.countP (x ≤ ·) := by
  obtain ⟨hlt, rfl⟩ := List.getElem?_eq_some_iff.mp h
  constructor
  · have below : ∀ y ∈ sorted.take (i + 1), decide (y ≤ sorted[i]) = true := by
      intro y hy
      obtain ⟨j, hj, rfl⟩ := List.mem_take_iff_getElem.mp hy
      apply decide_eq_true
      rcases Nat.lt_or_eq_of_le (show j ≤ i by omega) with before | rfl
      · exact List.pairwise_iff_getElem.mp ascending j i _ hlt before
      · exact Nat.le_refl _
    calc i + 1 = (sorted.take (i + 1)).length := by simp; omega
      _ = (sorted.take (i + 1)).countP (· ≤ sorted[i]) := (List.countP_eq_length.mpr below).symm
      _ ≤ sorted.countP (· ≤ sorted[i]) := (List.take_sublist _ _).countP_le
  · have above : ∀ y ∈ sorted.drop i, decide (sorted[i] ≤ y) = true := by
      intro y hy
      obtain ⟨j, hj, rfl⟩ := List.mem_drop_iff_getElem.mp hy
      apply decide_eq_true
      rcases Nat.eq_zero_or_pos j with rfl | after
      · exact Nat.le_refl _
      · exact List.pairwise_iff_getElem.mp ascending i (i + j) hlt _ (by omega)
    calc sorted.length - i = (sorted.drop i).length := by simp
      _ = (sorted.drop i).countP (sorted[i] ≤ ·) := (List.countP_eq_length.mpr above).symm
      _ ≤ sorted.countP (sorted[i] ≤ ·) := (List.drop_sublist _ _).countP_le

/-- `v` is, in microseconds, the sample at `i` of `list`, and as many samples are at most and at
least as great as its place among ascending ones says. -/
def StandsAt (list : List Nat) (i : Nat) (v : Double) : Prop :=
  ∃ x, list[i]? = some x ∧ v = micros x ∧
    i + 1 ≤ list.countP (· ≤ x) ∧ list.length - i ≤ list.countP (x ≤ ·)

theorem standsAt_percentile {sorted : Array Nat} (p : Double)
    (ascending : sorted.toList.Pairwise (· ≤ ·)) (h : 0 < sorted.size) :
    StandsAt sorted.toList (percentileRank p sorted.size) (percentile sorted p) := by
  obtain ⟨x, hx⟩ := exists_at_rank p h
  refine ⟨x, by simpa using hx, percentile_eq hx, ?_⟩
  exact countP_of_ascending ascending (by simpa using hx)

theorem percentile_mono {sorted : Array Nat} {p q : Double}
    (ascending : sorted.toList.Pairwise (· ≤ ·)) (h : p.Le q) :
    (percentile sorted p).Le (percentile sorted q) := by
  rcases Nat.eq_zero_or_pos sorted.size with hz | hpos
  · obtain rfl := Array.eq_empty_of_size_eq_zero hz
    rw [percentile_of_empty, percentile_of_empty]
    exact .refl (by simp [Double.zero])
  · obtain ⟨x, hx⟩ := exists_at_rank p hpos
    obtain ⟨y, hy⟩ := exists_at_rank q hpos
    rw [percentile_eq hx, percentile_eq hy]
    apply micros_le
    obtain ⟨hi, rfl⟩ := Array.getElem?_eq_some_iff.mp hx
    obtain ⟨hj, rfl⟩ := Array.getElem?_eq_some_iff.mp hy
    rcases Nat.lt_or_eq_of_le (percentileRank_mono sorted.size h) with lower | same
    · exact List.pairwise_iff_getElem.mp ascending _ _ (by simpa using hi) (by simpa using hj) lower
    · simp only [same, Nat.le_refl]

/-! ## The percentiles of a row -/

/-- How the percentiles of a row stand to one another and to the samples of its workers. -/
structure Row.Ordered (row : Row) (results : List WorkerResult) : Prop where
  p50_le_p95 : row.p50.Le row.p95
  p95_le_p99 : row.p95.Le row.p99
  between : ∀ least greatest, IsLeast {x | x ∈ allSamples results} least →
    IsGreatest {x | x ∈ allSamples results} greatest →
      ∀ v ∈ [row.p50, row.p95, row.p99], (micros least).Le v ∧ v.Le (micros greatest)
  unsampled : allSamples results = [] → ∀ v ∈ [row.p50, row.p95, row.p99], v = .zero

theorem pooled_between {results : List WorkerResult} {least greatest : Nat} (p : Double)
    (hl : IsLeast {x | x ∈ allSamples results} least)
    (hg : IsGreatest {x | x ∈ allSamples results} greatest) :
    (micros least).Le (percentile (pooled results) p) ∧
      (percentile (pooled results) p).Le (micros greatest) := by
  have hmem : ∀ x, x ∈ pooled results ↔ x ∈ allSamples results := by
    intro x
    rw [← Array.mem_toList_iff]
    exact (pooled_perm results).mem_iff
  have hpos : 0 < (pooled results).size := Array.size_pos_of_mem ((hmem least).mpr hl.1)
  obtain ⟨x, hx⟩ := exists_at_rank p hpos
  have hx' : x ∈ allSamples results := (hmem x).mp (Array.mem_of_getElem? hx)
  rw [percentile_eq hx]
  exact ⟨micros_le (hl.2 hx'), micros_le (hg.2 hx')⟩

theorem aggregate_ordered (cell : Cell) (results : List WorkerResult) :
    (aggregate cell results).Ordered results where
  p50_le_p95 := percentile_mono (pooled_ascending results) (by decide +kernel)
  p95_le_p99 := percentile_mono (pooled_ascending results) (by decide +kernel)
  between := by
    intro least greatest hl hg v hv
    simp only [List.mem_cons, List.not_mem_nil, or_false] at hv
    rcases hv with rfl | rfl | rfl
    · exact pooled_between _ hl hg
    · exact pooled_between _ hl hg
    · exact pooled_between _ hl hg
  unsampled := by
    intro hnone v hv
    have hp : pooled results = #[] := pooled_eq .nil (by rw [hnone])
    simp only [List.mem_cons, List.not_mem_nil, or_false] at hv
    rcases hv with rfl | rfl | rfl
    · exact (congrArg (percentile · _) hp).trans (percentile_of_empty _)
    · exact (congrArg (percentile · _) hp).trans (percentile_of_empty _)
    · exact (congrArg (percentile · _) hp).trans (percentile_of_empty _)

/-- **Percentiles are in bounds, are order statistics and are monotone.** The position is inside
any list for every double, a NaN and values outside the unit range included, and without samples
nothing is read. In an ascending list the position tells how many samples are on either side, and
the value does not fall as `p` rises. So the percentiles of every row ascend, between its least and
its greatest sample. -/
theorem percentiles_ordered :
    (∀ (list : Array Nat) (p : Double), list = #[] ∧ percentile list p = .zero ∨
      ∃ x, list[percentileRank p list.size]? = some x ∧ percentile list p = micros x) ∧
    (∀ sorted : Array Nat, sorted.toList.Pairwise (· ≤ ·) → 0 < sorted.size →
      (∀ p, percentileRank p sorted.size ≤ sorted.size - 1 ∧
        StandsAt sorted.toList (percentileRank p sorted.size) (percentile sorted p)) ∧
      ∀ p q : Double, p.Le q → (percentile sorted p).Le (percentile sorted q)) ∧
    ∀ cell results, (aggregate cell results).Ordered results := by
  refine ⟨?_, ?_, aggregate_ordered⟩
  · intro list p
    rcases Nat.eq_zero_or_pos list.size with hz | hpos
    · obtain rfl := Array.eq_empty_of_size_eq_zero hz
      exact .inl ⟨rfl, percentile_of_empty p⟩
    · obtain ⟨x, hx⟩ := exists_at_rank p hpos
      exact .inr ⟨x, hx, percentile_eq hx⟩
  · intro sorted ascending hpos
    constructor
    · exact fun p => ⟨percentileRank_le p _, standsAt_percentile p ascending hpos⟩
    · exact fun _ _ h => percentile_mono ascending h

/-- Of three samples the median is the second. A NaN takes the first, an infinity the last. -/
theorem percentiles_ordered_sample :
    ([1000, 3000, 9000].Pairwise (· ≤ ·) ∧ Double.Le (.ofFraction 50 100) (.infinite false)) ∧
    StandsAt [1000, 3000, 9000] 1 (percentile #[1000, 3000, 9000] (.ofFraction 50 100)) ∧
    StandsAt [1000, 3000, 9000] 0 (percentile #[1000, 3000, 9000] .nan) ∧
    (percentile #[1000, 3000, 9000] (.ofFraction 50 100)).Le
      (percentile #[1000, 3000, 9000] (.infinite false)) := by
  have ascending : [1000, 3000, 9000].Pairwise (· ≤ ·) := by decide
  have upward : Double.Le (.ofFraction 50 100) (.infinite false) := by decide +kernel
  have median : percentileRank (.ofFraction 50 100) 3 = 1 := by decide +kernel
  have first : percentileRank .nan 3 = 0 := by decide +kernel
  obtain ⟨stands, rises⟩ :=
    percentiles_ordered.2.1 #[1000, 3000, 9000] ascending (by decide)
  exact ⟨⟨ascending, upward⟩, median ▸ (stands _).2, first ▸ (stands _).2, rises _ _ upward⟩

end LoadSweep
