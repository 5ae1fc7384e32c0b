import Mathlib.Data.List.Sort
import LoadSweep.Proofs.Sample

/-!
# `LoadSweep/Proofs/Pooling.lean` — a row is made of two sums and one pool

Of the results of a cell a row keeps the sum of the successes, the sum of the failures and the
samples of all workers together. Which worker brought what, and in which order, is gone. For the
sums there is nothing to say. For the samples the one fact is that **ascending order is a normal
form**: two lists of the same samples, however often each occurs, become the same list when they
are sorted (`pooled_eq`), so the percentiles cannot tell how the samples were dealt out.

The sums are those of natural numbers. A counter of 64 bits holds them as long as they fit.
-/

set_option autoImplicit false

namespace LoadSweep

open Number

/-- The samples that the workers brought back, one worker after the other. -/
def allSamples (results : List WorkerResult) : List Nat :=
  results.flatMap fun r => r.latencies.toList

theorem allSamples_append (a b : List WorkerResult) : allSamples (a ++ b) = allSamples a ++ allSamples b :=
  List.flatMap_append

/-! ## The pool -/

theorem pooled_perm (results : List WorkerResult) :
    (pooled results).toList.Perm (allSamples results) :=
  List.mergeSort_perm _ _

theorem pooled_ascending (results : List WorkerResult) :
    (pooled results).toList.Pairwise (· ≤ ·) :=
  List.pairwise_mergeSort' (· ≤ ·) (allSamples results)

/-- There is one ascending list of the samples, and it is the pool. -/
theorem pooled_eq {results : List WorkerResult} {sorted : List Nat}
    (ascending : sorted.Pairwise (· ≤ ·)) (same : sorted.Perm (allSamples results)) :
    pooled results = sorted.toArray := by
  have h : (pooled results).toList = sorted :=
    List.Perm.eq_of_pairwise (fun _ _ _ _ => Nat.le_antisymm) (pooled_ascending results) ascending
      ((pooled_perm results).trans same.symm)
  rw [← h]

namespace WorkerResult

/-- What two lists of results have in common when they make the same row. -/
structure Alike (a b : List WorkerResult) : Prop where
  ops : total (a.map (·.ops)) = total (b.map (·.ops))
  errors : total (a.map (·.errors)) = total (b.map (·.errors))
  /-- The same samples, each as often. -/
  samples : (allSamples a).Perm (allSamples b)

namespace Alike

variable {a b a' b' : List WorkerResult}

theorem refl (a : List WorkerResult) : Alike a a := ⟨rfl, rfl, .refl _⟩

theorem append (h : Alike a b) (h' : Alike a' b') : Alike (a ++ a') (b ++ b') where
  ops := by simp only [List.map_append, total_append, h.ops, h'.ops]
  errors := by simp only [List.map_append, total_append, h.errors, h'.errors]
  samples := by
    simp only [allSamples_append]
    exact h.samples.append h'.samples

/-- Alike workers may stand in for one another among any others. -/
theorem within (before after : List WorkerResult) (h : Alike a b) :
    Alike (before ++ a ++ after) (before ++ b ++ after) :=
  ((refl before).append h).append (refl after)

theorem of_perm (h : a.Perm b) : Alike a b where
  ops := total_perm (h.map _)
  errors := total_perm (h.map _)
  samples := h.flatMap_right _

theorem shuffled (r : WorkerResult) {latencies : Array Nat}
    (h : latencies.toList.Perm r.latencies.toList) : Alike [r] [{ r with latencies }] where
  ops := rfl
  errors := rfl
  samples := by simpa [allSamples] using h.symm

/-- A worker without counts and samples adds nothing. -/
theorem idle : Alike [none] [] := ⟨rfl, rfl, .refl _⟩

/-- One worker that saw all that the others saw. -/
theorem merged (results : List WorkerResult) :
    Alike results [⟨total (results.map (·.ops)), total (results.map (·.errors)),
      (allSamples results).toArray⟩] where
  ops := by simp [total]
  errors := by simp [total]
  samples := by simp [allSamples]

end Alike

end WorkerResult

open WorkerResult

/-- Totals and pool are all that a row has of the results. -/
theorem aggregate_of_alike (cell : Cell) {a b : List WorkerResult} (h : Alike a b) :
    aggregate cell a = aggregate cell b := by
  have hpool : pooled a = pooled b :=
    pooled_eq (pooled_ascending b) ((pooled_perm b).trans h.samples.symm)
  simp only [aggregate, h.ops, h.errors, hpool]

/-- What the rows of a cell depend on. -/
structure Cell.Pools (cell : Cell) : Prop where
  /-- Totals and samples that agree make the same row, whatever the number of workers. -/
  alike : ∀ a b, Alike a b → aggregate cell a = aggregate cell b
  sums : ∀ results,
    (aggregate cell results).totalOps = total (results.map (·.ops)) ∧
      (aggregate cell results).errors = total (results.map (·.errors))
  /-- The percentiles are read from the ascending list of all samples, and no other. -/
  percentiles : ∀ results (sorted : List Nat),
    sorted.Pairwise (· ≤ ·) → sorted.Perm (allSamples results) →
      (aggregate cell results).p50 = percentile sorted.toArray (.ofFraction 50 100) ∧
      (aggregate cell results).p95 = percentile sorted.toArray (.ofFraction 95 100) ∧
      (aggregate cell results).p99 = percentile sorted.toArray (.ofFraction 99 100)
  /-- The workers may come in any order. -/
  reordered : ∀ a b, a.Perm b → aggregate cell a = aggregate cell b
  /-- So may the samples of any of them. -/
  shuffled : ∀ before r after (latencies : Array Nat),
    latencies.toList.Perm r.latencies.toList →
      aggregate cell (before ++ r :: after) =
        aggregate cell (before ++ { r with latencies } :: after)
  /-- Some of the workers may be replaced by others, more or fewer, who together saw the same:
  counts and samples moved between them, one of them split, several of them merged. -/
  replaced : ∀ before part part' after, Alike part part' →
    aggregate cell (before ++ part ++ after) = aggregate cell (before ++ part' ++ after)
  /-- A worker that saw nothing makes no difference. -/
  idle : ∀ before after,
    aggregate cell (before ++ .none :: after) = aggregate cell (before ++ after)
  /-- One worker that saw everything makes the same row. -/
  merged : ∀ results,
    aggregate cell results =
      aggregate cell [⟨total (results.map (·.ops)), total (results.map (·.errors)),
        (allSamples results).toArray⟩]

/-- **A row depends on the totals and the pooled samples only.** -/
theorem Cell.pools (cell : Cell) : cell.Pools where
  alike := fun _ _ h => aggregate_of_alike cell h
  sums := fun _ => ⟨rfl, rfl⟩
  percentiles := by
    intro results sorted ascending same
    simp only [aggregate, pooled_eq ascending same, and_self]
  reordered := fun _ _ h => aggregate_of_alike cell (.of_perm h)
  shuffled := by
    intro before r after latencies h
    have hw := (Alike.shuffled r h).within before after
    simpa only [List.append_assoc, List.singleton_append] using aggregate_of_alike cell hw
  replaced := fun before _ _ after h => aggregate_of_alike cell (h.within before after)
  idle := by
    intro before after
    have hw := Alike.idle.within before after
    simpa only [List.append_assoc, List.singleton_append, List.nil_append] using
      aggregate_of_alike cell hw
  merged := fun results => aggregate_of_alike cell (.merged results)

/-- Three samples of two workers, the slower ones with the first, against one worker that has all
of them and one that has none. The median is that of all three. -/
theorem Cell.pools_sample :
    aggregate Sample.cell [⟨2, 1, #[3000, 9000]⟩, ⟨1, 0, #[1000]⟩] =
      aggregate Sample.cell [.none, ⟨3, 1, #[1000, 3000, 9000]⟩] ∧
    (aggregate Sample.cell [⟨2, 1, #[3000, 9000]⟩, ⟨1, 0, #[1000]⟩]).p50 = .ofNat 3 := by
  have ascending : [1000, 3000, 9000].Pairwise (· ≤ ·) := by decide
  have same : [1000, 3000, 9000].Perm (allSamples [⟨2, 1, #[3000, 9000]⟩, ⟨1, 0, #[1000]⟩]) := by
    decide
  refine ⟨(Cell.pools Sample.cell).alike _ _ ⟨rfl, rfl, by decide⟩, ?_⟩
  rw [((Cell.pools Sample.cell).percentiles _ _ ascending same).1]
  decide +kernel

end LoadSweep
