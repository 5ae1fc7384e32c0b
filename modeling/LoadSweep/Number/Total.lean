/-!
# `LoadSweep/Number/Total.lean` — sums of natural numbers

Counts are added up over workers, over replies and over keys. `total` is the sum of a list, by
recursion on it.
-/

set_option autoImplicit false

namespace LoadSweep.Number

def total : List Nat → Nat
  | [] => 0
  | n :: rest => n + total rest

theorem total_append (a b : List Nat) : total (a ++ b) = total a + total b := by
  induction a with
  | nil => simp [total]
  | cons n rest ih => simp only [List.cons_append, total, ih]; omega

theorem total_eq_zero {ns : List Nat} : total ns = 0 ↔ ∀ n ∈ ns, n = 0 := by
  induction ns with
  | nil => simp [total]
  | cons n rest ih => rw [total, Nat.add_eq_zero_iff, ih, List.forall_mem_cons]

/-- A sum does not depend on the order of its terms. -/
theorem total_perm {a b : List Nat} (h : a.Perm b) : total a = total b := by
  induction h with
  | nil => rfl
  | cons n _ ih => simp only [total, ih]
  | swap n k rest => simp only [total]; omega
  | trans _ _ ih ih' => exact ih.trans ih'

theorem total_set_lt {xs : List Nat} {i x y : Nat} (hi : xs[i]? = some x) (hlt : y < x) :
    total (xs.set i y) < total xs := by
  induction xs generalizing i with
  | nil => simp at hi
  | cons a rest ih =>
    cases i with
    | zero =>
      obtain rfl : a = x := by simpa using hi
      exact Nat.add_lt_add_right hlt _
    | succ i => exact Nat.add_lt_add_left (ih (by simpa using hi)) _

end LoadSweep.Number
