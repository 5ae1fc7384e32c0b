import Mathlib.Data.Nat.ModEq
import LoadSweep.Plan.Basic
import LoadSweep.Proofs.KeyStream
import LoadSweep.Proofs.Sweep

/-!
# `LoadSweep/Proofs/Seeds.lean` — which callers of a plan draw from one seed

The seeds of a run are three arithmetic progressions: those of the reading cells and of the writing
cells step by `seedStride` from a base each, those of the warm-up step by one. Inside a progression
the stride is all that matters. It is odd, so no two of 2⁶⁴ steps meet modulo 2⁶⁴
(`workerSeed_inj`). Between the progressions it is not enough, since the bases were chosen by hand:
for two of them to stay apart the difference of the bases must be no multiple of the stride, and the
seeds must not wrap around. They do not for indices below 2⁵⁰ (`workerSeed_base`).

What a plan's callers draw from, its warm-up and all its cells together, is then decided by the
operation and the index alone (`Plan.Drawer.seed_eq_iff`). Cells of one operation share their seeds
on purpose: they are to ask for the same keys.
-/

set_option autoImplicit false

namespace LoadSweep

/-! ## One progression -/

/-- Up to as many steps as there are seeds, no seed comes twice. -/
theorem workerSeed_inj {seed i j : Nat} (hi : i < seedSpan) (hj : j < seedSpan) :
    workerSeed seed i = workerSeed seed j ↔ i = j := by
  refine ⟨fun h => ?_, fun h => by rw [h]⟩
  have hcoprime : seedSpan.gcd seedStride = 1 := by decide
  have hsum : seed + i * seedStride ≡ seed + j * seedStride [MOD seedSpan] := h
  have hstep : i * seedStride ≡ j * seedStride [MOD seedSpan] :=
    Nat.ModEq.add_left_cancel' seed hsum
  exact (Nat.ModEq.cancel_right_of_coprime hcoprime hstep).eq_of_lt_of_lt hi hj

/-! ## Three progressions -/

/-- Callers of a cell have smaller indices than this. -/
def indexSpan : Nat := 2 ^ 50

/-- The seeds of a cell do not wrap around. -/
theorem workerSeed_base (op : Operation) {i : Nat} (hi : i < indexSpan) :
    workerSeed op.baseSeed i = op.baseSeed + i * seedStride := by
  have hspan : op.baseSeed + indexSpan * seedStride ≤ seedSpan := by cases op <;> decide
  have hstep : i * seedStride < indexSpan * seedStride :=
    Nat.mul_lt_mul_of_pos_right hi (by decide)
  exact Nat.mod_eq_of_lt (Nat.lt_of_lt_of_le (Nat.add_lt_add_left hstep _) hspan)

/-- The bases of the two operations are not a whole number of strides apart. -/
theorem baseSeed_add_ne {i j : Nat} :
    Operation.get.baseSeed + i * seedStride ≠ Operation.set.baseSeed + j * seedStride := by
  have hget : Operation.get.baseSeed = Operation.set.baseSeed + 4628 := by decide
  rw [hget, seedStride]
  omega

/-- Whether two workers of cells have one seed. -/
theorem workerSeed_eq_iff {op op' : Operation} {i j : Nat} (hi : i < indexSpan)
    (hj : j < indexSpan) :
    workerSeed op.baseSeed i = workerSeed op'.baseSeed j ↔ op = op' ∧ i = j := by
  constructor
  · intro h
    have hop : op = op' := by
      rw [workerSeed_base op hi, workerSeed_base op' hj] at h
      cases op with
      | get =>
        cases op' with
        | get => rfl
        | set => exact absurd h baseSeed_add_ne
      | set =>
        cases op' with
        | get => exact absurd h.symm baseSeed_add_ne
        | set => rfl
    subst hop
    have hspan : indexSpan ≤ seedSpan := by decide
    exact ⟨rfl, (workerSeed_inj (hi.trans_le hspan) (hj.trans_le hspan)).mp h⟩
  · rintro ⟨rfl, rfl⟩
    rfl

/-- The warm-up has used its seeds before those of the cells begin. -/
theorem workerSeed_ne_warmup (op : Operation) {i w : Nat} (hi : i < indexSpan)
    (hw : w < warmupClients) : workerSeed op.baseSeed i ≠ warmupSeed + w := by
  have hbelow : warmupSeed + warmupClients ≤ op.baseSeed := by cases op <;> decide
  rw [workerSeed_base op hi]
  omega

/-! ## The callers of a plan -/

theorem Matrix.seed_of_mem_cells {m : Matrix} {target : Target} {keys : KeySpace} {cell : Cell}
    (h : cell ∈ m.cells target keys) :
    cell.keys = keys ∧ cell.seed = cell.operation.baseSeed ∧
      cell.concurrency ∈ m.clientCounts := by
  simp only [cells, List.mem_flatMap, List.mem_map] at h
  obtain ⟨_, -, concurrency, hconcurrency, operation, -, rfl⟩ := h
  exact ⟨rfl, rfl, hconcurrency⟩

namespace Plan

variable (plan : Plan) (keys : KeySpace)

def cells : List Cell := plan.matrix.cells plan.target keys

/-- The callers of a plan that draw keys: those of its warm-up, and those of its cells. -/
inductive Drawer where
  | warming (index : Fin warmupClients)
  | measuring (place : Fin (plan.cells keys).length)
    (index : Fin ((plan.cells keys)[place]).concurrency)

namespace Drawer

variable {plan keys}

def seed : plan.Drawer keys → Nat
  | .warming index => warmupSeed + index
  | .measuring place index => ((plan.cells keys)[place]).workerSeed index

/-- Its place in its crew. -/
def index : plan.Drawer keys → Nat
  | .warming index => index
  | .measuring _ index => index

/-- The crew to which it belongs, about to start in a world. -/
def crew (w : World) : plan.Drawer keys → Crew Traffic
  | .warming _ =>
    .atOpenGate w (Traffic.job keys .get plan.warmup (warmupSeed + ·)) warmupClients
  | .measuring place _ => ((plan.cells keys)[place]).crew

/-- Both measure, have the same operation and stand at the same place of their crews. -/
def Akin : plan.Drawer keys → plan.Drawer keys → Prop
  | .measuring place index, .measuring place' index' =>
    ((plan.cells keys)[place]).operation = ((plan.cells keys)[place']).operation ∧
      (index : Nat) = index'
  | _, _ => False

theorem index_lt_crew (d : plan.Drawer keys) (w : World) :
    d.index < (d.crew w).callers.length := by
  cases d with
  | warming index => exact index.isLt.trans_eq List.length_replicate.symm
  | measuring place index => exact index.isLt.trans_eq List.length_replicate.symm

/-- In every run its crew can come to, its keys are those that its seed draws. -/
theorem draws (d : plan.Drawer keys) {scene : Scene} {w₀ w : World} {crew : Crew Traffic}
    (h : Crew.Reaches scene w₀ (d.crew w₀) w crew) :
    ∃ c, crew.callers[d.index]? = some c ∧ c.Draws keys d.seed (w.since w₀) := by
  cases d with
  | warming index =>
    exact h.draws (Crew.atOpenGate_starts w₀ _ _) rfl (fun _ => rfl) (index_lt_crew _ w₀)
  | measuring place index =>
    have hmem : (plan.cells keys)[place] ∈ plan.cells keys := List.getElem_mem _
    obtain ⟨c, hc, hdraws⟩ :=
      h.draws (Cell.crew_starts _ w₀) rfl (Cell.key?_request _)
        (index_lt_crew (.measuring place index) w₀)
    rw [(Matrix.seed_of_mem_cells hmem).1] at hdraws
    exact ⟨c, hc, hdraws⟩

/-- The seed of a worker in a cell, from its operation and its index. -/
theorem workerSeed_eq (place : Fin (plan.cells keys).length) (i : Nat) :
    ((plan.cells keys)[place]).workerSeed i
      = workerSeed ((plan.cells keys)[place]).operation.baseSeed i := by
  have hmem : (plan.cells keys)[place] ∈ plan.cells keys := List.getElem_mem _
  rw [Cell.workerSeed, (Matrix.seed_of_mem_cells hmem).2.1]

theorem index_lt (hclients : ∀ n ∈ plan.matrix.clientCounts, n ≤ indexSpan)
    (place : Fin (plan.cells keys).length)
    (index : Fin ((plan.cells keys)[place]).concurrency) : (index : Nat) < indexSpan := by
  have hmem : (plan.cells keys)[place] ∈ plan.cells keys := List.getElem_mem _
  exact index.isLt.trans_le (hclients _ (Matrix.seed_of_mem_cells hmem).2.2)

/-- **Two callers have one seed if and only if they are akin.** -/
theorem seed_eq_iff (hclients : ∀ n ∈ plan.matrix.clientCounts, n ≤ indexSpan)
    {d e : plan.Drawer keys} (hne : d ≠ e) : d.seed = e.seed ↔ d.Akin e := by
  cases d with
  | warming w =>
    cases e with
    | warming w' =>
      refine ⟨fun h => absurd ?_ hne, False.elim⟩
      have hindex : (w : Nat) = w' := Nat.add_left_cancel h
      rw [Fin.ext hindex]
    | measuring place index =>
      refine ⟨fun h => ?_, False.elim⟩
      rw [seed, seed, workerSeed_eq] at h
      exact workerSeed_ne_warmup _ (index_lt hclients place index) w.isLt h.symm
  | measuring place index =>
    have hi := index_lt hclients place index
    cases e with
    | warming w =>
      refine ⟨fun h => ?_, False.elim⟩
      rw [seed, seed, workerSeed_eq] at h
      exact workerSeed_ne_warmup _ hi w.isLt h
    | measuring place' index' =>
      rw [seed, seed, workerSeed_eq, workerSeed_eq]
      exact workerSeed_eq_iff hi (index_lt hclients place' index')

end Drawer

end Plan

/-- **No two generators of a run share a seed by accident.** From any base, the seeds of all indices
below 2⁶⁴ are distinct. The reading cells, the writing cells and the warm-up keep apart from one
another as long as no cell has more than 2⁵⁰ clients. So of all the callers of a plan, each of which
asks for the keys that its seed draws, two have the same seed if and only if both measure, with the
same operation and at the same index. -/
theorem Plan.seeds_distinct :
    (∀ (cell : Cell) (i : Nat), cell.workerSeed i = (cell.seed + i * 1337) % 2 ^ 64) ∧
    (∀ (cell : Cell) (i j : Nat), i < 2 ^ 64 → j < 2 ^ 64 →
      (cell.workerSeed i = cell.workerSeed j ↔ i = j)) ∧
    (∀ i j w : Nat, i < 2 ^ 50 → j < 2 ^ 50 → w < 16 →
      workerSeed Operation.get.baseSeed i ≠ workerSeed Operation.set.baseSeed j ∧
      workerSeed Operation.get.baseSeed i ≠ 0xBEEF + w ∧
      workerSeed Operation.set.baseSeed j ≠ 0xBEEF + w) ∧
    ∀ (plan : Plan) (keys : KeySpace), (∀ n ∈ plan.matrix.clientCounts, n ≤ 2 ^ 50) →
      (∀ (d : plan.Drawer keys) (scene : Scene) (w₀ w : World) (crew : Crew Traffic),
        Crew.Reaches scene w₀ (d.crew w₀) w crew →
          ∃ c, crew.callers[d.index]? = some c ∧ c.Draws keys d.seed (w.since w₀)) ∧
      ∀ d e : plan.Drawer keys, d ≠ e → (d.seed = e.seed ↔ d.Akin e) := by
  refine ⟨fun _ _ => rfl, fun cell i j hi hj => workerSeed_inj hi hj, ?_, ?_⟩
  · intro i j w hi hj hw
    refine ⟨fun h => ?_, workerSeed_ne_warmup _ hi hw, workerSeed_ne_warmup _ hj hw⟩
    obtain ⟨hop, -⟩ := (workerSeed_eq_iff hi hj).mp h
    nomatch hop
  · intro plan keys hclients
    exact ⟨fun d _ _ _ _ h => d.draws h, fun _ _ hne => Drawer.seed_eq_iff hclients hne⟩

/-- As many clients as may be, reading and writing values of two sizes. -/
def Sample.crowd : Plan :=
  { target, keyCount := 2, keyMode := .sequential
    matrix := { matrix with clientCounts := [indexSpan] }
    warmup := .ofMillis 4, skipPreload := false, reportInterval := 1 }

/-- The last caller of its warm-up. -/
def Sample.lastWarming : crowd.Drawer keys := .warming ⟨15, by decide⟩

/-- The last client of one of its cells. -/
def Sample.lastOf (place : Fin 4) : crowd.Drawer keys :=
  .measuring place ⟨indexSpan - 1, by revert place; decide⟩

theorem Sample.lastOf_ne {p q : Fin 4} (h : p ≠ q) : lastOf p ≠ lastOf q :=
  fun heq => h (Plan.Drawer.measuring.inj heq).1

/-- The last clients of the two reading cells have one seed; that of a writing cell has another, and
so has the last caller of the warm-up, which asks for the keys of that seed. In one cell, not even
the last possible index meets the first. -/
theorem Plan.seeds_distinct_sample :
    (∀ n ∈ Sample.crowd.matrix.clientCounts, n ≤ 2 ^ 50) ∧
    (Sample.lastOf 0).seed = (Sample.lastOf 2).seed ∧
    (Sample.lastOf 0).seed ≠ (Sample.lastOf 1).seed ∧
    (Sample.lastOf 0).seed ≠ Sample.lastWarming.seed ∧
    (∃ (w : World) (crew : Crew Traffic) (c : Caller Traffic),
      (Sample.lastWarming.crew (.start none)).run Sample.scene 100 (.start none) = some (w, crew) ∧
      crew.callers[15]? = some c ∧ c.Draws Sample.keys (0xBEEF + 15) (w.since (.start none))) ∧
    Sample.cell.workerSeed (2 ^ 64 - 1) ≠ Sample.cell.workerSeed 0 := by
  obtain ⟨-, hcell, -, hplan⟩ := Plan.seeds_distinct
  have hclients : ∀ n ∈ Sample.crowd.matrix.clientCounts, n ≤ 2 ^ 50 := by decide
  obtain ⟨hdraws, hpair⟩ := hplan Sample.crowd Sample.keys hclients
  refine ⟨hclients, ?_, ?_, ?_, ?_, ?_⟩
  · exact (hpair _ _ (Sample.lastOf_ne (by decide))).mpr ⟨rfl, rfl⟩
  · intro heq
    exact nomatch ((hpair _ _ (Sample.lastOf_ne (by decide))).mp heq).1
  · intro heq
    exact (hpair (Sample.lastOf 0) Sample.lastWarming (fun h => nomatch h)).mp heq
  · have hends : ((Sample.lastWarming.crew (.start none)).run Sample.scene 100
        (.start none)).isSome = true := by decide +kernel
    obtain ⟨⟨w, crew⟩, hrun⟩ := Option.isSome_iff_exists.mp hends
    obtain ⟨hreach, -⟩ := Crew.run_reaches (Crew.atOpenGate_starts _ _ _) .start hrun
    obtain ⟨c, hc, hown⟩ := hdraws Sample.lastWarming _ _ _ _ hreach
    exact ⟨w, crew, c, hrun, hc, hown⟩
  · intro heq
    exact absurd ((hcell _ _ _ (by decide) (by decide)).mp heq) (by decide)

end LoadSweep
