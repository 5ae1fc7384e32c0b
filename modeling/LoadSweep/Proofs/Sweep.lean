import LoadSweep.Harness.Sweep
import LoadSweep.Proofs.Ending
import LoadSweep.Proofs.Fallible
import LoadSweep.Proofs.Phase

/-!
# `LoadSweep/Proofs/Sweep.lean` — the rows of a sweep

A sweep visits cells, and a **visit** is what a cell did from the world in which its workers started
to the world in which the last of them had ended. `Sweep` relates a sweep to its visits, with one
constructor for each way to go on or to stop; `Harness.sweepFrom` is in this relation whenever it
gives a result. Everything that is claimed of the rows is a fact about the list of visits
(`Swept`), which does not mention phases or logs any more. Nor is the list ever shorter than it has
to be: the last constructor that was used gives the reason (`Sweep.stops`).
-/

set_option autoImplicit false

namespace LoadSweep

/-! ## Visits -/

/-- What one cell did. -/
structure Visit where
  cell : Cell
  /-- The world in which its workers started. -/
  before : World
  /-- The world in which all of them had ended. -/
  after : World
  crew : Crew Traffic

namespace Visit

/-- The row of the cell. -/
def row (v : Visit) : Row := aggregate v.cell (v.crew.callers.filterMap Caller.result?)

/-- Some worker died. -/
def Died (v : Visit) : Prop := ∃ c ∈ v.crew.callers, ∃ s, c.stage = .ended (.died s)

/-- The token was not set when the cell returned. -/
def clear (v : Visit) : Bool := !v.after.token

end Visit

/-- A sweep over some cells from one world to another, its visits, and what it came to. -/
inductive Sweep (harness : Harness Option) :
    World → List Cell → List Visit → World → Except Stop (List Row) → Prop
  | finished {w : World} : Sweep harness w [] [] w (.ok [])
  /-- The token is set before a cell. -/
  | interrupted {w w' : World} {cell : Cell} {rest : List Cell} (set : w.token = true)
    (done : w.Quiet w') : Sweep harness w (cell :: rest) [] w' (.ok [])
  /-- A cell fails. -/
  | failed {w before after w' : World} {cell : Cell} {rest : List Cell} {crew : Crew Traffic}
    {e : Stop} (unset : w.token = false) (start : w.Quiet before)
    (run : harness.perform before cell.crew = some (after, crew))
    (verdict : Harness.verdictOf crew = .error e) (done : after.Quiet w') :
    Sweep harness w (cell :: rest) [⟨cell, before, after, crew⟩] w' (.error e)
  /-- The token is set after a cell, whose row is dropped. -/
  | dropped {w before after w' : World} {cell : Cell} {rest : List Cell} {crew : Crew Traffic}
    {results : List WorkerResult} (unset : w.token = false) (start : w.Quiet before)
    (run : harness.perform before cell.crew = some (after, crew))
    (verdict : Harness.verdictOf crew = .ok results) (set : after.token = true)
    (done : after.Quiet w') :
    Sweep harness w (cell :: rest) [⟨cell, before, after, crew⟩] w' (.ok [])
  /-- The row of a cell is kept, and the sweep goes on. -/
  | kept {w before after v w' : World} {cell : Cell} {rest : List Cell} {crew : Crew Traffic}
    {results : List WorkerResult} {visits : List Visit} {r : Except Stop (List Row)}
    (unset : w.token = false) (start : w.Quiet before)
    (run : harness.perform before cell.crew = some (after, crew))
    (verdict : Harness.verdictOf crew = .ok results) (clear : after.token = false)
    (done : after.Quiet v) (next : Sweep harness v rest visits w' r) :
    Sweep harness w (cell :: rest) (⟨cell, before, after, crew⟩ :: visits) w'
      (r.map (aggregate cell results :: ·))

namespace Harness

variable {harness : Harness Option} {w w' : World} {r : Except Stop (List Row)}

theorem of_measure {cell : Cell} {row : Except Stop Row}
    (h : harness.measure cell w = some (w', row)) :
    ∃ (after : World) (crew : Crew Traffic), harness.perform w cell.crew = some (after, crew) ∧
      after.Quiet w' ∧ row = (verdictOf crew).map (aggregate cell) := by
  cases hrun : harness.perform w cell.crew with
  | none => simp [measure_of_none hrun] at h
  | some p =>
    obtain ⟨after, crew⟩ := p
    obtain ⟨v, hquiet, heq⟩ := measure_of_run hrun
    obtain ⟨rfl, rfl⟩ := Prod.mk.inj (Option.some.inj (heq.symm.trans h))
    exact ⟨after, crew, rfl, hquiet, rfl⟩

/-- **A sweep that gives a result is a sweep.** -/
theorem sweepFrom_sweep {total index : Nat} {cells : List Cell}
    (h : harness.sweepFrom total index cells w = some (w', r)) :
    ∃ visits, Sweep harness w cells visits w' r := by
  induction cells generalizing index w w' r with
  | nil =>
    obtain ⟨rfl, rfl⟩ := Run.of_pure h
    exact ⟨[], .finished⟩
  | cons cell rest ih =>
    unfold sweepFrom at h
    replace h := Run.of_look h
    split at h
    · rename_i hset
      obtain ⟨v, hquiet, h⟩ := Run.of_say h
      obtain ⟨rfl, rfl⟩ := Run.of_pure h
      exact ⟨[], .interrupted hset hquiet⟩
    · rename_i hset
      have hunset : w.token = false := by simpa using hset
      obtain ⟨before, hstart, h⟩ := Run.of_say h
      obtain ⟨v, row, hmeasure, h⟩ | ⟨e, hmeasure, rfl⟩ := Run.of_bind h
      · obtain ⟨after, crew, hrun, hquiet, hrow⟩ := of_measure hmeasure
        obtain ⟨results, hverdict, rfl⟩ := Fallible.ok_of_map hrow.symm
        replace h := Run.of_look h
        split at h
        · rename_i hset'
          obtain ⟨v', hquiet', h⟩ := Run.of_say h
          obtain ⟨rfl, rfl⟩ := Run.of_pure h
          exact ⟨_, .dropped hunset hstart hrun hverdict (hquiet.token ▸ hset') (hquiet.trans hquiet')⟩
        · rename_i hset'
          have hclear : after.token = false := by simpa [hquiet.token] using hset'
          obtain ⟨v', hquiet', h⟩ := Run.of_say h
          obtain ⟨u, rows, hrest, h⟩ | ⟨e, hrest, rfl⟩ := Run.of_bind h
          · obtain ⟨rfl, rfl⟩ := Run.of_pure h
            obtain ⟨visits, hsweep⟩ := ih hrest
            exact ⟨_, .kept hunset hstart hrun hverdict hclear (hquiet.trans hquiet') hsweep⟩
          · obtain ⟨visits, hsweep⟩ := ih hrest
            exact ⟨_, .kept hunset hstart hrun hverdict hclear (hquiet.trans hquiet') hsweep⟩
      · obtain ⟨after, crew, hrun, hquiet, hrow⟩ := of_measure hmeasure
        exact ⟨_, .failed hunset hstart hrun (Fallible.error_of_map hrow.symm) hquiet⟩

end Harness

/-! ## What the workers of a visit come to -/

/-- A worker that has ended brings nothing back exactly when it died. -/
theorem Caller.result?_eq_none {c : Caller Traffic} (h : ∃ how, c.stage = .ended how) :
    c.result? = none ↔ ∃ s, c.stage = .ended (.died s) := by
  obtain ⟨how, h⟩ := h
  unfold Caller.result?
  rw [h]
  cases how <;> simp

namespace Harness

variable {crew : Crew Traffic} {o : Nat}

/-- The verdict of a cell in which nobody died. -/
theorem verdictOf_of_alive (hgate : crew.gate = .openSince o)
    (hended : ∀ c ∈ crew.callers, ∃ how, c.stage = .ended how)
    (halive : ∀ c ∈ crew.callers, ∀ s, c.stage ≠ .ended (.died s)) :
    verdictOf crew = .ok (crew.callers.filterMap Caller.result?) ∧
      crew.callers.map Caller.result? = (crew.callers.filterMap Caller.result?).map some := by
  obtain ⟨heq, -⟩ | ⟨i, c, -, hc, hnone, -⟩ := resultsOf_cases 0 crew.callers
  · exact ⟨verdictOf_of_ok hgate heq, map_of_resultsOf heq⟩
  · have hmem := List.mem_of_getElem? hc
    obtain ⟨s, hs⟩ := (Caller.result?_eq_none (hended c hmem)).mp hnone
    exact absurd hs (halive c hmem s)

/-- The verdict of a cell in which somebody died. -/
theorem verdictOf_of_died (hgate : crew.gate = .openSince o)
    (hended : ∀ c ∈ crew.callers, ∃ how, c.stage = .ended how)
    (hdied : ∃ c ∈ crew.callers, ∃ s, c.stage = .ended (.died s)) :
    ∃ (i : Nat) (c : Caller Traffic) (s : Option Traffic),
      verdictOf crew = .error (.fault (.workerDied i)) ∧ crew.callers[i]? = some c ∧
      c.stage = .ended (.died s) ∧
      ∀ (j : Nat) (d : Caller Traffic), j < i → crew.callers[j]? = some d →
        ∀ s, d.stage ≠ .ended (.died s) := by
  obtain ⟨-, hall⟩ | ⟨i, c, heq, hc, hnone, hfirst⟩ := resultsOf_cases 0 crew.callers
  · obtain ⟨c, hc, hs⟩ := hdied
    exact absurd ((Caller.result?_eq_none (hended c hc)).mpr hs) (hall c hc)
  · obtain ⟨s, hs⟩ := (Caller.result?_eq_none (hended c (List.mem_of_getElem? hc))).mp hnone
    rw [Nat.zero_add] at heq
    refine ⟨i, c, s, verdictOf_of_error hgate heq, hc, hs, ?_⟩
    intro j d hj hd s' hs'
    exact hfirst j d hj hd
      ((Caller.result?_eq_none (hended d (List.mem_of_getElem? hd))).mpr ⟨s', hs'⟩)

end Harness

namespace Visit

/-- What a finished visit comes to: its row, or the first worker that died; or the window could not
be opened. -/
theorem verdict_cases (v : Visit) (hdone : v.crew.Done v.after) :
    (v.crew.gate = .stuck ∧ Harness.verdictOf v.crew = .error .died) ∨
    (v.crew.gate ≠ .stuck ∧ ¬ v.Died ∧
      (Harness.verdictOf v.crew).map (aggregate v.cell) = .ok v.row) ∨
    (v.crew.gate ≠ .stuck ∧ ∃ (i : Nat) (c : Caller Traffic) (s : Option Traffic),
      Harness.verdictOf v.crew = .error (.fault (.workerDied i)) ∧
      v.crew.callers[i]? = some c ∧ c.stage = .ended (.died s) ∧
      ∀ (j : Nat) (d : Caller Traffic), j < i → v.crew.callers[j]? = some d →
        ∀ s, d.stage ≠ .ended (.died s)) := by
  have hended : ∀ c ∈ v.crew.callers, ∃ how, c.stage = .ended how := fun c hc => hdone.ended hc
  cases hgate : v.crew.gate with
  | shut => exact absurd hgate hdone.2
  | stuck => exact .inl ⟨rfl, Harness.verdictOf_of_stuck hgate⟩
  | openSince o =>
    right
    by_cases hdied : v.Died
    · exact .inr ⟨by simp, Harness.verdictOf_of_died hgate hended hdied⟩
    · left
      obtain ⟨hverdict, -⟩ := Harness.verdictOf_of_alive hgate hended
        fun c hc s hs => hdied ⟨c, hc, s, hs⟩
      exact ⟨by simp, hdied, congrArg (Except.map (aggregate v.cell)) hverdict⟩

end Visit

/-! ## What the list of visits says -/

namespace Sweep

variable {harness : Harness Option} {w w' : World} {cells : List Cell} {visits : List Visit}
  {r : Except Stop (List Row)}

theorem order (h : Sweep harness w cells visits w' r) : visits.map Visit.cell <+: cells := by
  induction h with
  | finished => exact List.prefix_rfl
  | interrupted => exact List.nil_prefix
  | failed | dropped => exact List.cons_prefix_cons.mpr ⟨rfl, List.nil_prefix⟩
  | kept _ _ _ _ _ _ _ ih => exact List.cons_prefix_cons.mpr ⟨rfl, ih⟩

/-- Every visit is a run of the workers of its cell, from a world without a token. -/
theorem visit (h : Sweep harness w cells visits w' r) {v : Visit} (hv : v ∈ visits) :
    v.before.token = false ∧ harness.perform v.before v.cell.crew = some (v.after, v.crew) := by
  induction h with
  | finished | interrupted => simp at hv
  | failed unset start run | dropped unset start run =>
    obtain rfl := List.mem_singleton.mp hv
    exact ⟨start.token.trans unset, run⟩
  | kept unset start run _ _ _ _ ih =>
    rcases List.mem_cons.mp hv with rfl | hv
    · exact ⟨start.token.trans unset, run⟩
    · exact ih hv

theorem head_quiet (h : Sweep harness w cells visits w' r) {v : Visit}
    (hv : visits.head? = some v) : w.Quiet v.before := by
  cases h with
  | finished | interrupted => simp at hv
  | failed _ start | dropped _ start | kept _ start =>
    obtain rfl := Option.some.inj hv
    exact start

/-- The next visit starts where the last one ended, which was good and left the token unset. -/
theorem onward (h : Sweep harness w cells visits w' r) {i : Nat} {u v : Visit}
    (hu : visits[i]? = some u) (hv : visits[i + 1]? = some v) :
    u.after.Quiet v.before ∧ u.after.token = false ∧
      ∃ results, Harness.verdictOf u.crew = .ok results := by
  induction h generalizing i with
  | finished | interrupted => simp at hu
  | failed | dropped => simp at hv
  | kept _ _ _ verdict clear done next ih =>
    cases i with
    | zero =>
      obtain rfl := Option.some.inj hu
      refine ⟨done.trans (next.head_quiet ?_), clear, _, verdict⟩
      rw [List.head?_eq_getElem?]
      exact hv
    | succ i => exact ih hu hv

theorem last_quiet (h : Sweep harness w cells visits w' r) :
    (((visits.getLast?).map Visit.after).getD w).Quiet w' := by
  induction h with
  | finished => exact .refl _
  | interrupted _ done | failed _ _ _ _ done | dropped _ _ _ _ _ done => exact done
  | @kept _ _ after _ _ _ _ _ _ visits _ _ _ _ _ _ done _ ih =>
    cases visits with
    | nil => exact done.trans ih
    | cons v rest => rwa [List.getLast?_cons_cons]

/-- A failure is the last thing that a sweep does, and what it comes to. -/
theorem failure (h : Sweep harness w cells visits w' r) {v : Visit} (hv : v ∈ visits)
    {e : Stop} (hverdict : Harness.verdictOf v.crew = .error e) :
    visits.getLast? = some v ∧ r = .error e := by
  induction h with
  | finished | interrupted => simp at hv
  | failed _ _ _ verdict =>
    obtain rfl := List.mem_singleton.mp hv
    exact ⟨rfl, congrArg _ (Except.error.inj (verdict.symm.trans hverdict))⟩
  | dropped _ _ _ verdict =>
    obtain rfl := List.mem_singleton.mp hv
    simp [verdict] at hverdict
  | kept _ _ _ verdict _ _ _ ih =>
    rcases List.mem_cons.mp hv with rfl | hv
    · simp [verdict] at hverdict
    · obtain ⟨hlast, rfl⟩ := ih hv
      refine ⟨?_, rfl⟩
      rw [List.getLast?_cons, hlast]
      rfl

/-- Without a failure a sweep comes to the rows of the visits that were over before the token was
set. -/
theorem rows (h : Sweep harness w cells visits w' r)
    (hok : ∀ v ∈ visits, (Harness.verdictOf v.crew).map (aggregate v.cell) = .ok v.row) :
    r = .ok ((visits.take (visits.countP Visit.clear)).map Visit.row) := by
  induction h with
  | finished | interrupted => rfl
  | failed _ _ _ verdict =>
    have := hok _ List.mem_cons_self
    simp [verdict, Except.map] at this
  | dropped _ _ _ _ set => simp [Visit.clear, set]
  | kept _ _ _ verdict clear _ _ ih =>
    obtain ⟨hfirst, hrest⟩ := List.forall_mem_cons.mp hok
    rw [verdict] at hfirst
    rw [ih hrest, List.countP_cons_of_pos (by simp [Visit.clear, clear]), List.take_succ_cons,
      List.map_cons, ← Except.ok.inj hfirst]
    rfl

theorem length_rows {rows : List Row} (h : Sweep harness w cells visits w' (.ok rows)) :
    rows.length ≤ visits.length := by
  -- on the cells, because the rows of the rest are not an index of the relation
  induction cells generalizing w visits rows with
  | nil =>
    cases h
    exact Nat.le_refl _
  | cons cell rest ih =>
    generalize hr : Except.ok rows = r at h
    cases h with
    | interrupted | dropped =>
      obtain rfl := Except.ok.inj hr
      exact Nat.zero_le _
    | failed => simp at hr
    | kept _ _ _ _ _ _ next =>
      obtain ⟨later, rfl, rfl⟩ := Fallible.ok_of_map hr.symm
      exact Nat.succ_le_succ (ih next)

/-- A sweep that comes to rows and leaves the token unset has measured every cell, and has kept
every row. -/
theorem all_kept {rows : List Row} (h : Sweep harness w cells visits w' (.ok rows))
    (hunset : w'.token = false) :
    visits.map Visit.cell = cells ∧ rows.length = cells.length ∧
      ∀ (k : Nat) (v : Visit), visits[k]? = some v → v.after.token = false ∧
        ∃ results, Harness.verdictOf v.crew = .ok results ∧
          rows[k]? = some (aggregate v.cell results) := by
  generalize hr : Except.ok rows = r at h
  induction h generalizing rows with
  | finished =>
    obtain rfl := Except.ok.inj hr
    exact ⟨rfl, rfl, by simp⟩
  | interrupted set done => simp [done.token, set] at hunset
  | failed => simp at hr
  | dropped _ _ _ _ set done => simp [done.token, set] at hunset
  | kept _ _ _ verdict clear _ _ ih =>
    obtain ⟨later, rfl, rfl⟩ := Fallible.ok_of_map hr.symm
    obtain ⟨hcells, hlength, hall⟩ := ih hunset rfl
    refine ⟨congrArg _ hcells, congrArg _ hlength, ?_⟩
    intro k v hv
    cases k with
    | zero =>
      obtain rfl := Option.some.inj hv
      exact ⟨clear, _, verdict, rfl⟩
    | succ k => exact hall k v hv

/-- The visits that count are those that returned before the token was set. -/
theorem clear_of_mem_take (h : Sweep harness w cells visits w' r) {v : Visit}
    (hv : v ∈ visits.take (visits.countP Visit.clear)) : v.after.token = false := by
  induction h with
  | finished | interrupted => simp at hv
  | @failed _ _ after _ _ _ _ _ _ _ _ _ _ =>
    -- a failed visit counts as any other when it was over before the token was set
    cases hclear : after.token with
    | true => simp [Visit.clear, hclear] at hv
    | false =>
      obtain rfl := List.mem_singleton.mp (List.mem_of_mem_take hv)
      exact hclear
  | dropped _ _ _ _ set => simp [Visit.clear, set] at hv
  | kept _ _ _ _ clear _ _ ih =>
    rw [List.countP_cons_of_pos (by simp [Visit.clear, clear]), List.take_succ_cons] at hv
    rcases List.mem_cons.mp hv with rfl | hv
    · exact clear
    · exact ih hv

/-- **A sweep goes on to the next cell** unless the token is set or the last cell failed. -/
theorem stops (h : Sweep harness w cells visits w' r) (hshort : visits.length < cells.length) :
    (visits = [] ∧ w.token = true) ∨ ∃ v, visits.getLast? = some v ∧
      (v.after.token = true ∨ ∃ e, Harness.verdictOf v.crew = .error e) := by
  induction h with
  | finished => exact absurd hshort (Nat.lt_irrefl 0)
  | interrupted set => exact .inl ⟨rfl, set⟩
  | failed _ _ _ verdict => exact .inr ⟨_, rfl, .inr ⟨_, verdict⟩⟩
  | dropped _ _ _ _ set => exact .inr ⟨_, rfl, .inl set⟩
  | kept _ _ _ _ clear done _ ih =>
    obtain ⟨-, hset⟩ | ⟨v, hlast, hwhy⟩ := ih (Nat.lt_of_succ_lt_succ hshort)
    · -- the rest begins with the token that this cell left, which was unset
      simp [done.token, clear] at hset
    · refine .inr ⟨v, ?_, hwhy⟩
      rw [List.getLast?_cons, hlast]
      rfl

end Sweep

/-! ## The order of the cells -/

theorem getElem?_flatMap {α β : Type} {xs : List α} {f : α → List β} {n : Nat}
    (hlen : ∀ x ∈ xs, (f x).length = n) {i j : Nat} {x : α} (hx : xs[i]? = some x) (hj : j < n) :
    (xs.flatMap f)[i * n + j]? = (f x)[j]? := by
  induction xs generalizing i with
  | nil => simp at hx
  | cons y rest ih =>
    obtain ⟨hy, hrest⟩ := List.forall_mem_cons.mp hlen
    rw [List.flatMap_cons]
    cases i with
    | zero =>
      obtain rfl : y = x := by simpa using hx
      rw [Nat.zero_mul, Nat.zero_add, List.getElem?_append_left (by omega)]
    | succ i =>
      have hidx : (i + 1) * n + j = n + (i * n + j) := by rw [Nat.succ_mul]; omega
      rw [hidx, List.getElem?_append_right (by omega), hy, Nat.add_sub_cancel_left]
      exact ih hrest (by simpa using hx)

namespace Matrix

variable {m : Matrix} {target : Target} {keys : KeySpace}

theorem mem_cells {cell : Cell} (h : cell ∈ m.cells target keys) :
    cell.keys = keys ∧ cell.valueSize ∈ m.valueSizes ∧ cell.operation ∈ m.operations := by
  simp only [cells, List.mem_flatMap, List.mem_map] at h
  obtain ⟨valueSize, hsize, _, -, operation, hop, rfl⟩ := h
  exact ⟨rfl, hsize, hop⟩

theorem duration_of_mem_cells {cell : Cell} (h : cell ∈ m.cells target keys) :
    cell.duration = m.duration := by
  simp only [cells, List.mem_flatMap, List.mem_map] at h
  obtain ⟨_, -, _, -, _, -, rfl⟩ := h
  rfl

/-- Cells do not get larger when the value sizes do not. -/
theorem pairwise_cells (target : Target) (keys : KeySpace) (h : m.valueSizes.Pairwise (· ≥ ·)) :
    (m.cells target keys).Pairwise fun c d => c.valueSize ≥ d.valueSize := by
  have hsize : ∀ {valueSize : Nat} {cell : Cell}, (cell ∈ m.clientCounts.flatMap fun concurrency =>
      m.operations.map fun operation => ({ target, operation, keys, valueSize
                                           duration := m.duration, concurrency
                                           seed := operation.baseSeed } : Cell)) →
      cell.valueSize = valueSize := by
    intro valueSize cell hmem
    simp only [List.mem_flatMap, List.mem_map] at hmem
    obtain ⟨_, -, _, -, rfl⟩ := hmem
    rfl
  refine List.pairwise_flatMap.mpr ⟨fun valueSize _ => ?_, h.imp fun hge c hc d hd => ?_⟩
  · refine List.pairwise_iff_forall_sublist.mpr ?_
    intro c d hsub
    have hc := hsize (hsub.subset List.mem_cons_self)
    have hd := hsize (hsub.subset (List.mem_cons_of_mem _ List.mem_cons_self))
    exact Nat.le_of_eq (hd.trans hc.symm)
  · rw [hsize hc, hsize hd]
    exact hge

theorem length_cells : (m.cells target keys).length
    = m.valueSizes.length * (m.clientCounts.length * m.operations.length) := by
  simp only [cells, List.length_flatMap, List.length_map, List.map_const', List.sum_replicate_nat]

theorem getElem?_cells {a b c valueSize concurrency : Nat} {operation : Operation}
    (ha : m.valueSizes[a]? = some valueSize) (hb : m.clientCounts[b]? = some concurrency)
    (hc : m.operations[c]? = some operation) :
    (m.cells target keys)[(a * m.clientCounts.length + b) * m.operations.length + c]?
      = some { target, operation, keys, valueSize, duration := m.duration, concurrency
               seed := operation.baseSeed } := by
  obtain ⟨hblt, -⟩ := List.getElem?_eq_some_iff.mp hb
  obtain ⟨hclt, -⟩ := List.getElem?_eq_some_iff.mp hc
  have hidx : (a * m.clientCounts.length + b) * m.operations.length + c
      = a * (m.clientCounts.length * m.operations.length) + (b * m.operations.length + c) := by
    rw [Nat.add_mul, Nat.mul_assoc, Nat.add_assoc]
  have hlt : b * m.operations.length + c < m.clientCounts.length * m.operations.length := by
    calc b * m.operations.length + c
        < b * m.operations.length + m.operations.length := Nat.add_lt_add_left hclt _
      _ = (b + 1) * m.operations.length := (Nat.succ_mul _ _).symm
      _ ≤ m.clientCounts.length * m.operations.length := Nat.mul_le_mul_right _ hblt
  rw [cells, hidx, getElem?_flatMap ?_ ha hlt, getElem?_flatMap ?_ hb hclt, List.getElem?_map, hc]
  · rfl
  · intro concurrency _
    rw [List.length_map]
  · intro valueSize _
    simp only [List.length_flatMap, List.length_map, List.map_const', List.sum_replicate_nat]

end Matrix

/-! ## The rows -/

/-- A sweep over `cells` from `w` to `w'`, in terms of its visits; the first `k` of them, those
that returned while the token was still unset, are the ones that count. -/
structure Swept (scene : Scene) (cells : List Cell) (w w' : World) (r : Except Stop (List Row))
    (visits : List Visit) (k : Nat) : Prop where
  count : k = visits.countP Visit.clear
  /-- The cells are visited in their order … -/
  order : visits.map Visit.cell <+: cells
  /-- … one after the other: each starts where the last one ended, with all its workers … -/
  starts : ∀ v, visits.head? = some v → w.Quiet v.before
  follows : ∀ (i : Nat) (u v : Visit), visits[i]? = some u → visits[i + 1]? = some v →
    u.after.Quiet v.before
  ends : (((visits.getLast?).map Visit.after).getD w).Quiet w'
  joined : ∀ v ∈ visits, Crew.Reaches scene v.before v.cell.crew v.after v.crew ∧
    ∀ c ∈ v.crew.callers, ∃ how, c.stage = .ended how
  /-- … and none starts once the token is set. -/
  unset : ∀ v ∈ visits, v.before.token = false
  /-- If no worker died, the rows are those of the first `k` cells. -/
  rows : (∀ v ∈ visits, v.crew.gate ≠ .stuck ∧ ¬ v.Died) →
    r = .ok ((visits.take k).map Visit.row)
  kept : (visits.take k).map Visit.cell = cells.take k
  /-- The token was never set during a cell that counts. -/
  untouched : ∀ v ∈ visits.take k, v.after.token = false ∧
    ∀ e ∈ v.after.since v.before, e.event ≠ .cancelled
  /-- Short of the last cell a sweep stops only for the token, for a worker that died or for a
  window whose end the clock cannot show. -/
  stops : visits.length < cells.length → (visits = [] ∧ w.token = true) ∨
    ∃ v, visits.getLast? = some v ∧ (v.after.token = true ∨ v.Died ∨ v.crew.gate = .stuck)
  /-- All cells count exactly if the token was unset when the last one returned. -/
  full : (∀ v ∈ visits, v.crew.gate ≠ .stuck ∧ ¬ v.Died) → cells ≠ [] →
    (k = cells.length ↔ ∃ v, visits.getLast? = some v ∧ v.after.token = false)
  /-- A worker that died ends the sweep, also when the token was set meanwhile, and the first one
  of its cell is reported. -/
  died : ∀ v ∈ visits, v.crew.gate ≠ .stuck → v.Died → visits.getLast? = some v ∧
    ∃ (i : Nat) (c : Caller Traffic) (s : Option Traffic), r = .error (.fault (.workerDied i)) ∧
      v.crew.callers[i]? = some c ∧ c.stage = .ended (.died s) ∧
      ∀ (j : Nat) (d : Caller Traffic), j < i → v.crew.callers[j]? = some d →
        ∀ s, d.stage ≠ .ended (.died s)
  /-- So does a window whose end the clock cannot show. -/
  stuck : ∀ v ∈ visits, v.crew.gate = .stuck → visits.getLast? = some v ∧ r = .error .died ∧
    ∃ o, v.crew.Opening v.before o ∧
      World.clockSpan ≤ (o + v.cell.duration.nanos) / Duration.nanosPerSec

namespace Sweep

variable {scene : Scene} {harness : Harness Option} {w w' : World} {cells : List Cell} {visits : List Visit}
  {r : Except Stop (List Row)}

theorem joined (hf : harness.Follows scene) (h : Sweep harness w cells visits w' r) {v : Visit}
    (hv : v ∈ visits) :
    Crew.Reaches scene v.before v.cell.crew v.after v.crew ∧ v.crew.Done v.after :=
  hf (v.cell.crew_starts v.before) (h.visit hv).2

theorem verdict (hf : harness.Follows scene) (h : Sweep harness w cells visits w' r) {v : Visit}
    (hv : v ∈ visits) (hok : v.crew.gate ≠ .stuck ∧ ¬ v.Died) :
    (Harness.verdictOf v.crew).map (aggregate v.cell) = .ok v.row := by
  obtain ⟨-, hdone⟩ := h.joined hf hv
  obtain ⟨hstuck, -⟩ | ⟨-, -, hrow⟩ | ⟨-, i, c, s, -, hc, hs, -⟩ := v.verdict_cases hdone
  · exact absurd hstuck hok.1
  · exact hrow
  · exact absurd ⟨c, List.mem_of_getElem? hc, s, hs⟩ hok.2

/-- What makes a cell fail is a worker that died or a gate that stuck. -/
theorem stops_for (hf : harness.Follows scene) (h : Sweep harness w cells visits w' r)
    (hshort : visits.length < cells.length) :
    (visits = [] ∧ w.token = true) ∨ ∃ v, visits.getLast? = some v ∧
      (v.after.token = true ∨ v.Died ∨ v.crew.gate = .stuck) := by
  refine (h.stops hshort).imp_right ?_
  rintro ⟨v, hlast, hset | ⟨e, hverdict⟩⟩
  · exact ⟨v, hlast, .inl hset⟩
  · obtain ⟨-, hdone⟩ := h.joined hf (List.mem_of_getLast? hlast)
    obtain ⟨hstuck, -⟩ | ⟨-, -, hrow⟩ | ⟨-, i, c, s, -, hc, hs, -⟩ := v.verdict_cases hdone
    · exact ⟨v, hlast, .inr (.inr hstuck)⟩
    · simp [hverdict, Except.map] at hrow
    · exact ⟨v, hlast, .inr (.inl ⟨c, List.mem_of_getElem? hc, s, hs⟩)⟩

/-- All visits before the last one returned with the token unset. -/
theorem all_clear (h : Sweep harness w cells visits w' r) {v : Visit}
    (hlast : visits.getLast? = some v) (hclear : v.after.token = false) :
    ∀ u ∈ visits, u.after.token = false := by
  intro u hu
  obtain ⟨i, hi⟩ := List.mem_iff_getElem?.mp hu
  cases hnext : visits[i + 1]? with
  | some x => exact (h.onward hi hnext).2.1
  | none =>
    have hlen := List.getElem?_eq_none_iff.mp hnext
    obtain ⟨hlt, -⟩ := List.getElem?_eq_some_iff.mp hi
    rw [List.getLast?_eq_getElem?, show visits.length - 1 = i by omega, hi] at hlast
    exact Option.some.inj hlast ▸ hclear

theorem kept_cells (h : Sweep harness w cells visits w' r) {k : Nat} (hk : k ≤ visits.length) :
    (visits.take k).map Visit.cell = cells.take k := by
  obtain ⟨rest, hrest⟩ := h.order
  rw [List.map_take, ← hrest, List.take_append_of_le_length (by rw [List.length_map]; exact hk)]

theorem untouched (hf : harness.Follows scene) (h : Sweep harness w cells visits w' r) {v : Visit}
    (hv : v ∈ visits.take (visits.countP Visit.clear)) :
    ∀ e ∈ v.after.since v.before, e.event ≠ .cancelled := by
  intro e he hcancel
  have hg := (h.joined hf (List.mem_of_mem_take hv)).1.grounded (v.cell.crew_starts v.before)
  have hclear := h.clear_of_mem_take hv
  have hset : v.before.tokenAfter (v.after.since v.before) = true :=
    World.tokenAfter_iff.mpr (.inr ⟨e.instant, by rw [← hcancel]; exact he⟩)
  rw [hg.traces.token, hset] at hclear
  simp at hclear

theorem full (hf : harness.Follows scene) (h : Sweep harness w cells visits w' r)
    (hok : ∀ v ∈ visits, v.crew.gate ≠ .stuck ∧ ¬ v.Died) (hne : cells ≠ []) :
    visits.countP Visit.clear = cells.length ↔
      ∃ v, visits.getLast? = some v ∧ v.after.token = false := by
  have hle : visits.length ≤ cells.length := by simpa using h.order.length_le
  constructor
  · intro hk
    -- as many clear visits as cells: then all cells were visited, and all visits are clear
    have hcount : visits.countP Visit.clear = visits.length :=
      Nat.le_antisymm List.countP_le_length (hk ▸ hle)
    have hnonempty : visits ≠ [] := by
      rintro rfl
      exact hne (List.eq_nil_of_length_eq_zero hk.symm)
    have hclear := List.countP_eq_length.mp hcount _ (List.getLast_mem hnonempty)
    exact ⟨_, List.getLast?_eq_some_getLast hnonempty, by simpa [Visit.clear] using hclear⟩
  · rintro ⟨v, hlast, hclear⟩
    have hall := h.all_clear hlast hclear
    have hcomplete : visits.length = cells.length := by
      refine Nat.le_antisymm hle (Nat.not_lt.mp fun hshort => ?_)
      obtain ⟨rfl, -⟩ | ⟨u, hu, hset | hdied | hstuck⟩ := h.stops_for hf hshort
      · simp at hlast
      · simp [hall u (List.mem_of_getLast? hu)] at hset
      · exact (hok u (List.mem_of_getLast? hu)).2 hdied
      · exact (hok u (List.mem_of_getLast? hu)).1 hstuck
    rw [← hcomplete]
    exact List.countP_eq_length.mpr fun u hu => by simp [Visit.clear, hall u hu]

theorem died (hf : harness.Follows scene) (h : Sweep harness w cells visits w' r) {v : Visit}
    (hv : v ∈ visits) (hstuck : v.crew.gate ≠ .stuck) (hdied : v.Died) :
    visits.getLast? = some v ∧
      ∃ (i : Nat) (c : Caller Traffic) (s : Option Traffic), r = .error (.fault (.workerDied i)) ∧
        v.crew.callers[i]? = some c ∧ c.stage = .ended (.died s) ∧
        ∀ (j : Nat) (d : Caller Traffic), j < i → v.crew.callers[j]? = some d →
          ∀ s, d.stage ≠ .ended (.died s) := by
  obtain ⟨-, hdone⟩ := h.joined hf hv
  obtain ⟨hs, -⟩ | ⟨-, hno, -⟩ | ⟨-, i, c, s, hverdict, hc, hs, hfirst⟩ := v.verdict_cases hdone
  · exact absurd hs hstuck
  · exact absurd hdied hno
  · obtain ⟨hlast, hr⟩ := h.failure hv hverdict
    exact ⟨hlast, i, c, s, hr, hc, hs, hfirst⟩

theorem swept (hf : harness.Follows scene) (h : Sweep harness w cells visits w' r) :
    Swept scene cells w w' r visits (visits.countP Visit.clear) where
  count := rfl
  order := h.order
  starts := fun v hv => h.head_quiet hv
  follows := fun i u v hu hv => (h.onward hu hv).1
  ends := h.last_quiet
  joined := fun v hv => ⟨(h.joined hf hv).1, fun c hc => (h.joined hf hv).2.ended hc⟩
  unset := fun v hv => (h.visit hv).1
  rows := fun hok => h.rows fun v hv => h.verdict hf hv (hok v hv)
  kept := h.kept_cells List.countP_le_length
  untouched := fun v hv => ⟨h.clear_of_mem_take hv, h.untouched hf hv⟩
  stops := h.stops_for hf
  full := h.full hf
  died := fun v hv => h.died hf hv
  stuck := by
    intro v hv hstuck
    obtain ⟨hlast, hr⟩ := h.failure hv (by rw [Harness.verdictOf, hstuck])
    exact ⟨hlast, hr, Crew.Reaches.opening_of_stuck (h.joined hf hv).1 hstuck⟩

end Sweep

namespace Harness

/-- A sweep whose cells come to their end has a result, given enough steps for each cell. -/
theorem sweepFrom_settles_of_measure {scene : Scene} {cells : List Cell}
    (hmeasure : ∀ cell ∈ cells, ∀ v, Run.Settles (fun n => (scene.harness n).measure cell) v)
    (total index : Nat) (w : World) :
    Run.Settles (fun n => (scene.harness n).sweepFrom total index cells) w := by
  induction cells generalizing index w with
  | nil => exact .const rfl
  | cons cell rest ih =>
    obtain ⟨hcell, hrest⟩ := List.forall_mem_cons.mp hmeasure
    have hlook : ∀ (v : World) (f : World → Bool), Run.Settles (fun _ => Run.look f) v :=
      fun v f => .const rfl
    refine .bind (hlook w _) ?_
    intro v set
    cases set with
    | true => exact .const rfl
    | false =>
      refine .bind (.const rfl) fun v _ => .bind (hcell v) ?_
      intro v row
      refine .bind (hlook v _) ?_
      intro v set
      cases set with
      | true => exact .const rfl
      | false =>
        exact .bind (.const rfl) fun v _ => .bind (ih hrest (index + 1) v) fun _ _ => .const rfl

/-- So it has when every request takes time. -/
theorem sweepFrom_settles {scene : Scene} (hp : scene.Paced) (total index : Nat)
    (cells : List Cell) (w : World) :
    Run.Settles (fun n => (scene.harness n).sweepFrom total index cells) w := by
  refine sweepFrom_settles_of_measure ?_ total index w
  intro cell _ v
  have hstart : Crew.Reaches scene v cell.crew v cell.crew := .start
  obtain ⟨v', crew, hleads, hdone⟩ := hstart.ends hp
  obtain ⟨limit, hrun⟩ := hleads.run hdone
  exact measure_settles hrun

/-- **The rows of a sweep**, whoever runs the cells in the scene; and the machine does, when
requests take time. -/
theorem sweep_rows (scene : Scene) (target : Target) (matrix : Matrix) (keys : KeySpace)
    (w : World) :
    (matrix.cells target keys).length
      = matrix.valueSizes.length * (matrix.clientCounts.length * matrix.operations.length) ∧
    (∀ (a b c valueSize concurrency : Nat) (operation : Operation),
      matrix.valueSizes[a]? = some valueSize → matrix.clientCounts[b]? = some concurrency →
      matrix.operations[c]? = some operation →
      (matrix.cells target keys)[(a * matrix.clientCounts.length + b) * matrix.operations.length + c]?
        = some { target, operation, keys, valueSize, duration := matrix.duration, concurrency
                 seed := operation.baseSeed }) ∧
    (∀ (harness : Harness Option) (w' : World) (r : Except Stop (List Row)),
      harness.Follows scene → harness.sweep target matrix keys w = some (w', r) →
      ∃ (visits : List Visit) (k : Nat), Swept scene (matrix.cells target keys) w w' r visits k) ∧
    (∀ limit, (scene.harness limit).Follows scene) ∧
    (scene.Paced → ∃ (limit : Nat) (w' : World) (r : Except Stop (List Row)), ∀ more, limit ≤ more →
      (scene.harness more).sweep target matrix keys w = some (w', r)) := by
  refine ⟨Matrix.length_cells, fun _ _ _ _ _ _ => Matrix.getElem?_cells, ?_,
    scene.harness_follows, ?_⟩
  · intro harness w' r hf h
    obtain ⟨visits, hsweep⟩ := sweepFrom_sweep h
    exact ⟨visits, _, hsweep.swept hf⟩
  · intro hp
    obtain ⟨limit, ⟨w', r⟩, h⟩ :=
      sweepFrom_settles hp (matrix.cells target keys).length 0 (matrix.cells target keys) w
    exact ⟨limit, w', r, h⟩

/-- The token is set in the third of four cells, and the rows of the first two remain. -/
theorem sweep_rows_sample : ∃ (w' : World) (rows : List Row) (visits : List Visit) (k : Nat),
    (Sample.steady.harness 100).sweep Sample.target Sample.matrix Sample.keys
      (.start (some (.ofMillis 5))) = some (w', .ok rows) ∧ rows.length = 2 ∧
    Swept Sample.steady (Sample.matrix.cells Sample.target Sample.keys)
      (.start (some (.ofMillis 5))) w' (.ok rows) visits k := by
  have hrun : ((Sample.steady.harness 100).sweep Sample.target Sample.matrix Sample.keys
      (.start (some (.ofMillis 5)))).map (fun p => p.2.toOption.map List.length)
      = some (some 2) := by
    decide +kernel
  obtain ⟨⟨w', r⟩, hrun, hlength⟩ := Option.map_eq_some_iff.mp hrun
  cases r with
  | error => simp [Except.toOption] at hlength
  | ok rows =>
    obtain ⟨-, -, hall, hmachine, -⟩ := sweep_rows Sample.steady Sample.target Sample.matrix
      Sample.keys (.start (some (.ofMillis 5)))
    obtain ⟨visits, k, hswept⟩ := hall _ w' _ (hmachine 100) hrun
    exact ⟨w', rows, visits, k, hrun, Option.some.inj hlength, hswept⟩

end Harness

end LoadSweep
