import LoadSweep.Proofs.Welcome

/-!
# `LoadSweep/Proofs/Interrupt.lean` — what an interrupt costs

An interrupt is meant to end a run with the rows that are there. Against a server that welcomes
everybody nothing else can go wrong, so what becomes of a plan shows what the interrupt costs:
once the callers of the set-up have been met it costs the cells that were not over, and the result is
the rows of the others (`Plan.Concluded`). Before that it is a failure. The probe and the preload
connect like any other caller, a caller that finds the token set is called off, and nothing between
them and the result of the plan makes an empty list of that (`Plan.interrupt_fails`).
-/

set_option autoImplicit false

namespace LoadSweep

/-! ## The cells of a sweep -/

theorem World.canShow_mono {w w' : World} {d : Duration} (hle : w.now ≤ w'.now)
    (h : World.clockSpan ≤ (w.now + d.nanos) / Duration.nanosPerSec) : w'.canShow d = false := by
  refine decide_eq_false (Nat.not_lt_of_le (Nat.le_trans h ?_))
  exact Nat.div_le_div_right (Nat.add_le_add_right hle _)

/-- A gate that is stuck is the end of a sweep, because the clock cannot show the end of the cell. -/
theorem Swept.of_stuck {scene : Scene} {cells : List Cell} {w w' : World} {n : Nat}
    {visits : List Visit} {r : Except Stop (List Row)} (h : Swept scene cells w w' r visits n)
    {v : Visit} (hv : v ∈ visits) (hstuck : v.crew.gate = .stuck) :
    r = .error .died ∧ w'.canShow v.cell.duration = false := by
  obtain ⟨hlast, hr, o, hopening, hspan⟩ := h.stuck v hv hstuck
  have hends := h.ends
  rw [hlast, Option.map_some, Option.getD_some] at hends
  have hg := (h.joined v hv).1.grounded (v.cell.crew_starts v.before)
  have hle : o ≤ v.after.now := by
    obtain ⟨c, hc, ho⟩ | ⟨-, rfl⟩ := hopening.last
    · have ht := hg.timed c hc
      obtain ⟨t, hat, -, hle⟩ := ht.settledWithin fun hd => by
        rw [← ht.settledAt_eq_none, ho] at hd
        simp at hd
      rw [ho] at hat
      exact Option.some.inj hat ▸ hle
    · exact hg.clock
  refine ⟨hr, World.canShow_mono (w := { w' with now := o }) ?_ hspan⟩
  rw [hends.now]
  exact hle

namespace Sweep

variable {harness : Harness Option} {scene : Scene} {w w' : World} {cells : List Cell}
  {visits : List Visit} {r : Except Stop (List Row)}

theorem passes (h : Sweep harness w cells visits w' r) : harness.Passes w w' := by
  have hvisit : ∀ {u before after u' : World} {cell : Cell} {crew : Crew Traffic}, u.Quiet before →
      harness.perform before cell.crew = some (after, crew) → after.Quiet u' →
      harness.Passes u u' := fun start run done =>
    .trans (.quiet start) (.trans (.crew (Cell.crew_starts _ _) (Traffic.job_heeds _ _ _ _).quits run)
      (.quiet done))
  induction h with
  | finished => exact .quiet (.refl _)
  | interrupted _ done => exact .quiet done
  | failed _ start run _ done | dropped _ start run _ _ done => exact hvisit start run done
  | kept _ start run _ _ done _ ih => exact .trans (hvisit start run done) ih

/-- Nobody dies that is welcome. -/
theorem not_died (hf : harness.Follows scene) (hw : scene.Welcomes)
    (h : Sweep harness w cells visits w' r) {v : Visit} (hv : v ∈ visits) : ¬ v.Died := by
  rintro ⟨c, hc, s, hs⟩
  obtain ⟨hreach, hdone⟩ := h.joined hf hv
  obtain ⟨how, hend, hcases⟩ := hreach.departs (v.cell.crew_starts v.before) hdone hw
    (Traffic.job_lasts _ _ _ _) hc
  obtain rfl : how = .died s := by
    rw [hs] at hend
    exact (Stage.ended.inj hend).symm
  obtain ⟨_, hserved⟩ | ⟨hoff, -⟩ | ⟨hstood, -⟩ := hcases
  · simp at hserved
  · simp at hoff
  · simp at hstood

end Sweep

/-! ## The end of a plan -/

/-- How a plan that began in `w₀` ends against a server that welcomes everybody. -/
structure Plan.Concluded (plan : Plan) (scene : Scene) (harness : Harness Option) (w₀ w : World)
    (r : Except Stop (List Row)) : Prop where
  /-- The interrupt is a failure exactly when it came before the callers of the set-up were met. -/
  calledOff : r = .error (.fault .cancelled) ↔ w.met < w₀.met + plan.setups
  /-- There is no other failure, but for windows whose end the clock cannot show. -/
  failed : ∀ e, r = .error e → (e = .fault .cancelled ∧ w.token = true) ∨
    (e = .died ∧ (w.canShow plan.warmup = false ∨ w.canShow plan.matrix.duration = false))
  /-- If it was interrupted later, the rows are those of the cells that had returned by then; there
  are none if no cell had begun. -/
  rows : ∀ rows, r = .ok rows →
    (rows = [] ∧ w.token = true ∧ harness.prepare plan w₀ = some (w, .ok none)) ∨
    ∃ (keys : KeySpace) (ready : World) (visits : List Visit) (k : Nat),
      harness.prepare plan w₀ = some (ready, .ok (some keys)) ∧
      Swept scene (plan.matrix.cells plan.target keys) ready w r visits k ∧
      rows = (visits.take k).map Visit.row
  /-- If it was not, there is a row for every cell. -/
  full : w.token = false → ∀ rows, r = .ok rows → rows.length
    = plan.matrix.valueSizes.length * (plan.matrix.clientCounts.length * plan.matrix.operations.length)

namespace Plan

variable {harness : Harness Option} {scene : Scene} {plan : Plan} {w₀ w ready : World}
  {r : Except Stop (List Row)} {keys : KeySpace} {visits : List Visit}

theorem calledOff_of_met (hmet : w₀.met + plan.setups ≤ w.met)
    (hr : r ≠ .error (.fault .cancelled)) :
    r = .error (.fault .cancelled) ↔ w.met < w₀.met + plan.setups :=
  ⟨fun h => absurd h hr, fun hlt => absurd hmet (Nat.not_le_of_lt hlt)⟩

/-- A plan that has come to its sweep. -/
theorem concluded_of_sweep (hf : harness.Follows scene) (hw : scene.Welcomes)
    (hprepare : harness.prepare plan w₀ = some (ready, .ok (some keys)))
    (hmet : w₀.met + plan.setups ≤ w.met)
    (h : Sweep harness ready (plan.matrix.cells plan.target keys) visits w r) :
    plan.Concluded scene harness w₀ w r := by
  have hswept := h.swept hf
  have hcases : (∀ v ∈ visits, v.crew.gate ≠ .stuck ∧ ¬ v.Died) ∨
      (r = .error .died ∧ w.canShow plan.matrix.duration = false) := by
    by_cases hstuck : ∃ v ∈ visits, v.crew.gate = .stuck
    · obtain ⟨v, hv, hstuck⟩ := hstuck
      obtain ⟨hr, hshow⟩ := hswept.of_stuck hv hstuck
      have hcell : v.cell ∈ plan.matrix.cells plan.target keys :=
        h.order.subset (List.mem_map_of_mem hv)
      rw [Matrix.duration_of_mem_cells hcell] at hshow
      exact .inr ⟨hr, hshow⟩
    · exact .inl fun v hv => ⟨fun hs => hstuck ⟨v, hv, hs⟩, h.not_died hf hw hv⟩
  obtain hok | ⟨rfl, hshow⟩ := hcases
  · have hr := hswept.rows hok
    refine { calledOff := calledOff_of_met hmet (by simp [hr]), failed := ?_, rows := ?_, full := ?_ }
    · intro e he
      simp [hr] at he
    · intro rows hrows
      rw [hr] at hrows
      exact .inr ⟨keys, ready, visits, _, hprepare, hswept, (Except.ok.inj hrows).symm⟩
    · intro hunset rows hrows
      rw [hrows] at h
      rw [(h.all_kept hunset).2.1, Matrix.length_cells]
  · refine { calledOff := calledOff_of_met hmet (by simp), failed := ?_, rows := by simp, full := by simp }
    intro e he
    exact .inr ⟨(Except.error.inj he).symm, .inr hshow⟩

/-- **An interrupt costs a plan the cells that were not over**, whoever runs the crews, and at
whatever moment it comes, if the server had met the callers of the set-up by then; else the plan
fails. A plan has a result when requests take time. -/
theorem concluded (hw : scene.Welcomes) (hvalid : plan.validate = .ok ())
    (hmode : plan.keyMode ≠ .decimal 0) (w₀ : World) :
    (∀ (harness : Harness Option) (w : World) (r : Except Stop (List Row)),
      harness.Follows scene → harness.session plan w₀ = some (w, r) →
      plan.Concluded scene harness w₀ w r) ∧
    (∀ limit, (scene.harness limit).Follows scene) ∧
    (scene.Paced → ∃ (limit : Nat) (w : World) (r : Except Stop (List Row)), ∀ more, limit ≤ more →
      (scene.harness more).session plan w₀ = some (w, r)) := by
  refine ⟨?_, scene.harness_follows, ?_⟩
  · intro harness w r hf h
    obtain ⟨e, rfl, hprepare⟩ | ⟨rfl, hprepare⟩ | ⟨keys, ready, visits, hprepare, hsweep, -⟩ :=
      Harness.comes_of_session h
    · obtain ⟨he, htoken, hlt⟩ | ⟨hle, ⟨he, hshow⟩ | ⟨he, -⟩ | ⟨keys, he⟩⟩ :=
        Harness.prepare_welcomed hf hw hvalid hmode hprepare
      · obtain rfl := Except.error.inj he
        refine { calledOff := ⟨fun _ => hlt, fun _ => rfl⟩, failed := ?_, rows := by simp, full := by simp }
        intro e he
        exact .inl ⟨(Except.error.inj he).symm, htoken⟩
      · obtain rfl := Except.error.inj he
        refine { calledOff := calledOff_of_met hle (by simp), failed := ?_, rows := by simp, full := by simp }
        intro e he
        exact .inr ⟨(Except.error.inj he).symm, .inl hshow⟩
      · simp at he
      · simp at he
    · obtain ⟨he, -⟩ | ⟨hle, ⟨he, -⟩ | ⟨-, htoken⟩ | ⟨keys, he⟩⟩ :=
        Harness.prepare_welcomed hf hw hvalid hmode hprepare
      · simp at he
      · simp at he
      · refine { calledOff := calledOff_of_met hle (by simp), failed := by simp, rows := ?_
                 full := by simp [htoken] }
        intro rows hrows
        exact .inl ⟨(Except.ok.inj hrows).symm, htoken, hprepare⟩
      · simp at he
    · obtain ⟨he, -⟩ | ⟨hle, -⟩ := Harness.prepare_welcomed hf hw hvalid hmode hprepare
      · simp at he
      · have hmet := Nat.le_trans hle (hsweep.passes.met_le hf.keeps)
        exact concluded_of_sweep hf hw hprepare hmet hsweep
  · intro hp
    obtain ⟨limit, ⟨w, r⟩, h⟩ := Harness.session_settles hp plan w₀
    exact ⟨limit, w, r, h⟩

end Plan

theorem Sample.steady_welcomes : Sample.steady.Welcomes where
  tries := by decide
  accepts := fun _ _ => rfl
  answers := by
    intro k n r
    cases r <;> exact ⟨none, rfl⟩

theorem Sample.startled_welcomes : Sample.startled.Welcomes where
  tries := by decide
  accepts := fun _ _ => rfl
  answers := by
    intro k n r
    cases r <;> exact ⟨none, rfl⟩

/-- The interrupt comes in the third of four cells. -/
theorem Plan.concluded_sample : ∃ (w : World) (rows : List Row),
    (Sample.steady.harness 100).session Sample.plan (.start (some (.ofMillis 6)))
      = some (w, .ok rows) ∧ rows.length = 2 ∧
    Sample.plan.Concluded Sample.steady (Sample.steady.harness 100)
      (.start (some (.ofMillis 6))) w (.ok rows) := by
  have hrun : ((Sample.steady.harness 100).session Sample.plan
      (.start (some (.ofMillis 6)))).map (fun p => p.2.toOption.map List.length)
      = some (some 2) := by decide +kernel
  obtain ⟨⟨w, r⟩, hw, hlength⟩ := Option.map_eq_some_iff.mp hrun
  cases r with
  | error => simp [Except.toOption] at hlength
  | ok rows =>
    have hvalid : Sample.plan.validate = .ok () := rfl
    obtain ⟨hall, hmachine, -⟩ := Plan.concluded Sample.steady_welcomes hvalid (by decide)
      (.start (some (.ofMillis 6)))
    exact ⟨w, rows, hw, Option.some.inj hlength, hall _ w _ (hmachine 100) hw⟩

/-- **An interrupt alone can make a plan fail**: the token is set while the probe tries to connect,
so the preload does not, and its being called off is what the plan comes to. -/
theorem Plan.interrupt_fails :
    (Sample.plan.validate = .ok () ∧ Sample.plan.keyMode ≠ .decimal 0 ∧
      Sample.startled.Welcomes) ∧
    ¬ ∀ (w : World) (r : Except Stop (List Row)),
      (Sample.startled.harness 100).session Sample.plan (.start none) = some (w, r) →
      ∃ rows, r = .ok rows := by
  refine ⟨⟨rfl, by decide, Sample.startled_welcomes⟩, ?_⟩
  intro hclaim
  have hrun : ((Sample.startled.harness 100).session Sample.plan (.start none)).map
      (fun p => p.2.toOption.isSome) = some false := by decide +kernel
  obtain ⟨⟨w, r⟩, hw, hfailed⟩ := Option.map_eq_some_iff.mp hrun
  obtain ⟨rows, rfl⟩ := hclaim w r hw
  simp [Except.toOption] at hfailed

end LoadSweep
