import LoadSweep.Proofs.Independence
import LoadSweep.Proofs.Interrupt
import LoadSweep.Proofs.Rations
import LoadSweep.Proofs.Stint

/-!
# `LoadSweep/Proofs/Phases.lean` — the phases of a plan, in their order

A plan that gives a result has gone through its phases one after the other, and stopped after the
one that gave it reason to. `Plan.Staged` has a constructor for every place at which it can stop.
Each phase that has callers is a `Stint`: its callers are new to the server, everything they began
has ended, and nothing of the next phase happens before that. The world in which a plan stops is
that of its last phase, so what comes later has made no attempt.

One of the places is not meant to be there. The plan was checked, the keys are loaded, and then the
clock cannot show the end of the warm-up: the run dies without a fault, and no caller of the warm-up
has tried anything (`Plan.warmup_never_starts`).
-/

set_option autoImplicit false

namespace LoadSweep

/-! ## One phase -/

/-- The probe of a plan that was found good, from one world to another, and its result. -/
structure Plan.Probed (plan : Plan) (scene : Scene) (harness : Harness Option) (keys : KeySpace)
    (w w' : World) (r : Except Stop Unit) : Prop where
  valid : plan.validate = .ok ()
  built : KeySpace.build plan.keyCount plan.keyMode = .ok keys
  result : ∃ v, w.Quiet v ∧ harness.probe plan.target v = some (w', r)
  stint : Stint scene (Questions.job [.ping]) 1 w w'
  asks : ∀ t k q, ⟨t, .asked k q⟩ ∈ w'.since w → q = .ping
  once : ∀ k, (Dealings.ofHistory (w'.since w) k).pings ≤ 1

/-- The load of a plan, and whether it lets the run go on. -/
structure Plan.Loaded (plan : Plan) (scene : Scene) (harness : Harness Option) (keys : KeySpace)
    (w w' : World) (r : Except Stop Bool) : Prop where
  skipped : plan.skipPreload = true → w.Quiet w' ∧ r = .ok true
  loads : plan.skipPreload = false → ∃ (size : Nat) (report : Except Stop PreloadReport),
    plan.matrix.maxValueSize = some size ∧
    harness.preload plan.target keys size plan.reportInterval w = some (w', report) ∧
    r = report.map (·.complete) ∧
    Stint scene (Preload.job keys size plan.reportInterval) 1 w w' ∧
    ∀ t k q, ⟨t, .asked k q⟩ ∈ w'.since w → ∃ key ∈ keys.keys, q = .set key size preloadFill

/-- The warm-up of a plan, if it wants one. -/
structure Plan.Warmed (plan : Plan) (scene : Scene) (keys : KeySpace) (w w' : World) : Prop where
  skipped : plan.warmup.isZero = true → w' = w
  reads : plan.warmup.isZero = false → w.canShow plan.warmup = true ∧
    Stint scene (Traffic.job keys .get plan.warmup (warmupSeed + ·)) warmupClients w w' ∧
    ∀ t k q, ⟨t, .asked k q⟩ ∈ w'.since w → ∃ key ∈ keys.keys, q = .get key

/-- A plan begun in `w₀` stopped in a world and came to a result. -/
inductive Plan.Staged (plan : Plan) (scene : Scene) (harness : Harness Option) (w₀ : World) :
    World → Except Stop (List Row) → Prop
  /-- Nothing has been tried. -/
  | invalid {cause : ConfigFault} (refused : plan.validate = .error cause) :
    Staged plan scene harness w₀ w₀ (.error (.fault (.config cause)))
  | keyless {cause : KeyFault} (valid : plan.validate = .ok ())
    (refused : KeySpace.build plan.keyCount plan.keyMode = .error cause) :
    Staged plan scene harness w₀ w₀ (.error (.fault (.keySpace cause)))
  /-- The probe fails, and the plan with it. -/
  | unreached {keys : KeySpace} {w₁ : World} {e : Stop}
    (probed : plan.Probed scene harness keys w₀ w₁ (.error e)) :
    Staged plan scene harness w₀ w₁ (.error e)
  /-- The preload fails, and the plan with it. -/
  | unloaded {keys : KeySpace} {w₁ w₂ : World} {e : Stop}
    (probed : plan.Probed scene harness keys w₀ w₁ (.ok ()))
    (loaded : plan.Loaded scene harness keys w₁ w₂ (.error e)) :
    Staged plan scene harness w₀ w₂ (.error e)
  | incomplete {keys : KeySpace} {w₁ w₂ : World}
    (probed : plan.Probed scene harness keys w₀ w₁ (.ok ()))
    (loaded : plan.Loaded scene harness keys w₁ w₂ (.ok false)) :
    Staged plan scene harness w₀ w₂ (.ok [])
  /-- The token is set after the preload. -/
  | interrupted {keys : KeySpace} {w₁ w₂ : World}
    (probed : plan.Probed scene harness keys w₀ w₁ (.ok ()))
    (loaded : plan.Loaded scene harness keys w₁ w₂ (.ok true)) (set : w₂.token = true) :
    Staged plan scene harness w₀ w₂ (.ok [])
  /-- The clock cannot show the end of the warm-up. -/
  | unshown {keys : KeySpace} {w₁ w₂ w' : World}
    (probed : plan.Probed scene harness keys w₀ w₁ (.ok ()))
    (loaded : plan.Loaded scene harness keys w₁ w₂ (.ok true)) (unset : w₂.token = false)
    (wanted : plan.warmup.isZero = false) (late : w₂.canShow plan.warmup = false)
    (quiet : w₂.Quiet w') :
    Staged plan scene harness w₀ w' (.error .died)
  /-- The cells are measured, one after the other. -/
  | swept {keys : KeySpace} {w₁ w₂ w₃ w' : World} {r : Except Stop (List Row)}
    {visits : List Visit} {n : Nat}
    (probed : plan.Probed scene harness keys w₀ w₁ (.ok ()))
    (loaded : plan.Loaded scene harness keys w₁ w₂ (.ok true)) (unset : w₂.token = false)
    (warmed : plan.Warmed scene keys w₂ w₃)
    (swept : Swept scene (plan.matrix.cells plan.target keys) w₃ w' r visits n)
    (apart : ∀ v ∈ visits, v.before.Precedes v.after ∧ v.before.Landing scene v.after) :
    Staged plan scene harness w₀ w' r

namespace Harness

variable {harness : Harness Option} {scene : Scene} {target : Target} {keys : KeySpace}
  {plan : Plan} {w w' : World}

theorem probe_stint (hf : harness.Follows scene) {r : Except Stop Unit}
    (h : harness.probe target w = some (w', r)) :
    Stint scene (Questions.job [.ping]) 1 w w' ∧
      ∀ k, (Dealings.ofHistory (w'.since w) k).pings ≤ 1 := by
  obtain ⟨v, r₀, halone, hquiet', -⟩ := of_probe h
  obtain ⟨u, crew, hrun, hquiet, -⟩ := of_alone halone
  have hlast := hquiet.trans hquiet'
  refine ⟨.of_perform hf (.refl w) hrun hlast, ?_⟩
  intro k
  have hs := Crew.atOpenGate_starts w (Questions.job [.ping]) 1
  rw [hlast.since]
  exact Nat.le_trans (Nat.le_add_right _ _) ((hf hs hrun).1.asks_le hs (Questions.capped scene _) k)

theorem preload_stint (hf : harness.Follows scene) {valueSize every : Nat}
    {r : Except Stop PreloadReport}
    (h : harness.preload target keys valueSize every w = some (w', r)) :
    Stint scene (Preload.job keys valueSize every) 1 w w' := by
  obtain ⟨before, v, r₀, hsay, halone, hquiet', -⟩ := of_preload h
  obtain ⟨u, crew, hrun, hquiet, -⟩ := of_alone halone
  exact .of_perform hf hsay hrun (hquiet.trans hquiet')

/-- A warm-up has its callers, unless the clock cannot show its end. -/
theorem warmup_stint (hf : harness.Follows scene) {duration : Duration} {r : Except Stop Nat}
    (h : harness.warmup target keys duration w = some (w', r)) :
    (w.canShow duration = false ∧ r = .error .died ∧ w.Quiet w') ∨
    (w.canShow duration = true ∧ (∃ ops, r = .ok ops) ∧
      Stint scene (Traffic.job keys .get duration (warmupSeed + ·)) warmupClients w w') := by
  obtain hlate | ⟨hshow, before, v, crew, hsay, hrun, hquiet, rfl⟩ := of_warmup h
  · exact .inl hlate
  · exact .inr ⟨hshow, ⟨_, rfl⟩, .of_perform hf hsay hrun hquiet⟩

/-- The load of a valid plan. -/
theorem load_loaded (hf : harness.Follows scene) (hvalid : plan.validate = .ok ())
    {r : Except Stop Bool} (h : harness.load plan keys w = some (w', r)) :
    plan.Loaded scene harness keys w w' r := by
  unfold load at h
  cases hskip : plan.skipPreload with
  | true =>
    rw [hskip] at h
    obtain ⟨v, hquiet, h⟩ := Run.of_say h
    obtain ⟨rfl, rfl⟩ := Run.of_pure h
    exact { skipped := fun _ => ⟨hquiet, rfl⟩, loads := by simp [hskip] }
  | false =>
    rw [hskip] at h
    refine { skipped := by simp [hskip], loads := ?_ }
    intro _
    cases hmax : plan.matrix.maxValueSize with
    | none => exact absurd (List.max?_eq_none_iff.mp hmax) (Plan.valueSizes_ne_nil hvalid)
    | some size =>
      rw [hmax] at h
      obtain ⟨v, report, hpreload, h⟩ | ⟨e, hpreload, rfl⟩ := Run.of_bind h
      · obtain ⟨rfl, rfl⟩ := Run.of_pure h
        have hstint := preload_stint hf hpreload
        exact ⟨size, _, rfl, hpreload, rfl, hstint,
          fun t k q hq => hstint.sends (Preload.job_sends keys size plan.reportInterval) hq⟩
      · have hstint := preload_stint hf hpreload
        exact ⟨size, _, rfl, hpreload, rfl, hstint,
          fun t k q hq => hstint.sends (Preload.job_sends keys size plan.reportInterval) hq⟩

theorem staged_of_sweep (hf : harness.Follows scene) {w₁ w₂ w₃ : World}
    (hprobed : plan.Probed scene harness keys w w₁ (.ok ()))
    (hloaded : plan.Loaded scene harness keys w₁ w₂ (.ok true)) (hunset : w₂.token = false)
    (hwarmed : plan.Warmed scene keys w₂ w₃) {r : Except Stop (List Row)}
    (h : harness.sweep plan.target plan.matrix keys w₃ = some (w', r)) :
    plan.Staged scene harness w w' r := by
  obtain ⟨visits, hsweep⟩ := sweepFrom_sweep h
  refine .swept hprobed hloaded hunset hwarmed (hsweep.swept hf) ?_
  intro v hv
  obtain ⟨hreach, hdone⟩ := hsweep.joined hf hv
  have hstart := v.cell.crew_starts v.before
  exact ⟨hreach.precedes hstart, hreach.landing hstart hdone⟩

/-- The rest of a plan whose keys are loaded while the token is unset. -/
theorem staged_of_unset (hf : harness.Follows scene) {w₁ w₂ : World}
    (hprobed : plan.Probed scene harness keys w w₁ (.ok ()))
    (hloaded : plan.Loaded scene harness keys w₁ w₂ (.ok true)) (hunset : w₂.token = false)
    {r : Except Stop (List Row)}
    (h : (do
      if !plan.warmup.isZero then
        let _ ← harness.warmup plan.target keys plan.warmup
      harness.sweep plan.target plan.matrix keys : Run Option (List Row)) w₂ = some (w', r)) :
    plan.Staged scene harness w w' r := by
  cases hzero : plan.warmup.isZero with
  | true =>
    rw [hzero] at h
    exact staged_of_sweep hf hprobed hloaded hunset
      { skipped := fun _ => rfl, reads := by simp [hzero] } h
  | false =>
    rw [hzero] at h
    obtain ⟨w₃, ops, hwarmup, h⟩ | ⟨e, hwarmup, rfl⟩ := Run.of_bind h
    · obtain ⟨-, he, -⟩ | ⟨hshow, -, hstint⟩ := warmup_stint hf hwarmup
      · simp at he
      · refine staged_of_sweep hf hprobed hloaded hunset ?_ h
        refine { skipped := by simp [hzero], reads := ?_ }
        intro _
        refine ⟨hshow, hstint, ?_⟩
        intro t k q hq
        exact hstint.sends (Traffic.job_sends keys .get plan.warmup (warmupSeed + ·)) hq
    · obtain ⟨hlate, he, hquiet⟩ | ⟨-, ⟨ops, he⟩, -⟩ := warmup_stint hf hwarmup
      · obtain rfl := Except.error.inj he
        exact .unshown hprobed hloaded hunset hzero hlate hquiet
      · simp at he

/-- **A plan that gives a result has gone through its phases.** -/
theorem staged (hf : harness.Follows scene) {r : Except Stop (List Row)}
    (h : harness.session plan w = some (w', r)) : plan.Staged scene harness w w' r := by
  unfold session at h
  cases hvalid : plan.validate with
  | error cause =>
    rw [hvalid] at h
    obtain ⟨rfl, rfl⟩ := Run.of_fault h
    exact .invalid hvalid
  | ok =>
    rw [hvalid] at h
    cases hkeys : KeySpace.build plan.keyCount plan.keyMode with
    | error cause =>
      rw [hkeys] at h
      obtain ⟨rfl, rfl⟩ := Run.of_fault h
      exact .keyless hvalid hkeys
    | ok keys =>
      rw [hkeys] at h
      obtain ⟨v, hsay, h⟩ := Run.of_say h
      have hprobed : ∀ {w₁ : World} {r : Except Stop Unit},
          harness.probe plan.target v = some (w₁, r) → plan.Probed scene harness keys w w₁ r := by
        intro w₁ r hprobe
        obtain ⟨hstint, honce⟩ := probe_stint hf hprobe
        have hafter := hstint.after_quiet hsay
        refine { valid := hvalid, built := hkeys, result := ⟨v, hsay, hprobe⟩, stint := hafter
                 asks := ?_, once := ?_ }
        · intro t k q hq
          exact List.mem_singleton.mp (hafter.sends (Questions.job_sends [.ping]) hq)
        · rwa [← hsay.since_left]
      obtain ⟨w₁, _, hprobe, h⟩ | ⟨e, hprobe, rfl⟩ := Run.of_bind h
      · obtain ⟨w₂, on, hload, h⟩ | ⟨e, hload, rfl⟩ := Run.of_bind h
        · have hloaded := load_loaded hf hvalid hload
          cases on with
          | false =>
            obtain ⟨rfl, rfl⟩ := Run.of_pure h
            exact .incomplete (hprobed hprobe) hloaded
          | true =>
            replace h := Run.of_look h
            cases hset : w₂.token with
            | true =>
              rw [hset] at h
              obtain ⟨rfl, rfl⟩ := Run.of_pure h
              exact .interrupted (hprobed hprobe) hloaded hset
            | false =>
              rw [hset] at h
              exact staged_of_unset hf (hprobed hprobe) hloaded hset h
        · exact .unloaded (hprobed hprobe) (load_loaded hf hvalid hload)
      · exact .unreached (hprobed hprobe)

end Harness

namespace Plan

/-- A valid plan has a largest value size. -/
theorem maxValueSize_of_validate {plan : Plan} (h : plan.validate = .ok ()) :
    ∃ size ∈ plan.matrix.valueSizes, plan.matrix.maxValueSize = some size ∧
      ∀ other ∈ plan.matrix.valueSizes, other ≤ size := by
  cases hmax : plan.matrix.maxValueSize with
  | none => exact absurd (List.max?_eq_none_iff.mp hmax) (valueSizes_ne_nil h)
  | some size =>
    obtain ⟨hmem, hle⟩ := List.max?_eq_some_iff.mp hmax
    exact ⟨size, hmem, rfl, hle⟩

/-- **The phases of a plan follow each other**, whoever runs its crews in the scene; and the machine
does, when the windows limit the requests. -/
theorem phases_in_order (plan : Plan) (scene : Scene) (w₀ : World) :
    (∀ (harness : Harness Option) (w' : World) (r : Except Stop (List Row)),
      harness.Follows scene → harness.session plan w₀ = some (w', r) →
      plan.Staged scene harness w₀ w' r) ∧
    (plan.validate = .ok () → ∃ size ∈ plan.matrix.valueSizes,
      plan.matrix.maxValueSize = some size ∧ ∀ other ∈ plan.matrix.valueSizes, other ≤ size) ∧
    (∀ limit, (scene.harness limit).Follows scene) ∧
    (∀ reads requests, scene.Limits plan.warmup reads →
      scene.Limits plan.matrix.duration requests →
      ∃ (limit : Nat) (w' : World) (r : Except Stop (List Row)), ∀ more, limit ≤ more →
        (scene.harness more).session plan w₀ = some (w', r)) := by
  refine ⟨fun harness w' r hf h => Harness.staged hf h, maxValueSize_of_validate,
    scene.harness_follows, ?_⟩
  intro reads requests hwarm hcells
  obtain ⟨limit, ⟨w', r⟩, h⟩ := Harness.session_settles_of_limits hwarm hcells w₀
  exact ⟨limit, w', r, h⟩

end Plan

namespace Sample

/-- Every caller loses its connection in its second request. -/
def leaving : Scene := { policy, script := fun _ => brief ⟨0⟩ }

/-- A plan that warms up for longer than the clock can show. -/
def endless : Plan :=
  { plan with
    matrix := { valueSizes := [64], clientCounts := [1], operations := [.get]
                duration := .ofMillis 2 }
    warmup := .ofSecs 18446744073709551615 }

/-- The same plan with a warm-up of some milliseconds. -/
def warmed : Plan := { endless with warmup := .ofMillis 4 }

/-- The first caller of the warm-up is let in, and the others are refused. -/
def crowded : Scene :=
  { policy
    script := fun k => if 2 < k ∧ k < 18 then .ofLists [] refusal (.plain ⟨0⟩) [] .repeatLast
      else .plain }

end Sample

/-- The plan meets one caller for the probe, one for the preload, sixteen for the warm-up and one
for its cell. -/
theorem Plan.phases_in_order_sample : ∃ (w' : World) (rows : List Row),
    (Sample.crowded.harness 200).session Sample.warmed (.start none) = some (w', .ok rows) ∧
    rows.length = 1 ∧ w'.met = 19 ∧
    Sample.warmed.Staged Sample.crowded (Sample.crowded.harness 200) (.start none) w'
      (.ok rows) := by
  have hrun : ((Sample.crowded.harness 200).session Sample.warmed (.start none)).map
      (fun p => (p.2.toOption.map List.length, p.1.met)) = some (some 1, 19) := by decide +kernel
  obtain ⟨⟨w', r⟩, hw, heq⟩ := Option.map_eq_some_iff.mp hrun
  obtain ⟨hlength, hmet⟩ := Prod.mk.inj heq
  obtain ⟨rows, hr, hrows⟩ := Option.map_eq_some_iff.mp hlength
  obtain rfl := Sample.ok_of_toOption hr
  obtain ⟨hall, -, hmachine, -⟩ := Plan.phases_in_order Sample.warmed Sample.crowded (.start none)
  exact ⟨w', rows, hw, hrows, hmet, hall _ w' _ (hmachine 200) hw⟩

/-- **A warm-up may never start**: the plan is valid, its probe and its preload are good, nobody
touches the token, and yet the server meets none of the sixteen callers. -/
theorem Plan.warmup_never_starts :
    (Sample.endless.validate = .ok () ∧ Sample.endless.warmup.isZero = false) ∧
    ¬ ∀ (w' : World) (r : Except Stop (List Row)),
      (Sample.leaving.harness 100).session Sample.endless (.start none) = some (w', r) →
      (∃ f, r = .error (.fault f)) ∨ r = .ok [] ∨ 2 + warmupClients ≤ w'.met := by
  refine ⟨⟨rfl, rfl⟩, ?_⟩
  intro hclaim
  have hrun : ((Sample.leaving.harness 100).session Sample.endless (.start none)).map
      (fun p => (Sample.stop? p.2, p.1.met)) = some (some .died, 2) := by decide +kernel
  obtain ⟨⟨w', r⟩, hw, heq⟩ := Option.map_eq_some_iff.mp hrun
  obtain ⟨hstop, hmet⟩ := Prod.mk.inj heq
  obtain rfl := Sample.error_of_stop hstop
  obtain ⟨f, hf⟩ | hrows | hle := hclaim w' _ hw
  · simp at hf
  · simp at hrows
  · rw [hmet] at hle
    exact absurd hle (by decide)

end LoadSweep
