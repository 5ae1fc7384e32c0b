import LoadSweep.Proofs.Rations
import LoadSweep.Proofs.Safety

/-!
# `LoadSweep/Proofs/Sparing.lean` — how much a whole run asks of a server

A caller belongs to one phase, so what it asks for between two worlds it asks for in one of the
phases between them (`World.Sparing`, with `trans`). The limits of the jobs are therefore limits of
the phases: one question for the probe, the keys for the preload, and for the callers of the warm-up
and of the cells as many requests as their window has milliseconds. That the requests of a window
are limited is also why the run comes to its end.
-/

set_option autoImplicit false

namespace LoadSweep

/-- From one world to the other, no caller tried to connect or asked for something more often. -/
structure World.Sparing (tries asks : Nat) (w w' : World) : Prop where
  precedes : w.Precedes w'
  attempts : ∀ k, (Dealings.ofHistory (w'.since w) k).attempts ≤ tries
  asks : ∀ k, (Dealings.ofHistory (w'.since w) k).asks ≤ asks

/-- Nobody is met both before and after a world, so the dealings of a caller are on one side. -/
theorem World.Precedes.dealings_cases {w v u : World} (h : w.Precedes v) (h' : v.Precedes u)
    (k : Nat) : Dealings.ofHistory (u.since w) k = Dealings.ofHistory (v.since w) k ∨
      Dealings.ofHistory (u.since w) k = Dealings.ofHistory (u.since v) k := by
  rw [h.since_trans h']
  by_cases hk : k < v.met
  · left
    refine congrArg Share.dealings (share_append fun e he hcaller => ?_)
    exact absurd (h'.callers e he k hcaller).1 (Nat.not_le_of_lt hk)
  · right
    refine Dealings.ofHistory_append_of_absent (fun e he hcaller => ?_) _
    exact absurd (h.callers e he k hcaller).2 hk

namespace World.Sparing

variable {tries asks more : Nat} {w v u : World}

theorem quiet (h : w.Quiet v) : Sparing tries asks w v := by
  have hnone : v.since w = [] := (h.since w).trans w.since_self
  refine { precedes := .quiet h, attempts := ?_, asks := ?_ }
  · intro k
    rw [hnone]
    exact Nat.zero_le _
  · intro k
    rw [hnone]
    exact Nat.zero_le _

theorem trans (h : Sparing tries asks w v) (h' : Sparing tries asks v u) :
    Sparing tries asks w u := by
  refine { precedes := h.precedes.trans h'.precedes, attempts := ?_, asks := ?_ }
  · intro k
    obtain heq | heq := h.precedes.dealings_cases h'.precedes k <;> rw [heq]
    · exact h.attempts k
    · exact h'.attempts k
  · intro k
    obtain heq | heq := h.precedes.dealings_cases h'.precedes k <;> rw [heq]
    · exact h.asks k
    · exact h'.asks k

theorem mono (h : Sparing tries asks w v) (hle : asks ≤ more) : Sparing tries more w v :=
  { h with asks := fun k => Nat.le_trans (h.asks k) hle }

end World.Sparing

/-! ## Crews -/

theorem Crew.Reaches.sparing {σ : Type} {scene : Scene} {w₀ w : World} {crew₀ crew : Crew σ}
    {n : Nat} (hs : crew₀.Starts w₀) (h : Crew.Reaches scene w₀ crew₀ w crew)
    (hcap : crew₀.job.Capped scene n) : World.Sparing scene.policy.tries n w₀ w where
  precedes := h.precedes hs
  attempts := h.attempts_le hs
  asks := h.asks_le hs hcap

namespace Stint

variable {σ : Type} {scene : Scene} {job : Job σ} {size n : Nat} {w w' : World}

theorem sparing (h : Stint scene job size w w') (hcap : job.Capped scene n) :
    World.Sparing scene.policy.tries n w w' := by
  obtain ⟨before, after, crew, hq, hreach, -, -, hq'⟩ := h.ran
  have hs := Crew.atOpenGate_starts before job size
  exact .trans (.quiet hq) (.trans (hreach.sparing hs hcap) (.quiet hq'))

/-- A stint of one caller is about this caller. -/
theorem caller_eq (h : Stint scene job 1 w w') {e : Entry} (he : e ∈ w'.since w) {k : Nat}
    (hk : e.event.caller? = some k) : k = w.met := by
  have hmet := h.met
  have hcaller := h.precedes.callers e he k hk
  omega

end Stint

/-! ## Phases -/

namespace Plan

variable {plan : Plan} {scene : Scene} {harness : Harness Option} {keys : KeySpace} {w w' : World}

theorem Probed.sparing {r : Except Stop Unit} (h : plan.Probed scene harness keys w w' r) :
    World.Sparing scene.policy.tries 1 w w' :=
  h.stint.sparing (Questions.capped scene [.ping])

theorem Loaded.sparing {r : Except Stop Bool} (h : plan.Loaded scene harness keys w w' r) :
    World.Sparing scene.policy.tries keys.size w w' := by
  cases hskip : plan.skipPreload with
  | true => exact .quiet (h.skipped hskip).1
  | false =>
    obtain ⟨size, report, -, -, -, hstint, -⟩ := h.loads hskip
    exact hstint.sparing (Preload.capped scene keys size plan.reportInterval)

theorem Loaded.caller_eq {r : Except Stop Bool} (h : plan.Loaded scene harness keys w w' r)
    {e : Entry} (he : e ∈ w'.since w) {k : Nat} (hk : e.event.caller? = some k) : k = w.met := by
  cases hskip : plan.skipPreload with
  | true =>
    rw [(h.skipped hskip).1.since, w.since_self] at he
    simp at he
  | false =>
    obtain ⟨size, report, -, -, -, hstint, -⟩ := h.loads hskip
    exact hstint.caller_eq he hk

theorem Warmed.sparing (hun : scene.Unhurried) (h : plan.Warmed scene keys w w') :
    World.Sparing scene.policy.tries plan.warmup.ceilMillis w w' := by
  cases hzero : plan.warmup.isZero with
  | true => exact .quiet (h.skipped hzero ▸ .refl w)
  | false =>
    obtain ⟨-, hstint, -⟩ := h.reads hzero
    exact hstint.sparing (Traffic.capped hun keys (by simp) plan.warmup _)

theorem swept_sparing (hun : scene.Unhurried) {r : Except Stop (List Row)} {visits : List Visit}
    {n : Nat} (h : Swept scene (plan.matrix.cells plan.target keys) w w' r visits n) :
    World.Sparing scene.policy.tries plan.matrix.duration.ceilMillis w w' := by
  refine h.chain .quiet .trans ?_
  intro v hv
  have hcell := h.order.subset (List.mem_map_of_mem hv)
  rw [← Matrix.duration_of_mem_cells hcell]
  exact (h.joined v hv).1.sparing (v.cell.crew_starts v.before)
    (Traffic.capped hun v.cell.keys v.cell.request_ne_ping v.cell.duration v.cell.workerSeed)

/-- How much a caller asks for at most, whatever its phase. -/
def mostAsks (plan : Plan) : Nat :=
  max (max 1 plan.keyCount) (max plan.warmup.ceilMillis plan.matrix.duration.ceilMillis)

/-- Wherever a plan stopped, it has asked nobody for more. -/
theorem Staged.sparing (hun : scene.Unhurried) {r : Except Stop (List Row)}
    (h : plan.Staged scene harness w w' r) :
    World.Sparing scene.policy.tries plan.mostAsks w w' := by
  have hprobe : ∀ {keys : KeySpace} {w₁ : World} {r : Except Stop Unit},
      plan.Probed scene harness keys w w₁ r →
      World.Sparing scene.policy.tries plan.mostAsks w w₁ := fun h =>
    h.sparing.mono (by unfold mostAsks; omega)
  have hload : ∀ {keys : KeySpace} {w₁ w₂ : World} {r : Except Stop Unit} {r' : Except Stop Bool},
      plan.Probed scene harness keys w w₁ r → plan.Loaded scene harness keys w₁ w₂ r' →
      World.Sparing scene.policy.tries plan.mostAsks w w₂ := by
    intro keys w₁ w₂ r r' probed loaded
    have hsize := KeySpace.size_of_build probed.built
    exact (hprobe probed).trans (loaded.sparing.mono (by unfold mostAsks; omega))
  cases h with
  | invalid | keyless => exact .quiet (.refl w)
  | unreached probed => exact hprobe probed
  | unloaded probed loaded | incomplete probed loaded | interrupted probed loaded =>
    exact hload probed loaded
  | unshown probed loaded _ _ _ quiet => exact (hload probed loaded).trans (.quiet quiet)
  | swept probed loaded _ warmed swept =>
    have hwarm := (warmed.sparing hun).mono (show _ ≤ plan.mostAsks by unfold mostAsks; omega)
    have hsweep := (swept_sparing hun swept).mono (show _ ≤ plan.mostAsks by unfold mostAsks; omega)
    exact (hload probed loaded).trans (hwarm.trans hsweep)

/-- **A run whose requests take a millisecond each comes to its end**, for every policy and whatever
becomes of the attempts, the requests and the token. On its way the probe asks one question, the
preload has one caller that writes each key once at most, and a caller of the warm-up or of a cell
makes as many requests as its window has milliseconds, at most; nobody tries to connect more often
than the policy says. -/
theorem comes_to_end (plan : Plan) {scene : Scene} (hun : scene.Unhurried) (w₀ : World) :
    (∃ (limit : Nat) (w' : World) (r : Except Stop (List Row)), ∀ more, limit ≤ more →
      (scene.harness more).session plan w₀ = some (w', r)) ∧
    (∀ limit, (scene.harness limit).Follows scene) ∧
    (∀ (harness : Harness Option) (w' : World) (r : Except Stop (List Row)),
      harness.Follows scene → harness.session plan w₀ = some (w', r) →
      plan.Staged scene harness w₀ w' r ∧
      World.Sparing scene.policy.tries plan.mostAsks w₀ w') ∧
    (∀ (harness : Harness Option) (keys : KeySpace) (w w' : World),
      (∀ r, plan.Probed scene harness keys w w' r → World.Sparing scene.policy.tries 1 w w') ∧
      (∀ r, KeySpace.build plan.keyCount plan.keyMode = .ok keys →
        plan.Loaded scene harness keys w w' r →
        World.Sparing scene.policy.tries plan.keyCount w w' ∧
        ∀ e ∈ w'.since w, ∀ k, e.event.caller? = some k → k = w.met) ∧
      (plan.Warmed scene keys w w' →
        World.Sparing scene.policy.tries plan.warmup.ceilMillis w w') ∧
      ∀ r visits n, Swept scene (plan.matrix.cells plan.target keys) w w' r visits n →
        World.Sparing scene.policy.tries plan.matrix.duration.ceilMillis w w') := by
  refine ⟨?_, scene.harness_follows, ?_, ?_⟩
  · obtain ⟨limit, ⟨w', r⟩, h⟩ := Harness.session_settles hun.paced plan w₀
    exact ⟨limit, w', r, h⟩
  · intro harness w' r hf h
    have hstaged := Harness.staged hf h
    exact ⟨hstaged, hstaged.sparing hun⟩
  · intro harness keys w w'
    refine ⟨fun _ probed => probed.sparing, ?_, fun warmed => warmed.sparing hun,
      fun _ _ _ swept => swept_sparing hun swept⟩
    intro r hbuilt loaded
    exact ⟨KeySpace.size_of_build hbuilt ▸ loaded.sparing, fun _ he _ hk => loaded.caller_eq he hk⟩

end Plan

theorem Sample.crowded_unhurried : Sample.crowded.Unhurried := by
  intro k n
  unfold Sample.crowded
  dsimp only
  split <;> exact Nat.le_refl _

/-- The limits are reached: by the probe, the preload, the caller of the warm-up that was let in, the
fifteen that were not, and the worker of the cell. -/
theorem Plan.comes_to_end_sample : ∃ (w' : World) (rows : List Row),
    Sample.crowded.Unhurried ∧
    (Sample.crowded.harness 200).session Sample.warmed (.start none) = some (w', .ok rows) ∧
    (w'.dealings 0).map (fun d => (d.attempts, d.asks))
      = [(1, 1), (1, 1), (1, 4)] ++ List.replicate 15 (2, 0) ++ [(1, 2)] ∧
    (Sample.warmed.warmup.ceilMillis, Sample.warmed.matrix.duration.ceilMillis) = (4, 2) ∧
    World.Sparing 2 4 (.start none) w' ∧
    ∃ (limit : Nat) (v : World) (r : Except Stop (List Row)), ∀ more, limit ≤ more →
      (Sample.crowded.harness more).session Sample.warmed (.start none) = some (v, r) := by
  have hrun : ((Sample.crowded.harness 200).session Sample.warmed (.start none)).map
      (fun p => ((p.1.dealings 0).map (fun d => (d.attempts, d.asks)), p.2.toOption.isSome))
        = some ([(1, 1), (1, 1), (1, 4)] ++ List.replicate 15 (2, 0) ++ [(1, 2)], true) := by
    decide +kernel
  obtain ⟨⟨w', r⟩, hw, heq⟩ := Option.map_eq_some_iff.mp hrun
  obtain ⟨hdealings, hsome⟩ := Prod.mk.inj heq
  obtain ⟨rows, hrows⟩ := Option.isSome_iff_exists.mp hsome
  obtain rfl := Sample.ok_of_toOption hrows
  obtain ⟨hends, hmachine, hall, -⟩ :=
    Plan.comes_to_end Sample.warmed Sample.crowded_unhurried (.start none)
  have hmost : Sample.warmed.mostAsks = 4 := by decide +kernel
  have hsparing := (hall _ w' _ (hmachine 200) hw).2
  rw [hmost] at hsparing
  exact ⟨w', rows, Sample.crowded_unhurried, hw, hdealings, by decide +kernel, hsparing, hends⟩

end LoadSweep
