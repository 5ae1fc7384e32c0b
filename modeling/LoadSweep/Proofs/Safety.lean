import LoadSweep.Proofs.Phases
import LoadSweep.Proofs.Progress

/-!
# `LoadSweep/Proofs/Safety.lean` — what kills a run

A run dies when the harness breaks one of its own assumptions, and nothing that a caller meets makes
it do so but a server that kills its callers. Against any other server (`Scene.Spares`) no caller
dies: a position that is drawn is the position of a key, so a job never has to give up
(`Job.Lasts`). From one crew this carries over to the whole run, since between the crews there is
only bookkeeping (`Swept.chain`).

What is left is the clock. A window that begins late enough has no end that the clock can show, and
nothing in the check of a plan speaks of that. So a plan that was found good may still kill the run
after its keys are loaded (`Plan.window_overflows`), and this is the only way.
-/

set_option autoImplicit false

namespace LoadSweep

/-! ## Servers that kill nobody -/

/-- No attempt and no answer kills the caller. -/
structure Script.Spares (script : Script) : Prop where
  attempt : ∀ n, (script.attempt n).ends ≠ .dies
  replyTo : ∀ n r, (script.replyTo n r).answer ≠ .dies

def Scene.Spares (scene : Scene) : Prop := ∀ k, (scene.script k).Spares

theorem Scene.Gentle.spares {scene : Scene} (h : scene.Gentle) : scene.Spares := fun k =>
  { attempt := fun n => ((h k).attempt n).2, replyTo := fun n r => ((h k).replyTo n r).2 }

/-- Between the two worlds nobody died. -/
def World.Deathless (w w' : World) : Prop :=
  w.Precedes w' ∧ ∀ e ∈ w'.since w, ∀ k, e.event ≠ .died k

namespace World.Deathless

variable {w v u : World}

theorem quiet (h : w.Quiet v) : w.Deathless v := by
  refine ⟨.quiet h, ?_⟩
  rw [h.since, w.since_self]
  simp

theorem trans (h : w.Deathless v) (h' : v.Deathless u) : w.Deathless u := by
  refine ⟨h.1.trans h'.1, ?_⟩
  intro e he
  rw [h.1.since_trans h'.1] at he
  rcases List.mem_append.mp he with he | he
  · exact h'.2 e he
  · exact h.2 e he

end World.Deathless

namespace Crew.Reaches

variable {σ : Type} {scene : Scene} {w₀ w : World} {crew₀ crew : Crew σ}

/-- Nobody dies that is spared and whose job lasts. -/
theorem not_died (hs : crew₀.Starts w₀) (h : Reaches scene w₀ crew₀ w crew) (hj : crew₀.job.Lasts)
    (hspares : scene.Spares) {c : Caller σ} (hc : c ∈ crew.callers) (state : Option σ) :
    c.stage ≠ .ended (.died state) := by
  obtain ⟨i, ha⟩ := (h.faithful hs).agrees_of_mem hc
  rw [h.job_eq.1] at ha
  exact Caller.not_died hj (fun n => Script.dial_ne_dies ((hspares c.who).attempt n) _)
    (fun _ _ _ _ n r _ => (hspares c.who).replyTo n r) (h.onTime hs c hc) ha state

theorem deathless (hs : crew₀.Starts w₀) (h : Reaches scene w₀ crew₀ w crew) (hj : crew₀.job.Lasts)
    (hspares : scene.Spares) : w₀.Deathless w := by
  refine ⟨h.precedes hs, ?_⟩
  intro e he k hk
  obtain ⟨c, hc, -, state, hstage⟩ := h.mourned hs e he k hk
  exact h.not_died hs hj hspares hc state hstage

end Crew.Reaches

theorem Stint.deathless {σ : Type} {scene : Scene} {job : Job σ} {size : Nat} {w w' : World}
    (h : Stint scene job size w w') (hj : job.Lasts) (hspares : scene.Spares) :
    w.Deathless w' := by
  obtain ⟨before, after, crew, hq, hreach, -, -, hq'⟩ := h.ran
  have hs := Crew.atOpenGate_starts before job size
  exact .trans (.quiet hq) (.trans (hreach.deathless hs hj hspares) (.quiet hq'))

/-- What every visit keeps up, and bookkeeping as well, a sweep does. -/
theorem Swept.chain {scene : Scene} {cells : List Cell} {w w' : World}
    {r : Except Stop (List Row)} {visits : List Visit} {n : Nat}
    (h : Swept scene cells w w' r visits n) {P : World → World → Prop}
    (quiet : ∀ {u v : World}, u.Quiet v → P u v)
    (trans : ∀ {u v x : World}, P u v → P v x → P u x)
    (visit : ∀ v ∈ visits, P v.before v.after) : P w w' := by
  have hstarts := h.starts
  have hfollows := h.follows
  have hends := h.ends
  clear h
  induction visits generalizing w with
  | nil => exact quiet hends
  | cons v rest ih =>
    have hfirst := trans (quiet (hstarts v rfl)) (visit v List.mem_cons_self)
    refine trans hfirst (ih (fun u hu => visit u (List.mem_cons_of_mem _ hu)) ?_ ?_ ?_)
    · intro u hu
      rw [List.head?_eq_getElem?] at hu
      exact hfollows 0 v u rfl hu
    · intro i u x hu hx
      exact hfollows (i + 1) u x hu hx
    · rw [List.getLast?_cons] at hends
      cases hlast : rest.getLast? with
      | none => simpa [hlast] using hends
      | some x => simpa [hlast] using hends

/-- A sweep comes to rows, or a worker died, or the clock could not show where a window ends. -/
theorem Swept.outcome {scene : Scene} {cells : List Cell} {w w' : World}
    {r : Except Stop (List Row)} {visits : List Visit} {n : Nat}
    (h : Swept scene cells w w' r visits n) :
    (∃ rows, r = .ok rows) ∨ (∃ v ∈ visits, v.crew.gate = .stuck ∧ r = .error .died) ∨
      ∃ v ∈ visits, v.Died ∧ ∃ i, r = .error (.fault (.workerDied i)) := by
  by_cases hstuck : ∃ v ∈ visits, v.crew.gate = .stuck
  · obtain ⟨v, hv, hgate⟩ := hstuck
    exact .inr (.inl ⟨v, hv, hgate, (h.stuck v hv hgate).2.1⟩)
  · have hgate : ∀ v ∈ visits, v.crew.gate ≠ .stuck := fun v hv heq => hstuck ⟨v, hv, heq⟩
    by_cases hdied : ∃ v ∈ visits, v.Died
    · obtain ⟨v, hv, hdied⟩ := hdied
      obtain ⟨-, i, -, -, hr, -⟩ := h.died v hv (hgate v hv) hdied
      exact .inr (.inr ⟨v, hv, hdied, i, hr⟩)
    · exact .inl ⟨_, h.rows fun v hv => ⟨hgate v hv, fun hd => hdied ⟨v, hv, hd⟩⟩⟩

/-! ## The arithmetic of a preload -/

/-- A report of a preload is about some of the keys, and counts at least one since the report
before. -/
structure Progress.Sound (q : Progress) (total every : Nat) : Prop where
  total : q.total = total
  loaded : 0 < q.loaded ∧ q.loaded ≤ q.total
  interval : 0 < q.interval ∧ q.interval ≤ every ∧ q.interval ≤ q.loaded

/-- **Every report of a preload is sound**, whatever the answers were. -/
theorem Preload.course_reports {keys : KeySpace} {valueSize every : Nat} {script : Script}
    {i opened start t : Nat} {ts : List Turn} {p : Preload} (hpos : 0 < every)
    (h : (job keys valueSize every).Course script i opened start ts p t) :
    p.loaded ≤ keys.size ∧ ∀ q ∈ p.reports, q.Sound keys.size every := by
  have hreported := course_reported h
  rw [Nat.max_eq_left hpos] at hreported
  refine ⟨hreported.le, ?_⟩
  intro q hq
  obtain ⟨hloaded, hle, -⟩ := (hreported.places q.loaded).mp (List.mem_map_of_mem hq)
  have hformula := hreported.formula q hq
  have hmod : (q.loaded - 1) % every < every := Nat.mod_lt _ hpos
  have hself := Nat.mod_le (q.loaded - 1) every
  have hwhole := hreported.whole q hq
  exact { total := hwhole
          loaded := ⟨hloaded, hwhole ▸ Nat.le_trans hle hreported.le⟩
          interval := by omega }

/-! ## The end of a plan -/

theorem KeySpace.size_of_build {count : Nat} {mode : KeyMode} {keys : KeySpace}
    (h : build count mode = .ok keys) : keys.size = count := by
  unfold build at h
  split at h
  · simp at h
  · split at h
    · simp at h
    · obtain rfl := Except.ok.inj h
      exact size_keysOf count mode

/-- A failure of the set-up, or an interrupt. -/
def RunFault.OfSetup : RunFault → Prop
  | .connect .. | .probe .. | .preload .. | .keySpace _ | .cancelled => True
  | .config _ | .workerDied _ => False

namespace Harness

variable {σ : Type} {harness : Harness Option} {scene : Scene} {target : Target} {keys : KeySpace}
  {plan : Plan} {w w' : World}

/-- A caller by itself that is spared serves, or fails to connect. -/
theorem alone_fault (hf : harness.Follows scene) (hspares : scene.Spares) {job : Job σ}
    (hj : job.Lasts) {report : σ → List LogEvent} {e : Stop}
    (h : harness.alone target job report w = some (w', .error e)) :
    ∃ f, e = .fault f ∧ f.OfSetup := by
  obtain ⟨v, crew, c, how, hreach, -, hcallers, hend, -, hr⟩ := alone_ends hf h
  have hs := Crew.atOpenGate_starts w job 1
  have hc : c ∈ crew.callers := hcallers ▸ List.mem_singleton_self c
  cases how with
  | served state => simp [Departure.result] at hr
  | died state => exact absurd hend (hreach.not_died hs hj hspares hc state)
  | unserved dialled =>
    cases dialled with
    | error fault =>
      obtain rfl := Except.error.inj hr
      cases fault <;> exact ⟨_, rfl, trivial⟩
    | ok =>
      -- its gate has stood open from the start
      obtain ⟨i, ha⟩ := (hreach.faithful hs).agrees_of_mem hc
      rw [Caller.Agrees, hend] at ha
      have hstuck := ha.2 rfl
      rw [hreach.gate_eq rfl] at hstuck
      simp at hstuck

/-- A probe fails because its caller does, or because of the answer. -/
theorem error_of_probe {e : Stop} (h : harness.probe target w = some (w', .error e)) :
    (∃ v, harness.alone target (Questions.job [.ping]) (fun _ => []) w = some (v, .error e)) ∨
      ∃ cause, e = .fault (.probe target.address cause) := by
  obtain ⟨v, r₀, halone, -, hr⟩ := of_probe h
  cases r₀ with
  | error e₀ =>
    obtain rfl := Except.error.inj hr
    exact .inl ⟨v, halone⟩
  | ok s =>
    obtain ⟨cause, rfl, -⟩ := Questions.of_verdict_error hr.symm
    exact .inr ⟨cause, rfl⟩

/-- So does a preload, and the answer is that to one of its writes. -/
theorem error_of_preload {valueSize every : Nat} {e : Stop}
    (h : harness.preload target keys valueSize every w = some (w', .error e)) :
    (∃ report before v,
      harness.alone target (Preload.job keys valueSize every) report before
        = some (v, .error e)) ∨
      ∃ index key cause, e = .fault (.preload index key cause) := by
  obtain ⟨before, v, r₀, -, halone, -, hr⟩ := of_preload h
  cases r₀ with
  | error e₀ =>
    obtain rfl := Except.error.inj hr
    exact .inl ⟨_, before, v, halone⟩
  | ok p =>
    obtain ⟨cause, -, rfl⟩ := Preload.of_verdict_error hr.symm
    exact .inr ⟨_, _, cause, rfl⟩

theorem probe_spared (hf : harness.Follows scene) (hspares : scene.Spares) {e : Stop}
    (h : harness.probe target w = some (w', .error e)) : ∃ f, e = .fault f ∧ f.OfSetup := by
  obtain ⟨v, halone⟩ | ⟨cause, rfl⟩ := error_of_probe h
  · exact alone_fault hf hspares (Questions.job_lasts _) halone
  · exact ⟨_, rfl, trivial⟩

theorem preload_spared (hf : harness.Follows scene) (hspares : scene.Spares)
    {valueSize every : Nat} {e : Stop}
    (h : harness.preload target keys valueSize every w = some (w', .error e)) :
    ∃ f, e = .fault f ∧ f.OfSetup := by
  obtain ⟨report, before, v, halone⟩ | ⟨index, key, cause, rfl⟩ := error_of_preload h
  · exact alone_fault hf hspares (Preload.job_lasts keys valueSize every) halone
  · exact ⟨_, rfl, trivial⟩

end Harness

/-- How a plan ends that kills nobody and is killed by nobody: with rows, with a failure of the
set-up, or because the clock cannot show the end of a window. -/
structure Plan.Survived (plan : Plan) (w₀ w' : World) (r : Except Stop (List Row)) : Prop where
  ends : (∃ rows, r = .ok rows) ∨ (∃ f, r = .error (.fault f) ∧ f.OfSetup) ∨
    (r = .error .died ∧ ((plan.warmup.isZero = false ∧ w'.canShow plan.warmup = false) ∨
      w'.canShow plan.matrix.duration = false))
  /-- No worker died, in any phase. -/
  deathless : ∀ e ∈ w'.since w₀, ∀ k, e.event ≠ .died k

namespace Plan

variable {plan : Plan} {scene : Scene} {harness : Harness Option} {keys : KeySpace}
  {w₀ w w' : World}

theorem Loaded.deathless (hspares : scene.Spares) {r : Except Stop Bool}
    (h : plan.Loaded scene harness keys w w' r) : w.Deathless w' := by
  cases hskip : plan.skipPreload with
  | true => exact .quiet (h.skipped hskip).1
  | false =>
    obtain ⟨size, report, -, -, -, hstint, -⟩ := h.loads hskip
    exact hstint.deathless (Preload.job_lasts keys size plan.reportInterval) hspares

/-- A load fails because its preload does. -/
theorem Loaded.preload_error {e : Stop} (h : plan.Loaded scene harness keys w w' (.error e)) :
    ∃ size, harness.preload plan.target keys size plan.reportInterval w = some (w', .error e) := by
  cases hskip : plan.skipPreload with
  | true =>
    have hr := (h.skipped hskip).2
    simp at hr
  | false =>
    obtain ⟨size, report, -, hpreload, hr, -⟩ := h.loads hskip
    obtain rfl := Fallible.error_of_map hr.symm
    exact ⟨size, hpreload⟩

theorem Loaded.error_of_spares (hf : harness.Follows scene) (hspares : scene.Spares) {e : Stop}
    (h : plan.Loaded scene harness keys w w' (.error e)) : ∃ f, e = .fault f ∧ f.OfSetup := by
  obtain ⟨size, hpreload⟩ := h.preload_error
  exact Harness.preload_spared hf hspares hpreload

theorem Warmed.deathless (hspares : scene.Spares) (h : plan.Warmed scene keys w w') :
    w.Deathless w' := by
  cases hzero : plan.warmup.isZero with
  | true => exact .quiet (h.skipped hzero ▸ .refl w)
  | false =>
    obtain ⟨-, hstint, -⟩ := h.reads hzero
    exact hstint.deathless (Traffic.job_lasts _ _ _ _) hspares

/-- A sweep against a server that kills nobody comes to rows, or to a window without an end. -/
theorem swept_spared (hspares : scene.Spares) {r : Except Stop (List Row)} {visits : List Visit}
    {n : Nat} (h : Swept scene (plan.matrix.cells plan.target keys) w w' r visits n) :
    w.Deathless w' ∧ ((∃ rows, r = .ok rows) ∨
      (r = .error .died ∧ w'.canShow plan.matrix.duration = false)) := by
  have hlasts : ∀ cell : Cell, cell.crew.job.Lasts := fun _ => Traffic.job_lasts _ _ _ _
  refine ⟨h.chain .quiet .trans ?_, ?_⟩
  · intro v hv
    exact (h.joined v hv).1.deathless (v.cell.crew_starts v.before) (hlasts v.cell) hspares
  · obtain hrows | ⟨v, hv, hstuck, -⟩ | ⟨v, hv, ⟨c, hc, state, hstage⟩, -⟩ := h.outcome
    · exact .inl hrows
    · obtain ⟨hr, hshow⟩ := h.of_stuck hv hstuck
      rw [Matrix.duration_of_mem_cells (h.order.subset (List.mem_map_of_mem hv))] at hshow
      exact .inr ⟨hr, hshow⟩
    · exact absurd hstage ((h.joined v hv).1.not_died (v.cell.crew_starts v.before) (hlasts v.cell)
        hspares hc state)

/-- Whatever place a plan stopped at, it was not killed. -/
theorem Staged.survived (hf : harness.Follows scene) (hspares : scene.Spares)
    (hvalid : plan.validate = .ok ()) {r : Except Stop (List Row)}
    (h : plan.Staged scene harness w₀ w' r) : plan.Survived w₀ w' r := by
  have hprobe : ∀ {keys : KeySpace} {w₁ : World} {r : Except Stop Unit},
      plan.Probed scene harness keys w₀ w₁ r → w₀.Deathless w₁ := fun h =>
    h.stint.deathless (Questions.job_lasts _) hspares
  cases h with
  | invalid refused => simp [hvalid] at refused
  | keyless => exact ⟨.inr (.inl ⟨_, rfl, trivial⟩), (World.Deathless.quiet (.refl _)).2⟩
  | unreached probed =>
    obtain ⟨v, -, hresult⟩ := probed.result
    obtain ⟨f, rfl, hsetup⟩ := Harness.probe_spared hf hspares hresult
    exact ⟨.inr (.inl ⟨f, rfl, hsetup⟩), (hprobe probed).2⟩
  | unloaded probed loaded =>
    obtain ⟨f, rfl, hsetup⟩ := loaded.error_of_spares hf hspares
    exact ⟨.inr (.inl ⟨f, rfl, hsetup⟩), ((hprobe probed).trans (loaded.deathless hspares)).2⟩
  | incomplete probed loaded | interrupted probed loaded =>
    exact ⟨.inl ⟨_, rfl⟩, ((hprobe probed).trans (loaded.deathless hspares)).2⟩
  | unshown probed loaded _ wanted late quiet =>
    have hlate : w'.canShow plan.warmup = false := (quiet.canShow _).trans late
    exact ⟨.inr (.inr ⟨rfl, .inl ⟨wanted, hlate⟩⟩),
      (((hprobe probed).trans (loaded.deathless hspares)).trans (.quiet quiet)).2⟩
  | swept probed loaded _ warmed swept =>
    obtain ⟨hdeathless, hends⟩ := swept_spared hspares swept
    refine ⟨?_, (((hprobe probed).trans (loaded.deathless hspares)).trans
      ((warmed.deathless hspares).trans hdeathless)).2⟩
    obtain hrows | ⟨hr, hshow⟩ := hends
    · exact .inl hrows
    · exact .inr (.inr ⟨hr, .inr hshow⟩)

/-- **Only the clock kills the run of a valid plan** against a server that kills nobody: whoever
runs its crews, and whenever the token is set. Positions that are drawn are positions of keys,
reports of the preload are sound, and the machine comes to a result when the windows limit the
requests. -/
theorem valid_survives (hvalid : plan.validate = .ok ()) (hspares : scene.Spares) (w₀ : World) :
    (∀ (harness : Harness Option) (w' : World) (r : Except Stop (List Row)),
      harness.Follows scene → harness.session plan w₀ = some (w', r) → plan.Survived w₀ w' r) ∧
    (∀ keys, KeySpace.build plan.keyCount plan.keyMode = .ok keys →
      keys.size = plan.keyCount ∧ 0 < keys.size ∧ ∀ stream,
        (Draw.draw keys.size stream).1 < keys.size ∧
        ∃ key, keys.key? (Draw.draw keys.size stream).1 = some key) ∧
    (0 < plan.reportInterval ∧ ∀ (keys : KeySpace) (valueSize : Nat) (script : Script)
      (i opened start t : Nat) (ts : List Turn) (p : Preload),
      (Preload.job keys valueSize plan.reportInterval).Course script i opened start ts p t →
      p.loaded ≤ keys.size ∧ ∀ q ∈ p.reports, q.Sound keys.size plan.reportInterval) ∧
    (∀ limit, (scene.harness limit).Follows scene) ∧
    (∀ reads requests, scene.Limits plan.warmup reads →
      scene.Limits plan.matrix.duration requests →
      ∃ (limit : Nat) (w' : World) (r : Except Stop (List Row)), ∀ more, limit ≤ more →
        (scene.harness more).session plan w₀ = some (w', r)) := by
  obtain ⟨-, hevery, -⟩ := of_validate hvalid
  refine ⟨?_, ?_, ⟨hevery, ?_⟩, scene.harness_follows, ?_⟩
  · intro harness w' r hf h
    exact (Harness.staged hf h).survived hf hspares hvalid
  · intro keys hkeys
    refine ⟨KeySpace.size_of_build hkeys, keys.keys_pos, ?_⟩
    intro stream
    obtain ⟨key, -, hkey⟩ := Traffic.key?_draw keys stream
    exact ⟨Draw.draw_lt keys.keys_pos stream, key, hkey⟩
  · intro keys valueSize script i opened start t ts p hcourse
    exact Preload.course_reports hevery hcourse
  · intro reads requests hwarm hcells
    obtain ⟨limit, ⟨w', r⟩, h⟩ := Harness.session_settles_of_limits hwarm hcells w₀
    exact ⟨limit, w', r, h⟩

end Plan

theorem Sample.leaving_gentle : Sample.leaving.Gentle :=
  fun _ => (Sample.brief_mild ⟨0⟩).gentle ⟨rfl, nofun⟩

/-- A plan with one cell, whose worker loses its connection. -/
def Sample.single : Plan := { Sample.endless with warmup := ⟨0⟩ }

theorem Plan.valid_survives_sample : ∃ (w' : World) (rows : List Row),
    (Sample.leaving.harness 100).session Sample.single (.start none) = some (w', .ok rows) ∧
    rows.map (·.totalOps) = [1] ∧ Sample.single.Survived (.start none) w' (.ok rows) := by
  have hrun : ((Sample.leaving.harness 100).session Sample.single (.start none)).map
      (fun p => p.2.toOption.map fun rows => rows.map (·.totalOps)) = some (some [1]) := by
    decide +kernel
  obtain ⟨⟨w', r⟩, hw, heq⟩ := Option.map_eq_some_iff.mp hrun
  obtain ⟨rows, hr, hrows⟩ := Option.map_eq_some_iff.mp heq
  obtain rfl := Sample.ok_of_toOption hr
  have hvalid : Sample.single.validate = .ok () := rfl
  obtain ⟨hall, -, -, hmachine, -⟩ :=
    Plan.valid_survives hvalid Sample.leaving_gentle.spares (.start none)
  exact ⟨w', rows, hw, hrows, hall _ w' _ (hmachine 100) hw⟩

/-- A plan whose cell lasts longer than the clock can show. -/
def Sample.overlong : Plan :=
  { Sample.plan with
    matrix := { valueSizes := [64], clientCounts := [1], operations := [.set]
                duration := .ofSecs 18446744073709551615 } }

/-- **A valid plan may kill its run**: the check looks at no window but for zero, and the clock
cannot show where this one ends. -/
theorem Plan.window_overflows :
    (Sample.overlong.validate = .ok () ∧ Sample.leaving.Spares) ∧
    ¬ ∀ (w' : World) (r : Except Stop (List Row)),
      (Sample.leaving.harness 100).session Sample.overlong (.start none) = some (w', r) →
      (∃ rows, r = .ok rows) ∨ ∃ f, r = .error (.fault f) := by
  refine ⟨⟨rfl, Sample.leaving_gentle.spares⟩, ?_⟩
  intro hclaim
  have hrun : ((Sample.leaving.harness 100).session Sample.overlong (.start none)).map
      (fun p => Sample.stop? p.2) = some (some .died) := by decide +kernel
  obtain ⟨⟨w', r⟩, hw, hstop⟩ := Option.map_eq_some_iff.mp hrun
  obtain rfl := Sample.error_of_stop hstop
  obtain ⟨rows, hrows⟩ | ⟨f, hf⟩ := hclaim w' _ hw
  · simp at hrows
  · simp at hf

end LoadSweep
