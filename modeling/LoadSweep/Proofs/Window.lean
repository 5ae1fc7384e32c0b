import LoadSweep.Proofs.Crew.Gate
import LoadSweep.Proofs.Sample
import LoadSweep.Proofs.Traffic

/-!
# `LoadSweep/Proofs/Window.lean` — the start gate and the window of a cell

The workers of a cell share one window. It opens when the last of them has settled, and from that
instant it has the same end for all. `Cell.Windowed` says what this means for the history, in any
state that the workers can reach: under any script, in any order of the acts of one instant, and
with the token set at any moment. The states of a real run are among them, since a run of the
machine reaches no others (`Crew.run_reaches`).
-/

set_option autoImplicit false

namespace LoadSweep

/-- The workers of a cell before they have done anything. -/
def Cell.crew (cell : Cell) : Crew Traffic :=
  .atShutGate cell.job cell.duration cell.concurrency

theorem Cell.crew_starts (cell : Cell) (w : World) : cell.crew.Starts w :=
  Crew.atShutGate_starts w cell.job cell.duration cell.concurrency

/-- The gate and the window of a cell whose workers started in `w₀`. -/
structure Cell.Windowed (cell : Cell) (scene : Scene) (w₀ w : World) (crew : Crew Traffic) :
    Prop where
  size : crew.callers.length = cell.concurrency
  /-- The instant of settling is there exactly when the worker no longer dials. -/
  settled : ∀ c ∈ crew.callers, c.settledAt = none ↔ c.Dialling
  /-- No worker asks for anything before every worker has settled. -/
  quiet : (∃ c ∈ crew.callers, c.settledAt = none) →
    ∀ e ∈ w.since w₀, ∀ k r, e.event ≠ .asked k r
  /-- The window opens at the instant at which the last worker settles … -/
  opening : ∀ o, crew.gate = .openSince o → crew.Opening w₀ o
  /-- … for when all of them have settled, whatever they came to, this is what happens next … -/
  next : crew.gate = .shut → (∀ c ∈ crew.callers, c.settledAt ≠ none) →
    crew.Opening w₀ w.now ∧ crew.step scene w
      = some (w, { crew with gate := if w.canShow cell.duration then .openSince w.now else .stuck })
  /-- … and it comes to that: no worker dials for ever. -/
  opens : ∃ (w' : World) (crew' : Crew Traffic), Crew.Leads scene w crew w' crew' ∧
    crew'.gate ≠ .shut
  /-- Only a window whose end the clock cannot show does not open. -/
  stuck : crew.gate = .stuck → (∀ e ∈ w.since w₀, ∀ k r, e.event ≠ .asked k r) ∧
    ∃ o, crew.Opening w₀ o ∧
      World.clockSpan ≤ (o + cell.duration.nanos) / Duration.nanosPerSec
  /-- All workers have the same deadline. -/
  deadline : ∀ o, crew.gate = .openSince o → ∀ c ∈ crew.callers, ∀ t, c.state? = some t →
    t.deadline = o + cell.duration.nanos
  /-- Every connected worker starts its first request at the instant of the opening, unless the
  token was set by then, or the window has no length. -/
  first : ∀ o, crew.gate = .openSince o → 0 < cell.duration.nanos → w₀.token = false →
    (∀ e ∈ w.since w₀, e.event = .cancelled → o < e.instant) → (o < w.now ∨ crew.Done w) →
    ∀ k t, ⟨t, .connected k⟩ ∈ w.since w₀ → ∃ r, ⟨o, .asked k r⟩ ∈ w.since w₀
  /-- Requests start within the window. -/
  within : ∀ t k r, ⟨t, .asked k r⟩ ∈ w.since w₀ →
    ∃ o, crew.gate = .openSince o ∧ o ≤ t ∧ t < o + cell.duration.nanos

namespace Crew

variable {scene : Scene} {cell : Cell} {w₀ w : World} {crew : Crew Traffic} {tr : List Entry}

theorem Faithful.deadline (hf : crew.Faithful scene w₀ tr w) (hjob : crew.job = cell.job) {o : Nat}
    (ho : crew.gate = .openSince o) {c : Caller Traffic} (hc : c ∈ crew.callers) {t : Traffic}
    (ht : c.state? = some t) : t.deadline = o + cell.duration.nanos := by
  obtain ⟨i, ha⟩ := hf.agrees_of_mem hc
  obtain ⟨ts, s, u, token, ⟨o', ho', hcourse⟩, hask, -⟩ := ha.came ht
  obtain rfl := Gate.openSince.inj (ho.symm.trans ho')
  rw [hjob] at hcourse hask
  have hs : s.deadline = o + cell.duration.nanos := Traffic.course_deadline hcourse
  obtain hstop | ⟨hdie, -⟩ | ⟨r, hsend⟩ := hask
  · obtain ⟨rfl, -⟩ := Traffic.ends_of_stop hstop
    exact hs
  · exact absurd hdie Traffic.ask_ne_die
  · obtain ⟨-, -, rfl⟩ := Traffic.not_ends_of_send hsend
    exact hs

/-- The first move of a worker is a request, unless it finds the token set or the window over. -/
theorem asked_of_began {c : Caller Traffic} {i o : Nat} (h : c.Began cell.job w₀ i tr o o)
    (hlen : 0 < cell.duration.nanos) (hclear : w₀.token = false)
    (hlate : ∀ e ∈ tr, e.event = .cancelled → o < e.instant) : ∃ r, ⟨o, .asked c.who r⟩ ∈ tr := by
  obtain hasked | ⟨token, hdie⟩ | ⟨seen, s, hseen, hinst, hstop⟩ := h
  · exact hasked
  · exact absurd hdie Traffic.ask_ne_die
  · obtain ⟨-, hlost | hover | hset⟩ := Traffic.ends_of_stop hstop
    · simp [Cell.job, Traffic.job] at hlost
    · simp only [Cell.job, Traffic.job] at hover
      omega
    · obtain h | ⟨t, ht⟩ := World.tokenAfter_iff.mp hset
      · simp [hclear] at h
      · have := hlate _ (hseen.subset ht) rfl
        have := hinst _ ht
        omega

theorem Faithful.first_request (hf : crew.Faithful scene w₀ tr w) (hjob : crew.job = cell.job)
    {o : Nat} (ho : crew.gate = .openSince o) (hopening : crew.Opening w₀ o)
    (hlen : 0 < cell.duration.nanos) (hclear : w₀.token = false)
    (hlate : ∀ e ∈ tr, e.event = .cancelled → o < e.instant) (hpast : o < w.now ∨ crew.Done w)
    {k t : Nat} (hk : ⟨t, .connected k⟩ ∈ tr) : ∃ r, ⟨o, .asked k r⟩ ∈ tr := by
  obtain ⟨c, hc, hck⟩ := hf.heard _ hk k rfl
  obtain ⟨i, ha⟩ := hf.agrees_of_mem hc
  obtain ⟨u, hu, huo⟩ := hopening.everyone c hc
  obtain hstands | hstuck | ⟨o', start, ho', hstart, hnext⟩ := ha.connected hck hk
  · -- it has only just come to the gate, so the clock still stands at the opening
    have htime := hf.timed c hc
    rw [Caller.Timed, hstands] at htime
    have hnow := htime.2 o ho
    rw [hu, Option.getD_some] at hnow
    obtain hlt | hdone := hpast
    · omega
    · have := hdone.1 c hc
      rw [Caller.due, hstands, ho] at this
      simp at this
  · rw [ho] at hstuck
    simp at hstuck
  · obtain rfl := Gate.openSince.inj (ho.symm.trans ho')
    obtain rfl : start = o := by
      rw [hstart, hu, Option.getD_some]
      omega
    rw [hjob] at hnext
    exact Caller.who_eq hck ▸ asked_of_began hnext hlen hclear hlate

theorem Faithful.asked_within (hf : crew.Faithful scene w₀ tr w) (hjob : crew.job = cell.job)
    {t k : Nat} {r : Request} (hmem : ⟨t, .asked k r⟩ ∈ tr) :
    ∃ o, crew.gate = .openSince o ∧ o ≤ t ∧ t < o + cell.duration.nanos := by
  obtain ⟨newer, older, rfl⟩ := List.mem_iff_append.mp hmem
  obtain ⟨i, o, start, ts, s, s', ho, hle, hcourse, hask, -⟩ :=
    hf.licensed t k r older (List.suffix_append _ _)
  rw [hjob] at hcourse hask
  obtain ⟨hends, -⟩ := Traffic.not_ends_of_send hask
  refine ⟨o, ho, Nat.le_trans hle hcourse.start_le, ?_⟩
  rw [← Traffic.course_deadline hcourse]
  exact Nat.lt_of_not_le fun h => hends (.inr (.inl h))

/-- Before a shut gate nobody is due once all have settled, so the gate is looked at next. -/
theorem Faithful.opens_next (hf : crew.Faithful scene w₀ tr w) (hshut : crew.gate = .shut)
    (hall : ∀ c ∈ crew.callers, ¬ c.Dialling) :
    crew.step scene w
      = some (w, { crew with gate := if w.canShow crew.window then .openSince w.now else .stuck }) := by
  have hnobody : crew.next w = none := by
    rw [next_eq_none]
    intro c hc
    obtain ⟨i, ha⟩ := hf.agrees_of_mem hc
    rw [hshut] at ha ⊢
    by_cases hdue : (c.due w .shut).isSome = true
    · exact absurd (ha.dialling hdue) (hall c hc)
    · simpa using hdue
  rw [Crew.step, hnobody, hshut]

theorem Faithful.quiet (hf : crew.Faithful scene w₀ tr w) (hg : ∀ o, crew.gate ≠ .openSince o) :
    ∀ e ∈ tr, ∀ k r, e.event ≠ .asked k r := by
  rintro ⟨t, e⟩ he k r rfl
  obtain ⟨newer, older, rfl⟩ := List.mem_iff_append.mp he
  obtain ⟨i, o, _, _, _, _, ho, -⟩ := hf.licensed t k r older (List.suffix_append _ _)
  exact hg o ho

end Crew

/-- **The start gate and the window of a cell**, in every state that its workers reach. -/
theorem Cell.windowed {cell : Cell} {scene : Scene} {w₀ w : World} {crew : Crew Traffic}
    (h : Crew.Reaches scene w₀ cell.crew w crew) : cell.Windowed scene w₀ w crew := by
  have hstart := cell.crew_starts w₀
  have hf := h.faithful hstart
  obtain ⟨hjob, hwindow, hsize⟩ := h.job_eq
  replace hjob : crew.job = cell.job := hjob
  replace hwindow : crew.window = cell.duration := hwindow
  have hsettled : ∀ c ∈ crew.callers, c.settledAt = none ↔ c.Dialling := fun c hc =>
    (hf.timed c hc).settledAt_eq_none
  have hopening : ∀ o, crew.gate = .openSince o → crew.Opening w₀ o := fun o ho =>
    Crew.Reaches.opening h ho
  refine
    { size := by rw [hsize]; exact List.length_replicate
      settled := hsettled
      quiet := ?_
      opening := hopening
      next := ?_
      opens := h.gate_opens hstart
      stuck := ?_
      deadline := fun o ho c hc t ht => hf.deadline hjob ho hc ht
      first := fun o ho hlen hclear hlate hpast k t hk =>
        hf.first_request hjob ho (hopening o ho) hlen hclear hlate hpast hk
      within := fun t k r hmem => hf.asked_within hjob hmem }
  · rintro ⟨c, hc, hnone⟩
    refine hf.quiet ?_
    intro o ho
    obtain ⟨t, ht, -⟩ := (hopening o ho).everyone c hc
    simp [ht] at hnone
  · intro hshut hall
    have hnot : ∀ c ∈ crew.callers, ¬ c.Dialling := fun c hc hd =>
      hall c hc ((hsettled c hc).mpr hd)
    rw [← hwindow]
    refine ⟨?_, hf.opens_next hshut hnot⟩
    have hgated : crew.Gated w₀ w := Crew.Reaches.gated h
    rw [Crew.Gated, hshut] at hgated
    obtain ⟨c, hc, hd⟩ | ho := hgated
    · exact absurd hd (hnot c hc)
    · exact ho
  · intro hstuck
    exact ⟨hf.quiet fun o ho => by simp [hstuck] at ho, Crew.Reaches.opening_of_stuck h hstuck⟩

/-- The sample run from beginning to end: the window opens with the death of a worker. -/
theorem Cell.windowed_sample : ∃ (w : World) (crew : Crew Traffic),
    Sample.cell.crew.run Sample.scene 20 (.start none) = some (w, crew) ∧
    crew.gate = .openSince 4000000 ∧
    Sample.cell.Windowed Sample.scene (.start none) w crew := by
  have hgate : (Sample.cell.crew.run Sample.scene 20 (.start none)).map (·.2.gate)
      = some (.openSince 4000000) := by decide +kernel
  obtain ⟨⟨w, crew⟩, hrun, hopen⟩ := Option.map_eq_some_iff.mp hgate
  have hstart := Sample.cell.crew_starts (.start none)
  exact ⟨w, crew, hrun, hopen, Cell.windowed (Crew.run_reaches hstart .start hrun).1⟩

end LoadSweep
