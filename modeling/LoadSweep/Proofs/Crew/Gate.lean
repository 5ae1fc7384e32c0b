import LoadSweep.Proofs.Crew.Course

/-!
# `LoadSweep/Proofs/Crew/Gate.lean` — when the gate of a crew opens

A crew that was started before a shut gate dials first. As long as one of its callers dials, the
gate is shut and time passes; when the last of them has settled, no time passes until the gate is
looked at. The instant at which it opens is therefore the one at which the last caller settled
(`Crew.Opening`), whatever that caller and the others came to.

It does open: every act of a dialling caller uses up a part of an attempt, of which there are
finitely many (`Crew.Reaches.gate_opens`).
-/

set_option autoImplicit false

namespace LoadSweep

variable {σ : Type} {scene : Scene}

namespace Caller

variable {job : Job σ} {gate : Gate} {i : Nat} {w w' w₀ : World} {c c' : Caller σ}
  {tr : List Entry} {start now : Nat}

/-- The caller has not settled. -/
def Dialling (c : Caller σ) : Prop :=
  match c.stage with
  | .fresh | .attempting .. | .resting _ => True
  | .settled _ | .talking .. | .ended _ => False

instance (c : Caller σ) : Decidable c.Dialling := by
  unfold Dialling
  split <;> infer_instance

theorem Timed.settledAt_eq_none (h : c.Timed start now gate) :
    c.settledAt = none ↔ c.Dialling := by
  unfold Timed at h
  unfold Dialling
  cases hs : c.stage <;> simp only [hs] at h ⊢
  case fresh => simpa using h
  case attempting | resting => simpa using h.1
  case settled | talking =>
    obtain ⟨⟨t, ht, -⟩, -⟩ := h
    simp [ht]
  case ended =>
    obtain ⟨t, ht, -⟩ := h
    simp [ht]

theorem Timed.settledWithin (h : c.Timed start now gate) (hd : ¬ c.Dialling) :
    c.SettledWithin start now := by
  unfold Timed at h
  unfold Dialling at hd
  cases hs : c.stage <;> simp only [hs] at h hd
  case settled | talking => exact h.1
  case ended => exact h
  all_goals exact absurd trivial hd

theorem Dialling.due_isSome (h : c.Dialling) : (c.due w gate).isSome := by
  unfold Dialling at h
  unfold due
  cases hs : c.stage <;> simp_all

/-- Before a shut gate only those who dial are due. -/
theorem Agrees.dialling (ha : c.Agrees scene job w₀ .shut i tr) (hd : (c.due w .shut).isSome) :
    c.Dialling := by
  unfold Agrees at ha
  unfold due at hd
  unfold Dialling
  cases hs : c.stage <;> simp only [hs] at ha hd ⊢
  case settled | ended => simp at hd
  case talking =>
    obtain ⟨_, _, _, _, _, hcame, _⟩ := ha
    exact not_came_shut hcame

theorem MayDial.dialling (h : c.MayDial) : c.Dialling := by
  obtain h | ⟨due, h⟩ := h <;> simp [Dialling, h]

/-- A caller settles by an act, at the instant of the act. -/
theorem Acts.settles (h : Acts scene job gate i w c w' c') (hd : c.Dialling) :
    c'.Dialling ∨ c'.settledAt = some w.now := by
  cases h with
  | exhausted | calledOff | accepted | refusedLast | perished => exact .inr rfl
  | started | refused => exact .inl trivial
  | turnedAway h | entered h | heard h | choked h | idle h => simp [Dialling, h] at hd

theorem Acts.stays (h : Acts scene job gate i w c w' c') (hd : ¬ c.Dialling) :
    ¬ c'.Dialling ∧ c'.settledAt = c.settledAt := by
  have hproceed : ∀ (wa : World) (s : σ), ¬ (c.proceed scene job wa s).2.Dialling ∧
      (c.proceed scene job wa s).2.settledAt = c.settledAt := by
    intro wa s
    rw [proceed_eq]
    split <;> exact ⟨id, rfl⟩
  cases h with
  | exhausted h | calledOff h | started h => exact absurd h.dialling hd
  | accepted h | refused h | refusedLast h | perished h => simp [Dialling, h] at hd
  | turnedAway | choked => exact ⟨id, rfl⟩
  | entered | heard => exact hproceed _ _
  | idle h => exact ⟨hd, rfl⟩

theorem Acts.alarm_eq (h : Acts scene job gate i w c w' c') (hn : c.Enrolled) :
    w'.alarm = w.alarm := by
  obtain ⟨es, hw, -⟩ := h.effect hn
  rw [hw]
  rfl

/-- What is left of dialling: two for an attempt, and one for its end. -/
def toDial (tries : Nat) (c : Caller σ) : Nat :=
  match c.stage with
  | .fresh | .resting _ => 2 * (tries - c.reasons.length) + 2
  | .attempting .. => 2 * (tries - c.reasons.length) + 1
  | .settled _ | .talking .. | .ended _ => 0

/-- Every act of a dialling caller uses some of it up. -/
theorem Acts.toDial_lt (h : Acts scene job gate i w c w' c') (hd : c.Dialling) :
    c'.toDial scene.policy.tries < c.toDial scene.policy.tries := by
  have hmay : c.MayDial →
      c.toDial scene.policy.tries = 2 * (scene.policy.tries - c.reasons.length) + 2 := by
    rintro (h | ⟨due, h⟩) <;> simp [toDial, h]
  cases h with
  | exhausted h | calledOff h =>
    rw [hmay h]
    exact Nat.succ_pos _
  | started h =>
    rw [hmay h]
    simp only [toDial, enrol_reasons]
    omega
  | accepted h | refusedLast h | perished h =>
    simp only [toDial, h]
    exact Nat.succ_pos _
  | refused h =>
    simp only [toDial, h, List.length_cons]
    omega
  | turnedAway h | entered h | heard h | choked h | idle h => simp [Dialling, h] at hd

end Caller

namespace Crew

variable {w w' w₀ : World} {crew crew' : Crew σ} {job : Job σ} {window : Duration} {size : Nat}

/-- The last caller settled at this instant, and no caller later. A crew of nobody has settled from
the start. -/
structure Opening (w₀ : World) (crew : Crew σ) (opened : Nat) : Prop where
  everyone : ∀ c ∈ crew.callers, ∃ t, c.settledAt = some t ∧ t ≤ opened
  last : (∃ c ∈ crew.callers, c.settledAt = some opened) ∨ (crew.callers = [] ∧ opened = w₀.now)

/-- The gate is shut while somebody dials, and at the instant at which the last one settles; then
it opens, or is stuck. -/
def Gated (w₀ w : World) (crew : Crew σ) : Prop :=
  match crew.gate with
  | .shut => (∃ c ∈ crew.callers, c.Dialling) ∨ crew.Opening w₀ w.now
  | .openSince opened =>
    crew.Opening w₀ opened ∧
      (opened + crew.window.nanos) / Duration.nanosPerSec < World.clockSpan
  | .stuck =>
    ∃ opened, crew.Opening w₀ opened ∧
      World.clockSpan ≤ (opened + crew.window.nanos) / Duration.nanosPerSec

/-- Everybody had settled when the gate opened, and passed it then. -/
theorem Opening.max_eq {opened : Nat} (h : crew.Opening w₀ opened) {c : Caller σ}
    (hc : c ∈ crew.callers) : max opened (c.settledAt.getD 0) = opened := by
  obtain ⟨t, ht, hle⟩ := h.everyone c hc
  rw [ht, Option.getD_some, Nat.max_eq_left hle]

theorem Opening.acted {opened i : Nat} {c c' : Caller σ} (h : crew.Opening w₀ opened)
    (hc : crew.callers[i]? = some c) (hsame : c'.settledAt = c.settledAt) :
    Opening w₀ { crew with callers := crew.callers.set i c' } opened := by
  refine ⟨?_, ?_⟩
  · intro d hd
    rcases List.mem_or_eq_of_mem_set hd with hd | rfl
    · exact h.everyone d hd
    · rw [hsame]
      exact h.everyone c (List.mem_of_getElem? hc)
  · obtain ⟨d, hd, hlast⟩ | ⟨hnil, -⟩ := h.last
    · left
      obtain hd | rfl := mem_set_or_eq hc hd c'
      · exact ⟨d, hd, hlast⟩
      · exact ⟨c', mem_set_self hc c', hsame.trans hlast⟩
    · simp [hnil] at hc

theorem atShutGate_gated (w₀ : World) (job : Job σ) (window : Duration) (size : Nat) :
    (atShutGate job window size).Gated w₀ w₀ := by
  show (∃ c ∈ List.replicate size Caller.fresh, c.Dialling) ∨ _
  cases size with
  | zero => exact .inr ⟨fun c hc => absurd hc (by simp [atShutGate]), .inr ⟨rfl, rfl⟩⟩
  | succ n => exact .inl ⟨.fresh, by simp, trivial⟩

/-- After an act before a shut gate somebody still dials, or the caller was the last. -/
theorem Faithful.gated_act {tr : List Entry} {i : Nat} {c c' : Caller σ}
    (hf : crew.Faithful scene w₀ tr w) (hshut : crew.gate = .shut)
    (hc : crew.callers[i]? = some c) (hdue : c.due w crew.gate = some w.now)
    (ha : c.Acts scene crew.job crew.gate i w w' c') :
    (∃ d ∈ crew.callers.set i c', d.Dialling) ∨
      Opening w₀ { crew with callers := crew.callers.set i c' } w.now := by
  have hdial : c.Dialling := by
    have hagrees := hf.agrees i c hc
    rw [hshut] at hagrees hdue
    exact hagrees.dialling (w := w) (by rw [hdue]; rfl)
  have hmem := List.mem_of_getElem? hc
  by_cases hsome : ∃ d ∈ crew.callers.set i c', d.Dialling
  · exact .inl hsome
  · obtain hstill | hsettled := ha.settles hdial
    · exact .inl ⟨c', mem_set_self hc c', hstill⟩
    · refine .inr ⟨?_, .inl ⟨c', mem_set_self hc c', hsettled⟩⟩
      intro d hd
      rcases List.mem_or_eq_of_mem_set hd with hold | rfl
      · obtain ⟨t, ht, -, hle⟩ := (hf.timed d hold).settledWithin fun hdd => hsome ⟨d, hd, hdd⟩
        exact ⟨t, ht, hle⟩
      · exact ⟨w.now, hsettled, Nat.le_refl _⟩

theorem Faithful.gated_acted {tr : List Entry} (hf : crew.Faithful scene w₀ tr w)
    (hg : crew.Gated w₀ w) {i : Nat} {c : Caller σ} (hc : crew.callers[i]? = some c)
    (hdue : c.due w crew.gate = some w.now) :
    (crew.acted scene w i c).2.Gated w₀ (crew.acted scene w i c).1 := by
  have hmem := List.mem_of_getElem? hc
  have ha := Caller.act_acts scene crew.job crew.gate i w c
  have hnow : (crew.acted scene w i c).1.now = w.now := ha.now_eq (hf.enrolled c hmem)
  -- once everybody has settled, an act moves nobody's instant of settling
  have hstays : ∀ {o : Nat}, crew.Opening w₀ o → (crew.acted scene w i c).2.Opening w₀ o := by
    intro o ho
    have hnot : ¬ c.Dialling := by
      rw [← (hf.timed c hmem).settledAt_eq_none]
      obtain ⟨t, ht, -⟩ := ho.everyone c hmem
      simp [ht]
    exact ho.acted hc (ha.stays hnot).2
  unfold Gated at hg ⊢
  rw [hnow]
  show match crew.gate with
    | .shut => _
    | .openSince opened => _
    | .stuck => _
  split at hg
  · rename_i hshut
    exact hf.gated_act hshut hc hdue ha
  · exact ⟨hstays hg.1, hg.2⟩
  · obtain ⟨o, ho, hspan⟩ := hg
    exact ⟨o, hstays ho, hspan⟩

/-- Before a shut gate only those who dial are due. -/
theorem Faithful.dialling_of_due {tr : List Entry} (hf : crew.Faithful scene w₀ tr w)
    (hshut : crew.gate = .shut) {c : Caller σ} (hc : c ∈ crew.callers)
    (hdue : (c.due w crew.gate).isSome) : c.Dialling := by
  obtain ⟨i, hagrees⟩ := hf.agrees_of_mem hc
  rw [hshut] at hagrees hdue
  exact hagrees.dialling hdue

theorem Faithful.gated_step {tr : List Entry} (hf : crew.Faithful scene w₀ tr w)
    (hg : crew.Gated w₀ w) (hs : Step scene w crew w' crew') : crew'.Gated w₀ w' := by
  cases hs with
  | wait t alarm later waiting first =>
    unfold Gated at hg ⊢
    split at hg
    · rename_i hshut
      -- time passes only for somebody who is due, and before a shut gate that one dials
      obtain rfl | ⟨c, hc, hdue⟩ := waiting
      · exact hg
      · exact .inl ⟨c, hc, hf.dialling_of_due hshut hc hdue⟩
    · exact hg
    · exact hg
  | cancel =>
    unfold Gated at hg ⊢
    rw [World.cancel_now]
    exact hg
  | act hc hdue => exact hf.gated_acted hg hc hdue
  | pass shut nobody =>
    unfold Gated at hg ⊢
    rw [shut] at hg
    have hopening : crew.Opening w₀ w.now := by
      obtain ⟨c, hc, hdial⟩ | ho := hg
      · have hdue : (c.due w crew.gate).isSome := hdial.due_isSome
        simp [nobody c hc] at hdue
      · exact ho
    by_cases hshow : w.canShow crew.window = true
    · simp only [hshow, if_true]
      exact ⟨{ hopening with }, of_decide_eq_true hshow⟩
    · simp only [hshow]
      exact ⟨w.now, { hopening with }, Nat.le_of_not_lt fun hlt => hshow (decide_eq_true hlt)⟩

/-- **The gate opens when the last caller has settled, and at that instant.** -/
theorem Reaches.gated (h : Reaches scene w₀ (atShutGate job window size) w crew) :
    crew.Gated w₀ w := by
  induction h with
  | start => exact atShutGate_gated w₀ job window size
  | step hr hs ih => exact (hr.faithful (atShutGate_starts w₀ job window size)).gated_step ih hs

theorem Reaches.opening (h : Reaches scene w₀ (atShutGate job window size) w crew) {opened : Nat}
    (ho : crew.gate = .openSince opened) : crew.Opening w₀ opened := by
  have hgated := h.gated
  rw [Gated, ho] at hgated
  exact hgated.1

theorem Reaches.opening_of_stuck (h : Reaches scene w₀ (atShutGate job window size) w crew)
    (hstuck : crew.gate = .stuck) :
    ∃ opened, crew.Opening w₀ opened ∧
      World.clockSpan ≤ (opened + window.nanos) / Duration.nanosPerSec := by
  have hgated := h.gated
  have hwindow : crew.window = window := h.job_eq.2.1
  rw [Gated, hstuck, hwindow] at hgated
  exact hgated

/-! ## It does open -/

/-- The machine goes from one state to another. -/
inductive Leads (scene : Scene) : World → Crew σ → World → Crew σ → Prop
  | refl {w : World} {crew : Crew σ} : Leads scene w crew w crew
  | step {w w' v : World} {crew crew' crew'' : Crew σ} (s : crew.step scene w = some (w', crew'))
    (h : Leads scene w' crew' v crew'') : Leads scene w crew v crew''

/-- What is left to do before the gate: the alarm, and what the callers have left of dialling. -/
def toOpen (scene : Scene) (w : World) (crew : Crew σ) : Nat :=
  w.alarm.toList.length + Number.total (crew.callers.map (Caller.toDial scene.policy.tries))

theorem alarm_ring_lt {t : Nat} (h : w.rings t = true) (hle : w.now ≤ t) :
    w.ring.alarm.toList.length < w.alarm.toList.length := by
  obtain ⟨u, -, -, hring⟩ := ring_eq h hle
  rw [hring, World.cancel_eq]
  cases halarm : w.alarm with
  | none => simp [World.rings, halarm] at h
  | some a => exact Nat.one_pos

/-- A step of a crew in which only those who dial are due opens the gate, or leaves less to do. -/
theorem Faithful.toOpen_lt {tr : List Entry} (hf : crew.Faithful scene w₀ tr w)
    (hdial : ∀ c ∈ crew.callers, (c.due w crew.gate).isSome → c.Dialling)
    (h : crew.step scene w = some (w', crew')) (hstill : crew'.gate = crew.gate) :
    crew'.toOpen scene w' < crew.toOpen scene w := by
  obtain ⟨i, due, c, hc, hdue, -, hact⟩ | ⟨hshut, -, -, rfl⟩ := step_cases h
  · have hmem := List.mem_of_getElem? hc
    obtain ⟨hrings, rfl, rfl⟩ | ⟨rfl, rfl⟩ := hact
    · exact Nat.add_lt_add_right (alarm_ring_lt hrings (hf.noneBefore_now c hmem due hdue)) _
    · have ha := Caller.act_acts scene crew.job crew.gate i { w with now := due } c
      have hi : (crew.callers.map (Caller.toDial scene.policy.tries))[i]?
          = some (c.toDial scene.policy.tries) := by rw [List.getElem?_map, hc]; rfl
      have hlt := Number.total_set_lt hi (ha.toDial_lt (hdial c hmem (by rw [hdue]; rfl)))
      rw [← List.map_set] at hlt
      rw [toOpen, show (crew.acted scene { w with now := due } i c).1.alarm = w.alarm from
        ha.alarm_eq (hf.enrolled c hmem)]
      exact Nat.add_lt_add_left hlt _
  · simp only [hshut] at hstill
    split at hstill <;> simp at hstill

/-- **The gate opens, or is found to be stuck, after finitely many steps of the machine.** -/
theorem Reaches.gate_opens {crew₀ : Crew σ} (hs : crew₀.Starts w₀)
    (h : Reaches scene w₀ crew₀ w crew) :
    ∃ (w' : World) (crew' : Crew σ), Leads scene w crew w' crew' ∧ crew'.gate ≠ .shut := by
  induction hn : crew.toOpen scene w using Nat.strongRecOn generalizing w crew with
  | ind n ih =>
    by_cases hshut : crew.gate = .shut
    · have hf := h.faithful hs
      cases hstep : crew.step scene w with
      | none => exact absurd hshut (step_eq_none.mp hstep).2
      | some next =>
        obtain ⟨w', crew'⟩ := next
        by_cases hshut' : crew'.gate = .shut
        · have hlt := hf.toOpen_lt (fun c hc => hf.dialling_of_due hshut hc) hstep
            (hshut'.trans hshut.symm)
          obtain ⟨v, crew'', hleads, hopen⟩ := ih _ (hn ▸ hlt) (h.of_step hf.noneBefore_now hstep) rfl
          exact ⟨v, crew'', .step hstep hleads, hopen⟩
        · exact ⟨w', crew', .step hstep .refl, hshut'⟩
    · exact ⟨w, crew, .refl, hshut⟩

end Crew

end LoadSweep
