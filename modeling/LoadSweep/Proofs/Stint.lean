import LoadSweep.Proofs.Silence

/-!
# `LoadSweep/Proofs/Stint.lean` — one crew after the other

A phase has to do with the ones before it only through the world in which it begins. What it adds
to the history happens later, and to callers that the server had not met before
(`World.Precedes`); and when its crew is over, everything that its callers began has ended and none
of them does anything more (`Crew.Done.idle`). So the crews of a run do not overlap. One that found
its gate open is a `Stint`.

A caller that dies leaves an entry, and nobody else does (`Crew.Reaches.died_iff`): who died can be
read off the history.
-/

set_option autoImplicit false

namespace LoadSweep

/-! ## From one world to a later one -/

/-- What happened from one world to the other happened in between, to callers met in between. -/
structure World.Precedes (w w' : World) : Prop where
  history : w'.history = w'.since w ++ w.history
  clock : w.now ≤ w'.now
  met : w.met ≤ w'.met
  instants : ∀ e ∈ w'.since w, w.now ≤ e.instant ∧ e.instant ≤ w'.now
  callers : ∀ e ∈ w'.since w, ∀ k, e.event.caller? = some k → w.met ≤ k ∧ k < w'.met

namespace World

variable {w v u : World}

theorem Quiet.since_left (h : w.Quiet v) (u : World) : u.since v = u.since w := by
  rw [World.since, World.since, h.history]

theorem Quiet.tokenAfter (h : w.Quiet v) (tr : List Entry) : v.tokenAfter tr = w.tokenAfter tr := by
  rw [World.tokenAfter, World.tokenAfter, h.token]

theorem since_self (w : World) : w.since w = [] := since_eq (List.nil_append w.history).symm

namespace Precedes

theorem quiet (h : w.Quiet v) : w.Precedes v := by
  have hnone : v.since w = [] := (h.since w).trans w.since_self
  exact
    { history := by rw [hnone, h.history]; rfl
      clock := Nat.le_of_eq h.now.symm
      met := Nat.le_of_eq h.met.symm
      instants := by simp [hnone]
      callers := by simp [hnone] }

theorem since_trans (h : w.Precedes v) (h' : v.Precedes u) :
    u.since w = u.since v ++ v.since w := by
  refine since_eq ?_
  rw [List.append_assoc, ← h.history]
  exact h'.history

theorem trans (h : w.Precedes v) (h' : v.Precedes u) : w.Precedes u where
  history := by
    rw [h.since_trans h', List.append_assoc, ← h.history]
    exact h'.history
  clock := Nat.le_trans h.clock h'.clock
  met := Nat.le_trans h.met h'.met
  instants := by
    intro e he
    rw [h.since_trans h'] at he
    rcases List.mem_append.mp he with he | he
    · exact ⟨Nat.le_trans h.clock (h'.instants e he).1, (h'.instants e he).2⟩
    · exact ⟨(h.instants e he).1, Nat.le_trans (h.instants e he).2 h'.clock⟩
  callers := by
    intro e he k hk
    rw [h.since_trans h'] at he
    rcases List.mem_append.mp he with he | he
    · exact ⟨Nat.le_trans h.met (h'.callers e he k hk).1, (h'.callers e he k hk).2⟩
    · exact ⟨(h.callers e he k hk).1, Nat.lt_of_lt_of_le (h.callers e he k hk).2 h'.met⟩

end Precedes

end World

namespace Crew

variable {σ : Type} {scene : Scene} {w₀ w w' : World} {crew₀ crew crew' : Crew σ}

theorem Reaches.precedes (hs : crew₀.Starts w₀) (h : Reaches scene w₀ crew₀ w crew) :
    w₀.Precedes w := by
  have hg := h.grounded hs
  exact
    { history := hg.traces.history
      clock := hg.clock
      met := hg.met
      instants := hg.instants
      callers := fun _ he _ hk => hg.heard_range he hk }

end Crew

theorem Harness.Passes.precedes {h : Harness Option} {scene : Scene} {w w' : World}
    (hk : h.Keeps scene) (hp : h.Passes w w') : w.Precedes w' := by
  induction hp with
  | quiet hq => exact .quiet hq
  | crew hs _ hrun => exact (hk hs hrun).precedes hs
  | trans _ _ ih ih' => exact ih.trans ih'

/-! ## Who died -/

namespace Caller

variable {σ : Type} {scene : Scene} {job : Job σ} {gate : Gate} {i : Nat} {w w' w₀ : World}
  {c c' : Caller σ} {tr new : List Entry}

theorem proceed_perishes {s : σ} (ht : Traces w₀ tr w)
    (ht' : Traces w₀ (new ++ tr) (c.proceed scene job w s).1) {e : Entry} (he : e ∈ new) {k : Nat}
    (hk : e.event = .died k) :
    ∃ state, (c.proceed scene job w s).2.stage = .ended (.died state) := by
  rw [proceed_eq] at ht' ⊢
  split at ht'
  · obtain rfl := List.append_left_eq_self.mp (ht.unique ht')
    simp at he
  · exact ⟨_, rfl⟩
  · obtain rfl := List.append_cancel_right ((ht.after _).unique ht')
    obtain rfl := List.mem_singleton.mp he
    simp at hk

/-- An act that adds a death is the caller's own. -/
theorem Acts.perishes (h : Acts scene job gate i w c w' c') (ht : Traces w₀ tr w)
    (ht' : Traces w₀ (new ++ tr) w') {e : Entry} (he : e ∈ new) {k : Nat}
    (hk : e.event = .died k) : ∃ state, c'.stage = .ended (.died state) := by
  have htolled : ∀ {sets : Bool} {t : Nat}, e ∈ (w.tolled sets).map (Entry.mk t) → False := by
    intro sets t hmem
    obtain ⟨x, hx, rfl⟩ := List.mem_map.mp hmem
    obtain rfl := w.mem_tolled hx
    simp at hk
  cases h with
  | exhausted | calledOff | turnedAway | idle =>
    obtain rfl := List.append_left_eq_self.mp (ht.unique ht')
    simp at he
  | started =>
    obtain rfl := List.append_cancel_right ((traces_enrol ht c _).unique ht')
    rw [List.map_append] at he
    rcases List.mem_append.mp he with he | he
    · exact (htolled he).elim
    · obtain rfl := List.mem_singleton.mp he
      simp at hk
  | accepted | refused | refusedLast =>
    obtain rfl := List.append_cancel_right ((ht.after _).unique ht')
    obtain rfl := List.mem_singleton.mp he
    simp at hk
  | perished | choked => exact ⟨_, rfl⟩
  | entered => exact proceed_perishes ht ht' he hk
  | heard _ _ wa hwa =>
    subst hwa
    obtain ⟨more, rfl, htraces, hnext⟩ := traces_proceed ht _ ht'
    rcases List.mem_append.mp he with he | he
    · exact proceed_perishes htraces hnext he hk
    · rcases List.mem_cons.mp he with rfl | he
      · simp at hk
      · exact (htolled he).elim

end Caller

namespace Crew

variable {σ : Type} {scene : Scene} {w₀ w w' : World} {crew₀ crew crew' : Crew σ} {tr : List Entry}

/-- Every death in a trace is that of a caller that has ended with it. -/
def Mourned (crew : Crew σ) (tr : List Entry) : Prop :=
  ∀ e ∈ tr, ∀ k, e.event = .died k →
    ∃ c ∈ crew.callers, c.number = some k ∧ ∃ state, c.stage = .ended (.died state)

theorem Mourned.step (h : crew.Mourned tr) (hg : crew.Grounded w₀ tr w)
    (hs : Step scene w crew w' crew') :
    ∃ new, crew'.Grounded w₀ (new ++ tr) w' ∧ crew'.Mourned (new ++ tr) := by
  obtain ⟨new, hg'⟩ := hg.step hs
  refine ⟨new, hg', ?_⟩
  intro e he k hk
  cases hs with
  | wait =>
    rw [hg.traces.unique (hg'.traces.congr rfl rfl)] at he
    exact h e he k hk
  | pass =>
    obtain rfl := List.append_left_eq_self.mp (hg.traces.unique hg'.traces)
    exact h e he k hk
  | cancel =>
    obtain rfl := List.append_cancel_right (hg.cancel.traces.unique hg'.traces)
    rcases List.mem_append.mp he with he | he
    · obtain ⟨x, hx, rfl⟩ := List.mem_map.mp he
      obtain rfl := w.caller?_of_mem_cancelling hx
      simp at hk
    · exact h e he k hk
  | @act i c hc hdue =>
    have ha := Caller.act_acts scene crew.job crew.gate i w c
    obtain ⟨es, hes, hacted⟩ := hg.acted hc ha
    obtain rfl := List.append_cancel_right (hacted.traces.unique hg'.traces)
    rcases List.mem_append.mp he with he | he
    · have hstage := ha.perishes hg.traces hg'.traces he hk
      obtain ⟨x, hx, rfl⟩ := List.mem_map.mp he
      exact ⟨_, mem_set_self hc _, hes x hx k (by rw [show x = .died k from hk]; rfl), hstage⟩
    · obtain ⟨d, hd, hnumber, state, hstage⟩ := h e he k hk
      obtain hstill | rfl := mem_set_or_eq hc hd (c.act scene crew.job crew.gate i w).2
      · exact ⟨d, hstill, hnumber, state, hstage⟩
      · -- who has died does not act
        simp [Caller.due, hstage] at hdue

theorem Reaches.mourned (hs : crew₀.Starts w₀) (h : Reaches scene w₀ crew₀ w crew) :
    crew.Mourned (w.since w₀) := by
  suffices ∃ tr, crew.Grounded w₀ tr w ∧ crew.Mourned tr by
    obtain ⟨tr, hg, hm⟩ := this
    rwa [hg.traces.since_eq]
  induction h with
  | start => exact ⟨[], hs.grounded, by simp [Mourned]⟩
  | step _ s ih =>
    obtain ⟨tr, hg, hm⟩ := ih
    obtain ⟨new, hg', hm'⟩ := hm.step hg s
    exact ⟨_, hg', hm'⟩

/-- **A caller has died exactly when the history says so.** -/
theorem Reaches.died_iff (hs : crew₀.Starts w₀) (h : Reaches scene w₀ crew₀ w crew) {c : Caller σ}
    (hc : c ∈ crew.callers) :
    (∃ state, c.stage = .ended (.died state)) ↔
      ∃ k u, c.number = some k ∧ ⟨u, .died k⟩ ∈ w.since w₀ := by
  have hf := h.faithful hs
  constructor
  · rintro ⟨state, hstage⟩
    obtain ⟨i, ha⟩ := hf.agrees_of_mem hc
    rw [Caller.Agrees, hstage] at ha
    cases state with
    | none =>
      obtain ⟨hdials, u, hu⟩ := ha
      obtain ⟨k, hk⟩ := hdials.numbered (Nat.succ_ne_zero _)
      exact ⟨k, u, hk, Caller.who_eq hk ▸ hu⟩
    | some s =>
      obtain ⟨⟨u, hu⟩, ts, s₀, t, token, -, ⟨hshow, -⟩ | ⟨r, hshow, -⟩⟩ := ha <;>
        obtain ⟨k, hk⟩ := hshow.numbered
      · exact ⟨k, u, hk, Caller.who_eq hk ▸ hu⟩
      · exact ⟨k, u, hk, Caller.who_eq hk ▸ hu⟩
  · rintro ⟨k, u, hk, hu⟩
    obtain ⟨d, hd, hdk, hstage⟩ := h.mourned hs _ hu k rfl
    -- two callers with one number are one caller
    obtain ⟨i, hi⟩ := List.mem_iff_getElem?.mp hc
    obtain ⟨j, hj⟩ := List.mem_iff_getElem?.mp hd
    obtain rfl := hf.distinct i j c d k hi hj hk hdk
    obtain rfl := Option.some.inj (hi.symm.trans hj)
    exact hstage

/-! ## A crew that is over -/

theorem done_iff : crew.Done w ↔
    (∀ c ∈ crew.callers, ∃ how, c.stage = .ended how) ∧ crew.gate ≠ .shut := by
  constructor
  · intro hdone
    exact ⟨fun c hc => hdone.ended hc, hdone.2⟩
  · rintro ⟨hall, hgate⟩
    refine ⟨?_, hgate⟩
    intro c hc
    obtain ⟨how, hend⟩ := hall c hc
    rw [Caller.due, hend]

/-- **When nothing is left to do nothing more happens**, but for the token. -/
theorem Done.idle (hdone : crew.Done w) (h : Reaches scene w crew w' crew') :
    crew' = crew ∧ w'.now = w.now ∧ w'.met = w.met ∧
      ∃ new, w'.history = new ++ w.history ∧ ∀ e ∈ new, e.event = .cancelled := by
  induction h with
  | start => exact ⟨rfl, rfl, rfl, [], rfl, by simp⟩
  | @step v v' one one' h s ih =>
    obtain ⟨rfl, hnow, hmet, new, hhistory, hall⟩ := ih
    have hnobody : ∀ c ∈ one.callers, c.due v one.gate = none :=
      (done_iff.mpr (done_iff.mp hdone)).1
    cases s with
    | wait t alarm _ waiting =>
      obtain rfl | ⟨c, hc, hdue⟩ := waiting
      · exact ⟨rfl, hnow, hmet, new, hhistory, hall⟩
      · simp [hnobody c hc] at hdue
    | cancel =>
      refine ⟨rfl, (World.cancel_now v).trans hnow, (World.cancel_met v).trans hmet,
        v.cancelling.map (Entry.mk v.now) ++ new, ?_, ?_⟩
      · rw [World.cancel_eq, List.append_assoc, ← hhistory]
        rfl
      · intro e he
        rcases List.mem_append.mp he with he | he
        · obtain ⟨x, hx, rfl⟩ := List.mem_map.mp he
          exact v.caller?_of_mem_cancelling hx
        · exact hall e he
    | act hc hdue => simp [hnobody _ (List.mem_of_getElem? hc)] at hdue
    | pass shut => exact absurd shut hdone.2

end Crew

/-- What the phases after a crew add is about other callers. -/
theorem Crew.Reaches.apart {σ : Type} {scene : Scene} {w₀ w w' u : World} {crew₀ crew : Crew σ}
    {harness : Harness Option} (hs : crew₀.Starts w₀) (h : Crew.Reaches scene w₀ crew₀ w crew)
    (hquiet : w.Quiet w') (hk : harness.Keeps scene) (hpasses : harness.Passes w' u) :
    ∀ e ∈ u.since w', ∀ c ∈ crew.callers, ∀ k, c.number = some k → e.event.caller? ≠ some k := by
  intro e he c hc k hnumber hcaller
  obtain ⟨i, hi⟩ := List.mem_iff_getElem?.mp hc
  have hlow := ((hpasses.precedes hk).callers e he k hcaller).1
  have hhigh := ((h.grounded hs).numbers i c k hi hnumber).2
  rw [hquiet.met] at hlow
  omega

/-- Everything that began between two worlds has ended, at the instant and in the way that the
script has for it. -/
def World.Landing (scene : Scene) (w w' : World) : Prop :=
  ∀ (newer older : List Entry) (e x : Entry), w'.since w = newer ++ e :: older →
    e.ending scene older = some x → x ∈ newer

theorem Crew.Reaches.landing {σ : Type} {scene : Scene} {w₀ w : World} {crew₀ crew : Crew σ}
    (hs : crew₀.Starts w₀) (h : Crew.Reaches scene w₀ crew₀ w crew) (hdone : crew.Done w) :
    World.Landing scene w₀ w :=
  fun _ _ _ _ heq hx => (h.orderly hs).landed hdone heq hx

/-- A crew of so many callers with this job, before which the gate stood open, began in one world
and was over in the other. -/
structure Stint (scene : Scene) {σ : Type} (job : Job σ) (size : Nat) (w w' : World) : Prop where
  precedes : w.Precedes w'
  ran : ∃ (before after : World) (crew : Crew σ), w.Quiet before ∧
    Crew.Reaches scene before (.atOpenGate before job size) after crew ∧
    crew.callers.length = size ∧ (∀ c ∈ crew.callers, ∃ how, c.stage = .ended how) ∧
    after.Quiet w'
  met : w'.met ≤ w.met + size
  landing : w.Landing scene w'

namespace Stint

variable {σ : Type} {scene : Scene} {job : Job σ} {size : Nat} {w w' before after : World}
  {crew : Crew σ}

theorem of_perform {harness : Harness Option} (hf : harness.Follows scene) (hq : w.Quiet before)
    (hrun : harness.perform before (.atOpenGate before job size) = some (after, crew))
    (hq' : after.Quiet w') : Stint scene job size w w' := by
  have hs := Crew.atOpenGate_starts before job size
  obtain ⟨hreach, hdone⟩ := hf hs hrun
  have hsize : crew.callers.length = size := hreach.job_eq.2.2.trans List.length_replicate
  have hsame : w'.since w = after.since before := by
    rw [hq'.since, hq.since_left]
  refine
    { precedes := .trans (.quiet hq) (.trans (hreach.precedes hs) (.quiet hq'))
      ran := ⟨before, after, crew, hq, hreach, hsize, fun c hc => hdone.ended hc, hq'⟩
      met := ?_
      landing := ?_ }
  · have hle : Crew.numbered crew.callers ≤ crew.callers.length := List.countP_le_length
    rw [hq'.met, hreach.met_eq hs, hq.met, ← hsize]
    exact Nat.add_le_add_left hle _
  · intro newer older e x heq
    rw [hsame] at heq
    exact hreach.landing hs hdone newer older e x heq

theorem after_quiet (hq : w.Quiet before) (h : Stint scene job size before w') :
    Stint scene job size w w' := by
  obtain ⟨v, after, crew, hv, hran⟩ := h.ran
  have hmet := h.met
  rw [hq.met] at hmet
  refine { precedes := .trans (.quiet hq) h.precedes, ran := ⟨v, after, crew, hq.trans hv, hran⟩
           met := hmet, landing := ?_ }
  intro newer older e x heq
  rw [← hq.since_left] at heq
  exact h.landing newer older e x heq

/-- What a stint sends is what its job does. -/
theorem sends (h : Stint scene job size w w') {P : Request → Prop} (hj : job.Sends P) {t k : Nat}
    {r : Request} (hr : ⟨t, .asked k r⟩ ∈ w'.since w) : P r := by
  obtain ⟨before, after, crew, hq, hreach, -, -, hq'⟩ := h.ran
  rw [hq'.since, ← hq.since_left] at hr
  exact hreach.sends (Crew.atOpenGate_starts before job size) hj hr

end Stint

end LoadSweep
