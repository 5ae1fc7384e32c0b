import LoadSweep.Proofs.Crew.Step

/-!
# `LoadSweep/Proofs/Crew/Ground.lean` — what holds of every crew, whatever its job

The history only grows, by entries of the callers of this crew and of the instants that have
passed; the token is what the history says; no two callers share a number; and nobody is late.
These facts are `Crew.Grounded`. They are proved once, by cases on the step, and later inductions
take them from here.

Nobody being late is what makes the clock go forward, and what puts a caller through an open gate
at the very instant at which it settles.
-/

set_option autoImplicit false

namespace LoadSweep

/-! ## From one world to a later one -/

/-- What happened between two worlds. -/
structure Traces (w₀ : World) (tr : List Entry) (w : World) : Prop where
  history : w.history = tr ++ w₀.history
  token : w.token = w₀.tokenAfter tr

namespace Traces

variable {w₀ w : World} {tr tr' : List Entry}

theorem refl (w₀ : World) : Traces w₀ [] w₀ := ⟨rfl, by simp [World.tokenAfter]⟩

theorem unique (h : Traces w₀ tr w) (h' : Traces w₀ tr' w) : tr' = tr :=
  List.append_cancel_right (h'.history.symm.trans h.history)

theorem since_eq (h : Traces w₀ tr w) : w.since w₀ = tr := World.since_eq h.history

theorem after (h : Traces w₀ tr w) (es : List Happening) :
    Traces w₀ (es.map (⟨w.now, ·⟩) ++ tr) (w.after es) := by
  refine ⟨by simp [World.after, h.history], ?_⟩
  rw [World.tokenAfter_append, List.any_map, ← h.token]
  rfl

theorem congr {v : World} (h : Traces w₀ tr w) (hh : v.history = w.history)
    (ht : v.token = w.token) : Traces w₀ tr v := ⟨hh.trans h.history, ht.trans h.token⟩

end Traces

/-! ## Nobody is late -/

namespace Caller

variable {σ : Type} {scene : Scene} {job : Job σ} {gate : Gate} {i : Nat} {w : World}
  {c : Caller σ} {start now : Nat}

/-- The caller settled, or died, between the start and now. -/
def SettledWithin (start now : Nat) (c : Caller σ) : Prop :=
  ∃ t, c.settledAt = some t ∧ start ≤ t ∧ t ≤ now

/-- The instants of a caller agree with its stage and with the clock. One that stands at an open
gate has only just come to it, or the gate has only just opened. -/
def Timed (start now : Nat) (gate : Gate) (c : Caller σ) : Prop :=
  match c.stage with
  | .fresh => c.settledAt = none
  | .attempting due _ | .resting due => c.settledAt = none ∧ now ≤ due
  | .settled _ =>
    c.SettledWithin start now ∧ ∀ o, gate = .openSince o → now = max o (c.settledAt.getD 0)
  | .talking _ sent due _ => c.SettledWithin start now ∧ sent ≤ now ∧ now ≤ due
  | .ended _ => c.SettledWithin start now

theorem SettledWithin.mono {later : Nat} (h : c.SettledWithin start now) (hle : now ≤ later) :
    c.SettledWithin start later := by
  obtain ⟨t, ht, hs, hn⟩ := h
  exact ⟨t, ht, hs, Nat.le_trans hn hle⟩

theorem Timed.le_due (h : c.Timed start w.now gate) {d : Nat} (hd : c.due w gate = some d) :
    w.now ≤ d := by
  unfold Timed at h
  unfold due at hd
  split at hd <;> simp_all
  split at hd <;> omega

/-- Time may pass until the caller is due. -/
theorem Timed.wait (h : c.Timed start w.now gate) {later : Nat} (hle : w.now ≤ later)
    (hd : ∀ d, c.due w gate = some d → later ≤ d) : c.Timed start later gate := by
  unfold Timed at h ⊢
  unfold due at hd
  cases hs : c.stage with
  | fresh => simpa [hs] using h
  | attempting due verdict =>
    simp only [hs] at h hd ⊢
    exact ⟨h.1, hd due rfl⟩
  | resting due =>
    simp only [hs] at h hd ⊢
    refine ⟨h.1, ?_⟩
    -- with the token set the caller is due at once, and no time passes
    cases ht : w.token with
    | true => exact Nat.le_trans (hd w.now (by simp [ht])) h.2
    | false => exact hd due (by simp [ht])
  | settled dialled =>
    simp only [hs] at h hd ⊢
    refine ⟨h.1.mono hle, ?_⟩
    intro o ho
    have := hd w.now (by simp [ho])
    have := h.2 o ho
    omega
  | talking state sent due reply =>
    simp only [hs] at h hd ⊢
    exact ⟨h.1.mono hle, Nat.le_trans h.2.1 hle, hd due rfl⟩
  | ended how =>
    simp only [hs] at h ⊢
    exact h.mono hle

theorem settle_timed (hs : start ≤ w.now) (hg : ∀ o, gate = .openSince o → o ≤ w.now)
    (dialled : Except DialFault Unit) : (c.settle w.now dialled).Timed start w.now gate := by
  refine ⟨⟨w.now, rfl, hs, Nat.le_refl _⟩, ?_⟩
  intro o ho
  have := hg o ho
  simp only [settle, Option.getD_some]
  omega

theorem proceed_timed (h : c.SettledWithin start w.now) (state : σ) :
    (c.proceed scene job w state).2.Timed start w.now gate := by
  rw [proceed_eq]
  split
  · exact h
  · exact h
  · exact ⟨h, Nat.le_refl _, Nat.le_add_right _ _⟩

theorem Acts.timed {w' : World} {c' : Caller σ} (h : Acts scene job gate i w c w' c')
    (ht : c.Timed start w.now gate) (hs : start ≤ w.now)
    (hg : ∀ o, gate = .openSince o → o ≤ w.now) : c'.Timed start w.now gate := by
  have hdial : c.MayDial → c.settledAt = none := by
    rintro (hf | ⟨due, hr⟩)
    · simpa [Timed, hf] using ht
    · simp only [Timed, hr] at ht
      exact ht.1
  cases h with
  | exhausted | calledOff | accepted => exact settle_timed hs hg _
  | refusedLast => exact settle_timed hs hg _
  | started h =>
    refine ⟨?_, Nat.le_add_right _ _⟩
    have := hdial h
    unfold enrol
    split <;> simpa
  | refused h =>
    simp only [Timed, h] at ht
    exact ⟨ht.1, Nat.le_add_right _ _⟩
  | perished => exact ⟨w.now, rfl, hs, Nat.le_refl _⟩
  | turnedAway h =>
    simp only [Timed, h] at ht
    exact ht.1
  | choked h =>
    simp only [Timed, h] at ht
    exact ht.1
  | entered h =>
    simp only [Timed, h] at ht
    exact proceed_timed ht.1 _
  | heard h _ wa hw =>
    simp only [Timed, h] at ht
    subst hw
    exact proceed_timed (w := w.after _) ht.1 _
  | idle => exact ht

end Caller

/-! ## The whole crew -/

namespace Crew

variable {σ : Type} {scene : Scene}

/-- Nobody has done anything yet, and the gate is shut, or open from now on. -/
structure Starts (w₀ : World) (crew : Crew σ) : Prop where
  callers : ∀ c ∈ crew.callers, c = .fresh
  gate : crew.gate = .shut ∨ crew.gate = .openSince w₀.now

theorem atShutGate_starts (w₀ : World) (job : Job σ) (window : Duration) (size : Nat) :
    (atShutGate job window size).Starts w₀ :=
  ⟨fun _ hc => List.eq_of_mem_replicate hc, .inl rfl⟩

theorem atOpenGate_starts (w₀ : World) (job : Job σ) (size : Nat) :
    (atOpenGate w₀ job size).Starts w₀ :=
  ⟨fun _ hc => List.eq_of_mem_replicate hc, .inr rfl⟩

/-- What holds of a crew and its world, `tr` being what happened since the crew was started. -/
structure Grounded (w₀ : World) (tr : List Entry) (w : World) (crew : Crew σ) : Prop where
  traces : Traces w₀ tr w
  clock : w₀.now ≤ w.now
  met : w₀.met ≤ w.met
  /-- Entries are of instants that have passed. -/
  instants : ∀ e ∈ tr, w₀.now ≤ e.instant ∧ e.instant ≤ w.now
  /-- Entries are of callers of this crew. -/
  heard : ∀ e ∈ tr, ∀ k, e.event.caller? = some k → ∃ c ∈ crew.callers, c.number = some k
  numbers : ∀ (i : Nat) (c : Caller σ) (k : Nat), crew.callers[i]? = some c →
    c.number = some k → w₀.met ≤ k ∧ k < w.met
  distinct : ∀ (i j : Nat) (c d : Caller σ) (k : Nat), crew.callers[i]? = some c →
    crew.callers[j]? = some d → c.number = some k → d.number = some k → i = j
  enrolled : ∀ c ∈ crew.callers, c.Enrolled
  timed : ∀ c ∈ crew.callers, c.Timed w₀.now w.now crew.gate
  gate : ∀ o, crew.gate = .openSince o → w₀.now ≤ o ∧ o ≤ w.now

variable {w₀ w : World} {tr : List Entry} {crew crew₀ : Crew σ}

theorem Starts.grounded (hs : crew.Starts w₀) : crew.Grounded w₀ [] w₀ where
  traces := .refl w₀
  clock := Nat.le_refl _
  met := Nat.le_refl _
  instants := by simp
  heard := by simp
  numbers := by
    intro i c k hc hk
    rw [hs.callers c (List.mem_of_getElem? hc)] at hk
    simp [Caller.fresh] at hk
  distinct := by
    intro i j c d k hc _ hk _
    rw [hs.callers c (List.mem_of_getElem? hc)] at hk
    simp [Caller.fresh] at hk
  enrolled := by
    intro c hc
    rw [hs.callers c hc]
    trivial
  timed := by
    intro c hc
    rw [hs.callers c hc]
    rfl
  gate := by
    intro o ho
    rcases hs.gate with hg | hg <;> rw [hg] at ho
    · simp at ho
    · obtain rfl := Gate.openSince.inj ho
      exact ⟨Nat.le_refl _, Nat.le_refl _⟩

theorem getElem?_set_cases {callers : List (Caller σ)} {i j : Nat} {c d : Caller σ}
    (h : (callers.set i c)[j]? = some d) : (j = i ∧ d = c) ∨ (j ≠ i ∧ callers[j]? = some d) := by
  rw [List.getElem?_set] at h
  split at h
  · rename_i hij
    split at h
    · exact .inl ⟨hij.symm, (Option.some.inj h).symm⟩
    · simp at h
  · rename_i hij
    exact .inr ⟨fun hji => hij hji.symm, h⟩

theorem mem_set_or_eq {callers : List (Caller σ)} {i : Nat} {c d : Caller σ}
    (hc : callers[i]? = some c) (hd : d ∈ callers) (c' : Caller σ) :
    d ∈ callers.set i c' ∨ d = c := by
  obtain ⟨j, hj⟩ := List.mem_iff_getElem?.mp hd
  by_cases hji : j = i
  · subst hji
    exact .inr (Option.some.inj (hj.symm.trans hc))
  · refine .inl (List.mem_iff_getElem?.mpr ⟨j, ?_⟩)
    rw [List.getElem?_set_ne (Ne.symm hji)]
    exact hj

theorem mem_set_self {callers : List (Caller σ)} {i : Nat} {c : Caller σ}
    (hc : callers[i]? = some c) (c' : Caller σ) : c' ∈ callers.set i c' :=
  List.mem_set (List.getElem?_eq_some_iff.mp hc).1 c'

/-- A number is an old one of the same position, or the one that was free. -/
theorem number_of_set {callers : List (Caller σ)} {i j k : Nat} {c c' d : Caller σ} {w' : World}
    (hc : callers[i]? = some c) (hnum : c.Enrols w w' c') (hd : (callers.set i c')[j]? = some d)
    (hk : d.number = some k) :
    (∃ d₀, callers[j]? = some d₀ ∧ d₀.number = some k) ∨
      (j = i ∧ k = w.met ∧ w'.met = w.met + 1) := by
  obtain ⟨rfl, rfl⟩ | ⟨-, hd⟩ := getElem?_set_cases hd
  · obtain ⟨hsame, -⟩ | ⟨-, hnew, hnext⟩ := hnum
    · exact .inl ⟨c, hc, hsame ▸ hk⟩
    · exact .inr ⟨rfl, Option.some.inj (hk.symm.trans hnew), hnext⟩
  · exact .inl ⟨d, hd, hk⟩

theorem Grounded.heard_range (hg : crew.Grounded w₀ tr w) {e : Entry} (he : e ∈ tr) {k : Nat}
    (hk : e.event.caller? = some k) : w₀.met ≤ k ∧ k < w.met := by
  obtain ⟨c, hc, hck⟩ := hg.heard e he k hk
  obtain ⟨i, hi⟩ := List.mem_iff_getElem?.mp hc
  exact hg.numbers i c k hi hck

theorem Grounded.wait (hg : crew.Grounded w₀ tr w) {t : Nat} (alarm : Option Nat)
    (later : w.now ≤ t) (first : crew.NoneBefore t w) :
    crew.Grounded w₀ tr { w with now := t, alarm } :=
  { hg with
    traces := hg.traces.congr rfl rfl
    clock := Nat.le_trans hg.clock later
    instants := fun e he => ⟨(hg.instants e he).1, Nat.le_trans (hg.instants e he).2 later⟩
    timed := fun c hc => (hg.timed c hc).wait later (first c hc)
    gate := fun o ho => ⟨(hg.gate o ho).1, Nat.le_trans (hg.gate o ho).2 later⟩ }

theorem Grounded.noneBefore_now (hg : crew.Grounded w₀ tr w) : crew.NoneBefore w.now w :=
  fun c hc _ hd => (hg.timed c hc).le_due hd

/-- Happenings are added, each the token's or of a caller of this crew. -/
theorem Grounded.after (hg : crew.Grounded w₀ tr w) {es : List Happening}
    (hes : ∀ e ∈ es, ∀ k, e.caller? = some k → ∃ c ∈ crew.callers, c.number = some k) :
    crew.Grounded w₀ (es.map (⟨w.now, ·⟩) ++ tr) (w.after es) :=
  { hg with
    traces := hg.traces.after es
    instants := by
      intro e he
      rcases List.mem_append.mp he with he | he
      · obtain ⟨_, _, rfl⟩ := List.mem_map.mp he
        exact ⟨hg.clock, Nat.le_refl _⟩
      · exact hg.instants e he
    heard := by
      intro e he k hk
      rcases List.mem_append.mp he with he | he
      · obtain ⟨e, hmem, rfl⟩ := List.mem_map.mp he
        exact hes e hmem k hk
      · exact hg.heard e he k hk }

theorem Grounded.cancel (hg : crew.Grounded w₀ tr w) :
    crew.Grounded w₀ (w.cancelling.map (⟨w.now, ·⟩) ++ tr) w.cancel := by
  rw [w.cancel_eq]
  refine hg.after ?_
  intro e he k hk
  simp [w.caller?_of_mem_cancelling he, Happening.caller?] at hk

/-- A caller is replaced by what it has become, and the server may have met it just now. -/
theorem Grounded.set (hg : crew.Grounded w₀ tr w) {i : Nat} {c c' : Caller σ} {w' : World}
    (hc : crew.callers[i]? = some c) (hw : w' = { w with met := w'.met })
    (hnum : c.Enrols w w' c') (hen : c'.Enrolled) (ht : c'.Timed w₀.now w.now crew.gate) :
    Grounded w₀ tr w' { crew with callers := crew.callers.set i c' } := by
  have hmet : w.met ≤ w'.met := by
    obtain ⟨-, h⟩ | ⟨-, -, h⟩ := hnum <;> omega
  have hnow : w'.now = w.now := by rw [hw]
  refine
    { traces := hg.traces.congr (by rw [hw]) (by rw [hw])
      clock := hnow ▸ hg.clock
      met := Nat.le_trans hg.met hmet
      instants := hnow ▸ hg.instants
      heard := ?_, numbers := ?_, distinct := ?_, enrolled := ?_, timed := ?_
      gate := hnow ▸ hg.gate }
  · intro e he k hk
    obtain ⟨d, hd, hdk⟩ := hg.heard e he k hk
    obtain hd | rfl := mem_set_or_eq hc hd c'
    · exact ⟨d, hd, hdk⟩
    · refine ⟨c', mem_set_self hc c', ?_⟩
      obtain ⟨hsame, -⟩ | ⟨hnone, -⟩ := hnum
      · exact hsame.trans hdk
      · rw [hnone] at hdk
        simp at hdk
  · intro j d k hd hk
    obtain ⟨d₀, hd₀, hk₀⟩ | ⟨rfl, rfl, hnext⟩ := number_of_set hc hnum hd hk
    · have := hg.numbers j d₀ k hd₀ hk₀
      omega
    · have := hg.met
      omega
  · intro j l d e k hd he hdk hek
    -- two old numbers are told apart as before, and the free one is none of them
    obtain ⟨d₀, hd₀, hdk₀⟩ | ⟨rfl, hk, -⟩ := number_of_set hc hnum hd hdk <;>
      obtain ⟨e₀, he₀, hek₀⟩ | ⟨rfl, hk', -⟩ := number_of_set hc hnum he hek
    · exact hg.distinct j l d₀ e₀ k hd₀ he₀ hdk₀ hek₀
    · have := hg.numbers j d₀ k hd₀ hdk₀
      omega
    · have := hg.numbers l e₀ k he₀ hek₀
      omega
    · rfl
  · intro d hd
    rcases List.mem_or_eq_of_mem_set hd with hd | rfl
    · exact hg.enrolled d hd
    · exact hen
  · intro d hd
    rw [hnow]
    rcases List.mem_or_eq_of_mem_set hd with hd | rfl
    · exact hg.timed d hd
    · exact ht

theorem Grounded.acted (hg : crew.Grounded w₀ tr w) {i : Nat} {c c' : Caller σ} {w' : World}
    (hc : crew.callers[i]? = some c) (ha : c.Acts scene crew.job crew.gate i w w' c') :
    ∃ es : List Happening, (∀ e ∈ es, ∀ k, e.caller? = some k → c'.number = some k) ∧
      Grounded w₀ (es.map (⟨w.now, ·⟩) ++ tr) w' { crew with callers := crew.callers.set i c' } := by
  have hmem := List.mem_of_getElem? hc
  obtain ⟨es, hw, hes, hnum⟩ := ha.effect (hg.enrolled c hmem)
  have hset : Grounded w₀ tr { w with met := w'.met }
      { crew with callers := crew.callers.set i c' } :=
    hg.set hc rfl hnum (ha.enrolled (hg.enrolled c hmem))
      (ha.timed (hg.timed c hmem) hg.clock fun o ho => (hg.gate o ho).2)
  refine ⟨es, hes, ?_⟩
  rw [hw]
  exact hset.after fun e he k hk => ⟨c', mem_set_self hc c', hes e he k hk⟩

theorem Grounded.pass (hg : crew.Grounded w₀ tr w)
    (nobody : ∀ c ∈ crew.callers, c.due w crew.gate = none) {gate : Gate}
    (hgate : gate = .openSince w.now ∨ gate = .stuck) :
    Grounded w₀ tr w { crew with gate } :=
  { hg with
    timed := by
      intro c hc
      have ht := hg.timed c hc
      have hd := nobody c hc
      unfold Caller.Timed at ht ⊢
      unfold Caller.due at hd
      cases hs : c.stage with
      | settled dialled =>
        simp only [hs] at ht ⊢
        -- it settled before now, which is when the gate opens
        obtain ⟨t, hat, hlo, hhi⟩ := ht.1
        refine ⟨ht.1, ?_⟩
        intro o ho
        rcases hgate with rfl | rfl
        · obtain rfl := Gate.openSince.inj ho
          rw [hat, Option.getD_some]
          omega
        · simp at ho
      | fresh | attempting | resting | talking => simp [hs] at hd
      | ended how =>
        simp only [hs] at ht ⊢
        exact ht
    gate := by
      intro o ho
      rcases hgate with rfl | rfl
      · obtain rfl := Gate.openSince.inj ho
        exact ⟨hg.clock, Nat.le_refl _⟩
      · simp at ho }

theorem Grounded.step (hg : crew.Grounded w₀ tr w) {w' : World} {crew' : Crew σ}
    (hs : Step scene w crew w' crew') : ∃ new, crew'.Grounded w₀ (new ++ tr) w' := by
  cases hs with
  | wait t alarm later _ first => exact ⟨[], hg.wait alarm later first⟩
  | cancel => exact ⟨_, hg.cancel⟩
  | act hc hdue =>
    obtain ⟨es, -, h⟩ := hg.acted hc (Caller.act_acts scene _ _ _ _ _)
    exact ⟨_, h⟩
  | pass _ nobody =>
    refine ⟨[], hg.pass nobody ?_⟩
    split
    · exact .inl rfl
    · exact .inr rfl

/-- **Every reached state is grounded.** -/
theorem Reaches.grounded (hs : crew₀.Starts w₀) (h : Reaches scene w₀ crew₀ w crew) :
    crew.Grounded w₀ (w.since w₀) w := by
  suffices ∃ tr, crew.Grounded w₀ tr w by
    obtain ⟨tr, hg⟩ := this
    rwa [hg.traces.since_eq]
  induction h with
  | start => exact ⟨[], hs.grounded⟩
  | step _ s ih =>
    obtain ⟨tr, hg⟩ := ih
    obtain ⟨new, h⟩ := hg.step s
    exact ⟨_, h⟩

/-- **Every state of a run is a reached one, and a run stops only when nothing is left.** -/
theorem run_reaches {limit : Nat} {w' : World} {crew' : Crew σ} (hs : crew₀.Starts w₀)
    (hr : Reaches scene w₀ crew₀ w crew) (h : crew.run scene limit w = some (w', crew')) :
    Reaches scene w₀ crew₀ w' crew' ∧ crew'.Done w' := by
  induction limit generalizing w crew with
  | zero => simp [run] at h
  | succ limit ih =>
    unfold run at h
    split at h
    · rename_i hstep
      obtain ⟨rfl, rfl⟩ := Prod.mk.inj (Option.some.inj h)
      exact ⟨hr, step_eq_none.mp hstep⟩
    · rename_i hstep
      exact ih (hr.of_step (hr.grounded hs).noneBefore_now hstep) h

/-! ## An end is final -/

theorem Grounded.step_of_ended (hg : crew.Grounded w₀ tr w) {w' : World} {crew' : Crew σ}
    (hs : Step scene w crew w' crew') {i : Nat} {c : Caller σ} {how : Departure σ}
    (hc : crew.callers[i]? = some c) (hend : c.stage = .ended how) :
    crew'.callers[i]? = some c ∧
      ∃ new, Traces w₀ (new ++ tr) w' ∧
        ∀ e ∈ new, ∀ k, c.number = some k → e.event.caller? ≠ some k := by
  cases hs with
  | wait => exact ⟨hc, [], hg.traces.congr rfl rfl, by simp⟩
  | cancel =>
    refine ⟨hc, _, hg.cancel.traces, ?_⟩
    intro e he k _
    obtain ⟨x, hx, rfl⟩ := List.mem_map.mp he
    simp [w.caller?_of_mem_cancelling hx, Happening.caller?]
  | @act j d hd hdue =>
    -- another caller acts, for one that has ended is never due
    have hne : j ≠ i := by
      rintro rfl
      obtain rfl := Option.some.inj (hc.symm.trans hd)
      simp [Caller.due, hend] at hdue
    obtain ⟨es, hes, hg'⟩ := hg.acted hd (Caller.act_acts scene crew.job crew.gate j w d)
    have hstay : (crew.acted scene w j d).2.callers[i]? = some c := by
      show (crew.callers.set j _)[i]? = some c
      rw [List.getElem?_set_ne hne]
      exact hc
    refine ⟨hstay, _, hg'.traces, fun e he k hk hek => hne ?_⟩
    obtain ⟨x, hx, rfl⟩ := List.mem_map.mp he
    refine hg'.distinct j i _ c k ?_ hstay (hes x hx k hek) hk
    show (crew.callers.set j _)[j]? = _
    simp [(List.getElem?_eq_some_iff.mp hd).1]
  | pass => exact ⟨hc, [], hg.traces, by simp⟩

/-- **A caller that has ended stays as it is, and the history shows nothing more of it.** -/
theorem Reaches.of_ended (hs : crew₀.Starts w₀) (h : Reaches scene w₀ crew₀ w crew) {w' : World}
    {crew' : Crew σ} (hlater : Reaches scene w crew w' crew') {i : Nat} {c : Caller σ}
    {how : Departure σ} (hc : crew.callers[i]? = some c) (hend : c.stage = .ended how) :
    crew'.callers[i]? = some c ∧
      ∀ k, c.number = some k → share k (w'.since w₀) = share k (w.since w₀) := by
  have hg := h.grounded hs
  suffices ∃ new, crew'.Grounded w₀ (new ++ w.since w₀) w' ∧ crew'.callers[i]? = some c ∧
      ∀ e ∈ new, ∀ k, c.number = some k → e.event.caller? ≠ some k by
    obtain ⟨new, hg', hstay, hquiet⟩ := this
    refine ⟨hstay, ?_⟩
    intro k hk
    rw [hg'.traces.since_eq]
    exact share_append fun e he => hquiet e he k hk
  induction hlater with
  | start => exact ⟨[], hg, hc, by simp⟩
  | step _ s ih =>
    obtain ⟨new, hg', hstay, hquiet⟩ := ih
    obtain ⟨hstay', newer, htr, hquiet'⟩ := hg'.step_of_ended s hstay hend
    obtain ⟨newer', hg''⟩ := hg'.step s
    obtain rfl := List.append_cancel_right (htr.unique hg''.traces)
    rw [← List.append_assoc] at hg''
    refine ⟨_, hg'', hstay', ?_⟩
    intro e he
    rcases List.mem_append.mp he with he | he
    · exact hquiet' e he
    · exact hquiet e he

end Crew

end LoadSweep
