import LoadSweep.Proofs.Crew.Act

/-!
# `LoadSweep/Proofs/Crew/Step.lean` — the states a crew can reach

The machine `Crew.step` is deterministic: it always takes the first of the callers that are due,
and the token is set by a script or by one alarm. What is proved about crews should depend on
neither. `Crew.Step` therefore lets time pass as long as nobody is late, lets *any* caller act that
is due now, and lets the token be set at *any* moment, between two acts of one instant as well.
What holds in every state that `Crew.Reaches` holds for every run of the machine.
-/

set_option autoImplicit false

namespace LoadSweep

variable {σ : Type} {scene : Scene}

namespace Crew

/-- Nobody is due before an instant. -/
def NoneBefore (t : Nat) (w : World) (crew : Crew σ) : Prop :=
  ∀ c ∈ crew.callers, ∀ d, c.due w crew.gate = some d → t ≤ d

/-- The world and the crew after the act of the caller at a position. -/
def acted (scene : Scene) (w : World) (crew : Crew σ) (i : Nat) (c : Caller σ) : World × Crew σ :=
  let (w, c) := c.act scene crew.job crew.gate i w
  (w, { crew with callers := crew.callers.set i c })

/-- One step in any order. -/
inductive Step (scene : Scene) (w : World) (crew : Crew σ) : World → Crew σ → Prop
  /-- Time passes while somebody waits for a later instant, and nobody for an earlier one. -/
  | wait (t : Nat) (alarm : Option Nat) (later : w.now ≤ t)
    (waiting : t = w.now ∨ ∃ c ∈ crew.callers, (c.due w crew.gate).isSome)
    (first : crew.NoneBefore t w) : Step scene w crew { w with now := t, alarm } crew
  /-- The token is set. -/
  | cancel : Step scene w crew w.cancel crew
  /-- A caller acts that is due. -/
  | act {i : Nat} {c : Caller σ} (hc : crew.callers[i]? = some c)
    (hdue : c.due w crew.gate = some w.now) :
    Step scene w crew (acted scene w crew i c).1 (acted scene w crew i c).2
  /-- Nobody can act before the gate has been looked at. -/
  | pass (shut : crew.gate = .shut) (nobody : ∀ c ∈ crew.callers, c.due w crew.gate = none) :
    Step scene w crew w
      { crew with gate := if w.canShow crew.window then .openSince w.now else .stuck }

/-- The states that a crew reaches in any number of steps. -/
inductive Reaches (scene : Scene) (w₀ : World) (crew₀ : Crew σ) : World → Crew σ → Prop
  | start : Reaches scene w₀ crew₀ w₀ crew₀
  | step {w w' : World} {crew crew' : Crew σ} (h : Reaches scene w₀ crew₀ w crew)
    (s : Step scene w crew w' crew') : Reaches scene w₀ crew₀ w' crew'

/-- Nothing is left to do. -/
def Done (w : World) (crew : Crew σ) : Prop :=
  (∀ c ∈ crew.callers, c.due w crew.gate = none) ∧ crew.gate ≠ .shut

/-- Behind the gate everybody acts until it has ended. -/
theorem Done.ended {w : World} {crew : Crew σ} (h : crew.Done w) {c : Caller σ}
    (hc : c ∈ crew.callers) : ∃ how, c.stage = .ended how := by
  have hdue := h.1 c hc
  unfold Caller.due at hdue
  cases hs : c.stage with
  | ended how => exact ⟨how, rfl⟩
  | settled => simp [hs, h.2] at hdue
  | fresh | attempting | resting | talking => simp [hs] at hdue

end Crew

/-! ## The machine takes such steps -/

theorem earliest_none_cons (rest : List (Option Nat)) :
    earliest (none :: rest) = (earliest rest).map fun p => (p.1 + 1, p.2) := by
  simp only [earliest]
  cases earliest rest <;> rfl

theorem earliest_some_cons (t : Nat) (rest : List (Option Nat)) :
    earliest (some t :: rest)
      = match earliest rest with
        | none => some (0, t)
        | some p => if t ≤ p.2 then some (0, t) else some (p.1 + 1, p.2) := by
  simp only [earliest]
  cases earliest rest <;> rfl

theorem earliest_eq_none {ds : List (Option Nat)} : earliest ds = none ↔ ∀ d ∈ ds, d = none := by
  induction ds with
  | nil => simp [earliest]
  | cons d rest ih =>
    rw [List.forall_mem_cons, ← ih]
    cases d with
    | none => simp [earliest_none_cons]
    | some t =>
      rw [earliest_some_cons]
      split <;> (try split) <;> simp

theorem earliest_eq_some {ds : List (Option Nat)} {i t : Nat} (h : earliest ds = some (i, t)) :
    ds[i]? = some (some t) ∧ ∀ u, some u ∈ ds → t ≤ u := by
  induction ds generalizing i t with
  | nil => simp [earliest] at h
  | cons d rest ih =>
    cases d with
    | none =>
      rw [earliest_none_cons, Option.map_eq_some_iff] at h
      obtain ⟨p, hp, heq⟩ := h
      obtain ⟨rfl, rfl⟩ := Prod.mk.inj heq
      obtain ⟨hi, hmin⟩ := ih hp
      exact ⟨by simpa using hi, fun u hu => hmin u (by simpa using hu)⟩
    | some s =>
      rw [earliest_some_cons] at h
      cases hr : earliest rest with
      | none =>
        rw [hr] at h
        obtain ⟨rfl, rfl⟩ := Prod.mk.inj (Option.some.inj h)
        refine ⟨rfl, ?_⟩
        intro u hu
        rcases List.mem_cons.mp hu with hu | hu
        · exact Nat.le_of_eq (Option.some.inj hu).symm
        · exact absurd (earliest_eq_none.mp hr _ hu) (by simp)
      | some p =>
        obtain ⟨hi, hmin⟩ := ih hr
        simp only [hr] at h
        split at h
        · rename_i hle
          obtain ⟨rfl, rfl⟩ := Prod.mk.inj (Option.some.inj h)
          refine ⟨rfl, ?_⟩
          intro u hu
          rcases List.mem_cons.mp hu with hu | hu
          · exact Nat.le_of_eq (Option.some.inj hu).symm
          · exact Nat.le_trans hle (hmin u hu)
        · rename_i hlt
          obtain ⟨rfl, rfl⟩ := Prod.mk.inj (Option.some.inj h)
          refine ⟨by simpa using hi, ?_⟩
          intro u hu
          rcases List.mem_cons.mp hu with hu | hu
          · rw [Option.some.inj hu]
            omega
          · exact hmin u hu

namespace Crew

variable {w w' : World} {crew crew' : Crew σ}

theorem next_eq_none : crew.next w = none ↔ ∀ c ∈ crew.callers, c.due w crew.gate = none := by
  simp [next, earliest_eq_none]

theorem next_eq_some {i t : Nat} (h : crew.next w = some (i, t)) :
    (∃ c, crew.callers[i]? = some c ∧ c.due w crew.gate = some t) ∧ crew.NoneBefore t w := by
  obtain ⟨hi, hmin⟩ := earliest_eq_some h
  refine ⟨by simpa [Option.map_eq_some_iff] using hi, ?_⟩
  intro c hc d hd
  exact hmin d (hd ▸ List.mem_map_of_mem hc)

/-- What a step of the machine is: the alarm, the act of a caller, or the gate. -/
theorem step_cases (h : crew.step scene w = some (w', crew')) :
    (∃ (i due : Nat) (c : Caller σ), crew.callers[i]? = some c ∧ c.due w crew.gate = some due ∧
      crew.NoneBefore due w ∧
      ((w.rings due = true ∧ w' = w.ring ∧ crew' = crew) ∨
        (w' = (crew.acted scene { w with now := due } i c).1 ∧
          crew' = (crew.acted scene { w with now := due } i c).2))) ∨
    (crew.gate = .shut ∧ (∀ c ∈ crew.callers, c.due w crew.gate = none) ∧ w' = w ∧
      crew' = { crew with gate := if w.canShow crew.window then .openSince w.now else .stuck }) := by
  unfold step at h
  split at h
  · rename_i i due hnext
    obtain ⟨⟨c, hc, hdue⟩, first⟩ := next_eq_some hnext
    refine .inl ⟨i, due, c, hc, hdue, first, ?_⟩
    split at h
    · rename_i hrings
      obtain ⟨hw, hcrew⟩ := Prod.mk.inj (Option.some.inj h)
      exact .inl ⟨hrings, hw.symm, hcrew.symm⟩
    · rw [hc] at h
      obtain ⟨hw, hcrew⟩ := Prod.mk.inj (Option.some.inj h)
      exact .inr ⟨hw.symm, hcrew.symm⟩
  · rename_i hnext
    split at h
    · rename_i hshut
      obtain ⟨hw, hcrew⟩ := Prod.mk.inj (Option.some.inj h)
      exact .inr ⟨hshut, next_eq_none.mp hnext, hw.symm, hcrew.symm⟩
    all_goals simp at h

/-- The machine stops exactly when nothing is left to do. -/
theorem step_eq_none : crew.step scene w = none ↔ crew.Done w := by
  unfold step Done
  rw [← next_eq_none]
  split
  · rename_i i due hnext
    obtain ⟨⟨c, hc, -⟩, -⟩ := next_eq_some hnext
    rw [hc, hnext]
    split <;> simp
  · rename_i hnext
    rw [hnext]
    split <;> simp [*]

theorem ring_eq {t : Nat} (h : w.rings t = true) (hle : w.now ≤ t) :
    ∃ u, w.now ≤ u ∧ u ≤ t ∧ w.ring = ({ w with now := u, alarm := none } : World).cancel := by
  unfold World.rings at h
  unfold World.ring
  split at h
  · rename_i a ha
    have hat : a ≤ t := by simpa using h
    exact ⟨max w.now a, by omega, by omega, rfl⟩
  · simp at h

theorem ring_sets {t : Nat} (h : w.rings t = true) : w.alarm ≠ none ∧ w.ring.token = true := by
  unfold World.rings at h
  unfold World.ring
  cases halarm : w.alarm with
  | none => simp [halarm] at h
  | some a => exact ⟨by simp, World.cancel_token _⟩

/-- Once the clock has moved to the instant at which a caller is due, it is due then. -/
theorem due_wait {c : Caller σ} {gate : Gate} {t : Nat} (h : c.due w gate = some t) :
    c.due { w with now := t } gate = some t := by
  unfold Caller.due at h ⊢
  split at h <;> simp_all
  · split at h <;> simp_all

/-- **A step of the machine is a step, or two, when nobody is late.** -/
theorem Reaches.of_step {w₀ : World} {crew₀ : Crew σ} (hr : Reaches scene w₀ crew₀ w crew)
    (hlate : crew.NoneBefore w.now w) (h : crew.step scene w = some (w', crew')) :
    Reaches scene w₀ crew₀ w' crew' := by
  obtain ⟨i, due, c, hc, hdue, first, hact⟩ | ⟨hshut, hnobody, rfl, rfl⟩ := step_cases h
  · have hmem := List.mem_of_getElem? hc
    have hsome : ∃ c ∈ crew.callers, (c.due w crew.gate).isSome := ⟨c, hmem, by simp [hdue]⟩
    have hle : w.now ≤ due := hlate c hmem due hdue
    obtain ⟨hrings, rfl, rfl⟩ | ⟨rfl, rfl⟩ := hact
    · -- the alarm rings at an instant of its own, before the caller is due
      obtain ⟨u, hlater, hu, hring⟩ := ring_eq hrings hle
      rw [hring]
      refine (hr.step (.wait u none hlater (.inr hsome) ?_)).step .cancel
      exact fun d hd t ht => Nat.le_trans hu (first d hd t ht)
    · exact (hr.step (.wait due w.alarm hle (.inr hsome) first)).step (.act hc (due_wait hdue))
  · exact hr.step (.pass hshut hnobody)

end Crew

end LoadSweep
