import LoadSweep.Proofs.Ending

/-!
# `LoadSweep/Proofs/Phase.lean` — phases, one after the other

A phase in a scene gives a world and a result, or nothing when a crew did not come to its end.
`Run.bind` has one rule for each case. Logging changes nothing but the logs (`World.Quiet`), no
phase reads them, and no crew writes to that of the main course (`Crew.Reaches.log_eq`).
-/

set_option autoImplicit false

namespace LoadSweep

/-! ## Logs -/

/-- The worlds differ in their logs at most. -/
def World.Quiet (w v : World) : Prop := v = { w with log := v.log, workerLogs := v.workerLogs }

namespace World.Quiet

variable {w v u : World}

theorem refl (w : World) : w.Quiet w := rfl

theorem trans (h : w.Quiet v) (h' : v.Quiet u) : w.Quiet u := by
  unfold Quiet at *
  rw [h', h]

theorem say (w : World) (e : LogEvent) : w.Quiet (w.say e) := rfl

theorem sayAll (w : World) (es : List LogEvent) : w.Quiet (w.sayAll es) := by
  induction es generalizing w with
  | nil => exact refl w
  | cons e rest ih => exact (say w e).trans (ih _)

theorem sayOf (w : World) (number : Option Nat) (es : List LogEvent) :
    w.Quiet (w.sayOf number es) := by
  unfold World.sayOf
  split
  · exact refl w
  · rfl

theorem token (h : w.Quiet v) : v.token = w.token := by rw [h]

theorem alarm (h : w.Quiet v) : v.alarm = w.alarm := by rw [h]

theorem now (h : w.Quiet v) : v.now = w.now := by rw [h]

theorem canShow (h : w.Quiet v) (d : Duration) : v.canShow d = w.canShow d := by
  rw [World.canShow, World.canShow, World.deadline, World.deadline, h.now]

theorem history (h : w.Quiet v) : v.history = w.history := by rw [h]

theorem met (h : w.Quiet v) : v.met = w.met := by rw [h]

theorem since (h : w.Quiet v) (w₀ : World) : v.since w₀ = w.since w₀ := by
  rw [World.since, World.since, h.history]

end World.Quiet

theorem World.log_sayAll (w : World) (es : List LogEvent) :
    (w.sayAll es).log = es.reverse ++ w.log := by
  induction es generalizing w with
  | nil => rfl
  | cons e rest ih =>
    have hrest := ih (w.say e)
    rw [List.reverse_cons, List.append_assoc]
    exact hrest

/-- What callers do is no matter for the log of the main course. -/
theorem Crew.Reaches.log_eq {σ : Type} {scene : Scene} {w₀ w : World} {crew₀ crew : Crew σ}
    (hs : crew₀.Starts w₀) (h : Crew.Reaches scene w₀ crew₀ w crew) : w.log = w₀.log := by
  induction h with
  | start => rfl
  | @step w w' crew crew' hreach s ih =>
    cases s with
    | wait | pass => exact ih
    | cancel =>
      rw [World.cancel_eq]
      exact ih
    | @act i c hc hdue =>
      have henrolled := (hreach.grounded hs).enrolled c (List.mem_of_getElem? hc)
      obtain ⟨es, hw, -⟩ := (Caller.act_acts scene crew.job crew.gate i w c).effect henrolled
      have hlog : (c.act scene crew.job crew.gate i w).1.log = w.log := by
        rw [hw]
        rfl
      exact hlog.trans ih

/-! ## Sequences -/

namespace Run

variable {α β : Type} {x : Run Option α} {k : α → Run Option β} {w w' : World} {a : α} {e : Stop}

theorem bind_of_ok (h : x w = some (w', .ok a)) : (x >>= k) w = k a w' := by
  show (x w).bind _ = _
  rw [h]
  rfl

theorem bind_of_error (h : x w = some (w', .error e)) : (x >>= k) w = some (w', .error e) := by
  show (x w).bind _ = _
  rw [h]
  rfl

theorem bind_of_none (h : x w = none) : (x >>= k) w = none := by
  show (x w).bind _ = _
  rw [h]
  rfl

theorem of_pure {r : Except Stop α} (h : (pure a : Run Option α) w = some (w', r)) :
    w' = w ∧ r = .ok a := by
  obtain ⟨rfl, rfl⟩ := Prod.mk.inj (Option.some.inj h)
  exact ⟨rfl, rfl⟩

theorem of_fault {f : RunFault} {r : Except Stop α}
    (h : (fault f : Run Option α) w = some (w', r)) : w' = w ∧ r = .error (.fault f) := by
  obtain ⟨rfl, rfl⟩ := Prod.mk.inj (Option.some.inj h)
  exact ⟨rfl, rfl⟩

/-- What went before, when a sequence gives a result. -/
theorem of_bind {r : Except Stop β} (h : (x >>= k) w = some (w', r)) :
    (∃ v a, x w = some (v, .ok a) ∧ k a v = some (w', r)) ∨
      ∃ e, x w = some (w', .error e) ∧ r = .error e := by
  cases hx : x w with
  | none => simp [bind_of_none hx] at h
  | some p =>
    obtain ⟨v, a | a⟩ := p
    · rw [bind_of_error hx] at h
      obtain ⟨rfl, rfl⟩ := Prod.mk.inj (Option.some.inj h)
      exact .inr ⟨a, rfl, rfl⟩
    · rw [bind_of_ok hx] at h
      exact .inl ⟨v, a, rfl, h⟩

theorem ok_of_bind {b : β} (h : (x >>= k) w = some (w', .ok b)) :
    ∃ v a, x w = some (v, .ok a) ∧ k a v = some (w', .ok b) := by
  obtain hok | ⟨e, -, he⟩ := of_bind h
  · exact hok
  · simp at he

theorem of_look {f : World → α} {r : Except Stop β} (h : (look f >>= k) w = some (w', r)) :
    k (f w) w = some (w', r) := by
  rwa [bind_of_ok (x := look f) rfl] at h

theorem of_say {level : Level} {message : String} {fields : List (String × String)}
    {k : Unit → Run Option β} {r : Except Stop β}
    (h : (say level message fields >>= k) w = some (w', r)) :
    ∃ v, w.Quiet v ∧ k () v = some (w', r) := by
  rw [bind_of_ok (x := say level message fields) rfl] at h
  exact ⟨_, .say _ _, h⟩

theorem say_quiet (level : Level) (message : String) (fields : List (String × String)) (w : World) :
    ∃ v, w.Quiet v ∧ (say level message fields : Run Option Unit) w = some (v, .ok ()) :=
  ⟨_, .say _ _, rfl⟩

theorem of_die {r : Except Stop α} (h : (die : Run Option α) w = some (w', r)) :
    w' = w ∧ r = .error .died := by
  obtain ⟨rfl, rfl⟩ := Prod.mk.inj (Option.some.inj h)
  exact ⟨rfl, rfl⟩

theorem quiet_of_say {level : Level} {message : String} {fields : List (String × String)}
    {r : Except Stop Unit} (h : (say level message fields : Run Option Unit) w = some (w', r)) :
    w.Quiet w' := by
  obtain ⟨rfl, -⟩ := Prod.mk.inj (Option.some.inj h)
  exact .say _ _

theorem of_change {f : World → World} {k : Unit → Run Option β} {r : Except Stop β}
    (h : (change f >>= k) w = some (w', r)) : k () (f w) = some (w', r) := by
  rwa [bind_of_ok (x := change f) rfl] at h

theorem bind_assoc {γ : Type} (x : Run Option α) (f : α → Run Option β) (g : β → Run Option γ)
    (w : World) : ((x >>= f) >>= g) w = (x >>= fun a => f a >>= g) w := by
  cases hx : x w with
  | none => rw [bind_of_none hx, bind_of_none (bind_of_none hx)]
  | some p =>
    obtain ⟨v, e | a⟩ := p
    · rw [bind_of_error hx, bind_of_error (bind_of_error hx)]
    · rw [bind_of_ok hx]
      cases hf : f a v with
      | none => rw [bind_of_none hf, bind_of_none ((bind_of_ok hx).trans hf)]
      | some q =>
        obtain ⟨u, e | b⟩ := q
        · rw [bind_of_error hf, bind_of_error ((bind_of_ok hx).trans hf)]
        · rw [bind_of_ok hf, bind_of_ok ((bind_of_ok hx).trans hf)]

theorem bind_congr {k' : α → Run Option β} (h : ∀ a v, k a v = k' a v) :
    (x >>= k) w = (x >>= k') w := by
  cases hx : x w with
  | none => rw [bind_of_none hx, bind_of_none hx]
  | some p =>
    obtain ⟨v, e | a⟩ := p
    · rw [bind_of_error hx, bind_of_error hx]
    · rw [bind_of_ok hx, bind_of_ok hx, h]

/-- With enough steps for each crew a phase has a result, and more steps make no difference. -/
def Settles (x : Nat → Run Option α) (w : World) : Prop :=
  ∃ limit p, ∀ more, limit ≤ more → x more w = some p

theorem Settles.const {p : World × Except Stop α} (h : x w = some p) : Settles (fun _ => x) w :=
  ⟨0, p, fun _ _ => h⟩

theorem Settles.bind {x : Nat → Run Option α} {k : Nat → α → Run Option β} (hx : Settles x w)
    (hk : ∀ v a, Settles (fun n => k n a) v) : Settles (fun n => x n >>= k n) w := by
  obtain ⟨limit, ⟨v, e | a⟩, hp⟩ := hx
  · exact ⟨limit, _, fun more hle => bind_of_error (hp more hle)⟩
  · obtain ⟨limit', p, hq⟩ := hk v a
    refine ⟨max limit limit', p, ?_⟩
    intro more hle
    exact (bind_of_ok (hp more (by omega))).trans (hq more (by omega))

/-- What comes before makes no difference when its result is known. -/
theorem Settles.bind_of_ok {x : Nat → Run Option α} {k : Nat → α → Run Option β} {v : World}
    (hx : ∀ n, x n w = some (v, .ok a)) (hk : Settles (fun n => k n a) v) :
    Settles (fun n => x n >>= k n) w := by
  obtain ⟨limit, p, hp⟩ := hk
  exact ⟨limit, p, fun more hle => (Run.bind_of_ok (hx more)).trans (hp more hle)⟩

section Crew

variable {σ : Type} {h : Harness Option} {start : World → Crew σ} {crew : Crew σ}

theorem crew_of_perform (hrun : h.perform w (start w) = some (w', crew)) :
    Run.crew h start w = some (w', .ok crew) := by
  show (h.perform w (start w)).bind _ = _
  rw [hrun]
  rfl

theorem crew_of_none (hrun : h.perform w (start w) = none) : Run.crew h start w = none := by
  show (h.perform w (start w)).bind _ = _
  rw [hrun]
  rfl

theorem of_crew {k : Crew σ → Run Option β} {r : Except Stop β}
    (hrun : (Run.crew h start >>= k) w = some (w', r)) :
    ∃ v crew, h.perform w (start w) = some (v, crew) ∧ k crew v = some (w', r) := by
  cases hp : h.perform w (start w) with
  | none => simp [bind_of_none (crew_of_none hp)] at hrun
  | some p =>
    obtain ⟨v, crew⟩ := p
    rw [bind_of_ok (crew_of_perform hp)] at hrun
    exact ⟨v, crew, rfl, hrun⟩

end Crew

end Run

/-- The harness runs its crews in a scene: until nothing is left to do, in any order of the steps
that the clock allows, and with the token set at any moment. -/
def Harness.Follows (h : Harness Option) (scene : Scene) : Prop :=
  ∀ {σ : Type} {w w' : World} {crew crew' : Crew σ}, crew.Starts w →
    h.perform w crew = some (w', crew') → Crew.Reaches scene w crew w' crew' ∧ crew'.Done w'

/-- The machine keeps to one of these orders. -/
theorem Scene.harness_follows (scene : Scene) (limit : Nat) :
    (scene.harness limit).Follows scene := fun hs hrun => Crew.run_reaches hs .start hrun

/-! ## A caller by itself -/

/-- A caller that runs by itself is a crew of one, and its result is the state in which it
served. -/
theorem Harness.of_alone {σ : Type} {harness : Harness Option} {target : Target} {job : Job σ}
    {report : σ → List LogEvent} {w w' : World} {r : Except Stop σ}
    (h : harness.alone target job report w = some (w', r)) :
    ∃ (v : World) (crew : Crew σ), harness.perform w (.atOpenGate w job 1) = some (v, crew) ∧
      v.Quiet w' ∧
      ∀ state, r = .ok state → ∃ c ∈ crew.callers, c.stage = .ended (.served state) := by
  obtain ⟨v, crew, hrun, h⟩ := Run.of_crew h
  refine ⟨v, crew, hrun, ?_⟩
  match hcallers : crew.callers with
  | [] | _ :: _ :: _ =>
    rw [hcallers] at h
    obtain ⟨rfl, rfl⟩ := Run.of_die h
    exact ⟨.refl _, by simp⟩
  | [c] =>
    rw [hcallers] at h
    replace h := Run.of_change h
    have hdial := World.Quiet.sayAll v (c.dialLog target harness.policy.tries)
    match hstage : c.stage with
    | .ended (.served state) =>
      rw [hstage] at h
      replace h := Run.of_change h
      obtain ⟨rfl, rfl⟩ := Run.of_pure h
      refine ⟨hdial.trans (.sayAll _ _), ?_⟩
      intro state' heq
      obtain rfl := Except.ok.inj heq
      exact ⟨c, List.mem_cons_self, hstage⟩
    | .ended (.died (some state)) =>
      rw [hstage] at h
      replace h := Run.of_change h
      obtain ⟨rfl, rfl⟩ := Run.of_die h
      exact ⟨hdial.trans (.sayAll _ _), by simp⟩
    | .ended (.unserved (.error _)) | .ended (.unserved (.ok _)) | .ended (.died none)
    | .fresh | .attempting .. | .resting _ | .settled _ | .talking .. =>
      rw [hstage] at h
      obtain ⟨rfl, rfl⟩ := Prod.mk.inj (Option.some.inj h)
      exact ⟨hdial, by simp⟩

/-! ## The phases of a cell -/

namespace Harness

variable (h : Harness Option)

theorem passLogs_quiet (target : Target) (gate : Gate) (index : Nat)
    (callers : List (Caller Traffic)) (w : World) :
    ∃ w', w.Quiet w' ∧ h.passLogs target gate index callers w = some (w', .ok ()) := by
  induction callers generalizing index w with
  | nil => exact ⟨w, .refl w, rfl⟩
  | cons c rest ih =>
    obtain ⟨w', hquiet, heq⟩ := ih (index + 1) (w.sayOf c.number (c.dialLog target h.policy.tries ++
      if gate = .stuck then [] else c.workLog target h.policy.tries index))
    exact ⟨w', (World.Quiet.sayOf w _ _).trans hquiet, heq⟩

/-- The results of workers that have ended: all of them, or the first index that died. -/
def resultsOf : (index : Nat) → List (Caller Traffic) → Except Nat (List WorkerResult)
  | _, [] => .ok []
  | index, c :: rest =>
    match c.result? with
    | some r => (resultsOf (index + 1) rest).map (r :: ·)
    | none => .error index

/-- All workers have a result, or the first that has none is reported. -/
theorem resultsOf_cases (index : Nat) (callers : List (Caller Traffic)) :
    (resultsOf index callers = .ok (callers.filterMap Caller.result?) ∧
      ∀ c ∈ callers, c.result? ≠ none) ∨
    ∃ (i : Nat) (c : Caller Traffic), resultsOf index callers = .error (index + i) ∧
      callers[i]? = some c ∧ c.result? = none ∧
      ∀ (j : Nat) (d : Caller Traffic), j < i → callers[j]? = some d → d.result? ≠ none := by
  induction callers generalizing index with
  | nil => exact .inl ⟨rfl, by simp⟩
  | cons c rest ih =>
    unfold resultsOf
    cases hc : c.result? with
    | none => exact .inr ⟨0, c, rfl, rfl, hc, by simp⟩
    | some result =>
      obtain ⟨heq, hall⟩ | ⟨i, d, heq, hd, hnone, hfirst⟩ := ih (index + 1)
      · left
        refine ⟨by simp [heq, hc, Except.map], ?_⟩
        simpa [hc] using hall
      · right
        refine ⟨i + 1, d, ?_, by simpa using hd, hnone, ?_⟩
        · simp only [heq, Except.map]
          congr 1
          omega
        · intro j e hj he
          cases j with
          | zero =>
            obtain rfl : c = e := by simpa using he
            simp [hc]
          | succ j => exact hfirst j e (by omega) (by simpa using he)

/-- When all workers have a result these are the results. -/
theorem map_of_resultsOf {index : Nat} {callers : List (Caller Traffic)}
    {results : List WorkerResult} (h : resultsOf index callers = .ok results) :
    callers.map Caller.result? = results.map some := by
  induction callers generalizing index results with
  | nil =>
    obtain rfl := Except.ok.inj h
    rfl
  | cons c rest ih =>
    unfold resultsOf at h
    cases hc : c.result? with
    | none => simp [hc] at h
    | some r =>
      rw [hc] at h
      cases hrest : resultsOf (index + 1) rest with
      | error => simp [hrest, Except.map] at h
      | ok later =>
        rw [hrest] at h
        obtain rfl := Except.ok.inj h
        rw [List.map_cons, List.map_cons, hc, ih hrest]

theorem collect_quiet (index : Nat) (callers : List (Caller Traffic)) (w : World) :
    ∃ w', w.Quiet w' ∧
      collect (m := Option) index callers w = some (w', .ok (resultsOf index callers)) := by
  induction callers generalizing index w with
  | nil => exact ⟨w, .refl w, rfl⟩
  | cons c rest ih =>
    unfold collect resultsOf
    cases c.result? with
    | some r =>
      obtain ⟨w', hquiet, heq⟩ := ih (index + 1) w
      exact ⟨w', hquiet, Run.bind_of_ok heq⟩
    | none =>
      obtain ⟨w', hquiet, heq⟩ := ih (index + 1) (w.say _)
      exact ⟨w', (World.Quiet.say w _).trans hquiet, Run.bind_of_ok heq⟩

/-- What the workers of a cell come to when nothing is left to do. -/
def verdictOf (crew : Crew Traffic) : Except Stop (List WorkerResult) :=
  match crew.gate with
  | .openSince _ => (resultsOf 0 crew.callers).mapError fun index => .fault (.workerDied index)
  | .shut | .stuck => .error .died

variable {h} {cell : Cell} {w w₁ : World} {crew : Crew Traffic}

theorem verdictOf_of_ok {opened : Nat} {results : List WorkerResult}
    (hgate : crew.gate = .openSince opened) (hres : resultsOf 0 crew.callers = .ok results) :
    verdictOf crew = .ok results := by
  rw [verdictOf, hgate, hres]
  rfl

theorem verdictOf_of_error {opened index : Nat} (hgate : crew.gate = .openSince opened)
    (hres : resultsOf 0 crew.callers = .error index) :
    verdictOf crew = .error (.fault (.workerDied index)) := by
  rw [verdictOf, hgate, hres]
  rfl

theorem verdictOf_of_stuck (hgate : crew.gate = .stuck) : verdictOf crew = .error .died := by
  rw [verdictOf, hgate]

/-- The results are there when the gate has opened and every worker has one. -/
theorem of_verdict_ok {results : List WorkerResult} (h : verdictOf crew = .ok results) :
    (∃ opened, crew.gate = .openSince opened) ∧
      crew.callers.map Caller.result? = results.map some := by
  unfold verdictOf at h
  split at h
  · rename_i opened hgate
    refine ⟨⟨opened, hgate⟩, ?_⟩
    cases hresults : resultsOf 0 crew.callers with
    | error =>
      rw [hresults] at h
      nomatch h
    | ok later =>
      rw [hresults] at h
      obtain rfl := Except.ok.inj h
      exact map_of_resultsOf hresults
  · simp at h
  · simp at h

theorem workers_of_run (hrun : h.perform w cell.crew = some (w₁, crew)) :
    ∃ w', w₁.Quiet w' ∧ h.workers cell w = some (w', verdictOf crew) := by
  obtain ⟨w₂, hquiet, hlogs⟩ :=
    passLogs_quiet h cell.target crew.gate 0 crew.callers w₁
  have hhead : h.workers cell w = _ :=
    (Run.bind_of_ok (Run.crew_of_perform hrun)).trans (Run.bind_of_ok hlogs)
  rw [hhead]
  unfold verdictOf
  cases crew.gate with
  | openSince opened =>
    obtain ⟨w₃, hquiet', hcollect⟩ := collect_quiet 0 crew.callers w₂
    cases hresults : resultsOf 0 crew.callers with
    | ok results =>
      rw [hresults] at hcollect
      exact ⟨w₃.say _, hquiet.trans (hquiet'.trans (.say _ _)), Run.bind_of_ok hcollect⟩
    | error index =>
      rw [hresults] at hcollect
      exact ⟨w₃, hquiet.trans hquiet', Run.bind_of_ok hcollect⟩
  | shut | stuck => exact ⟨w₂, hquiet, rfl⟩

theorem workers_of_none (hrun : h.perform w cell.crew = none) : h.workers cell w = none :=
  Run.bind_of_none (Run.crew_of_none hrun)

/-- What went before, when the workers give a result. -/
theorem of_workers {w' : World} {r : Except Stop (List WorkerResult)}
    (hres : h.workers cell w = some (w', r)) :
    ∃ (w₁ : World) (crew : Crew Traffic), h.perform w cell.crew = some (w₁, crew) ∧
      w₁.Quiet w' ∧ r = verdictOf crew := by
  cases hrun : h.perform w cell.crew with
  | none => simp [workers_of_none hrun] at hres
  | some p =>
    obtain ⟨v, hquiet, heq⟩ := workers_of_run hrun
    obtain ⟨rfl, rfl⟩ := Prod.mk.inj (Option.some.inj (heq.symm.trans hres))
    exact ⟨p.1, p.2, rfl, hquiet, rfl⟩

/-- A cell whose workers come to their end is measured. -/
theorem measure_of_run (hrun : h.perform w cell.crew = some (w₁, crew)) :
    ∃ w', w₁.Quiet w' ∧
      h.measure cell w = some (w', (verdictOf crew).map (aggregate cell)) := by
  obtain ⟨w', hquiet, heq⟩ := workers_of_run hrun
  refine ⟨w', hquiet, ?_⟩
  cases hverdict : verdictOf crew with
  | ok results =>
    rw [hverdict] at heq
    exact Run.bind_of_ok heq
  | error e =>
    rw [hverdict] at heq
    exact Run.bind_of_error heq

theorem measure_of_none (hrun : h.perform w cell.crew = none) :
    h.measure cell w = none :=
  Run.bind_of_none (workers_of_none hrun)

/-! ### Enough steps -/

variable {scene : Scene}

theorem passLogs_settles (scene : Scene) (target : Target) (gate : Gate)
    (callers : List (Caller Traffic)) (index : Nat) (w : World) :
    Run.Settles (fun n => (scene.harness n).passLogs target gate index callers) w := by
  induction callers generalizing index w with
  | nil => exact .const rfl
  | cons c rest ih =>
    have hsay : Run.Settles (fun n => Run.change (m := Option) (·.sayOf c.number
        (c.dialLog target (scene.harness n).policy.tries ++ if gate = .stuck then []
          else c.workLog target (scene.harness n).policy.tries index))) w :=
      .const (x := Run.change (·.sayOf c.number (c.dialLog target scene.policy.tries ++
        if gate = .stuck then [] else c.workLog target scene.policy.tries index))) rfl
    exact .bind hsay fun v _ => ih (index + 1) v

theorem workers_settles {limit : Nat} (hrun : cell.crew.run scene limit w = some (w₁, crew)) :
    Run.Settles (fun n => (scene.harness n).workers cell) w := by
  have hcrew : Run.Settles (fun n => Run.crew (scene.harness n) fun _ => cell.crew) w :=
    ⟨limit, _, fun more hle => Run.crew_of_perform (h := scene.harness more) (Crew.run_mono hle hrun)⟩
  refine .bind hcrew fun v crew => .bind (passLogs_settles scene _ _ _ _ v) fun u _ => ?_
  cases crew.gate with
  | openSince opened =>
    obtain ⟨u', -, hcollect⟩ := collect_quiet 0 crew.callers u
    refine .bind (.const hcollect) ?_
    intro v' results
    cases results <;> exact .const rfl
  | shut | stuck => exact .const rfl

theorem measure_settles {limit : Nat} (hrun : cell.crew.run scene limit w = some (w₁, crew)) :
    Run.Settles (fun n => (scene.harness n).measure cell) w :=
  .bind (workers_settles hrun) fun _ _ => .const rfl

end Harness

end LoadSweep
