import LoadSweep.Proofs.Crew.Order
import LoadSweep.Proofs.Settling
import LoadSweep.Proofs.Silence

/-!
# `LoadSweep/Proofs/Welcome.lean` — a server that welcomes everybody

When every attempt succeeds in time and every request succeeds, a caller has one way left not to
serve: it finds the token set before its first attempt, and then the server never meets it. A caller
by itself is called off that way or comes to its result (`Harness.alone_welcomed`), and so each phase
before a sweep has few outcomes. The number of callers that the server has met tells them apart.
-/

set_option autoImplicit false

namespace LoadSweep

/-- Every attempt succeeds within the time limit, and every request succeeds. -/
structure Scene.Welcomes (scene : Scene) : Prop where
  tries : 0 < scene.policy.tries
  accepts : ∀ k n, ((scene.script k).dial scene.policy n).2 = .accepted
  answers : ∀ k n r, ∃ value, ((scene.script k).replyTo n r).answer = .done value

/-! ## One caller -/

namespace Job

variable {σ : Type} {job : Job σ} {script : Script} {i opened start t : Nat} {ts : List Turn} {s : σ}

/-- The job breaks none of its own assumptions. -/
def Lasts (job : Job σ) : Prop := ∀ (now : Nat) (token : Bool) (s : σ), job.ask now token s ≠ .die

/-- What holds at the beginning, and after every success, holds as long as all answers are such. -/
theorem Course.keeps_done {P : σ → Prop} (h : job.Course script i opened start ts s t)
    (hdone : ∀ n r, ∃ value, (script.replyTo n r).answer = .done value)
    (enter : P (job.enter i opened))
    (turn : ∀ (s s' : σ) (now : Nat) (token : Bool) (r : Request) (later : Nat)
      (value : Option String), P s → job.ask now token s = .send r s' →
      P (job.hear now later (.ok value) s')) : P s := by
  induction h with
  | enter => exact enter
  | @turn ts s s' t token r outcome _ hask ho ih =>
    obtain ⟨value, hvalue⟩ := hdone (weightOf ts) r
    have hanswer : (script.turn (weightOf ts) t r).answer = .done value := hvalue
    rw [hanswer] at ho
    obtain rfl := Option.some.inj ho
    exact turn _ _ _ _ _ _ _ ih hask

end Job

theorem Questions.job_lasts (requests : List Request) : (job requests).Lasts := by
  intro now token s
  unfold job
  cases hleft : s.left <;> simp [hleft]

theorem Preload.job_lasts (keys : KeySpace) (valueSize every : Nat) :
    (job keys valueSize every).Lasts := by
  intro now token p
  unfold job
  cases hfault : p.fault with
  | some => simp [hfault]
  | none =>
    cases hkey : keys.key? p.loaded with
    | none => simp [hfault, hkey]
    | some => cases token <;> simp [hfault, hkey]

theorem Traffic.job_lasts (keys : KeySpace) (request : String → Request) (window : Duration)
    (seed : Nat → Nat) : (job keys request window seed).Lasts := fun _ _ _ => ask_ne_die

namespace Scene.Welcomes

variable {σ : Type} {scene : Scene} {job : Job σ} {gate : Gate} {i start now : Nat} {token : Bool}
  {w₀ : World} {c : Caller σ} {tr : List Entry}

/-- No attempt fails. -/
theorem reasons_eq_nil (hw : scene.Welcomes) (h : c.OnTime scene start now token) :
    c.reasons = [] := by
  by_cases hnil : c.reasons = []
  · exact hnil
  · obtain ⟨reason, hreason⟩ := h.refused 0 (List.length_pos_iff.mpr hnil)
    simp [hw.accepts] at hreason

/-- A caller that ended served, or was called off before its first attempt, or stood at a gate that
is stuck. -/
theorem departs (hw : scene.Welcomes) (hj : job.Lasts) (ht : c.OnTime scene start now token)
    (ha : c.Agrees scene job w₀ gate i tr) {how : Departure σ} (hend : c.stage = .ended how) :
    (∃ s, how = .served s) ∨
      (how = .unserved (.error .cancelled) ∧ token = true ∧ c.number = none) ∨
      (how = .unserved (.ok ()) ∧ gate = .stuck) := by
  have hnil := hw.reasons_eq_nil ht
  have hs := ht.scheduled
  have hagrees := ha
  rw [Caller.Scheduled, hend] at hs
  rw [Caller.Agrees, hend] at hagrees
  cases how with
  | served s => exact .inl ⟨s, rfl⟩
  | unserved dialled =>
    cases dialled with
    | ok => exact .inr (.inr ⟨rfl, hagrees.2 rfl⟩)
    | error fault =>
      cases fault with
      | cancelled => exact .inr (.inl ⟨rfl, hs.1, hs.2 hnil⟩)
      | exhausted =>
        have hused : scene.policy.tries ≤ c.reasons.length := hs.1
        have := hw.tries
        rw [hnil, List.length_nil] at hused
        omega
  | died state =>
    refine absurd hend (Caller.not_died hj (fun n => by simp [hw.accepts]) ?_ ht ha state)
    intro _ _ _ _ n r _
    obtain ⟨value, hvalue⟩ := hw.answers c.who n r
    simp [hvalue]

end Scene.Welcomes

namespace Crew.Reaches

variable {σ : Type} {scene : Scene} {w₀ w : World} {crew₀ crew : Crew σ}

/-- An open gate stays as it is. -/
theorem gate_eq (h : Reaches scene w₀ crew₀ w crew) {opened : Nat}
    (ho : crew₀.gate = .openSince opened) : crew.gate = .openSince opened := by
  induction h with
  | start => exact ho
  | step _ s ih =>
    cases s with
    | wait | cancel | act => exact ih
    | pass shut => simp [ih] at shut

/-- The callers of a crew that is at its end. -/
theorem departs (hs : crew₀.Starts w₀) (h : Reaches scene w₀ crew₀ w crew) (hdone : crew.Done w)
    (hw : scene.Welcomes) (hj : crew₀.job.Lasts) {c : Caller σ} (hc : c ∈ crew.callers) :
    ∃ how, c.stage = .ended how ∧ ((∃ s, how = .served s) ∨
      (how = .unserved (.error .cancelled) ∧ w.token = true ∧ c.number = none) ∨
      (how = .unserved (.ok ()) ∧ crew.gate = .stuck)) := by
  obtain ⟨how, hend⟩ := hdone.ended hc
  obtain ⟨i, ha⟩ := (h.faithful hs).agrees_of_mem hc
  rw [h.job_eq.1] at ha
  exact ⟨how, hend, hw.departs hj (h.onTime hs c hc) ha hend⟩

end Crew.Reaches

/-! ## A caller by itself -/

/-- What a caller by itself stands for when it has ended. -/
def Departure.result {σ : Type} (target : Target) (tries : Nat) : Departure σ → Except Stop σ
  | .served state => .ok state
  | .unserved (.error fault) => .error (.fault (fault.toRunFault target tries))
  | .unserved (.ok ()) | .died _ => .error .died

theorem Departure.served_of_result {σ : Type} {target : Target} {tries : Nat} {s : σ}
    (how : Departure σ) (h : how.result target tries = .ok s) : how = .served s := by
  cases how with
  | served => exact congrArg _ (Except.ok.inj h)
  | died => cases h
  | unserved dialled => cases dialled <;> cases h

/-- What a caller by itself logs of its job when it has ended. -/
def Departure.said {σ : Type} (report : σ → List LogEvent) : Departure σ → List LogEvent
  | .served state | .died (some state) => report state
  | .unserved _ | .died none => []

/-- The state is one in which the job stops, after turns of one caller of the scene. -/
def Job.Stops {σ : Type} (job : Job σ) (scene : Scene) (token : Bool) (s : σ) : Prop :=
  ∃ (k i opened start t : Nat) (ts : List Turn) (s₀ : σ) (seen : Bool),
    job.Course (scene.script k) i opened start ts s₀ t ∧ job.ask t seen s₀ = .stop s ∧
      (seen = true → token = true)

namespace Harness

variable {σ : Type} {harness : Harness Option} {job : Job σ} {w : World}

/-- A caller by itself logs its failed attempts, and then its report. -/
theorem alone_eq (target : Target) (report : σ → List LogEvent) {v : World} {crew : Crew σ}
    {c : Caller σ} {how : Departure σ}
    (hrun : harness.perform w (.atOpenGate w job 1) = some (v, crew)) (hc : crew.callers = [c])
    (hend : c.stage = .ended how) :
    harness.alone target job report w
      = some ((v.sayAll (c.dialLog target harness.policy.tries)).sayAll (how.said report),
          how.result target harness.policy.tries) := by
  have halone : harness.alone target job report w = _ := Run.bind_of_ok (Run.crew_of_perform hrun)
  obtain ⟨number, reasons, sent, settledAt, stage⟩ := c
  obtain rfl : stage = .ended how := hend
  rw [hc] at halone
  match how with
  | .served _ | .died (some _) | .unserved (.error _) | .unserved (.ok ()) | .died none =>
    exact halone.trans rfl

/-- A caller by itself has ended when there is a result, and the result and the log say how. -/
theorem alone_ends_eq {scene : Scene} {target : Target} {report : σ → List LogEvent} {w' : World}
    {r : Except Stop σ} (hf : harness.Follows scene)
    (h : harness.alone target job report w = some (w', r)) :
    ∃ (v : World) (crew : Crew σ) (c : Caller σ) (how : Departure σ),
      Crew.Reaches scene w (.atOpenGate w job 1) v crew ∧ crew.Done v ∧ crew.callers = [c] ∧
      c.stage = .ended how ∧
      w' = (v.sayAll (c.dialLog target harness.policy.tries)).sayAll (how.said report) ∧
      r = how.result target harness.policy.tries := by
  obtain ⟨v, crew, hrun, -, -⟩ := of_alone h
  obtain ⟨hreach, hdone⟩ := hf (Crew.atOpenGate_starts w job 1) hrun
  obtain ⟨c, hcallers⟩ : ∃ c, crew.callers = [c] :=
    List.length_eq_one_iff.mp (hreach.job_eq.2.2.trans List.length_replicate)
  have hc : c ∈ crew.callers := hcallers ▸ List.mem_singleton_self c
  obtain ⟨how, hend⟩ := hdone.ended hc
  have halone := alone_eq target report hrun hcallers hend
  obtain ⟨rfl, rfl⟩ := Prod.mk.inj (Option.some.inj (halone.symm.trans h))
  exact ⟨v, crew, c, how, hreach, hdone, hcallers, hend, rfl, rfl⟩

theorem alone_ends {scene : Scene} {target : Target} {report : σ → List LogEvent} {w' : World}
    {r : Except Stop σ} (hf : harness.Follows scene)
    (h : harness.alone target job report w = some (w', r)) :
    ∃ (v : World) (crew : Crew σ) (c : Caller σ) (how : Departure σ),
      Crew.Reaches scene w (.atOpenGate w job 1) v crew ∧ crew.Done v ∧ crew.callers = [c] ∧
      c.stage = .ended how ∧ v.Quiet w' ∧ r = how.result target harness.policy.tries := by
  obtain ⟨v, crew, c, how, hreach, hdone, hcallers, hend, rfl, hr⟩ := alone_ends_eq hf h
  exact ⟨v, crew, c, how, hreach, hdone, hcallers, hend, .trans (.sayAll v _) (.sayAll _ _), hr⟩

end Harness

/-- The phase comes to a good result, or it was called off. -/
def Run.Yields {α : Type} (x : Run Option α) (w : World) (good : World → α → Prop)
    (off : World → Prop) : Prop :=
  ∀ (w' : World) (r : Except Stop α), x w = some (w', r) →
    (∃ a, r = .ok a ∧ good w' a) ∨ (r = .error (.fault .cancelled) ∧ w'.token = true ∧ off w')

/-- What follows a phase begins with its good result, or not at all. -/
theorem Run.Yields.of_bind {α β : Type} {x : Run Option α} {k : α → Run Option β} {w w' : World}
    {good : World → α → Prop} {off : World → Prop} {r : Except Stop β} (hx : Run.Yields x w good off)
    (h : (x >>= k) w = some (w', r)) :
    (∃ v a, good v a ∧ k a v = some (w', r)) ∨
      (r = .error (.fault .cancelled) ∧ w'.token = true ∧ off w') := by
  obtain ⟨v, a, hfirst, hnext⟩ | ⟨e, hfirst, rfl⟩ := Run.of_bind h
  · obtain ⟨_, ha, hgood⟩ | ⟨he, -⟩ := hx _ _ hfirst
    · obtain rfl := Except.ok.inj ha
      exact .inl ⟨v, a, hgood, hnext⟩
    · simp at he
  · obtain ⟨_, ha, -⟩ | ⟨he, hoff⟩ := hx _ _ hfirst
    · simp at ha
    · exact .inr ⟨congrArg _ (Except.error.inj he), hoff⟩

/-- **A caller that is welcome comes to its result**, unless it was called off and never met. -/
theorem Harness.alone_welcomed {σ : Type} {harness : Harness Option} {scene : Scene} {job : Job σ}
    (hf : harness.Follows scene) (hw : scene.Welcomes) (hj : job.Lasts) (target : Target)
    (report : σ → List LogEvent) (w : World) :
    Run.Yields (harness.alone target job report) w
      (fun w' s => job.Stops scene w'.token s ∧ w'.met = w.met + 1) (fun w' => w'.met = w.met) := by
  intro w' r h
  obtain ⟨v, crew, c, how, hreach, hdone, hcallers, hend, hquiet, rfl⟩ := alone_ends hf h
  have hs := Crew.atOpenGate_starts w job 1
  have hc : c ∈ crew.callers := hcallers ▸ List.mem_singleton_self c
  have hmet := hreach.met_eq hs
  rw [hcallers] at hmet
  obtain ⟨_, hend', hcases⟩ := hreach.departs hs hdone hw hj hc
  obtain rfl := Stage.ended.inj (hend.symm.trans hend')
  simp only [hquiet.met, hquiet.token]
  obtain ⟨s, rfl⟩ | ⟨rfl, htoken, hnone⟩ | ⟨rfl, hstuck⟩ := hcases
  · have hf := hreach.faithful hs
    obtain ⟨i, ha⟩ := hf.agrees_of_mem hc
    rw [Caller.Agrees, hend, hreach.job_eq.1] at ha
    obtain ⟨ts, s₀, t, seen, hshow, ⟨o, -, hcourse⟩, hseen, -, -, hask⟩ := ha
    refine .inl ⟨s, rfl, ⟨c.who, i, o, _, t, ts, s₀, _, hcourse, hask, ?_⟩, ?_⟩
    · rw [hf.traces.token]
      exact World.tokenAfter_mono hseen
    · obtain ⟨k, hk⟩ := hshow.numbered
      simpa [Crew.numbered, hk] using hmet
  · exact .inr ⟨rfl, htoken, by simpa [Crew.numbered, hnone] using hmet⟩
  · rw [hreach.gate_eq rfl] at hstuck
    simp at hstuck

/-! ## The phases before a sweep -/

/-- All questions were answered with success. -/
theorem Questions.answers_of_stops {scene : Scene} (hw : scene.Welcomes) {requests : List Request}
    {token : Bool} {s : Questions} (h : (job requests).Stops scene token s) :
    ∀ a ∈ s.answers, ∃ value, a = .ok value := by
  obtain ⟨k, i, opened, start, t, ts, s₀, seen, hcourse, hask, -⟩ := h
  have hall := hcourse.keeps_done (P := fun s => ∀ a ∈ s.answers, ∃ value, a = .ok value)
    (hw.answers k) (by simp [job]) ?_
  · rwa [of_stop hask]
  · intro s s' now token r later value hs hask a ha
    rcases List.mem_cons.mp ha with rfl | ha
    · exact ⟨value, rfl⟩
    · exact hs a ((of_send hask).2 ▸ ha)

/-- No key failed, and all are loaded unless the token was set. -/
theorem Preload.loaded_of_stops {scene : Scene} (hw : scene.Welcomes) {keys : KeySpace}
    {valueSize every : Nat} {token : Bool} {p : Preload}
    (h : (job keys valueSize every).Stops scene token p) :
    p.fault = none ∧ (p.loaded = keys.size ∨ token = true) := by
  obtain ⟨k, i, opened, start, t, ts, p₀, seen, hcourse, hask, hseen⟩ := h
  have hgood := hcourse.keeps_done (P := fun p => p.fault = none ∧ p.loaded ≤ keys.size)
    (hw.answers k) ⟨rfl, Nat.zero_le _⟩ ?_
  · obtain rfl := of_stop hask
    refine ⟨hgood.1, ?_⟩
    unfold job at hask
    cases hkey : keys.key? p.loaded with
    | none =>
      have hge : keys.size ≤ p.loaded := Array.getElem?_eq_none_iff.mp hkey
      exact .inl (Nat.le_antisymm hgood.2 hge)
    | some key =>
      cases seen with
      | true => exact .inr (hseen rfl)
      | false => simp [hgood.1, hkey] at hask
  · intro p p' now token r later value hp hask
    obtain ⟨hfault, rfl, key, hkey, -⟩ := of_send hask
    exact ⟨hfault, (Array.getElem?_eq_some_iff.mp hkey).1⟩

/-- How many callers a plan connects before it measures anything: the probe, and the preload. -/
def Plan.setups (plan : Plan) : Nat := if plan.skipPreload then 1 else 2

namespace Harness

variable {harness : Harness Option} {scene : Scene} {target : Target} {keys : KeySpace}
  {plan : Plan} {w w' : World}

theorem probe_welcomed (hf : harness.Follows scene) (hw : scene.Welcomes) (target : Target)
    (w : World) : Run.Yields (harness.probe target) w (fun w' _ => w'.met = w.met + 1)
      (fun w' => w'.met = w.met) := by
  intro w' r h
  obtain ⟨v, r₀, halone, hquiet, rfl⟩ := of_probe h
  obtain ⟨s, rfl, hstops, hmet⟩ | ⟨rfl, htoken, hmet⟩ :=
    alone_welcomed hf hw (Questions.job_lasts _) target _ w v r₀ halone
  · exact .inl ⟨(), Questions.verdict_ok (Questions.answers_of_stops hw hstops),
      hquiet.met.trans hmet⟩
  · exact .inr ⟨rfl, hquiet.token.trans htoken, hquiet.met.trans hmet⟩

/-- A preload is complete, or the token is set. -/
theorem preload_welcomed (hf : harness.Follows scene) (hw : scene.Welcomes) (target : Target)
    (keys : KeySpace) (valueSize every : Nat) (w : World) :
    Run.Yields (harness.preload target keys valueSize every) w
      (fun w' report => (report.complete = true ∨ w'.token = true) ∧ w'.met = w.met + 1)
      (fun w' => w'.met = w.met) := by
  intro w' r h
  obtain ⟨before, v, r₀, hsay, halone, hquiet, rfl⟩ := of_preload h
  rw [← hsay.met]
  obtain ⟨p, rfl, hstops, hmet⟩ | ⟨rfl, htoken, hmet⟩ :=
    alone_welcomed hf hw (Preload.job_lasts keys valueSize every) target _ before v r₀ halone
  · obtain ⟨hfault, hloaded⟩ := Preload.loaded_of_stops hw hstops
    refine .inl ⟨_, Preload.verdict_of_sound hfault, ?_, hquiet.met.trans hmet⟩
    obtain hall | hset := hloaded
    · exact .inl (by simpa using hall)
    · exact .inr (hquiet.token.trans hset)
  · exact .inr ⟨rfl, hquiet.token.trans htoken, hquiet.met.trans hmet⟩

/-- The load lets the run go on unless the token is set. -/
theorem load_welcomed (hf : harness.Follows scene) (hw : scene.Welcomes)
    (hsizes : plan.matrix.valueSizes ≠ []) (keys : KeySpace) (w : World) :
    Run.Yields (harness.load plan keys) w
      (fun w' on => (on = true ∨ w'.token = true) ∧ w'.met + 1 = w.met + plan.setups)
      (fun w' => w'.met + 1 < w.met + plan.setups) := by
  intro w' r h
  unfold load at h
  unfold Plan.setups
  cases hskip : plan.skipPreload with
  | true =>
    rw [hskip] at h
    obtain ⟨v, hquiet, h⟩ := Run.of_say h
    obtain ⟨rfl, rfl⟩ := Run.of_pure h
    exact .inl ⟨true, rfl, .inl rfl, by rw [hquiet.met]; rfl⟩
  | false =>
    rw [hskip] at h
    cases hmax : plan.matrix.maxValueSize with
    | none => exact absurd (List.max?_eq_none_iff.mp hmax) hsizes
    | some valueSize =>
      rw [hmax] at h
      obtain ⟨v, report, ⟨hcomplete, hmet⟩, h⟩ | ⟨hr, htoken, hmet⟩ :=
        (preload_welcomed hf hw plan.target keys valueSize plan.reportInterval w).of_bind h
      · obtain ⟨rfl, rfl⟩ := Run.of_pure h
        exact .inl ⟨_, rfl, hcomplete, congrArg (· + 1) hmet⟩
      · exact .inr ⟨hr, htoken, Nat.lt_of_le_of_lt (Nat.le_of_eq (congrArg (· + 1) hmet))
          (Nat.lt_succ_self _)⟩

/-- A warm-up gives a number, unless the clock cannot show its end. -/
theorem warmup_cases {duration : Duration} {r : Except Stop Nat}
    (h : harness.warmup target keys duration w = some (w', r)) :
    (∃ ops, r = .ok ops) ∨ (r = .error .died ∧ w'.canShow duration = false) := by
  obtain ⟨hlate, rfl, hquiet⟩ | ⟨-, -, -, -, -, -, -, rfl⟩ := of_warmup h
  · exact .inr ⟨rfl, (hquiet.canShow _).trans hlate⟩
  · exact .inl ⟨_, rfl⟩

/-- From phase to phase the server meets more callers. -/
theorem Passes.met_le (hk : harness.Keeps scene) (hp : harness.Passes w w') : w.met ≤ w'.met := by
  induction hp with
  | quiet hq => exact Nat.le_of_eq hq.met.symm
  | crew hs hj hrun => exact ((hk hs hrun).grounded hs).met
  | trans _ _ ih ih' => exact Nat.le_trans ih ih'

theorem build_ok (hvalid : plan.validate = .ok ()) (hmode : plan.keyMode ≠ .decimal 0) :
    ∃ keys, KeySpace.build plan.keyCount plan.keyMode = .ok keys := by
  have hcount := Nat.ne_of_gt (Plan.of_validate hvalid).1
  unfold KeySpace.build
  rw [dif_neg hcount, if_neg hmode]
  exact ⟨_, rfl⟩

/-- The warm-up of a plan, if it wants one, lets the run go on. -/
theorem warm_up_welcomed (hf : harness.Follows scene) (keys : KeySpace) {n : Nat}
    (hle : n ≤ w.met) {r : Except Stop (Option KeySpace)}
    (h : (do
      if !plan.warmup.isZero then
        let _ ← harness.warmup plan.target keys plan.warmup
      return some keys : Run Option (Option KeySpace)) w = some (w', r)) :
    n ≤ w'.met ∧ ((r = .error .died ∧ w'.canShow plan.warmup = false) ∨
      (r = .ok none ∧ w'.token = true) ∨ ∃ keys, r = .ok (some keys)) := by
  cases hwarm : plan.warmup.isZero with
  | true =>
    rw [hwarm] at h
    obtain ⟨rfl, rfl⟩ := Run.of_pure h
    exact ⟨hle, .inr (.inr ⟨keys, rfl⟩)⟩
  | false =>
    rw [hwarm] at h
    have hmet : ∀ {v : World} {r : Except Stop Nat},
        harness.warmup plan.target keys plan.warmup w = some (v, r) → n ≤ v.met := fun hrun =>
      Nat.le_trans hle ((Run.Passes.warmup _ _ _ _ _ _ hrun).met_le hf.keeps)
    obtain ⟨v, ops, hwarmup, h⟩ | ⟨e, hwarmup, rfl⟩ := Run.of_bind h
    · obtain ⟨rfl, rfl⟩ := Run.of_pure h
      exact ⟨hmet hwarmup, .inr (.inr ⟨keys, rfl⟩)⟩
    · obtain ⟨ops, hops⟩ | ⟨he, hshow⟩ := warmup_cases hwarmup
      · simp at hops
      · exact ⟨hmet hwarmup, .inl ⟨congrArg _ (Except.error.inj he), hshow⟩⟩

/-- **What comes before the sweep fails only when it was called off before it had connected its
callers**, or when the clock cannot show the end of the warm-up. -/
theorem prepare_welcomed (hf : harness.Follows scene) (hw : scene.Welcomes)
    (hvalid : plan.validate = .ok ()) (hmode : plan.keyMode ≠ .decimal 0)
    {r : Except Stop (Option KeySpace)} (h : harness.prepare plan w = some (w', r)) :
    (r = .error (.fault .cancelled) ∧ w'.token = true ∧ w'.met < w.met + plan.setups) ∨
    (w.met + plan.setups ≤ w'.met ∧
      ((r = .error .died ∧ w'.canShow plan.warmup = false) ∨ (r = .ok none ∧ w'.token = true) ∨
        ∃ keys, r = .ok (some keys))) := by
  unfold prepare at h
  obtain ⟨keys, hkeys⟩ := build_ok hvalid hmode
  rw [hvalid, hkeys] at h
  obtain ⟨w₁, hsay, h⟩ := Run.of_say h
  rw [← hsay.met]
  obtain ⟨w₂, _, hmet, h⟩ | ⟨hr, htoken, hmet⟩ := (probe_welcomed hf hw plan.target w₁).of_bind h
  · obtain ⟨w₃, on, ⟨hon, hmet'⟩, h⟩ | ⟨hr, htoken, hmet'⟩ :=
      (load_welcomed hf hw (Plan.valueSizes_ne_nil hvalid) keys w₂).of_bind h
    · have hle : w₁.met + plan.setups ≤ w₃.met := by omega
      cases on with
      | false =>
        obtain ⟨rfl, rfl⟩ := Run.of_pure h
        exact .inr ⟨hle, .inr (.inl ⟨rfl, hon.resolve_left (by simp)⟩)⟩
      | true =>
        replace h := Run.of_look h
        cases hset : w₃.token with
        | true =>
          rw [hset] at h
          obtain ⟨rfl, rfl⟩ := Run.of_pure h
          exact .inr ⟨hle, .inr (.inl ⟨rfl, hset⟩)⟩
        | false =>
          rw [hset] at h
          exact .inr (warm_up_welcomed hf keys hle h)
    · exact .inl ⟨hr, htoken, by omega⟩
  · have hpos : 0 < plan.setups := by
      unfold Plan.setups
      split <;> decide
    exact .inl ⟨hr, htoken, by omega⟩

end Harness

end LoadSweep
