import LoadSweep.Proofs.Crew.Order
import LoadSweep.Proofs.Phase
import LoadSweep.Proofs.Shift

/-!
# `LoadSweep/Proofs/Alone.lean` — a worker by itself

What a script, a seed and an opening make of a worker is `Job.Brings`, and it leaves no choice
(`Job.Brings.unique`). Every order of the acts ends in it (`Crew.Reaches.brings`), among siblings as
well as without them, so a worker brings back what it would bring back alone (`Cell.AsAlone`).

That the worker comes to an end when it is alone needs an argument of its own, since a server may
answer in no time: the turns that it has had among the others are as many as it can have
(`Cell.only_ends`).
-/

set_option autoImplicit false

namespace LoadSweep

/-- The cell with its worker `i` and no other. -/
def Cell.only (cell : Cell) (i : Nat) : Cell :=
  { cell with concurrency := 1, seed := cell.workerSeed i }

theorem Cell.workerSeed_only (cell : Cell) (i : Nat) :
    (cell.only i).workerSeed 0 = cell.workerSeed i := by
  show (cell.workerSeed i + 0 * seedStride) % seedSpan = cell.workerSeed i
  rw [Nat.zero_mul, Nat.add_zero]
  exact Nat.mod_mod _ _

/-! ## What a script makes of a worker -/

/-- What the worker at place `i` brings back when it follows a script and the window has been open
since `opened`, and the turns that it has had. -/
inductive Job.Brings (job : Job Traffic) (policy : Policy) (script : Script) (i opened : Nat) :
    WorkerResult → List Turn → Prop
  | served (hc : script.Connects policy) {ts : List Turn} {s : Traffic} {t : Nat}
    (course : job.Course script i opened opened ts s t) (ends : Traffic.Ends t false s) :
    Brings job policy script i opened s.result ts
  | unserved (hc : ¬ script.Connects policy) : Brings job policy script i opened .none []

/-- **Script and seed say what a worker brings back**, whatever the opening. -/
theorem Job.Brings.unique {keys : KeySpace} {request : String → Request} {window : Duration}
    {seed seed' : Nat → Nat} {policy : Policy} {script : Script} {i i' opened opened' : Nat}
    {r r' : WorkerResult} {ts ts' : List Turn}
    (h : (Traffic.job keys request window seed).Brings policy script i opened r ts)
    (h' : (Traffic.job keys request window seed').Brings policy script i' opened' r' ts')
    (hseed : seed' i' = seed i) :
    r = r' ∧ ts.map (Turn.since opened) = ts'.map (Turn.since opened') := by
  cases h with
  | served hc course ends =>
    cases h' with
    | served _ course' ends' => exact Traffic.finished_unique course ends course' ends' hseed
    | unserved hc' => exact absurd hc hc'
  | unserved hc =>
    cases h' with
    | served hc' => exact absurd hc' hc
    | unserved => exact ⟨rfl, rfl⟩

namespace Caller

variable {scene : Scene} {start now : Nat} {token : Bool} {c : Caller Traffic}

/-- When a caller settled that has ended while the token was unset. -/
theorem OnTime.settledAt_of_ended (h : c.OnTime scene start now false) {how : Departure Traffic}
    (hend : c.stage = .ended how) (hpos : 0 < scene.policy.tries) :
    c.settledAt = some (start + (scene.script c.who).dialTime scene.policy) := by
  have hs := h.scheduled
  rw [Scheduled, hend] at hs
  cases how with
  | served => exact (h.dialled hs (by simp)).2
  | unserved dialled =>
    cases dialled with
    | ok => exact (h.dialled hs (by simp)).2
    | error fault =>
      cases fault with
      | cancelled => simp [SettledAs] at hs
      | exhausted => exact (h.exhausted hs hpos).2
  | died state =>
    cases state with
    | none => exact (h.dialled hs (by simp)).2
    | some => exact (h.dialled hs (by simp)).2

end Caller

namespace Crew

variable {scene : Scene} {cell : Cell} {w₀ w : World} {crew : Crew Traffic}

/-- **A worker that has a result brings back what its script makes of it**, in whatever order the
workers have acted. -/
theorem Reaches.brings (h : Reaches scene w₀ cell.crew w crew) (hdone : crew.Done w)
    (hclear : w.token = false) (hpos : 0 < scene.policy.tries) {opened : Nat}
    (ho : crew.gate = .openSince opened) {i : Nat} {c : Caller Traffic}
    (hc : crew.callers[i]? = some c) {r : WorkerResult} (hr : c.result? = some r) :
    ∃ k, c.number = some k ∧
      cell.job.Brings scene.policy (scene.script k) i opened r (turns k (w.since w₀)) ∧
      (Dealings.ofHistory (w.since w₀) k).requests
        = (requestsOf (turns k (w.since w₀)) none).filter (· ≠ .ping) := by
  have hstart := cell.crew_starts w₀
  have hmem := List.mem_of_getElem? hc
  have hf := h.faithful hstart
  have ht := h.onTime hstart c hmem
  rw [hclear] at ht
  obtain ⟨how, hend⟩ := hdone.ended hmem
  have hs := ht.scheduled
  have ha := hf.agrees i c hc
  rw [Caller.Scheduled, hend] at hs
  rw [Caller.Agrees, hend, show crew.job = cell.job from h.job_eq.1] at ha
  rw [Caller.result?, hend] at hr
  cases how with
  | served s =>
    obtain rfl := Option.some.inj hr
    obtain ⟨ts, s₀, t, seen, hshow, ⟨o, hgate, hcourse⟩, hseen, -, -, hask⟩ := ha
    obtain ⟨rfl, hends⟩ := Traffic.ends_of_stop hask
    obtain rfl := Gate.openSince.inj (ho.symm.trans hgate)
    rw [(h.opening ho).max_eq hmem] at hcourse
    have hunset : w₀.tokenAfter seen = false := by
      cases hset : w₀.tokenAfter seen with
      | false => rfl
      | true =>
        have hlater := World.tokenAfter_mono hseen hset
        rw [← hf.traces.token, hclear] at hlater
        exact hlater.symm
    rw [hunset] at hends
    obtain ⟨k, hk⟩ := hshow.numbered
    have hwho := Caller.who_eq hk
    have hconnects := ht.connects hs
    have hturns := hshow.turns_eq
    have hrequests : (Dealings.ofHistory (w.since w₀) c.who).requests = _ :=
      congrArg (fun sh => sh.dealings.requests) hshow.share
    rw [hwho] at hcourse hconnects hturns hrequests
    refine ⟨k, hk, ?_, ?_⟩
    · rw [hturns]
      exact .served hconnects hcourse hends
    · rw [hturns]
      exact hrequests
  | unserved dialled =>
    cases dialled with
    | ok => simp [ho] at ha
    | error fault =>
      cases fault with
      | cancelled => simp [Caller.SettledAs] at hs
      | exhausted reason =>
        obtain rfl := Option.some.inj hr
        obtain ⟨hdials, -⟩ := ha
        have hused : scene.policy.tries ≤ c.reasons.length := hs.1
        obtain ⟨k, hk⟩ := hdials.numbered (by simp only [Caller.attempts]; omega)
        have hfails := (ht.exhausted hs hpos).1
        rw [Caller.who_eq hk] at hfails
        have hshare := hdials.share k hk
        have hturns : turns k (w.since w₀) = [] := congrArg Share.turns hshare
        refine ⟨k, hk, ?_, ?_⟩
        · rw [hturns]
          exact .unserved hfails
        · rw [hturns]
          exact congrArg (fun sh => sh.dealings.requests) hshare
  | died => simp at hr

/-- No worker of a mild scene dies. -/
theorem Reaches.result?_isSome (h : Reaches scene w₀ cell.crew w crew) (hdone : crew.Done w)
    {c : Caller Traffic} (hc : c ∈ crew.callers) (hmild : (scene.script c.who).Mild) :
    ∃ r, c.result? = some r := by
  have hstart := cell.crew_starts w₀
  obtain ⟨how, hend⟩ := hdone.ended hc
  obtain ⟨i, ha⟩ := (h.faithful hstart).agrees_of_mem hc
  rw [show crew.job = cell.job from h.job_eq.1] at ha
  rw [Caller.result?, hend]
  cases how with
  | served => exact ⟨_, rfl⟩
  | unserved => exact ⟨_, rfl⟩
  | died state =>
    refine absurd hend (Caller.not_died (fun _ _ _ => Traffic.ask_ne_die)
      (fun n => Script.dial_ne_dies (hmild.attempt n).2 _) ?_ (h.onTime hstart c hc) ha state)
    intro now token s s' n r hask
    obtain ⟨-, ⟨key, -, rfl⟩, -⟩ := Traffic.not_ends_of_send hask
    exact (hmild.replyTo n (cell.request_ne_ping key)).2

end Crew

/-! ## The run of the machine -/

/-- The largest of the first `n` values, or zero. -/
def largest (f : Nat → Nat) : (n : Nat) → Nat
  | 0 => 0
  | n + 1 => max (largest f n) (f n)

theorem le_largest (f : Nat → Nat) {i n : Nat} (h : i < n) : f i ≤ largest f n := by
  induction n with
  | zero => exact absurd h (Nat.not_lt_zero i)
  | succ n ih =>
    obtain hlt | rfl := Nat.lt_succ_iff_lt_or_eq.mp h
    · exact Nat.le_trans (ih hlt) (Nat.le_max_left _ _)
    · exact Nat.le_max_right _ _

theorem largest_le {f : Nat → Nat} {n bound : Nat} (h : ∀ i < n, f i ≤ bound) :
    largest f n ≤ bound := by
  induction n with
  | zero => exact Nat.zero_le bound
  | succ n ih =>
    refine Nat.max_le.mpr ⟨ih ?_, h n (Nat.lt_succ_self n)⟩
    intro i hi
    exact h i (Nat.lt_succ_of_lt hi)

/-- The window opens when the worker that dials longest has settled, whatever the numbers are under
which the server knows the workers. -/
theorem Cell.opened_of_numbers {cell : Cell} {scene : Scene} {w w₁ : World} {crew : Crew Traffic}
    (hr : Crew.Reaches scene w cell.crew w₁ crew) (hdone : crew.Done w₁) (hclear : w₁.token = false)
    (hpos : 0 < scene.policy.tries) {number : Nat → Nat}
    (hnum : ∀ (i : Nat) (c : Caller Traffic), crew.callers[i]? = some c →
      c.number = some (number i)) {opened : Nat} (ho : crew.Opening w opened) :
    opened = w.now + largest (fun i => (scene.script (number i)).dialTime scene.policy)
      cell.concurrency := by
  have hsize : crew.callers.length = cell.concurrency :=
    hr.job_eq.2.2.trans List.length_replicate
  have hsettled : ∀ (i : Nat) (c : Caller Traffic), crew.callers[i]? = some c →
      c.settledAt = some (w.now + (scene.script (number i)).dialTime scene.policy) := by
    intro i c hc
    have hmem := List.mem_of_getElem? hc
    obtain ⟨how, hend⟩ := hdone.ended hmem
    have ht := hr.onTime (cell.crew_starts w) c hmem
    rw [hclear] at ht
    rw [← Caller.who_eq (hnum i c hc)]
    exact ht.settledAt_of_ended hend hpos
  refine Nat.le_antisymm ?_ ?_
  · obtain ⟨c, hc, hlast⟩ | ⟨-, rfl⟩ := ho.last
    · obtain ⟨i, hi⟩ := List.mem_iff_getElem?.mp hc
      obtain rfl := Option.some.inj (hlast.symm.trans (hsettled i c hi))
      have hlt := (List.getElem?_eq_some_iff.mp hi).1
      rw [hsize] at hlt
      exact Nat.add_le_add_left
        (le_largest (fun i => (scene.script (number i)).dialTime scene.policy) hlt) _
    · exact Nat.le_add_right _ _
  · have hstart : w.now ≤ opened := by
      obtain ⟨c, hc, hlast⟩ | ⟨-, rfl⟩ := ho.last
      · obtain ⟨i, hi⟩ := List.mem_iff_getElem?.mp hc
        obtain rfl := Option.some.inj (hlast.symm.trans (hsettled i c hi))
        exact Nat.le_add_right _ _
      · exact Nat.le_refl _
    have hlast : largest (fun i => (scene.script (number i)).dialTime scene.policy)
        cell.concurrency ≤ opened - w.now := by
      refine largest_le ?_
      intro i hi
      have hlt : i < crew.callers.length := hsize ▸ hi
      obtain ⟨t, ht, hle⟩ := ho.everyone _ (List.getElem_mem hlt)
      obtain rfl := Option.some.inj (ht.symm.trans (hsettled i _ (List.getElem?_eq_getElem hlt)))
      omega
    omega

/-- The instant at which the window of a cell opens: when the worker that dials longest has
settled. -/
def Cell.opening (cell : Cell) (scene : Scene) (w : World) : Nat :=
  w.now + largest (fun i => (scene.script (w.met + i)).dialTime scene.policy) cell.concurrency

/-- The clock can show the end of the window. -/
def Cell.Shown (cell : Cell) (scene : Scene) (w : World) : Prop :=
  (cell.opening scene w + cell.duration.nanos) / Duration.nanosPerSec < World.clockSpan

instance (cell : Cell) (scene : Scene) (w : World) : Decidable (cell.Shown scene w) :=
  inferInstanceAs (Decidable (_ < _))

/-- What the workers of a cell need to be left to themselves, as long as the token is unset. -/
structure Cell.Undisturbed (cell : Cell) (scene : Scene) (w : World) : Prop where
  tries : 0 < scene.policy.tries
  mild : ∀ i < cell.concurrency, (scene.script (w.met + i)).Mild

namespace Cell.Undisturbed

variable {cell : Cell} {scene : Scene} {w w₁ : World} {crew : Crew Traffic}

theorem calm (h : cell.Undisturbed scene w) : cell.crew.Calm scene w where
  starts := cell.crew_starts w
  tries := h.tries
  mild := by
    intro i hi
    exact h.mild i (by simpa [Cell.crew, Crew.atShutGate] using hi)
  pingless := by
    intro now token s s' r hask
    obtain ⟨-, ⟨key, -, rfl⟩, -⟩ := Traffic.not_ends_of_send hask
    exact cell.request_ne_ping key

/-- Workers that are met in the order of their positions open the window when it is foreseen. -/
theorem opened_eq (h : cell.Undisturbed scene w) (hr : Crew.Reaches scene w cell.crew w₁ crew)
    (hdone : crew.Done w₁) (hclear : w₁.token = false)
    (hnum : ∀ (i : Nat) (c : Caller Traffic), crew.callers[i]? = some c →
      c.number = some (w.met + i)) {opened : Nat} (ho : crew.Opening w opened) :
    opened = cell.opening scene w :=
  Cell.opened_of_numbers hr hdone hclear h.tries hnum ho

/-- **The machine meets the workers in the order of their positions, and each of them comes to a
result.** The window opens as foreseen, unless the clock cannot show its end. -/
theorem run_cases (h : cell.Undisturbed scene w) {limit : Nat}
    (hrun : cell.crew.run scene limit w = some (w₁, crew)) (hclear : w₁.token = false) :
    (∀ (i : Nat) (c : Caller Traffic), crew.callers[i]? = some c →
        c.number = some (w.met + i) ∧ ∃ r, c.result? = some r) ∧
      crew.gate = if cell.Shown scene w then .openSince (cell.opening scene w) else .stuck := by
  obtain ⟨hr, hdone⟩ := Crew.run_reaches (cell.crew_starts w) .start hrun
  have hnum := Crew.run_numbers h.calm hrun hclear
  have hwindow : crew.window = cell.duration := hr.job_eq.2.1
  refine ⟨?_, ?_⟩
  · intro i c hc
    refine ⟨hnum i c hc, hr.result?_isSome hdone (List.mem_of_getElem? hc) ?_⟩
    rw [Caller.who_eq (hnum i c hc)]
    refine h.mild i ?_
    have hlt := (List.getElem?_eq_some_iff.mp hc).1
    rwa [hr.job_eq.2.2.trans List.length_replicate] at hlt
  · have hgated : crew.Gated w w₁ := Crew.Reaches.gated hr
    rw [Crew.Gated] at hgated
    cases hgate : crew.gate with
    | shut => exact absurd hgate hdone.2
    | openSince o =>
      rw [hgate] at hgated
      obtain ⟨ho, hspan⟩ := hgated
      obtain rfl := h.opened_eq hr hdone hclear hnum ho
      rw [hwindow] at hspan
      exact (if_pos (c := cell.Shown scene w) hspan).symm
    | stuck =>
      rw [hgate] at hgated
      obtain ⟨o, ho, hspan⟩ := hgated
      obtain rfl := h.opened_eq hr hdone hclear hnum ho
      rw [hwindow] at hspan
      exact (if_neg (c := cell.Shown scene w) (Nat.not_lt.mpr hspan)).symm

end Cell.Undisturbed

/-! ## A worker by itself -/

theorem requestsOf_since (opened : Nat) (ts : List Turn) :
    requestsOf (ts.map (Turn.since opened)) none = requestsOf ts none := by
  simp [requestsOf, Turn.since, Function.comp_def]

/-- Two workers have been dealt with alike, each in its own history: they made the same requests, and
had the same turns when both are counted from the opening of the window. -/
structure DealtAlike (tr' : List Entry) (k' opened' : Nat) (tr : List Entry) (k opened : Nat) :
    Prop where
  requests : (Dealings.ofHistory tr' k').requests = (Dealings.ofHistory tr k).requests
  turns : (turns k' tr').map (Turn.since opened') = (turns k tr).map (Turn.since opened)

namespace DealtAlike

variable {tr tr' tr'' : List Entry} {k k' k'' opened opened' opened'' : Nat}

theorem symm (h : DealtAlike tr' k' opened' tr k opened) : DealtAlike tr k opened tr' k' opened' :=
  ⟨h.requests.symm, h.turns.symm⟩

theorem trans (h : DealtAlike tr k opened tr' k' opened')
    (h' : DealtAlike tr' k' opened' tr'' k'' opened'') :
    DealtAlike tr k opened tr'' k'' opened'' :=
  ⟨h.requests.trans h'.requests, h.turns.trans h'.turns⟩

end DealtAlike

/-- The next worker that the server meets is treated as number `k` was, and begins no later. -/
structure Scene.Repeats (solo : Scene) (v : World) (scene : Scene) (w : World) (k : Nat) : Prop where
  policy : solo.policy = scene.policy
  script : solo.script v.met = scene.script k
  early : v.now ≤ w.now

namespace Cell

variable {cell : Cell} {scene solo : Scene} {w w₁ v : World} {crew : Crew Traffic} {i k : Nat}

/-- The caller of a crew of one is the next that the server meets. -/
theorem who_only {u : World} (h : Crew.Reaches solo v (cell.only i).crew u crew) {j : Nat}
    {c : Caller Traffic} (hc : crew.callers[j]? = some c) (hk : c.number = some k) :
    j = 0 ∧ k = v.met := by
  have hstart := (cell.only i).crew_starts v
  have hsize : crew.callers.length = 1 := h.job_eq.2.2.trans List.length_replicate
  have hlt := (List.getElem?_eq_some_iff.mp hc).1
  have hcount : Crew.numbered crew.callers ≤ crew.callers.length := List.countP_le_length
  have hmet := h.met_eq hstart
  obtain ⟨hlow, hhigh⟩ := (h.grounded hstart).numbers j c k hc hk
  omega

/-- **A worker that came to its end among others comes to it by itself**, however little time the
server takes: it has no more turns than it had there. -/
theorem only_ends {opened : Nat} {r : WorkerResult} {ts : List Turn}
    (hb : cell.job.Brings scene.policy (scene.script k) i opened r ts)
    (hpolicy : solo.policy = scene.policy) (hscript : solo.script v.met = scene.script k) :
    ∃ (v₁ : World) (crew : Crew Traffic),
      Crew.Leads solo v (cell.only i).crew v₁ crew ∧ crew.Done v₁ := by
  have hstart := (cell.only i).crew_starts v
  refine Crew.Reaches.ends_of_left hstart .start (ts.length + 1) (fun c => ts.length - c.sent) ?_
  intro u crew hr
  refine { enter := ?_, turn := ?_ }
  · intros
    exact Nat.lt_succ_of_le (Nat.sub_le _ _)
  · intro j c s s' sent reply outcome token q hc hstage ho hask
    have hmem := List.mem_of_getElem? hc
    have ht := hr.onTime hstart c hmem
    have hs := ht.scheduled
    rw [Caller.Scheduled, hstage] at hs
    obtain ⟨l, hl⟩ : ∃ l, c.number = some l := by
      have hen := (hr.grounded hstart).enrolled c hmem
      rwa [Caller.Enrolled, hstage] at hen
    obtain ⟨rfl, rfl⟩ := who_only hr hc hl
    have hconnects := ht.connects hs
    rw [Caller.who_eq hl, hscript, hpolicy] at hconnects
    have hdue : c.due u crew.gate = some u.now := by rw [Caller.due, hstage]
    obtain ⟨ts', hshow, o, hgate, hcourse⟩ :=
      ((hr.faithful hstart).agrees 0 c hc).heard (w := u) hstage hdue ho
    rw [hr.job_eq.1] at hcourse hask
    rw [(hr.opening hgate).max_eq hmem, Caller.who_eq hl, hscript] at hcourse
    cases hb with
    | unserved hc => exact absurd hconnects hc
    | served _ course ends =>
      have hless := Traffic.length_lt_of_send course ends hcourse (cell.workerSeed_only i) hask
      have hrequests := Traffic.course_requests hcourse
      have hsent : c.sent = ts'.length := by
        rw [← weightOf_eq_length]
        · simpa using hshow.sent
        · intro x hx
          obtain ⟨key, -, hkey⟩ := hrequests x hx
          rw [hkey]
          exact (cell.only i).request_ne_ping key
      obtain ⟨-, ⟨key, -, rfl⟩, -⟩ := Traffic.not_ends_of_send hask
      have hweight := Request.weight_of_ne_ping ((cell.only i).request_ne_ping key)
      show ts.length - (c.sent + ((cell.only i).request key).weight) < ts.length - c.sent
      omega

/-- The worker `i`, which the server met as number `k`, brought back what it brings back when it is
alone, against any server that treats it in the same way. Without an alarm it does come to its end
there. -/
def AsAlone (cell : Cell) (scene : Scene) (w w₁ : World) (opened i k : Nat) (r : WorkerResult) :
    Prop :=
  ∀ (solo : Scene) (v : World), solo.Repeats v scene w k →
    (∀ (limit : Nat) (v₁ : World) (r' : Except Stop (List WorkerResult)),
      (solo.harness limit).workers (cell.only i) v = some (v₁, r') → v₁.token = false →
      r' = .ok [r] ∧ DealtAlike (v₁.since v) v.met ((cell.only i).opening solo v)
        (w₁.since w) k opened) ∧
    (v.token = false → v.alarm = none → ∃ (limit : Nat) (v₁ : World), v₁.token = false ∧
      ∀ more, limit ≤ more → (solo.harness more).workers (cell.only i) v = some (v₁, .ok [r]))

theorem AsAlone.quiet {opened : Nat} {r : WorkerResult} {w₂ : World}
    (h : cell.AsAlone scene w w₁ opened i k r) (hq : w₁.Quiet w₂) :
    cell.AsAlone scene w w₂ opened i k r := by
  unfold AsAlone
  rw [hq.since]
  exact h

theorem opening_only (solo : Scene) (v : World) :
    (cell.only i).opening solo v = v.now + (solo.script v.met).dialTime solo.policy := by
  simp [opening, only, largest]

end Cell

namespace Crew.Reaches

variable {cell : Cell} {scene solo : Scene} {w w₁ v : World} {crew : Crew Traffic} {i k : Nat}
  {c : Caller Traffic} {opened : Nat}

/-- The clock can show the end of a window that the worker opens alone, which is no later than the
one that opened when all had settled. -/
theorem shown_only (h : Reaches scene w cell.crew w₁ crew) (hdone : crew.Done w₁)
    (hclear : w₁.token = false) (hpos : 0 < scene.policy.tries) (ho : crew.gate = .openSince opened)
    (hc : crew.callers[i]? = some c) (hk : c.number = some k) (hrep : solo.Repeats v scene w k) :
    (cell.only i).Shown solo v := by
  have hmem := List.mem_of_getElem? hc
  have ht := h.onTime (cell.crew_starts w) c hmem
  rw [hclear] at ht
  obtain ⟨how, hend⟩ := hdone.ended hmem
  obtain ⟨t, hsettled, hopen⟩ := (h.opening ho).everyone c hmem
  rw [ht.settledAt_of_ended hend hpos, Caller.who_eq hk] at hsettled
  obtain rfl := Option.some.inj hsettled
  have hgated := h.gated
  rw [Crew.Gated, ho, show crew.window = cell.duration from h.job_eq.2.1] at hgated
  refine Nat.lt_of_le_of_lt (Nat.div_le_div_right ?_) hgated.2
  rw [Cell.opening_only, hrep.script, hrep.policy]
  exact Nat.add_le_add_right (Nat.le_trans (Nat.add_le_add_right hrep.early _) hopen) _

theorem undisturbed_only (hpos : 0 < scene.policy.tries) (hmild : (scene.script k).Mild)
    (hrep : solo.Repeats v scene w k) : (cell.only i).Undisturbed solo v where
  tries := hrep.policy ▸ hpos
  mild := by
    intro j hj
    obtain rfl : j = 0 := Nat.lt_one_iff.mp hj
    rw [Nat.add_zero, hrep.script]
    exact hmild

/-- **What a worker brings back among others it brings back alone.** -/
theorem same_only (h : Reaches scene w cell.crew w₁ crew) (hdone : crew.Done w₁)
    (hclear : w₁.token = false) (hpos : 0 < scene.policy.tries) (ho : crew.gate = .openSince opened)
    (hc : crew.callers[i]? = some c) {r : WorkerResult} (hr : c.result? = some r)
    (hk : c.number = some k) (hmild : (scene.script k).Mild) (hrep : solo.Repeats v scene w k)
    {limit : Nat} {v₁ : World} {r' : Except Stop (List WorkerResult)}
    (hres : (solo.harness limit).workers (cell.only i) v = some (v₁, r'))
    (hunset : v₁.token = false) :
    r' = .ok [r] ∧ DealtAlike (v₁.since v) v.met ((cell.only i).opening solo v)
      (w₁.since w) k opened := by
  obtain ⟨l, hl, hbrings, hrequests⟩ := h.brings hdone hclear hpos ho hc hr
  obtain rfl := Option.some.inj (hk.symm.trans hl)
  have halone : (cell.only i).Undisturbed solo v := undisturbed_only hpos hmild hrep
  -- the run alone
  obtain ⟨u, one, hrun, hquiet, rfl⟩ := Harness.of_workers hres
  have huclear : u.token = false := hquiet.token.symm.trans hunset
  obtain ⟨hall, hgate⟩ := halone.run_cases hrun huclear
  rw [if_pos (h.shown_only hdone hclear hpos ho hc hk hrep)] at hgate
  obtain ⟨hr₁, hover⟩ := Crew.run_reaches ((cell.only i).crew_starts v) .start hrun
  obtain ⟨d, hd⟩ := List.length_eq_one_iff.mp (hr₁.job_eq.2.2.trans List.length_replicate)
  have hd₀ : one.callers[0]? = some d := by rw [hd]; rfl
  obtain ⟨hnum, r₁, hres₁⟩ := hall 0 d hd₀
  obtain ⟨l, hl, hbrings₁, hrequests₁⟩ := hr₁.brings hover huclear halone.tries hgate hd₀ hres₁
  obtain rfl : v.met = l := Option.some.inj (hnum.symm.trans hl)
  rw [hrep.policy, hrep.script] at hbrings₁
  obtain ⟨rfl, hturns⟩ := hbrings.unique hbrings₁ (cell.workerSeed_only i)
  refine ⟨?_, { requests := ?_, turns := ?_ }⟩
  · refine Harness.verdictOf_of_ok hgate ?_
    rw [hd, Harness.resultsOf, hres₁]
    rfl
  · rw [hquiet.since, hrequests, hrequests₁,
      ← requestsOf_since ((cell.only i).opening solo v), ← hturns, requestsOf_since]
  · rw [hquiet.since]
    exact hturns.symm

theorem asAlone (h : Reaches scene w cell.crew w₁ crew) (hdone : crew.Done w₁)
    (hclear : w₁.token = false) (hpos : 0 < scene.policy.tries) (ho : crew.gate = .openSince opened)
    (hc : crew.callers[i]? = some c) {r : WorkerResult} (hr : c.result? = some r)
    (hk : c.number = some k) (hmild : (scene.script k).Mild) :
    cell.AsAlone scene w w₁ opened i k r := by
  intro solo v hrep
  refine ⟨?_, ?_⟩
  · intro limit v₁ r' hres hunset
    exact h.same_only hdone hclear hpos ho hc hr hk hmild hrep hres hunset
  intro hvclear hvalarm
  obtain ⟨l, hl, hbrings, -⟩ := h.brings hdone hclear hpos ho hc hr
  obtain rfl := Option.some.inj (hk.symm.trans hl)
  obtain ⟨u, one, hleads, hover⟩ := Cell.only_ends hbrings hrep.policy hrep.script
  obtain ⟨limit, hrun⟩ := hleads.run hover
  have halone : (cell.only i).Undisturbed solo v := undisturbed_only hpos hmild hrep
  have huclear := Crew.run_unset halone.calm hrun hvclear hvalarm
  obtain ⟨limit', p, hsettles⟩ := Harness.workers_settles hrun
  obtain ⟨v₁, hquiet, hworkers⟩ := Harness.workers_of_run (h := solo.harness (max limit limit'))
    (Crew.run_mono (Nat.le_max_left _ _) hrun)
  have hunset : v₁.token = false := hquiet.token.trans huclear
  obtain ⟨hok, -⟩ := h.same_only hdone hclear hpos ho hc hr hk hmild hrep hworkers hunset
  obtain rfl : p = (v₁, .ok [r]) := by
    have hlast := (hsettles _ (Nat.le_max_right limit limit')).symm.trans hworkers
    rw [hok] at hlast
    exact Option.some.inj hlast
  exact ⟨limit', v₁, hunset, hsettles⟩

end Crew.Reaches

end LoadSweep
