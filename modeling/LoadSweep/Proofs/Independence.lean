import LoadSweep.Proofs.Alone
import LoadSweep.Proofs.Budget

/-!
# `LoadSweep/Proofs/Independence.lean` — workers do not influence each other

The workers of a cell share a gate, a clock and a token. With the token unset the gate is the only
one of the three through which a worker can feel the others, and all that comes through it is the
instant of the opening: how a worker dials is in its script, and a course of traffic is the same
whenever it begins. What is left to the others is whether the window opens at all, for the clock may
not show the end of one that opens late. Nor can they keep the run from ending: a worker that came
to its end alone has shown how many requests it can make (`Cell.Undisturbed.exhausts_of_alone`).
-/

set_option autoImplicit false

namespace LoadSweep

theorem Cell.workers_settle {scene : Scene} (hp : scene.Paced) (cell : Cell) (w : World) :
    Run.Settles (fun limit => (scene.harness limit).workers cell) w :=
  Cell.workers_settle_of_bounded ((hp.limits cell.duration).bounded w)

/-- A bound for the requests of each worker gives one for all of them. -/
theorem Cell.bounded_of_each {cell : Cell} {scene : Scene} {w : World}
    (h : ∀ i < cell.concurrency, (scene.script (w.met + i)).Connects scene.policy →
      ∃ n, (scene.script (w.met + i)).Exhausts cell.duration n) : ∃ n, cell.Bounded scene w n := by
  have hbound : ∀ i, ∃ n, i < cell.concurrency →
      (scene.script (w.met + i)).Connects scene.policy →
      (scene.script (w.met + i)).Exhausts cell.duration n := by
    intro i
    by_cases hi : i < cell.concurrency ∧ (scene.script (w.met + i)).Connects scene.policy
    · obtain ⟨n, hn⟩ := h i hi.1 hi.2
      exact ⟨n, fun _ _ => hn⟩
    · exact ⟨0, fun hlt hc => absurd ⟨hlt, hc⟩ hi⟩
  refine ⟨largest (fun i => (hbound i).choose) cell.concurrency, ?_⟩
  intro i hi hc
  exact ((hbound i).choose_spec hi hc).mono (le_largest (fun i => (hbound i).choose) hi)

/-- A worker that has a connection and has come to its end has made all its requests. -/
theorem Job.Brings.exhausts {keys : KeySpace} {request : String → Request} {window : Duration}
    {seed : Nat → Nat} {policy : Policy} {script : Script} {i opened : Nat} {r : WorkerResult}
    {ts : List Turn} (hreq : ∀ key, request key ≠ .ping)
    (h : (Traffic.job keys request window seed).Brings policy script i opened r ts)
    (hc : script.Connects policy) : script.Exhausts window ts.length := by
  cases h with
  | served _ course ends => exact Traffic.exhausts_of_ends hreq course ends
  | unserved hno => exact absurd hc hno

/-- The number of the caller at a place. -/
def Crew.numberAt {σ : Type} (crew : Crew σ) (i : Nat) : Nat :=
  (crew.callers[i]?.bind (·.number)).getD 0

theorem Crew.numberAt_eq {σ : Type} {crew : Crew σ} {i k : Nat} {c : Caller σ}
    (hc : crew.callers[i]? = some c) (hk : c.number = some k) : crew.numberAt i = k := by
  simp [numberAt, hc, hk]

/-- Every caller has the same script. -/
def Scene.ofScript (policy : Policy) (script : Script) : Scene := { policy, script := fun _ => script }

/-- Worker `i` alone, against a server that treats it in the same way, comes to its end with this
result. -/
def Cell.ComesAlone (cell : Cell) (scene : Scene) (w : World) (i : Nat) (r : WorkerResult) : Prop :=
  ∃ (solo : Scene) (v v₁ : World) (limit : Nat), solo.Repeats v scene w (w.met + i) ∧
    (solo.harness limit).workers (cell.only i) v = some (v₁, .ok [r]) ∧ v₁.token = false

/-- The workers of a cell do not feel each other. -/
structure Cell.Independent (cell : Cell) (scene : Scene) (w : World) : Prop where
  /-- The machine meets worker `i` as number `i`, and the worker brings back what it brings back
  alone. -/
  inOrder : ∀ {limit : Nat} {w₁ : World} {results : List WorkerResult},
    (scene.harness limit).workers cell w = some (w₁, .ok results) → w₁.token = false →
    results.length = cell.concurrency ∧ ∀ i r, results[i]? = some r →
      cell.AsAlone scene w w₁ (cell.opening scene w) i (w.met + i) r
  /-- In any other order of the acts the numbers may be others, and nothing else is. -/
  anyOrder : ∀ {harness : Harness Option} {w₁ : World} {results : List WorkerResult},
    harness.Follows scene → harness.workers cell w = some (w₁, .ok results) → w₁.token = false →
    results.length = cell.concurrency ∧ ∃ (opened : Nat) (number : Nat → Nat),
      (∀ i < cell.concurrency, w.met ≤ number i ∧ number i < w.met + cell.concurrency) ∧
      (∀ i < cell.concurrency, ∀ j < cell.concurrency, number i = number j → i = j) ∧
      ∀ i r, results[i]? = some r → cell.AsAlone scene w w₁ opened i (number i) r
  /-- Other scripts for the siblings of a worker change nothing for it but the opening. -/
  siblings : ∀ {other : Scene}, other.policy = scene.policy → cell.Undisturbed other w →
    ∀ {limit limit' : Nat} {w₁ w₂ : World} {results results' : List WorkerResult},
    (scene.harness limit).workers cell w = some (w₁, .ok results) → w₁.token = false →
    (other.harness limit').workers cell w = some (w₂, .ok results') → w₂.token = false →
    ∀ i < cell.concurrency, other.script (w.met + i) = scene.script (w.met + i) →
      results'[i]? = results[i]? ∧ DealtAlike (w₂.since w) (w.met + i) (cell.opening other w)
        (w₁.since w) (w.met + i) (cell.opening scene w)
  /-- There are results exactly when the clock can show the end of the window. -/
  outcome : ∀ {limit : Nat} {w₁ : World} {r : Except Stop (List WorkerResult)},
    (scene.harness limit).workers cell w = some (w₁, r) → w₁.token = false →
    (cell.Shown scene w ∧ ∃ results, r = .ok results) ∨ (¬ cell.Shown scene w ∧ r = .error .died)
  /-- Only the alarm sets the token. -/
  unset : ∀ {limit : Nat} {w₁ : World} {r : Except Stop (List WorkerResult)},
    (scene.harness limit).workers cell w = some (w₁, r) → w.token = false → w.alarm = none →
    w₁.token = false
  /-- Workers that come to their ends alone come to them together, with the same results. -/
  together : ∀ {bring : Nat → WorkerResult}, w.token = false → w.alarm = none →
    (∀ i < cell.concurrency, cell.ComesAlone scene w i (bring i)) →
    ∃ (limit : Nat) (w₁ : World), w₁.token = false ∧ ∀ more, limit ≤ more →
      (scene.harness more).workers cell w = some (w₁,
        if cell.Shown scene w then .ok ((List.range cell.concurrency).map bring) else .error .died)
  /-- The run comes to its end when every request takes time. -/
  ends : scene.Paced → Run.Settles (fun limit => (scene.harness limit).workers cell) w

namespace Cell.Undisturbed

variable {cell : Cell} {scene : Scene} {w w₁ : World} {results : List WorkerResult}

theorem outcome (h : cell.Undisturbed scene w) {limit : Nat} {r : Except Stop (List WorkerResult)}
    (hres : (scene.harness limit).workers cell w = some (w₁, r)) (hunset : w₁.token = false) :
    (cell.Shown scene w ∧ ∃ results, r = .ok results) ∨
      (¬ cell.Shown scene w ∧ r = .error .died) := by
  obtain ⟨v, crew, hrun, hquiet, rfl⟩ := Harness.of_workers hres
  obtain ⟨hall, hgate⟩ := h.run_cases hrun (hquiet.token.symm.trans hunset)
  by_cases hshown : cell.Shown scene w
  · rw [if_pos hshown] at hgate
    left
    refine ⟨hshown, ?_⟩
    obtain ⟨hok, -⟩ | ⟨i, c, -, hc, hnone, -⟩ := Harness.resultsOf_cases 0 crew.callers
    · exact ⟨crew.callers.filterMap Caller.result?, Harness.verdictOf_of_ok hgate hok⟩
    · obtain ⟨-, r, hr⟩ := hall i c hc
      simp [hr] at hnone
  · rw [if_neg hshown] at hgate
    exact .inr ⟨hshown, Harness.verdictOf_of_stuck hgate⟩

/-- The worker whose result is at a place of the list. -/
theorem caller_of_result {crew : Crew Traffic} {i : Nat} {r : WorkerResult}
    (hmap : crew.callers.map Caller.result? = results.map some) (hr : results[i]? = some r) :
    ∃ c, crew.callers[i]? = some c ∧ c.result? = some r := by
  have hi := congrArg (fun rs => rs[i]?) hmap
  simpa [hr] using hi

theorem inOrder (h : cell.Undisturbed scene w) {limit : Nat}
    (hres : (scene.harness limit).workers cell w = some (w₁, .ok results))
    (hunset : w₁.token = false) :
    results.length = cell.concurrency ∧ ∀ i r, results[i]? = some r →
      cell.AsAlone scene w w₁ (cell.opening scene w) i (w.met + i) r := by
  obtain ⟨v, crew, hrun, hquiet, hverdict⟩ := Harness.of_workers hres
  obtain ⟨⟨opened, ho⟩, hmap⟩ := Harness.of_verdict_ok hverdict.symm
  have hclear : v.token = false := hquiet.token.symm.trans hunset
  obtain ⟨hall, hgate⟩ := h.run_cases hrun hclear
  obtain ⟨hreach, hdone⟩ := Crew.run_reaches (cell.crew_starts w) .start hrun
  have hsize : crew.callers.length = cell.concurrency :=
    hreach.job_eq.2.2.trans List.length_replicate
  have hopening : crew.gate = .openSince (cell.opening scene w) := by
    rw [ho] at hgate ⊢
    split at hgate
    · exact hgate
    · simp at hgate
  refine ⟨?_, ?_⟩
  · rw [← hsize]
    simpa using (congrArg List.length hmap).symm
  · intro i r hr
    obtain ⟨c, hc, hcr⟩ := caller_of_result hmap hr
    have hlt := (List.getElem?_eq_some_iff.mp hc).1
    exact (hreach.asAlone hdone hclear h.tries hopening hc hcr (hall i c hc).1
      (h.mild i (hsize ▸ hlt))).quiet hquiet

theorem anyOrder (h : cell.Undisturbed scene w) {harness : Harness Option}
    (hf : harness.Follows scene) (hres : harness.workers cell w = some (w₁, .ok results))
    (hclear : w₁.token = false) :
    results.length = cell.concurrency ∧ ∃ (opened : Nat) (number : Nat → Nat),
      (∀ i < cell.concurrency, w.met ≤ number i ∧ number i < w.met + cell.concurrency) ∧
      (∀ i < cell.concurrency, ∀ j < cell.concurrency, number i = number j → i = j) ∧
      ∀ i r, results[i]? = some r → cell.AsAlone scene w w₁ opened i (number i) r := by
  obtain ⟨v, crew, hrun, hquiet, hverdict⟩ := Harness.of_workers hres
  obtain ⟨⟨opened, ho⟩, hmap⟩ := Harness.of_verdict_ok hverdict.symm
  obtain ⟨hreach, hdone⟩ := hf (cell.crew_starts w) hrun
  have hunset : v.token = false := hquiet.token.symm.trans hclear
  have hg := hreach.grounded (cell.crew_starts w)
  have hsize : crew.callers.length = cell.concurrency :=
    hreach.job_eq.2.2.trans List.length_replicate
  have hlen : results.length = cell.concurrency := by
    rw [← hsize]
    simpa using (congrArg List.length hmap).symm
  have hmet : v.met ≤ w.met + cell.concurrency := by
    rw [hreach.met_eq (cell.crew_starts w), ← hsize]
    exact Nat.add_le_add_left List.countP_le_length _
  -- every worker has a result, and with it a number
  have hnumbered : ∀ i < cell.concurrency, ∃ (k : Nat) (c : Caller Traffic),
      crew.callers[i]? = some c ∧ c.number = some k ∧ c.result? = results[i]? := by
    intro i hi
    have hr : results[i]? = some results[i] := List.getElem?_eq_getElem (by omega)
    obtain ⟨c, hc, hcr⟩ := caller_of_result hmap hr
    obtain ⟨k, hk, -⟩ := hreach.brings hdone hunset h.tries ho hc hcr
    exact ⟨k, c, hc, hk, hcr.trans hr.symm⟩
  have hrange : ∀ {i k : Nat} {c : Caller Traffic}, crew.callers[i]? = some c →
      c.number = some k → w.met ≤ k ∧ k < w.met + cell.concurrency := by
    intro i k c hc hk
    obtain ⟨hlow, hhigh⟩ := hg.numbers i c k hc hk
    exact ⟨hlow, Nat.lt_of_lt_of_le hhigh hmet⟩
  refine ⟨hlen, opened, crew.numberAt, ?_, ?_, ?_⟩
  · intro i hi
    obtain ⟨k, c, hc, hk, -⟩ := hnumbered i hi
    rw [Crew.numberAt_eq hc hk]
    exact hrange hc hk
  · intro i hi j hj hsame
    obtain ⟨k, c, hc, hk, -⟩ := hnumbered i hi
    obtain ⟨l, d, hd, hl, -⟩ := hnumbered j hj
    rw [Crew.numberAt_eq hc hk, Crew.numberAt_eq hd hl] at hsame
    subst hsame
    exact hg.distinct i j c d k hc hd hk hl
  · intro i r hr
    have hi : i < cell.concurrency := hlen ▸ (List.getElem?_eq_some_iff.mp hr).1
    obtain ⟨k, c, hc, hk, hcr⟩ := hnumbered i hi
    obtain ⟨hlow, hhigh⟩ := hrange hc hk
    have hmild := h.mild (k - w.met) (by omega)
    rw [Nat.add_sub_cancel' hlow] at hmild
    rw [Crew.numberAt_eq hc hk]
    exact (hreach.asAlone hdone hunset h.tries ho hc (hcr.trans hr) hk hmild).quiet hquiet

theorem unset (h : cell.Undisturbed scene w) {limit : Nat} {r : Except Stop (List WorkerResult)}
    (hres : (scene.harness limit).workers cell w = some (w₁, r)) (hclear : w.token = false)
    (halarm : w.alarm = none) : w₁.token = false := by
  obtain ⟨v, crew, hrun, hquiet, -⟩ := Harness.of_workers hres
  exact hquiet.token.trans (Crew.run_unset h.calm hrun hclear halarm)

/-- Alone a worker shows how many requests it can make. -/
theorem exhausts_of_alone (hpos : 0 < scene.policy.tries) {i : Nat} {r : WorkerResult}
    (h : cell.ComesAlone scene w i r)
    (hconnects : (scene.script (w.met + i)).Connects scene.policy) :
    ∃ n, (scene.script (w.met + i)).Exhausts cell.duration n := by
  obtain ⟨solo, v, v₁, limit, hrep, hres, hunset⟩ := h
  obtain ⟨u, one, hrun, hquiet, hverdict⟩ := Harness.of_workers hres
  obtain ⟨⟨opened, ho⟩, hmap⟩ := Harness.of_verdict_ok hverdict.symm
  obtain ⟨hreach, hdone⟩ := Crew.run_reaches ((cell.only i).crew_starts v) .start hrun
  obtain ⟨c, hc, hcr⟩ := caller_of_result (i := 0) hmap rfl
  obtain ⟨k, hk, hbrings, -⟩ := hreach.brings hdone (hquiet.token.symm.trans hunset)
    (hrep.policy ▸ hpos) ho hc hcr
  obtain ⟨-, rfl⟩ := Cell.who_only hreach hc hk
  rw [hrep.policy, hrep.script] at hbrings
  exact ⟨_, hbrings.exhausts (cell.only i).request_ne_ping hconnects⟩

theorem results_eq (h : cell.Undisturbed scene w) {limit : Nat}
    (hres : (scene.harness limit).workers cell w = some (w₁, .ok results))
    (hunset : w₁.token = false) {bring : Nat → WorkerResult}
    (halone : ∀ i < cell.concurrency, cell.ComesAlone scene w i (bring i)) :
    results = (List.range cell.concurrency).map bring := by
  obtain ⟨hlen, hsame⟩ := h.inOrder hres hunset
  refine List.ext_getElem? ?_
  intro i
  by_cases hi : i < cell.concurrency
  · obtain ⟨solo, v, v₁, limit', hrep, hres', hunset'⟩ := halone i hi
    have hr : results[i]? = some results[i] := List.getElem?_eq_getElem (by omega)
    obtain ⟨hok, -⟩ := (hsame i _ hr solo v hrep).1 limit' v₁ _ hres' hunset'
    rw [hr, List.getElem?_map, List.getElem?_range hi, ← (List.cons.inj (Except.ok.inj hok)).1]
    rfl
  · rw [List.getElem?_eq_none (by omega), List.getElem?_eq_none (by simpa using hi)]

theorem together (h : cell.Undisturbed scene w) {bring : Nat → WorkerResult}
    (hclear : w.token = false) (halarm : w.alarm = none)
    (halone : ∀ i < cell.concurrency, cell.ComesAlone scene w i (bring i)) :
    ∃ (limit : Nat) (w₁ : World), w₁.token = false ∧ ∀ more, limit ≤ more →
      (scene.harness more).workers cell w = some (w₁,
        if cell.Shown scene w then .ok ((List.range cell.concurrency).map bring)
        else .error .died) := by
  obtain ⟨n, hbounded⟩ := Cell.bounded_of_each fun i hi => exhausts_of_alone h.tries (halone i hi)
  obtain ⟨limit, ⟨w₁, r⟩, hsettles⟩ := Cell.workers_settle_of_bounded hbounded
  have hres := hsettles limit (Nat.le_refl limit)
  have hunset : w₁.token = false := h.unset hres hclear halarm
  refine ⟨limit, w₁, hunset, fun more hle => (hsettles more hle).trans ?_⟩
  obtain ⟨hshown, results, rfl⟩ | ⟨hlate, rfl⟩ := h.outcome hres hunset
  · rw [if_pos hshown, h.results_eq hres hunset halone]
  · rw [if_neg hlate]

/-- A worker with the same script is the same alone, whoever its siblings are. -/
theorem siblings (h : cell.Undisturbed scene w) {other : Scene}
    (hpolicy : other.policy = scene.policy) (h' : cell.Undisturbed other w) {limit limit' : Nat}
    {w₂ : World} {results' : List WorkerResult}
    (hres : (scene.harness limit).workers cell w = some (w₁, .ok results))
    (hunset : w₁.token = false)
    (hres' : (other.harness limit').workers cell w = some (w₂, .ok results'))
    (hunset' : w₂.token = false) {i : Nat} (hi : i < cell.concurrency)
    (hscript : other.script (w.met + i) = scene.script (w.met + i)) :
    results'[i]? = results[i]? ∧ DealtAlike (w₂.since w) (w.met + i) (cell.opening other w)
      (w₁.since w) (w.met + i) (cell.opening scene w) := by
  obtain ⟨hlen, halone⟩ := h.inOrder hres hunset
  obtain ⟨hlen', halone'⟩ := h'.inOrder hres' hunset'
  have hr : results[i]? = some results[i] := List.getElem?_eq_getElem (by omega)
  have hr' : results'[i]? = some results'[i] := List.getElem?_eq_getElem (by omega)
  -- alone, and without an alarm, the worker comes to its end, and both runs agree with that one
  obtain ⟨hsame, hends⟩ := halone i _ hr (.ofScript scene.policy (scene.script (w.met + i)))
    { w with token := false, alarm := none } ⟨rfl, rfl, Nat.le_refl _⟩
  obtain ⟨hsame', -⟩ := halone' i _ hr' (.ofScript scene.policy (scene.script (w.met + i)))
    { w with token := false, alarm := none } ⟨hpolicy.symm, hscript.symm, Nat.le_refl _⟩
  obtain ⟨n, v₁, hv, hsolo⟩ := hends rfl rfl
  obtain ⟨-, halike⟩ := hsame n v₁ _ (hsolo n (Nat.le_refl n)) hv
  obtain ⟨hok, halike'⟩ := hsame' n v₁ _ (hsolo n (Nat.le_refl n)) hv
  refine ⟨?_, halike'.symm.trans halike⟩
  rw [hr, hr', (List.cons.inj (Except.ok.inj hok)).1]

end Cell.Undisturbed

/-- **The workers of a cell do not influence each other**, as long as the token is unset. -/
theorem Cell.independent {cell : Cell} {scene : Scene} {w : World}
    (h : cell.Undisturbed scene w) : cell.Independent scene w where
  inOrder := h.inOrder
  anyOrder := h.anyOrder
  siblings := fun hpolicy h' _ _ _ _ _ _ hres hunset hres' hunset' _ hi =>
    h.siblings hpolicy h' hres hunset hres' hunset' hi
  outcome := h.outcome
  unset := h.unset
  together := h.together
  ends := fun hp => cell.workers_settle hp w

/-- Worker 0 is refused once, and its requests come to all ends; worker 1 meets no obstacle. -/
def Sample.mixed : Scene :=
  { policy := Sample.policy, script := fun k => if k = 0 then Sample.wavering else .plain }

theorem Sample.mixed_undisturbed : Sample.cell.Undisturbed Sample.mixed (.start none) where
  tries := by decide
  mild := by
    intro i hi
    cases i with
    | zero =>
      have hmild : Sample.wavering.Mild := Script.ofLists_mild (by decide) (by decide)
      exact hmild
    | succ i =>
      simp only [mixed, World.start, Nat.zero_add, Nat.succ_ne_zero, if_false]
      exact { attempt := fun _ => ⟨rfl, nofun⟩, reply := fun _ => ⟨rfl, nofun⟩ }

/-- The sample cell in this scene: worker 0 settles last, and the window opens then. -/
theorem Cell.independent_sample : ∃ (w₁ : World) (results : List WorkerResult),
    (Sample.mixed.harness 60).workers Sample.cell (.start none) = some (w₁, .ok results) ∧
    w₁.token = false ∧
    results.map (·.ops) = [2, 10] ∧ results.map (·.errors) = [1, 0] ∧
    Sample.cell.opening Sample.mixed (.start none) = 2000000 ∧
    Sample.cell.Undisturbed Sample.mixed (.start none) ∧
    Sample.cell.Independent Sample.mixed (.start none) := by
  have hrun : ((Sample.mixed.harness 60).workers Sample.cell (.start none)).map (fun p =>
      p.2.toOption.map fun results => (results.map (·.ops), results.map (·.errors)))
      = some (some ([2, 10], [1, 0])) := by decide +kernel
  obtain ⟨⟨w₁, r⟩, hres, hsome⟩ := Option.map_eq_some_iff.mp hrun
  obtain ⟨results, hok, hcounts⟩ := Option.map_eq_some_iff.mp hsome
  obtain ⟨hops, herrors⟩ := Prod.mk.inj hcounts
  cases r with
  | error => simp [Except.toOption] at hok
  | ok results' =>
    obtain rfl := Option.some.inj hok
    have hunset : w₁.token = false := Sample.mixed_undisturbed.unset hres rfl rfl
    exact ⟨w₁, results', hres, hunset, hops, herrors, by decide +kernel, Sample.mixed_undisturbed,
      Cell.independent Sample.mixed_undisturbed⟩

/-! ## The longest window

The clock has an end. A window that it can show when it opens at once may be one that it cannot show
when it opens later, and then a worker that dials for a long time takes the results of the others
with it. -/

/-- Two workers, and a window that ends ten years before the clock does. -/
def Sample.longCell : Cell := { Sample.cell with duration := .ofSecs 9223372036539415807 }

/-- One request succeeds and the next one costs the connection. -/
def Sample.brief (dials : Duration) : Script :=
  .ofLists [] ⟨false, dials, .accepted⟩ (.plain ⟨0⟩)
    [(1, .plain (.ofMillis 1)), (1, ⟨.ofMillis 1, false, .failed (.lost "gone")⟩)] .repeatLast

/-- Worker 1 takes twenty years to connect. -/
def Sample.lagging : Scene :=
  { policy := { tries := 1, timeout := .ofSecs 700000000, backoff := .ofMillis 1 }
    script := fun k => Sample.brief (if k = 0 then ⟨0⟩ else .ofSecs 630720000) }

theorem Sample.brief_mild (dials : Duration) : (Sample.brief dials).Mild :=
  Script.ofLists_mild (by simp) (by decide)

theorem Cell.sibling_stops_window : ¬ ∀ (cell : Cell) (scene : Scene) (w : World),
    cell.Undisturbed scene w → w.token = false → w.alarm = none → ∀ i < cell.concurrency,
    ∀ (limit : Nat) (w₁ v₁ : World) (r : Except Stop (List WorkerResult)) (result : WorkerResult)
    (solo : Scene),
    solo.policy = scene.policy → solo.script w.met = scene.script (w.met + i) →
    (scene.harness limit).workers cell w = some (w₁, r) →
    (solo.harness limit).workers (cell.only i) w = some (v₁, .ok [result]) →
    ∃ results, r = .ok results ∧ results[i]? = some result := by
  intro h
  have hquiet : Sample.longCell.Undisturbed Sample.lagging (.start none) :=
    { tries := by decide, mild := fun _ _ => Sample.brief_mild _ }
  have hjoint : ((Sample.lagging.harness 20).workers Sample.longCell (.start none)).map
      (·.2.toOption) = some none := by decide +kernel
  have halone : ((Sample.lagging.harness 20).workers (Sample.longCell.only 0) (.start none)).map
      (·.2.toOption) = some (some [⟨1, 0, #[1000000]⟩]) := by decide +kernel
  obtain ⟨⟨w₁, r⟩, hres, hr⟩ := Option.map_eq_some_iff.mp hjoint
  obtain ⟨⟨v₁, r'⟩, hres', hr'⟩ := Option.map_eq_some_iff.mp halone
  cases r' with
  | error => simp [Except.toOption] at hr'
  | ok results =>
    obtain rfl := Option.some.inj hr'
    obtain ⟨results, rfl, -⟩ := h _ _ _ hquiet rfl rfl 0 (by decide) _ _ _ _ _ _ rfl rfl hres hres'
    simp [Except.toOption] at hr

end LoadSweep
