import LoadSweep.Proofs.Independence
import LoadSweep.Proofs.Safety

/-!
# `LoadSweep/Proofs/Fresh.lean` — a row does not depend on what came before it

A row is made of the results of its workers, and a script and a seed say what a worker brings back
(`Job.Brings.unique`). Neither the phases before a cell nor the earlier cells have a part in that:
two visits of one cell whose workers followed the same scripts come to the same results
(`Visit.Clean.unique`). A cell measured late in a run can be measured again, by itself and at the
beginning of time: its workers have shown how many requests they make, and a window that opens
earlier ends earlier (`Visit.Clean.again`).
-/

set_option autoImplicit false

namespace LoadSweep

/-! ## Servers that leave the token alone -/

/-- The token is unset, and no alarm is going to set it. -/
structure World.Still (w : World) : Prop where
  token : w.token = false
  alarm : w.alarm = none

namespace Crew

variable {σ : Type} {scene : Scene} {w₀ w w' : World} {crew₀ crew crew' : Crew σ}

theorem step_still (hs : crew₀.Starts w₀) (hgentle : scene.Gentle)
    (hr : Reaches scene w₀ crew₀ w crew) (h : crew.step scene w = some (w', crew'))
    (hstill : w.Still) : w'.Still := by
  obtain ⟨i, due, c, hc, -, -, rfl, rfl⟩ | ⟨rfl, -⟩ | ⟨hrings, -⟩ := step_first h
  · have hf := hr.faithful hs
    have ha := Caller.act_acts scene crew.job crew.gate i { w with now := due } c
    have htoken : (crew.acted scene { w with now := due } i c).1.token = w.token := by
      refine ha.token_eq (fun n => ((hgentle _).attempt n).1) ?_
      intro state sent due reply hstage
      obtain ⟨token, s₀, n, r, -, rfl⟩ := (hf.agrees i c hc).reply_eq hstage
      exact ((hgentle _).replyTo n r).1
    exact { token := htoken.trans hstill.token
            alarm := (ha.alarm_eq (hf.enrolled c (List.mem_of_getElem? hc))).trans hstill.alarm }
  · exact hstill
  · exact absurd hstill.alarm hrings

theorem Leads.still (hs : crew₀.Starts w₀) (hgentle : scene.Gentle)
    (hr : Reaches scene w₀ crew₀ w crew) (h : Leads scene w crew w' crew') (hstill : w.Still) :
    w'.Still := by
  induction h with
  | refl => exact hstill
  | step s _ ih =>
    exact ih (hr.of_step (hr.grounded hs).noneBefore_now s) (step_still hs hgentle hr s hstill)

end Crew

/-- **The machine leaves the token unset** in a gentle scene, whatever phases it goes through. -/
theorem Harness.Passes.still {scene : Scene} {limit : Nat} {w w' : World} (hgentle : scene.Gentle)
    (hp : (scene.harness limit).Passes w w') (hstill : w.Still) : w'.Still := by
  induction hp with
  | quiet hq => exact { token := hq.token.trans hstill.token, alarm := hq.alarm.trans hstill.alarm }
  | crew hs _ hrun => exact (Crew.leads_of_run hrun).1.still hs hgentle .start hstill
  | trans _ _ ih ih' => exact ih' (ih hstill)

/-! ## Two visits of a cell -/

/-- The visit came to results, and the token was unset when it was over. -/
structure Visit.Clean (scene : Scene) (v : Visit) (results : List WorkerResult) : Prop where
  reaches : Crew.Reaches scene v.before v.cell.crew v.after v.crew
  done : v.crew.Done v.after
  unset : v.after.token = false
  verdict : Harness.verdictOf v.crew = .ok results

/-- Each worker of the visit followed the script at its place. -/
def Visit.Follows (scene : Scene) (v : Visit) (scripts : Nat → Script) : Prop :=
  ∀ i < v.cell.concurrency, ∃ (c : Caller Traffic) (k : Nat), v.crew.callers[i]? = some c ∧
    c.number = some k ∧ scripts i = scene.script k

/-- The next workers that the server meets follow these scripts, and begin no later than the ones of
the visit. -/
structure Scene.Rehearses (fresh : Scene) (w : World) (scene : Scene) (v : Visit) : Prop where
  policy : fresh.policy = scene.policy
  scripts : v.Follows scene fun i => fresh.script (w.met + i)
  early : w.now ≤ v.before.now

namespace Visit.Clean

variable {scene fresh : Scene} {v u : Visit} {w : World} {results results' : List WorkerResult}

theorem size_eq (h : v.Clean scene results) :
    v.crew.callers.length = v.cell.concurrency ∧ results.length = v.cell.concurrency := by
  have hsize : v.crew.callers.length = v.cell.concurrency :=
    h.reaches.job_eq.2.2.trans List.length_replicate
  have hlength := congrArg List.length (Harness.of_verdict_ok h.verdict).2
  rw [List.length_map, List.length_map, hsize] at hlength
  exact ⟨hsize, hlength.symm⟩

/-- Every worker is known to the server, and has brought back what its script makes of it. -/
theorem brings (h : v.Clean scene results) (hpos : 0 < scene.policy.tries) {i : Nat}
    (hi : i < v.cell.concurrency) :
    ∃ (opened : Nat) (c : Caller Traffic) (r : WorkerResult), v.crew.callers[i]? = some c ∧
      c.number = some (v.crew.numberAt i) ∧ results[i]? = some r ∧
      v.cell.job.Brings scene.policy (scene.script (v.crew.numberAt i)) i opened r
        (turns (v.crew.numberAt i) (v.after.since v.before)) := by
  obtain ⟨⟨opened, hgate⟩, hmap⟩ := Harness.of_verdict_ok h.verdict
  have hlt : i < results.length := h.size_eq.2 ▸ hi
  have hr : results[i]? = some results[i] := List.getElem?_eq_getElem hlt
  obtain ⟨c, hc, hcr⟩ := Cell.Undisturbed.caller_of_result hmap hr
  obtain ⟨k, hk, hbrings, -⟩ := h.reaches.brings h.done h.unset hpos hgate hc hcr
  rw [Crew.numberAt_eq hc hk]
  exact ⟨opened, c, results[i], hc, hk, hr, hbrings⟩

theorem number_eq (h : v.Clean scene results) (hpos : 0 < scene.policy.tries) {i : Nat}
    {c : Caller Traffic} (hc : v.crew.callers[i]? = some c) :
    c.number = some (v.crew.numberAt i) := by
  have hlt := (List.getElem?_eq_some_iff.mp hc).1
  obtain ⟨-, d, -, hd, hk, -⟩ := h.brings hpos (h.size_eq.1 ▸ hlt)
  obtain rfl := Option.some.inj (hc.symm.trans hd)
  exact hk

theorem follows (h : v.Clean scene results) (hpos : 0 < scene.policy.tries) :
    v.Follows scene fun i => scene.script (v.crew.numberAt i) := by
  intro i hi
  obtain ⟨-, c, -, hc, hk, -⟩ := h.brings hpos hi
  exact ⟨c, _, hc, hk, rfl⟩

theorem script_eq (h : v.Clean scene results) (hpos : 0 < scene.policy.tries)
    {scripts : Nat → Script} (hv : v.Follows scene scripts) {i : Nat}
    (hi : i < v.cell.concurrency) : scripts i = scene.script (v.crew.numberAt i) := by
  obtain ⟨c, k, hc, hk, hscript⟩ := hv i hi
  rw [hscript, Option.some.inj (hk.symm.trans (h.number_eq hpos hc))]

/-- **Two visits of one cell come to the same results** when their workers followed the same
scripts, whenever they began and whatever came before. -/
theorem unique (h : v.Clean scene results) (h' : u.Clean fresh results')
    (hpos : 0 < scene.policy.tries) (hcell : u.cell = v.cell)
    (hpolicy : fresh.policy = scene.policy) {scripts : Nat → Script}
    (hv : v.Follows scene scripts) (hu : u.Follows fresh scripts) : results' = results := by
  refine List.ext_getElem? ?_
  intro i
  by_cases hi : i < v.cell.concurrency
  · have hpos' : 0 < fresh.policy.tries := hpolicy ▸ hpos
    have hi' : i < u.cell.concurrency := hcell ▸ hi
    obtain ⟨opened, -, r, -, -, hr, hbrings⟩ := h.brings hpos hi
    obtain ⟨opened', -, r', -, -, hr', hbrings'⟩ := h'.brings hpos' hi'
    rw [← h.script_eq hpos hv hi] at hbrings
    rw [← h'.script_eq hpos' hu hi', hcell, hpolicy] at hbrings'
    rw [hr, hr', (hbrings.unique hbrings' rfl).1]
  · have hsize := h.size_eq.2
    have hsize' := h'.size_eq.2
    rw [hcell] at hsize'
    rw [List.getElem?_eq_none (by omega), List.getElem?_eq_none (by omega)]

/-! ### The same cell, measured again -/

/-- The workers make no more requests than they made in the visit. -/
theorem bounded (h : v.Clean scene results) (hpos : 0 < scene.policy.tries)
    (hf : fresh.Rehearses w scene v) : ∃ n, v.cell.Bounded fresh w n := by
  refine Cell.bounded_of_each ?_
  intro i hi hconnects
  have hscript : fresh.script (w.met + i) = _ := h.script_eq hpos hf.scripts hi
  rw [hscript, hf.policy] at hconnects
  rw [hscript]
  obtain ⟨opened, -, r, -, -, -, hbrings⟩ := h.brings hpos hi
  exact ⟨_, hbrings.exhausts v.cell.request_ne_ping hconnects⟩

/-- The clock can show the end of the window, which is no later than it was in the visit. -/
theorem shown (h : v.Clean scene results) (hpos : 0 < scene.policy.tries)
    (hf : fresh.Rehearses w scene v) : v.cell.Shown fresh w := by
  obtain ⟨⟨opened, hgate⟩, -⟩ := Harness.of_verdict_ok h.verdict
  have hopened := Cell.opened_of_numbers h.reaches h.done h.unset hpos
    (fun _ _ hc => h.number_eq hpos hc) (h.reaches.opening hgate)
  have hle : v.cell.opening fresh w ≤ opened := by
    rw [hopened]
    refine Nat.add_le_add hf.early (largest_le ?_)
    intro i hi
    have hscript : fresh.script (w.met + i) = _ := h.script_eq hpos hf.scripts hi
    rw [hscript, hf.policy]
    exact le_largest (fun i => (scene.script (v.crew.numberAt i)).dialTime scene.policy) hi
  have hgated := h.reaches.gated
  rw [Crew.Gated, hgate, show v.crew.window = v.cell.duration from h.reaches.job_eq.2.1] at hgated
  exact Nat.lt_of_le_of_lt (Nat.div_le_div_right (Nat.add_le_add_right hle _)) hgated.2

/-- **A cell gives the same row when it is measured again**, and the machine does measure it. -/
theorem again (h : v.Clean scene results) (hpos : 0 < scene.policy.tries) (hgentle : scene.Gentle)
    (hf : fresh.Rehearses w scene v) (hstill : w.Still) :
    ∃ (limit : Nat) (w₁ : World), ∀ more, limit ≤ more →
      (fresh.harness more).measure v.cell w = some (w₁, .ok (aggregate v.cell results)) := by
  have hfresh : v.cell.Undisturbed fresh w :=
    { tries := hf.policy ▸ hpos
      mild := by
        intro i hi
        have hscript : fresh.script (w.met + i) = _ := h.script_eq hpos hf.scripts hi
        exact hscript ▸ (hgentle _).mild }
  obtain ⟨n, hbounded⟩ := h.bounded hpos hf
  obtain ⟨limit, ⟨w₁, r⟩, hsettles⟩ := Cell.workers_settle_of_bounded hbounded
  have hres := hsettles limit (Nat.le_refl limit)
  have hclear : w₁.token = false := hfresh.unset hres hstill.token hstill.alarm
  obtain ⟨-, results', rfl⟩ | ⟨hlate, -⟩ := hfresh.outcome hres hclear
  · obtain ⟨after, crew, hrun, hquiet, hverdict⟩ := Harness.of_workers hres
    have hunset : after.token = false := hquiet.token.symm.trans hclear
    obtain ⟨hreach, hdone⟩ := fresh.harness_follows limit (v.cell.crew_starts w) hrun
    have hagain : Visit.Clean fresh ⟨v.cell, w, after, crew⟩ results' :=
      { reaches := hreach, done := hdone, unset := hunset, verdict := hverdict.symm }
    have hfollows : Visit.Follows fresh ⟨v.cell, w, after, crew⟩ fun i =>
        fresh.script (w.met + i) := by
      intro i hi
      have hlt : i < crew.callers.length := hagain.size_eq.1 ▸ hi
      have hc : crew.callers[i]? = some crew.callers[i] := List.getElem?_eq_getElem hlt
      exact ⟨_, _, hc, ((hfresh.run_cases hrun hunset).1 i _ hc).1, rfl⟩
    obtain rfl : results' = results := h.unique hagain hpos rfl hf.policy hf.scripts hfollows
    exact ⟨limit, w₁, fun more hle => Run.bind_of_ok (hsettles more hle)⟩
  · exact absurd (h.shown hpos hf) hlate

end Visit.Clean

/-! ## The rows of a plan -/

/-- Whoever is served has made an attempt. -/
theorem Harness.tries_of_probe {harness : Harness Option} {scene : Scene} {target : Target}
    {w w' : World} (hf : harness.Follows scene)
    (h : harness.probe target w = some (w', .ok ())) : 0 < scene.policy.tries := by
  obtain ⟨v, s, halone, -⟩ := Run.ok_of_bind h
  obtain ⟨u, crew, hrun, -, hserved⟩ := of_alone halone
  obtain ⟨c, hc, hend⟩ := hserved s rfl
  have hs := Crew.atOpenGate_starts w (Questions.job [.ping]) 1
  have hscheduled := ((hf hs hrun).1.onTime hs c hc).scheduled
  rw [Caller.Scheduled, hend] at hscheduled
  exact Nat.zero_lt_of_lt hscheduled.left

/-- Behind every row of a sweep that left the token unset there is a visit that came to results. -/
theorem Sweep.clean {harness : Harness Option} {scene : Scene} {w w' : World} {cells : List Cell}
    {visits : List Visit} {rows : List Row} (hf : harness.Follows scene)
    (h : Sweep harness w cells visits w' (.ok rows)) (hunset : w'.token = false) {k : Nat}
    {v : Visit} (hv : visits[k]? = some v) :
    ∃ results, v.Clean scene results ∧ rows[k]? = some (aggregate v.cell results) := by
  obtain ⟨hclear, results, hverdict, hrow⟩ := (h.all_kept hunset).2.2 k v hv
  obtain ⟨hreach, hdone⟩ := h.joined hf (List.mem_of_getElem? hv)
  exact ⟨results, { reaches := hreach, done := hdone, unset := hclear, verdict := hverdict }, hrow⟩

namespace Plan

/-- Row `k` of the run of a plan that came to rows and left the token unset: the cell that it
belongs to, and the scripts that the workers of this cell followed, by their places. -/
inductive Measures (plan : Plan) (scene : Scene) (harness : Harness Option) (w₀ : World) (k : Nat) :
    Cell → (Nat → Script) → Row → Prop
  | row {keys : KeySpace} {ready w' : World} {visits : List Visit} {rows : List Row} {v : Visit}
    {scripts : Nat → Script} {row : Row} (ran : harness.session plan w₀ = some (w', .ok rows))
    (unset : w'.token = false)
    (prepared : harness.prepare plan w₀ = some (ready, .ok (some keys)))
    (swept : Sweep harness ready (plan.matrix.cells plan.target keys) visits w' (.ok rows))
    (visit : visits[k]? = some v) (kept : rows[k]? = some row) (follows : v.Follows scene scripts) :
    Measures plan scene harness w₀ k v.cell scripts row

/-- How the run of a plan ends that leaves the token unset: in a failure of the set-up, with keys
that were not all loaded, at a window whose end the clock cannot show, or with a row for every
cell. -/
inductive Settled (plan : Plan) (scene : Scene) (harness : Harness Option) (w₀ w' : World) :
    Except Stop (List Row) → Prop
  | failed {f : RunFault} (setup : f.OfSetup)
    (prepared : harness.prepare plan w₀ = some (w', .error (.fault f))) :
    Settled plan scene harness w₀ w' (.error (.fault f))
  | incomplete {keys : KeySpace} {w : World}
    (load : harness.load plan keys w = some (w', .ok false)) :
    Settled plan scene harness w₀ w' (.ok [])
  | unshown (late : (plan.warmup.isZero = false ∧ w'.canShow plan.warmup = false) ∨
      w'.canShow plan.matrix.duration = false) : Settled plan scene harness w₀ w' (.error .died)
  | measured {keys : KeySpace} {rows : List Row}
    (built : KeySpace.build plan.keyCount plan.keyMode = .ok keys)
    (complete : rows.length = (plan.matrix.cells plan.target keys).length)
    (each : ∀ k row, rows[k]? = some row → ∃ (cell : Cell) (scripts : Nat → Script),
      (plan.matrix.cells plan.target keys)[k]? = some cell ∧
      plan.Measures scene harness w₀ k cell scripts row) :
    Settled plan scene harness w₀ w' (.ok rows)

variable {plan : Plan} {scene : Scene} {harness : Harness Option} {w₀ w' : World} {k : Nat}
  {cell : Cell} {scripts : Nat → Script} {row : Row}

/-- Behind a row there is a visit of its cell. -/
theorem Measures.clean (hf : harness.Follows scene)
    (h : plan.Measures scene harness w₀ k cell scripts row) :
    0 < scene.policy.tries ∧ ∃ (v : Visit) (results : List WorkerResult), v.Clean scene results ∧
      v.Follows scene scripts ∧ v.cell = cell ∧ row = aggregate cell results := by
  cases h with
  | row _ unset prepared swept visit kept follows =>
    obtain ⟨-, _, _, _, _, _, -, -, hprobe, -⟩ := Harness.of_prepare prepared
    obtain ⟨results, hclean, hrow⟩ := swept.clean hf unset visit
    exact ⟨Harness.tries_of_probe hf hprobe, _, results, hclean, follows, rfl,
      Option.some.inj (kept.symm.trans hrow)⟩

/-- A run that is not interrupted measures all cells, if its set-up is good and the clock can show
its windows. -/
theorem settled (hf : harness.Follows scene) (hvalid : plan.validate = .ok ())
    (hspares : scene.Spares) {r : Except Stop (List Row)}
    (h : harness.session plan w₀ = some (w', r)) (hunset : w'.token = false) :
    plan.Settled scene harness w₀ w' r := by
  obtain ⟨e, rfl, hprepare⟩ | ⟨rfl, hprepare⟩ | ⟨keys, ready, visits, hprepare, hsweep, -⟩ :=
    Harness.comes_of_session h
  · obtain ⟨rows, he⟩ | ⟨f, he, hsetup⟩ | ⟨he, hlate⟩ :=
      ((Harness.staged hf h).survived hf hspares hvalid).ends
    · simp at he
    · obtain rfl := Except.error.inj he
      exact .failed hsetup hprepare
    · obtain rfl := Except.error.inj he
      exact .unshown hlate
  · obtain ⟨-, keys, w₁, w₂, w₃, loaded, -, -, -, hload, hcases⟩ := Harness.of_prepare hprepare
    obtain ⟨-, rfl, rfl | hset⟩ | ⟨hkeys, -⟩ := hcases
    · exact .incomplete hload
    · simp [hset] at hunset
    · simp at hkeys
  · obtain ⟨-, _, _, _, _, _, hbuilt, -, hprobe, -, hcases⟩ := Harness.of_prepare hprepare
    obtain ⟨hnone, -⟩ | ⟨hkeys, -⟩ := hcases
    · simp at hnone
    obtain rfl := Option.some.inj hkeys
    obtain ⟨-, ⟨rows, rfl⟩ | ⟨rfl, hlate⟩⟩ := swept_spared hspares (hsweep.swept hf)
    · obtain ⟨hcells, hlength, -⟩ := hsweep.all_kept hunset
      refine .measured hbuilt hlength ?_
      intro k row hrow
      -- where there is a row there is a cell, and the cell has a visit
      have hlt := (List.getElem?_eq_some_iff.mp hrow).1
      rw [hlength, ← hcells, List.length_map] at hlt
      have hv : visits[k]? = some visits[k] := List.getElem?_eq_getElem hlt
      obtain ⟨results, hclean, -⟩ := hsweep.clean hf hunset hv
      refine ⟨visits[k].cell, _, ?_, .row h hunset hprepare hsweep hv hrow
        (hclean.follows (Harness.tries_of_probe hf hprobe))⟩
      rw [← hcells, List.getElem?_map, hv, Option.map_some]
    · exact .unshown (.inr hlate)

/-- Two runs measure a cell alike when its workers follow the same scripts, whatever else the plans
have in them. -/
theorem Measures.row_eq {other : Plan} {scene' : Scene} {harness' : Harness Option} {u₀ : World}
    {k' : Nat} {scripts' : Nat → Script} {row' : Row} (hf : harness.Follows scene)
    (h : plan.Measures scene harness w₀ k cell scripts row) (hf' : harness'.Follows scene')
    (h' : other.Measures scene' harness' u₀ k' cell scripts' row')
    (hpolicy : scene'.policy = scene.policy)
    (hscripts : ∀ i < cell.concurrency, scripts' i = scripts i) : row' = row := by
  obtain ⟨hpos, v, results, hclean, hfollows, rfl, rfl⟩ := h.clean hf
  obtain ⟨-, u, results', hclean', hfollows', hcell, rfl⟩ := h'.clean hf'
  have hsame : u.Follows scene' scripts := by
    intro i hi
    obtain ⟨c, n, hc, hn, hscript⟩ := hfollows' i hi
    exact ⟨c, n, hc, hn, (hscripts i (hcell ▸ hi)).symm.trans hscript⟩
  rw [hclean.unique hclean' hpos hcell hpolicy hfollows hsame]

/-- The cell of a row gives this row also when nothing came before it. -/
theorem Measures.fresh (hf : harness.Follows scene) (hgentle : scene.Gentle)
    (h : plan.Measures scene harness w₀ k cell scripts row) {fresh : Scene}
    (hpolicy : fresh.policy = scene.policy)
    (hscripts : ∀ i < cell.concurrency, fresh.script i = scripts i) :
    ∃ (limit : Nat) (w₁ : World), ∀ more, limit ≤ more →
      (fresh.harness more).measure cell (.start none) = some (w₁, .ok row) := by
  obtain ⟨hpos, v, results, hclean, hfollows, rfl, rfl⟩ := h.clean hf
  refine hclean.again hpos hgentle ?_ { token := rfl, alarm := rfl }
  refine { policy := hpolicy, scripts := ?_, early := Nat.zero_le _ }
  intro i hi
  obtain ⟨c, n, hc, hn, hscript⟩ := hfollows i hi
  refine ⟨c, n, hc, hn, ?_⟩
  show fresh.script (0 + i) = _
  rw [Nat.zero_add, hscripts i hi, hscript]

/-- **Every row of a plan is the one that its cell gives by itself**, on a harness that has done
nothing before, against the scripts that its workers followed. The rest of the plan has no part in
it: another plan that measures the cell against these scripts has the same row. -/
theorem rows_as_fresh (hvalid : plan.validate = .ok ()) (hgentle : scene.Gentle) (w₀ : World) :
    (∀ (harness : Harness Option) (w' : World) (r : Except Stop (List Row)),
      harness.Follows scene → harness.session plan w₀ = some (w', r) → w'.token = false →
      plan.Settled scene harness w₀ w' r) ∧
    (∀ (harness : Harness Option) (k : Nat) (cell : Cell) (scripts : Nat → Script) (row : Row),
      harness.Follows scene → plan.Measures scene harness w₀ k cell scripts row →
      (∀ fresh : Scene, fresh.policy = scene.policy →
        (∀ i < cell.concurrency, fresh.script i = scripts i) →
        ∃ (limit : Nat) (w₁ : World), ∀ more, limit ≤ more →
          (fresh.harness more).measure cell (.start none) = some (w₁, .ok row)) ∧
      ∀ (other : Plan) (scene' : Scene) (harness' : Harness Option) (u₀ : World) (k' : Nat)
        (scripts' : Nat → Script) (row' : Row), harness'.Follows scene' →
        other.Measures scene' harness' u₀ k' cell scripts' row' →
        scene'.policy = scene.policy → (∀ i < cell.concurrency, scripts' i = scripts i) →
        row' = row) ∧
    (∀ limit, (scene.harness limit).Follows scene ∧ (w₀.Still → ∀ (w' : World)
      (r : Except Stop (List Row)), (scene.harness limit).session plan w₀ = some (w', r) →
      w'.token = false)) ∧
    (∀ reads requests, scene.Limits plan.warmup reads →
      scene.Limits plan.matrix.duration requests →
      ∃ (limit : Nat) (w' : World) (r : Except Stop (List Row)), ∀ more, limit ≤ more →
        (scene.harness more).session plan w₀ = some (w', r)) := by
  refine ⟨?_, ?_, ?_, ?_⟩
  · intro harness w' r hf h hunset
    exact settled hf hvalid hgentle.spares h hunset
  · intro harness k cell scripts row hf h
    refine ⟨fun fresh hpolicy hscripts => h.fresh hf hgentle hpolicy hscripts, ?_⟩
    intro other scene' harness' u₀ k' scripts' row' hf' h' hpolicy hscripts
    exact h.row_eq hf hf' h' hpolicy hscripts
  · intro limit
    refine ⟨scene.harness_follows limit, ?_⟩
    intro hstill w' r h
    exact ((Run.Passes.session plan w₀ w' r h).still hgentle hstill).token
  · intro reads requests hwarm hcells
    obtain ⟨limit, ⟨w', r⟩, h⟩ := Harness.session_settles_of_limits hwarm hcells w₀
    exact ⟨limit, w', r, h⟩

end Plan

/-- The plan reads its key in one cell, and writes it in the next one. -/
def Sample.double : Plan :=
  { Sample.single with matrix := { Sample.single.matrix with operations := [.get, .set] } }

/-- Both cells of the plan give their rows by themselves. -/
theorem Plan.rows_as_fresh_sample : ∃ (w' : World) (rows : List Row) (keys : KeySpace),
    (Sample.leaving.harness 100).session Sample.double (.start none) = some (w', .ok rows) ∧
    rows.map (·.totalOps) = [1, 1] ∧
    ∀ (k : Nat) (row : Row), rows[k]? = some row → ∃ (cell : Cell) (limit : Nat) (w₁ : World),
      (Sample.double.matrix.cells Sample.double.target keys)[k]? = some cell ∧
      ∀ more, limit ≤ more →
        (Sample.leaving.harness more).measure cell (.start none) = some (w₁, .ok row) := by
  have hrun : ((Sample.leaving.harness 100).session Sample.double (.start none)).map
      (fun p => p.2.toOption.map fun rows => rows.map (·.totalOps)) = some (some [1, 1]) := by
    decide +kernel
  obtain ⟨⟨w', r⟩, hw, heq⟩ := Option.map_eq_some_iff.mp hrun
  obtain ⟨rows, hr, hrows⟩ := Option.map_eq_some_iff.mp heq
  obtain rfl := Sample.ok_of_toOption hr
  have hvalid : Sample.double.validate = .ok () := rfl
  obtain ⟨hends, hfresh, hmachine, -⟩ :=
    Plan.rows_as_fresh hvalid Sample.leaving_gentle (.start none)
  obtain ⟨hfollows, hunset⟩ := hmachine 100
  have hsettled := hends _ w' _ hfollows hw (hunset { token := rfl, alarm := rfl } w' _ hw)
  cases hsettled with
  | incomplete => simp at hrows
  | @measured keys _ _ _ each =>
    refine ⟨w', rows, keys, hw, hrows, ?_⟩
    intro k row hrow
    obtain ⟨cell, scripts, hcell, hmeasures⟩ := each k row hrow
    -- every caller of the scene has the same script
    have hscripts : ∀ i < cell.concurrency, Sample.leaving.script i = scripts i := by
      obtain ⟨-, v, -, -, hv, rfl, -⟩ := hmeasures.clean hfollows
      intro i hi
      obtain ⟨c, n, -, -, hscript⟩ := hv i hi
      exact hscript.symm
    obtain ⟨limit, w₁, h⟩ := (hfresh _ k cell scripts row hfollows hmeasures).1 Sample.leaving rfl
      hscripts
    exact ⟨cell, limit, w₁, hcell, h⟩

end LoadSweep
