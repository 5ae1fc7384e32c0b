import LoadSweep.Harness.Session
import LoadSweep.Proofs.Stored
import LoadSweep.Proofs.Sweep

/-!
# `LoadSweep/Proofs/Session.lean` — the values that a plan reads

The keys are loaded with values of the largest size of the sweep, so that a cell that only reads
finds values of at least its size. That holds as long as the loaded values are there. A cell that
writes replaces them by values of *its* size, and a later cell of a larger size then reads those:
the loaded size is a promise for the reads before the first smaller write, not for all reads
(`Harness.reads_smaller`).

What is true of every plan is the account of `Harness.reads_stored`: the value that a cell reads is
a loaded one, or was written by a worker of an earlier cell that writes, with the size of that
cell. It is too small exactly when that cell is the smaller one.
-/

set_option autoImplicit false

namespace LoadSweep

/-! ## The phases before the sweep -/

theorem World.Quiet.numbered {w v : World} (h : w.Quiet v) (hn : w.Numbered) : v.Numbered := by
  unfold World.Numbered
  rw [h.history, h.met]
  exact hn

/-- What the check of a plan asks for. -/
theorem Plan.of_validate {plan : Plan} {u : Unit} (h : plan.validate = .ok u) :
    0 < plan.keyCount ∧ 0 < plan.reportInterval ∧ plan.matrix.validate = .ok () := by
  unfold Plan.validate at h
  by_cases hcount : plan.keyCount = 0
  · simp [hcount] at h
  · by_cases hevery : plan.reportInterval = 0
    · simp [hcount, hevery] at h
    · rw [if_neg hcount, if_neg hevery] at h
      exact ⟨Nat.pos_of_ne_zero hcount, Nat.pos_of_ne_zero hevery, h⟩

theorem Plan.valueSizes_ne_nil {plan : Plan} {u : Unit} (h : plan.validate = .ok u) :
    plan.matrix.valueSizes ≠ [] := by
  intro hnil
  have hmatrix := (of_validate h).2.2
  unfold Matrix.validate at hmatrix
  simp [hnil] at hmatrix

namespace Questions

/-- What a probe comes to when it has its answers. -/
def verdict (target : Target) (s : Questions) : Except Stop Unit :=
  match s.answers with
  | .error cause :: _ => .error (.fault (.probe target.address cause))
  | _ => .ok ()

variable {target : Target} {s : Questions}

theorem of_verdict_error {e : Stop} (h : s.verdict target = .error e) :
    ∃ cause, e = .fault (.probe target.address cause) ∧ .error cause ∈ s.answers := by
  unfold verdict at h
  match hanswers : s.answers with
  | .error cause :: _ =>
    rw [hanswers] at h
    exact ⟨cause, (Except.error.inj h).symm, List.mem_cons_self⟩
  | [] | .ok _ :: _ => simp [hanswers] at h

theorem verdict_ok (h : ∀ a ∈ s.answers, ∃ value, a = .ok value) :
    s.verdict target = .ok () := by
  cases hverdict : s.verdict target with
  | ok => rfl
  | error e =>
    obtain ⟨cause, -, hmem⟩ := of_verdict_error hverdict
    obtain ⟨value, hvalue⟩ := h _ hmem
    simp at hvalue

end Questions

namespace Preload

/-- What a preload comes to when it stops. -/
def verdict (keys : KeySpace) (p : Preload) : Except Stop PreloadReport :=
  match p.fault with
  | some cause => .error (.fault (.preload p.loaded ((keys.key? p.loaded).getD "") cause))
  | none => .ok { loaded := p.loaded, complete := p.loaded == keys.size }

variable {keys : KeySpace} {p : Preload}

theorem of_verdict_ok {report : PreloadReport} (h : p.verdict keys = .ok report) :
    p.fault = none ∧ report = { loaded := p.loaded, complete := p.loaded == keys.size } := by
  unfold verdict at h
  cases hfault : p.fault with
  | some cause => simp [hfault] at h
  | none =>
    rw [hfault] at h
    exact ⟨rfl, (Except.ok.inj h).symm⟩

theorem of_verdict_error {e : Stop} (h : p.verdict keys = .error e) :
    ∃ cause, p.fault = some cause ∧
      e = .fault (.preload p.loaded ((keys.key? p.loaded).getD "") cause) := by
  unfold verdict at h
  cases hfault : p.fault with
  | some cause =>
    rw [hfault] at h
    exact ⟨cause, rfl, (Except.error.inj h).symm⟩
  | none => simp [hfault] at h

theorem verdict_of_sound (h : p.fault = none) :
    p.verdict keys = .ok { loaded := p.loaded, complete := p.loaded == keys.size } := by
  rw [verdict, h]

end Preload

/-- The line with which a preload begins. -/
def KeySpace.preloading (keys : KeySpace) (valueSize : Nat) : LogEvent :=
  { level := .info
    message := "preloading (single connection)"
    fields := [("keys", toString keys.size), ("value_size", toString valueSize)] }

/-- What a preload logs after its reports: a line, unless a write failed or there was no
connection. -/
def Preload.closing (keys : KeySpace) : Except Stop Preload → List LogEvent
  | .error _ => []
  | .ok p =>
    match p.fault, p.loaded == keys.size with
    | some _, _ => []
    | none, true =>
      [{ level := .info, message := "preload complete", fields := [("keys", toString p.loaded)] }]
    | none, false =>
      [{ level := .warn
         message := "preload interrupted"
         fields := [("loaded", toString p.loaded), ("total", toString keys.size)] }]

/-- What a caller of a warm-up adds to its number. -/
def Caller.counted (c : Caller Traffic) : Nat :=
  match c.stage with
  | .ended (.served t) => t.result.ops
  | .fresh | .attempting .. | .resting _ | .settled _ | .talking .. | .ended (.unserved _)
  | .ended (.died _) => 0

namespace Harness

/-- Everything that a plan does before the sweep; the keys, if the sweep is to begin. -/
def prepare {m : Type → Type} [Monad m] (h : Harness m) (plan : Plan) : Run m (Option KeySpace) := do
  match plan.validate with
  | .error cause => Run.fault (.config cause)
  | .ok () =>
  match KeySpace.build plan.keyCount plan.keyMode with
  | .error cause => Run.fault (.keySpace cause)
  | .ok keys =>
  Run.say .info "key space built"
    [("keys", toString keys.size), ("mode", plan.keyMode.label)]
  h.probe plan.target
  if !(← h.load plan keys) then return none
  if ← Run.look (·.token) then return none
  if !plan.warmup.isZero then
    let _ ← h.warmup plan.target keys plan.warmup
  return some keys

variable {harness : Harness Option} {scene : Scene} {target : Target} {keys : KeySpace}
  {plan : Plan} {w w' : World}

/-- A plan is its preparation and then the sweep. -/
theorem session_eq (harness : Harness Option) (plan : Plan) (w : World) :
    harness.session plan w = (harness.prepare plan >>= fun keys? =>
      match keys? with
      | some keys => harness.sweep plan.target plan.matrix keys
      | none => pure []) w := by
  unfold session prepare
  cases plan.validate with
  | error cause => rfl
  | ok =>
    cases KeySpace.build plan.keyCount plan.keyMode with
    | error cause => rfl
    | ok keys =>
      rw [Run.bind_assoc]
      refine Run.bind_congr ?_
      intro _ v
      rw [Run.bind_assoc]
      refine Run.bind_congr ?_
      intro _ v
      rw [Run.bind_assoc]
      refine Run.bind_congr ?_
      intro loaded v
      cases loaded with
      | false => rfl
      | true =>
        show _ = ((Run.look _ >>= _) >>= _) v
        rw [Run.bind_assoc]
        refine Run.bind_congr ?_
        intro set v
        cases set with
        | true => rfl
        | false =>
          cases plan.warmup.isZero with
          | true => rfl
          | false =>
            show _ = ((harness.warmup plan.target keys plan.warmup >>= _) >>= _) v
            rw [Run.bind_assoc]
            rfl

/-! ### What a phase consists of -/

/-- A probe is a caller by itself, and a verdict on its answers. -/
theorem of_probe {r : Except Stop Unit} (h : harness.probe target w = some (w', r)) :
    ∃ (v : World) (r₀ : Except Stop Questions),
      harness.alone target (Questions.job [.ping]) (fun _ => []) w = some (v, r₀) ∧ v.Quiet w' ∧
      r = r₀ >>= Questions.verdict target := by
  obtain ⟨v, s, halone, h⟩ | ⟨e, halone, rfl⟩ := Run.of_bind h
  · refine ⟨v, _, halone, ?_⟩
    show v.Quiet w' ∧ r = s.verdict target
    unfold Questions.verdict
    match hanswers : s.answers with
    | .error cause :: _ =>
      rw [hanswers] at h
      obtain ⟨rfl, rfl⟩ := Run.of_fault h
      exact ⟨.refl _, rfl⟩
    | [] | .ok _ :: _ =>
      rw [hanswers] at h
      have hquiet := Run.quiet_of_say h
      obtain ⟨-, rfl⟩ := Prod.mk.inj (Option.some.inj h)
      exact ⟨hquiet, rfl⟩
  · exact ⟨w', _, halone, .refl _, rfl⟩

/-- A preload is a caller by itself between two lines of the log, and a verdict on where it stopped. -/
theorem of_preload_lines {valueSize every : Nat} {r : Except Stop PreloadReport}
    (h : harness.preload target keys valueSize every w = some (w', r)) :
    ∃ (v : World) (r₀ : Except Stop Preload),
      harness.alone target (Preload.job keys valueSize every)
        (fun p => p.reports.reverse.map (·.toLog)) (w.say (keys.preloading valueSize))
        = some (v, r₀) ∧ w' = v.sayAll (Preload.closing keys r₀) ∧
      r = r₀ >>= Preload.verdict keys := by
  replace h := Run.of_change h
  obtain ⟨v, p, halone, h⟩ | ⟨e, halone, rfl⟩ := Run.of_bind h
  · refine ⟨v, _, halone, ?_⟩
    show w' = v.sayAll (Preload.closing keys (.ok p)) ∧ r = p.verdict keys
    cases hfault : p.fault with
    | some cause =>
      rw [hfault] at h
      simp only [Preload.verdict, Preload.closing, hfault]
      exact Run.of_fault h
    | none =>
      rw [hfault] at h
      cases hloaded : p.loaded == keys.size with
      | true | false =>
        simp only [hloaded] at h
        replace h := Run.of_change h
        simp only [Preload.verdict, Preload.closing, hfault, hloaded]
        exact Run.of_pure h
  · exact ⟨w', _, halone, rfl, rfl⟩

theorem of_preload {valueSize every : Nat} {r : Except Stop PreloadReport}
    (h : harness.preload target keys valueSize every w = some (w', r)) :
    ∃ (before v : World) (r₀ : Except Stop Preload), w.Quiet before ∧
      harness.alone target (Preload.job keys valueSize every)
        (fun p => p.reports.reverse.map (·.toLog)) before = some (v, r₀) ∧ v.Quiet w' ∧
      r = r₀ >>= Preload.verdict keys := by
  obtain ⟨v, r₀, halone, rfl, hr⟩ := of_preload_lines h
  exact ⟨_, v, r₀, .say w _, halone, .sayAll v _, hr⟩

/-- What the callers of a warm-up counted is added up, whatever became of them. -/
theorem settle_quiet (harness : Harness Option) (target : Target) (callers : List (Caller Traffic))
    (w : World) : ∃ w', w.Quiet w' ∧ warmup.settle harness target callers w
      = some (w', .ok (Number.total (callers.map Caller.counted))) := by
  induction callers generalizing w with
  | nil => exact ⟨w, .refl w, rfl⟩
  | cons c rest ih =>
    have hsay := World.Quiet.sayOf w c.number (c.dialLog target harness.policy.tries)
    obtain ⟨w', hquiet, heq⟩ := ih (w.sayOf c.number (c.dialLog target harness.policy.tries))
    have hnothing : c.counted = 0 → Number.total ((c :: rest).map Caller.counted)
        = Number.total (rest.map Caller.counted) := by
      intro hzero
      rw [List.map_cons, Number.total, hzero, Nat.zero_add]
    unfold warmup.settle
    cases hstage : c.stage with
    | fresh | attempting | resting | settled | talking =>
      rw [hnothing (by rw [Caller.counted, hstage])]
      exact ⟨w', hsay.trans hquiet, heq⟩
    | ended how =>
      cases how with
      | served t =>
        have hcounted : c.counted = t.result.ops := by rw [Caller.counted, hstage]
        rw [List.map_cons, Number.total, hcounted]
        exact ⟨w', hsay.trans hquiet, Run.bind_of_ok heq⟩
      | unserved =>
        rw [hnothing (by rw [Caller.counted, hstage])]
        exact ⟨w', hsay.trans hquiet, heq⟩
      | died =>
        obtain ⟨w', hquiet, heq⟩ :=
          ih ((w.sayOf c.number (c.dialLog target harness.policy.tries)).say
            { level := .warn, message := "warm-up worker failed", fields := [] })
        rw [hnothing (by rw [Caller.counted, hstage])]
        exact ⟨w', hsay.trans ((World.Quiet.say _ _).trans hquiet), heq⟩

/-- A warm-up has its callers and comes to a number, unless the clock cannot show its end. -/
theorem of_warmup {duration : Duration} {r : Except Stop Nat}
    (h : harness.warmup target keys duration w = some (w', r)) :
    (w.canShow duration = false ∧ r = .error .died ∧ w.Quiet w') ∨
    (w.canShow duration = true ∧ ∃ (before v : World) (crew : Crew Traffic),
      w.Quiet before ∧ harness.perform before (.atOpenGate before
        (Traffic.job keys .get duration (warmupSeed + ·)) warmupClients) = some (v, crew) ∧
      v.Quiet w' ∧ r = .ok (Number.total (crew.callers.map Caller.counted))) := by
  obtain ⟨before, hsay, h⟩ := Run.of_say h
  replace h := Run.of_look h
  rw [← hsay.canShow]
  cases hshow : before.canShow duration with
  | false =>
    rw [hshow] at h
    obtain ⟨rfl, rfl⟩ := Run.of_die h
    exact .inl ⟨rfl, rfl, hsay⟩
  | true =>
    rw [hshow] at h
    obtain ⟨v, crew, hrun, h⟩ := Run.of_crew h
    obtain ⟨u, hquiet, hsettle⟩ := settle_quiet harness target crew.callers v
    rw [Run.bind_of_ok hsettle] at h
    obtain ⟨u', hsay', h⟩ := Run.of_say h
    obtain ⟨rfl, rfl⟩ := Run.of_pure h
    exact .inr ⟨rfl, before, v, crew, hsay, hrun, hquiet.trans hsay', rfl⟩

/-! ### What a phase leaves stored -/

theorem probe_numbered (hf : harness.Follows scene) (hn : w.Numbered) {r : Except Stop Unit}
    (h : harness.probe target w = some (w', r)) : w'.Numbered := by
  obtain ⟨v, r₀, halone, hquiet', -⟩ := of_probe h
  obtain ⟨u, crew, hrun, hquiet, -⟩ := of_alone halone
  have hs := Crew.atOpenGate_starts w (Questions.job [.ping]) 1
  exact (hquiet.trans hquiet').numbered ((hf hs hrun).1.numbered hs hn)

/-- A preload that is complete has stored all keys. -/
theorem preload_stored (hf : harness.Follows scene) (hn : w.Numbered) {valueSize every : Nat}
    {report : PreloadReport}
    (h : harness.preload target keys valueSize every w = some (w', .ok report))
    (hcomplete : report.complete = true) :
    w'.Numbered ∧ ∀ key ∈ keys.keys, ∃ x, stored key w'.history = some x ∧ x.size = valueSize := by
  obtain ⟨before, v, r₀, hsay, halone, hquiet', hr⟩ := of_preload h
  obtain ⟨u, crew, hrun, hquiet, hserved⟩ := of_alone halone
  have hs := Crew.atOpenGate_starts before (Preload.job keys valueSize every) 1
  have hreach := (hf hs hrun).1
  have hn₁ := hsay.numbered hn
  have hfinal := hquiet.trans hquiet'
  refine ⟨hfinal.numbered (hreach.numbered hs hn₁), ?_⟩
  cases r₀ with
  | error e => simp [bind, Except.bind] at hr
  | ok p =>
    obtain ⟨c, hc, hp⟩ := hserved p rfl
    obtain ⟨hfault, rfl⟩ := Preload.of_verdict_ok hr.symm
    intro key hkey
    rw [hfinal.history]
    exact hreach.stored_of_preload hn₁ hc hp hfault (by simpa using hcomplete) hkey

/-- A warm-up writes nothing. -/
theorem warmup_stored (hf : harness.Follows scene) (hn : w.Numbered) {duration : Duration}
    {ops : Nat} (h : harness.warmup target keys duration w = some (w', .ok ops)) :
    w'.Numbered ∧ ∀ key, stored key w'.history = stored key w.history := by
  obtain ⟨-, hr, -⟩ | ⟨-, before, v, crew, hsay, hrun, hquiet, -⟩ := of_warmup h
  · simp at hr
  · have hs := Crew.atOpenGate_starts before (Traffic.job keys .get duration (warmupSeed + ·))
      warmupClients
    have hreach := (hf hs hrun).1
    have hn₁ := hsay.numbered hn
    have hreads : (Traffic.job keys .get duration (warmupSeed + ·)).Sends Request.Reads := by
      intro script i opened start t ts s s' token r hcourse hask
      obtain ⟨key, -, rfl⟩ := Traffic.job_sends _ _ _ _ hcourse hask
      simp [Request.Reads]
    refine ⟨hquiet.numbered (hreach.numbered hs hn₁), ?_⟩
    intro key
    rw [hquiet.history, hreach.history_eq hs,
      hreach.stored_of_reads hs hn₁ hreads key (List.suffix_refl _), hsay.history]

theorem load_stored (hf : harness.Follows scene) (hn : w.Numbered)
    (hload : plan.skipPreload = false) (hsizes : plan.matrix.valueSizes ≠ [])
    (h : harness.load plan keys w = some (w', .ok true)) :
    w'.Numbered ∧ ∀ key ∈ keys.keys, ∃ x, stored key w'.history = some x ∧
      plan.matrix.maxValueSize = some x.size := by
  unfold load at h
  rw [hload] at h
  cases hmax : plan.matrix.maxValueSize with
  | none => exact absurd (List.max?_eq_none_iff.mp hmax) hsizes
  | some valueSize =>
    rw [hmax] at h
    obtain ⟨v, report, hpreload, h⟩ := Run.ok_of_bind h
    obtain ⟨rfl, hr⟩ := Run.of_pure h
    obtain ⟨hnumbered, hstored⟩ := preload_stored hf hn hpreload (Except.ok.inj hr).symm
    refine ⟨hnumbered, ?_⟩
    intro key hkey
    obtain ⟨x, hx, hsize⟩ := hstored key hkey
    exact ⟨x, hx, by rw [hsize]⟩

/-- How a plan gets through its preparation: the keys are there and the server answers, and the run
goes on if the keys are loaded while the token is unset. -/
theorem of_prepare {keys? : Option KeySpace}
    (h : harness.prepare plan w = some (w', .ok keys?)) :
    plan.validate = .ok () ∧ ∃ keys w₁ w₂ w₃ loaded,
      KeySpace.build plan.keyCount plan.keyMode = .ok keys ∧ w.Quiet w₁ ∧
      harness.probe plan.target w₁ = some (w₂, .ok ()) ∧
      harness.load plan keys w₂ = some (w₃, .ok loaded) ∧
      ((keys? = none ∧ w' = w₃ ∧ (loaded = false ∨ w₃.token = true)) ∨
        (keys? = some keys ∧ loaded = true ∧ w₃.token = false ∧ (w' = w₃ ∨
          ∃ ops, harness.warmup plan.target keys plan.warmup w₃ = some (w', .ok ops)))) := by
  unfold prepare at h
  cases hvalid : plan.validate with
  | error cause => simp [hvalid, Run.fault] at h
  | ok =>
    rw [hvalid] at h
    cases hkeys : KeySpace.build plan.keyCount plan.keyMode with
    | error cause => simp [hkeys, Run.fault] at h
    | ok keys =>
      rw [hkeys] at h
      obtain ⟨w₁, hsay, h⟩ := Run.of_say h
      obtain ⟨w₂, _, hprobe, h⟩ := Run.ok_of_bind h
      obtain ⟨w₃, loaded, hload, h⟩ := Run.ok_of_bind h
      refine ⟨rfl, keys, w₁, w₂, w₃, loaded, rfl, hsay, hprobe, hload, ?_⟩
      cases loaded with
      | false =>
        obtain ⟨rfl, hr⟩ := Run.of_pure h
        exact .inl ⟨Except.ok.inj hr, rfl, .inl rfl⟩
      | true =>
        replace h := Run.of_look h
        cases hset : w₃.token with
        | true =>
          rw [hset] at h
          obtain ⟨rfl, hr⟩ := Run.of_pure h
          exact .inl ⟨Except.ok.inj hr, rfl, .inr rfl⟩
        | false =>
          rw [hset] at h
          cases hwarm : plan.warmup.isZero with
          | true =>
            rw [hwarm] at h
            obtain ⟨rfl, hr⟩ := Run.of_pure h
            exact .inr ⟨Except.ok.inj hr, rfl, rfl, .inl rfl⟩
          | false =>
            rw [hwarm] at h
            obtain ⟨w₄, ops, hwarmup, h⟩ := Run.ok_of_bind h
            obtain ⟨rfl, hr⟩ := Run.of_pure h
            exact .inr ⟨Except.ok.inj hr, rfl, rfl, .inr ⟨ops, hwarmup⟩⟩

/-- The keys of a plan that is ready for its sweep are stored with the largest value size. -/
theorem prepare_stored (hf : harness.Follows scene) (hn : w.Numbered)
    (hskip : plan.skipPreload = false) (h : harness.prepare plan w = some (w', .ok (some keys))) :
    w'.Numbered ∧ ∀ key ∈ keys.keys, ∃ x, stored key w'.history = some x ∧
      plan.matrix.maxValueSize = some x.size := by
  obtain ⟨hvalid, _, w₁, w₂, w₃, _, -, hsay, hprobe, hload, hcases⟩ := of_prepare h
  obtain ⟨hnone, -⟩ | ⟨hkeys, rfl, -, hlast⟩ := hcases
  · simp at hnone
  obtain rfl := Option.some.inj hkeys
  have hn₂ : w₂.Numbered := probe_numbered hf (hsay.numbered hn) hprobe
  obtain ⟨hn₃, hstored⟩ := load_stored hf hn₂ hskip (Plan.valueSizes_ne_nil hvalid) hload
  obtain rfl | ⟨ops, hwarmup⟩ := hlast
  · exact ⟨hn₃, hstored⟩
  · -- the warm-up comes after the load, but it only reads
    obtain ⟨hn', hsame⟩ := warmup_stored hf hn₃ hwarmup
    refine ⟨hn', ?_⟩
    intro key hkey
    rw [hsame]
    exact hstored key hkey

end Harness

/-! ## The sweep -/

namespace Visit

variable {scene : Scene} {v : Visit} {key : String} {x : Write}

/-- One of the workers of the visit sent this write of a key. -/
def Sent (v : Visit) (key : String) (x : Write) : Prop :=
  ∃ t fill, ⟨t, .asked x.caller (.set key x.size fill)⟩ ∈ v.after.since v.before

/-- Only a cell that writes does this, and what it writes is of its size. -/
theorem Sent.size_eq (h : v.Sent key x)
    (hr : Crew.Reaches scene v.before v.cell.crew v.after v.crew) :
    v.cell.operation = .set ∧ x.size = v.cell.valueSize := by
  obtain ⟨t, fill, hmem⟩ := h
  obtain hreads | ⟨hset, key', -, heq⟩ :=
    hr.sends (v.cell.crew_starts v.before) v.cell.job_sends hmem
  · exact absurd rfl (hreads key x.size fill)
  · exact ⟨hset, (Request.set.inj heq).2.1⟩

/-- After a visit a key is stored as before, or as one of the workers wrote it. -/
theorem stored_cases (hr : Crew.Reaches scene v.before v.cell.crew v.after v.crew)
    (hn : v.before.Numbered) (key : String) :
    stored key v.after.history = stored key v.before.history ∨
      ∃ x, stored key v.after.history = some x ∧ v.Sent key x := by
  have hs := v.cell.crew_starts v.before
  rw [hr.history_eq hs, hr.stored_append hs hn key (List.suffix_refl _)]
  cases hx : stored key (v.after.since v.before) with
  | none => exact .inl rfl
  | some x => exact .inr ⟨x, rfl, mem_of_stored hx⟩

end Visit

namespace Sweep

variable {harness : Harness Option} {scene : Scene} {w w' : World} {cells : List Cell}
  {visits : List Visit} {r : Except Stop (List Row)}

/-- After a sweep a key is stored as before, or as a worker of one of the visits wrote it. -/
theorem stored_cases (hf : harness.Follows scene) (h : Sweep harness w cells visits w' r)
    (hn : w.Numbered) :
    w'.Numbered ∧ ∀ key, stored key w'.history = stored key w.history ∨
      ∃ x, stored key w'.history = some x ∧ ∃ v ∈ visits, v.Sent key x := by
  -- one visit, from the world before its first log entry to the one after its last
  have hvisit : ∀ {u before after u' : World} {cell : Cell} {crew : Crew Traffic}, u.Numbered →
      u.Quiet before → harness.perform before cell.crew = some (after, crew) → after.Quiet u' →
      u'.Numbered ∧ ∀ key, stored key u'.history = stored key u.history ∨
        ∃ x, stored key u'.history = some x ∧ Visit.Sent ⟨cell, before, after, crew⟩ key x := by
    intro u before after u' cell crew hn hstart hrun hdone
    have hs := cell.crew_starts before
    have hr := (hf hs hrun).1
    have hbefore := hstart.numbered hn
    refine ⟨hdone.numbered (hr.numbered hs hbefore), ?_⟩
    intro key
    rw [hdone.history, ← hstart.history]
    exact Visit.stored_cases (v := ⟨cell, before, after, crew⟩) hr hbefore key
  induction h with
  | finished => exact ⟨hn, fun key => .inl rfl⟩
  | interrupted _ done => exact ⟨done.numbered hn, fun key => .inl (by rw [done.history])⟩
  | failed _ start run _ done | dropped _ start run _ _ done =>
    obtain ⟨hn', hcases⟩ := hvisit hn start run done
    exact ⟨hn', fun key => (hcases key).imp_right fun ⟨x, hx, hsent⟩ =>
      ⟨x, hx, _, List.mem_cons_self, hsent⟩⟩
  | kept _ start run _ _ done _ ih =>
    obtain ⟨hn', hcases⟩ := hvisit hn start run done
    obtain ⟨hn'', hrest⟩ := ih hn'
    refine ⟨hn'', ?_⟩
    intro key
    obtain heq | ⟨x, hx, v, hv, hsent⟩ := hrest key
    · rw [heq]
      exact (hcases key).imp_right fun ⟨x, hx, hsent⟩ => ⟨x, hx, _, List.mem_cons_self, hsent⟩
    · exact .inr ⟨x, hx, v, List.mem_cons_of_mem _ hv, hsent⟩

/-- Before each of its visits a sweep is one over the cells before. -/
theorem upTo (h : Sweep harness w cells visits w' r) {j : Nat} {v : Visit}
    (hv : visits[j]? = some v) :
    ∃ done rows, Sweep harness w (cells.take j) (visits.take j) done (.ok rows) ∧
      cells[j]? = some v.cell ∧ done.token = false ∧ done.Quiet v.before := by
  induction h generalizing j with
  | finished | interrupted => simp at hv
  | failed unset start | dropped unset start =>
    cases j with
    | succ j => simp at hv
    | zero =>
      obtain rfl := Option.some.inj hv
      exact ⟨_, _, .finished, rfl, unset, start⟩
  | kept unset start run verdict clear done _ ih =>
    cases j with
    | zero =>
      obtain rfl := Option.some.inj hv
      exact ⟨_, _, .finished, rfl, unset, start⟩
    | succ j =>
      obtain ⟨u, rows, hsweep, hcell, hunset, hquiet⟩ := ih hv
      exact ⟨u, _, .kept unset start run verdict clear done hsweep, hcell, hunset, hquiet⟩

end Sweep

namespace Harness

/-- A plan begun in `w₀` has come to a cell, whose workers start in `before`, and these are the
visits of all cells that come first. -/
inductive Comes (harness : Harness Option) (plan : Plan) (w₀ : World) :
    List Visit → Cell → World → Prop
  | cell {keys : KeySpace} {ready done before : World} {visits : List Visit} {rows : List Row}
    {cell : Cell} (prepared : harness.prepare plan w₀ = some (ready, .ok (some keys)))
    (swept : Sweep harness ready ((plan.matrix.cells plan.target keys).take visits.length) visits
      done (.ok rows))
    (next : (plan.matrix.cells plan.target keys)[visits.length]? = some cell)
    (unset : done.token = false) (start : done.Quiet before) :
    Comes harness plan w₀ visits cell before

variable {harness : Harness Option} {scene : Scene} {plan : Plan} {w₀ w w' before : World}
  {visits : List Visit} {cell : Cell}

/-- A plan that gives a result has come to each of the cells that it visited. -/
theorem comes_of_session {r : Except Stop (List Row)}
    (h : harness.session plan w₀ = some (w', r)) :
    (∃ e, r = .error e ∧ harness.prepare plan w₀ = some (w', .error e)) ∨
    (r = .ok [] ∧ harness.prepare plan w₀ = some (w', .ok none)) ∨
    ∃ (keys : KeySpace) (ready : World) (visits : List Visit),
      harness.prepare plan w₀ = some (ready, .ok (some keys)) ∧
      Sweep harness ready (plan.matrix.cells plan.target keys) visits w' r ∧
      ∀ (j : Nat) (v : Visit), visits[j]? = some v →
        harness.Comes plan w₀ (visits.take j) v.cell v.before := by
  rw [session_eq] at h
  obtain ⟨ready, keys?, hprepare, h⟩ | ⟨e, hprepare, rfl⟩ := Run.of_bind h
  · cases keys? with
    | none =>
      obtain ⟨rfl, rfl⟩ := Run.of_pure h
      exact .inr (.inl ⟨rfl, hprepare⟩)
    | some keys =>
      obtain ⟨visits, hsweep⟩ := sweepFrom_sweep h
      refine .inr (.inr ⟨keys, ready, visits, hprepare, hsweep, ?_⟩)
      intro j v hv
      obtain ⟨done, rows, hupTo, hcell, hunset, hquiet⟩ := hsweep.upTo hv
      have hlen : (visits.take j).length = j := by
        obtain ⟨hlt, -⟩ := List.getElem?_eq_some_iff.mp hv
        rw [List.length_take]
        omega
      exact .cell hprepare (by rwa [hlen]) (by rwa [hlen]) hunset hquiet
  · exact .inl ⟨e, rfl, hprepare⟩

/-- A plan has come to the cell after the first `j`, when the sweep of those has kept all rows. -/
theorem comes_of_sweepFrom {keys : KeySpace} {ready done : World} {total j : Nat} {rows : List Row}
    (hprepare : harness.prepare plan w₀ = some (ready, .ok (some keys)))
    (h : harness.sweepFrom total 0 ((plan.matrix.cells plan.target keys).take j) ready
      = some (done, .ok rows)) (hrows : rows.length = j) (hunset : done.token = false)
    (hcell : (plan.matrix.cells plan.target keys)[j]? = some cell) :
    ∃ visits, harness.Comes plan w₀ visits cell done := by
  obtain ⟨visits, hsweep⟩ := sweepFrom_sweep h
  have hlen : visits.length = j := by
    refine Nat.le_antisymm ?_ (hrows ▸ hsweep.length_rows)
    have := hsweep.order.length_le
    rw [List.length_map, List.length_take] at this
    omega
  exact ⟨visits, .cell hprepare (by rwa [hlen]) (by rwa [hlen]) hunset (.refl done)⟩

/-- Every request of a cell that reads finds a value that was loaded, or one that a worker of an
earlier cell wrote. -/
theorem Comes.stored (h : harness.Comes plan w₀ visits cell before) (hf : harness.Follows scene)
    (hn : w₀.Numbered) (hload : plan.skipPreload = false) (hget : cell.operation = .get)
    {crew : Crew Traffic} (hr : Crew.Reaches scene before cell.crew w crew) {t k : Nat}
    {key : String} {older : List Entry}
    (hasked : ⟨t, .asked k (.get key)⟩ :: older <:+ w.since before) :
    ∃ x, stored key (older ++ before.history) = some x ∧
      (plan.matrix.maxValueSize = some x.size ∨ ∃ v ∈ visits, v.Sent key x) := by
  cases h with
  | cell prepared swept next unset start =>
    obtain ⟨hn₁, hready⟩ := prepare_stored hf hn hload prepared
    obtain ⟨hn₂, hcases⟩ := swept.stored_cases hf hn₁
    have hs := cell.crew_starts before
    have hkey : key ∈ cell.keys.keys := by
      obtain ⟨key', hmem, heq⟩ := hr.sends hs (Traffic.job_sends _ _ _ _)
        (hasked.subset List.mem_cons_self)
      unfold Cell.request at heq
      rw [hget] at heq
      exact Request.get.inj heq ▸ hmem
    have hreads : cell.job.Sends Request.Reads := by
      intro script i opened start t ts s s' token r hcourse hask
      obtain hreads | ⟨hset, -⟩ := cell.job_sends hcourse hask
      · exact hreads
      · simp [hget] at hset
    rw [hr.stored_of_reads hs (start.numbered hn₂) hreads key
      ((List.suffix_cons _ _).trans hasked), start.history]
    obtain heq | ⟨x, hx, hsent⟩ := hcases key
    · rw [(Matrix.mem_cells (List.mem_of_getElem? next)).1] at hkey
      obtain ⟨x, hx, hmax⟩ := hready key hkey
      exact ⟨x, heq.trans hx, .inl hmax⟩
    · exact ⟨x, hx, .inr hsent⟩

theorem Comes.le_max (h : harness.Comes plan w₀ visits cell before) {size : Nat}
    (hmax : plan.matrix.maxValueSize = some size) : cell.valueSize ≤ size := by
  cases h with
  | cell _ _ next =>
    obtain ⟨-, hmem, -⟩ := Matrix.mem_cells (List.mem_of_getElem? next)
    exact (List.max?_eq_some_iff.mp hmax).2 _ hmem

theorem Comes.size_eq (h : harness.Comes plan w₀ visits cell before) (hf : harness.Follows scene)
    {v : Visit} (hv : v ∈ visits) {key : String} {x : Write} (hsent : v.Sent key x) :
    v.cell.operation = .set ∧ x.size = v.cell.valueSize := by
  cases h with
  | cell _ swept => exact hsent.size_eq (swept.joined hf hv).1

/-- The visits are those of the cells before this one, in the order of the plan. -/
theorem Comes.order (h : harness.Comes plan w₀ visits cell before) :
    ∃ keys rest, plan.matrix.cells plan.target keys
      = visits.map Visit.cell ++ cell :: rest := by
  cases h with
  | @cell keys _ _ _ _ _ _ _ swept next =>
    obtain ⟨hlt, hcell⟩ := List.getElem?_eq_some_iff.mp next
    have hvisited : visits.map Visit.cell
        = (plan.matrix.cells plan.target keys).take visits.length := by
      refine swept.order.eq_of_length ?_
      rw [List.length_map, List.length_take]
      omega
    refine ⟨keys, (plan.matrix.cells plan.target keys).drop (visits.length + 1), ?_⟩
    rw [hvisited, ← hcell, ← List.drop_eq_getElem_cons hlt, List.take_append_drop]

/-- **What a cell reads is at least as large as the cell**, unless it was written by an earlier cell
that is smaller. -/
theorem reads_stored (hf : harness.Follows scene) (hload : plan.skipPreload = false)
    {alarm : Option Duration} (h : harness.Comes plan (.start alarm) visits cell before)
    (hget : cell.operation = .get) {crew : Crew Traffic}
    (hr : Crew.Reaches scene before cell.crew w crew) {t k : Nat} {key : String}
    {older : List Entry} (hasked : ⟨t, .asked k (.get key)⟩ :: older <:+ w.since before) :
    ∃ x, stored key (older ++ before.history) = some x ∧
      (plan.matrix.maxValueSize = some x.size ∨ ∃ v ∈ visits, v.Sent key x) ∧
      (∀ v ∈ visits, v.Sent key x → v.cell.operation = .set ∧ x.size = v.cell.valueSize) ∧
      (cell.valueSize ≤ x.size ↔
        ¬ ∃ v ∈ visits, v.Sent key x ∧ v.cell.valueSize < cell.valueSize) ∧
      ((∀ v ∈ visits, v.cell.operation = .set → cell.valueSize ≤ v.cell.valueSize) →
        cell.valueSize ≤ x.size) := by
  obtain ⟨x, hx, hsource⟩ := h.stored hf (by simp [World.Numbered, World.start]) hload hget hr hasked
  have hsize : ∀ v ∈ visits, v.Sent key x → v.cell.operation = .set ∧ x.size = v.cell.valueSize :=
    fun v hv hsent => h.size_eq hf hv hsent
  have hiff : cell.valueSize ≤ x.size ↔
      ¬ ∃ v ∈ visits, v.Sent key x ∧ v.cell.valueSize < cell.valueSize := by
    constructor
    · rintro hle ⟨v, hv, hsent, hlt⟩
      have := (hsize v hv hsent).2
      omega
    · intro hnone
      obtain hmax | ⟨v, hv, hsent⟩ := hsource
      · exact h.le_max hmax
      · rw [(hsize v hv hsent).2]
        exact Nat.le_of_not_lt fun hlt => hnone ⟨v, hv, hsent, hlt⟩
  refine ⟨x, hx, hsource, hsize, hiff, fun hall => hiff.mpr ?_⟩
  rintro ⟨v, hv, hsent, hlt⟩
  exact Nat.not_le_of_lt hlt (hall v hv (hsize v hv hsent).1)

/-- In a plan that lists its value sizes from the largest to the smallest, or that writes in no
cell, every cell reads values of its size at least. -/
theorem reads_enough (hf : harness.Follows scene) (hload : plan.skipPreload = false)
    (hplan : plan.matrix.valueSizes.Pairwise (· ≥ ·) ∨ .set ∉ plan.matrix.operations)
    {alarm : Option Duration} (h : harness.Comes plan (.start alarm) visits cell before)
    (hget : cell.operation = .get) {crew : Crew Traffic}
    (hr : Crew.Reaches scene before cell.crew w crew) {t k : Nat} {key : String}
    {older : List Entry} (hasked : ⟨t, .asked k (.get key)⟩ :: older <:+ w.since before) :
    ∃ x, stored key (older ++ before.history) = some x ∧ cell.valueSize ≤ x.size := by
  obtain ⟨x, hx, hmax | ⟨v, hv, hsent⟩⟩ :=
    h.stored hf (by simp [World.Numbered, World.start]) hload hget hr hasked
  · exact ⟨x, hx, h.le_max hmax⟩
  · obtain ⟨hset, hsize⟩ := h.size_eq hf hv hsent
    obtain ⟨keys, rest, hcells⟩ := h.order
    obtain hsizes | hnone := hplan
    · have hpair := Matrix.pairwise_cells plan.target keys hsizes
      rw [hcells] at hpair
      have hle := (List.pairwise_append.mp hpair).2.2 v.cell (List.mem_map_of_mem hv) cell
        List.mem_cons_self
      exact ⟨x, hx, hsize ▸ hle⟩
    · have hmem : v.cell ∈ plan.matrix.cells plan.target keys :=
        hcells ▸ List.mem_append_left _ (List.mem_map_of_mem hv)
      exact absurd (hset ▸ (Matrix.mem_cells hmem).2.2) hnone

end Harness

/-! ## A small write before a large read

One key, and the sizes from the smaller to the larger: the second cell writes 64 characters, and
the third one, which stands for 256, reads them. The server does everything right. -/

namespace Sample

def plan : Plan :=
  { target, keyCount := 1, keyMode := .sequential, matrix, warmup := ⟨0⟩, skipPreload := false
    reportInterval := 1 }

theorem ok_of_toOption {ε α : Type} {x : Except ε α} {a : α} (h : x.toOption = some a) :
    x = .ok a := by
  cases x with
  | error => simp [Except.toOption] at h
  | ok => exact congrArg _ (Option.some.inj h)

/-- The third cell of the plan makes its first request. -/
theorem third_cell_reads : ∃ (visits : List Visit) (cell : Cell) (before w : World)
    (crew : Crew Traffic) (older : List Entry),
    (steady.harness 100).Comes plan (.start none) visits cell before ∧ cell.operation = .get ∧
    cell.valueSize = 256 ∧ Crew.Reaches steady before cell.crew w crew ∧
    ⟨5000000, .asked 4 (.get "key:1")⟩ :: older <:+ w.since before ∧
    stored "key:1" (older ++ before.history) = some ⟨3, 64⟩ := by
  have hrun : (do
      let (ready, r) ← (steady.harness 100).prepare plan (.start none)
      let keys? ← r.toOption
      let keys ← keys?
      let (before, r) ← (steady.harness 100).sweepFrom 4 0 ((matrix.cells target keys).take 2) ready
      let rows ← r.toOption
      let cell ← (matrix.cells target keys)[2]?
      let (w, _) ← cell.crew.run steady 100 before
      some (decide (rows.length = 2 ∧ before.token = false ∧ cell.operation = .get ∧
        cell.valueSize = 256 ∧
        (w.since before)[3]? = some ⟨5000000, .asked 4 (.get "key:1")⟩ ∧
        stored "key:1" ((w.since before).drop 4 ++ before.history) = some ⟨3, 64⟩)))
      = some true := by
    decide +kernel
  -- each bind of the evaluation is one phase that the plan went through
  obtain ⟨⟨ready, r⟩, hprepare, hrun⟩ := Option.bind_eq_some_iff.mp hrun
  obtain ⟨keys?, hkeys?, hrun⟩ := Option.bind_eq_some_iff.mp hrun
  obtain ⟨keys, hkeys, hrun⟩ := Option.bind_eq_some_iff.mp hrun
  obtain ⟨⟨before, r'⟩, hsweep, hrun⟩ := Option.bind_eq_some_iff.mp hrun
  obtain ⟨rows, hrows, hrun⟩ := Option.bind_eq_some_iff.mp hrun
  obtain ⟨cell, hcell, hrun⟩ := Option.bind_eq_some_iff.mp hrun
  obtain ⟨⟨w, crew⟩, hcrew, hrun⟩ := Option.bind_eq_some_iff.mp hrun
  obtain ⟨hlength, hunset, hget, hsize, hasked, hstored⟩ := of_decide_eq_true (Option.some.inj hrun)
  obtain rfl : r = .ok (some keys) := ok_of_toOption (hkeys? ▸ congrArg some hkeys)
  obtain rfl : r' = .ok rows := ok_of_toOption hrows
  obtain ⟨visits, hcomes⟩ :=
    Harness.comes_of_sweepFrom hprepare hsweep hlength hunset hcell
  have hreach := (Crew.run_reaches (cell.crew_starts before) .start hcrew).1
  refine ⟨visits, cell, before, w, crew, (w.since before).drop 4, hcomes, hget, hsize, hreach, ?_,
    hstored⟩
  obtain ⟨hlt, heq⟩ := List.getElem?_eq_some_iff.mp hasked
  rw [← heq, ← List.drop_eq_getElem_cons hlt]
  exact List.drop_suffix 3 _

end Sample

namespace Harness

/-- The read of the third cell has its account: what it finds was written by the second one. -/
theorem reads_stored_sample : ∃ (visits : List Visit) (cell : Cell) (before w : World)
    (crew : Crew Traffic) (older : List Entry),
    (Sample.steady.harness 100).Comes Sample.plan (.start none) visits cell before ∧
    cell.operation = .get ∧ Crew.Reaches Sample.steady before cell.crew w crew ∧
    ⟨5000000, .asked 4 (.get "key:1")⟩ :: older <:+ w.since before ∧
    stored "key:1" (older ++ before.history) = some ⟨3, 64⟩ ∧
    ∃ v ∈ visits, v.Sent "key:1" ⟨3, 64⟩ ∧ v.cell.valueSize < cell.valueSize := by
  obtain ⟨visits, cell, before, w, crew, older, hcomes, hget, hsize, hreach, hasked, hstored⟩ :=
    Sample.third_cell_reads
  obtain ⟨x, hx, -, -, hiff, -⟩ := reads_stored (Sample.steady.harness_follows 100) rfl hcomes hget
    hreach hasked
  obtain rfl := Option.some.inj (hstored.symm.trans hx)
  refine ⟨visits, cell, before, w, crew, older, hcomes, hget, hreach, hasked, hstored, ?_⟩
  exact Classical.not_not.mp fun hnone => absurd (hiff.mpr hnone) (by rw [hsize]; decide)

/-- **Not every cell reads values of its size**: the plan is valid, loads its keys, and meets a
server that answers every attempt and every request with success. -/
theorem reads_smaller :
    (Sample.plan.validate = .ok () ∧ Sample.plan.skipPreload = false ∧
      ∀ k, Sample.steady.script k = .plain) ∧
    ¬ ∀ (visits : List Visit) (cell : Cell) (before w : World) (crew : Crew Traffic)
      (t k : Nat) (key : String) (older : List Entry),
      (Sample.steady.harness 100).Comes Sample.plan (.start none) visits cell before →
      cell.operation = .get → Crew.Reaches Sample.steady before cell.crew w crew →
      ⟨t, .asked k (.get key)⟩ :: older <:+ w.since before →
      ∃ x, stored key (older ++ before.history) = some x ∧ cell.valueSize ≤ x.size := by
  refine ⟨⟨rfl, rfl, fun k => rfl⟩, ?_⟩
  intro hclaim
  obtain ⟨visits, cell, before, w, crew, older, hcomes, hget, hsize, hreach, hasked, hstored⟩ :=
    Sample.third_cell_reads
  obtain ⟨x, hx, hle⟩ :=
    hclaim visits cell before w crew _ _ _ older hcomes hget hreach hasked
  obtain rfl := Option.some.inj (hstored.symm.trans hx)
  rw [hsize] at hle
  exact absurd hle (by decide)

end Harness

end LoadSweep
