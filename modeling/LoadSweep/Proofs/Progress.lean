import Mathlib.Data.Nat.PSub
import LoadSweep.Proofs.Loading

/-!
# `LoadSweep/Proofs/Progress.lean` — what a preload says while it loads

A report gives the number of keys since the report before it, and that number is worked out from the
number loaded: nobody remembers the last report. That the two agree rests on one equation
(`Preload.Reported.rest`): as long as keys are left, what was loaded since the last report is the
remainder of the number loaded. Every acknowledged write keeps it, whether it calls for a report or not
(`Preload.Reported.advance`).

What holds along a course holds of the caller at every moment (`Crew.Reaches.preload_reported`), so the
reports are those that the acknowledged writes call for. Crews leave the log alone, and so these are
also the reports that a complete preload has logged (`KeySpace.ProgressTold`).
-/

set_option autoImplicit false

namespace LoadSweep

namespace Preload

/-! ## One answer after the other -/

/-- How many keys the last report counts as loaded. Before the first there are none. -/
def covered : List Progress → Nat
  | [] => 0
  | q :: _ => q.loaded

/-- The reports, newest first, when `loaded` of `total` keys are loaded and `every` of them go to a
report. -/
structure Reported (total every loaded : Nat) (reports : List Progress) : Prop where
  le : loaded ≤ total
  /-- There is a report at each multiple of `every` and at the end, as far as the keys are loaded, … -/
  places : ∀ n, n ∈ reports.map (·.loaded) ↔ 0 < n ∧ n ≤ loaded ∧ (every ∣ n ∨ n = total)
  /-- … one at each, and every report counts more keys than those before it. -/
  ascending : (reports.map (·.loaded)).Pairwise (· > ·)
  whole : ∀ q ∈ reports, q.total = total
  /-- The interval is worked out like this, … -/
  formula : ∀ q ∈ reports, q.interval = (q.loaded - 1) % every + 1
  /-- … and it is the number of keys loaded since the report before, or since the start. -/
  interval : ∀ newer q older, reports = newer ++ q :: older → covered older + q.interval = q.loaded
  /-- Since the last report a remainder was loaded; when all is loaded, nothing. -/
  rest : covered reports + (if loaded = total then 0 else loaded % every) = loaded

variable {total every loaded : Nat} {reports : List Progress}

theorem Reported.none : Reported total every 0 [] where
  le := Nat.zero_le total
  places := by
    intro n
    constructor
    · simp
    · rintro ⟨hn, hle, -⟩
      omega
  ascending := .nil
  whole := by simp
  formula := by simp
  interval := by simp
  rest := by simp [covered]

/-- One more key, and it calls for a report. -/
theorem Reported.report (h : Reported total every loaded reports) (hlt : loaded < total)
    (hdue : every ∣ loaded + 1 ∨ loaded + 1 = total) :
    Reported total every (loaded + 1)
      ({ loaded := loaded + 1, total, interval := loaded % every + 1 } :: reports) where
  le := hlt
  places := by
    intro n
    rw [List.map_cons, List.mem_cons, h.places]
    constructor
    · rintro (rfl | ⟨hpos, hle, hplace⟩)
      · exact ⟨Nat.succ_pos _, Nat.le_refl _, hdue⟩
      · exact ⟨hpos, Nat.le_succ_of_le hle, hplace⟩
    · rintro ⟨hpos, hle, hplace⟩
      rcases Nat.le_succ_iff.mp hle with hle | rfl
      · exact .inr ⟨hpos, hle, hplace⟩
      · exact .inl rfl
  ascending := by
    refine List.pairwise_cons.mpr ⟨?_, h.ascending⟩
    intro n hn
    exact Nat.lt_succ_of_le ((h.places n).mp hn).2.1
  whole := List.forall_mem_cons.mpr ⟨rfl, h.whole⟩
  formula := List.forall_mem_cons.mpr ⟨rfl, h.formula⟩
  interval := by
    intro newer q older heq
    cases newer with
    | nil =>
      obtain ⟨rfl, rfl⟩ := List.cons.inj heq
      have hrest := h.rest
      rw [if_neg (Nat.ne_of_lt hlt)] at hrest
      show covered reports + (loaded % every + 1) = loaded + 1
      omega
    | cons x newer => exact h.interval newer q older (List.cons.inj heq).2
  rest := by
    have hzero : (if loaded + 1 = total then 0 else (loaded + 1) % every) = 0 := by
      split
      · rfl
      · exact Nat.mod_eq_zero_of_dvd (hdue.resolve_right ‹_›)
    rw [hzero]
    rfl

/-- One more key, and it calls for none. -/
theorem Reported.pass (h : Reported total every loaded reports) (hlt : loaded < total)
    (hdvd : ¬ every ∣ loaded + 1) (hne : loaded + 1 ≠ total) :
    Reported total every (loaded + 1) reports :=
  { h with
    le := hlt
    places := by
      intro n
      rw [h.places]
      constructor
      · rintro ⟨hpos, hle, hplace⟩
        exact ⟨hpos, Nat.le_succ_of_le hle, hplace⟩
      · rintro ⟨hpos, hle, hplace⟩
        rcases Nat.le_succ_iff.mp hle with hle | rfl
        · exact ⟨hpos, hle, hplace⟩
        · exact absurd hplace (not_or.mpr ⟨hdvd, hne⟩)
    rest := by
      have hrest := h.rest
      have hquotient := Nat.succ_div_of_not_dvd hdvd
      have hbefore := Nat.div_add_mod loaded every
      have hafter := Nat.div_add_mod (loaded + 1) every
      rw [hquotient] at hafter
      rw [if_neg (Nat.ne_of_lt hlt)] at hrest
      rw [if_neg hne]
      omega }

/-- **Every acknowledged write keeps the account of the reports.** -/
theorem Reported.advance {p : Preload} (h : Reported total every p.loaded p.reports)
    (hlt : p.loaded < total) :
    Reported total every (p.advance total every).loaded (p.advance total every).reports := by
  unfold Preload.advance
  dsimp only
  split
  · rename_i hdue
    rw [← Nat.dvd_iff_mod_eq_zero] at hdue
    exact h.report hlt hdue
  · rename_i hnot
    rw [← Nat.dvd_iff_mod_eq_zero, not_or] at hnot
    exact h.pass hlt hnot.1 hnot.2

/-- Intervals that lead from report to report add up to the last one. -/
theorem total_intervals
    (h : ∀ newer q older, reports = newer ++ q :: older → covered older + q.interval = q.loaded) :
    Number.total (reports.map (·.interval)) = covered reports := by
  induction reports with
  | nil => rfl
  | cons q older ih =>
    have hrest := ih fun newer x xs heq => h (q :: newer) x xs (congrArg (q :: ·) heq)
    have hq := h [] q older rfl
    rw [List.map_cons, Number.total, hrest, Nat.add_comm]
    exact hq

/-- When all is loaded the intervals add up to all. -/
theorem Reported.sum (h : Reported total every total reports) :
    Number.total (reports.map (·.interval)) = total := by
  rw [total_intervals h.interval]
  simpa using h.rest

/-! ## Whether the arithmetic is defined -/

/-- The remainder, where there is one. -/
def remainder? (a b : Nat) : Option Nat := if b = 0 then none else some (a % b)

/-- `advance` with partial operations: a difference only where nothing is borrowed, a remainder only
by what is not zero. -/
def advance? (total every : Nat) (p : Preload) : Option Preload := do
  let loaded := p.loaded + 1
  if (← remainder? loaded every) = 0 ∨ loaded = total then
    let before ← loaded.psub 1
    let interval := (← remainder? before every) + 1
    return { p with loaded, reports := { loaded, total, interval } :: p.reports }
  else return { p with loaded }

theorem advance?_eq (hpos : 0 < every) (p : Preload) :
    p.advance? total every = some (p.advance total every) := by
  have hremainder : ∀ a, remainder? a every = some (a % every) := fun a =>
    if_neg (Nat.ne_of_gt hpos)
  have hdifference : (p.loaded + 1).psub 1 = some p.loaded := Nat.psub_eq_some.mpr rfl
  unfold advance? Preload.advance
  simp only [hremainder, hdifference, Option.bind_eq_bind, Option.bind_some, Nat.add_sub_cancel]
  split <;> rfl

/-! ## The course of a preload -/

variable {keys : KeySpace} {valueSize : Nat}

theorem course_reported {script : Script} {i opened start t : Nat} {ts : List Turn} {p : Preload}
    (h : (job keys valueSize every).Course script i opened start ts p t) :
    Reported keys.size (max every 1) p.loaded p.reports := by
  refine h.keeps (P := fun p => Reported keys.size (max every 1) p.loaded p.reports) .none ?_
  intro p p' now token r later outcome hp hask
  obtain ⟨-, rfl, key, hkey, -⟩ := of_send hask
  cases outcome with
  | error fault => exact hp
  | ok value => exact hp.advance (Array.getElem?_eq_some_iff.mp hkey).1

end Preload

/-- **At every moment the number loaded is that of the acknowledged writes, and the reports are those
that it calls for.** -/
theorem Crew.Reaches.preload_reported {keys : KeySpace} {valueSize every : Nat} {scene : Scene}
    {w v : World} {crew : Crew Preload} {c : Caller Preload} {p : Preload}
    (h : Crew.Reaches scene w (.atOpenGate w (Preload.job keys valueSize every) 1) v crew)
    (hc : c ∈ crew.callers) (hp : c.state? = some p) :
    p.loaded = (turns c.who (v.since w)).countP Turn.succeeded ∧
      Preload.Reported keys.size (max every 1) p.loaded p.reports := by
  have hs := Crew.atOpenGate_starts w (Preload.job keys valueSize every) 1
  obtain ⟨i, ha⟩ := (h.faithful hs).agrees_of_mem hc
  obtain ⟨ts, p₀, t, token, ⟨o, -, hcourse⟩, hask, last, hturns, hdies⟩ := ha.came hp
  rw [h.job_eq.1] at hcourse hask
  -- a question leaves the state as it is
  obtain rfl : p = p₀ := by
    obtain hstop | ⟨-, hsame⟩ | ⟨r, hsend⟩ := hask
    · exact Preload.of_stop hstop
    · exact hsame
    · exact (Preload.of_send hsend).2.1
  have hnone : last.countP Turn.succeeded = 0 := by
    rw [List.countP_eq_zero]
    intro x hx
    simp [Turn.succeeded, hdies x hx]
  refine ⟨?_, Preload.course_reported hcourse⟩
  rw [hturns, List.countP_append, hnone, Nat.zero_add]
  exact (Preload.course_tells hcourse).loaded

/-! ## The log -/

theorem Caller.message_of_mem_dialLog {σ : Type} (c : Caller σ) {target : Target} {tries : Nat}
    {e : LogEvent} (h : e ∈ c.dialLog target tries) : e.message = "connect attempt failed" := by
  obtain ⟨i, hi, rfl⟩ := List.mem_mapIdx.mp h
  rfl

/-- What a caller by itself that served has logged: its failed attempts, and then its report. -/
theorem Harness.alone_served {σ : Type} {harness : Harness Option} {scene : Scene} {target : Target}
    {job : Job σ} {report : σ → List LogEvent} {w w' : World} {s : σ} (hf : harness.Follows scene)
    (h : harness.alone target job report w = some (w', .ok s)) :
    ∃ (v : World) (crew : Crew σ) (c : Caller σ),
      Crew.Reaches scene w (.atOpenGate w job 1) v crew ∧ c ∈ crew.callers ∧ c.state? = some s ∧
      w'.log = (report s).reverse ++ ((c.dialLog target harness.policy.tries).reverse ++ w.log) := by
  obtain ⟨v, crew, c, how, hreach, -, hcallers, hend, rfl, hr⟩ := alone_ends_eq hf h
  obtain rfl : how = .served s := how.served_of_result hr.symm
  have hlog := hreach.log_eq (Crew.atOpenGate_starts w job 1)
  refine ⟨v, crew, c, hreach, hcallers ▸ List.mem_singleton_self c, by rw [Caller.state?, hend], ?_⟩
  rw [World.log_sayAll, World.log_sayAll, hlog]
  rfl

/-- What a complete preload that ran from `w` to `w'` has reported, newest first. -/
structure KeySpace.ProgressTold (keys : KeySpace) (valueSize every : Nat) (w w' : World)
    (reports : List Progress) : Prop
    extends Preload.Reported keys.size (max every 1) keys.size reports where
  /-- Together the reports count every key once. -/
  sum : Number.total (reports.map (·.interval)) = keys.size
  /-- The log has these reports and no others. -/
  log : ∃ dialled : List LogEvent, (∀ e ∈ dialled, e.message = "connect attempt failed") ∧
    w'.log = { level := .info, message := "preload complete",
               fields := [("keys", toString keys.size)] } ::
      (reports.map (·.toLog) ++ (dialled ++ keys.preloading valueSize :: w.log))

namespace KeySpace

/-- The end of a complete preload, by a harness that keeps to the scene. -/
theorem progress_told {keys : KeySpace} {scene : Scene} {target : Target} {valueSize every : Nat}
    {w w' : World} {harness : Harness Option} {report : PreloadReport} (hf : harness.Follows scene)
    (h : harness.preload target keys valueSize every w = some (w', .ok report))
    (hcomplete : report.complete = true) :
    ∃ (v : World) (p : Preload),
      harness.alone target (Preload.job keys valueSize every)
        (fun p => p.reports.reverse.map (·.toLog)) (w.say (keys.preloading valueSize))
        = some (v, .ok p) ∧
      keys.ProgressTold valueSize every w w' p.reports := by
  obtain ⟨v, r₀, halone, rfl, hr⟩ := Harness.of_preload_lines h
  cases r₀ with
  | error e => simp [bind, Except.bind] at hr
  | ok p =>
    obtain ⟨hfault, rfl⟩ := Preload.of_verdict_ok hr.symm
    obtain ⟨u, crew, c, hreach, hc, hstate, hlog⟩ := Harness.alone_served hf halone
    obtain ⟨-, hreported⟩ := hreach.preload_reported hc hstate
    have hloaded : p.loaded = keys.size := eq_of_beq hcomplete
    rw [hloaded] at hreported
    refine ⟨v, p, halone, hreported, hreported.sum,
      (c.dialLog target harness.policy.tries).reverse, ?_, ?_⟩
    · intro e he
      exact c.message_of_mem_dialLog (List.mem_reverse.mp he)
    · rw [List.map_reverse, List.reverse_reverse] at hlog
      simp only [Preload.closing, hfault, hloaded, beq_self_eq_true]
      exact congrArg _ hlog

/-- **A preload reports at every multiple of the interval and at the end, and each report counts the
keys since the one before**, for every key space, server and interval (zero acts as one). At every
moment of any preload the reports are those that the acknowledged writes call for, no answer takes a
difference or a remainder that is not defined, and a preload that nothing fails or interrupts is
complete. -/
theorem progress_reported (keys : KeySpace) (scene : Scene) (target : Target) (valueSize every : Nat)
    (w : World) :
    (∀ (harness : Harness Option) (w' : World) (report : PreloadReport), harness.Follows scene →
      harness.preload target keys valueSize every w = some (w', .ok report) →
      report.complete = true → ∃ (v : World) (p : Preload),
        harness.alone target (Preload.job keys valueSize every)
          (fun p => p.reports.reverse.map (·.toLog)) (w.say (keys.preloading valueSize))
          = some (v, .ok p) ∧
        keys.ProgressTold valueSize every w w' p.reports) ∧
    (∀ (v : World) (crew : Crew Preload) (c : Caller Preload) (p : Preload),
      Crew.Reaches scene w (.atOpenGate w (Preload.job keys valueSize every) 1) v crew →
      c ∈ crew.callers → c.state? = some p →
      p.loaded = (turns c.who (v.since w)).countP Turn.succeeded ∧
        Preload.Reported keys.size (max every 1) p.loaded p.reports) ∧
    (∀ (p : Preload) (sent now : Nat) (value : Option String),
      p.advance? keys.size (max every 1)
        = some ((Preload.job keys valueSize every).hear sent now (.ok value) p)) ∧
    (∀ limit, (scene.harness limit).Follows scene) ∧
    ∃ (limit : Nat) (w' : World) (r : Except Stop PreloadReport),
      (∀ more, limit ≤ more →
        (scene.harness more).preload target keys valueSize every w = some (w', r)) ∧
      (scene.Welcomes → w'.token = false → ∃ report, r = .ok report ∧ report.complete = true) := by
  refine ⟨?_, ?_, ?_, scene.harness_follows, ?_⟩
  · intro harness w' report hf h hcomplete
    exact progress_told hf h hcomplete
  · intro v crew c p hreach hc hp
    exact hreach.preload_reported hc hp
  · intro p sent now value
    exact Preload.advance?_eq (Nat.le_max_right every 1) p
  · obtain ⟨limit, ⟨w', r⟩, hsettles⟩ :=
      Harness.preload_settles scene target keys valueSize every w
    refine ⟨limit, w', r, hsettles, ?_⟩
    intro hwelcomes hunset
    have hrun := hsettles limit (Nat.le_refl limit)
    obtain ⟨report, rfl, hcomplete, -⟩ | ⟨-, hset, -⟩ := Harness.preload_welcomed
      (scene.harness_follows limit) hwelcomes target keys valueSize every w w' r hrun
    · exact ⟨report, rfl, hcomplete.resolve_right (by simp [hunset])⟩
    · simp [hunset] at hset

end KeySpace

/-! ## Five keys, two to a report -/

/-- Five keys. -/
def Sample.five : KeySpace :=
  { keys := KeySpace.keysOf 5 .sequential
    mode := .sequential
    keys_pos := by rw [KeySpace.size_keysOf]; decide }

theorem KeySpace.progress_reported_sample : ∃ (w' : World) (p : Preload),
    (Sample.steady.harness 20).preload Sample.target Sample.five 64 2 (.start none)
      = some (w', .ok { loaded := 5, complete := true }) ∧
    p.reports.map (fun q => (q.loaded, q.interval)) = [(5, 1), (4, 2), (2, 2)] ∧
    Sample.five.ProgressTold 64 2 (.start none) w' p.reports := by
  have hrun : ((Sample.steady.harness 20).preload Sample.target Sample.five 64 2
      (.start none)).map (·.2.toOption) = some (some { loaded := 5, complete := true }) := by
    decide +kernel
  obtain ⟨⟨w', r⟩, hrun, hok⟩ := Option.map_eq_some_iff.mp hrun
  obtain rfl := Sample.ok_of_toOption hok
  obtain ⟨hcomplete, -, -, hmachine, -⟩ :=
    KeySpace.progress_reported Sample.five Sample.steady Sample.target 64 2 (.start none)
  obtain ⟨v, p, halone, htold⟩ := hcomplete _ w' _ (hmachine 20) hrun rfl
  have hreports : ((Sample.steady.harness 20).alone Sample.target (Preload.job Sample.five 64 2)
      (fun p => p.reports.reverse.map (·.toLog))
      ((World.start none).say (Sample.five.preloading 64))).map
        (·.2.toOption.map fun p => p.reports.map fun q => (q.loaded, q.interval))
      = some (some [(5, 1), (4, 2), (2, 2)]) := by
    decide +kernel
  rw [halone] at hreports
  exact ⟨w', p, hrun, Option.some.inj (Option.some.inj hreports), htold⟩

end LoadSweep
