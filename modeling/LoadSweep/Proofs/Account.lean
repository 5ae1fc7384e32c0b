import LoadSweep.Proofs.Ending

/-!
# `LoadSweep/Proofs/Account.lean` — what a measurement worker brings back

The counters of a worker against the history: which requests it made, how each of them ended, and
why it made no more. Everything is exact, the latencies too: they are kept in 64 bits, and no request
takes longer than 64 bits of nanoseconds can say (`Script.latency_turn_le`).

`Cell.Accounted` says it for every state that the workers of a cell reach. A worker that has ended
stays as it is. It does end when the requests take time, and only requests without limit can keep
the workers of a cell from it.
-/

set_option autoImplicit false

namespace LoadSweep

/-- The account of a worker with number `k` that served until its loop ended, the window being open
since `opened`. The turns of a worker are newest first. -/
structure Cell.Served (cell : Cell) (w₀ : World) (tr : List Entry) (opened k : Nat)
    (t : Traffic) : Prop where
  ops : t.result.ops = (turns k tr).countP Turn.succeeded
  errors : t.result.errors = (turns k tr).countP Turn.failed
  /-- Every request that was started is counted once, but for one that ended the connection. -/
  started : (Dealings.ofHistory tr k).requests.length
    = t.result.ops + t.result.errors + (if t.lost.isSome then 1 else 0)
  lost : t.lost.isSome = ((turns k tr).head?.map Turn.disconnected).getD false
  /-- The samples are the latencies of the first successes, in the order of the requests. -/
  latencies : t.result.latencies.toList
    = (((turns k tr).reverse.filter Turn.succeeded).map Turn.latency).take WorkerResult.sampleCap
  samples : t.result.latencies.size = min t.result.ops WorkerResult.sampleCap
  /-- A request was made only while the connection was there, the deadline had not come and the
  token was not set. -/
  goesOn : ∀ (u : Nat) (r : Request) (older : List Entry), ⟨u, .asked k r⟩ :: older <:+ tr →
    (∀ x ∈ turns k older, x.disconnected = false) ∧ u < opened + cell.duration.nanos ∧
      w₀.tokenAfter older = false
  /-- The loop ended at the first check that found otherwise: right after the last answer, or at
  the opening. -/
  stops : ∃ (u : Nat) (seen : List Entry),
    u = ((turns k tr).head?.map (·.heard)).getD opened ∧ seen <:+ tr ∧
      turns k seen = turns k tr ∧ (∀ e ∈ seen, e.instant ≤ u) ∧
      (t.lost.isSome = true ∨ opened + cell.duration.nanos ≤ u ∨ w₀.tokenAfter seen = true)
  /-- No request is left without its answer. -/
  complete : pending k tr = none

/-- The accounts of the workers of a cell that started in `w₀`. -/
structure Cell.Accounted (cell : Cell) (scene : Scene) (w₀ w : World) (crew : Crew Traffic) :
    Prop where
  served : ∀ c ∈ crew.callers, ∀ t, c.stage = .ended (.served t) →
    c.result? = some t.result ∧ ∃ o, crew.gate = .openSince o ∧
      cell.Served w₀ (w.since w₀) o c.who t
  /-- A worker without a connection brings back nothing, and the server saw of it no more than its
  attempts, which all failed. -/
  unserved : ∀ c ∈ crew.callers, ∀ dialled, c.stage = .ended (.unserved dialled) →
    c.result? = some .none ∧ ∀ k, c.number = some k →
      (Dealings.ofHistory (w.since w₀) k).requests = [] ∧
      (crew.gate ≠ .stuck → (Dealings.ofHistory (w.since w₀) k).connected = false ∧
        (Dealings.ofHistory (w.since w₀) k).attempts = c.reasons.length)
  died : ∀ c ∈ crew.callers, ∀ s, c.stage = .ended (.died s) →
    c.result? = none ∧ ∃ u, ⟨u, .died c.who⟩ ∈ w.since w₀
  /-- Who has ended stays as it is: nobody connects again. -/
  final : ∀ (i : Nat) (c : Caller Traffic), crew.callers[i]? = some c →
    (∃ how, c.stage = .ended how) → ∀ (w' : World) (crew' : Crew Traffic),
    Crew.Reaches scene w crew w' crew' → crew'.callers[i]? = some c ∧
      ∀ k, c.number = some k → share k (w'.since w₀) = share k (w.since w₀)
  /-- When nothing is left to do every worker has ended … -/
  ended : crew.Done w → ∀ c ∈ crew.callers, ∃ how, c.stage = .ended how
  /-- … with a result if it had a connection and did not die; and it has served, unless the window
  never opened. -/
  returns : crew.Done w → ∀ c ∈ crew.callers, ∀ k u, c.number = some k →
    ⟨u, .connected k⟩ ∈ w.since w₀ → (∀ v, ⟨v, .died k⟩ ∉ w.since w₀) →
    (∃ r, c.result? = some r) ∧ (crew.gate ≠ .stuck → ∃ t, c.stage = .ended (.served t))
  /-- It comes to that when every request takes time … -/
  ends : scene.Paced →
    ∃ (w' : World) (crew' : Crew Traffic), Crew.Leads scene w crew w' crew' ∧ crew'.Done w'
  /-- … and fails to only if there is no limit to the requests of a worker. -/
  endless : (¬ ∃ (w' : World) (crew' : Crew Traffic),
      Crew.Leads scene w crew w' crew' ∧ crew'.Done w') →
    ∀ n, ∃ (v : World) (crew' : Crew Traffic), Crew.Reaches scene w₀ cell.crew v crew' ∧
      ∃ c ∈ crew'.callers, n < c.sent

namespace Crew

variable {scene : Scene} {cell : Cell} {w₀ w : World} {crew : Crew Traffic} {tr : List Entry}

/-- The requests of a cell are no pings, so all of them count. -/
theorem requests_of_turns (cell : Cell) {ts : List Turn} (h : ∀ x ∈ ts, ∃ key ∈ cell.keys.keys,
    x.request = cell.request key) :
    ((requestsOf ts none).filter (· ≠ .ping)).length = ts.length := by
  rw [List.filter_eq_self.mpr]
  · simp [requestsOf]
  · intro r hr
    simp only [requestsOf, Option.toList_none, List.map_nil, List.append_nil, List.mem_map,
      List.mem_reverse] at hr
    obtain ⟨x, hx, rfl⟩ := hr
    obtain ⟨key, -, hkey⟩ := h x hx
    rw [hkey]
    unfold Cell.request
    cases cell.operation <;> simp

/-- A request in traffic passed the check before it. -/
theorem Faithful.goes_on {keys : KeySpace} {request : String → Request} {window : Duration}
    {seed : Nat → Nat} (hf : crew.Faithful scene w₀ tr w)
    (hjob : crew.job = Traffic.job keys request window seed) {o : Nat}
    (ho : crew.gate = .openSince o) {u k : Nat} {r : Request} {older : List Entry}
    (h : ⟨u, .asked k r⟩ :: older <:+ tr) :
    (∀ x ∈ turns k older, x.disconnected = false) ∧ u < o + window.nanos ∧
      w₀.tokenAfter older = false := by
  obtain ⟨i, o', start, ts, s, s', ho', -, hcourse, hask, hturns, -⟩ := hf.licensed u k r older h
  obtain rfl := Gate.openSince.inj (ho.symm.trans ho')
  rw [hjob] at hcourse hask
  obtain ⟨hends, -⟩ := Traffic.not_ends_of_send hask
  refine ⟨?_, ?_, ?_⟩
  · rw [hturns]
    refine (Traffic.course_tallies hcourse).not_disconnected ?_
    simpa using fun h => hends (.inl h)
  · rw [← Traffic.course_deadline hcourse]
    exact Nat.lt_of_not_le fun h => hends (.inr (.inl h))
  · simpa using fun h => hends (.inr (.inr h))

theorem Faithful.served (hf : crew.Faithful scene w₀ tr w) (hjob : crew.job = cell.job)
    (hopening : ∀ o, crew.gate = .openSince o → crew.Opening w₀ o) {c : Caller Traffic}
    (hc : c ∈ crew.callers) {t : Traffic} (hs : c.stage = .ended (.served t)) :
    ∃ o, crew.gate = .openSince o ∧ cell.Served w₀ tr o c.who t := by
  obtain ⟨i, ha⟩ := hf.agrees_of_mem hc
  rw [Caller.Agrees, hs, hjob] at ha
  obtain ⟨ts, s, u, seen, hshow, ⟨o, ho, hcourse⟩, hseen, hshown, hpast, hask⟩ := ha
  obtain ⟨rfl, hends⟩ := Traffic.ends_of_stop hask
  have htallies := Traffic.course_tallies hcourse
  have hturns := hshow.turns_eq
  rw [(hopening o ho).max_eq hc] at hcourse
  refine ⟨o, ho, ?_⟩
  constructor
  · rw [hturns]
    exact htallies.ops
  · rw [hturns]
    exact htallies.errors
  · rw [← htallies.length_eq, ← requests_of_turns cell (Traffic.course_requests hcourse)]
    exact congrArg (fun sh => sh.dealings.requests.length) hshow.share
  · rw [hturns]
    exact htallies.lost
  · rw [hturns]
    exact htallies.latencies
  · exact htallies.size_latencies
  · exact fun u r older h => hf.goes_on hjob ho h
  · refine ⟨u, seen, ?_, hseen, ?_, hpast, ?_⟩
    · rw [hturns]
      exact hcourse.instant_eq
    · rw [hturns]
      exact hshown.turns_eq
    · rw [← Traffic.course_deadline hcourse]
      exact hends
  · exact congrArg Share.pending hshow.share

/-- The server saw no request of a worker that did not serve. -/
theorem Faithful.unserved (hf : crew.Faithful scene w₀ tr w) {c : Caller Traffic}
    (hc : c ∈ crew.callers) {dialled : Except DialFault Unit}
    (hs : c.stage = .ended (.unserved dialled)) {k : Nat} (hk : c.number = some k) :
    (Dealings.ofHistory tr k).requests = [] ∧
      (crew.gate ≠ .stuck → (Dealings.ofHistory tr k).connected = false ∧
        (Dealings.ofHistory tr k).attempts = c.reasons.length) := by
  obtain ⟨i, ha⟩ := hf.agrees_of_mem hc
  rw [Caller.Agrees, hs] at ha
  obtain ⟨hdials, hstuck⟩ := ha
  have hshare := congrArg Share.dealings (hdials.share k hk)
  replace hshare : Dealings.ofHistory tr k = _ := hshare
  rw [hshare]
  refine ⟨rfl, ?_⟩
  intro hgate
  cases dialled with
  | ok => exact absurd (hstuck rfl) hgate
  | error => exact ⟨rfl, rfl⟩

theorem Faithful.returns (hf : crew.Faithful scene w₀ tr w) (hdone : crew.Done w)
    {c : Caller Traffic} (hc : c ∈ crew.callers) {k u : Nat} (hk : c.number = some k)
    (hcon : ⟨u, .connected k⟩ ∈ tr) (hdied : ∀ v, ⟨v, .died k⟩ ∉ tr) :
    (∃ r, c.result? = some r) ∧ (crew.gate ≠ .stuck → ∃ t, c.stage = .ended (.served t)) := by
  obtain ⟨how, hend⟩ := hdone.ended hc
  obtain ⟨i, ha⟩ := hf.agrees_of_mem hc
  rw [Caller.Agrees, hend, Caller.who_eq hk] at ha
  rw [Caller.result?, hend]
  cases how with
  | served t => exact ⟨⟨_, rfl⟩, fun _ => ⟨t, rfl⟩⟩
  | unserved dialled =>
    refine ⟨⟨_, rfl⟩, ?_⟩
    intro hstuck
    have hflag := Dealings.connected_of_mem hcon
    rw [((hf.unserved hc hend hk).2 hstuck).1] at hflag
    simp at hflag
  | died s =>
    have hmem : ∃ v, ⟨v, .died k⟩ ∈ tr := by
      cases s with
      | none => exact ha.2
      | some => exact ha.1
    obtain ⟨v, hv⟩ := hmem
    exact absurd hv (hdied v)

end Crew

/-- **The account of a measurement worker**, in every state that the workers of a cell reach. -/
theorem Cell.accounted {cell : Cell} {scene : Scene} {w₀ w : World} {crew : Crew Traffic}
    (h : Crew.Reaches scene w₀ cell.crew w crew) : cell.Accounted scene w₀ w crew := by
  have hstart := cell.crew_starts w₀
  have hf := h.faithful hstart
  have hjob : crew.job = cell.job := h.job_eq.1
  have hopening : ∀ o, crew.gate = .openSince o → crew.Opening w₀ o := fun o ho =>
    Crew.Reaches.opening h ho
  refine
    { served := fun c hc t hs => ⟨by rw [Caller.result?, hs], hf.served hjob hopening hc hs⟩
      unserved := fun c hc dialled hs =>
        ⟨by rw [Caller.result?, hs], fun k hk => hf.unserved hc hs hk⟩
      died := ?_
      final := ?_
      ended := fun hdone c hc => hdone.ended hc
      returns := fun hdone c hc k u hk hcon hdied => hf.returns hdone hc hk hcon hdied
      ends := fun hp => h.ends hp
      endless := h.sends_of_not_ends }
  · intro c hc s hs
    refine ⟨by rw [Caller.result?, hs], ?_⟩
    obtain ⟨i, ha⟩ := hf.agrees_of_mem hc
    rw [Caller.Agrees, hs] at ha
    cases s with
    | none => exact ha.2
    | some => exact ha.1
  · rintro i c hi ⟨how, hhow⟩ w' crew' hlater
    exact h.of_ended hstart hlater hi hhow

/-- The sample run at its end: worker 0 has two successes, one failure and a lost connection. -/
theorem Cell.accounted_sample : ∃ (w : World) (crew : Crew Traffic),
    Sample.cell.crew.run Sample.scene 20 (.start none) = some (w, crew) ∧
    crew.callers.map Caller.result? = [some ⟨2, 1, #[1000000, 2000000]⟩, none] ∧
    Sample.cell.Accounted Sample.scene (.start none) w crew := by
  have hresults : (Sample.cell.crew.run Sample.scene 20 (.start none)).map
      (·.2.callers.map Caller.result?) = some [some ⟨2, 1, #[1000000, 2000000]⟩, none] := by
    decide +kernel
  obtain ⟨⟨w, crew⟩, hrun, hres⟩ := Option.map_eq_some_iff.mp hresults
  have hstart := Sample.cell.crew_starts (.start none)
  exact ⟨w, crew, hrun, hres, Cell.accounted (Crew.run_reaches hstart .start hrun).1⟩

end LoadSweep
