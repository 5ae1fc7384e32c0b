import LoadSweep.Proofs.Dialling
import LoadSweep.Proofs.Join

/-!
# `LoadSweep/Proofs/Warming.lean` — what a warm-up leaves behind

The callers of a warm-up find their gate open. So their deadline is counted from the beginning of the
phase, and not from the connection: one that connects too late has no time left, and asks for
nothing (`KeySpace.Warmed.late`). In a cell nobody can be late, for its window opens when the last
worker has settled.

Nothing that happens to one of them makes the warm-up fail. It joins all sixteen and adds up what they
counted; who died has counted nothing, whatever was answered before (`Caller.reads`). That no caller
stops because of another is the field `stops`, which knows of a lost connection of its own, of the
deadline and of the token, and of nothing else.
-/

set_option autoImplicit false

namespace LoadSweep

/-- The reads of a caller that were answered. One that died has none to show. -/
def Caller.reads (tr : List Entry) (c : Caller Traffic) : Nat :=
  match c.stage with
  | .ended (.died _) => 0
  | .fresh | .attempting .. | .resting _ | .settled _ | .talking .. | .ended (.served _)
  | .ended (.unserved _) => (c.number.map fun k => (turns k tr).countP Turn.succeeded).getD 0

/-- What a warm-up that began in `w` and ended in `w'` did: its callers came to their end in `last`,
and `ops` is the number that it gave. -/
structure KeySpace.Warmed (keys : KeySpace) (scene : Scene) (duration : Duration)
    (w last w' : World) (crew : Crew Traffic) (ops : Nat) : Prop where
  reaches : ∃ before, w.Quiet before ∧ Crew.Reaches scene before (.atOpenGate before
    (Traffic.job keys .get duration (warmupSeed + ·)) warmupClients) last crew
  quiet : last.Quiet w'
  size : crew.callers.length = 16
  /-- Whoever the server met is one of the callers, … -/
  own : ∀ e ∈ w'.since w, ∀ k, e.event.caller? = some k → ∃ c ∈ crew.callers, c.number = some k
  /-- … and no other. -/
  distinct : ∀ (i j : Nat) (c d : Caller Traffic) (k : Nat), crew.callers[i]? = some c →
    crew.callers[j]? = some d → c.number = some k → d.number = some k → i = j
  /-- Every caller has ended … -/
  ended : ∀ c ∈ crew.callers, ∃ how, c.stage = .ended how
  /-- … and whether it died stands in the history. -/
  died : ∀ c ∈ crew.callers, (∃ s, c.stage = .ended (.died s)) ↔
    ∃ k u, c.number = some k ∧ ⟨u, .died k⟩ ∈ w'.since w
  /-- Every attempt and every request that was started has ended, at its own instant, … -/
  landing : w.Landing scene w'
  /-- … and the callers do nothing more, in whatever order the rest of the run goes on, … -/
  idle : ∀ (u : World) (crew' : Crew Traffic), Crew.Reaches scene last crew u crew' →
    crew' = crew ∧ ∃ new, u.history = new ++ last.history ∧ ∀ e ∈ new, e.event = .cancelled
  /-- … so that nothing of what follows is theirs. -/
  later : ∀ (harness : Harness Option) (u : World), harness.Keeps scene → harness.Passes w' u →
    ∀ e ∈ u.since w', ∀ c ∈ crew.callers, ∀ k, c.number = some k → e.event.caller? ≠ some k
  /-- The number is that of the reads answered, of all callers that did not die. -/
  ops : ops = Number.total (crew.callers.map (Caller.reads (w'.since w)))
  /-- A request is a read, made over a connection that is sound, one at a time, before the deadline
  and while the token is unset. -/
  asks : ∀ (u k : Nat) (r : Request) (older : List Entry), ⟨u, .asked k r⟩ :: older <:+ w'.since w →
    (Dealings.ofHistory older k).connected = true ∧ pending k older = none ∧
      (∃ key ∈ keys.keys, r = .get key) ∧ (∀ x ∈ turns k older, x.disconnected = false) ∧
      u < w.now + duration.nanos ∧ w.tokenAfter older = false
  /-- Who connects when the deadline has come makes none. -/
  late : ∀ o k, ⟨o, .connected k⟩ ∈ w'.since w → w.now + duration.nanos ≤ o →
    ∀ u r, ⟨u, .asked k r⟩ ∉ w'.since w
  /-- Who connects and does not die goes on until its own connection is lost, the deadline has come
  or the token is set, and looks right after its last answer or when it connects. -/
  stops : ∀ o k, ⟨o, .connected k⟩ ∈ w'.since w → (∀ u, ⟨u, .died k⟩ ∉ w'.since w) →
    ∃ (u : Nat) (seen : List Entry), u = ((turns k (w'.since w)).head?.map (·.heard)).getD o ∧
      seen <:+ w'.since w ∧ turns k seen = turns k (w'.since w) ∧ (∀ e ∈ seen, e.instant ≤ u) ∧
      (((turns k (w'.since w)).head?.map Turn.disconnected).getD false = true ∨
        w.now + duration.nanos ≤ u ∨ w.tokenAfter seen = true)

/-! ## Traffic behind an open gate -/

namespace Crew.Reaches

variable {keys : KeySpace} {request : String → Request} {window : Duration} {seed : Nat → Nat}
  {scene : Scene} {w v : World} {size : Nat} {crew : Crew Traffic}

/-- What a caller counted is what the history shows of it. -/
theorem counted_eq (h : Crew.Reaches scene w
      (.atOpenGate w (Traffic.job keys request window seed) size) v crew)
    {c : Caller Traffic} (hc : c ∈ crew.callers) {how : Departure Traffic}
    (hend : c.stage = .ended how) : c.counted = c.reads (v.since w) := by
  have hf := h.faithful (Crew.atOpenGate_starts w _ size)
  obtain ⟨i, ha⟩ := hf.agrees_of_mem hc
  rw [Caller.Agrees, hend, h.job_eq.1] at ha
  unfold Caller.counted Caller.reads
  cases how with
  | died => rw [hend]
  | unserved dialled =>
    rw [hend]
    cases hk : c.number with
    | none => rfl
    | some k =>
      have hturns : turns k (v.since w) = [] := congrArg Share.turns (ha.1.share k hk)
      simp [hturns]
  | served s =>
    obtain ⟨ts, s₀, t, seen, hshow, ⟨o, -, hcourse⟩, -, -, -, hask⟩ := ha
    obtain ⟨rfl, -⟩ := Traffic.ends_of_stop hask
    obtain ⟨k, hk⟩ := hshow.numbered
    have hturns := hshow.turns_eq
    rw [Caller.who_eq hk] at hturns
    rw [hend, hk]
    show s.result.ops = (turns k (v.since w)).countP Turn.succeeded
    rw [hturns]
    exact (Traffic.course_tallies hcourse).ops

/-- What stands behind a request. -/
theorem asks_soundly (h : Crew.Reaches scene w
      (.atOpenGate w (Traffic.job keys request window seed) size) v crew)
    {u k : Nat} {r : Request} {older : List Entry} (hasked : ⟨u, .asked k r⟩ :: older <:+ v.since w) :
    (Dealings.ofHistory older k).connected = true ∧ pending k older = none ∧
      (∃ key ∈ keys.keys, r = request key) ∧ (∀ x ∈ turns k older, x.disconnected = false) ∧
      u < w.now + window.nanos ∧ w.tokenAfter older = false := by
  have hs := Crew.atOpenGate_starts w (Traffic.job keys request window seed) size
  have hf := h.faithful hs
  obtain ⟨_, _, _, _, _, _, _, _, _, _, _, hpending⟩ := hf.licensed u k r older hasked
  have hsound := hf.goes_on h.job_eq.1 (h.gate_eq rfl) hasked
  obtain ⟨newer, heq⟩ := hasked
  have hmem : ⟨u, .asked k r⟩ ∈ v.since w := by
    rw [← heq]
    simp
  exact ⟨h.linked_at hs heq.symm, hpending,
    h.sends hs (Traffic.job_sends keys request window seed) hmem, hsound⟩

/-- Who connects when the deadline has come asks for nothing. -/
theorem not_asked_late (h : Crew.Reaches scene w
      (.atOpenGate w (Traffic.job keys request window seed) size) v crew)
    {o k : Nat} (hcon : ⟨o, .connected k⟩ ∈ v.since w) (hlate : w.now + window.nanos ≤ o) (u : Nat)
    (r : Request) : ⟨u, .asked k r⟩ ∉ v.since w := by
  intro hasked
  have hs := Crew.atOpenGate_starts w (Traffic.job keys request window seed) size
  obtain ⟨newer, older, heq⟩ := List.append_of_mem hasked
  -- it is connected when it asks, and it connects only once
  obtain ⟨o', ho'⟩ := connected_of_dealings (h.linked_at hs heq)
  have hmem : ⟨o', .connected k⟩ ∈ v.since w := by
    rw [heq]
    simp [ho']
  obtain rfl := h.connection_unique hs hcon hmem
  obtain ⟨-, hearly, -⟩ := (h.faithful hs).goes_on h.job_eq.1 (h.gate_eq rfl)
    (heq ▸ List.suffix_append newer _)
  have hle : o ≤ u := h.latest_at hs heq _ ho'
  omega

/-- Why a caller makes no more requests. -/
theorem stops_own (h : Crew.Reaches scene w
      (.atOpenGate w (Traffic.job keys request window seed) size) v crew) (hdone : crew.Done v)
    {o k : Nat} (hcon : ⟨o, .connected k⟩ ∈ v.since w) (hlives : ∀ u, ⟨u, .died k⟩ ∉ v.since w) :
    ∃ (u : Nat) (seen : List Entry), u = ((turns k (v.since w)).head?.map (·.heard)).getD o ∧
      seen <:+ v.since w ∧ turns k seen = turns k (v.since w) ∧ (∀ e ∈ seen, e.instant ≤ u) ∧
      (((turns k (v.since w)).head?.map Turn.disconnected).getD false = true ∨
        w.now + window.nanos ≤ u ∨ w.tokenAfter seen = true) := by
  have hs := Crew.atOpenGate_starts w (Traffic.job keys request window seed) size
  have hf := h.faithful hs
  have hgate : crew.gate = .openSince w.now := h.gate_eq rfl
  obtain ⟨c, hc, hk⟩ := hf.heard _ hcon k rfl
  obtain ⟨t, hend⟩ := (hf.returns hdone hc hk hcon hlives).2 (by simp [hgate])
  have hsettled := h.connected_at hs hc hk (by rw [Caller.settledAs?, hend]) hcon
  obtain ⟨i, ha⟩ := hf.agrees_of_mem hc
  rw [Caller.Agrees, hend, h.job_eq.1] at ha
  obtain ⟨ts, s, u, seen, hshow, ⟨o', ho', hcourse⟩, hseen, hshown, hpast, hask⟩ := ha
  obtain ⟨rfl, hends⟩ := Traffic.ends_of_stop hask
  obtain rfl := Gate.openSince.inj (hgate.symm.trans ho')
  have hturns := hshow.turns_eq
  have hsame := hshown.turns_eq
  rw [Caller.who_eq hk] at hturns hsame hcourse
  have hstart : max w.now (c.settledAt.getD 0) = o := by
    rw [hsettled]
    exact Nat.max_eq_right (hf.instants _ hcon).1
  rw [hstart] at hcourse
  rw [hturns]
  refine ⟨u, seen, hcourse.instant_eq, hseen, hsame, hpast, ?_⟩
  rw [← (Traffic.course_tallies hcourse).lost, ← Traffic.course_deadline hcourse]
  exact hends

end Crew.Reaches

/-! ## The warm-up -/

namespace KeySpace

variable {keys : KeySpace} {duration : Duration} {scene : Scene} {w before last w' : World}
  {crew : Crew Traffic}

/-- A warm-up whose callers are done has joined them. -/
theorem warmed_of_done (hbefore : w.Quiet before) (hreach : Crew.Reaches scene before
      (.atOpenGate before (Traffic.job keys .get duration (warmupSeed + ·)) warmupClients) last crew)
    (hdone : crew.Done last) (hquiet : last.Quiet w') :
    keys.Warmed scene duration w last w' crew
      (Number.total (crew.callers.map Caller.counted)) := by
  have hs := Crew.atOpenGate_starts before (Traffic.job keys .get duration (warmupSeed + ·))
    warmupClients
  have hf := hreach.faithful hs
  have hsince : w'.since w = last.since before := by
    rw [hquiet.since, hbefore.since_left]
  have hgate : crew.gate = .openSince before.now := hreach.gate_eq rfl
  refine
    { reaches := ⟨before, hbefore, hreach⟩
      quiet := hquiet
      size := hreach.job_eq.2.2.trans List.length_replicate
      own := ?_
      distinct := hf.distinct
      ended := fun c hc => hdone.ended hc
      died := ?_
      landing := ?_
      idle := ?_
      later := ?_
      ops := ?_
      asks := ?_
      late := ?_
      stops := ?_ }
  · rw [hsince]
    exact hf.heard
  · rw [hsince]
    exact fun c hc => hreach.died_iff hs hc
  · rw [World.Landing, hsince]
    exact hreach.landing hs hdone
  · intro u crew' hlater
    obtain ⟨hsame, -, -, hnew⟩ := hdone.idle hlater
    exact ⟨hsame, hnew⟩
  · exact fun harness u hk hpasses => hreach.apart hs hquiet hk hpasses
  · rw [hsince]
    apply congrArg Number.total
    apply List.map_congr_left
    intro c hc
    obtain ⟨how, hend⟩ := hdone.ended hc
    exact hreach.counted_eq hc hend
  · rw [hsince, ← hbefore.now]
    intro u k r older hasked
    rw [← hbefore.tokenAfter]
    exact hreach.asks_soundly hasked
  · rw [hsince, ← hbefore.now]
    exact fun o k hcon hlate => hreach.not_asked_late hcon hlate
  · rw [hsince, ← hbefore.now]
    intro o k hcon hlives
    obtain ⟨u, seen, hu, hseen, hsame, hpast, hends⟩ := hreach.stops_own hdone hcon hlives
    rw [hbefore.tokenAfter] at hends
    exact ⟨u, seen, hu, hseen, hsame, hpast, hends⟩

/-- **A warm-up gives a number and joins all its callers**, whatever becomes of them, if only the
clock can show its end. When none of the callers that connect can make more than so many requests,
the machine does come to a result. -/
theorem warmed (keys : KeySpace) (scene : Scene) (target : Target) (duration : Duration) (w : World)
    (hshow : w.canShow duration = true) :
    (∀ (harness : Harness Option) (w' : World) (r : Except Stop Nat), harness.Follows scene →
      harness.warmup target keys duration w = some (w', r) →
      ∃ (ops : Nat) (last : World) (crew : Crew Traffic), r = .ok ops ∧
        keys.Warmed scene duration w last w' crew ops) ∧
    (∀ limit, (scene.harness limit).Follows scene) ∧
    ∀ n, (∀ i < warmupClients, (scene.script (w.met + i)).Connects scene.policy →
        (scene.script (w.met + i)).Exhausts duration n) →
      ∃ (limit : Nat) (w' : World) (ops : Nat), ∀ more, limit ≤ more →
        (scene.harness more).warmup target keys duration w = some (w', .ok ops) := by
  have hresult : ∀ (harness : Harness Option) (w' : World) (r : Except Stop Nat),
      harness.Follows scene → harness.warmup target keys duration w = some (w', r) →
      ∃ (ops : Nat) (last : World) (crew : Crew Traffic), r = .ok ops ∧
        keys.Warmed scene duration w last w' crew ops := by
    intro harness w' r hf h
    rcases Harness.of_warmup h with
      ⟨hlate, -⟩ | ⟨-, before, v, crew, hbefore, hrun, hquiet, rfl⟩
    · simp [hlate] at hshow
    · obtain ⟨hreach, hdone⟩ := hf (Crew.atOpenGate_starts before _ _) hrun
      exact ⟨_, v, crew, rfl, warmed_of_done hbefore hreach hdone hquiet⟩
  refine ⟨hresult, scene.harness_follows, ?_⟩
  intro n hb
  obtain ⟨limit, ⟨w', r⟩, hsettles⟩ := Harness.warmup_settles_of_bounded hb target keys
  obtain ⟨ops, -, -, rfl, -⟩ :=
    hresult _ w' r (scene.harness_follows limit) (hsettles limit (Nat.le_refl limit))
  exact ⟨limit, w', ops, hsettles⟩

end KeySpace

/-! ## A warm-up in which hardly anything works

Caller 0 is refused once, reads, and has a failure; caller 1 dies while it connects, and caller 2 when
it has had an answer, which then does not count. Caller 3 connects at the deadline. Caller 4 is not
answered, caller 5 loses its connection after one read, and the others are refused. -/

namespace Sample

def motley : Scene :=
  { policy
    script := fun k => match k with
      | 0 => wavering
      | 1 => dying
      | 2 => collapsing
      | 3 => .ofLists [] ⟨false, .ofMillis 4, .accepted⟩ (.plain ⟨0⟩) [] .repeatLast
      | 4 => deaf
      | 5 => .ofLists [] .plain (.plain ⟨0⟩)
          [(1, .plain (.ofMillis 1)), (1, ⟨.ofMillis 1, false, .failed (.lost "gone")⟩)] .repeatLast
      | _ => .ofLists [] refusal (.plain ⟨0⟩) [] .repeatLast }

/-- Nobody has the time for more than four reads. -/
theorem motley_exhausts (k : Nat) : (motley.script k).Exhausts (.ofMillis 4) 4 := by
  match k with
  | 0 => exact .inl ⟨3, by decide, rfl⟩
  | 1 => exact .inr (by decide)
  | 2 => exact .inl ⟨1, by decide, trivial⟩
  | 3 => exact .inr (by decide)
  | 4 => exact .inr (by decide)
  | 5 => exact .inl ⟨1, by decide, rfl⟩
  | k + 6 =>
    have hspent : (Duration.ofMillis 4).nanos
        ≤ (Script.ofLists [] refusal (.plain ⟨0⟩) [] .repeatLast).spent 4 := by decide
    exact .inr hspent

end Sample

theorem KeySpace.warmed_sample : (World.start none).canShow (.ofMillis 4) = true ∧
    ∃ (last w' : World) (crew : Crew Traffic),
      (Sample.motley.harness 200).warmup Sample.target Sample.keys (.ofMillis 4) (.start none)
        = some (w', .ok 2) ∧
      w'.met = 16 ∧ Sample.deaths w'.history = [(4000000, 1), (2000000, 2)] ∧
      Sample.keys.Warmed Sample.motley (.ofMillis 4) (.start none) last w' crew 2 ∧
      ∃ (limit : Nat) (w' : World) (ops : Nat), ∀ more, limit ≤ more →
        (Sample.motley.harness more).warmup Sample.target Sample.keys (.ofMillis 4) (.start none)
          = some (w', .ok ops) := by
  have hshow : (World.start none).canShow (.ofMillis 4) = true := by decide
  have hrun : ((Sample.motley.harness 200).warmup Sample.target Sample.keys (.ofMillis 4)
      (.start none)).map (fun p => (p.2.toOption, p.1.met, Sample.deaths p.1.history))
      = some (some 2, 16, [(4000000, 1), (2000000, 2)]) := by
    decide +kernel
  obtain ⟨⟨w', r⟩, hrun, heq⟩ := Option.map_eq_some_iff.mp hrun
  obtain ⟨hok, heq⟩ := Prod.mk.inj heq
  obtain ⟨hmet, hdeaths⟩ := Prod.mk.inj heq
  obtain rfl := Sample.ok_of_toOption hok
  obtain ⟨hwarmed, hmachine, hends⟩ :=
    KeySpace.warmed Sample.keys Sample.motley Sample.target (.ofMillis 4) (.start none) hshow
  obtain ⟨ops, last, crew, hops, hall⟩ := hwarmed _ w' _ (hmachine 200) hrun
  obtain rfl := Except.ok.inj hops
  exact ⟨hshow, last, w', crew, hrun, hmet, hdeaths, hall,
    hends 4 fun i _ _ => Sample.motley_exhausts _⟩

end LoadSweep
