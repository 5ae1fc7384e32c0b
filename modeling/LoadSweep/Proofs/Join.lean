import LoadSweep.Proofs.Account
import LoadSweep.Proofs.Budget
import LoadSweep.Proofs.Stint
import LoadSweep.Proofs.Sweep

/-!
# `LoadSweep/Proofs/Join.lean` — a cell returns when its last worker has ended

Workers may die anywhere, in an attempt to connect or in a request, and in any order. The cell
waits for all of them nevertheless: it comes to a result only in a state in which every worker has
ended, and such a state has no successor (`Crew.Done.idle`). Which worker is reported is then a
matter of the indices alone, since `resultsOf` walks the workers in their order and not in that of
their deaths.

Nobody who dies takes anything away from the others. What a worker that served has to show for
itself is the same account as in a cell where nobody died (`Cell.Served`).
-/

set_option autoImplicit false

namespace LoadSweep

/-- What a cell that started in `w` returned in `w'`: its workers came to their end in `last`, and
`r` is what they brought. -/
structure Cell.Joined (cell : Cell) (scene : Scene) (w last w' : World) (crew : Crew Traffic)
    (r : Except Stop (List WorkerResult)) : Prop where
  reaches : Crew.Reaches scene w cell.crew last crew
  quiet : last.Quiet w'
  size : crew.callers.length = cell.concurrency
  /-- Every worker has ended … -/
  ended : ∀ c ∈ crew.callers, ∃ how, c.stage = .ended how
  /-- … and whether it died stands in the history. -/
  died : ∀ c ∈ crew.callers, (∃ s, c.stage = .ended (.died s)) ↔
    ∃ k u, c.number = some k ∧ ⟨u, .died k⟩ ∈ w'.since w
  /-- Every attempt and every request that was started has ended, at its own instant, … -/
  landing : w.Landing scene w'
  /-- … and the workers do nothing more, in whatever order the rest of the run goes on, … -/
  idle : ∀ (u : World) (crew' : Crew Traffic), Crew.Reaches scene last crew u crew' →
    crew' = crew ∧ ∃ new, u.history = new ++ last.history ∧ ∀ e ∈ new, e.event = .cancelled
  /-- … so that nothing of what follows is theirs. -/
  later : ∀ (harness : Harness Option) (u : World), harness.Keeps scene → harness.Passes w' u →
    ∀ e ∈ u.since w', ∀ c ∈ crew.callers, ∀ k, c.number = some k → e.event.caller? ≠ some k
  /-- The window was opened if the clock can show its end; a cell fails for want of that alone, or
  because a worker died. -/
  opened : (∀ o, crew.Opening w o →
      (o + cell.duration.nanos) / Duration.nanosPerSec < World.clockSpan) →
    ∃ o, crew.gate = .openSince o ∧ crew.Opening w o
  stuck : crew.gate = .stuck → r = .error .died ∧ ∃ o, crew.Opening w o ∧
    World.clockSpan ≤ (o + cell.duration.nanos) / Duration.nanosPerSec
  /-- If nobody died there is one result for each worker, at its index. -/
  results : ∀ o, crew.gate = .openSince o → (∀ c ∈ crew.callers, ∀ s, c.stage ≠ .ended (.died s)) →
    ∃ results, r = .ok results ∧ results.length = cell.concurrency ∧
      ∀ (i : Nat) (c : Caller Traffic), crew.callers[i]? = some c → results[i]? = c.result?
  /-- Otherwise the smallest index is reported at which a worker died. -/
  reported : ∀ o, crew.gate = .openSince o → (∃ c ∈ crew.callers, ∃ s, c.stage = .ended (.died s)) →
    ∃ (i : Nat) (c : Caller Traffic) (s : Option Traffic), r = .error (.fault (.workerDied i)) ∧
      crew.callers[i]? = some c ∧ c.stage = .ended (.died s) ∧
      ∀ (j : Nat) (d : Caller Traffic), j < i → crew.callers[j]? = some d →
        ∀ s, d.stage ≠ .ended (.died s)
  /-- A worker that got a connection and did not die served until its connection was lost, the
  window was over or the token was set, whatever became of the others. -/
  window : ∀ o, crew.gate = .openSince o → ∀ c ∈ crew.callers, ∀ k u, c.number = some k →
    ⟨u, .connected k⟩ ∈ w'.since w → (∀ v, ⟨v, .died k⟩ ∉ w'.since w) →
    ∃ t, c.stage = .ended (.served t) ∧ cell.Served w (w'.since w) o k t

namespace Harness

variable {cell : Cell} {scene : Scene} {w last w' : World} {crew : Crew Traffic} {o : Nat}

/-- A cell whose workers are done has joined them. -/
theorem joined_of_done (hreach : Crew.Reaches scene w cell.crew last crew) (hdone : crew.Done last)
    (hquiet : last.Quiet w') : cell.Joined scene w last w' crew (verdictOf crew) := by
  have hstart := cell.crew_starts w
  have hsince := hquiet.since w
  have hsize : crew.callers.length = cell.concurrency :=
    hreach.job_eq.2.2.trans List.length_replicate
  obtain ⟨hended, hshut⟩ := Crew.done_iff.mp hdone
  have hstuck : crew.gate = .stuck → ∃ o, crew.Opening w o ∧
      World.clockSpan ≤ (o + cell.duration.nanos) / Duration.nanosPerSec :=
    fun hgate => Crew.Reaches.opening_of_stuck hreach hgate
  have hf := hreach.faithful hstart
  refine
    { reaches := hreach
      quiet := hquiet
      size := hsize
      ended := hended
      died := ?_
      landing := ?_
      idle := ?_
      later := ?_
      opened := ?_
      stuck := fun hgate => ⟨verdictOf_of_stuck hgate, hstuck hgate⟩
      results := ?_
      reported := fun o hgate hdied => verdictOf_of_died hgate hended hdied
      window := ?_ }
  · rw [hsince]
    exact fun c hc => hreach.died_iff hstart hc
  · rw [World.Landing, hsince]
    exact hreach.landing hstart hdone
  · intro u crew' hlater
    obtain ⟨hsame, -, -, hnew⟩ := hdone.idle hlater
    exact ⟨hsame, hnew⟩
  · exact fun harness u hk hpasses => hreach.apart hstart hquiet hk hpasses
  · intro hshown
    cases hgate : crew.gate with
    | shut => exact absurd hgate hshut
    | openSince o => exact ⟨o, rfl, Crew.Reaches.opening hreach hgate⟩
    | stuck =>
      obtain ⟨o, hopening, hlate⟩ := hstuck hgate
      exact absurd (hshown o hopening) (Nat.not_lt.mpr hlate)
  · intro o hgate halive
    obtain ⟨hverdict, hmap⟩ := verdictOf_of_alive hgate hended halive
    have hlength := congrArg List.length hmap
    rw [List.length_map, List.length_map, hsize] at hlength
    refine ⟨_, hverdict, hlength.symm, ?_⟩
    intro i c hc
    have hi := congrArg (fun rs => rs[i]?) hmap
    simp only [List.getElem?_map, hc, Option.map_some] at hi
    obtain ⟨result, hresult, heq⟩ := Option.map_eq_some_iff.mp hi.symm
    rw [hresult, heq]
  · rw [hsince]
    intro o hgate c hc k u hnumber hconnected hlives
    obtain ⟨t, ht⟩ := (hf.returns hdone hc hnumber hconnected hlives).2 (by simp [hgate])
    obtain ⟨o', hgate', hserved⟩ :=
      hf.served hreach.job_eq.1 (fun _ ho => Crew.Reaches.opening hreach ho) hc ht
    obtain rfl := Gate.openSince.inj (hgate.symm.trans hgate')
    rw [Caller.who_eq hnumber] at hserved
    exact ⟨t, ht, hserved⟩

/-- **The workers of a cell are joined**, whoever runs them in the scene and however many of them
die. The gate opens in spite of the deaths; and when no connected worker can make more than so many
requests, the machine does come to a result. -/
theorem workers_joined (cell : Cell) (scene : Scene) (w : World) :
    (∀ (harness : Harness Option) (w' : World) (r : Except Stop (List WorkerResult)),
      harness.Follows scene → harness.workers cell w = some (w', r) →
      ∃ (last : World) (crew : Crew Traffic), cell.Joined scene w last w' crew r) ∧
    (∀ limit, (scene.harness limit).Follows scene) ∧
    (∀ (v : World) (crew : Crew Traffic), Crew.Reaches scene w cell.crew v crew →
      ∃ (v' : World) (crew' : Crew Traffic), Crew.Leads scene v crew v' crew' ∧
        crew'.gate ≠ .shut) ∧
    (∀ n, cell.Bounded scene w n → ∃ (limit : Nat) (w' : World)
      (r : Except Stop (List WorkerResult)), ∀ more, limit ≤ more →
        (scene.harness more).workers cell w = some (w', r)) := by
  refine ⟨?_, scene.harness_follows, ?_, ?_⟩
  · intro harness w' r hf h
    obtain ⟨last, crew, hrun, hquiet, rfl⟩ := of_workers h
    obtain ⟨hreach, hdone⟩ := hf (cell.crew_starts w) hrun
    exact ⟨last, crew, joined_of_done hreach hdone hquiet⟩
  · intro v crew hreach
    exact hreach.gate_opens (cell.crew_starts w)
  · intro n hbounded
    obtain ⟨limit, ⟨w', r⟩, hsettles⟩ := Cell.workers_settle_of_bounded hbounded
    exact ⟨limit, w', r, hsettles⟩

end Harness

/-! ## Three workers, two of which die

Worker 2 dies while it connects, worker 1 later and in its second request. It is worker 1 that is
reported, when worker 0 has lost its connection. -/

namespace Sample

/-- The script of worker 1. -/
def collapsing : Script :=
  .ofLists [] .plain (.plain ⟨0⟩) [(1, .plain (.ofMillis 1)), (1, ⟨.ofMillis 1, false, .dies⟩)]
    .repeatLast

def crumbling : Scene :=
  { policy, script := fun k => if k = 0 then wavering else if k = 1 then collapsing else dying }

def trio : Cell := { cell with concurrency := 3 }

/-- When the callers of a history died, the last one first. -/
def deaths (tr : List Entry) : List (Nat × Nat) :=
  tr.filterMap fun e => match e.event with
    | .died k => some (e.instant, k)
    | _ => none

end Sample

theorem Harness.workers_joined_sample : ∃ (last w' : World) (crew : Crew Traffic),
    (Sample.crumbling.harness 60).workers Sample.trio (.start none)
      = some (w', .error (.fault (.workerDied 1))) ∧
    Sample.deaths w'.history = [(6000000, 1), (4000000, 2)] ∧
    Sample.trio.Joined Sample.crumbling (.start none) last w' crew
      (.error (.fault (.workerDied 1))) := by
  have hrun : ((Sample.crumbling.harness 60).workers Sample.trio (.start none)).map
      (fun p => (Sample.stop? p.2, Sample.deaths p.1.history))
      = some (some (.fault (.workerDied 1)), [(6000000, 1), (4000000, 2)]) := by
    decide +kernel
  obtain ⟨⟨w', r⟩, hrun, heq⟩ := Option.map_eq_some_iff.mp hrun
  obtain ⟨hstop, hdeaths⟩ := Prod.mk.inj heq
  obtain rfl := Sample.error_of_stop hstop
  obtain ⟨hjoined, hmachine, -⟩ :=
    Harness.workers_joined Sample.trio Sample.crumbling (.start none)
  obtain ⟨last, crew, hall⟩ := hjoined _ w' _ (hmachine 60) hrun
  exact ⟨last, w', crew, hrun, hdeaths, hall⟩

end LoadSweep
