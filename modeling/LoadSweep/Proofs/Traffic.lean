import LoadSweep.Harness.Traffic
import LoadSweep.Proofs.Crew.Course

/-!
# `LoadSweep/Proofs/Traffic.lean` — what a caller in traffic does

The job of warm-up and of measured cells (`Traffic.job`). Its three exits are one equivalence:
a caller stops exactly when its connection is lost, its deadline is reached or the token is set
(`Traffic.ask_eq_stop`), for there is always a key to ask for.
-/

set_option autoImplicit false

namespace LoadSweep

namespace Traffic

variable {keys : KeySpace} {request : String → Request} {window : Duration} {seed : Nat → Nat}
  {now : Nat} {token : Bool} {s s' : Traffic} {r : Request}

/-- What ends a caller's loop at a check. -/
def Ends (now : Nat) (token : Bool) (s : Traffic) : Prop :=
  s.lost.isSome = true ∨ s.deadline ≤ now ∨ token = true

theorem key?_draw (keys : KeySpace) (stream : Draw.Stream) :
    ∃ key ∈ keys.keys, keys.key? (Draw.draw keys.size stream).1 = some key := by
  have hlt : (Draw.draw keys.size stream).1 < keys.keys.size := Draw.draw_lt keys.keys_pos stream
  exact ⟨keys.keys[(Draw.draw keys.size stream).1], Array.getElem_mem hlt,
    Array.getElem?_eq_getElem hlt⟩

/-- The next move: nothing more when the loop ends, else a request for the next key. -/
theorem ask_eq (keys : KeySpace) (request : String → Request) (window : Duration)
    (seed : Nat → Nat) (now : Nat) (token : Bool) (s : Traffic) :
    (Ends now token s ∧ (job keys request window seed).ask now token s = .stop s) ∨
    (¬ Ends now token s ∧ ∃ key ∈ keys.keys, (job keys request window seed).ask now token s
      = .send (request key) { s with stream := (Draw.draw keys.size s.stream).2 }) := by
  obtain ⟨key, hmem, hkey⟩ := key?_draw keys s.stream
  unfold Ends job
  simp only [hkey]
  by_cases hlost : s.lost.isSome = true
  · simp [hlost]
  · by_cases hgo : now < s.deadline ∧ token = false
    · right
      refine ⟨?_, key, hmem, by simp [hlost, hgo]⟩
      rintro (h | h | h)
      · exact hlost h
      · omega
      · simp [hgo.2] at h
    · left
      refine ⟨?_, by simp [hlost, hgo]⟩
      cases token with
      | false => exact .inr (.inl (Nat.le_of_not_lt fun hlt => hgo ⟨hlt, rfl⟩))
      | true => exact .inr (.inr rfl)

theorem ask_ne_die : (job keys request window seed).ask now token s ≠ .die := by
  obtain ⟨-, h⟩ | ⟨-, key, -, h⟩ := ask_eq keys request window seed now token s <;> simp [h]

theorem ends_of_stop (h : (job keys request window seed).ask now token s = .stop s') :
    s' = s ∧ Ends now token s := by
  obtain ⟨hends, h'⟩ | ⟨-, key, -, h'⟩ := ask_eq keys request window seed now token s <;>
    rw [h'] at h
  · exact ⟨(Move.stop.inj h).symm, hends⟩
  · simp at h

theorem not_ends_of_send (h : (job keys request window seed).ask now token s = .send r s') :
    ¬ Ends now token s ∧ (∃ key ∈ keys.keys, r = request key) ∧
      s' = { s with stream := (Draw.draw keys.size s.stream).2 } := by
  obtain ⟨-, h'⟩ | ⟨hends, key, hmem, h'⟩ := ask_eq keys request window seed now token s <;>
    rw [h'] at h
  · simp at h
  · obtain ⟨rfl, rfl⟩ := Move.send.inj h
    exact ⟨hends, ⟨key, hmem, rfl⟩, rfl⟩

theorem job_heeds (keys : KeySpace) (request : String → Request) (window : Duration)
    (seed : Nat → Nat) : (job keys request window seed).Heeds :=
  fun _ _ _ _ hask => (not_ends_of_send hask).1 (.inr (.inr rfl))

@[simp] theorem count_deadline (nanos : Nat) (answer : Except ClientFault (Option String))
    (s : Traffic) : (s.count nanos answer).deadline = s.deadline := by
  unfold count
  split
  · rfl
  · split <;> rfl

/-- Every caller has the deadline of its window, counted from the instant the gate opened. -/
theorem course_deadline {script : Script} {i opened start t : Nat} {ts : List Turn}
    (h : (job keys request window seed).Course script i opened start ts s t) :
    s.deadline = opened + window.nanos := by
  refine h.keeps (P := fun s => s.deadline = opened + window.nanos) rfl ?_
  intro s s' now token r later outcome hs hask
  obtain ⟨-, -, rfl⟩ := not_ends_of_send hask
  simpa [job] using hs

theorem course_requests {script : Script} {i opened start t : Nat} {ts : List Turn}
    (h : (job keys request window seed).Course script i opened start ts s t) :
    ∀ x ∈ ts, ∃ key ∈ keys.keys, x.request = request key := by
  induction h with
  | enter => simp
  | turn _ hask _ ih =>
    intro x hx
    rcases List.mem_cons.mp hx with rfl | hx
    · exact (not_ends_of_send hask).2.1
    · exact ih x hx

end Traffic

/-! ## The account -/

namespace Turn

/-- The request succeeded. -/
def succeeded (x : Turn) : Bool := match x.answer with
  | .done _ => true
  | .failed _ | .dies => false

/-- The request failed, and the connection is sound. -/
def failed (x : Turn) : Bool := match x.answer with
  | .failed fault => !fault.isDisconnect
  | .done _ | .dies => false

/-- The request ended the connection. -/
def disconnected (x : Turn) : Bool := match x.answer with
  | .failed fault => fault.isDisconnect
  | .done _ | .dies => false

/-- The nanoseconds from the request to the answer. -/
def latency (x : Turn) : Nat := x.heard - x.sent

end Turn

/-- A sample can hold the latency of every turn, for no wait is that long. -/
theorem Script.latency_turn_le (script : Script) (n t : Nat) (r : Request) :
    (script.turn n t r).latency ≤ WorkerResult.maxSample := by
  have hlatency : (script.turn n t r).latency = (script.replyTo n r).takes.nanos :=
    Nat.add_sub_cancel_left ..
  rw [hlatency]
  exact Nat.le_trans (Duration.waited_le _) (by decide)

namespace Traffic

variable {keys : KeySpace} {request : String → Request} {window : Duration} {seed : Nat → Nat}
  {s : Traffic} {ts : List Turn}

/-- The counters of a caller are those of its turns, which are newest first. -/
structure Tallies (s : Traffic) (ts : List Turn) : Prop where
  ops : s.result.ops = ts.countP Turn.succeeded
  errors : s.result.errors = ts.countP Turn.failed
  latencies : s.result.latencies.toList
    = ((ts.reverse.filter Turn.succeeded).map Turn.latency).take WorkerResult.sampleCap
  lost : s.lost.isSome = (ts.head?.map Turn.disconnected).getD false
  /-- Only the last turn can have ended the connection. -/
  earlier : ∀ x ∈ ts.tail, x.disconnected = false
  answered : ∀ x ∈ ts, x.answer ≠ .dies

theorem Tallies.not_disconnected (h : s.Tallies ts) (hs : s.lost.isSome = false) :
    ∀ x ∈ ts, x.disconnected = false := by
  have hlost := h.lost
  have hearlier := h.earlier
  cases ts with
  | nil => simp
  | cons y rest =>
    rw [hs] at hlost
    simpa using ⟨hlost.symm, hearlier⟩

theorem toList_record (r : WorkerResult) {nanos : Nat} (hfits : nanos ≤ WorkerResult.maxSample)
    {taken : List Nat} (h : r.latencies.toList = taken.take WorkerResult.sampleCap) :
    (r.record nanos).latencies.toList = (taken ++ [nanos]).take WorkerResult.sampleCap := by
  have hsize : r.latencies.size = min WorkerResult.sampleCap taken.length := by
    rw [← Array.length_toList, h, List.length_take]
  unfold WorkerResult.record
  split
  · rename_i hroom
    -- while there is room nothing has been cut off yet
    rw [Nat.min_eq_left hfits, Array.toList_push, h, List.take_of_length_le (by omega),
      List.take_of_length_le (by rw [List.length_append, List.length_singleton]; omega)]
  · rename_i hfull
    rw [h, List.take_append_of_le_length (by omega)]

/-- One more turn is counted in exactly one way. -/
theorem Tallies.count (h : s.Tallies ts) (hs : s.lost.isSome = false) {x : Turn}
    (hfits : x.latency ≤ WorkerResult.maxSample) {outcome : Except ClientFault (Option String)}
    (ho : x.answer.outcome = some outcome) : (s.count x.latency outcome).Tallies (x :: ts) := by
  have hearlier := h.not_disconnected hs
  have hans : x.answer ≠ .dies := by
    rintro hx
    simp [hx, Answer.outcome] at ho
  have hanswered : ∀ y ∈ x :: ts, y.answer ≠ .dies := by
    simpa using ⟨hans, h.answered⟩
  cases hx : x.answer with
  | dies => exact absurd hx hans
  | done value =>
    obtain rfl : .ok value = outcome := by simpa [hx, Answer.outcome] using ho
    refine { ops := ?_, errors := ?_, latencies := ?_, lost := ?_, earlier := hearlier, answered := hanswered }
    · simp [Traffic.count, WorkerResult.record, h.ops, Turn.succeeded, hx]
    · simp [Traffic.count, WorkerResult.record, h.errors, Turn.failed, hx]
    · simp only [Traffic.count]
      rw [toList_record _ hfits h.latencies]
      simp [Turn.succeeded, hx]
    · simp [Traffic.count, hs, Turn.disconnected, hx]
  | failed fault =>
    obtain rfl : .error fault = outcome := by simpa [hx, Answer.outcome] using ho
    cases hd : fault.isDisconnect with
    | true =>
      refine { ops := ?_, errors := ?_, latencies := ?_, lost := ?_, earlier := hearlier, answered := hanswered }
      · simp [Traffic.count, hd, h.ops, Turn.succeeded, hx]
      · simp [Traffic.count, hd, h.errors, Turn.failed, hx]
      · simp [Traffic.count, hd, h.latencies, Turn.succeeded, hx]
      · simp [Traffic.count, hd, Turn.disconnected, hx]
    | false =>
      refine { ops := ?_, errors := ?_, latencies := ?_, lost := ?_, earlier := hearlier, answered := hanswered }
      · simp [Traffic.count, hd, WorkerResult.fail, h.ops, Turn.succeeded, hx]
      · simp [Traffic.count, hd, WorkerResult.fail, h.errors, Turn.failed, hx]
      · simp [Traffic.count, hd, WorkerResult.fail, h.latencies, Turn.succeeded, hx]
      · simp [Traffic.count, hd, hs, Turn.disconnected, hx]

/-- **A caller counts its turns, no more and no less.** -/
theorem course_tallies {script : Script} {i opened start t : Nat}
    (h : (job keys request window seed).Course script i opened start ts s t) : s.Tallies ts := by
  induction h with
  | enter => exact ⟨rfl, rfl, rfl, rfl, by simp, by simp⟩
  | @turn ts s _ t token r outcome _ hask ho ih =>
    obtain ⟨hends, -, rfl⟩ := not_ends_of_send hask
    have hlost : s.lost.isSome = false := by
      simpa using fun h => hends (.inl h)
    have hsame : Tallies { s with stream := (Draw.draw keys.size s.stream).2 } ts := { ih with }
    exact hsame.count hlost (script.latency_turn_le ..) ho

/-- Every turn that was answered is of one of the three kinds. -/
theorem length_eq_countP (h : ∀ x ∈ ts, x.answer ≠ .dies) :
    ts.length = ts.countP Turn.succeeded + ts.countP Turn.failed + ts.countP Turn.disconnected := by
  induction ts with
  | nil => rfl
  | cons x rest ih =>
    obtain ⟨hx, hrest⟩ := List.forall_mem_cons.mp h
    have := ih hrest
    simp only [List.countP_cons, List.length_cons]
    cases hans : x.answer with
    | dies => exact absurd hans hx
    | done => simp [Turn.succeeded, Turn.failed, Turn.disconnected, hans]; omega
    | failed fault =>
      cases hfault : fault.isDisconnect <;>
        simp [Turn.succeeded, Turn.failed, Turn.disconnected, hans, hfault] <;> omega

theorem Tallies.countP_disconnected (h : s.Tallies ts) :
    ts.countP Turn.disconnected = if s.lost.isSome then 1 else 0 := by
  rw [h.lost]
  have hearlier := h.earlier
  cases ts with
  | nil => rfl
  | cons x rest =>
    have hrest : rest.countP Turn.disconnected = 0 :=
      List.countP_eq_zero.mpr fun y hy => by simp [hearlier y hy]
    rw [List.countP_cons, hrest]
    cases hx : x.disconnected <;> simp [hx]

theorem Tallies.length_eq (h : s.Tallies ts) :
    ts.length = s.result.ops + s.result.errors + (if s.lost.isSome then 1 else 0) := by
  rw [h.ops, h.errors, ← h.countP_disconnected]
  exact length_eq_countP h.answered

theorem Tallies.size_latencies (h : s.Tallies ts) :
    s.result.latencies.size = min s.result.ops WorkerResult.sampleCap := by
  rw [← Array.length_toList, h.latencies, h.ops, List.length_take, List.length_map,
    ← List.countP_eq_length_filter, List.countP_reverse, Nat.min_comm]

end Traffic

end LoadSweep
