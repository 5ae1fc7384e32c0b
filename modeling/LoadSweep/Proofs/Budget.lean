import LoadSweep.Proofs.Crew.Dial
import LoadSweep.Proofs.Ending
import LoadSweep.Proofs.Phase
import LoadSweep.Proofs.Shift

/-!
# `LoadSweep/Proofs/Budget.lean` — how many requests fit into a window

The requests of a caller in traffic follow each other without a pause, so their number is bounded by
the script alone: an answer ends the caller, or together they take as long as the window
(`Script.Exhausts`). A crew whose scripts have such a bound comes to its end, also when some of the
requests take no time (`Crew.Reaches.ends_of_exhausts`). A worker that has come to its end has shown
that there is a bound (`Traffic.exhausts_of_ends`).
-/

set_option autoImplicit false

namespace LoadSweep

/-- The answer ends a caller in traffic: it costs the connection, or the caller's life. -/
def Answer.Final : Answer → Prop
  | .done _ => False
  | .failed fault => fault.isDisconnect = true
  | .dies => True

namespace Script

variable {script : Script} {window : Duration} {n m : Nat}

/-- How long the first `n` requests take together, in nanoseconds. -/
def spent (script : Script) : Nat → Nat
  | 0 => 0
  | n + 1 => script.spent n + (script.reply n).takes.nanos

/-- In a window of this length a caller in traffic makes `n` requests at most. -/
def Exhausts (script : Script) (window : Duration) (n : Nat) : Prop :=
  (∃ j < n, (script.reply j).answer.Final) ∨ window.nanos ≤ script.spent n

theorem spent_mono (script : Script) (h : n ≤ m) : script.spent n ≤ script.spent m := by
  induction h with
  | refl => exact Nat.le_refl _
  | step _ ih => exact Nat.le_trans ih (Nat.le_add_right _ _)

theorem Exhausts.mono (h : script.Exhausts window n) (hle : n ≤ m) : script.Exhausts window m := by
  obtain ⟨j, hj, hfinal⟩ | hspent := h
  · exact .inl ⟨j, Nat.lt_of_lt_of_le hj hle, hfinal⟩
  · exact .inr (Nat.le_trans hspent (script.spent_mono hle))

/-- Requests that take `d` nanoseconds each take as many times `d` together, at least. -/
theorem mul_le_spent {d : Nat} (h : ∀ j, d ≤ (script.reply j).takes.nanos) (n : Nat) :
    n * d ≤ script.spent n := by
  induction n with
  | zero => exact Nat.le_of_eq (Nat.zero_mul d)
  | succ n ih =>
    rw [Nat.succ_mul]
    exact Nat.add_le_add ih (h n)

/-- When every request takes time there are at most as many as the window has nanoseconds. -/
theorem exhausts_of_paced (window : Duration) (h : ∀ j, 0 < (script.reply j).takes.nanos) :
    script.Exhausts window window.nanos :=
  .inr (Nat.le_trans (Nat.le_of_eq (Nat.mul_one _).symm) (mul_le_spent h _))

end Script

namespace Traffic

variable {keys : KeySpace} {request : String → Request} {window : Duration} {seed : Nat → Nat}
  {script : Script} {i opened start t now n : Nat} {ts : List Turn} {token : Bool} {s s' : Traffic}
  {r : Request}

theorem course_length (hreq : ∀ key, request key ≠ .ping)
    (h : (job keys request window seed).Course script i opened start ts s t) :
    weightOf ts = ts.length := by
  refine weightOf_eq_length ?_
  intro x hx
  obtain ⟨key, -, hkey⟩ := course_requests h x hx
  rw [hkey]
  exact hreq key

/-- The answers are those of the script, in their order, and the clock has moved on by what they
took. -/
theorem course_replies (hreq : ∀ key, request key ≠ .ping)
    (h : (job keys request window seed).Course script i opened start ts s t) :
    ts.reverse.map (·.answer) = (List.range ts.length).map (fun j => (script.reply j).answer) ∧
      t = start + script.spent ts.length := by
  induction h with
  | enter => exact ⟨rfl, rfl⟩
  | @turn ts s s' t token r outcome hcourse hask _ ih =>
    obtain ⟨hanswers, hnow⟩ := ih
    obtain ⟨-, ⟨key, -, rfl⟩, -⟩ := not_ends_of_send hask
    have hreply : script.replyTo (weightOf ts) (request key) = script.reply ts.length := by
      rw [course_length hreq hcourse]
      unfold Script.replyTo
      cases hkey : request key with
      | ping => exact absurd hkey (hreq key)
      | get | set => rfl
    refine ⟨?_, ?_⟩
    · rw [List.reverse_cons, List.map_append, hanswers, List.length_cons, List.range_succ,
        List.map_append, List.map_singleton, List.map_singleton, Script.turn, hreply]
    · rw [Script.turn, hreply, List.length_cons, Script.spent, hnow, Nat.add_assoc]

/-- A turn of a course is one of the replies, and the other way round. -/
theorem exists_turn_iff (hreq : ∀ key, request key ≠ .ping)
    (h : (job keys request window seed).Course script i opened start ts s t) (P : Answer → Prop) :
    (∃ x ∈ ts, P x.answer) ↔ ∃ j < ts.length, P (script.reply j).answer := by
  have hsame : ∀ a, (∃ x ∈ ts, x.answer = a) ↔ ∃ j < ts.length, (script.reply j).answer = a := by
    intro a
    have hmem : a ∈ ts.reverse.map (·.answer) ↔
        a ∈ (List.range ts.length).map (fun j => (script.reply j).answer) := by
      rw [(course_replies hreq h).1]
    simpa using hmem
  constructor
  · rintro ⟨x, hx, hP⟩
    obtain ⟨j, hj, hanswer⟩ := (hsame _).mp ⟨x, hx, rfl⟩
    exact ⟨j, hj, hanswer ▸ hP⟩
  · rintro ⟨j, hj, hP⟩
    obtain ⟨x, hx, hanswer⟩ := (hsame _).mpr ⟨j, hj, rfl⟩
    exact ⟨x, hx, hanswer ▸ hP⟩

/-- Who still sends has requests left. -/
theorem length_lt_of_exhausts (hreq : ∀ key, request key ≠ .ping) (hstart : opened ≤ start)
    (h : (job keys request window seed).Course script i opened start ts s t)
    (hask : (job keys request window seed).ask t token s = .send r s')
    (he : script.Exhausts window n) : ts.length < n := by
  obtain ⟨hends, -, -⟩ := not_ends_of_send hask
  have htallies := course_tallies h
  refine Nat.lt_of_not_le ?_
  intro hle
  obtain ⟨j, hj, hfinal⟩ | hspent := he.mono hle
  · -- a final answer would have ended the caller
    obtain ⟨x, hx, hxfinal⟩ := (exists_turn_iff hreq h Answer.Final).mpr ⟨j, hj, hfinal⟩
    have hsound : s.lost.isSome = false := by simpa using fun h => hends (.inl h)
    have hdisconnected := htallies.not_disconnected hsound x hx
    cases hanswer : x.answer with
    | done => simp [Answer.Final, hanswer] at hxfinal
    | failed fault =>
      have hlost : fault.isDisconnect = true := by simpa [Answer.Final, hanswer] using hxfinal
      simp [Turn.disconnected, hanswer, hlost] at hdisconnected
    | dies => exact htallies.answered x hx hanswer
  · refine hends (.inr (.inl ?_))
    rw [course_deadline h, (course_replies hreq h).2]
    exact Nat.add_le_add hstart hspent

/-- A caller that came to its end while the token was unset has made all its requests. -/
theorem exhausts_of_ends (hreq : ∀ key, request key ≠ .ping)
    (h : (job keys request window seed).Course script i opened opened ts s t)
    (hends : Ends t false s) : script.Exhausts window ts.length := by
  obtain hlost | hover | hset := hends
  · left
    refine (exists_turn_iff hreq h Answer.Final).mp ?_
    rw [(course_tallies h).lost] at hlost
    cases hts : ts with
    | nil => simp [hts] at hlost
    | cons x rest =>
      refine ⟨x, List.mem_cons_self, ?_⟩
      replace hlost : x.disconnected = true := by simpa [hts] using hlost
      unfold Turn.disconnected at hlost
      cases hanswer : x.answer with
      | done | dies => simp [hanswer] at hlost
      | failed fault => simpa [hanswer, Answer.Final] using hlost
  · right
    rw [course_deadline h, (course_replies hreq h).2] at hover
    omega
  · simp at hset

end Traffic

/-- **Traffic comes to its end when the number of its requests is bounded**, wherever the callers
have got to. -/
theorem Crew.Reaches.ends_of_exhausts {keys : KeySpace} {request : String → Request}
    {window : Duration} {seed : Nat → Nat} {scene : Scene} {w₀ w : World}
    {crew₀ crew : Crew Traffic} {n : Nat} (hreq : ∀ key, request key ≠ .ping)
    (hs : crew₀.Starts w₀) (hjob : crew₀.job = Traffic.job keys request window seed)
    (hb : ∀ i < crew₀.callers.length, (scene.script (w₀.met + i)).Connects scene.policy →
      (scene.script (w₀.met + i)).Exhausts window n)
    (hr : Crew.Reaches scene w₀ crew₀ w crew) :
    ∃ (w' : World) (crew' : Crew Traffic), Crew.Leads scene w crew w' crew' ∧ crew'.Done w' := by
  refine hr.ends_of_left hs (n + 1) (fun c => n - c.sent) ?_
  intro u crew hr
  refine { enter := ?_, turn := ?_ }
  · intros
    exact Nat.lt_succ_of_le (Nat.sub_le _ _)
  · intro j c s s' sent reply outcome token q hc hstage ho hask
    have hmem := List.mem_of_getElem? hc
    have hg := hr.grounded hs
    have ht := hr.onTime hs c hmem
    have hscheduled := ht.scheduled
    rw [Caller.Scheduled, hstage] at hscheduled
    obtain ⟨k, hk⟩ : ∃ k, c.number = some k := by
      have hen := hg.enrolled c hmem
      rwa [Caller.Enrolled, hstage] at hen
    -- the number is one of those that the callers of the crew have
    have hexhausts : (scene.script k).Exhausts window n := by
      obtain ⟨hlow, hhigh⟩ := hg.numbers j c k hc hk
      have hmet := hr.met_eq hs
      have hsize := hr.job_eq.2.2
      have hcount : Crew.numbered crew.callers ≤ crew.callers.length := List.countP_le_length
      have hconnects := ht.connects hscheduled
      rw [Caller.who_eq hk] at hconnects
      have hbound := hb (k - w₀.met) (by omega)
      rw [Nat.add_sub_cancel' hlow] at hbound
      exact hbound hconnects
    have hdue : c.due u crew.gate = some u.now := by rw [Caller.due, hstage]
    obtain ⟨ts, hshow, o, hgate, hcourse⟩ :=
      ((hr.faithful hs).agrees j c hc).heard (w := u) hstage hdue ho
    rw [hr.job_eq.1, hjob] at hcourse hask
    rw [Caller.who_eq hk] at hcourse
    have hlt := Traffic.length_lt_of_exhausts hreq (Nat.le_max_left _ _) hcourse hask hexhausts
    have hsent : c.sent = ts.length := by
      rw [← Traffic.course_length hreq hcourse]
      simpa using hshow.sent
    obtain ⟨-, ⟨key, -, rfl⟩, -⟩ := Traffic.not_ends_of_send hask
    have hweight := Request.weight_of_ne_ping (hreq key)
    show n - (c.sent + (request key).weight) < n - c.sent
    omega

/-- No caller that gets a connection can make more than `n` requests in a window of this length. -/
def Scene.Limits (scene : Scene) (window : Duration) (n : Nat) : Prop :=
  ∀ k, (scene.script k).Connects scene.policy → (scene.script k).Exhausts window n

theorem Scene.Paced.limits {scene : Scene} (hp : scene.Paced) (window : Duration) :
    scene.Limits window window.nanos :=
  fun k _ => Script.exhausts_of_paced window (hp k)

/-- No worker of the cell that gets a connection can make more than `n` requests. -/
def Cell.Bounded (cell : Cell) (scene : Scene) (w : World) (n : Nat) : Prop :=
  ∀ i < cell.concurrency, (scene.script (w.met + i)).Connects scene.policy →
    (scene.script (w.met + i)).Exhausts cell.duration n

theorem Scene.Limits.bounded {scene : Scene} {cell : Cell} {n : Nat}
    (h : scene.Limits cell.duration n) (w : World) : cell.Bounded scene w n :=
  fun i _ => h (w.met + i)

/-- A cell whose requests are bounded gives a result. -/
theorem Cell.workers_settle_of_bounded {cell : Cell} {scene : Scene} {w : World} {n : Nat}
    (hb : cell.Bounded scene w n) :
    Run.Settles (fun limit => (scene.harness limit).workers cell) w := by
  have hstart : Crew.Reaches scene w cell.crew w cell.crew := .start
  have hsize : cell.crew.callers.length = cell.concurrency := List.length_replicate
  obtain ⟨w₁, crew, hleads, hdone⟩ := hstart.ends_of_exhausts cell.request_ne_ping
    (cell.crew_starts w) rfl (by rwa [hsize])
  obtain ⟨limit, hrun⟩ := hleads.run hdone
  exact Harness.workers_settles hrun

end LoadSweep
