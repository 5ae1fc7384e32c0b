import LoadSweep.Proofs.Window

/-!
# `LoadSweep/Proofs/Ending.lean` — a crew comes to an end

A server that answers in no time can keep a worker busy for ever at one instant. This is the only
way not to end (`Crew.Reaches.sends_of_not_ends`). Every act of a caller uses up a part of its
dialling, or takes it through the gate, or is a turn of its job; so a crew ends when there is a
number that every turn of the job lowers (`Crew.Reaches.ends_of_left`). A list of keys or of
questions has such a number by itself (`Job.Tires`). Traffic has one when every request takes time
(`Scene.Paced`): what is left of the window gets shorter with every answer. A run with enough steps
then has a result.
-/

set_option autoImplicit false

namespace LoadSweep

/-- Every request takes time. -/
def Scene.Paced (scene : Scene) : Prop := ∀ k n, 0 < ((scene.script k).reply n).takes.nanos

namespace Crew

variable {σ : Type} {scene : Scene} {w w' v w₀ : World} {crew crew' crew'' crew₀ : Crew σ}

theorem Leads.trans (h : Leads scene w crew w' crew') (h' : Leads scene w' crew' v crew'') :
    Leads scene w crew v crew'' := by
  induction h with
  | refl => exact h'
  | step s _ ih => exact .step s (ih h')

/-- A machine that gets to where nothing is left has a result, given enough steps. -/
theorem Leads.run (h : Leads scene w crew w' crew') (hdone : crew'.Done w') :
    ∃ limit, crew.run scene limit w = some (w', crew') := by
  induction h with
  | refl => exact ⟨1, by rw [Crew.run, step_eq_none.mpr hdone]⟩
  | step s _ ih =>
    obtain ⟨limit, hrun⟩ := ih hdone
    exact ⟨limit + 1, by rw [Crew.run, s]; exact hrun⟩

theorem run_mono {limit more : Nat} (hle : limit ≤ more)
    (h : crew.run scene limit w = some (w', crew')) : crew.run scene more w = some (w', crew') := by
  induction limit generalizing more w crew with
  | zero => simp [run] at h
  | succ limit ih =>
    obtain ⟨more, rfl⟩ : ∃ m, more = m + 1 := ⟨more - 1, by omega⟩
    unfold run at h ⊢
    split at h
    · exact h
    · exact ih (by omega) h

end Crew

/-! ## What is left to do -/

namespace Caller

variable {σ : Type} {scene : Scene} {job : Job σ} {gate : Gate} {i : Nat} {w w' : World}
  {c c' : Caller σ}

/-- What a caller still has to do, when `rest` tells what is left of a job that has been begun, and
`bound` is more than there is at the beginning. -/
def left (tries bound : Nat) (rest : Caller σ → Nat) (c : Caller σ) : Nat :=
  match c.stage with
  | .fresh | .attempting .. | .resting _ => c.toDial tries + bound + 2
  | .settled _ => bound + 1
  | .talking .. => rest c + 1
  | .ended _ => 0

theorem left_of_dialling (h : c.Dialling) (tries bound : Nat) (rest : Caller σ → Nat) :
    c.left tries bound rest = c.toDial tries + bound + 2 := by
  unfold Dialling at h
  unfold left
  cases hs : c.stage <;> simp_all

theorem left_proceed (w : World) (c : Caller σ) (s : σ) {tries bound n : Nat}
    {rest : Caller σ → Nat} (h : ∀ r s', job.ask w.now w.token s = .send r s' →
      rest (c.talk scene w.now r s') < n) :
    (c.proceed scene job w s).2.left tries bound rest < n + 1 := by
  rw [proceed_eq]
  cases hask : job.ask w.now w.token s with
  | stop | die => exact Nat.succ_pos n
  | send r s' => exact Nat.succ_lt_succ (h r s' hask)

/-- Every act of a caller leaves it less to do, if the turns of its job do. -/
theorem Acts.left_lt (h : Acts scene job gate i w c w' c') (bound : Nat) (rest : Caller σ → Nat)
    (hdue : c.due w gate = some w.now)
    (enter : ∀ {opened : Nat} {r : Request} {s' : σ}, c.stage = .settled (.ok ()) →
      gate = .openSince opened → job.ask w.now w.token (job.enter i opened) = .send r s' →
      rest (c.talk scene w.now r s') < bound)
    (turn : ∀ {s s' : σ} {sent due : Nat} {reply : Reply}
      {outcome : Except ClientFault (Option String)} {token : Bool} {r : Request},
      c.stage = .talking s sent due reply → reply.answer.outcome = some outcome →
      job.ask w.now token (job.hear sent w.now outcome s) = .send r s' →
      rest (c.talk scene w.now r s') < rest c) :
    c'.left scene.policy.tries bound rest < c.left scene.policy.tries bound rest := by
  by_cases hd : c.Dialling
  · have hlt := h.toDial_lt hd
    rw [left_of_dialling hd]
    unfold left
    split <;> rename_i hs
    · omega
    · omega
    · omega
    · omega
    · -- who dials does not ask for anything yet
      cases h with
      | started | refused | exhausted | calledOff | accepted | refusedLast => simp [settle] at hs
      | perished => simp [depart] at hs
      | turnedAway h | entered h | heard h | choked h | idle h => simp [Dialling, h] at hd
    · omega
  · cases h with
    | exhausted h | calledOff h | started h => exact absurd h.dialling hd
    | accepted h | refused h | refusedLast h | perished h => simp [Dialling, h] at hd
    | turnedAway h =>
      simp only [left, h, depart]
      exact Nat.succ_pos _
    | entered h hg =>
      rw [left.eq_def _ _ _ c, h]
      exact left_proceed w c _ fun r s' => enter h hg
    | heard h ho wa hwa =>
      subst hwa
      rw [left.eq_def _ _ _ c, h]
      exact left_proceed _ c _ fun r s' => turn h ho
    | choked h =>
      simp only [left, h, depart]
      exact Nat.succ_pos _
    | idle h => simp [Caller.due, h] at hdue

end Caller

/-! ## The crew ends -/

namespace Crew

variable {σ : Type} {scene : Scene} {w w' w₀ : World} {crew crew' crew₀ : Crew σ}

/-- What is left to do: the alarm, the gate, and what the callers have left. -/
def toEnd (scene : Scene) (bound : Nat) (rest : Caller σ → Nat) (w : World) (crew : Crew σ) : Nat :=
  w.alarm.toList.length + (if crew.gate = .shut then 1 else 0)
    + Number.total (crew.callers.map (Caller.left scene.policy.tries bound rest))

/-- The first request of a caller leaves it less than `bound`, and every turn less than before. -/
structure Lessens (scene : Scene) (bound : Nat) (rest : Caller σ → Nat) (w : World)
    (crew : Crew σ) : Prop where
  enter : ∀ {i opened : Nat} {c : Caller σ} {token : Bool} {r : Request} {s' : σ},
    crew.callers[i]? = some c → c.stage = .settled (.ok ()) → crew.gate = .openSince opened →
    crew.job.ask w.now token (crew.job.enter i opened) = .send r s' →
    rest (c.talk scene w.now r s') < bound
  turn : ∀ {i : Nat} {c : Caller σ} {s s' : σ} {sent : Nat} {reply : Reply}
    {outcome : Except ClientFault (Option String)} {token : Bool} {r : Request},
    crew.callers[i]? = some c → c.stage = .talking s sent w.now reply →
    reply.answer.outcome = some outcome →
    crew.job.ask w.now token (crew.job.hear sent w.now outcome s) = .send r s' →
    rest (c.talk scene w.now r s') < rest c

/-- Every step of the machine leaves less to do. -/
theorem Reaches.toEnd_lt (hs : crew₀.Starts w₀) (hr : Reaches scene w₀ crew₀ w crew) {bound : Nat}
    {rest : Caller σ → Nat} (hless : ∀ {v : World} {crew' : Crew σ},
      Reaches scene w₀ crew₀ v crew' → crew'.Lessens scene bound rest v)
    (h : crew.step scene w = some (w', crew')) :
    crew'.toEnd scene bound rest w' < crew.toEnd scene bound rest w := by
  have hg := hr.grounded hs
  obtain ⟨i, due, c, hc, hdue, first, hact⟩ | ⟨hshut, -, rfl, rfl⟩ := step_cases h
  · have hmem := List.mem_of_getElem? hc
    have hle := hg.noneBefore_now c hmem due hdue
    obtain ⟨hrings, rfl, rfl⟩ | ⟨rfl, rfl⟩ := hact
    · have := alarm_ring_lt hrings hle
      unfold toEnd
      omega
    · have ha := Caller.act_acts scene crew.job crew.gate i { w with now := due } c
      -- the act takes place when the clock has moved on to it
      have hthen : Reaches scene w₀ crew₀ { w with now := due } crew :=
        hr.step (.wait due w.alarm hle (.inr ⟨c, hmem, by rw [hdue]; rfl⟩) first)
      have hlt := ha.left_lt bound rest (due_wait hdue)
        (fun hstage hgate hask => (hless hthen).enter hc hstage hgate hask) ?_
      · have hi : (crew.callers.map (Caller.left scene.policy.tries bound rest))[i]?
            = some (c.left scene.policy.tries bound rest) := by rw [List.getElem?_map, hc]; rfl
        have hsum := Number.total_set_lt hi hlt
        rw [← List.map_set] at hsum
        rw [toEnd, show (crew.acted scene { w with now := due } i c).1.alarm = w.alarm from
          ha.alarm_eq (hg.enrolled c hmem)]
        exact Nat.add_lt_add_left hsum _
      · intro s s' sent due' reply outcome token r hstage ho hask
        obtain rfl : due' = due := by simpa [Caller.due, hstage] using hdue
        exact (hless hthen).turn hc hstage ho hask
  · have hopen : (if w'.canShow crew.window then Gate.openSince w'.now else Gate.stuck) ≠ .shut := by
      split <;> simp
    rw [toEnd, toEnd, if_neg hopen, if_pos hshut]
    exact Nat.add_lt_add_right (Nat.lt_succ_self _) _

/-- **A crew ends when every turn leaves less to do**, wherever its callers have got to. -/
theorem Reaches.ends_of_left (hs : crew₀.Starts w₀) (hr : Reaches scene w₀ crew₀ w crew)
    (bound : Nat) (rest : Caller σ → Nat) (hless : ∀ {v : World} {crew' : Crew σ},
      Reaches scene w₀ crew₀ v crew' → crew'.Lessens scene bound rest v) :
    ∃ (w' : World) (crew' : Crew σ), Leads scene w crew w' crew' ∧ crew'.Done w' := by
  induction hn : crew.toEnd scene bound rest w using Nat.strongRecOn generalizing w crew with
  | ind n ih =>
    cases hstep : crew.step scene w with
    | none => exact ⟨w, crew, .refl, step_eq_none.mp hstep⟩
    | some next =>
      obtain ⟨w', crew'⟩ := next
      have hlt := hr.toEnd_lt hs hless hstep
      obtain ⟨v, crew'', hleads, hdone⟩ :=
        ih _ (hn ▸ hlt) (hr.of_step (hr.grounded hs).noneBefore_now hstep) rfl
      exact ⟨v, crew'', .step hstep hleads, hdone⟩

end Crew

/-! ## Jobs that end by themselves -/

/-- A job has a number for every state and instant, less than `bound` at its first request, that
every turn lowers. -/
structure Job.Tires {σ : Type} (job : Job σ) (scene : Scene) (bound : Nat) (left : σ → Nat → Nat) :
    Prop where
  enter : ∀ {k n i opened now : Nat} {token : Bool} {r : Request} {s : σ}, opened ≤ now →
    job.ask now token (job.enter i opened) = .send r s →
    left s (now + ((scene.script k).replyTo n r).takes.nanos) < bound
  turn : ∀ {k n sent now : Nat} {token : Bool} {r : Request} {s s' : σ}
    {outcome : Except ClientFault (Option String)},
    job.ask now token (job.hear sent now outcome s) = .send r s' →
    left s' (now + ((scene.script k).replyTo n r).takes.nanos) < left s now

/-- What a caller has left of such a job. -/
def Caller.leftOf {σ : Type} (left : σ → Nat → Nat) (c : Caller σ) : Nat :=
  match c.stage with
  | .talking s _ due _ => left s due
  | .fresh | .attempting .. | .resting _ | .settled _ | .ended _ => 0

/-- **A crew with such a job ends.** -/
theorem Crew.Reaches.ends_of_tires {σ : Type} {scene : Scene} {w₀ w : World} {crew₀ crew : Crew σ}
    (hs : crew₀.Starts w₀) {bound : Nat} {left : σ → Nat → Nat}
    (ht : crew₀.job.Tires scene bound left) (hr : Crew.Reaches scene w₀ crew₀ w crew) :
    ∃ (w' : World) (crew' : Crew σ), Leads scene w crew w' crew' ∧ crew'.Done w' := by
  refine hr.ends_of_left hs bound (Caller.leftOf left) ?_
  intro v crew' hr'
  rw [← hr'.job_eq.1] at ht
  refine { enter := ?_, turn := ?_ }
  · intro i opened c token r s' _ _ hgate hask
    exact ht.enter ((hr'.grounded hs).gate opened hgate).2 hask
  · intro i c s s' sent reply outcome token r _ hstage _ hask
    rw [Caller.leftOf.eq_def _ c, hstage]
    exact ht.turn hask

/-- Traffic ends when every request takes time: each answer leaves less of the window. -/
theorem Traffic.tires {scene : Scene} (hp : scene.Paced) (keys : KeySpace)
    {request : String → Request} (hreq : ∀ key, request key ≠ .ping) (window : Duration)
    (seed : Nat → Nat) :
    (job keys request window seed).Tires scene (window.nanos + 1) fun t due => t.deadline - due := by
  have htakes : ∀ (k n : Nat) (key : String),
      0 < ((scene.script k).replyTo n (request key)).takes.nanos := by
    intro k n key
    unfold Script.replyTo
    cases hr : request key with
    | ping => exact absurd hr (hreq key)
    | get | set => exact hp k n
  refine { enter := ?_, turn := ?_ }
  · intro k n i opened now token r s hle hask
    obtain ⟨-, -, rfl⟩ := not_ends_of_send hask
    simp only [job]
    omega
  · intro k n sent now token r s s' outcome hask
    obtain ⟨hends, ⟨key, -, rfl⟩, rfl⟩ := not_ends_of_send hask
    have hnow : now < s.deadline := by
      refine Nat.lt_of_not_le fun hle => hends (.inr (.inl ?_))
      simpa [job] using hle
    have := htakes k n key
    simp only [job, count_deadline]
    omega

theorem Cell.request_ne_ping (cell : Cell) (key : String) : cell.request key ≠ .ping := by
  unfold request
  cases cell.operation <;> simp

/-- **A cell whose requests take time ends**, wherever its workers have got to. -/
theorem Crew.Reaches.ends {scene : Scene} {cell : Cell} {w w₀ : World} {crew : Crew Traffic}
    (hr : Crew.Reaches scene w₀ cell.crew w crew) (hp : scene.Paced) :
    ∃ (w' : World) (crew' : Crew Traffic), Leads scene w crew w' crew' ∧ crew'.Done w' :=
  hr.ends_of_tires (cell.crew_starts w₀)
    (Traffic.tires hp cell.keys cell.request_ne_ping cell.duration cell.workerSeed)

/-- **What keeps the workers of a cell from their end is requests**, more than any number. -/
theorem Crew.Reaches.sends_of_not_ends {scene : Scene} {cell : Cell} {w w₀ : World}
    {crew : Crew Traffic} (hr : Crew.Reaches scene w₀ cell.crew w crew)
    (hnever : ¬ ∃ (w' : World) (crew' : Crew Traffic),
      Leads scene w crew w' crew' ∧ crew'.Done w') (n : Nat) :
    ∃ (v : World) (crew' : Crew Traffic), Crew.Reaches scene w₀ cell.crew v crew' ∧
      ∃ c ∈ crew'.callers, n < c.sent := by
  refine Classical.byContradiction fun hlimit => hnever ?_
  refine hr.ends_of_left (cell.crew_starts w₀) (n + 2) (fun c => n + 1 - c.sent) ?_
  intro v crew' hr'
  refine { enter := ?_, turn := ?_ }
  · intros
    exact Nat.lt_succ_of_le (Nat.sub_le _ _)
  · intro i c s s' sent reply outcome token r hc _ _ hask
    have hsent : c.sent ≤ n :=
      Nat.le_of_not_lt fun hlt => hlimit ⟨v, crew', hr', c, List.mem_of_getElem? hc, hlt⟩
    rw [hr'.job_eq.1] at hask
    obtain ⟨-, ⟨key, -, rfl⟩, -⟩ := Traffic.not_ends_of_send hask
    have hweight := Request.weight_of_ne_ping (cell.request_ne_ping key)
    show n + 1 - (c.sent + (cell.request key).weight) < n + 1 - c.sent
    omega

end LoadSweep
