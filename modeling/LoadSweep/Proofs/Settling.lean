import LoadSweep.Proofs.Budget
import LoadSweep.Proofs.Session

/-!
# `LoadSweep/Proofs/Settling.lean` — a plan comes to a result

A phase that runs crews has a result when the crews come to an end. The probe and the preload do so
by themselves: a list of questions gets shorter with every question, and what is left of the keys
gets less with every answer, or the preload stops. Traffic ends when its window limits the requests
of every caller. What follows the last act of a crew is bookkeeping and always has a result, so with
enough steps for each crew a plan has one too (`Harness.session_settles_of_limits`).
-/

set_option autoImplicit false

namespace LoadSweep

/-! ## Jobs that end by themselves -/

theorem Questions.tires (scene : Scene) (requests : List Request) :
    (job requests).Tires scene requests.length fun s _ => s.left.length := by
  refine { enter := ?_, turn := ?_ }
  · intro k n i opened now token r s _ hask
    have hleft : requests = r :: s.left := (of_send hask).1
    rw [hleft]
    exact Nat.lt_succ_self _
  · intro k n sent now token r s s' outcome hask
    have hleft : s.left = r :: s'.left :=
      (of_send (s := (job requests).hear sent now outcome s) hask).1
    rw [hleft]
    exact Nat.lt_succ_self _

theorem Preload.tires (scene : Scene) (keys : KeySpace) (valueSize every : Nat) :
    (job keys valueSize every).Tires scene (keys.size + 1) fun p _ => keys.size - p.loaded := by
  refine { enter := ?_, turn := ?_ }
  · intro k n i opened now token r p _ _
    omega
  · intro k n sent now token r p p' outcome hask
    obtain ⟨hfault, rfl, key, hkey, -⟩ := of_send hask
    have hlt := (Array.getElem?_eq_some_iff.mp hkey).1
    cases outcome with
    | error fault => simp [job] at hfault
    | ok value =>
      simp only [job, advance, KeySpace.size] at hlt ⊢
      omega

/-! ## Phases -/

namespace Run

variable {α σ : Type} {scene : Scene} {w : World}

theorem Settles.pure (a : α) (w : World) : Settles (fun _ => Pure.pure a) w := .const rfl

theorem Settles.fault (f : RunFault) (w : World) :
    Settles (fun _ => (Run.fault f : Run Option α)) w := .const rfl

theorem Settles.die (w : World) : Settles (fun _ => (Run.die : Run Option α)) w := .const rfl

theorem Settles.change (f : World → World) (w : World) : Settles (fun _ => Run.change f) w :=
  .const rfl

theorem Settles.look (f : World → α) (w : World) : Settles (fun _ => Run.look f) w := .const rfl

theorem Settles.say (level : Level) (message : String) (fields : List (String × String))
    (w : World) : Settles (fun _ => Run.say level message fields) w := .const rfl

/-- A crew that comes to its end has a result. -/
theorem Settles.crew {start : World → Crew σ}
    (h : ∃ (w' : World) (crew : Crew σ), Crew.Leads scene w (start w) w' crew ∧ crew.Done w') :
    Settles (fun n => Run.crew (scene.harness n) start) w := by
  obtain ⟨w', crew, hleads, hdone⟩ := h
  obtain ⟨limit, hrun⟩ := hleads.run hdone
  exact ⟨limit, _, fun more hle =>
    Run.crew_of_perform (h := scene.harness more) (Crew.run_mono hle hrun)⟩

end Run

namespace Harness

open Run (Settles)

variable {σ : Type} {scene : Scene} {target : Target} {keys : KeySpace}

theorem alone_settles {job : Job σ} {bound : Nat} {left : σ → Nat → Nat}
    (ht : job.Tires scene bound left) (report : σ → List LogEvent) (w : World) :
    Settles (fun n => (scene.harness n).alone target job report) w := by
  have hstart : Crew.Reaches scene w (.atOpenGate w job 1) w (.atOpenGate w job 1) := .start
  refine .bind (.crew (hstart.ends_of_tires (Crew.atOpenGate_starts w job 1) ht)) ?_
  intro v crew
  match crew.callers with
  | [] | _ :: _ :: _ => exact .die v
  | [c] =>
    refine .bind (.change (·.sayAll (c.dialLog target scene.policy.tries)) v) ?_
    intro v _
    match c.stage with
    | .ended (.served state) => exact .bind (.change _ v) fun v _ => .pure state v
    | .ended (.unserved (.error fault)) => exact .fault (fault.toRunFault target scene.policy.tries) v
    | .ended (.died (some state)) => exact .bind (.change _ v) fun v _ => .die v
    | .ended (.unserved (.ok _)) | .ended (.died none) | .fresh | .attempting .. | .resting _
    | .settled _ | .talking .. => exact .die v

theorem probe_settles (scene : Scene) (target : Target) (w : World) :
    Settles (fun n => (scene.harness n).probe target) w := by
  refine .bind (alone_settles (Questions.tires scene [.ping]) _ w) ?_
  intro v s
  match s.answers with
  | .error cause :: _ => exact .fault _ v
  | [] | .ok _ :: _ => exact .say _ _ _ v

theorem preload_settles (scene : Scene) (target : Target) (keys : KeySpace)
    (valueSize every : Nat) (w : World) :
    Settles (fun n => (scene.harness n).preload target keys valueSize every) w := by
  refine .bind (.say _ _ _ w) fun v _ =>
    .bind (alone_settles (Preload.tires scene keys valueSize every) _ v) ?_
  intro v p
  match p.fault with
  | some cause => exact .fault _ v
  | none =>
    cases hcomplete : p.loaded == keys.size with
    | true => exact .bind (.say _ _ _ v) fun v _ => .pure _ v
    | false => exact .bind (.say _ _ _ v) fun v _ => .pure _ v

theorem load_settles (scene : Scene) (plan : Plan) (keys : KeySpace) (w : World) :
    Settles (fun n => (scene.harness n).load plan keys) w := by
  unfold load
  split
  · exact .bind (.say _ _ _ w) fun v _ => .pure _ v
  · split
    · exact .pure _ w
    · exact .bind (preload_settles scene _ keys _ _ w) fun v _ => .pure _ v

theorem settle_settles (scene : Scene) (target : Target) (callers : List (Caller Traffic))
    (w : World) : Settles (fun n => warmup.settle (scene.harness n) target callers) w := by
  induction callers generalizing w with
  | nil => exact .pure 0 w
  | cons c rest ih =>
    unfold warmup.settle
    refine .bind (.change (·.sayOf c.number (c.dialLog target scene.policy.tries)) w) ?_
    intro v _
    cases c.stage with
    | ended how =>
      cases how with
      | served t => exact .bind (ih v) fun v _ => .pure _ v
      | unserved => exact ih v
      | died => exact .bind (.say _ _ _ v) fun v _ => ih v
    | fresh | attempting | resting | settled | talking => exact ih v

/-- A warm-up whose callers cannot make more than so many requests comes to a result. -/
theorem warmup_settles_of_bounded {duration : Duration} {limit : Nat} {w : World}
    (hb : ∀ i < warmupClients, (scene.script (w.met + i)).Connects scene.policy →
      (scene.script (w.met + i)).Exhausts duration limit) (target : Target) (keys : KeySpace) :
    Settles (fun n => (scene.harness n).warmup target keys duration) w := by
  obtain ⟨before, hbefore, hsay⟩ := Run.say_quiet .info "warm-up"
    [("clients", toString warmupClients), ("duration", duration.toText)] w
  refine .bind_of_ok (fun _ => hsay) (.bind_of_ok (a := before.canShow duration) (fun _ => rfl) ?_)
  rw [← hbefore.met] at hb
  have hrest : Settles (fun n => do
      let crew ← Run.crew (scene.harness n) fun w =>
        .atOpenGate w (Traffic.job keys .get duration (warmupSeed + ·)) warmupClients
      let ops ← warmup.settle (scene.harness n) target crew.callers
      Run.say .info "warm-up done" [("ops", toString ops)]
      pure ops) before := by
    have hstart : Crew.Reaches scene before _ before
      (.atOpenGate before (Traffic.job keys .get duration (warmupSeed + ·)) warmupClients) := .start
    refine .bind (.crew (hstart.ends_of_exhausts (by simp) (Crew.atOpenGate_starts before _ _) rfl
      fun i hi => hb i (by simpa [Crew.atOpenGate] using hi))) ?_
    intro v crew
    exact .bind (settle_settles scene target crew.callers v) fun v _ =>
      .bind (.say _ _ _ v) fun v _ => .pure _ v
  cases before.canShow duration with
  | false => exact ⟨0, _, fun _ _ => Run.bind_of_error rfl⟩
  | true => exact hrest

theorem warmup_settles {duration : Duration} {limit : Nat} (hl : scene.Limits duration limit)
    (target : Target) (keys : KeySpace) (w : World) :
    Settles (fun n => (scene.harness n).warmup target keys duration) w :=
  warmup_settles_of_bounded (fun i _ => hl (w.met + i)) target keys

theorem measure_settles_of_limits {cell : Cell} {limit : Nat}
    (hl : scene.Limits cell.duration limit) (w : World) :
    Settles (fun n => (scene.harness n).measure cell) w :=
  .bind (Cell.workers_settle_of_bounded (hl.bounded w)) fun v _ => .pure _ v

/-- **A plan has a result** when its windows limit the requests of every caller, given enough steps
for each crew. -/
theorem session_settles_of_limits {plan : Plan} {reads requests : Nat}
    (hwarm : scene.Limits plan.warmup reads) (hcells : scene.Limits plan.matrix.duration requests)
    (w : World) : Settles (fun n => (scene.harness n).session plan) w := by
  unfold session
  cases plan.validate with
  | error cause => exact .fault _ w
  | ok =>
    cases KeySpace.build plan.keyCount plan.keyMode with
    | error cause => exact .fault _ w
    | ok keys =>
      refine .bind (.say _ _ _ w) fun v _ => .bind (probe_settles scene plan.target v) fun v _ =>
        .bind (load_settles scene plan keys v) ?_
      intro v loaded
      have hsweep : ∀ v,
          Settles (fun n => (scene.harness n).sweep plan.target plan.matrix keys) v := by
        refine sweepFrom_settles_of_measure ?_ _ 0
        intro cell hcell
        exact measure_settles_of_limits (by rwa [Matrix.duration_of_mem_cells hcell])
      cases loaded with
      | false => exact .pure _ v
      | true =>
        refine .bind (.look _ v) ?_
        intro v set
        cases set with
        | true => exact .pure _ v
        | false =>
          cases plan.warmup.isZero with
          | true => exact hsweep v
          | false => exact .bind (warmup_settles hwarm plan.target keys v) fun v _ => hsweep v

/-- So it has when every request takes time. -/
theorem session_settles (hp : scene.Paced) (plan : Plan) (w : World) :
    Settles (fun n => (scene.harness n).session plan) w :=
  session_settles_of_limits (hp.limits _) (hp.limits _) w

end Harness

end LoadSweep
