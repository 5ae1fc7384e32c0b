import LoadSweep.Proofs.Crew.Flight
import LoadSweep.Proofs.Session

/-!
# `LoadSweep/Proofs/Silence.lean` — once the token is set nothing new starts

The token is looked at in five places: before an attempt, at the end of a rest, before a request of
traffic, before a write of a preload, and between the phases. Between a look and what it allows no
time passes and nobody else acts, so an entry that begins something was added with the token unset
(`Entry.Allowed`). One look is missing on purpose: a probe that has a connection sends its ping
whatever the token says.

`World.Orderly` says this of a whole history. Every crew keeps it, and a phase is nothing but crews
and log entries (`Harness.Passes`), so it holds after any phases in any order, and, because a crew
may be left at any point, in the middle of one. What remains to happen once the token is set is then
read off the history: the pings of probes that had begun to dial, and the ends of what was under way
(`Silent`).
-/

set_option autoImplicit false

namespace LoadSweep

/-! ## What a history may hold -/

/-- Whether the token is set in a trace. -/
def cancelledIn (tr : List Entry) : Bool := tr.any (·.event = .cancelled)

theorem cancelledIn_iff {tr : List Entry} : cancelledIn tr = true ↔ ∃ t, ⟨t, .cancelled⟩ ∈ tr := by
  have h : (World.start none).tokenAfter tr = true ↔ _ := World.tokenAfter_iff
  simpa [World.tokenAfter, World.start, cancelledIn] using h

/-- A caller has not asked for anything. -/
def Unasked (k : Nat) (tr : List Entry) : Prop := ∀ t r, ⟨t, .asked k r⟩ ∉ tr

/-- What may be added to a history: attempts and requests while the token is unset, and also after
that the one ping of a caller that had begun to dial; and answers to requests that are open. -/
def Entry.Allowed (older : List Entry) (e : Entry) : Prop :=
  match e.event with
  | .attempted _ => cancelledIn older = false
  | .asked k r => (∃ t, ⟨t, .attempted k⟩ ∈ older) ∧
      (cancelledIn older = false ∨ (r = .ping ∧ Unasked k older))
  | .answered k _ => pending k older ≠ none
  | .refused .. | .connected _ | .died _ | .cancelled => True

/-- Every entry of a history was allowed, and the token is what the history says. -/
structure World.Orderly (w : World) : Prop where
  numbered : w.Numbered
  token : w.token = cancelledIn w.history
  allowed : ∀ (newer older : List Entry) (e : Entry), w.history = newer ++ e :: older →
    e.Allowed older

/-- Everything that began has ended, at the instant and in the way that the script has for it. -/
def World.Landed (scene : Scene) (w : World) : Prop :=
  ∀ (newer older : List Entry) (e x : Entry), w.history = newer ++ e :: older →
    e.ending scene older = some x → x ∈ newer

theorem World.start_orderly (alarm : Option Duration) : (World.start alarm).Orderly where
  numbered := by simp [World.Numbered, World.start]
  token := rfl
  allowed := by simp [World.start]

/-- The worlds differ in their clocks and their logs at most. -/
structure World.Like (w v : World) : Prop where
  history : v.history = w.history
  token : v.token = w.token
  met : v.met = w.met

theorem World.Quiet.like {w v : World} (h : w.Quiet v) : w.Like v := ⟨h.history, h.token, h.met⟩

/-- In a sleep nothing happens, or the alarm rings. -/
theorem World.sleep_like (w : World) (d : Duration) :
    w.Like (w.sleep d) ∨ ∃ v : World, w.Like v ∧ v.cancel.Like (w.sleep d) := by
  unfold World.sleep
  dsimp only
  by_cases hrings : w.rings (w.now + d.wait) = true
  · obtain ⟨u, -, -, hring⟩ := Crew.ring_eq hrings (Nat.le_add_right _ _)
    rw [if_pos hrings, hring]
    exact .inr ⟨{ w with now := u, alarm := none }, ⟨rfl, rfl, rfl⟩, ⟨rfl, rfl, rfl⟩⟩
  · rw [if_neg hrings]
    exact .inl ⟨rfl, rfl, rfl⟩

namespace World.Orderly

variable {w w' : World}

theorem like (h : w.Orderly) (hl : w.Like w') : w'.Orderly where
  numbered := by
    unfold World.Numbered
    rw [hl.history, hl.met]
    exact h.numbered
  token := by rw [hl.token, hl.history, h.token]
  allowed := by
    rw [hl.history]
    exact h.allowed

/-- The token may be set at any time, by anybody. -/
theorem cancel (h : w.Orderly) : w.cancel.Orderly := by
  unfold World.cancel
  split
  · exact h
  · refine { numbered := ?_, token := rfl, allowed := ?_ }
    · intro e he k hk
      rcases List.mem_cons.mp he with rfl | he
      · simp [Happening.caller?] at hk
      · exact h.numbered e he k hk
    · intro newer older e heq
      cases newer with
      | nil =>
        obtain ⟨rfl, -⟩ := List.cons.inj heq
        trivial
      | cons x between => exact h.allowed between older e (List.cons.inj heq).2

end World.Orderly

theorem World.Landed.like {scene : Scene} {w w' : World} (h : w.Landed scene) (hl : w.Like w') :
    w'.Landed scene := by
  unfold World.Landed
  rw [hl.history]
  exact h

/-- A token that is set begins nothing that would have to end. -/
theorem World.Landed.cancel {scene : Scene} {w : World} (h : w.Landed scene) :
    w.cancel.Landed scene := by
  unfold World.cancel
  split
  · exact h
  · intro newer older e x heq hx
    cases newer with
    | nil =>
      obtain ⟨rfl, -⟩ := List.cons.inj heq
      simp [Entry.ending] at hx
    | cons y between =>
      exact List.mem_cons_of_mem _ (h between older e x (List.cons.inj heq).2 hx)

/-! ## Jobs and the token -/

/-- A request is sent while the token is unset, or it is the only ping of its caller. -/
def Job.Quits {σ : Type} (job : Job σ) : Prop :=
  ∀ {scene : Scene} {w₀ : World} {gate : Gate} {tr newer older : List Entry} {t k : Nat}
    {r : Request}, job.Licensed scene w₀ gate tr → tr = newer ++ ⟨t, .asked k r⟩ :: older →
    w₀.tokenAfter older = false ∨ (r = .ping ∧ Unasked k older)

theorem Preload.job_heeds (keys : KeySpace) (valueSize every : Nat) :
    (job keys valueSize every).Heeds := by
  intro now s s' r hask
  unfold job at hask
  cases hfault : s.fault with
  | some => simp [hfault] at hask
  | none =>
    cases hkey : keys.key? s.loaded with
    | none => simp [hfault, hkey] at hask
    | some => simp [hfault, hkey] at hask

theorem Job.Heeds.unset {σ : Type} {job : Job σ} (h : job.Heeds) {scene : Scene} {w₀ : World}
    {gate : Gate} {tr newer older : List Entry} {t k : Nat} {r : Request}
    (hl : job.Licensed scene w₀ gate tr) (heq : tr = newer ++ ⟨t, .asked k r⟩ :: older) :
    w₀.tokenAfter older = false := by
  obtain ⟨_, _, _, _, _, _, _, _, _, hask, _⟩ :=
    hl t k r older (heq ▸ List.suffix_append newer _)
  cases hset : w₀.tokenAfter older with
  | false => rfl
  | true =>
    rw [hset] at hask
    exact absurd hask (h _ _ _ _)

theorem Job.Heeds.quits {σ : Type} {job : Job σ} (h : job.Heeds) : job.Quits :=
  fun hl heq => .inl (h.unset hl heq)

/-- A request stays in sight: it is open, or it is part of a turn. -/
theorem unasked_of_share {k : Nat} {tr : List Entry} (ht : turns k tr = [])
    (hp : pending k tr = none) : Unasked k tr := by
  induction tr with
  | nil => simp [Unasked]
  | cons e rest ih =>
    have hcons : turns k rest = [] → pending k rest = none → (∀ r, e.event ≠ .asked k r) →
        Unasked k (e :: rest) := by
      intro ht hp he t r hmem
      rcases List.mem_cons.mp hmem with rfl | hmem
      · exact he r rfl
      · exact ih ht hp t r hmem
    obtain ⟨u, e⟩ := e
    cases e with
    | asked c q =>
      by_cases hc : c = k
      · simp [pending, hc] at hp
      · refine hcons (by simpa [turns] using ht) (by simpa [pending, hc] using hp) ?_
        intro r he
        exact hc (Happening.asked.inj he).1
    | answered c a =>
      by_cases hc : c = k
      · -- an answer to an open request would have made a turn
        cases hopen : pending k rest with
        | none => exact hcons (by simpa [turns, hc, hopen] using ht) hopen (by simp)
        | some => simp [turns, hc, hopen] at ht
      · exact hcons (by simpa [turns, hc] using ht) (by simpa [pending, hc] using hp) (by simp)
    | attempted | refused | connected | died | cancelled =>
      exact hcons (by simpa [turns] using ht) (by simpa [pending] using hp) (by simp)

/-- A probe asks once, and for a ping. -/
theorem Questions.probe_quits : (Questions.job [.ping]).Quits := by
  intro scene w₀ gate tr newer older t k r hl heq
  obtain ⟨i, opened, start, ts, s, s', _, _, hcourse, hask, hturns, hpending⟩ :=
    hl t k r older (heq ▸ List.suffix_append newer _)
  have hping := Questions.job_sends _ hcourse hask
  obtain rfl := List.mem_singleton.mp hping
  refine .inr ⟨rfl, unasked_of_share ?_ hpending⟩
  -- a question is left, so there was no turn yet
  have hleft := Questions.course_left hcourse
  rw [(Questions.of_send hask).1, List.length_cons, List.length_singleton] at hleft
  rw [hturns]
  exact List.eq_nil_of_length_eq_zero (by omega)

/-! ## A crew keeps it -/

theorem Dealings.ofHistory_append_of_absent {k : Nat} {older : List Entry}
    (h : ∀ e ∈ older, e.event.caller? ≠ some k) (newer : List Entry) :
    Dealings.ofHistory (newer ++ older) k = Dealings.ofHistory newer k := by
  induction newer with
  | nil => exact congrArg Share.dealings (share_of_absent h)
  | cons e rest ih => rw [List.cons_append, ofHistory_cons, ofHistory_cons, ih]

theorem pending_of_some {k : Nat} {newer : List Entry} (h : pending k newer ≠ none)
    (older : List Entry) : pending k (newer ++ older) ≠ none := by
  induction newer with
  | nil => exact absurd rfl h
  | cons e rest ih =>
    obtain ⟨u, e⟩ := e
    cases e with
    | asked c q =>
      by_cases hc : c = k
      · simp [pending, hc]
      · simpa [pending, hc] using ih (by simpa [pending, hc] using h)
    | answered c a =>
      by_cases hc : c = k
      · simp [pending, hc] at h
      · simpa [pending, hc] using ih (by simpa [pending, hc] using h)
    | attempted | refused | connected | died | cancelled =>
      simpa [pending] using ih (by simpa [pending] using h)

namespace Crew

variable {σ : Type} {scene : Scene} {w₀ w : World} {crew₀ crew : Crew σ}

/-- **A crew adds to an orderly history only what is allowed.** -/
theorem Reaches.orderly_of (hs : crew₀.Starts w₀) (hj : crew₀.job.Quits)
    (h : Reaches scene w₀ crew₀ w crew) (ho : w₀.Orderly) : w.Orderly := by
  have hf := h.faithful hs
  have hlawful := (h.orderly hs).lawful
  have hhistory := h.history_eq hs
  have htoken : ∀ tr, w₀.tokenAfter tr = cancelledIn (tr ++ w₀.history) := by
    intro tr
    rw [World.tokenAfter, ho.token, cancelledIn, cancelledIn, List.any_append, Bool.or_comm]
  refine { numbered := h.numbered hs ho.numbered, token := ?_, allowed := ?_ }
  · rw [hf.traces.token, htoken, ← hhistory]
  · intro newer older e heq
    rw [hhistory] at heq
    obtain ⟨between, hold, -⟩ | ⟨between, hsince, rfl⟩ := entry_of_append heq
    · exact ho.allowed between older e hold
    · have hlaw := hlawful newer between e hsince
      obtain ⟨t, e⟩ := e
      cases e with
      | attempted k =>
        show cancelledIn _ = false
        rw [← htoken]
        exact hlaw
      | answered k a => exact pending_of_some hlaw _
      | asked k r =>
        obtain ⟨u, hu⟩ := hlaw
        refine ⟨⟨u, List.mem_append_left _ hu⟩, ?_⟩
        have hl := hf.licensed
        rw [h.job_eq.1] at hl
        obtain hunset | ⟨hping, hfirst⟩ := hj hl hsince
        · left
          rw [← htoken]
          exact hunset
        · refine .inr ⟨hping, ?_⟩
          intro v r' hmem
          rcases List.mem_append.mp hmem with hmem | hmem
          · exact hfirst v r' hmem
          · -- the number was given by this crew, so earlier entries are of others
            have hlt := ho.numbered _ hmem k rfl
            have hge := (hf.heard_range (e := ⟨t, .asked k r⟩)
              (hsince ▸ List.mem_append_right _ List.mem_cons_self) rfl).1
            omega
      | refused | connected | died | cancelled => trivial

/-- **When a crew has come to its end, so has everything that it began.** -/
theorem Reaches.landed_of (hs : crew₀.Starts w₀) (h : Reaches scene w₀ crew₀ w crew)
    (hdone : crew.Done w) (ho : w₀.Orderly) (hl : w₀.Landed scene) : w.Landed scene := by
  have hf := h.faithful hs
  have hhistory := h.history_eq hs
  intro newer older e x heq hx
  rw [hhistory] at heq
  obtain ⟨between, hold, rfl⟩ | ⟨between, hsince, rfl⟩ := entry_of_append heq
  · exact List.mem_append_right _ (hl between older e x hold hx)
  · refine (h.orderly hs).landed hdone hsince ?_
    rw [← hx]
    -- earlier crews know nothing of this caller
    have habsent : ∀ k, e.event.caller? = some k →
        Dealings.ofHistory (between ++ w₀.history) k = Dealings.ofHistory between k := by
      intro k hk
      refine Dealings.ofHistory_append_of_absent ?_ between
      intro y hy hyk
      have hlt := ho.numbered y hy k hyk
      have hge := (hf.heard_range (hsince ▸ List.mem_append_right _ List.mem_cons_self) hk).1
      omega
    obtain ⟨t, e⟩ := e
    cases e with
    | attempted k | asked k =>
      simp only [Entry.ending]
      rw [habsent k rfl]
    | refused | connected | answered | died | cancelled => rfl

end Crew

/-! ## Phases -/

namespace Harness

/-- From one world to another there are only crews that heed the token, and log entries. -/
inductive Passes (h : Harness Option) : World → World → Prop
  | quiet {w w' : World} (hq : w.Quiet w') : Passes h w w'
  | crew {σ : Type} {w w' : World} {crew₀ crew : Crew σ} (hs : crew₀.Starts w)
    (hj : crew₀.job.Quits) (hrun : h.perform w crew₀ = some (w', crew)) : Passes h w w'
  | trans {w v w' : World} (hfirst : Passes h w v) (hnext : Passes h v w') : Passes h w w'

/-- The harness runs its crews in a scene, but may leave them at any point. -/
def Keeps (h : Harness Option) (scene : Scene) : Prop :=
  ∀ {σ : Type} {w w' : World} {crew crew' : Crew σ}, crew.Starts w →
    h.perform w crew = some (w', crew') → Crew.Reaches scene w crew w' crew'

variable {h : Harness Option} {scene : Scene} {w w' : World}

theorem Follows.keeps (hf : h.Follows scene) : h.Keeps scene := fun hs hrun => (hf hs hrun).1

theorem Passes.orderly (hk : h.Keeps scene) (hp : h.Passes w w') (ho : w.Orderly) :
    w'.Orderly := by
  induction hp with
  | quiet hq => exact ho.like hq.like
  | crew hs hj hrun => exact (hk hs hrun).orderly_of hs hj ho
  | trans _ _ ih ih' => exact ih' (ih ho)

theorem Passes.landed (hf : h.Follows scene) (hp : h.Passes w w') (ho : w.Orderly)
    (hl : w.Landed scene) : w'.Landed scene := by
  induction hp with
  | quiet hq => exact hl.like hq.like
  | crew hs hj hrun => exact (hf hs hrun).1.landed_of hs (hf hs hrun).2 ho hl
  | trans hfirst _ ih ih' => exact ih' (hfirst.orderly hf.keeps ho) (ih ho hl)

end Harness

/-- A phase is such a passage, whatever it comes to. -/
def Run.Passes (h : Harness Option) {α : Type} (x : Run Option α) : Prop :=
  ∀ (w w' : World) (r : Except Stop α), x w = some (w', r) → h.Passes w w'

namespace Run.Passes

variable {h : Harness Option} {α β : Type}

theorem bind {x : Run Option α} {k : α → Run Option β} (hx : Run.Passes h x)
    (hk : ∀ a, Run.Passes h (k a)) : Run.Passes h (x >>= k) := by
  intro w w' r hrun
  obtain ⟨v, a, hfirst, hnext⟩ | ⟨e, hfirst, -⟩ := Run.of_bind hrun
  · exact .trans (hx w v _ hfirst) (hk a v w' r hnext)
  · exact hx w w' _ hfirst

theorem pure (a : α) : Run.Passes h (pure a) := by
  intro w w' r hrun
  obtain ⟨rfl, -⟩ := Run.of_pure hrun
  exact .quiet (.refl _)

theorem fault (f : RunFault) : Run.Passes h (Run.fault f : Run Option α) := by
  intro w w' r hrun
  obtain ⟨rfl, -⟩ := Run.of_fault hrun
  exact .quiet (.refl _)

theorem die : Run.Passes h (Run.die : Run Option α) := by
  intro w w' r hrun
  obtain ⟨rfl, -⟩ := Run.of_die hrun
  exact .quiet (.refl _)

theorem look (f : World → α) : Run.Passes h (Run.look f) := by
  intro w w' r hrun
  obtain ⟨rfl, -⟩ := Prod.mk.inj (Option.some.inj hrun)
  exact .quiet (.refl _)

theorem say (level : Level) (message : String) (fields : List (String × String)) :
    Run.Passes h (Run.say level message fields) :=
  fun _ _ _ hrun => .quiet (Run.quiet_of_say hrun)

theorem alone {σ : Type} {job : Job σ} (hj : job.Quits) (target : Target)
    (report : σ → List LogEvent) : Run.Passes h (h.alone target job report) := by
  intro w w' r hrun
  obtain ⟨v, crew, hperform, hquiet, -⟩ := Harness.of_alone hrun
  exact .trans (.crew (Crew.atOpenGate_starts w job 1) hj hperform) (.quiet hquiet)

theorem probe (target : Target) : Run.Passes h (h.probe target) := by
  refine bind (alone Questions.probe_quits target _) ?_
  intro s
  split
  · exact fault _
  · exact say _ _ _

theorem preload (target : Target) (keys : KeySpace) (valueSize every : Nat) :
    Run.Passes h (h.preload target keys valueSize every) := by
  refine bind (say _ _ _) fun _ => bind (alone (Preload.job_heeds _ _ _).quits target _) ?_
  intro p
  split
  · exact fault _
  · dsimp only
    split
    · exact bind (say _ _ _) fun _ => pure _
    · exact bind (say _ _ _) fun _ => pure _

theorem crew {σ : Type} {start : World → Crew σ} (hs : ∀ w, (start w).Starts w)
    (hj : ∀ w, (start w).job.Quits) : Run.Passes h (Run.crew h start) := by
  intro w w' r hrun
  cases hp : h.perform w (start w) with
  | none => simp [Run.crew_of_none hp] at hrun
  | some p =>
    rw [Run.crew_of_perform hp] at hrun
    obtain ⟨rfl, -⟩ := Prod.mk.inj (Option.some.inj hrun)
    exact .crew (hs w) (hj w) hp

theorem settle (target : Target) (callers : List (Caller Traffic)) :
    Run.Passes h (Harness.warmup.settle h target callers) := by
  intro w w' r hrun
  obtain ⟨v, hquiet, heq⟩ := Harness.settle_quiet h target callers w
  obtain ⟨rfl, -⟩ := Prod.mk.inj (Option.some.inj (heq.symm.trans hrun))
  exact .quiet hquiet

theorem warmup (target : Target) (keys : KeySpace) (duration : Duration) :
    Run.Passes h (h.warmup target keys duration) := by
  have hcrew : Run.Passes h (Run.crew h fun w =>
      .atOpenGate w (Traffic.job keys .get duration (warmupSeed + ·)) warmupClients) :=
    crew (fun w => Crew.atOpenGate_starts w _ _) fun _ => (Traffic.job_heeds _ _ _ _).quits
  refine bind (say _ _ _) fun _ => bind (look _) ?_
  intro shown
  have hrest : Run.Passes h (Run.crew h (fun w => .atOpenGate w
      (Traffic.job keys .get duration (warmupSeed + ·)) warmupClients) >>= fun crew => do
        let ops ← Harness.warmup.settle h target crew.callers
        Run.say .info "warm-up done" [("ops", toString ops)]
        Pure.pure ops) :=
    bind hcrew fun crew => bind (settle _ _) fun ops => bind (say _ _ _) fun _ => pure _
  cases shown with
  | false => exact bind die fun _ => hrest
  | true => exact hrest

theorem measure (cell : Cell) : Run.Passes h (h.measure cell) := by
  intro w w' r hrun
  obtain ⟨after, crew, hperform, hquiet, -⟩ := Harness.of_measure hrun
  exact .trans (.crew (cell.crew_starts w) (Traffic.job_heeds _ _ _ _).quits hperform)
    (.quiet hquiet)

theorem sweepFrom (total index : Nat) (cells : List Cell) :
    Run.Passes h (h.sweepFrom total index cells) := by
  induction cells generalizing index with
  | nil => exact pure _
  | cons cell rest ih =>
    refine bind (look _) ?_
    intro set
    cases set with
    | true => exact bind (say _ _ _) fun _ => pure _
    | false =>
      refine bind (say _ _ _) fun _ => bind (measure cell) fun row => bind (look _) ?_
      intro set
      cases set with
      | true => exact bind (say _ _ _) fun _ => pure _
      | false => exact bind (say _ _ _) fun _ => bind (ih _) fun _ => pure _

theorem load (plan : Plan) (keys : KeySpace) : Run.Passes h (h.load plan keys) := by
  unfold Harness.load
  split
  · exact bind (say _ _ _) fun _ => pure _
  · split
    · exact pure _
    · exact bind (preload _ _ _ _) fun _ => pure _

theorem session (plan : Plan) : Run.Passes h (h.session plan) := by
  unfold Harness.session
  split
  · exact fault _
  · split
    · exact fault _
    · refine bind (say _ _ _) fun _ => bind (probe _) fun _ => bind (load _ _) ?_
      intro loaded
      cases loaded with
      | false => exact pure _
      | true =>
        refine bind (look _) ?_
        intro set
        cases set with
        | true => exact pure _
        | false =>
          cases plan.warmup.isZero with
          | true => exact sweepFrom _ _ _
          | false => exact bind (warmup _ _ _) fun _ => sweepFrom _ _ _

end Run.Passes

/-- The phases that the harness has. -/
inductive Phase where
  | probe (target : Target)
  | preload (target : Target) (keys : KeySpace) (valueSize reportEvery : Nat)
  | warmup (target : Target) (keys : KeySpace) (duration : Duration)
  | cell (cell : Cell)
  | sweep (target : Target) (matrix : Matrix) (keys : KeySpace)
  | session (plan : Plan)

/-- The world after a phase, whatever it comes to. -/
def Phase.world (h : Harness Option) (w : World) : Phase → Option World
  | .probe target => (h.probe target w).map (·.1)
  | .preload target keys valueSize reportEvery =>
    (h.preload target keys valueSize reportEvery w).map (·.1)
  | .warmup target keys duration => (h.warmup target keys duration w).map (·.1)
  | .cell c => (h.measure c w).map (·.1)
  | .sweep target matrix keys => (h.sweep target matrix keys w).map (·.1)
  | .session plan => (h.session plan w).map (·.1)

theorem Phase.passes {h : Harness Option} {w w' : World} {phase : Phase}
    (hrun : phase.world h w = some w') : h.Passes w w' := by
  have hmap : ∀ {α : Type} {x : Run Option α}, Run.Passes h x → (x w).map (·.1) = some w' →
      h.Passes w w' := by
    intro α x hx hsome
    obtain ⟨⟨v, r⟩, hv, rfl⟩ := Option.map_eq_some_iff.mp hsome
    exact hx w v r hv
  cases phase with
  | probe => exact hmap (Run.Passes.probe _) hrun
  | preload => exact hmap (Run.Passes.preload _ _ _ _) hrun
  | warmup => exact hmap (Run.Passes.warmup _ _ _) hrun
  | cell => exact hmap (Run.Passes.measure _) hrun
  | sweep => exact hmap (Run.Passes.sweepFrom _ _ _) hrun
  | session => exact hmap (Run.Passes.session _) hrun

/-- The worlds that a harness comes to by phases in any order. Between them time may pass, and
anybody may set the token. -/
inductive Harness.Attains (h : Harness Option) : World → Prop
  | start (alarm : Option Duration) : Attains h (.start alarm)
  | phase {w w' : World} (hw : Attains h w) (phase : Phase) (hrun : phase.world h w = some w') :
    Attains h w'
  | sleep {w : World} (hw : Attains h w) (d : Duration) : Attains h (w.sleep d)
  | cancel {w : World} (hw : Attains h w) : Attains h w.cancel

namespace Harness

variable {h : Harness Option} {scene : Scene} {w : World}

theorem Attains.orderly (hk : h.Keeps scene) (hw : h.Attains w) : w.Orderly := by
  induction hw with
  | start alarm => exact World.start_orderly alarm
  | phase _ phase hrun ih => exact (Phase.passes hrun).orderly hk ih
  | sleep _ d ih =>
    obtain hlike | ⟨v, hlike, hring⟩ := World.sleep_like _ d
    · exact ih.like hlike
    · exact (ih.like hlike).cancel.like hring
  | cancel _ ih => exact ih.cancel

theorem Attains.landed (hf : h.Follows scene) (hw : h.Attains w) : w.Landed scene := by
  induction hw with
  | start => simp [World.Landed, World.start]
  | phase hw phase hrun ih =>
    exact (Phase.passes hrun).landed hf (hw.orderly hf.keeps) ih
  | sleep _ d ih =>
    obtain hlike | ⟨v, hlike, hring⟩ := World.sleep_like _ d
    · exact ih.like hlike
    · exact (ih.like hlike).cancel.like hring
  | cancel _ ih => exact ih.cancel

end Harness

/-! ## What remains to happen -/

/-- The happening is an answer to a caller. -/
def Happening.answers (k : Nat) : Happening → Bool
  | .answered c _ => c = k
  | .attempted _ | .refused .. | .connected _ | .asked .. | .died _ | .cancelled => false

/-- What happens after the token is set, `older` being what had happened until then. -/
structure Silent (older newer : List Entry) : Prop where
  /-- No attempt starts. -/
  attempts : ∀ t k, ⟨t, .attempted k⟩ ∉ newer
  /-- No request starts but the first one of a caller whose attempt had begun, and that is a ping. -/
  requests : ∀ t k r, ⟨t, .asked k r⟩ ∈ newer →
    r = .ping ∧ (∃ u, ⟨u, .attempted k⟩ ∈ older) ∧ Unasked k older
  /-- No connection completes more than one further request. -/
  answers : ∀ k, newer.countP (·.event.answers k) ≤ 1

theorem cancelledIn_append {older : List Entry} (h : cancelledIn older = true)
    (newer : List Entry) : cancelledIn (newer ++ older) = true := by
  rw [cancelledIn, List.any_append, Bool.or_eq_true]
  exact .inr h

/-- Who has not asked gets no answer. -/
theorem answers_of_unasked {k : Nat} {newer older : List Entry}
    (hall : EachOf (fun older e => e.Allowed older) older newer) (h : Unasked k (newer ++ older)) :
    newer.countP (·.event.answers k) = 0 := by
  induction newer with
  | nil => rfl
  | cons e rest ih =>
    have hrest : Unasked k (rest ++ older) := fun t r hmem =>
      h t r (List.mem_cons_of_mem _ hmem)
    rw [List.countP_cons, ih hall.2 hrest, Nat.zero_add, if_neg]
    intro he
    obtain ⟨u, e⟩ := e
    cases e with
    | answered c a =>
      obtain rfl : c = k := by simpa [Happening.answers] using he
      cases hp : pending c (rest ++ older) with
      | none => exact hall.1 hp
      | some p => exact hrest _ _ (mem_of_pending hp)
    | attempted | refused | connected | asked | died | cancelled => simp [Happening.answers] at he

/-- A caller that is answered has no open request any more, and does not open another one. -/
theorem answers_le {k : Nat} {newer older : List Entry}
    (hall : EachOf (fun older e => e.Allowed older) older newer) (hset : cancelledIn older = true) :
    newer.countP (·.event.answers k) + (pending k (newer ++ older)).toList.length ≤ 1 := by
  induction newer with
  | nil =>
    rw [List.countP_nil, Nat.zero_add]
    exact Option.length_toList_le
  | cons e rest ih =>
    have hle := ih hall.2
    have hallowed := hall.1
    obtain ⟨u, e⟩ := e
    cases e with
    | asked c r =>
      by_cases hc : c = k
      · subst hc
        -- with the token set it is the caller's first request, so there was no answer yet
        obtain ⟨-, hunset | ⟨-, hfirst⟩⟩ := hallowed
        · simp [cancelledIn_append hset] at hunset
        · rw [List.countP_cons, answers_of_unasked hall.2 hfirst]
          simp [Happening.answers, pending]
      · simpa [Happening.answers, pending, hc] using hle
    | answered c a =>
      by_cases hc : c = k
      · subst hc
        cases hp : pending c (rest ++ older) with
        | none => exact absurd hp hallowed
        | some p =>
          rw [hp] at hle
          simp [Happening.answers, pending] at hle ⊢
          omega
      · simpa [Happening.answers, pending, hc] using hle
    | attempted | refused | connected | died | cancelled =>
      simpa [Happening.answers, pending] using hle

/-- **In an orderly history nothing new starts once the token is set.** -/
theorem World.Orderly.silent {w : World} (ho : w.Orderly) {newer older : List Entry}
    (heq : w.history = newer ++ older) (hset : cancelledIn older = true) : Silent older newer := by
  have hall : EachOf (fun older e => e.Allowed older) older newer := by
    refine EachOf.of_split ?_
    intro after before e hsplit
    exact ho.allowed after (before ++ older) e (by rw [heq, hsplit, List.append_assoc]; rfl)
  have hattempts : ∀ t k, ⟨t, .attempted k⟩ ∉ newer := by
    intro t k hmem
    obtain ⟨after, before, rfl⟩ := List.append_of_mem hmem
    have hunset : cancelledIn (before ++ older) = false := hall.split
    simp [cancelledIn_append hset] at hunset
  refine { attempts := hattempts, requests := ?_, answers := ?_ }
  · intro t k r hmem
    obtain ⟨after, before, rfl⟩ := List.append_of_mem hmem
    obtain ⟨⟨u, hu⟩, hunset | ⟨hping, hfirst⟩⟩ := hall.split
    · simp [cancelledIn_append hset] at hunset
    · refine ⟨hping, ⟨u, ?_⟩, fun v r' hmem' => hfirst v r' (List.mem_append_right _ hmem')⟩
      rcases List.mem_append.mp hu with hu | hu
      · exact absurd (List.mem_append_right _ (List.mem_cons_of_mem _ hu)) (hattempts u k)
      · exact hu
  · intro k
    have := answers_le (k := k) hall hset
    omega

/-! ## Nothing new starts -/

/-- Once the token is set nobody in the crew asks for anything, wherever it stands. -/
def Crew.Hushed {σ : Type} (scene : Scene) (w₀ : World) (crew₀ : Crew σ) : Prop :=
  ∀ (w : World) (crew : Crew σ) (newer older : List Entry), Crew.Reaches scene w₀ crew₀ w crew →
    w.since w₀ = newer ++ older → w₀.tokenAfter older = true → ∀ t k r, ⟨t, .asked k r⟩ ∉ newer

theorem Crew.hushed_of_heeds {σ : Type} {scene : Scene} {w₀ : World} {crew₀ : Crew σ}
    (hs : crew₀.Starts w₀) (hj : crew₀.job.Heeds) : crew₀.Hushed scene w₀ := by
  intro w crew newer older h heq hset t k r hmem
  obtain ⟨after, before, rfl⟩ := List.append_of_mem hmem
  have hl := (h.faithful hs).licensed
  rw [h.job_eq.1] at hl
  have hsplit : w.since w₀ = after ++ ⟨t, .asked k r⟩ :: (before ++ older) := by
    rw [heq, List.append_assoc]
    rfl
  have hunset := hj.unset hl hsplit
  rw [World.tokenAfter_mono (List.suffix_append before older) hset] at hunset
  simp at hunset

/-- **Nothing new starts once the token is set**, in any sequence of phases, and at any point of it:
a harness that leaves a crew early shows the histories in the middle of a phase. What is under way
then comes to the end that its script has for it, when the crews are run to theirs. Only a probe
sends its ping all the same; the workers of a cell, the callers of a warm-up and a preload ask for
nothing more, at the gate or behind it. -/
theorem Harness.nothing_starts {harness : Harness Option} {scene : Scene}
    (hk : harness.Keeps scene) {w : World} (hw : harness.Attains w) :
    (w.token = true ↔ ∃ t, ⟨t, .cancelled⟩ ∈ w.history) ∧
    (∀ newer older : List Entry, w.history = newer ++ older → (∃ t, ⟨t, .cancelled⟩ ∈ older) →
      Silent older newer) ∧
    (harness.Follows scene → w.Landed scene) ∧
    (∀ (v : World) (cell : Cell), cell.crew.Hushed scene v) ∧
    (∀ (v : World) (keys : KeySpace) (duration : Duration),
      (Crew.atOpenGate v (Traffic.job keys .get duration (warmupSeed + ·)) warmupClients).Hushed
        scene v) ∧
    (∀ (v : World) (keys : KeySpace) (valueSize every : Nat),
      (Crew.atOpenGate v (Preload.job keys valueSize every) 1).Hushed scene v) := by
  have ho := hw.orderly hk
  refine ⟨?_, ?_, fun hf => hw.landed hf, ?_, ?_, ?_⟩
  · rw [ho.token]
    exact cancelledIn_iff
  · intro newer older heq hset
    exact ho.silent heq (cancelledIn_iff.mpr hset)
  · intro v cell
    exact Crew.hushed_of_heeds (cell.crew_starts v) (Traffic.job_heeds _ _ _ _)
  · intro v keys duration
    exact Crew.hushed_of_heeds (Crew.atOpenGate_starts v _ _) (Traffic.job_heeds _ _ _ _)
  · intro v keys valueSize every
    exact Crew.hushed_of_heeds (Crew.atOpenGate_starts v _ _) (Preload.job_heeds _ _ _)

/-- The token is set while the probe of a plan tries to connect. The attempt ends, the ping is sent
and answered, and that is all. -/
theorem Harness.nothing_starts_sample : ∃ w : World,
    (Sample.startled.harness 100).Attains w ∧
    w.history = [⟨1000000, .answered 0 (.done none)⟩, ⟨1000000, .asked 0 .ping⟩,
      ⟨1000000, .connected 0⟩] ++ [⟨0, .cancelled⟩, ⟨0, .attempted 0⟩] ∧
    Silent [⟨0, .cancelled⟩, ⟨0, .attempted 0⟩] [⟨1000000, .answered 0 (.done none)⟩,
      ⟨1000000, .asked 0 .ping⟩, ⟨1000000, .connected 0⟩] ∧
    w.Landed Sample.startled := by
  have hrun : ((Phase.session Sample.plan).world (Sample.startled.harness 100) (.start none)).map
      World.history = some ([⟨1000000, .answered 0 (.done none)⟩, ⟨1000000, .asked 0 .ping⟩,
        ⟨1000000, .connected 0⟩] ++ [⟨0, .cancelled⟩, ⟨0, .attempted 0⟩]) := by decide +kernel
  obtain ⟨w, hw, hhistory⟩ := Option.map_eq_some_iff.mp hrun
  have hattains : (Sample.startled.harness 100).Attains w := .phase (.start none) _ hw
  have hf : (Sample.startled.harness 100).Follows Sample.startled := Scene.harness_follows _ _
  obtain ⟨-, hsilent, hlanded, -⟩ := nothing_starts hf.keeps hattains
  exact ⟨w, hattains, hhistory, hsilent _ _ hhistory ⟨0, List.mem_cons_self⟩, hlanded hf⟩

end LoadSweep
