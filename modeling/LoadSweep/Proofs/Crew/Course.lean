import LoadSweep.Proofs.Crew.Ground

/-!
# `LoadSweep/Proofs/Crew/Course.lean` — what a caller's history says of its job

A job is three functions, and a caller that does it goes through a **course**: it passes the gate,
and then each turn is a question that the job asked, the reply that the script has for it, and what
the job made of the answer. `Job.Course` is that relation; it knows nothing of crews and clocks.

`Caller.Agrees` says, stage by stage, that the share of a caller in the history is what its stage
says: nothing but attempts while it dials, the turns of a course once it serves. Every step of a
crew keeps this for every caller (`Crew.Reaches.agrees`), and keeps another fact about the history
itself: a request is there only because the job asked for it, with the token as it was just then
(`Job.Licensed`).
-/

set_option autoImplicit false

namespace LoadSweep

/-! ## Courses -/

/-- How many requests other than pings are among some turns. -/
def weightOf (ts : List Turn) : Nat := Number.total (ts.map (·.request.weight))

@[simp] theorem weightOf_nil : weightOf [] = 0 := rfl

@[simp] theorem weightOf_cons (t : Turn) (ts : List Turn) :
    weightOf (t :: ts) = t.request.weight + weightOf ts := rfl

theorem weightOf_eq_length {ts : List Turn} (h : ∀ x ∈ ts, x.request ≠ .ping) :
    weightOf ts = ts.length := by
  induction ts with
  | nil => rfl
  | cons x rest ih =>
    obtain ⟨hx, hrest⟩ := List.forall_mem_cons.mp h
    rw [weightOf_cons, ih hrest, Request.weight_of_ne_ping hx, List.length_cons, Nat.add_comm]

/-- The turn that a script makes of a request sent at an instant, when `n` came before it. -/
def Script.turn (script : Script) (n t : Nat) (r : Request) : Turn :=
  let reply := script.replyTo n r
  { request := r, sent := t, heard := t + reply.takes.nanos, answer := reply.answer }

/-- The courses of a job at a place `i` of the crew, the gate open since `opened` and passed at
`start`: the turns so far, newest first, the state they lead to, and the instant of the last. -/
inductive Job.Course {σ : Type} (job : Job σ) (script : Script) (i opened start : Nat) :
    List Turn → σ → Nat → Prop
  | enter : Course job script i opened start [] (job.enter i opened) start
  | turn {ts : List Turn} {s s' : σ} {t : Nat} {token : Bool} {r : Request}
    {outcome : Except ClientFault (Option String)} (h : Course job script i opened start ts s t)
    (hask : job.ask t token s = .send r s')
    (ho : (script.turn (weightOf ts) t r).answer.outcome = some outcome) :
    Course job script i opened start (script.turn (weightOf ts) t r :: ts)
      (job.hear t (script.turn (weightOf ts) t r).heard outcome s')
      (script.turn (weightOf ts) t r).heard

namespace Job.Course

variable {σ : Type} {job : Job σ} {script : Script} {i opened start t : Nat} {ts : List Turn}
  {s : σ}

theorem start_le (h : job.Course script i opened start ts s t) : start ≤ t := by
  induction h with
  | enter => exact Nat.le_refl _
  | turn _ _ _ ih => exact Nat.le_trans ih (Nat.le_add_right _ _)

theorem instant_eq (h : job.Course script i opened start ts s t) :
    t = (ts.head?.map (·.heard)).getD start := by
  cases h with
  | enter => rfl
  | turn => rfl

theorem first_sent (h : job.Course script i opened start ts s t) (hne : ts ≠ []) :
    ∃ x ∈ ts, x.sent = start := by
  induction h with
  | enter => exact absurd rfl hne
  | @turn ts _ _ _ _ _ _ hprev _ _ ih =>
    by_cases hnil : ts = []
    · subst hnil
      cases hprev
      exact ⟨_, List.mem_cons_self, rfl⟩
    · obtain ⟨x, hx, hsent⟩ := ih hnil
      exact ⟨x, List.mem_cons_of_mem _ hx, hsent⟩

theorem keeps {P : σ → Prop} (h : job.Course script i opened start ts s t)
    (enter : P (job.enter i opened))
    (turn : ∀ (s s' : σ) (now : Nat) (token : Bool) (r : Request) (later : Nat)
      (outcome : Except ClientFault (Option String)), P s → job.ask now token s = .send r s' →
      P (job.hear now later outcome s')) : P s := by
  induction h with
  | enter => exact enter
  | turn _ hask _ ih => exact turn _ _ _ _ _ _ _ ih hask

end Job.Course

/-- The job sends nothing once the token is set. -/
def Job.Heeds {σ : Type} (job : Job σ) : Prop :=
  ∀ (now : Nat) (s s' : σ) (r : Request), job.ask now true s ≠ .send r s'

/-- A request is in the history because the job asked for it, in the state to which the turns so
far had led, and with the token as it was. -/
def Job.Licensed {σ : Type} (job : Job σ) (scene : Scene) (w₀ : World) (gate : Gate)
    (tr : List Entry) : Prop :=
  ∀ (t k : Nat) (r : Request) (older : List Entry), ⟨t, .asked k r⟩ :: older <:+ tr →
    ∃ (i opened start : Nat) (ts : List Turn) (s s' : σ), gate = .openSince opened ∧
      opened ≤ start ∧ job.Course (scene.script k) i opened start ts s t ∧
      job.ask t (w₀.tokenAfter older) s = .send r s' ∧
      turns k older = ts ∧ pending k older = none

namespace Job

variable {σ : Type} {job : Job σ} {scene : Scene} {w₀ : World} {gate : Gate} {tr : List Entry}

theorem Licensed.nil : job.Licensed scene w₀ gate [] := by
  intro t k r older h
  simp at h

theorem Licensed.cons (h : job.Licensed scene w₀ gate tr) {e : Entry}
    (he : ∀ k r, e.event ≠ .asked k r) : job.Licensed scene w₀ gate (e :: tr) := by
  intro t k r older hs
  rcases List.suffix_cons_iff.mp hs with heq | hs
  · obtain ⟨rfl, -⟩ := List.cons.inj heq
    exact absurd rfl (he k r)
  · exact h t k r older hs

theorem Licensed.append (h : job.Licensed scene w₀ gate tr) {new : List Entry}
    (hn : ∀ e ∈ new, ∀ k r, e.event ≠ .asked k r) : job.Licensed scene w₀ gate (new ++ tr) := by
  induction new with
  | nil => exact h
  | cons e rest ih =>
    exact (ih fun x hx => hn x (List.mem_cons_of_mem _ hx)).cons (hn e List.mem_cons_self)

theorem Licensed.after (h : job.Licensed scene w₀ gate tr) (now : Nat) {es : List Happening}
    (hes : ∀ e ∈ es, ∀ k r, e ≠ .asked k r) :
    job.Licensed scene w₀ gate (es.map (Entry.mk now) ++ tr) := by
  refine h.append ?_
  intro e he
  obtain ⟨x, hx, rfl⟩ := List.mem_map.mp he
  exact hes x hx

/-- Behind a gate that is shut there are no requests, so it does not matter what it becomes. -/
theorem Licensed.pass (h : job.Licensed scene w₀ .shut tr) (gate : Gate) :
    job.Licensed scene w₀ gate tr := by
  intro t k r older hs
  obtain ⟨_, _, _, _, _, _, hgate, -⟩ := h t k r older hs
  simp at hgate

end Job

/-! ## What a stage says of the history -/

namespace Caller

variable {σ : Type} {scene : Scene} {job : Job σ} {gate : Gate} {i : Nat} {w w₀ : World}
  {c : Caller σ} {tr tr' : List Entry} {ts : List Turn} {waiting : Option (Nat × Request)}

/-- The caller has made `n` attempts, and no request. -/
structure Dials (tr : List Entry) (c : Caller σ) (n : Nat) (connected : Bool) : Prop where
  share : ∀ k, c.number = some k → share k tr = .made k n connected [] none
  numbered : n ≠ 0 → ∃ k, c.number = some k
  sent : c.sent = 0

/-- How many attempts a caller has made that settled like this. -/
def attempts (c : Caller σ) : Except DialFault Unit → Nat
  | .ok () => c.reasons.length + 1
  | .error _ => c.reasons.length

/-- The caller has a connection, has had these turns, and waits for this request. -/
structure Shows (tr : List Entry) (c : Caller σ) (ts : List Turn)
    (waiting : Option (Nat × Request)) : Prop where
  share : LoadSweep.share c.who tr = .made c.who (c.reasons.length + 1) true ts waiting
  numbered : ∃ k, c.number = some k
  sent : c.sent = weightOf ts + (waiting.map (·.2.weight)).getD 0

/-- The caller came to a state in this many turns, having passed the gate as soon as it could. -/
def Came (scene : Scene) (job : Job σ) (gate : Gate) (i : Nat) (c : Caller σ) (ts : List Turn)
    (s : σ) (t : Nat) : Prop :=
  ∃ opened, gate = .openSince opened ∧
    job.Course (scene.script c.who) i opened (max opened (c.settledAt.getD 0)) ts s t

/-- The share of a caller is what its stage says. -/
def Agrees (scene : Scene) (job : Job σ) (w₀ : World) (gate : Gate) (i : Nat) (tr : List Entry)
    (c : Caller σ) : Prop :=
  match c.stage with
  | .fresh | .resting _ => c.Dials tr c.reasons.length false
  | .attempting .. => c.Dials tr (c.reasons.length + 1) false
  | .settled dialled => c.Dials tr (c.attempts dialled) dialled.isOk
  | .talking s sent due reply =>
    ∃ (ts : List Turn) (s₀ : σ) (token : Bool) (r : Request),
      c.Shows tr ts (some (sent, r)) ∧ c.Came scene job gate i ts s₀ sent ∧
      job.ask sent token s₀ = .send r s ∧ reply = (scene.script c.who).replyTo (weightOf ts) r ∧
      due = sent + reply.takes.nanos
  | .ended (.served s) =>
    ∃ (ts : List Turn) (s₀ : σ) (t : Nat) (seen : List Entry),
      c.Shows tr ts none ∧ c.Came scene job gate i ts s₀ t ∧
      seen <:+ tr ∧ c.Shows seen ts none ∧ (∀ e ∈ seen, e.instant ≤ t) ∧
      job.ask t (w₀.tokenAfter seen) s₀ = .stop s
  | .ended (.unserved dialled) =>
    c.Dials tr (c.attempts dialled) dialled.isOk ∧ (dialled = .ok () → gate = .stuck)
  | .ended (.died none) =>
    c.Dials tr (c.reasons.length + 1) false ∧ ∃ t, ⟨t, .died c.who⟩ ∈ tr
  | .ended (.died (some s)) =>
    (∃ t, ⟨t, .died c.who⟩ ∈ tr) ∧
    ∃ (ts : List Turn) (s₀ : σ) (t : Nat) (token : Bool), c.Came scene job gate i ts s₀ t ∧
      ((c.Shows tr ts none ∧ job.ask t token s₀ = .die ∧ s = s₀) ∨
        ∃ r, c.Shows tr ((scene.script c.who).turn (weightOf ts) t r :: ts) none ∧
          job.ask t token s₀ = .send r s ∧
          ((scene.script c.who).turn (weightOf ts) t r).answer = .dies)

/-- The state of a caller that has begun its job. -/
def state? (c : Caller σ) : Option σ :=
  match c.stage with
  | .talking s .. | .ended (.served s) | .ended (.died (some s)) => some s
  | .fresh | .attempting .. | .resting _ | .settled _ | .ended (.unserved _)
  | .ended (.died none) => none

/-- The state of a caller is the one in which its course left it, or what the next question made
of that. The trace shows the turns of the course, and after them at most the one that killed it. -/
theorem Agrees.came (h : c.Agrees scene job w₀ gate i tr) {s : σ} (hs : c.state? = some s) :
    ∃ (ts : List Turn) (s₀ : σ) (t : Nat) (token : Bool), c.Came scene job gate i ts s₀ t ∧
      (job.ask t token s₀ = .stop s ∨ (job.ask t token s₀ = .die ∧ s = s₀) ∨
        ∃ r, job.ask t token s₀ = .send r s) ∧
      ∃ last, turns c.who tr = last ++ ts ∧ ∀ x ∈ last, x.answer = .dies := by
  unfold Agrees at h
  unfold state? at hs
  cases hstage : c.stage with
  | fresh | attempting | resting | settled => simp [hstage] at hs
  | talking =>
    simp only [hstage, Option.some.injEq] at h hs
    obtain ⟨ts, s₀, token, r, hshow, hcame, hask, -⟩ := h
    exact ⟨ts, s₀, _, token, hcame, .inr (.inr ⟨r, hs ▸ hask⟩), [],
      congrArg Share.turns hshow.share, nofun⟩
  | ended how =>
    simp only [hstage] at h hs
    cases how with
    | unserved => simp at hs
    | served =>
      obtain ⟨ts, s₀, t, seen, hshow, hcame, -, -, -, hask⟩ := h
      exact ⟨ts, s₀, t, _, hcame, .inl (Option.some.inj hs ▸ hask), [],
        congrArg Share.turns hshow.share, nofun⟩
    | died state =>
      cases state with
      | none => simp at hs
      | some =>
        obtain rfl := Option.some.inj hs
        obtain ⟨-, ts, s₀, t, token, hcame, ⟨hshow, hask⟩ | ⟨r, hshow, hask, hdies⟩⟩ := h
        · exact ⟨ts, s₀, t, token, hcame, .inr (.inl hask), [],
            congrArg Share.turns hshow.share, nofun⟩
        · exact ⟨ts, s₀, t, token, hcame, .inr (.inr ⟨r, hask⟩), [_],
            congrArg Share.turns hshow.share, List.forall_mem_singleton.mpr hdies⟩

/-! ### What others do -/

theorem Dials.append {n : Nat} {connected : Bool} (h : c.Dials tr n connected) {new : List Entry}
    (hn : ∀ e ∈ new, ∀ k, c.number = some k → e.event.caller? ≠ some k) :
    c.Dials (new ++ tr) n connected :=
  { h with share := fun k hk => (share_append fun e he => hn e he k hk).trans (h.share k hk) }

theorem Shows.append (h : c.Shows tr ts waiting) {new : List Entry}
    (hn : ∀ e ∈ new, ∀ k, c.number = some k → e.event.caller? ≠ some k) :
    c.Shows (new ++ tr) ts waiting := by
  obtain ⟨k, hk⟩ := h.numbered
  exact { h with share := (share_append fun e he => hn e he c.who (number_eq_who hk)).trans h.share }

theorem Agrees.append (h : c.Agrees scene job w₀ gate i tr) {new : List Entry}
    (hn : ∀ e ∈ new, ∀ k, c.number = some k → e.event.caller? ≠ some k) :
    c.Agrees scene job w₀ gate i (new ++ tr) := by
  unfold Agrees at h ⊢
  cases hs : c.stage with
  | fresh | resting | attempting | settled => simp only [hs] at h ⊢; exact h.append hn
  | talking =>
    simp only [hs] at h ⊢
    obtain ⟨ts, s₀, token, r, hshow, hrest⟩ := h
    exact ⟨ts, s₀, token, r, hshow.append hn, hrest⟩
  | ended how =>
    simp only [hs] at h ⊢
    cases how with
    | served s =>
      obtain ⟨ts, s₀, t, seen, hshow, hcame, hseen, hrest⟩ := h
      exact ⟨ts, s₀, t, seen, hshow.append hn, hcame, hseen.trans (List.suffix_append _ _), hrest⟩
    | unserved dialled => exact ⟨h.1.append hn, h.2⟩
    | died state =>
      cases state with
      | none => exact ⟨h.1.append hn, h.2.imp fun _ hd => List.mem_append_right _ hd⟩
      | some s =>
        obtain ⟨⟨u, hdied⟩, ts, s₀, t, token, hcame, hlast⟩ := h
        refine ⟨⟨u, List.mem_append_right _ hdied⟩, ts, s₀, t, token, hcame, ?_⟩
        obtain ⟨hshow, hrest⟩ | ⟨r, hshow, hrest⟩ := hlast
        · exact .inl ⟨hshow.append hn, hrest⟩
        · exact .inr ⟨r, hshow.append hn, hrest⟩

theorem not_came_shut {s : σ} {t : Nat} : ¬ c.Came scene job .shut i ts s t := by
  rintro ⟨opened, h, -⟩
  simp at h

/-- Behind a shut gate nobody serves, so it does not matter what it becomes. -/
theorem Agrees.pass (h : c.Agrees scene job w₀ .shut i tr) (gate : Gate) :
    c.Agrees scene job w₀ gate i tr := by
  unfold Agrees at h ⊢
  cases hs : c.stage with
  | fresh | resting | attempting | settled => simpa only [hs] using h
  | talking =>
    simp only [hs] at h
    obtain ⟨_, _, _, _, _, hcame, _⟩ := h
    exact absurd hcame not_came_shut
  | ended how =>
    simp only [hs] at h ⊢
    cases how with
    | served s =>
      obtain ⟨_, _, _, _, _, hcame, _⟩ := h
      exact absurd hcame not_came_shut
    | unserved dialled => exact ⟨h.1, fun hd => absurd (h.2 hd) (by simp)⟩
    | died state =>
      cases state with
      | none => exact h
      | some s =>
        obtain ⟨-, _, _, _, _, hcame, _⟩ := h
        exact absurd hcame not_came_shut

/-! ### After the gate -/

theorem who_eq {k : Nat} (h : c.number = some k) : c.who = k := by simp [who, h]

theorem Shows.turns_eq (h : c.Shows tr ts waiting) : turns c.who tr = ts :=
  congrArg Share.turns h.share

/-- The first move of a caller that passed the gate: a request, or the job wanted none. -/
def Began (job : Job σ) (w₀ : World) (i : Nat) (tr : List Entry) (c : Caller σ)
    (opened start : Nat) : Prop :=
  (∃ r, ⟨start, .asked c.who r⟩ ∈ tr) ∨
    (∃ token, job.ask start token (job.enter i opened) = .die) ∨
    ∃ (seen : List Entry) (s : σ), seen <:+ tr ∧ (∀ e ∈ seen, e.instant ≤ start) ∧
      job.ask start (w₀.tokenAfter seen) (job.enter i opened) = .stop s

/-- Its first request was sent when it passed the gate, if it has had a turn. -/
theorem Came.began {s : σ} {t : Nat} (h : c.Came scene job gate i ts s t)
    (hts : ∀ x ∈ ts, x ∈ turns c.who tr)
    (hfirst : ∀ opened, ts = [] → s = job.enter i opened → c.Began job w₀ i tr opened t) :
    ∃ opened start, gate = .openSince opened ∧ start = max opened (c.settledAt.getD 0) ∧
      c.Began job w₀ i tr opened start := by
  obtain ⟨opened, hgate, hcourse⟩ := h
  refine ⟨opened, _, hgate, rfl, ?_⟩
  by_cases hne : ts = []
  · subst hne
    cases hcourse
    exact hfirst opened rfl rfl
  · obtain ⟨x, hx, hsent⟩ := hcourse.first_sent hne
    exact .inl ⟨x.request, hsent ▸ (mem_of_mem_turns (hts x hx)).1⟩

/-- What becomes of a connected caller: it stands at the gate, or the gate is stuck, or it has
passed the gate. -/
theorem Agrees.connected (h : c.Agrees scene job w₀ gate i tr) {k t : Nat}
    (hk : c.number = some k) (hc : ⟨t, .connected k⟩ ∈ tr) :
    c.stage = .settled (.ok ()) ∨ gate = .stuck ∨
    ∃ opened start, gate = .openSince opened ∧ start = max opened (c.settledAt.getD 0) ∧
      c.Began job w₀ i tr opened start := by
  -- a caller that has only dialled shows no connection, so the stages before the gate are out
  have hdials : ∀ {n : Nat} {b : Bool}, c.Dials tr n b → b = true := by
    intro n b hd
    have hflag : (share k tr).dealings.connected = true := Dealings.connected_of_mem hc
    rw [hd.share k hk] at hflag
    exact hflag
  unfold Agrees at h
  cases hstage : c.stage with
  | fresh | resting | attempting =>
    simp only [hstage] at h
    exact absurd (hdials h) Bool.false_ne_true
  | settled dialled =>
    simp only [hstage] at h
    cases dialled with
    | ok => exact .inl rfl
    | error => exact absurd (hdials h) Bool.false_ne_true
  | talking s sent due reply =>
    simp only [hstage] at h
    obtain ⟨ts, s₀, token, r, hshow, hcame, hask, -⟩ := h
    refine .inr (.inr (hcame.began (fun x hx => hshow.turns_eq ▸ hx) ?_))
    intro opened _ _
    exact .inl ⟨r, mem_of_pending (congrArg Share.pending hshow.share)⟩
  | ended how =>
    simp only [hstage] at h
    cases how with
    | unserved dialled =>
      cases dialled with
      | ok => exact .inr (.inl (h.2 rfl))
      | error => exact absurd (hdials h.1) Bool.false_ne_true
    | served s =>
      obtain ⟨ts, s₀, t, seen, hshow, hcame, hseen, -, hpast, hask⟩ := h
      refine .inr (.inr (hcame.began (fun x hx => hshow.turns_eq ▸ hx) ?_))
      rintro opened - rfl
      exact .inr (.inr ⟨seen, s, hseen, hpast, hask⟩)
    | died state =>
      cases state with
      | none => exact absurd (hdials h.1) Bool.false_ne_true
      | some s =>
        obtain ⟨-, ts, s₀, t, token, hcame, ⟨hshow, hask, -⟩ | ⟨r, hshow, -⟩⟩ := h
        · refine .inr (.inr (hcame.began (fun x hx => hshow.turns_eq ▸ hx) ?_))
          rintro opened - rfl
          exact .inr (.inl ⟨token, hask⟩)
        · refine .inr (.inr (hcame.began
            (fun x hx => hshow.turns_eq ▸ List.mem_cons_of_mem _ hx) ?_))
          -- its only turn is the one that killed it
          intro opened _ _
          have hmem : (scene.script c.who).turn (weightOf ts) t r ∈ turns c.who tr :=
            hshow.turns_eq ▸ List.mem_cons_self
          exact .inl ⟨r, (mem_of_mem_turns hmem).1⟩

/-! ### What the caller does itself -/

/-- A number that is given to a caller leaves no trace. -/
theorem traces_enrol (ht : Traces w₀ tr w) (c : Caller σ) (es : List Happening) :
    Traces w₀ (es.map (Entry.mk w.now) ++ tr) ((enrol w c).1.after es) := by
  rw [enrol_after]
  exact (ht.after es).congr rfl rfl

/-- The move that the job makes after some happenings adds to what they added. -/
theorem traces_proceed {new : List Entry} {s : σ} (ht : Traces w₀ tr w) (es : List Happening)
    (ht' : Traces w₀ (new ++ tr) (c.proceed scene job (w.after es) s).1) :
    ∃ more, new = more ++ es.map (Entry.mk w.now) ∧
      Traces w₀ (es.map (Entry.mk w.now) ++ tr) (w.after es) ∧
      Traces w₀ (more ++ (es.map (Entry.mk w.now) ++ tr))
        (c.proceed scene job (w.after es) s).1 := by
  obtain ⟨fs, hw, -⟩ := proceed_effect scene job (w.after es) c s
  have hbefore := ht.after es
  have hafter := hbefore.after fs
  rw [← hw] at hafter
  refine ⟨_, ?_, hbefore, hafter⟩
  have hsame := hafter.unique ht'
  rw [← List.append_assoc] at hsame
  exact List.append_cancel_right hsame

theorem instant_le_after {now : Nat} (hpast : ∀ e ∈ tr, e.instant ≤ now) (es : List Happening) :
    ∀ e ∈ es.map (Entry.mk now) ++ tr, e.instant ≤ now := by
  intro e he
  rcases List.mem_append.mp he with he | he
  · obtain ⟨x, -, rfl⟩ := List.mem_map.mp he
    exact Nat.le_refl _
  · exact hpast e he

/-- A caller that gets a number gets one that is not in the history. -/
theorem Dials.enrol {n : Nat} (h : c.Dials tr n false)
    (hlt : ∀ e ∈ tr, ∀ k, e.event.caller? = some k → k < w.met) :
    (Caller.enrol w c).2.Dials tr n false := by
  unfold Caller.enrol
  split
  · exact h
  · rename_i hnone
    obtain rfl : n = 0 := by
      by_cases hn : n = 0
      · exact hn
      · obtain ⟨k, hk⟩ := h.numbered hn
        simp [hk] at hnone
    refine { share := ?_, numbered := fun _ => ⟨_, rfl⟩, sent := h.sent }
    intro k hk
    obtain rfl := Option.some.inj hk
    exact share_of_absent fun e he hek => Nat.lt_irrefl _ (hlt e he _ hek)

theorem Dials.attempted {n : Nat} (h : c.Dials tr n false) {k : Nat} (hk : c.number = some k)
    (t : Nat) : c.Dials (⟨t, .attempted c.who⟩ :: tr) (n + 1) false where
  share := by
    intro l hl
    rw [who_eq hl]
    exact share_cons_attempted t (h.share l hl)
  numbered := fun _ => ⟨k, hk⟩
  sent := h.sent

theorem Dials.connected {n : Nat} (h : c.Dials tr (n + 1) false) (t : Nat) :
    c.Dials (⟨t, .connected c.who⟩ :: tr) (n + 1) true where
  share := by
    intro l hl
    rw [who_eq hl]
    exact share_cons_connected t (h.share l hl)
  numbered := fun _ => h.numbered (Nat.succ_ne_zero n)
  sent := h.sent

theorem Dials.silent {n : Nat} {connected : Bool} (h : c.Dials tr n connected) (t : Nat)
    {e : Happening} (he : e = .died c.who ∨ e = .cancelled ∨ ∃ reason, e = .refused c.who reason) :
    c.Dials (⟨t, e⟩ :: tr) n connected := by
  refine { h with share := ?_ }
  intro l hl
  rw [who_eq hl] at he
  exact share_cons_of_silent _ (h.share l hl) he

theorem not_about_tolled {k : Nat} (w : World) (sets : Bool) (t : Nat) :
    ∀ e ∈ (w.tolled sets).map (Entry.mk t), e.event.caller? ≠ some k := by
  intro e he
  obtain ⟨x, hx, rfl⟩ := List.mem_map.mp he
  simp [w.mem_tolled hx, Happening.caller?]

theorem Shows.silent (h : c.Shows tr ts waiting) (t : Nat) {e : Happening}
    (he : e = .died c.who ∨ e = .cancelled ∨ ∃ reason, e = .refused c.who reason) :
    c.Shows (⟨t, e⟩ :: tr) ts waiting :=
  { h with share := share_cons_of_silent _ h.share he }

theorem Dials.shows (h : c.Dials tr (c.reasons.length + 1) true) : c.Shows tr [] none := by
  obtain ⟨k, hk⟩ := h.numbered (Nat.succ_ne_zero _)
  exact { share := by rw [who_eq hk]; exact h.share k hk, numbered := ⟨k, hk⟩, sent := h.sent }

theorem Shows.depart (h : c.Shows tr ts waiting) (how : Departure σ) :
    (c.depart how).Shows tr ts waiting := { h with }

theorem Shows.asked (h : c.Shows tr ts none) (t : Nat) (r : Request) (s : σ) :
    (c.talk scene t r s).Shows (⟨t, .asked c.who r⟩ :: tr) ts (some (t, r)) where
  share := share_cons_asked t r h.share
  numbered := h.numbered
  sent := by
    have := h.sent
    simp only [talk, Option.map_some, Option.getD_some]
    simp only [Option.map_none, Option.getD_none] at this
    omega

theorem Shows.answered {sent : Nat} {r : Request} (h : c.Shows tr ts (some (sent, r))) (t : Nat)
    (a : Answer) : c.Shows (⟨t, .answered c.who a⟩ :: tr) (⟨r, sent, t, a⟩ :: ts) none where
  share := share_cons_answered t a h.share
  numbered := h.numbered
  sent := by
    have := h.sent
    simp only [Option.map_some, Option.getD_some] at this
    simp only [weightOf_cons, Option.map_none, Option.getD_none]
    omega

/-- At a check the caller makes the next move, and its share still agrees. -/
theorem Shows.proceed {s : σ} (h : c.Shows tr ts none) (hcame : c.Came scene job gate i ts s w.now)
    (ht : Traces w₀ tr w) (hpast : ∀ e ∈ tr, e.instant ≤ w.now)
    (ht' : Traces w₀ tr' (c.proceed scene job w s).1) :
    (c.proceed scene job w s).2.Agrees scene job w₀ gate i tr' := by
  rw [proceed_eq] at ht' ⊢
  split at ht'
  · rename_i s' hask
    obtain rfl := ht.unique ht'
    rw [ht.token] at hask
    exact ⟨ts, s, w.now, _, h.depart _, hcame, List.suffix_rfl, h.depart _, hpast, hask⟩
  · rename_i hask
    obtain rfl := (ht.after _).unique ht'
    exact ⟨⟨w.now, List.mem_cons_self⟩, ts, s, w.now, w.token, hcame,
      .inl ⟨(h.silent w.now (.inl rfl)).depart _, hask, rfl⟩⟩
  · rename_i r s' hask
    obtain rfl := (ht.after _).unique ht'
    have hsent : c.sent = weightOf ts := by simpa using h.sent
    exact ⟨ts, s, w.token, r, h.asked w.now r s', hcame, hask, by rw [hsent]; rfl, rfl⟩

theorem Agrees.entered {opened : Nat} (ha : c.Agrees scene job w₀ gate i tr)
    (h : c.stage = .settled (.ok ())) (hg : gate = .openSince opened)
    (htime : c.Timed w₀.now w.now gate) :
    c.Shows tr [] none ∧ c.Came scene job gate i [] (job.enter i opened) w.now := by
  rw [Agrees, h] at ha
  rw [Timed, h] at htime
  refine ⟨ha.shows, opened, hg, ?_⟩
  rw [← htime.2 opened hg]
  exact .enter

/-- The answer that a talking caller waits for is the one of the script, and makes a turn. -/
theorem Agrees.answered {state : σ} {sent due : Nat} {reply : Reply}
    (ha : c.Agrees scene job w₀ gate i tr) (h : c.stage = .talking state sent due reply)
    (hdue : c.due w gate = some w.now) :
    ∃ (ts : List Turn) (s₀ : σ) (token : Bool) (r : Request),
      c.Came scene job gate i ts s₀ sent ∧ job.ask sent token s₀ = .send r state ∧
      ((scene.script c.who).turn (weightOf ts) sent r).heard = w.now ∧
      ((scene.script c.who).turn (weightOf ts) sent r).answer = reply.answer ∧
      c.Shows ((.answered c.who reply.answer :: w.tolled reply.cancels).map (Entry.mk w.now) ++ tr)
        ((scene.script c.who).turn (weightOf ts) sent r :: ts) none := by
  rw [Agrees, h] at ha
  obtain ⟨ts, s₀, token, r, hshow, hcame, hask, rfl, rfl⟩ := ha
  have hnow : sent + ((scene.script c.who).replyTo (weightOf ts) r).takes.nanos = w.now := by
    simpa [Caller.due, h] using hdue
  refine ⟨ts, s₀, token, r, hcame, hask, hnow, rfl, ?_⟩
  have hquiet := hshow.append fun e he k _ => not_about_tolled w
    ((scene.script c.who).replyTo (weightOf ts) r).cancels w.now e he
  have hshow₁ := hquiet.answered w.now ((scene.script c.who).replyTo (weightOf ts) r).answer
  simp only [Script.turn, hnow]
  exact hshow₁

/-- With the answer the caller has come one turn further. -/
theorem Agrees.heard {state : σ} {sent due : Nat} {reply : Reply}
    {outcome : Except ClientFault (Option String)} (ha : c.Agrees scene job w₀ gate i tr)
    (h : c.stage = .talking state sent due reply) (hdue : c.due w gate = some w.now)
    (ho : reply.answer.outcome = some outcome) :
    ∃ ts : List Turn,
      c.Shows ((.answered c.who reply.answer :: w.tolled reply.cancels).map (Entry.mk w.now) ++ tr)
        ts none ∧
      c.Came scene job gate i ts (job.hear sent w.now outcome state) w.now := by
  obtain ⟨ts, s₀, token, r, ⟨opened, hgate, hcourse⟩, hask, hnow, hanswer, hshow⟩ :=
    ha.answered h hdue
  refine ⟨_, hshow, opened, hgate, ?_⟩
  have := hcourse.turn hask (by rw [hanswer]; exact ho)
  rwa [hnow] at this

/-- **An act leaves the share of the caller as its stage says.** -/
theorem Acts.agrees {w' : World} {c' : Caller σ} (h : Acts scene job gate i w c w' c')
    (ha : c.Agrees scene job w₀ gate i tr) (hdue : c.due w gate = some w.now)
    (htime : c.Timed w₀.now w.now gate) (ht : Traces w₀ tr w)
    (hpast : ∀ e ∈ tr, e.instant ≤ w.now)
    (hmet : ∀ e ∈ tr, ∀ k, e.event.caller? = some k → k < w.met)
    (ht' : Traces w₀ tr' w') : c'.Agrees scene job w₀ gate i tr' := by
  have hdial : c.MayDial → c.Dials tr c.reasons.length false := by
    rintro (hs | ⟨due, hs⟩) <;> simpa [Agrees, hs] using ha
  -- in every case the two worlds fix what the act added to the trace (`Traces.unique`)
  cases h with
  | exhausted h | calledOff h =>
    obtain rfl := ht.unique ht'
    exact { hdial h with }
  | started h _ _ takes verdict sets =>
    have hd := ((hdial h).enrol hmet).attempted (enrol_number w c) w.now
    have hquiet := hd.append fun e he k _ => not_about_tolled w sets w.now e he
    obtain rfl := (traces_enrol ht c _).unique ht'
    rw [List.map_append, List.append_assoc]
    rw [← enrol_reasons w c] at hquiet
    exact { hquiet with }
  | accepted h =>
    obtain rfl := (ht.after _).unique ht'
    rw [Agrees, h] at ha
    exact { ha.connected w.now with }
  | refused h =>
    obtain rfl := (ht.after _).unique ht'
    rw [Agrees, h] at ha
    exact { ha.silent w.now (.inr (.inr ⟨_, rfl⟩)) with }
  | refusedLast h =>
    obtain rfl := (ht.after _).unique ht'
    rw [Agrees, h] at ha
    exact { ha.silent w.now (.inr (.inr ⟨_, rfl⟩)) with }
  | perished h =>
    obtain rfl := (ht.after _).unique ht'
    rw [Agrees, h] at ha
    exact ⟨{ ha.silent w.now (.inl rfl) with }, w.now, List.mem_cons_self⟩
  | turnedAway h closed =>
    obtain rfl := ht.unique ht'
    rw [Agrees, h] at ha
    refine ⟨{ ha with }, ?_⟩
    intro hd
    cases gate with
    | shut => simp [due, h] at hdue
    | openSince opened => exact absurd rfl (closed hd opened)
    | stuck => rfl
  | entered h hg =>
    obtain ⟨hshow, hcame⟩ := ha.entered h hg htime
    exact hshow.proceed hcame ht hpast ht'
  | heard h ho wa hwa =>
    obtain ⟨ts, hshow, hcame⟩ := ha.heard h hdue ho
    subst hwa
    exact Shows.proceed (w := w.after _) hshow hcame (ht.after _) (instant_le_after hpast _) ht'
  | choked h ho =>
    rename_i state sent due reply
    obtain ⟨ts, s₀, token, r, hcame, hask, -, hanswer, hshow⟩ := ha.answered h hdue
    obtain rfl := (ht.after _).unique ht'
    rw [ho] at hanswer hshow
    exact ⟨⟨w.now, List.mem_cons_self⟩, ts, s₀, sent, token, hcame,
      .inr ⟨r, (hshow.silent w.now (.inl rfl)).depart _, hask, hanswer⟩⟩
  | idle => simp [due, *] at hdue

/-- What is sent at a check is licensed. -/
theorem Shows.proceed_licensed {s : σ} (h : c.Shows tr ts none)
    (hcame : c.Came scene job gate i ts s w.now) (ht : Traces w₀ tr w)
    (hl : job.Licensed scene w₀ gate tr) (ht' : Traces w₀ tr' (c.proceed scene job w s).1) :
    job.Licensed scene w₀ gate tr' := by
  rw [proceed_eq] at ht'
  split at ht'
  · obtain rfl := ht.unique ht'
    exact hl
  · obtain rfl := (ht.after _).unique ht'
    exact hl.append (by simp)
  · rename_i r s' hask
    obtain rfl := (ht.after _).unique ht'
    intro t k r' older hs
    rcases List.suffix_cons_iff.mp hs with heq | hs
    · obtain ⟨hentry, rfl⟩ := List.cons.inj heq
      obtain ⟨rfl, hevent⟩ := Entry.mk.inj hentry
      obtain ⟨rfl, rfl⟩ := Happening.asked.inj hevent
      obtain ⟨opened, hgate, hcourse⟩ := hcame
      rw [ht.token] at hask
      exact ⟨i, opened, _, ts, s, s', hgate, Nat.le_max_left _ _, hcourse, hask,
        congrArg Share.turns h.share, congrArg Share.pending h.share⟩
    · exact hl t k r' older hs

/-- **An act adds no request that the job did not ask for.** -/
theorem Acts.licensed {w' : World} {c' : Caller σ} (h : Acts scene job gate i w c w' c')
    (ha : c.Agrees scene job w₀ gate i tr) (hdue : c.due w gate = some w.now)
    (htime : c.Timed w₀.now w.now gate) (ht : Traces w₀ tr w)
    (hl : job.Licensed scene w₀ gate tr) (ht' : Traces w₀ tr' w') :
    job.Licensed scene w₀ gate tr' := by
  have htolled : ∀ {sets : Bool} {e : Happening}, e ∈ w.tolled sets → ∀ k r, e ≠ .asked k r := by
    intro sets e he
    simp [w.mem_tolled he]
  cases h with
  | exhausted | calledOff | turnedAway | idle =>
    obtain rfl := ht.unique ht'
    exact hl
  | started _ _ _ takes verdict sets =>
    obtain rfl := (traces_enrol ht c _).unique ht'
    refine hl.after w.now ?_
    intro e he
    rcases List.mem_append.mp he with he | he
    · exact htolled he
    · simp [List.mem_singleton.mp he]
  | accepted | refused | refusedLast | perished =>
    obtain rfl := (ht.after _).unique ht'
    exact hl.after w.now (by simp)
  -- only at a check is there a request, and the token is then as the trace before it says
  | entered h hg =>
    obtain ⟨hshow, hcame⟩ := ha.entered h hg htime
    exact hshow.proceed_licensed hcame ht hl ht'
  | heard h ho wa hwa =>
    obtain ⟨ts, hshow, hcame⟩ := ha.heard h hdue ho
    subst hwa
    refine Shows.proceed_licensed (w := w.after _) hshow hcame (ht.after _) (hl.after w.now ?_) ht'
    intro e he
    rcases List.mem_cons.mp he with rfl | he
    · simp
    · exact htolled he
  | choked =>
    obtain rfl := (ht.after _).unique ht'
    refine hl.after w.now ?_
    intro e he
    simp only [List.mem_cons] at he
    rcases he with rfl | rfl | he
    · simp
    · simp
    · exact htolled he

end Caller

/-! ## The whole crew -/

namespace Crew

variable {σ : Type} {scene : Scene} {w₀ w w' : World} {crew crew₀ crew' : Crew σ} {tr : List Entry}

/-- What the history says of a crew is what its callers say of themselves. -/
structure Faithful (scene : Scene) (w₀ : World) (tr : List Entry) (w : World) (crew : Crew σ) :
    Prop extends crew.Grounded w₀ tr w where
  agrees : ∀ (i : Nat) (c : Caller σ), crew.callers[i]? = some c →
    c.Agrees scene crew.job w₀ crew.gate i tr
  licensed : crew.job.Licensed scene w₀ crew.gate tr

theorem Starts.faithful (hs : crew.Starts w₀) : crew.Faithful scene w₀ [] w₀ where
  toGrounded := hs.grounded
  agrees := by
    intro i c hc
    rw [hs.callers c (List.mem_of_getElem? hc)]
    exact { share := by simp [Caller.fresh], numbered := by simp [Caller.fresh], sent := rfl }
  licensed := .nil

theorem Faithful.agrees_of_mem (hf : crew.Faithful scene w₀ tr w) {c : Caller σ}
    (hc : c ∈ crew.callers) : ∃ i, c.Agrees scene crew.job w₀ crew.gate i tr := by
  obtain ⟨i, hi⟩ := List.mem_iff_getElem?.mp hc
  exact ⟨i, hf.agrees i c hi⟩

/-- An act of one caller leaves the others as they are: what it adds to the history is about
itself or about nobody. -/
theorem Faithful.act (hf : crew.Faithful scene w₀ tr w) {i : Nat} {c : Caller σ}
    (hc : crew.callers[i]? = some c) (hdue : c.due w crew.gate = some w.now) :
    ∃ new, (crew.acted scene w i c).2.Faithful scene w₀ (new ++ tr) (crew.acted scene w i c).1 := by
  have hacts := Caller.act_acts scene crew.job crew.gate i w c
  have htime := hf.timed c (List.mem_of_getElem? hc)
  obtain ⟨es, hes, hg⟩ := hf.acted hc hacts
  refine ⟨es.map (Entry.mk w.now), { toGrounded := hg, agrees := ?_, licensed := ?_ }⟩
  · intro j d hd
    obtain ⟨rfl, rfl⟩ | ⟨hji, hd⟩ := getElem?_set_cases hd
    · exact hacts.agrees (hf.agrees j c hc) hdue htime hf.traces (fun e he => (hf.instants e he).2)
        (fun e he k hk => (hf.heard_range he hk).2) hg.traces
    · refine (hf.agrees j d hd).append ?_
      intro e he k hk hek
      obtain ⟨x, hx, rfl⟩ := List.mem_map.mp he
      -- two callers would share the number that the entry names
      refine hji (hg.distinct j i d _ k ?_ ?_ hk (hes x hx k hek))
      · show (crew.callers.set i _)[j]? = some d
        rw [List.getElem?_set_ne (Ne.symm hji)]
        exact hd
      · show (crew.callers.set i _)[i]? = some _
        simp [(List.getElem?_eq_some_iff.mp hc).1]
  · exact hacts.licensed (hf.agrees i c hc) hdue htime hf.traces hf.licensed hg.traces

theorem Faithful.step (hf : crew.Faithful scene w₀ tr w) (hs : Step scene w crew w' crew') :
    ∃ new, crew'.Faithful scene w₀ (new ++ tr) w' := by
  cases hs with
  | wait t alarm later _ first =>
    exact ⟨[], { toGrounded := hf.wait alarm later first, agrees := hf.agrees, licensed := hf.licensed }⟩
  | cancel =>
    refine ⟨w.cancelling.map (Entry.mk w.now), { toGrounded := hf.cancel, agrees := ?_, licensed := ?_ }⟩
    · intro i c hc
      refine (hf.agrees i c hc).append ?_
      intro e he k _
      exact Caller.not_about_tolled w true w.now e he
    · refine hf.licensed.after w.now ?_
      intro e he
      simp [w.caller?_of_mem_cancelling he]
  | act hc hdue => exact hf.act hc hdue
  | pass shut nobody =>
    refine ⟨[], { toGrounded := hf.pass nobody ?_, agrees := ?_, licensed := ?_ }⟩
    · split
      · exact .inl rfl
      · exact .inr rfl
    · intro i c hc
      have := hf.agrees i c hc
      rw [shut] at this
      exact this.pass _
    · have := hf.licensed
      rw [shut] at this
      exact this.pass _

/-- **Every reached state is faithful.** -/
theorem Reaches.faithful (hs : crew₀.Starts w₀) (h : Reaches scene w₀ crew₀ w crew) :
    crew.Faithful scene w₀ (w.since w₀) w := by
  suffices ∃ tr, crew.Faithful scene w₀ tr w by
    obtain ⟨tr, hf⟩ := this
    rwa [hf.traces.since_eq]
  induction h with
  | start => exact ⟨[], hs.faithful⟩
  | step _ s ih =>
    obtain ⟨tr, hf⟩ := ih
    obtain ⟨new, h⟩ := hf.step s
    exact ⟨_, h⟩

theorem Reaches.job_eq (h : Reaches scene w₀ crew₀ w crew) :
    crew.job = crew₀.job ∧ crew.window = crew₀.window ∧
      crew.callers.length = crew₀.callers.length := by
  induction h with
  | start => exact ⟨rfl, rfl, rfl⟩
  | step _ s ih => cases s <;> simpa [acted] using ih

end Crew

end LoadSweep
