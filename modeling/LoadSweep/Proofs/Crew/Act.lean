import LoadSweep.Harness.Crew
import LoadSweep.Proofs.Trace

/-!
# `LoadSweep/Proofs/Crew/Act.lean` — what one act can do

`Caller.act` is the only function that changes a caller, and every invariant of a crew is an
invariant of it. `Caller.Acts` lists what an act can come to, one constructor for each outcome,
with what must hold before it; `Caller.act_acts` says that the list is complete. Nothing below
this module unfolds `act` again.

The two places from which a caller makes the next move of its job share `Caller.proceed`, which
has one equation for all requests (`Caller.proceed_eq`).
-/

set_option autoImplicit false

namespace LoadSweep

/-! ## What is added to a world -/

/-- The world after these happenings, newest first, of the present instant. -/
def World.after (w : World) (es : List Happening) : World :=
  { w with
    token := w.token || es.any (· = .cancelled)
    history := es.map (⟨w.now, ·⟩) ++ w.history }

namespace World

variable (w : World)

@[simp] theorem after_nil : w.after [] = w := by simp [after]

@[simp] theorem after_after (es fs : List Happening) : (w.after es).after fs = w.after (fs ++ es) := by
  simp [after, Bool.or_assoc, Bool.or_comm]

@[simp] theorem after_now (es : List Happening) : (w.after es).now = w.now := rfl

@[simp] theorem after_met (es : List Happening) : (w.after es).met = w.met := rfl

theorem record_eq {e : Happening} (h : e ≠ .cancelled) : w.record e = w.after [e] := by
  simp [record, after, h]

/-- The happening that `cancel` adds. -/
def cancelling : List Happening := if w.token then [] else [.cancelled]

theorem cancel_eq : w.cancel = w.after w.cancelling := by
  cases h : w.token with
  | true => rw [cancel, cancelling, if_pos h, if_pos h, after_nil]
  | false => simp [cancel, cancelling, after, record, h]

@[simp] theorem cancel_now : w.cancel.now = w.now := by rw [cancel_eq, after_now]

@[simp] theorem cancel_met : w.cancel.met = w.met := by rw [cancel_eq, after_met]

@[simp] theorem cancel_token : w.cancel.token = true := by
  unfold cancel
  split
  · assumption
  · rfl

theorem caller?_of_mem_cancelling {e : Happening} (h : e ∈ w.cancelling) : e = .cancelled := by
  unfold cancelling at h
  split at h <;> simp_all

/-- What the token adds when a script sets it, or does not. -/
def tolled (sets : Bool) : List Happening := if sets then w.cancelling else []

theorem tolled_eq (sets : Bool) : (if sets then w.cancel else w) = w.after (w.tolled sets) := by
  cases sets <;> simp [tolled, cancel_eq]

theorem mem_tolled {sets : Bool} {e : Happening} (h : e ∈ w.tolled sets) : e = .cancelled := by
  unfold tolled at h
  split at h
  · exact w.caller?_of_mem_cancelling h
  · simp at h

end World

/-! ## The move of a job -/

/-- A ping does not count among the requests. -/
def Request.weight : Request → Nat
  | .ping => 0
  | .get _ | .set .. => 1

theorem Request.weight_of_ne_ping {r : Request} (h : r ≠ .ping) : r.weight = 1 := by
  cases r with
  | ping => exact absurd rfl h
  | get | set => rfl

/-- The reply to a request when `n` others came before it. -/
def Script.replyTo (s : Script) (n : Nat) : Request → Reply
  | .ping => s.ping
  | .get _ | .set .. => s.reply n

/-- What the job makes of an answer; a caller that it kills makes nothing of it. -/
def Answer.outcome : Answer → Option (Except ClientFault (Option String))
  | .done value => some (.ok value)
  | .failed fault => some (.error fault)
  | .dies => none

namespace Caller

variable {σ : Type} {scene : Scene} {job : Job σ} {gate : Gate} {i : Nat} {w : World}
  {c : Caller σ}

/-- The caller after it has sent a request. -/
def talk (c : Caller σ) (scene : Scene) (now : Nat) (r : Request) (state : σ) : Caller σ :=
  let reply := (scene.script c.who).replyTo c.sent r
  { c with
    sent := c.sent + r.weight
    stage := .talking state now (now + reply.takes.nanos) reply }

theorem proceed_eq (scene : Scene) (job : Job σ) (w : World) (c : Caller σ) (state : σ) :
    c.proceed scene job w state
      = match job.ask w.now w.token state with
        | .stop s => (w, c.depart (.served s))
        | .die => (w.after [.died c.who], c.depart (.died (some state)))
        | .send r s => (w.after [.asked c.who r], c.talk scene w.now r s) := by
  unfold proceed
  cases job.ask w.now w.token state with
  | stop s => rfl
  | die => simp [World.record_eq]
  | send r s => cases r <;> simp [World.record_eq, talk, Script.replyTo, Request.weight]

/-! ## The outcomes -/

/-- The caller may make an attempt next. -/
def MayDial (c : Caller σ) : Prop := c.stage = .fresh ∨ ∃ due, c.stage = .resting due

/-- What an act can come to: the world and the caller after it. -/
inductive Acts (scene : Scene) (job : Job σ) (gate : Gate) (i : Nat) (w : World) (c : Caller σ) :
    World → Caller σ → Prop
  | exhausted (h : c.MayDial) (used : scene.policy.tries ≤ c.reasons.length) :
    Acts scene job gate i w c w (c.settle w.now (.error (.exhausted c.lastReason)))
  | calledOff (h : c.MayDial) (set : w.token = true) :
    Acts scene job gate i w c w (c.settle w.now (.error .cancelled))
  | started (h : c.MayDial) (left : c.reasons.length < scene.policy.tries)
    (clear : w.token = false) (takes : Nat) (verdict : Verdict) (sets : Bool)
    (ends : ((scene.script (enrol w c).2.who).attempt c.reasons.length).within scene.policy.timeout
      = (takes, verdict))
    (tolls : sets = ((scene.script (enrol w c).2.who).attempt c.reasons.length).cancels) :
    Acts scene job gate i w c
      ((enrol w c).1.after (w.tolled sets ++ [.attempted (enrol w c).2.who]))
      { (enrol w c).2 with stage := .attempting (w.now + takes) verdict }
  | accepted {due : Nat} (h : c.stage = .attempting due .accepted) :
    Acts scene job gate i w c (w.after [.connected c.who]) (c.settle w.now (.ok ()))
  | refused {due : Nat} {reason : String} (h : c.stage = .attempting due (.refused reason))
    (left : c.reasons.length + 1 < scene.policy.tries) :
    Acts scene job gate i w c (w.after [.refused c.who reason])
      { c with
        reasons := reason :: c.reasons
        stage := .resting (w.now + scene.policy.backoff.wait) }
  | refusedLast {due : Nat} {reason : String} (h : c.stage = .attempting due (.refused reason))
    (used : scene.policy.tries ≤ c.reasons.length + 1) :
    Acts scene job gate i w c (w.after [.refused c.who reason])
      (settle { c with reasons := reason :: c.reasons } w.now (.error (.exhausted reason)))
  | perished {due : Nat} (h : c.stage = .attempting due .dies) :
    Acts scene job gate i w c (w.after [.died c.who])
      { c.depart (.died none) with settledAt := some w.now }
  | turnedAway {dialled : Except DialFault Unit} (h : c.stage = .settled dialled)
    (closed : dialled = .ok () → ∀ opened, gate ≠ .openSince opened) :
    Acts scene job gate i w c w (c.depart (.unserved dialled))
  | entered {opened : Nat} (h : c.stage = .settled (.ok ())) (hg : gate = .openSince opened) :
    Acts scene job gate i w c (c.proceed scene job w (job.enter i opened)).1
      (c.proceed scene job w (job.enter i opened)).2
  | heard {state : σ} {sent due : Nat} {reply : Reply}
    {outcome : Except ClientFault (Option String)} (h : c.stage = .talking state sent due reply)
    (ho : reply.answer.outcome = some outcome) (w' : World)
    (hw : w' = w.after (.answered c.who reply.answer :: w.tolled reply.cancels)) :
    Acts scene job gate i w c (c.proceed scene job w' (job.hear sent w.now outcome state)).1
      (c.proceed scene job w' (job.hear sent w.now outcome state)).2
  | choked {state : σ} {sent due : Nat} {reply : Reply}
    (h : c.stage = .talking state sent due reply) (ho : reply.answer = .dies) :
    Acts scene job gate i w c
      (w.after (.died c.who :: .answered c.who .dies :: w.tolled reply.cancels))
      (c.depart (.died (some state)))
  | idle {how : Departure σ} (h : c.stage = .ended how) : Acts scene job gate i w c w c

@[simp] theorem enrol_now (w : World) (c : Caller σ) : (enrol w c).1.now = w.now := by
  unfold enrol
  split <;> rfl

@[simp] theorem enrol_token (w : World) (c : Caller σ) : (enrol w c).1.token = w.token := by
  unfold enrol
  split <;> rfl

@[simp] theorem enrol_reasons (w : World) (c : Caller σ) :
    (enrol w c).2.reasons = c.reasons := by
  unfold enrol
  split <;> rfl

theorem attempt_acts (h : c.MayDial) :
    Acts scene job gate i w c (c.attempt scene w).1 (c.attempt scene w).2 := by
  unfold attempt
  split
  · exact .exhausted h ‹_›
  · rename_i left
    cases ht : w.token with
    | true => exact .calledOff h ht
    | false =>
      simp only [Bool.false_eq_true, if_false, enrol_reasons]
      generalize ha : (scene.script (enrol w c).2.who).attempt c.reasons.length = a
      have hstart : Acts scene job gate i w c _ _ := .started h (by omega) ht
        (a.within scene.policy.timeout).1 (a.within scene.policy.timeout).2 a.cancels
        (by rw [ha]) (by rw [ha])
      -- the attempt comes first, but the token is as it was before
      have hw : (if a.cancels then ((enrol w c).1.record (.attempted (enrol w c).2.who)).cancel
          else (enrol w c).1.record (.attempted (enrol w c).2.who))
          = (enrol w c).1.after (w.tolled a.cancels ++ [.attempted (enrol w c).2.who]) := by
        rw [World.record_eq _ (by simp), World.tolled_eq, World.after_after]
        simp [World.tolled, World.cancelling, World.after]
      rw [hw]
      simpa using hstart

/-- **Every act has one of the listed outcomes.** -/
theorem act_acts (scene : Scene) (job : Job σ) (gate : Gate) (i : Nat) (w : World)
    (c : Caller σ) :
    Acts scene job gate i w c (c.act scene job gate i w).1 (c.act scene job gate i w).2 := by
  unfold act
  split
  · exact attempt_acts (.inl ‹_›)
  · rename_i verdict h
    cases verdict with
    | accepted =>
      simp only [World.record_eq _ (show Happening.connected c.who ≠ .cancelled by simp)]
      exact .accepted h
    | refused reason =>
      simp only [Caller.refused, List.length_cons,
        World.record_eq _ (show Happening.refused c.who reason ≠ .cancelled by simp)]
      split
      · exact .refused h ‹_›
      · exact .refusedLast h (by omega)
    | dies =>
      simp only [World.record_eq _ (show Happening.died c.who ≠ .cancelled by simp)]
      exact .perished h
  · rename_i h
    -- the end of a rest is the token, or the next attempt
    split
    · exact .calledOff (.inr ⟨_, h⟩) ‹_›
    · exact attempt_acts (.inr ⟨_, h⟩)
  · rename_i dialled h
    split
    · exact .entered h rfl
    · rename_i hno
      exact .turnedAway h fun hd opened hg => hno opened hg hd
  · rename_i state sent due reply h
    have hanswered : ∀ a : Answer, (if reply.cancels then w.cancel else w).record (.answered c.who a)
        = w.after (.answered c.who a :: w.tolled reply.cancels) := by
      intro a
      rw [World.tolled_eq, World.record_eq _ (by simp), World.after_after]
      rfl
    simp only [hanswered]
    split
    · rename_i value ha
      exact .heard h (by rw [ha]; rfl) _ rfl
    · rename_i fault ha
      exact .heard h (by rw [ha]; rfl) _ rfl
    · rename_i ha
      rw [ha, World.record_eq _ (by simp), World.after_after]
      exact .choked h ha
  · exact .idle ‹_›

/-! ## What all outcomes share -/

/-- A caller that has tried to connect has a number: it keeps it to the end, and it needs one
wherever it makes itself heard. -/
def Enrolled (c : Caller σ) : Prop :=
  match c.stage with
  | .attempting .. | .resting _ | .settled (.ok ()) | .talking .. => ∃ k, c.number = some k
  | .fresh | .settled (.error _) | .ended _ => True

/-- The number after an act: the one from before, or the next one that is free. -/
def Enrols (w : World) (c : Caller σ) (w' : World) (c' : Caller σ) : Prop :=
  (c'.number = c.number ∧ w'.met = w.met) ∨
    (c.number = none ∧ c'.number = some w.met ∧ w'.met = w.met + 1)

theorem enrol_enrols (w : World) (c : Caller σ) : Enrols w c (enrol w c).1 (enrol w c).2 := by
  unfold enrol
  split
  · exact .inl ⟨rfl, rfl⟩
  · exact .inr ⟨‹_›, rfl, rfl⟩

theorem enrol_number (w : World) (c : Caller σ) :
    (enrol w c).2.number = some (enrol w c).2.who := by
  unfold enrol
  split
  · rename_i k h; simp [who, h]
  · rfl

theorem enrol_after (w : World) (c : Caller σ) (es : List Happening) :
    (enrol w c).1.after es = { w.after es with met := (enrol w c).1.met } := by
  unfold enrol
  split <;> rfl

theorem number_eq_who {k : Nat} (h : c.number = some k) : c.number = some c.who := by
  simp [who, h]

/-- The next move adds happenings of the caller itself, and changes neither its number nor how it
got here. -/
theorem proceed_effect (scene : Scene) (job : Job σ) (w : World) (c : Caller σ) (state : σ) :
    ∃ es : List Happening, (c.proceed scene job w state).1 = w.after es
      ∧ (∀ e ∈ es, e.caller? = some c.who)
      ∧ (c.proceed scene job w state).2.number = c.number := by
  rw [proceed_eq]
  split
  · exact ⟨[], by simp, by simp, rfl⟩
  · exact ⟨[_], rfl, by simp [Happening.caller?], rfl⟩
  · exact ⟨[_], rfl, by simp [Happening.caller?], rfl⟩

theorem number_of_own {c' : Caller σ} {n : Nat} {es : List Happening} (hn : c.number = some n)
    (hsame : c'.number = c.number) (hes : ∀ e ∈ es, e = .cancelled ∨ e.caller? = some c.who) :
    ∀ e ∈ es, ∀ k, e.caller? = some k → c'.number = some k := by
  intro e he k hk
  rw [hsame, number_eq_who hn]
  rcases hes e he with rfl | hown
  · simp [Happening.caller?] at hk
  · rw [← hk, hown]

/-- An act adds happenings of the present instant, and they are the caller's own or the token's. -/
theorem Acts.effect {w' : World} {c' : Caller σ} (h : Acts scene job gate i w c w' c')
    (hn : c.Enrolled) :
    ∃ es : List Happening, w' = { w.after es with met := w'.met }
      ∧ (∀ e ∈ es, ∀ k, e.caller? = some k → c'.number = some k) ∧ Enrols w c w' c' := by
  cases h with
  | exhausted | calledOff | turnedAway | idle => exact ⟨[], by simp, by simp, .inl ⟨rfl, rfl⟩⟩
  | started _ _ _ takes verdict sets =>
    -- the only act that may give the caller its number
    refine ⟨_, enrol_after w c _, ?_, enrol_enrols w c⟩
    intro e he k hk
    rcases List.mem_append.mp he with he | he
    · simp [w.mem_tolled he, Happening.caller?] at hk
    · obtain rfl := List.mem_singleton.mp he
      obtain rfl := Option.some.inj hk
      exact enrol_number w c
  | accepted h | refused h | refusedLast h | perished h =>
    rw [Enrolled, h] at hn
    obtain ⟨n, hn⟩ := hn
    refine ⟨[_], rfl, number_of_own hn rfl ?_, .inl ⟨rfl, rfl⟩⟩
    intro e he
    obtain rfl := List.mem_singleton.mp he
    exact .inr rfl
  | entered h hg =>
    rename_i opened
    rw [Enrolled, h] at hn
    obtain ⟨n, hn⟩ := hn
    obtain ⟨es, hw, hes, hnum⟩ := proceed_effect scene job w c (job.enter i opened)
    refine ⟨es, by rw [hw], number_of_own hn hnum ?_, .inl ⟨hnum, by rw [hw, World.after_met]⟩⟩
    intro e he
    exact .inr (hes e he)
  | heard h _ wa hwa =>
    rename_i state sent due reply outcome _
    rw [Enrolled, h] at hn
    obtain ⟨n, hn⟩ := hn
    obtain ⟨es, hw, hes, hnum⟩ := proceed_effect scene job wa c (job.hear sent w.now outcome state)
    refine ⟨es ++ .answered c.who reply.answer :: w.tolled reply.cancels, ?_,
      number_of_own hn hnum ?_, .inl ⟨hnum, by rw [hw, hwa, World.after_met, World.after_met]⟩⟩
    · rw [hw, hwa, World.after_after]
    · intro e he
      rcases List.mem_append.mp he with he | he
      · exact .inr (hes e he)
      · rcases List.mem_cons.mp he with rfl | he
        · exact .inr rfl
        · exact .inl (w.mem_tolled he)
  | choked h =>
    rw [Enrolled, h] at hn
    obtain ⟨n, hn⟩ := hn
    refine ⟨_, rfl, number_of_own hn rfl ?_, .inl ⟨rfl, rfl⟩⟩
    intro e he
    simp only [List.mem_cons] at he
    rcases he with rfl | rfl | he
    · exact .inr rfl
    · exact .inr rfl
    · exact .inl (w.mem_tolled he)

/-- An act takes no time. -/
theorem Acts.now_eq {w' : World} {c' : Caller σ} (h : Acts scene job gate i w c w' c')
    (hn : c.Enrolled) : w'.now = w.now := by
  obtain ⟨es, hw, -⟩ := h.effect hn
  rw [hw]
  rfl

/-- No act clears the token. -/
theorem Acts.token_set {w' : World} {c' : Caller σ} (h : Acts scene job gate i w c w' c')
    (hn : c.Enrolled) (hset : w.token = true) : w'.token = true := by
  obtain ⟨es, hw, -⟩ := h.effect hn
  rw [hw]
  simp [World.after, hset]

/-- A caller keeps its number, and gets one before it needs it. -/
theorem Acts.enrolled {w' : World} {c' : Caller σ} (h : Acts scene job gate i w c w' c')
    (hn : c.Enrolled) : c'.Enrolled := by
  have hproceed : ∀ {k : Nat} (wa : World) (s : σ), c.number = some k →
      (c.proceed scene job wa s).2.Enrolled := by
    intro k wa s hk
    rw [proceed_eq]
    split
    · trivial
    · trivial
    · exact ⟨k, hk⟩
  cases h with
  | exhausted | calledOff | refusedLast | perished | turnedAway | choked => trivial
  | started => exact ⟨_, enrol_number w c⟩
  | accepted h | refused h =>
    rw [Enrolled, h] at hn
    exact hn
  | entered h | heard h =>
    rw [Enrolled, h] at hn
    obtain ⟨n, hn⟩ := hn
    exact hproceed _ _ hn
  | idle => exact hn

end Caller

end LoadSweep
