import LoadSweep.Proofs.Crew.Flight
import LoadSweep.Proofs.Crew.Order

/-!
# `LoadSweep/Proofs/Crew/Timetable.lean` — the attempts of a caller, entry by entry

`Caller.OnTime` says of a caller where it stands in its schedule, and forgets how it got there. Here
the history is held against the schedule: an attempt is the next one of its caller, starts when the
schedule has it, and finds the token unset; what ends an attempt ends the last one, at its end
(`Entry.Timely`).

What cannot be read off the schedule is how the token cuts it short. A caller that rests goes on
resting until the token is set, and not a moment longer (`Caller.Waits`); so a caller that was called
off settled at the first instant of its rest at which the token was set (`Caller.CalledOff`).

Two more things are read off the entries one by one. They are in the order of time (`Entry.Latest`);
and an attempt is one of a caller that has no connection yet, a request one of a caller that has it
(`Entry.Linked`).
-/

set_option autoImplicit false

namespace LoadSweep

/-- The entries about attempts are those of the schedule of their caller. The number of attempts
that came before tells which one it is. -/
def Entry.Timely (scene : Scene) (w₀ : World) (older : List Entry) (e : Entry) : Prop :=
  match e.event with
  | .attempted k =>
    let n := (Dealings.ofHistory older k).attempts
    n < scene.policy.tries ∧ (∀ j < n, (scene.script k).Refuses scene.policy j) ∧
      e.instant = w₀.now + (scene.script k).dialStart scene.policy n ∧ w₀.tokenAfter older = false
  | .refused k reason => ∃ n, (Dealings.ofHistory older k).attempts = n + 1 ∧
      ((scene.script k).dial scene.policy n).2 = .refused reason ∧
      e.instant = w₀.now + (scene.script k).dialEnd scene.policy n
  | .connected k => ∃ n, (Dealings.ofHistory older k).attempts = n + 1 ∧
      ((scene.script k).dial scene.policy n).2 = .accepted ∧
      e.instant = w₀.now + (scene.script k).dialEnd scene.policy n
  | .asked .. | .answered .. | .died _ | .cancelled => True

/-- Attempts, and the connection, come as long as their caller has no connection; requests come
when it has one. -/
def Entry.Linked (older : List Entry) (e : Entry) : Prop :=
  match e.event with
  | .attempted k | .connected k => (Dealings.ofHistory older k).connected = false
  | .asked k _ => (Dealings.ofHistory older k).connected = true
  | .refused .. | .answered .. | .died _ | .cancelled => True

/-- Nothing that came before happened later. -/
def Entry.Latest (older : List Entry) (e : Entry) : Prop := ∀ x ∈ older, x.instant ≤ e.instant

/-- When a caller is ready for attempt number `n`, in nanoseconds from the start: at once, or when
the attempt before it has failed. It rests from then to the start of the attempt. -/
def Script.ready (script : Script) (policy : Policy) : Nat → Nat
  | 0 => 0
  | n + 1 => script.dialEnd policy n

theorem Script.ready_le (script : Script) (policy : Policy) (n : Nat) :
    script.ready policy n ≤ script.dialStart policy n := by
  cases n with
  | zero => exact Nat.le_refl _
  | succ n => exact Nat.le_add_right _ _

namespace Caller

variable {σ : Type} {scene : Scene} {job : Job σ} {gate : Gate} {i : Nat} {w w' w₀ : World}
  {c c' : Caller σ} {tr new : List Entry}

/-! ## What a caller adds -/

theorem Dials.attempts_eq {n k : Nat} {connected : Bool} (h : c.Dials tr n connected)
    (hk : c.number = some k) : (Dealings.ofHistory tr k).attempts = n :=
  congrArg (fun sh => sh.dealings.attempts) (h.share k hk)

/-- Nothing but attempts and their ends is held against the schedule. -/
theorem timely_of_other {older : List Entry} {e : Entry}
    (h : e.event = .cancelled ∨ (∃ k r, e.event = .asked k r) ∨ (∃ k a, e.event = .answered k a) ∨
      ∃ k, e.event = .died k) : e.Timely scene w₀ older := by
  unfold Entry.Timely
  obtain h | ⟨k, r, h⟩ | ⟨k, a, h⟩ | ⟨k, h⟩ := h <;> rw [h] <;> trivial

theorem eachOf_timely {es : List Happening} (t : Nat)
    (h : ∀ e ∈ es, e = .cancelled ∨ (∃ k r, e = .asked k r) ∨ (∃ k a, e = .answered k a) ∨
      ∃ k, e = .died k) : EachOf (fun older e => e.Timely scene w₀ older) tr (es.map (Entry.mk t)) := by
  induction es with
  | nil => trivial
  | cons e rest ih =>
    exact ⟨timely_of_other (h e List.mem_cons_self), ih fun x hx => h x (List.mem_cons_of_mem _ hx)⟩

/-- A move of the job is not held against the schedule. -/
theorem proceed_timely {s : σ} (ht : Traces w₀ tr w)
    (ht' : Traces w₀ (new ++ tr) (c.proceed scene job w s).1) :
    EachOf (fun older e => e.Timely scene w₀ older) tr new := by
  rw [proceed_eq] at ht'
  split at ht'
  · obtain rfl := List.append_left_eq_self.mp (ht.unique ht')
    trivial
  · obtain rfl := List.append_cancel_right ((ht.after _).unique ht')
    exact eachOf_timely w.now (by simp)
  · obtain rfl := List.append_cancel_right ((ht.after _).unique ht')
    exact eachOf_timely w.now (by simp)

/-- An attempt that is due ends when and how the schedule has it. -/
theorem OnTime.attempt_due (h : c.OnTime scene w₀.now w.now w.token) {due : Nat} {verdict : Verdict}
    (hstage : c.stage = .attempting due verdict) (hdue : c.due w gate = some w.now) :
    c.reasons.length < scene.policy.tries ∧
      ((scene.script c.who).dial scene.policy c.reasons.length).2 = verdict ∧
      w.now = w₀.now + (scene.script c.who).dialEnd scene.policy c.reasons.length := by
  have hs := h.scheduled
  simp only [Scheduled, hstage] at hs
  obtain rfl : due = w.now := by simpa [Caller.due, hstage] using hdue
  exact ⟨hs.1, hs.2.2, hs.2.1⟩

/-- **What an act adds is as the schedule of the caller has it.** -/
theorem Acts.timely (h : Acts scene job gate i w c w' c') (ha : c.Agrees scene job w₀ gate i tr)
    (hn : c.Enrolled) (ho : c.OnTime scene w₀.now w.now w.token) (hdue : c.due w gate = some w.now)
    (ht : Traces w₀ tr w) (hmet : ∀ e ∈ tr, ∀ k, e.event.caller? = some k → k < w.met)
    (ht' : Traces w₀ (new ++ tr) w') :
    EachOf (fun older e => e.Timely scene w₀ older) tr new := by
  have htolled : ∀ sets, EachOf (fun older e => e.Timely scene w₀ older) tr
      ((w.tolled sets).map (Entry.mk w.now)) := fun sets =>
    eachOf_timely w.now fun e he => .inl (w.mem_tolled he)
  -- the end of an attempt is that of the last one, and it is due now
  have hend : ∀ {due : Nat} {verdict : Verdict}, c.stage = .attempting due verdict →
      (Dealings.ofHistory tr c.who).attempts = c.reasons.length + 1 ∧
        ((scene.script c.who).dial scene.policy c.reasons.length).2 = verdict ∧
        w.now = w₀.now + (scene.script c.who).dialEnd scene.policy c.reasons.length := by
    intro due verdict hstage
    rw [Agrees, hstage] at ha
    rw [Enrolled, hstage] at hn
    obtain ⟨k, hk⟩ := hn
    exact ⟨ha.attempts_eq (number_eq_who hk), (ho.attempt_due hstage hdue).2⟩
  cases h with
  | exhausted | calledOff | turnedAway | idle =>
    obtain rfl := List.append_left_eq_self.mp (ht.unique ht')
    trivial
  | started h left clear takes verdict sets =>
    obtain rfl := List.append_cancel_right ((traces_enrol ht c _).unique ht')
    rw [List.map_append]
    refine EachOf.append ⟨?_, trivial⟩ (eachOf_timely w.now fun e he => .inl (w.mem_tolled he))
    have hdials : c.Dials tr c.reasons.length false := by
      obtain hfresh | ⟨due, hrest⟩ := h
      · simpa [Agrees, hfresh] using ha
      · simpa [Agrees, hrest] using ha
    have hcount : (Dealings.ofHistory tr (enrol w c).2.who).attempts = c.reasons.length :=
      (hdials.enrol hmet).attempts_eq (enrol_number w c)
    obtain ⟨hbefore, hsame⟩ := ho.enrol w
    have hnow := ho.starts h clear hdue
    rw [← hsame] at hnow
    simp only [Entry.Timely, List.map_nil, List.nil_append, hcount]
    exact ⟨left, hbefore, hnow, ht.token ▸ clear⟩
  | accepted h | refused h | refusedLast h =>
    obtain rfl := List.append_cancel_right ((ht.after _).unique ht')
    exact ⟨⟨_, hend h⟩, trivial⟩
  | perished h =>
    obtain rfl := List.append_cancel_right ((ht.after _).unique ht')
    exact eachOf_timely w.now (by simp)
  | entered => exact proceed_timely ht ht'
  | heard h ho wa hwa =>
    subst hwa
    obtain ⟨more, rfl, htraces, hnext⟩ := traces_proceed ht _ ht'
    exact EachOf.append ⟨timely_of_other (.inr (.inr (.inl ⟨_, _, rfl⟩))), htolled _⟩
      (proceed_timely htraces hnext)
  | choked =>
    obtain rfl := List.append_cancel_right ((ht.after _).unique ht')
    exact ⟨timely_of_other (.inr (.inr (.inr ⟨_, rfl⟩))),
      timely_of_other (.inr (.inr (.inl ⟨_, _, rfl⟩))), htolled _⟩

/-! ## How the token cuts it short -/

/-- The caller has waited until now for its next attempt. The token has not been set for longer
than this moment, or than the caller has been ready. -/
structure Waits (scene : Scene) (w₀ : World) (tr : List Entry) (now : Nat) (c : Caller σ) :
    Prop where
  left : c.reasons.length < scene.policy.tries
  ready : w₀.now + (scene.script c.who).ready scene.policy c.reasons.length ≤ now
  next : now ≤ w₀.now + (scene.script c.who).dialStart scene.policy c.reasons.length
  brief : ∀ t, ⟨t, .cancelled⟩ ∈ tr →
    now = max (w₀.now + (scene.script c.who).ready scene.policy c.reasons.length) t
  unset : w₀.token = true → c.reasons = []

/-- The caller settled as soon as it was ready for an attempt and the token was set: it waited
until then, and saw the token in what had happened so far. -/
def CalledOff (scene : Scene) (w₀ : World) (tr : List Entry) (c : Caller σ) : Prop :=
  ∃ (s : Nat) (seen : List Entry), c.settledAt = some s ∧ seen <:+ tr ∧
    w₀.tokenAfter seen = true ∧ (∀ e ∈ seen, e.instant ≤ s) ∧ c.Waits scene w₀ seen s

/-- What a caller leaves of its schedule that settles like this. -/
def LeftAs (scene : Scene) (w₀ : World) (tr : List Entry) (c : Caller σ) :
    Except DialFault Unit → Prop
  | .ok () => True
  | .error (.exhausted reason) => c.reasons.length = scene.policy.tries ∧ reason = c.lastReason ∧
    (scene.policy.tries = 0 → c.settledAt = some w₀.now)
  | .error .cancelled => c.CalledOff scene w₀ tr

/-- The reasons of a caller are those of its script, and what its stage says of the token is so. -/
structure Keeps (scene : Scene) (w₀ : World) (tr : List Entry) (now : Nat) (c : Caller σ) :
    Prop where
  reasons : ∀ reason rest, reason :: rest <:+ c.reasons →
    ((scene.script c.who).dial scene.policy rest.length).2 = .refused reason
  stage : match c.stage with
    | .attempting .. => w₀.token = false
    | .resting _ => c.Waits scene w₀ tr now
    | .settled dialled | .ended (.unserved dialled) => c.LeftAs scene w₀ tr dialled
    | .fresh | .talking .. | .ended (.served _) | .ended (.died _) => True

theorem fresh_keeps (scene : Scene) (w₀ : World) :
    (fresh : Caller σ).Keeps scene w₀ [] w₀.now :=
  { reasons := by simp [fresh], stage := trivial }

/-- What happens now leaves a wait what it was. -/
theorem Waits.append {now : Nat} (h : c.Waits scene w₀ tr now) (hnew : ∀ e ∈ new, e.instant = now) :
    c.Waits scene w₀ (new ++ tr) now := by
  refine { h with brief := ?_ }
  intro t ht
  obtain ht | ht := List.mem_append.mp ht
  · obtain rfl : t = now := hnew _ ht
    exact (Nat.max_eq_right h.ready).symm
  · exact h.brief t ht

theorem CalledOff.append (h : c.CalledOff scene w₀ tr) : c.CalledOff scene w₀ (new ++ tr) := by
  obtain ⟨s, seen, hs, hseen, hrest⟩ := h
  exact ⟨s, seen, hs, hseen.trans (List.suffix_append _ _), hrest⟩

theorem LeftAs.append {d : Except DialFault Unit} (h : c.LeftAs scene w₀ tr d) :
    c.LeftAs scene w₀ (new ++ tr) d := by
  match d with
  | .ok () => trivial
  | .error (.exhausted _) => exact h
  | .error .cancelled => exact CalledOff.append h

theorem Keeps.append {now : Nat} (h : c.Keeps scene w₀ tr now) (hnew : ∀ e ∈ new, e.instant = now) :
    c.Keeps scene w₀ (new ++ tr) now := by
  refine { h with stage := ?_ }
  have hs := h.stage
  cases hstage : c.stage with
  | fresh | talking => trivial
  | attempting => simpa only [hstage] using hs
  | resting =>
    simp only [hstage] at hs ⊢
    exact hs.append hnew
  | settled =>
    simp only [hstage] at hs ⊢
    exact hs.append
  | ended how =>
    cases how with
    | unserved =>
      simp only [hstage] at hs ⊢
      exact hs.append
    | served | died => trivial

/-- Time passes, but not for a caller that rests with the token set. -/
theorem Keeps.later (h : c.Keeps scene w₀ tr w.now) (ho : c.OnTime scene w₀.now w.now w.token)
    (ht : Traces w₀ tr w) {later : Nat} (hle : w.now ≤ later)
    (hdue : ∀ d, c.due w gate = some d → later ≤ d) : c.Keeps scene w₀ tr later := by
  refine { h with stage := ?_ }
  have hs := h.stage
  have hsched := ho.scheduled
  cases hstage : c.stage with
  | fresh | talking => trivial
  | attempting | settled => simpa only [hstage] using hs
  | resting due =>
    simp only [hstage] at hs ⊢
    simp only [Caller.due, hstage] at hdue
    simp only [Scheduled, hstage] at hsched
    cases hset : w.token with
    | true =>
      obtain rfl : later = w.now := Nat.le_antisymm (hdue w.now (by simp [hset])) hle
      exact hs
    | false =>
      refine { hs with ready := Nat.le_trans hs.ready hle, next := ?_, brief := ?_ }
      · rw [← hsched.2.2]
        exact hdue due (by simp [hset])
      · intro t hmem
        -- an entry of the token would have set it
        have hyes : w₀.tokenAfter tr = true := World.tokenAfter_iff.mpr (.inr ⟨t, hmem⟩)
        rw [← ht.token, hset] at hyes
        exact absurd hyes (by simp)
  | ended how =>
    cases how with
    | unserved => simpa only [hstage] using hs
    | served | died => trivial

/-- A caller that has no attempt left gives up, whatever the token says. -/
theorem attempt_of_none_left (h : scene.policy.tries ≤ c.reasons.length) :
    c.attempt scene w = (w, c.settle w.now (.error (.exhausted c.lastReason))) := if_pos h

theorem proceed_keeps {s : σ} {v : World} (h : c.Keeps scene w₀ tr w.now) :
    (c.proceed scene job v s).2.Keeps scene w₀ tr w.now := by
  rw [proceed_eq]
  split <;> exact { reasons := h.reasons, stage := trivial }

/-- A caller that may start an attempt has waited for it until now. -/
theorem Keeps.waits (h : c.Keeps scene w₀ tr w.now) (ho : c.OnTime scene w₀.now w.now w.token)
    (hdial : c.MayDial) (hpast : ∀ e ∈ tr, w₀.now ≤ e.instant ∧ e.instant ≤ w.now)
    (hleft : c.stage = .fresh → 0 < scene.policy.tries) : c.Waits scene w₀ tr w.now := by
  have hs := ho.scheduled
  have hk := h.stage
  obtain hfresh | ⟨due, hrest⟩ := hdial
  · simp only [Scheduled, hfresh] at hs
    obtain ⟨-, hnil, hnow⟩ := hs
    refine
      { left := by rw [hnil]; exact hleft hfresh
        ready := by rw [hnil, hnow]; exact Nat.le_refl _
        next := by rw [hnil, hnow]; exact Nat.le_refl _
        brief := ?_
        unset := fun _ => hnil }
    intro t ht
    obtain ⟨hge, hle⟩ := hpast _ ht
    rw [hnil, hnow]
    rw [hnow] at hle
    exact (Nat.max_eq_left hle).symm
  · simpa only [hrest] using hk

/-- A caller that has no attempt left has used all there are. -/
theorem Keeps.exhausted (h : c.Keeps scene w₀ tr w.now)
    (ho : c.OnTime scene w₀.now w.now w.token) (hdial : c.MayDial)
    (used : scene.policy.tries ≤ c.reasons.length) :
    (c.settle w.now (.error (.exhausted c.lastReason))).Keeps scene w₀ tr w.now := by
  have hs := ho.scheduled
  refine { reasons := h.reasons, stage := ?_ }
  obtain hfresh | ⟨due, hrest⟩ := hdial
  · simp only [Scheduled, hfresh] at hs
    obtain ⟨-, hnil, hnow⟩ := hs
    have hzero : scene.policy.tries = 0 := by
      rw [hnil] at used
      exact Nat.le_zero.mp used
    refine ⟨?_, rfl, fun _ => congrArg some hnow⟩
    show c.reasons.length = _
    rw [hnil, hzero]
    rfl
  · simp only [Scheduled, hrest] at hs
    omega

/-- A caller that minds the token has waited until now. -/
theorem Keeps.calledOff (h : c.Keeps scene w₀ tr w.now) (ho : c.OnTime scene w₀.now w.now w.token)
    (hdial : c.MayDial) (set : w.token = true) (ht : Traces w₀ tr w)
    (hpast : ∀ e ∈ tr, w₀.now ≤ e.instant ∧ e.instant ≤ w.now)
    (hleft : c.stage = .fresh → 0 < scene.policy.tries) :
    (c.settle w.now (.error .cancelled)).Keeps scene w₀ tr w.now where
  reasons := h.reasons
  stage := ⟨w.now, tr, rfl, List.suffix_refl _, ht.token ▸ set, fun e he => (hpast e he).2,
    { h.waits ho hdial hpast hleft with }⟩

/-- A caller starts an attempt only while the token is unset. -/
theorem Keeps.started (h : c.Keeps scene w₀ tr w.now) (ho : c.OnTime scene w₀.now w.now w.token)
    (ht : Traces w₀ tr w) (clear : w.token = false) (due : Nat) (verdict : Verdict) :
    ({ (enrol w c).2 with stage := .attempting due verdict } : Caller σ).Keeps scene w₀ tr w.now := by
  have hclear : w₀.token = false := by
    rw [ht.token] at clear
    unfold World.tokenAfter at clear
    simp only [Bool.or_eq_false_iff] at clear
    exact clear.1
  refine { reasons := ?_, stage := hclear }
  intro reason rest hsuffix
  replace hsuffix : reason :: rest <:+ (enrol w c).2.reasons := hsuffix
  show ((scene.script (enrol w c).2.who).dial scene.policy rest.length).2 = _
  rw [enrol_reasons] at hsuffix
  cases hnum : c.number with
  | none => simp [ho.unmet hnum] at hsuffix
  | some k =>
    have hsame : (enrol w c).2 = c := by simp [enrol, hnum]
    rw [hsame]
    exact h.reasons reason rest hsuffix

/-- The reason of a refusal is that of the attempt which it ends. -/
theorem Keeps.refused_reasons (h : c.Keeps scene w₀ tr w.now) {reason : String}
    (hverdict : ((scene.script c.who).dial scene.policy c.reasons.length).2 = .refused reason) :
    ∀ r rest, r :: rest <:+ reason :: c.reasons →
      ((scene.script c.who).dial scene.policy rest.length).2 = .refused r := by
  intro r rest hsuffix
  obtain heq | hold := List.suffix_cons_iff.mp hsuffix
  · obtain ⟨rfl, rfl⟩ := List.cons.inj heq
    exact hverdict
  · exact h.reasons r rest hold

/-- A caller that was refused begins to wait. -/
theorem Keeps.refused (h : c.Keeps scene w₀ tr w.now) (ho : c.OnTime scene w₀.now w.now w.token)
    (hdue : c.due w gate = some w.now) (hpast : ∀ e ∈ tr, w₀.now ≤ e.instant ∧ e.instant ≤ w.now)
    {due : Nat} {reason : String} (hstage : c.stage = .attempting due (.refused reason))
    (left : c.reasons.length + 1 < scene.policy.tries) (rested : Nat) :
    ({ c with reasons := reason :: c.reasons, stage := .resting rested } : Caller σ).Keeps scene w₀ tr
      w.now := by
  obtain ⟨-, hverdict, hnow⟩ := ho.attempt_due hstage hdue
  have hclear : w₀.token = false := by simpa only [hstage] using h.stage
  refine { reasons := h.refused_reasons hverdict, stage := ?_ }
  refine
    { left := left, ready := Nat.le_of_eq hnow.symm, next := ?_, brief := ?_
      unset := fun hset => absurd hset (by simp [hclear]) }
  · rw [hnow]
    exact Nat.add_le_add_left (Script.ready_le _ _ (c.reasons.length + 1)) _
  · intro t hmem
    have hle : t ≤ w.now := (hpast _ hmem).2
    show w.now = max (w₀.now + (scene.script c.who).dialEnd scene.policy c.reasons.length) t
    rw [← hnow]
    exact (Nat.max_eq_left hle).symm

/-- **An act keeps to it.** -/
theorem keeps_act (hact : c.act scene job gate i w = (w', c'))
    (h : c.Keeps scene w₀ tr w.now) (ho : c.OnTime scene w₀.now w.now w.token)
    (hdue : c.due w gate = some w.now) (ht : Traces w₀ tr w)
    (hpast : ∀ e ∈ tr, w₀.now ≤ e.instant ∧ e.instant ≤ w.now) :
    c'.Keeps scene w₀ tr w.now := by
  have hacts : Acts scene job gate i w c w' c' := by
    have := act_acts scene job gate i w c
    rwa [hact] at this
  cases hacts with
  | exhausted hdial used => exact h.exhausted ho hdial used
  | calledOff hdial set =>
    refine h.calledOff ho hdial set ht hpast fun hfresh => Nat.pos_of_ne_zero fun hzero => ?_
    -- without attempts it would have given up
    have hused : scene.policy.tries ≤ c.reasons.length := by omega
    rw [act, hfresh] at hact
    simp only at hact
    rw [attempt_of_none_left hused] at hact
    have hstage := congrArg Caller.stage (Prod.mk.inj hact).2
    simp [settle] at hstage
  | started hdial left clear takes verdict => exact h.started ho ht clear _ verdict
  | refused hstage left => exact h.refused ho hdue hpast hstage left _
  | refusedLast hstage used =>
    obtain ⟨left, hverdict, -⟩ := ho.attempt_due hstage hdue
    refine { reasons := h.refused_reasons hverdict, stage := ⟨?_, rfl, ?_⟩ }
    · show c.reasons.length + 1 = scene.policy.tries
      omega
    · intro hzero
      omega
  | turnedAway hstage =>
    have hk := h.stage
    simp only [hstage] at hk
    refine { reasons := h.reasons, stage := ?_ }
    rename_i dialled _
    cases dialled with
    | ok => trivial
    | error fault =>
      cases fault with
      | exhausted => exact hk
      | cancelled =>
        obtain ⟨s, seen, hsettled, hseen, hset, hbefore, hwaits⟩ := hk
        exact ⟨s, seen, hsettled, hseen, hset, hbefore, { hwaits with }⟩
  | accepted | perished | choked => exact { reasons := h.reasons, stage := trivial }
  | entered | heard => exact proceed_keeps h
  | idle => exact h

/-! ## One connection -/

theorem eachOf_linked (h : ∀ e ∈ new, ∀ k, e.event ≠ .attempted k ∧ e.event ≠ .connected k ∧
    ∀ r, e.event ≠ .asked k r) : EachOf (fun older e => e.Linked older) tr new := by
  refine .of_split fun newer older e heq => ?_
  have he := h e (by rw [heq]; simp)
  obtain ⟨t, k | _ | k | ⟨k, r⟩ | _ | _ | _⟩ := e
  · exact absurd rfl (he k).1
  · trivial
  · exact absurd rfl (he k).2.1
  · exact absurd rfl ((he k).2.2 r)
  all_goals trivial

theorem tolled_linked (w : World) (sets : Bool) (t : Nat) :
    EachOf (fun older e => e.Linked older) tr ((w.tolled sets).map (Entry.mk t)) := by
  refine eachOf_linked fun e he k => ?_
  obtain ⟨x, hx, rfl⟩ := List.mem_map.mp he
  obtain rfl := w.mem_tolled hx
  simp

/-- At a check the caller asks for something, and it is connected. -/
theorem Shows.proceed_linked {ts : List Turn} {s : σ} (h : c.Shows tr ts none) (ht : Traces w₀ tr w)
    (ht' : Traces w₀ (new ++ tr) (c.proceed scene job w s).1) :
    EachOf (fun older e => e.Linked older) tr new := by
  rw [proceed_eq] at ht'
  split at ht'
  · obtain rfl := List.append_left_eq_self.mp (ht.unique ht')
    trivial
  · obtain rfl := List.append_cancel_right ((ht.after _).unique ht')
    exact eachOf_linked (by simp)
  · obtain rfl := List.append_cancel_right ((ht.after _).unique ht')
    have hconnected : (Dealings.ofHistory tr c.who).connected = true :=
      congrArg (fun sh => sh.dealings.connected) h.share
    exact ⟨hconnected, trivial⟩

/-- **An act adds attempts of a caller that is not connected, and requests of one that is.** -/
theorem Acts.linked (h : Acts scene job gate i w c w' c') (ha : c.Agrees scene job w₀ gate i tr)
    (hn : c.Enrolled) (hdue : c.due w gate = some w.now) (htime : c.Timed w₀.now w.now gate)
    (ht : Traces w₀ tr w) (hmet : ∀ e ∈ tr, ∀ k, e.event.caller? = some k → k < w.met)
    (ht' : Traces w₀ (new ++ tr) w') : EachOf (fun older e => e.Linked older) tr new := by
  cases h with
  | exhausted | calledOff | turnedAway | idle =>
    obtain rfl := List.append_left_eq_self.mp (ht.unique ht')
    trivial
  | started h left clear takes verdict sets =>
    obtain rfl := List.append_cancel_right ((traces_enrol ht c _).unique ht')
    rw [List.map_append]
    refine EachOf.append ⟨?_, trivial⟩ (tolled_linked w _ _)
    have hdials : c.Dials tr c.reasons.length false := by
      obtain hfresh | ⟨due, hrest⟩ := h
      · simpa [Agrees, hfresh] using ha
      · simpa [Agrees, hrest] using ha
    have hshare := (hdials.enrol hmet).share _ (enrol_number w c)
    exact congrArg (fun sh => sh.dealings.connected) hshare
  | accepted h =>
    obtain rfl := List.append_cancel_right ((ht.after _).unique ht')
    rw [Agrees, h] at ha
    rw [Enrolled, h] at hn
    obtain ⟨k, hk⟩ := hn
    have hnone : (Dealings.ofHistory tr c.who).connected = false :=
      congrArg (fun sh => sh.dealings.connected) (ha.share _ (number_eq_who hk))
    exact ⟨hnone, trivial⟩
  | refused | refusedLast | perished =>
    obtain rfl := List.append_cancel_right ((ht.after _).unique ht')
    exact eachOf_linked (by simp)
  | entered h hg =>
    obtain ⟨hshow, -⟩ := ha.entered h hg htime
    exact hshow.proceed_linked ht ht'
  | heard h ho wa hwa =>
    obtain ⟨ts, hshow, -⟩ := ha.heard h hdue ho
    subst hwa
    obtain ⟨more, rfl, htraces, hnext⟩ := traces_proceed ht _ ht'
    exact EachOf.append ⟨trivial, tolled_linked w _ _⟩ (hshow.proceed_linked htraces hnext)
  | choked =>
    obtain rfl := List.append_cancel_right ((ht.after _).unique ht')
    exact ⟨trivial, trivial, tolled_linked w _ _⟩

end Caller

/-! ## The whole crew -/

namespace Crew

variable {σ : Type} {scene : Scene} {w₀ w w' : World} {crew crew₀ crew' : Crew σ} {tr : List Entry}

/-- What a step adds happens now. -/
theorem Faithful.step_now (hf : crew.Faithful scene w₀ tr w) (hs : Step scene w crew w' crew') :
    ∃ new, crew'.Faithful scene w₀ (new ++ tr) w' ∧ ∀ e ∈ new, e.instant = w.now := by
  obtain ⟨new, hf'⟩ := hf.step hs
  refine ⟨new, hf', ?_⟩
  cases hs with
  | wait =>
    obtain rfl := List.append_left_eq_self.mp (hf.traces.unique (hf'.traces.congr rfl rfl))
    simp
  | pass =>
    obtain rfl := List.append_left_eq_self.mp (hf.traces.unique hf'.traces)
    simp
  | cancel =>
    have hcancel := hf.traces.after w.cancelling
    rw [← World.cancel_eq] at hcancel
    obtain rfl := List.append_cancel_right (hcancel.unique hf'.traces)
    intro e he
    obtain ⟨_, _, rfl⟩ := List.mem_map.mp he
    rfl
  | @act i c hc hdue =>
    obtain ⟨es, -, hg⟩ := hf.acted hc (Caller.act_acts scene crew.job crew.gate i w c)
    obtain rfl := List.append_cancel_right (hg.traces.unique hf'.traces)
    intro e he
    obtain ⟨_, _, rfl⟩ := List.mem_map.mp he
    rfl

/-- **A history is in the order of time.** -/
theorem Reaches.chronological (hs : crew₀.Starts w₀) (h : Reaches scene w₀ crew₀ w crew) :
    EachOf (fun older e => e.Latest older) [] (w.since w₀) := by
  suffices ∃ tr, crew.Faithful scene w₀ tr w ∧ EachOf (fun older e => e.Latest older) [] tr by
    obtain ⟨tr, hf, hall⟩ := this
    rwa [hf.traces.since_eq]
  induction h with
  | start => exact ⟨[], hs.faithful, trivial⟩
  | @step v _ _ _ _ s ih =>
    obtain ⟨tr, hf, hall⟩ := ih
    obtain ⟨new, hf', hnow⟩ := hf.step_now s
    refine ⟨_, hf', hall.append (.of_split fun newer older e heq x hx => ?_)⟩
    have he : e.instant = v.now := hnow e (by rw [heq]; simp)
    rw [List.append_nil] at hx
    rw [he]
    rcases List.mem_append.mp hx with hx | hx
    · exact Nat.le_of_eq (hnow x (by rw [heq]; simp [hx]))
    · exact (hf.instants x hx).2

/-- Every entry of the history is on time, and every caller keeps to its schedule. -/
structure Punctual (scene : Scene) (w₀ : World) (tr : List Entry) (w : World) (crew : Crew σ) :
    Prop where
  timely : EachOf (fun older e => e.Timely scene w₀ older) [] tr
  keeps : ∀ c ∈ crew.callers, c.Keeps scene w₀ tr w.now

theorem Punctual.extend (h : crew.Punctual scene w₀ tr w) {new : List Entry}
    (hnew : EachOf (fun older e => e.Timely scene w₀ older) tr new)
    (hkeeps : ∀ c ∈ crew'.callers, c.Keeps scene w₀ (new ++ tr) w'.now) :
    crew'.Punctual scene w₀ (new ++ tr) w' where
  timely := h.timely.append (by simpa using hnew)
  keeps := hkeeps

theorem Punctual.step (h : crew.Punctual scene w₀ tr w) (hf : crew.Faithful scene w₀ tr w)
    (hon : ∀ c ∈ crew.callers, c.OnTime scene w₀.now w.now w.token)
    (hs : Step scene w crew w' crew') :
    ∃ new, crew'.Faithful scene w₀ (new ++ tr) w' ∧ crew'.Punctual scene w₀ (new ++ tr) w' := by
  obtain ⟨new, hf', hnow⟩ := hf.step_now hs
  refine ⟨new, hf', ?_⟩
  cases hs with
  | wait t alarm later _ first =>
    obtain rfl := List.append_left_eq_self.mp (hf.traces.unique (hf'.traces.congr rfl rfl))
    refine h.extend trivial fun c hc => ?_
    exact (h.keeps c hc).later (hon c hc) hf.traces later (first c hc)
  | cancel =>
    have hcancel := hf.traces.after w.cancelling
    rw [← World.cancel_eq] at hcancel
    obtain rfl := List.append_cancel_right (hcancel.unique hf'.traces)
    refine h.extend (Caller.eachOf_timely w.now fun e he => .inl (w.caller?_of_mem_cancelling he)) ?_
    intro c hc
    rw [World.cancel_now]
    exact (h.keeps c hc).append hnow
  | @act i c hc hdue =>
    have hmem := List.mem_of_getElem? hc
    have hacts := Caller.act_acts scene crew.job crew.gate i w c
    have hen := hf.enrolled c hmem
    have hsame : (acted scene w crew i c).1.now = w.now := hacts.now_eq hen
    refine h.extend (hacts.timely (hf.agrees i c hc) hen (hon c hmem) hdue hf.traces
      (fun e he k hk => (hf.heard_range he hk).2) hf'.traces) ?_
    intro d hd
    rw [hsame]
    rcases List.mem_or_eq_of_mem_set hd with hd | rfl
    · exact (h.keeps d hd).append hnow
    · exact (Caller.keeps_act rfl (h.keeps c hmem) (hon c hmem) hdue hf.traces hf.instants).append
        hnow
  | pass =>
    obtain rfl := List.append_left_eq_self.mp (hf.traces.unique hf'.traces)
    exact { h with }

theorem Faithful.linked_step (hf : crew.Faithful scene w₀ tr w)
    (h : EachOf (fun older e => e.Linked older) [] tr) (hs : Step scene w crew w' crew') :
    ∃ new, crew'.Faithful scene w₀ (new ++ tr) w' ∧
      EachOf (fun older e => e.Linked older) [] (new ++ tr) := by
  obtain ⟨new, hf'⟩ := hf.step hs
  refine ⟨new, hf', h.append ?_⟩
  rw [List.append_nil]
  cases hs with
  | wait =>
    obtain rfl := List.append_left_eq_self.mp (hf.traces.unique (hf'.traces.congr rfl rfl))
    trivial
  | pass =>
    obtain rfl := List.append_left_eq_self.mp (hf.traces.unique hf'.traces)
    trivial
  | cancel =>
    have hcancel := hf.traces.after w.cancelling
    rw [← World.cancel_eq] at hcancel
    obtain rfl := List.append_cancel_right (hcancel.unique hf'.traces)
    exact Caller.tolled_linked w true w.now
  | @act i c hc hdue =>
    have hmem := List.mem_of_getElem? hc
    exact (Caller.act_acts scene crew.job crew.gate i w c).linked (hf.agrees i c hc)
      (hf.enrolled c hmem) hdue (hf.timed c hmem) hf.traces
      (fun e he k hk => (hf.heard_range he hk).2) hf'.traces

/-- **A caller has one connection at most**, makes no attempt when it has it, and no request
before. -/
theorem Reaches.linked (hs : crew₀.Starts w₀) (h : Reaches scene w₀ crew₀ w crew) :
    EachOf (fun older e => e.Linked older) [] (w.since w₀) := by
  suffices ∃ tr, crew.Faithful scene w₀ tr w ∧ EachOf (fun older e => e.Linked older) [] tr by
    obtain ⟨tr, hf, hall⟩ := this
    rwa [hf.traces.since_eq]
  induction h with
  | start => exact ⟨[], hs.faithful, trivial⟩
  | step _ s ih =>
    obtain ⟨tr, hf, hall⟩ := ih
    obtain ⟨new, hf', hall'⟩ := hf.linked_step hall s
    exact ⟨_, hf', hall'⟩

theorem Reaches.latest_at (hs : crew₀.Starts w₀) (h : Reaches scene w₀ crew₀ w crew)
    {newer older : List Entry} {e : Entry} (heq : w.since w₀ = newer ++ e :: older) :
    e.Latest older := by
  have hall := h.chronological hs
  rw [heq] at hall
  simpa using hall.split

theorem Reaches.linked_at (hs : crew₀.Starts w₀) (h : Reaches scene w₀ crew₀ w crew)
    {newer older : List Entry} {e : Entry} (heq : w.since w₀ = newer ++ e :: older) :
    e.Linked older := by
  have hall := h.linked hs
  rw [heq] at hall
  simpa using hall.split

/-- A caller connects at one instant. -/
theorem Reaches.connection_unique (hs : crew₀.Starts w₀) (h : Reaches scene w₀ crew₀ w crew)
    {k t u : Nat} (ht : ⟨t, .connected k⟩ ∈ w.since w₀) (hu : ⟨u, .connected k⟩ ∈ w.since w₀) :
    t = u := by
  obtain ⟨newer, older, heq⟩ := List.append_of_mem ht
  rw [heq] at hu
  rcases List.mem_append.mp hu with hu | hu
  · -- the other one would find this one
    obtain ⟨later, between, rfl⟩ := List.append_of_mem hu
    rw [List.append_assoc, List.cons_append] at heq
    have hnone : (Dealings.ofHistory (between ++ ⟨t, .connected k⟩ :: older) k).connected = false :=
      h.linked_at hs heq
    rw [Dealings.connected_of_mem (t := t) (by simp)] at hnone
    simp at hnone
  · rcases List.mem_cons.mp hu with hsame | hu
    · exact (Entry.mk.inj hsame).1.symm
    · have hnone : (Dealings.ofHistory older k).connected = false := h.linked_at hs heq
      rw [Dealings.connected_of_mem hu] at hnone
      simp at hnone

/-- **Every reached state is punctual.** -/
theorem Reaches.punctual (hs : crew₀.Starts w₀) (h : Reaches scene w₀ crew₀ w crew) :
    crew.Punctual scene w₀ (w.since w₀) w := by
  suffices ∃ tr, crew.Faithful scene w₀ tr w ∧ crew.Punctual scene w₀ tr w by
    obtain ⟨tr, hf, hp⟩ := this
    rwa [hf.traces.since_eq]
  induction h with
  | start =>
    refine ⟨[], hs.faithful, { timely := trivial, keeps := ?_ }⟩
    intro c hc
    rw [hs.callers c hc]
    exact Caller.fresh_keeps scene w₀
  | step h s ih =>
    obtain ⟨tr, hf, hp⟩ := ih
    obtain ⟨new, hf', hp'⟩ := hp.step hf (h.onTime hs) s
    exact ⟨_, hf', hp'⟩

end Crew

end LoadSweep
