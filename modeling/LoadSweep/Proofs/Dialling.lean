import LoadSweep.Proofs.Crew.Timetable
import LoadSweep.Proofs.Sample
import LoadSweep.Proofs.Welcome

/-!
# `LoadSweep/Proofs/Dialling.lean` — how a caller gets its connection, or does not

Here the parts of the dialling are put together to what somebody sees who only has the history and
the end. The attempts of a caller are a beginning of its schedule (`Caller.DialsBySchedule`), and how
many there are is fixed by the script, the policy and one thing more: whether there was a moment
before some attempt, its predecessors having failed, at which the token was set (`Caller.CutShort`).
If there was, the caller was called off; if not, it has the connection of the first attempt that was
accepted, or has given up after the last (`Caller.Settles`).

The one thing that is not a matter of the schedule is that the dialling ends at all. An attempt that
hangs is given up at the timeout, so it does, whatever the server does
(`Crew.Reaches.everyone_settles`).
-/

set_option autoImplicit false

namespace LoadSweep

/-! ## One attempt -/

/-- How an attempt ends by itself, if it does. -/
def Attempt.verdict? (a : Attempt) : Option Verdict :=
  match a.ends with
  | .accepted => some .accepted
  | .refused fault => some (.refused fault.message)
  | .hangs => none
  | .dies => some .dies

theorem Attempt.within_of_due {a : Attempt} {timeout : Duration} {v : Verdict}
    (h : a.verdict? = some v) (hdue : a.takes.nanos ≤ timeout.wait) :
    a.within timeout = (a.takes.nanos, v) := by
  unfold verdict? at h
  unfold within
  cases hends : a.ends <;> simp_all

theorem Attempt.within_of_late {a : Attempt} {timeout : Duration}
    (h : ∀ v, a.verdict? = some v → timeout.wait < a.takes.nanos) :
    a.within timeout
      = (timeout.wait, .refused ("connect timed out after " ++ timeout.toText)) := by
  unfold verdict? at h
  unfold within
  cases hends : a.ends with
  | hangs => rfl
  | accepted | refused | dies =>
    simp only [hends] at h
    exact if_neg (Nat.not_le.mpr (h _ rfl))

/-- An attempt ends with its own outcome if that is due no later than the timeout, and otherwise at
the timeout, which like the backoff is rounded up to whole milliseconds. -/
structure Script.Punctual (script : Script) (policy : Policy) (n : Nat) : Prop where
  inTime : ∀ v, (script.attempt n).verdict? = some v →
    (script.attempt n).takes.nanos ≤ policy.timeout.wait →
    script.dial policy n = ((script.attempt n).takes.nanos, v)
  late : (∀ v, (script.attempt n).verdict? = some v →
      policy.timeout.wait < (script.attempt n).takes.nanos) →
    script.dial policy n
      = (policy.timeout.wait, .refused ("connect timed out after " ++ policy.timeout.toText))
  next : script.dialStart policy (n + 1)
    = script.dialStart policy n + (script.dial policy n).1 + policy.backoff.wait

theorem Script.punctual (script : Script) (policy : Policy) (n : Nat) :
    script.Punctual policy n where
  inTime := fun _ hv hdue => Attempt.within_of_due hv hdue
  late := Attempt.within_of_late
  next := rfl

/-- Every attempt fails, the last of them for this reason. -/
structure Script.Exhausting (script : Script) (policy : Policy) (reason : String) : Prop where
  refuses : ∀ n < policy.tries, script.Refuses policy n
  none : policy.tries = 0 → reason = "no attempts made"
  last : ∀ n, policy.tries = n + 1 → (script.dial policy n).2 = .refused reason

theorem Script.Exhausting.unique {script : Script} {policy : Policy} {reason reason' : String}
    (h : script.Exhausting policy reason) (h' : script.Exhausting policy reason') :
    reason = reason' := by
  cases htries : policy.tries with
  | zero => rw [h.none htries, h'.none htries]
  | succ n => exact Verdict.refused.inj ((h.last n htries).symm.trans (h'.last n htries))

theorem Script.Exhausting.not_connects {script : Script} {policy : Policy} {reason : String}
    (h : script.Exhausting policy reason) : ¬ script.Connects policy := by
  rintro ⟨hlt, haccepted⟩
  obtain ⟨_, hrefused⟩ := h.refuses _ hlt
  simp [haccepted] at hrefused

/-! ## Attempts in a history -/

/-- The instants at which a caller started its attempts, in their order. -/
def attemptInstants (k : Nat) (tr : List Entry) : List Nat :=
  tr.reverse.filterMap fun e => if e.event = .attempted k then some e.instant else none

theorem attemptInstants_cons (k : Nat) (e : Entry) (tr : List Entry) :
    attemptInstants k (e :: tr)
      = attemptInstants k tr ++ (if e.event = .attempted k then [e.instant] else []) := by
  unfold attemptInstants
  rw [List.reverse_cons, List.filterMap_append]
  split <;> simp [*]

theorem attempts_cons (k : Nat) (e : Entry) (tr : List Entry) :
    (Dealings.ofHistory (e :: tr) k).attempts
      = (Dealings.ofHistory tr k).attempts + (if e.event = .attempted k then 1 else 0) := by
  rw [Dealings.ofHistory_cons]
  obtain ⟨t, c | _ | c | ⟨c, _ | _ | _⟩ | _ | _ | _⟩ := e <;>
    simp only [Dealings.follow, Dealings.caller_ofHistory] <;> split <;> simp_all

theorem attempts_mono {k : Nat} {older tr : List Entry} (h : older <:+ tr) :
    (Dealings.ofHistory older k).attempts ≤ (Dealings.ofHistory tr k).attempts := by
  obtain ⟨newer, rfl⟩ := h
  induction newer with
  | nil => exact Nat.le_refl _
  | cons e rest ih =>
    rw [List.cons_append, attempts_cons]
    exact Nat.le_trans ih (Nat.le_add_right _ _)

/-- The attempts of a history can be found in it, one by one. -/
theorem exists_attempt {k m : Nat} {tr : List Entry} (h : m < (Dealings.ofHistory tr k).attempts) :
    ∃ newer older t, tr = newer ++ ⟨t, .attempted k⟩ :: older ∧
      (Dealings.ofHistory older k).attempts = m := by
  induction tr with
  | nil => exact absurd h (Nat.not_lt_zero m)
  | cons e rest ih =>
    by_cases hrest : m < (Dealings.ofHistory rest k).attempts
    · obtain ⟨newer, older, t, rfl, hm⟩ := ih hrest
      exact ⟨e :: newer, older, t, rfl, hm⟩
    · rw [attempts_cons] at h
      split at h
      · rename_i he
        exact ⟨[], rest, e.instant, by rw [← he]; rfl, by omega⟩
      · omega

/-- The attempts of a history that is on time start when the schedule has them. -/
theorem attemptInstants_eq {scene : Scene} {w₀ : World} {k : Nat} {tr : List Entry}
    (h : EachOf (fun older e => e.Timely scene w₀ older) [] tr) :
    attemptInstants k tr = (List.range (Dealings.ofHistory tr k).attempts).map
      fun n => w₀.now + (scene.script k).dialStart scene.policy n := by
  induction tr with
  | nil => rfl
  | cons e older ih =>
    obtain ⟨htimely, hrest⟩ := h
    rw [attemptInstants_cons, attempts_cons, ih hrest]
    split
    · rename_i he
      simp only [Entry.Timely, he, List.append_nil] at htimely
      rw [List.range_succ, List.map_append, htimely.2.2.1]
      rfl
    · rw [List.append_nil, Nat.add_zero]

/-! ## A caller that has settled -/

namespace Caller

variable {σ : Type} {scene : Scene} {job : Job σ} {gate : Gate} {i now : Nat} {w w₀ : World}
  {c : Caller σ} {tr : List Entry} {token : Bool} {d : Except DialFault Unit}

/-- With what a caller settled, if it has. One that an attempt killed never does. -/
def settledAs? (c : Caller σ) : Option (Except DialFault Unit) :=
  match c.stage with
  | .fresh | .attempting .. | .resting _ | .ended (.died none) => none
  | .settled d | .ended (.unserved d) => some d
  | .talking .. | .ended (.served _) | .ended (.died (some _)) => some (.ok ())

/-- How many attempts of a caller there are in a history. -/
def attemptsIn (c : Caller σ) (tr : List Entry) : Nat :=
  match c.number with
  | none => 0
  | some k => (Dealings.ofHistory tr k).attempts

/-- Before some attempt, the ones before it having failed, there was a moment at which the token was
set: the instant `t`, what had been seen by then, and the attempt not begun. -/
def CutShort (scene : Scene) (w₀ : World) (tr : List Entry) (c : Caller σ) : Prop :=
  ∃ n < scene.policy.tries, (∀ m < n, (scene.script c.who).Refuses scene.policy m) ∧
    ∃ (t : Nat) (seen : List Entry), seen <:+ tr ∧ (∀ e ∈ seen, e.instant ≤ t) ∧
      c.attemptsIn seen ≤ n ∧ w₀.tokenAfter seen = true ∧
      w₀.now + (scene.script c.who).ready scene.policy n ≤ t ∧
      t ≤ w₀.now + (scene.script c.who).dialStart scene.policy n

/-- When a caller settled like this, and after how many attempts. -/
def SettlesWhen (scene : Scene) (w₀ : World) (tr : List Entry) (c : Caller σ) :
    Except DialFault Unit → Prop
  | .ok () => ∃ n, (scene.script c.who).failures scene.policy = n ∧ c.attemptsIn tr = n + 1 ∧
    c.settledAt = some (w₀.now + (scene.script c.who).dialEnd scene.policy n)
  | .error (.exhausted _) => c.attemptsIn tr = scene.policy.tries ∧
    c.settledAt = some (w₀.now + (scene.script c.who).ready scene.policy scene.policy.tries)
  | .error .cancelled => c.attemptsIn tr = c.reasons.length ∧ c.CalledOff scene w₀ tr

/-- How a caller settled that has: the script and the token say with what, and when. -/
structure Settles (scene : Scene) (w₀ : World) (tr : List Entry) (c : Caller σ)
    (d : Except DialFault Unit) : Prop where
  cancelled : d = .error .cancelled ↔ c.CutShort scene w₀ tr
  connected : d = .ok () ↔
    ¬ c.CutShort scene w₀ tr ∧ (scene.script c.who).Connects scene.policy
  exhausted : ∀ reason, d = .error (.exhausted reason) ↔
    ¬ c.CutShort scene w₀ tr ∧ (scene.script c.who).Exhausting scene.policy reason
  when : c.SettlesWhen scene w₀ tr d

theorem attemptsIn_mono {older : List Entry} (h : older <:+ tr) :
    c.attemptsIn older ≤ c.attemptsIn tr := by
  unfold attemptsIn
  split
  · exact Nat.le_refl _
  · exact attempts_mono h

theorem Dials.attemptsIn {n : Nat} {connected : Bool} (h : c.Dials tr n connected) :
    c.attemptsIn tr = n := by
  unfold Caller.attemptsIn
  split
  · rename_i hnone
    refine (Classical.byContradiction fun hn => ?_)
    obtain ⟨k, hk⟩ := h.numbered (Ne.symm hn)
    rw [hnone] at hk
    exact absurd hk (by simp)
  · exact h.attempts_eq ‹_›

theorem Shows.attemptsIn {ts : List Turn} {waiting : Option (Nat × Request)}
    (h : c.Shows tr ts waiting) : c.attemptsIn tr = c.reasons.length + 1 := by
  obtain ⟨k, hk⟩ := h.numbered
  rw [Caller.attemptsIn, number_eq_who hk]
  exact congrArg (fun sh => sh.dealings.attempts) h.share

/-- A caller that has settled has made the attempts that failed, and the one that did not. -/
theorem Agrees.attemptsIn (h : c.Agrees scene job w₀ gate i tr) (hd : c.settledAs? = some d) :
    c.attemptsIn tr = c.attempts d := by
  unfold Agrees at h
  unfold settledAs? at hd
  cases hstage : c.stage with
  | fresh | attempting | resting => simp [hstage] at hd
  | settled =>
    simp only [hstage, Option.some.injEq] at h hd
    exact hd ▸ h.attemptsIn
  | talking =>
    simp only [hstage, Option.some.injEq] at h hd
    obtain ⟨_, _, _, _, hshow, -⟩ := h
    exact hd ▸ hshow.attemptsIn
  | ended how =>
    cases how with
    | unserved =>
      simp only [hstage, Option.some.injEq] at h hd
      exact hd ▸ h.1.attemptsIn
    | served =>
      simp only [hstage, Option.some.injEq] at h hd
      obtain ⟨_, _, _, _, hshow, -⟩ := h
      exact hd ▸ hshow.attemptsIn
    | died state =>
      cases state with
      | none => simp [hstage] at hd
      | some =>
        simp only [hstage, Option.some.injEq] at h hd
        obtain ⟨-, _, _, _, _, -, ⟨hshow, -⟩ | ⟨_, hshow, -⟩⟩ := h
        · exact hd ▸ hshow.attemptsIn
        · exact hd ▸ hshow.attemptsIn

theorem OnTime.settledAs (h : c.OnTime scene w₀.now now token) (hd : c.settledAs? = some d) :
    c.SettledAs scene w₀.now token d := by
  have hs := h.scheduled
  unfold Scheduled at hs
  unfold settledAs? at hd
  cases hstage : c.stage with
  | fresh | attempting | resting => simp [hstage] at hd
  | settled | talking =>
    simp only [hstage, Option.some.injEq] at hs hd
    exact hd ▸ hs
  | ended how =>
    cases how with
    | unserved | served =>
      simp only [hstage, Option.some.injEq] at hs hd
      exact hd ▸ hs
    | died state =>
      cases state with
      | none => simp [hstage] at hd
      | some =>
        simp only [hstage, Option.some.injEq] at hs hd
        exact hd ▸ hs

theorem Keeps.leftAs (h : c.Keeps scene w₀ tr now) (hd : c.settledAs? = some d) :
    c.LeftAs scene w₀ tr d := by
  have hs := h.stage
  unfold settledAs? at hd
  cases hstage : c.stage with
  | fresh | attempting | resting => simp [hstage] at hd
  | settled =>
    simp only [hstage, Option.some.injEq] at hs hd
    exact hd ▸ hs
  | talking =>
    obtain rfl : .ok () = d := by simpa [hstage] using hd
    trivial
  | ended how =>
    cases how with
    | unserved =>
      simp only [hstage, Option.some.injEq] at hs hd
      exact hd ▸ hs
    | served =>
      obtain rfl : .ok () = d := by simpa [hstage] using hd
      trivial
    | died state =>
      cases state with
      | none => simp [hstage] at hd
      | some =>
        obtain rfl : .ok () = d := by simpa [hstage] using hd
        trivial

/-- An attempt that was started found the token unset, so by the time at which the token is set it
has been started. -/
theorem attempt_of_token {n : Nat} {seen : List Entry}
    (h : EachOf (fun older e => e.Timely scene w₀ older) [] tr) (hn : n < c.attemptsIn tr)
    (hseen : seen <:+ tr) (hset : w₀.tokenAfter seen = true) : n < c.attemptsIn seen := by
  unfold attemptsIn at hn ⊢
  split at hn
  · exact absurd hn (Nat.not_lt_zero n)
  · rename_i k _
    obtain ⟨newer, older, t, rfl, hcount⟩ := exists_attempt hn
    have htimely := h.split
    rw [List.append_nil] at htimely
    have hunset : w₀.tokenAfter older = false := htimely.2.2.2
    obtain hlater | hearlier := List.suffix_or_suffix_of_suffix hseen (List.suffix_append newer _)
    · rcases List.suffix_cons_iff.mp hlater with rfl | hlater
      · rw [attempts_cons, if_pos rfl, hcount]
        exact Nat.lt_succ_self n
      · have hyes := World.tokenAfter_mono hlater hset
        rw [hunset] at hyes
        exact absurd hyes (by simp)
    · have hmono := attempts_mono (k := k) hearlier
      rw [attempts_cons, if_pos rfl, hcount] at hmono
      exact hmono

/-- A caller that has made an attempt was not cut short before it. -/
theorem not_cutShort (h : EachOf (fun older e => e.Timely scene w₀ older) [] tr)
    (hall : ∀ n < scene.policy.tries, (∀ m < n, (scene.script c.who).Refuses scene.policy m) →
      n < c.attemptsIn tr) : ¬ c.CutShort scene w₀ tr := by
  rintro ⟨n, hlt, hbefore, t, seen, hseen, -, hnot, hset, -⟩
  exact Nat.not_lt.mpr hnot (attempt_of_token h (hall n hlt hbefore) hseen hset)

/-- Who gave up after attempts that all failed gives the reason of the last. -/
theorem Keeps.exhausting (h : c.Keeps scene w₀ tr now) (ho : c.OnTime scene w₀.now now token)
    (hused : c.reasons.length = scene.policy.tries) :
    (scene.script c.who).Exhausting scene.policy c.lastReason where
  refuses := fun n hn => ho.refused n (by rw [hused]; exact hn)
  none := by
    intro hzero
    rw [lastReason, List.eq_nil_of_length_eq_zero (hused.trans hzero)]
    rfl
  last := by
    intro n hn
    obtain ⟨reason, rest, hcons⟩ := List.exists_cons_of_length_eq_add_one (hused.trans hn)
    have hlen : rest.length = n := by
      have := hused.trans hn
      rw [hcons, List.length_cons] at this
      exact Nat.succ.inj this
    rw [lastReason, hcons, ← hlen]
    exact h.reasons reason rest (hcons ▸ List.suffix_refl _)

theorem CalledOff.cutShort (h : c.CalledOff scene w₀ tr) (ho : c.OnTime scene w₀.now now token)
    (hcount : c.attemptsIn tr = c.reasons.length) : c.CutShort scene w₀ tr := by
  obtain ⟨s, seen, -, hseen, hset, hpast, hwaits⟩ := h
  exact ⟨_, hwaits.left, ho.refused, s, seen, hseen, hpast, hcount ▸ attemptsIn_mono hseen, hset,
    hwaits.ready, hwaits.next⟩

/-- **The script and the token say how a caller settles.** -/
theorem Keeps.settles (h : c.Keeps scene w₀ tr now) (ho : c.OnTime scene w₀.now now token)
    (ha : c.Agrees scene job w₀ gate i tr)
    (ht : EachOf (fun older e => e.Timely scene w₀ older) [] tr) (hd : c.settledAs? = some d) :
    c.Settles scene w₀ tr d := by
  have hs := ho.settledAs hd
  have hleft := h.leftAs hd
  have hcount := ha.attemptsIn hd
  match d with
  | .ok () =>
    have hnot : ¬ c.CutShort scene w₀ tr := by
      refine not_cutShort ht fun n _ hbefore => ?_
      rw [hcount]
      -- what the last attempt accepted, no schedule goes beyond
      refine Nat.lt_succ_of_le (Nat.le_of_not_lt fun hlt => ?_)
      obtain ⟨_, hrefused⟩ := hbefore _ hlt
      simp [hs.verdict] at hrefused
    have hconnects := ho.connects hs
    exact
      { cancelled := by simp [hnot]
        connected := by simp [hnot, hconnects]
        exhausted := fun _ => by
          simp only [reduceCtorEq, false_iff]
          exact fun hexhausting => hexhausting.2.not_connects hconnects
        when := ⟨_, (ho.dialled hs (by simp)).1, hcount, hs.settledAt⟩ }
  | .error (.exhausted reason) =>
    obtain ⟨hused, rfl, hzero⟩ := hleft
    replace hcount : c.attemptsIn tr = scene.policy.tries := hcount.trans hused
    have hnot : ¬ c.CutShort scene w₀ tr :=
      not_cutShort ht fun n hlt _ => hcount ▸ hlt
    have hexhausting := h.exhausting ho hused
    refine
      { cancelled := by simp [hnot]
        connected := by simp [hexhausting.not_connects]
        exhausted := fun reason => ?_
        when := ⟨hcount, ?_⟩ }
    · refine ⟨?_, fun hother => by rw [hexhausting.unique hother.2]⟩
      intro heq
      obtain rfl := DialFault.exhausted.inj (Except.error.inj heq)
      exact ⟨hnot, hexhausting⟩
    · cases htries : scene.policy.tries with
      | zero => exact hzero htries
      | succ n =>
        have hlast := hs.2 (by rw [htries]; exact Nat.succ_pos n)
        rwa [htries] at hlast
  | .error .cancelled =>
    have hcut := CalledOff.cutShort hleft ho hcount
    exact
      { cancelled := by simp [hcut]
        connected := by simp [hcut]
        exhausted := fun _ => by simp [hcut]
        when := ⟨hcount, hleft⟩ }

end Caller

/-! ## Every caller of a crew -/

/-- How the dialling of a caller looks from outside, in every state that it may be in. -/
structure Caller.DialsBySchedule {σ : Type} (scene : Scene) (w₀ w : World) (c : Caller σ) :
    Prop where
  /-- Its attempts are the first ones of its schedule. -/
  starts : ∀ k, c.number = some k → attemptInstants k (w.since w₀)
    = (List.range (c.attemptsIn (w.since w₀))).map fun n =>
        w₀.now + (scene.script k).dialStart scene.policy n
  /-- Each is made after those before it have failed, with the token unset, and ends as the script
  has it, the last one perhaps later. -/
  attempts : ∀ (k t : Nat) (newer older : List Entry), c.number = some k →
    w.since w₀ = newer ++ ⟨t, .attempted k⟩ :: older →
    ∃ n, (Dealings.ofHistory older k).attempts = n ∧ n < scene.policy.tries ∧
      (∀ m < n, (scene.script k).Refuses scene.policy m) ∧ w₀.tokenAfter older = false ∧
      ∃ x : Entry, x = ⟨w₀.now + (scene.script k).dialEnd scene.policy n,
          ((scene.script k).dial scene.policy n).2.happening k⟩ ∧
        (x ∈ newer ∨ c.awaits = some x)
  settles : ∀ d, c.settledAs? = some d → c.Settles scene w₀ (w.since w₀) d
  /-- A caller whose rest is over when the token is set is called off, whichever of the two it
  minds first. -/
  confluent : ∀ due, c.stage = .resting due → w.token = true →
    c.attempt scene w = (w, c.settle w.now (.error .cancelled))
  /-- Only an attempt that kills it keeps it from settling. -/
  dies : c.stage = .ended (.died none) → ∃ n < scene.policy.tries,
    ((scene.script c.who).dial scene.policy n).2 = .dies

namespace Crew

variable {σ : Type} {scene : Scene} {w₀ w w' : World} {crew crew₀ crew' : Crew σ} {tr : List Entry}

theorem happening_caller? (k : Nat) (v : Verdict) : (v.happening k).caller? = some k := by
  cases v <;> rfl

theorem caller?_of_awaits {c : Caller σ} {x : Entry} (h : c.awaits = some x) :
    x.event.caller? = some c.who ∧ (c.Enrolled → ∃ k, c.number = some k) := by
  unfold Caller.awaits at h
  unfold Caller.Enrolled
  cases hstage : c.stage with
  | attempting due verdict =>
    simp only [hstage, Option.some.injEq] at h ⊢
    exact ⟨h ▸ happening_caller? c.who verdict, id⟩
  | talking =>
    simp only [hstage, Option.some.injEq] at h ⊢
    exact ⟨h ▸ rfl, id⟩
  | fresh | resting | settled | ended => simp [hstage] at h

/-- The end of an attempt is awaited by the caller that made it. -/
theorem Grounded.awaits_own (hg : crew.Grounded w₀ tr w) {c d : Caller σ} {k : Nat} {x : Entry}
    (hc : c ∈ crew.callers) (hk : c.number = some k) (hd : d ∈ crew.callers)
    (hx : x.event.caller? = some k) (h : d.awaits = some x) : c.awaits = some x := by
  obtain ⟨hwho, hen⟩ := caller?_of_awaits h
  obtain ⟨n, hn⟩ := hen (hg.enrolled d hd)
  have hnumber : d.number = some k := by
    rw [hn, ← Caller.who_eq hn, ← hwho, hx]
  obtain ⟨i, hi⟩ := List.mem_iff_getElem?.mp hc
  obtain ⟨j, hj⟩ := List.mem_iff_getElem?.mp hd
  obtain rfl := hg.distinct i j c d k hi hj hk hnumber
  obtain rfl := Option.some.inj (hi.symm.trans hj)
  exact h

/-- **Every caller of a crew dials by its schedule.** -/
theorem Reaches.dialsBySchedule (hs : crew₀.Starts w₀) (h : Reaches scene w₀ crew₀ w crew)
    {c : Caller σ} (hc : c ∈ crew.callers) : c.DialsBySchedule scene w₀ w := by
  have hf := h.faithful hs
  have hp := h.punctual hs
  have ho := h.onTime hs c hc
  refine { starts := ?_, attempts := ?_, settles := ?_, confluent := ?_, dies := ?_ }
  · intro k hk
    rw [Caller.attemptsIn, hk]
    exact attemptInstants_eq hp.timely
  · intro k t newer older hk heq
    have htimely := hp.timely
    rw [heq] at htimely
    replace htimely := htimely.split
    rw [List.append_nil] at htimely
    obtain ⟨hleft, hbefore, hstart, hunset⟩ := htimely
    refine ⟨_, rfl, hleft, hbefore, hunset, _, rfl, ?_⟩
    have hflight := (h.orderly hs).flight newer older _ _ heq rfl
    replace hstart : t = _ := hstart
    rw [hstart, Nat.add_assoc] at hflight
    obtain hended | ⟨d, hd, hawaits⟩ := hflight
    · exact .inl hended
    · exact .inr (hf.awaits_own hc hk hd (happening_caller? k _) hawaits)
  · intro d hd
    obtain ⟨i, ha⟩ := hf.agrees_of_mem hc
    exact (hp.keeps c hc).settles ho ha hp.timely hd
  · intro due hrest hset
    have hsched := ho.scheduled
    simp only [Caller.Scheduled, hrest] at hsched
    rw [Caller.attempt, if_neg (Nat.not_le.mpr hsched.2.1), if_pos hset]
  · intro hdied
    have hsched := ho.scheduled
    simp only [Caller.Scheduled, hdied] at hsched
    exact ⟨_, hsched.left, hsched.verdict⟩

/-- A caller settles when it connects. -/
theorem Reaches.connected_at (hs : crew₀.Starts w₀) (h : Reaches scene w₀ crew₀ w crew)
    {c : Caller σ} (hc : c ∈ crew.callers) {k u : Nat} (hk : c.number = some k)
    (hok : c.settledAs? = some (.ok ())) (hu : ⟨u, .connected k⟩ ∈ w.since w₀) :
    c.settledAt = some u := by
  obtain ⟨n, -, hcount, hsettled⟩ := ((h.dialsBySchedule hs hc).settles _ hok).when
  obtain ⟨i, ha⟩ := (h.faithful hs).agrees_of_mem hc
  have ho := h.onTime hs c hc
  obtain ⟨newer, older, heq⟩ := List.append_of_mem hu
  have htimely := (h.punctual hs).timely
  rw [heq] at htimely
  replace htimely := htimely.split
  rw [List.append_nil] at htimely
  obtain ⟨m, hbefore, haccepted, hinstant⟩ := htimely
  have hle : m ≤ n := by
    have hmono := attempts_mono (k := k) (List.suffix_append newer (⟨u, .connected k⟩ :: older))
    rw [← heq, attempts_cons, hbefore] at hmono
    have htotal : (Dealings.ofHistory (w.since w₀) k).attempts = n + 1 := by
      simpa only [Caller.attemptsIn, hk] using hcount
    simp only [reduceCtorEq, if_false, Nat.add_zero, htotal] at hmono
    exact Nat.le_of_succ_le_succ hmono
  have hreasons : n = c.reasons.length := by
    have hsame := ha.attemptsIn hok
    rw [hcount] at hsame
    exact Nat.succ.inj hsame
  -- the attempts before the last one were refused
  have heq : m = n := by
    rcases Nat.lt_or_eq_of_le hle with hlt | heq
    · obtain ⟨reason, hrefused⟩ := ho.refused m (hreasons ▸ hlt)
      rw [Caller.who_eq hk, haccepted] at hrefused
      simp at hrefused
    · exact heq
  rw [hsettled, ← heq, Caller.who_eq hk]
  exact congrArg some hinstant.symm

end Crew

/-- Who does not dial has settled, if no attempt killed it. -/
theorem Caller.DialsBySchedule.settled {σ : Type} {scene : Scene} {w₀ w : World} {c : Caller σ}
    (h : c.DialsBySchedule scene w₀ w) (hnot : ¬ c.Dialling)
    (hlives : ∀ n, ((scene.script c.who).dial scene.policy n).2 ≠ .dies) :
    ∃ d, c.settledAs? = some d := by
  unfold Caller.Dialling at hnot
  unfold Caller.settledAs?
  cases hstage : c.stage with
  | fresh | attempting | resting => simp [hstage] at hnot
  | settled d => exact ⟨d, rfl⟩
  | talking => exact ⟨_, rfl⟩
  | ended how =>
    cases how with
    | unserved d => exact ⟨d, rfl⟩
    | served => exact ⟨_, rfl⟩
    | died state =>
      cases state with
      | some => exact ⟨_, rfl⟩
      | none =>
        obtain ⟨n, -, hdies⟩ := h.dies hstage
        exact absurd hdies (hlives n)

/-- The first attempt is refused, and all others hang. -/
def Sample.deaf : Script :=
  .ofLists [Sample.refusal] ⟨false, ⟨0⟩, .hangs⟩ (.plain ⟨0⟩) [] .repeatLast

end LoadSweep
