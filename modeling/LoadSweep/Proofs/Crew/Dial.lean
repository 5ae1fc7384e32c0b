import LoadSweep.Proofs.Crew.Ground

/-!
# `LoadSweep/Proofs/Crew/Dial.lean` — how a caller's dialling goes

Nothing that the others do has a say in how a caller dials: the script and the policy fix when each
of its attempts starts (`Script.dialStart`) and how it ends, and so at which instant it settles and
with what. Only the token can cut this short, and it does so between two attempts.

`Caller.OnTime` says at every stage how far a caller has got in this schedule; it is kept by the
caller's own acts and by everybody else's.
-/

set_option autoImplicit false

namespace LoadSweep

/-! ## The schedule -/

namespace Script

variable (script : Script) (policy : Policy)

/-- How long attempt number `n` takes, and how it ends. -/
def dial (n : Nat) : Nat × Verdict := (script.attempt n).within policy.timeout

/-- When attempt number `n` starts if the ones before it fail, in nanoseconds from the start. -/
def dialStart : Nat → Nat
  | 0 => 0
  | n + 1 => dialStart n + (script.dial policy n).1 + policy.backoff.wait

/-- When attempt number `n` ends. -/
def dialEnd (n : Nat) : Nat := script.dialStart policy n + (script.dial policy n).1

theorem dialStart_succ (n : Nat) :
    script.dialStart policy (n + 1) = script.dialEnd policy n + policy.backoff.wait := rfl

/-- The attempt fails. -/
def Refuses (n : Nat) : Prop := ∃ reason, (script.dial policy n).2 = .refused reason

instance (n : Nat) : Decidable (script.Refuses policy n) :=
  match h : (script.dial policy n).2 with
  | .refused reason => isTrue ⟨reason, h⟩
  | .accepted | .dies => isFalse (by rintro ⟨reason, hr⟩; simp [h] at hr)

/-- How many attempts fail before one that does not, or before none is left. -/
def failures : Nat := (List.range policy.tries).findIdx fun n => !decide (script.Refuses policy n)

/-- How long a caller dials. -/
def dialTime : Nat := script.dialEnd policy (min (script.failures policy) (policy.tries - 1))

/-- A caller gets a connection in the end. -/
def Connects : Prop :=
  script.failures policy < policy.tries ∧
    (script.dial policy (script.failures policy)).2 = .accepted

variable {script policy}

theorem failures_eq {n : Nat} (hle : n ≤ policy.tries) (hbefore : ∀ m < n, script.Refuses policy m)
    (hend : n < policy.tries → ¬ script.Refuses policy n) : script.failures policy = n := by
  obtain hlt | rfl := Nat.lt_or_eq_of_le hle
  · refine (List.findIdx_eq (by simpa using hlt)).mpr ⟨?_, ?_⟩
    · simpa using hend hlt
    · intro m hm
      simpa using hbefore m hm
  · rw [failures, List.findIdx_eq_length_of_false, List.length_range]
    intro m hm
    simpa using hbefore m (List.mem_range.mp hm)

end Script

/-! ## Where a caller stands in it -/

namespace Caller

variable {σ : Type} {scene : Scene} {job : Job σ} {gate : Gate} {i start now : Nat} {w w' : World}
  {c c' : Caller σ} {token : Bool}

/-- Its last attempt ended like this, and with it the dialling. -/
structure Dialled (scene : Scene) (start : Nat) (verdict : Verdict) (c : Caller σ) : Prop where
  left : c.reasons.length < scene.policy.tries
  verdict : ((scene.script c.who).dial scene.policy c.reasons.length).2 = verdict
  settledAt :
    c.settledAt = some (start + (scene.script c.who).dialEnd scene.policy c.reasons.length)

/-- How a caller got to settle like this. -/
def SettledAs (scene : Scene) (start : Nat) (token : Bool) (c : Caller σ) :
    Except DialFault Unit → Prop
  | .ok () => c.Dialled scene start .accepted
  | .error (.exhausted _) => scene.policy.tries ≤ c.reasons.length ∧
    (0 < scene.policy.tries → c.settledAt
      = some (start + (scene.script c.who).dialEnd scene.policy (scene.policy.tries - 1)))
  | .error .cancelled => token = true ∧ (c.reasons = [] → c.number = none)

/-- The stage of a caller is the one of its schedule. -/
def Scheduled (scene : Scene) (start now : Nat) (token : Bool) (c : Caller σ) : Prop :=
  match c.stage with
  | .fresh => c.number = none ∧ c.reasons = [] ∧ now = start
  | .attempting due verdict =>
    c.reasons.length < scene.policy.tries ∧
      due = start + (scene.script c.who).dialEnd scene.policy c.reasons.length ∧
      ((scene.script c.who).dial scene.policy c.reasons.length).2 = verdict
  | .resting due =>
    c.reasons ≠ [] ∧ c.reasons.length < scene.policy.tries ∧
      due = start + (scene.script c.who).dialStart scene.policy c.reasons.length
  | .settled dialled | .ended (.unserved dialled) => c.SettledAs scene start token dialled
  | .talking .. | .ended (.served _) | .ended (.died (some _)) => c.Dialled scene start .accepted
  | .ended (.died none) => c.Dialled scene start .dies

/-- A caller dials as its script and the policy have it. -/
structure OnTime (scene : Scene) (start now : Nat) (token : Bool) (c : Caller σ) : Prop where
  refused : ∀ n < c.reasons.length, (scene.script c.who).Refuses scene.policy n
  unmet : c.number = none → c.reasons = []
  scheduled : c.Scheduled scene start now token

theorem fresh_onTime (scene : Scene) (start : Nat) (token : Bool) :
    (fresh : Caller σ).OnTime scene start start token :=
  { refused := by simp [fresh], unmet := fun _ => rfl, scheduled := ⟨rfl, rfl, rfl⟩ }

/-- Time passes, and the token may be set meanwhile. -/
theorem OnTime.later (h : c.OnTime scene start now token) {later : Nat} {token' : Bool}
    (hfresh : c.stage = .fresh → later = now) (ht : token = true → token' = true) :
    c.OnTime scene start later token' := by
  refine { h with scheduled := ?_ }
  have hs := h.scheduled
  have hsettled : ∀ d, c.SettledAs scene start token d → c.SettledAs scene start token' d := by
    intro d hd
    match d with
    | .ok () => exact hd
    | .error (.exhausted _) => exact hd
    | .error .cancelled => exact ⟨ht hd.1, hd.2⟩
  unfold Scheduled at hs ⊢
  cases hstage : c.stage with
  | fresh =>
    simp only [hstage] at hs ⊢
    exact ⟨hs.1, hs.2.1, (hfresh hstage).trans hs.2.2⟩
  | attempting | resting | talking => simpa only [hstage] using hs
  | settled d =>
    simp only [hstage] at hs ⊢
    exact hsettled d hs
  | ended how =>
    simp only [hstage] at hs ⊢
    cases how with
    | unserved d => exact hsettled d hs
    | served => exact hs
    | died s => cases s <;> exact hs

/-- The first attempt of a caller gives it its number, and with it the script that it has had all
along: until then it has not got anywhere in the schedule. -/
theorem OnTime.enrol (h : c.OnTime scene start now token) (w : World) :
    (∀ n < c.reasons.length, (scene.script (enrol w c).2.who).Refuses scene.policy n) ∧
      (scene.script (enrol w c).2.who).dialStart scene.policy c.reasons.length
        = (scene.script c.who).dialStart scene.policy c.reasons.length := by
  cases hn : c.number with
  | none =>
    have hnil := h.unmet hn
    simp [hnil, Script.dialStart]
  | some k =>
    have hsame : (Caller.enrol w c).2 = c := by simp [Caller.enrol, hn]
    rw [hsame]
    exact ⟨h.refused, rfl⟩

theorem OnTime.proceed (h : c.OnTime scene start now token)
    (ht : c.Dialled scene start .accepted) (w : World) (s : σ) :
    (c.proceed scene job w s).2.OnTime scene start now token := by
  rw [proceed_eq]
  split <;> exact { h with scheduled := { ht with } }

/-- An attempt starts when the schedule has it. -/
theorem OnTime.starts (h : c.OnTime scene start w.now w.token) (hdial : c.MayDial)
    (clear : w.token = false) (hdue : c.due w gate = some w.now) :
    w.now = start + (scene.script c.who).dialStart scene.policy c.reasons.length := by
  have hs := h.scheduled
  obtain hfresh | ⟨due, hrest⟩ := hdial
  · simp only [Scheduled, hfresh] at hs
    rw [hs.2.1, hs.2.2]
    rfl
  · simp only [Scheduled, hrest] at hs
    simp only [Caller.due, hrest, clear] at hdue
    rw [← hs.2.2]
    exact (Option.some.inj hdue).symm

/-- An act is as the schedule has it. -/
theorem Acts.onTime (h : Acts scene job gate i w c w' c') (hn : c.Enrolled)
    (ht : c.OnTime scene start w.now w.token) (hdue : c.due w gate = some w.now) :
    c'.OnTime scene start w.now w.token := by
  have hs := ht.scheduled
  have hattempt : ∀ {due : Nat} {verdict : Verdict}, c.stage = .attempting due verdict →
      c.reasons.length < scene.policy.tries ∧
        w.now = start + (scene.script c.who).dialEnd scene.policy c.reasons.length ∧
        ((scene.script c.who).dial scene.policy c.reasons.length).2 = verdict := by
    intro due verdict h
    simp only [Scheduled, h] at hs
    obtain rfl : due = w.now := by simpa [Caller.due, h] using hdue
    exact hs
  have hrefused : ∀ {due : Nat} {reason : String}, c.stage = .attempting due (.refused reason) →
      (∀ n < (reason :: c.reasons).length, (scene.script c.who).Refuses scene.policy n) ∧
        c.number ≠ none := by
    intro due reason h
    refine ⟨?_, ?_⟩
    · intro n hlt
      obtain hlt | rfl := Nat.lt_succ_iff_lt_or_eq.mp hlt
      · exact ht.refused n hlt
      · exact ⟨reason, (hattempt h).2.2⟩
    · rw [Enrolled, h] at hn
      obtain ⟨k, hk⟩ := hn
      simp [hk]
  cases h with
  | exhausted h used =>
    refine { ht with scheduled := ⟨used, fun hpos => ?_⟩ }
    -- who has attempts has one left while it dials
    obtain hfresh | ⟨due, hrest⟩ := h
    · simp only [Scheduled, hfresh] at hs
      rw [hs.2.1, List.length_nil] at used
      omega
    · simp only [Scheduled, hrest] at hs
      omega
  | calledOff h set =>
    refine { ht with scheduled := ⟨set, ?_⟩ }
    intro hnil
    -- one that rests has tried before
    obtain hfresh | ⟨due, hrest⟩ := h
    · simp only [Scheduled, hfresh] at hs
      exact hs.1
    · simp only [Scheduled, hrest] at hs
      exact absurd hnil hs.1
  | started h left clear takes verdict sets ends =>
    obtain ⟨hbefore, hsame⟩ := ht.enrol w
    have hdial : (scene.script (Caller.enrol w c).2.who).dial scene.policy c.reasons.length
        = (takes, verdict) := ends
    have hend : w.now + takes = start
        + (scene.script (Caller.enrol w c).2.who).dialEnd scene.policy c.reasons.length := by
      rw [Script.dialEnd, hsame, hdial, ht.starts h clear hdue, Nat.add_assoc]
    rw [← enrol_reasons w c] at hbefore left hend hdial
    refine { refused := hbefore, unmet := ?_, scheduled := ⟨left, hend, congrArg Prod.snd hdial⟩ }
    intro hnone
    have hsome := enrol_number w c
    rw [hnone] at hsome
    simp at hsome
  | accepted h =>
    obtain ⟨left, hnow, hverdict⟩ := hattempt h
    exact { ht with scheduled := { left, verdict := hverdict, settledAt := congrArg some hnow } }
  | refused h left =>
    obtain ⟨hbefore, hmet⟩ := hrefused h
    refine { refused := hbefore, unmet := fun hnone => absurd hnone hmet, scheduled := ⟨by simp, left, ?_⟩ }
    show w.now + scene.policy.backoff.wait = start + _
    rw [(hattempt h).2.1, List.length_cons, Script.dialStart_succ, Nat.add_assoc]
    rfl
  | refusedLast h used =>
    obtain ⟨hbefore, hmet⟩ := hrefused h
    refine { refused := hbefore, unmet := fun hnone => absurd hnone hmet
             scheduled := ⟨used, fun _ => ?_⟩ }
    obtain ⟨left, hnow, -⟩ := hattempt h
    have hlast : scene.policy.tries - 1 = c.reasons.length := by omega
    rw [hlast]
    exact congrArg some hnow
  | perished h =>
    obtain ⟨left, hnow, hverdict⟩ := hattempt h
    exact { ht with scheduled := { left, verdict := hverdict, settledAt := congrArg some hnow } }
  | turnedAway h =>
    rename_i dialled _
    simp only [Scheduled, h] at hs
    refine { ht with scheduled := ?_ }
    cases dialled with
    | ok => exact { hs with }
    | error fault =>
      cases fault with
      | cancelled => exact hs
      | exhausted => exact hs
  | entered h =>
    simp only [Scheduled, h] at hs
    exact ht.proceed hs _ _
  | heard h =>
    simp only [Scheduled, h] at hs
    exact ht.proceed hs _ _
  | choked h =>
    simp only [Scheduled, h] at hs
    exact { ht with scheduled := { hs with } }
  | idle => exact ht

/-! ### How it ends -/

/-- A caller whose last attempt did not fail has made as many as its script has failures, and one
more. -/
theorem OnTime.dialled (h : c.OnTime scene start now token) {verdict : Verdict}
    (hd : c.Dialled scene start verdict) (hv : ∀ reason, verdict ≠ .refused reason) :
    (scene.script c.who).failures scene.policy = c.reasons.length ∧
      c.settledAt = some (start + (scene.script c.who).dialTime scene.policy) := by
  have hfail : (scene.script c.who).failures scene.policy = c.reasons.length := by
    refine Script.failures_eq (Nat.le_of_lt hd.left) h.refused ?_
    rintro - ⟨reason, hreason⟩
    exact hv reason (hd.verdict.symm.trans hreason)
  have hlast : min c.reasons.length (scene.policy.tries - 1) = c.reasons.length :=
    Nat.min_eq_left (Nat.le_sub_one_of_lt hd.left)
  refine ⟨hfail, ?_⟩
  rw [Script.dialTime, hfail, hlast]
  exact hd.settledAt

theorem OnTime.connects (h : c.OnTime scene start now token)
    (hd : c.Dialled scene start .accepted) : (scene.script c.who).Connects scene.policy := by
  obtain ⟨hfail, -⟩ := h.dialled hd (by simp)
  refine ⟨?_, ?_⟩
  · rw [hfail]
    exact hd.left
  · rw [hfail]
    exact hd.verdict

/-- A caller that has used up its attempts had no script to connect with. -/
theorem OnTime.exhausted (h : c.OnTime scene start now token) {reason : String}
    (hd : c.SettledAs scene start token (.error (.exhausted reason)))
    (hpos : 0 < scene.policy.tries) :
    ¬ (scene.script c.who).Connects scene.policy ∧
      c.settledAt = some (start + (scene.script c.who).dialTime scene.policy) := by
  have hfail : (scene.script c.who).failures scene.policy = scene.policy.tries := by
    refine Script.failures_eq (Nat.le_refl _) ?_ fun hlt => absurd hlt (Nat.lt_irrefl _)
    intro n hn
    exact h.refused n (Nat.lt_of_lt_of_le hn hd.1)
  refine ⟨?_, ?_⟩
  · rintro ⟨hlt, -⟩
    omega
  · rw [Script.dialTime, hfail, Nat.min_eq_right (Nat.sub_le _ _)]
    exact hd.2 hpos

end Caller

/-! ## The whole crew -/

namespace Crew

variable {σ : Type} {scene : Scene} {w₀ w w' : World} {crew crew₀ crew' : Crew σ}

/-- **Every caller of a crew dials on time.** -/
theorem Reaches.onTime (hs : crew₀.Starts w₀) (h : Reaches scene w₀ crew₀ w crew) :
    ∀ c ∈ crew.callers, c.OnTime scene w₀.now w.now w.token := by
  induction h with
  | start =>
    intro c hc
    rw [hs.callers c hc]
    exact Caller.fresh_onTime scene _ _
  | @step w w' crew crew' h s ih =>
    cases s with
    | wait t alarm later _ first =>
      intro c hc
      refine (ih c hc).later ?_ id
      intro hfresh
      -- a caller that has not begun is due at once
      exact Nat.le_antisymm (first c hc w.now (by rw [Caller.due, hfresh])) later
    | cancel =>
      intro c hc
      rw [World.cancel_now]
      refine (ih c hc).later (fun _ => rfl) ?_
      rw [World.cancel_eq]
      intro hset
      simp [World.after, hset]
    | @act i c hc hdue =>
      have hmem := List.mem_of_getElem? hc
      have hen := (h.grounded hs).enrolled c hmem
      have ha := Caller.act_acts scene crew.job crew.gate i w c
      intro d hd
      show d.OnTime scene w₀.now (c.act scene crew.job crew.gate i w).1.now _
      rw [ha.now_eq hen]
      rcases List.mem_or_eq_of_mem_set hd with hd | rfl
      · exact (ih d hd).later (fun _ => rfl) (ha.token_set hen)
      · exact (ha.onTime hen (ih c hmem) hdue).later (fun _ => rfl) (ha.token_set hen)
    | pass => exact ih

/-! ### Who has been met -/

/-- How many callers have a number. -/
def numbered (callers : List (Caller σ)) : Nat := callers.countP (·.number.isSome)

theorem numbered_set {callers : List (Caller σ)} {i : Nat} {c c' : Caller σ}
    (hc : callers[i]? = some c) (hnum : c.Enrols w w' c') :
    numbered (callers.set i c') + w.met = numbered callers + w'.met := by
  obtain ⟨hlt, rfl⟩ := List.getElem?_eq_some_iff.mp hc
  unfold numbered
  rw [List.countP_set hlt]
  obtain ⟨hsame, hmet⟩ | ⟨hnone, hsome, hmet⟩ := hnum
  · rw [hsame, hmet]
    by_cases h : callers[i].number.isSome = true
    · have hpos := List.countP_pos_iff (p := fun c : Caller σ => c.number.isSome).mpr
        ⟨_, List.getElem_mem hlt, h⟩
      rw [if_pos h]
      omega
    · rw [if_neg h]
      omega
  · rw [hnone, hsome, hmet]
    simp only [Option.isSome_none, Option.isSome_some, Bool.false_eq_true, if_false, if_true]
    omega

/-- The server has met those that have a number. -/
theorem Reaches.met_eq (hs : crew₀.Starts w₀) (h : Reaches scene w₀ crew₀ w crew) :
    w.met = w₀.met + numbered crew.callers := by
  induction h with
  | start =>
    have hnone : numbered crew₀.callers = 0 :=
      List.countP_eq_zero.mpr fun c hc => by simp [hs.callers c hc, Caller.fresh]
    rw [hnone, Nat.add_zero]
  | @step w w' crew crew' h s ih =>
    cases s with
    | wait => exact ih
    | cancel => rw [World.cancel_met, ih]
    | @act i c hc hdue =>
      have ha := Caller.act_acts scene crew.job crew.gate i w c
      obtain ⟨-, -, -, hnum⟩ := ha.effect ((h.grounded hs).enrolled c (List.mem_of_getElem? hc))
      have hset : numbered (crew.acted scene w i c).2.callers + w.met
          = numbered crew.callers + (crew.acted scene w i c).1.met := numbered_set hc hnum
      omega
    | pass => exact ih

end Crew

end LoadSweep
