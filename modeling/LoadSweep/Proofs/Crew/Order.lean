import LoadSweep.Proofs.Crew.Dial
import LoadSweep.Proofs.Crew.Gate

/-!
# `LoadSweep/Proofs/Crew/Order.lean` — the order in which the server meets the callers

The machine takes the first of those who are due first. All callers of a crew are due at its start,
so none of them makes its first attempt before those with smaller indices have made theirs: when
nothing sets the token, the caller at position `i` is the one that the server meets as number `i`
of this crew (`Crew.run_numbers`). Only the machine keeps to this order; a step of `Crew.Reaches` may
take any caller that is due.

When the scripts are **mild**, only the alarm can set the token.
-/

set_option autoImplicit false

namespace LoadSweep

/-! ## Mild scripts -/

/-- The script neither sets the token nor kills its caller, pings apart. -/
structure Script.Mild (script : Script) : Prop where
  attempt : ∀ n, (script.attempt n).cancels = false ∧ (script.attempt n).ends ≠ .dies
  reply : ∀ n, (script.reply n).cancels = false ∧ (script.reply n).answer ≠ .dies

/-- The script neither sets the token nor kills its caller, not even with a ping. -/
structure Script.Gentle (script : Script) : Prop where
  attempt : ∀ n, (script.attempt n).cancels = false ∧ (script.attempt n).ends ≠ .dies
  replyTo : ∀ n r, (script.replyTo n r).cancels = false ∧ (script.replyTo n r).answer ≠ .dies

def Scene.Gentle (scene : Scene) : Prop := ∀ k, (scene.script k).Gentle

/-- The job sends requests other than pings. -/
def Job.Pingless {σ : Type} (job : Job σ) : Prop :=
  ∀ (now : Nat) (token : Bool) (s s' : σ) (r : Request), job.ask now token s = .send r s' → r ≠ .ping

/-- An attempt that kills nobody by itself kills nobody within a time limit. -/
theorem Script.dial_ne_dies {script : Script} {n : Nat} (h : (script.attempt n).ends ≠ .dies)
    (policy : Policy) : (script.dial policy n).2 ≠ .dies := by
  unfold dial Attempt.within
  cases hcase : (script.attempt n).ends with
  | hangs => simp
  | accepted | refused => simp only; split <;> simp
  | dies => exact absurd hcase h

/-- A caller lives when no attempt and no answer kills it, and its job does not either. -/
theorem Caller.not_died {σ : Type} {scene : Scene} {job : Job σ} {gate : Gate} {w₀ : World}
    {i start now : Nat} {token : Bool} {tr : List Entry} {c : Caller σ}
    (hjob : ∀ now token s, job.ask now token s ≠ .die)
    (hdial : ∀ n, ((scene.script c.who).dial scene.policy n).2 ≠ .dies)
    (hreply : ∀ now token s s' n r, job.ask now token s = .send r s' →
      ((scene.script c.who).replyTo n r).answer ≠ .dies)
    (ht : c.OnTime scene start now token) (ha : c.Agrees scene job w₀ gate i tr)
    (state : Option σ) : c.stage ≠ .ended (.died state) := by
  intro hend
  have hs := ht.scheduled
  rw [Caller.Scheduled, hend] at hs
  rw [Caller.Agrees, hend] at ha
  cases state with
  | none => exact hdial _ hs.verdict
  | some s =>
    obtain ⟨-, ts, s₀, t, token, -, ⟨-, hask, -⟩ | ⟨r, -, hask, hdies⟩⟩ := ha
    · exact hjob t token s₀ hask
    · exact hreply t token s₀ s _ r hask hdies

/-- The answer that a caller waits for is one of its script. -/
theorem Caller.Agrees.reply_eq {σ : Type} {scene : Scene} {job : Job σ} {gate : Gate} {w₀ : World}
    {i sent due : Nat} {tr : List Entry} {c : Caller σ} {s : σ} {reply : Reply}
    (h : c.Agrees scene job w₀ gate i tr) (hstage : c.stage = .talking s sent due reply) :
    ∃ (token : Bool) (s₀ : σ) (n : Nat) (r : Request), job.ask sent token s₀ = .send r s ∧
      reply = (scene.script c.who).replyTo n r := by
  rw [Agrees, hstage] at h
  obtain ⟨ts, s₀, token, r, -, -, hask, heq, -⟩ := h
  exact ⟨token, s₀, _, r, hask, heq⟩

namespace Script.Mild

variable {script : Script}

theorem replyTo (h : script.Mild) (n : Nat) {r : Request} (hr : r ≠ .ping) :
    (script.replyTo n r).cancels = false ∧ (script.replyTo n r).answer ≠ .dies := by
  cases r with
  | ping => exact absurd rfl hr
  | get | set => exact h.reply n

theorem gentle (h : script.Mild)
    (hping : script.ping.cancels = false ∧ script.ping.answer ≠ .dies) : script.Gentle where
  attempt := h.attempt
  replyTo := by
    intro n r
    cases r with
    | ping => exact hping
    | get | set => exact h.reply n

end Script.Mild

theorem Script.Gentle.mild {script : Script} (h : script.Gentle) : script.Mild where
  attempt := h.attempt
  reply := fun n => h.replyTo n (.get "")

theorem Reply.mem_of_atPlace {replies : List (Nat × Reply)} {i : Nat} {reply : Reply}
    (h : Reply.atPlace replies i = some reply) : ∃ n, (n, reply) ∈ replies := by
  induction replies generalizing i with
  | nil => simp [Reply.atPlace] at h
  | cons p rest ih =>
    obtain ⟨n, first⟩ := p
    unfold Reply.atPlace at h
    split at h
    · obtain rfl := Option.some.inj h
      exact ⟨n, List.mem_cons_self⟩
    · obtain ⟨m, hm⟩ := ih h
      exact ⟨m, List.mem_cons_of_mem _ hm⟩

/-- The script of finite lists is mild when everything in the lists is. -/
theorem Script.ofLists_mild {attempts : List Attempt} {rest : Attempt} {ping : Reply}
    {replies : List (Nat × Reply)} {after : AfterLast}
    (hattempts : ∀ a ∈ rest :: attempts, a.cancels = false ∧ a.ends ≠ .dies)
    (hreplies : ∀ p ∈ replies, p.2.cancels = false ∧ p.2.answer ≠ .dies) :
    (Script.ofLists attempts rest ping replies after).Mild where
  attempt := by
    intro n
    refine hattempts _ ?_
    show attempts.getD n rest ∈ rest :: attempts
    rw [List.getD_eq_getElem?_getD]
    cases hn : attempts[n]? with
    | none => exact List.mem_cons_self
    | some a => exact List.mem_cons_of_mem _ (List.mem_of_getElem? hn)
  reply := by
    intro n
    simp only [ofLists]
    cases hplace : Reply.atPlace replies _ with
    | none => exact ⟨rfl, by simp [Reply.plain]⟩
    | some reply =>
      obtain ⟨m, hm⟩ := Reply.mem_of_atPlace hplace
      exact hreplies _ hm

/-! ## The first of equals -/

theorem earliest_first {ds : List (Option Nat)} {i t : Nat} (h : earliest ds = some (i, t)) :
    ∀ j < i, ∀ u, ds[j]? = some (some u) → t < u := by
  induction ds generalizing i t with
  | nil => simp [earliest] at h
  | cons d rest ih =>
    have hrest : ∀ {p : Nat × Nat}, earliest rest = some p → ∀ j < p.1, ∀ u,
        rest[j]? = some (some u) → p.2 < u := fun hp => ih hp
    intro j hj u hu
    cases d with
    | none =>
      rw [earliest_none_cons, Option.map_eq_some_iff] at h
      obtain ⟨p, hp, heq⟩ := h
      obtain ⟨rfl, rfl⟩ := Prod.mk.inj heq
      cases j with
      | zero => simp at hu
      | succ j => exact hrest hp j (by omega) u (by simpa using hu)
    | some s =>
      rw [earliest_some_cons] at h
      split at h
      · obtain ⟨rfl, -⟩ := Prod.mk.inj (Option.some.inj h)
        omega
      · rename_i p hp
        split at h
        · obtain ⟨rfl, -⟩ := Prod.mk.inj (Option.some.inj h)
          omega
        · rename_i hlater
          obtain ⟨rfl, rfl⟩ := Prod.mk.inj (Option.some.inj h)
          cases j with
          | zero =>
            obtain rfl : s = u := by simpa using hu
            exact Nat.lt_of_not_le hlater
          | succ j => exact hrest hp j (by omega) u (by simpa using hu)

/-! ## One caller -/

theorem World.after_token {w : World} {es : List Happening} (h : ∀ e ∈ es, e ≠ .cancelled) :
    (w.after es).token = w.token := by
  have hnone : es.any (· = .cancelled) = false := by simpa using h
  rw [World.after, hnone, Bool.or_false]

namespace Caller

variable {σ : Type} {scene : Scene} {job : Job σ} {gate : Gate} {i : Nat} {w w' : World}
  {c c' : Caller σ}

/-- An act leaves the token as it is, unless the script sets it. -/
theorem Acts.token_eq (h : Acts scene job gate i w c w' c')
    (hattempt : ∀ n, ((scene.script (enrol w c).2.who).attempt n).cancels = false)
    (hreply : ∀ {state : σ} {sent due : Nat} {reply : Reply},
      c.stage = .talking state sent due reply → reply.cancels = false) : w'.token = w.token := by
  have hproceed : ∀ (wa : World) (s : σ), (c.proceed scene job wa s).1.token = wa.token := by
    intro wa s
    obtain ⟨es, hw, hes, -⟩ := proceed_effect scene job wa c s
    rw [hw]
    refine World.after_token ?_
    rintro e he rfl
    simpa [Happening.caller?] using hes _ he
  cases h with
  | exhausted | calledOff | turnedAway | idle => rfl
  | started _ _ _ takes verdict sets _ tolls =>
    obtain rfl := tolls.trans (hattempt _)
    rw [World.after_token (by simp [World.tolled]), enrol_token]
  | accepted | refused | refusedLast | perished => exact World.after_token (by simp)
  | entered => exact hproceed _ _
  | heard h _ wa hwa =>
    rw [hproceed, hwa]
    exact World.after_token (by simp [World.tolled, hreply h])
  | choked h => exact World.after_token (by simp [World.tolled, hreply h])

/-- The first thing a caller does is an attempt, which makes it known to the server. -/
theorem Acts.of_fresh (h : Acts scene job gate i w c w' c') (hfresh : c.stage = .fresh)
    (hnone : c.number = none) (hnil : c.reasons = []) (hpos : 0 < scene.policy.tries)
    (hclear : w.token = false) : c'.number = some w.met ∧ w'.met = w.met + 1 := by
  cases h with
  | exhausted _ used =>
    rw [hnil, List.length_nil] at used
    omega
  | calledOff _ set => simp [hclear] at set
  | started => simp [enrol, hnone]
  | accepted h | refused h | refusedLast h | perished h | turnedAway h | entered h | heard h
  | choked h | idle h => simp [hfresh] at h

end Caller

/-! ## The crew -/

namespace Crew

variable {σ : Type} {scene : Scene} {w₀ w w' v : World} {crew₀ crew crew' crew'' : Crew σ} {j : Nat}
  {tr : List Entry}

theorem next_first {i t : Nat} (h : crew.next w = some (i, t)) (hj : j < i) {d : Caller σ}
    (hd : crew.callers[j]? = some d) {u : Nat} (hu : d.due w crew.gate = some u) : t < u := by
  refine earliest_first h j hj u ?_
  rw [List.getElem?_map, hd]
  exact congrArg some hu

/-- A step is the act of the first of those who are due first, or the gate, or the alarm. -/
theorem step_first (h : crew.step scene w = some (w', crew')) :
    (∃ (i due : Nat) (c : Caller σ), crew.callers[i]? = some c ∧ c.due w crew.gate = some due ∧
      (∀ j < i, ∀ d, crew.callers[j]? = some d → ∀ u, d.due w crew.gate = some u → due < u) ∧
      w' = (crew.acted scene { w with now := due } i c).1 ∧
      crew' = (crew.acted scene { w with now := due } i c).2) ∨
    (w' = w ∧ ∃ gate, crew' = { crew with gate }) ∨ (w.alarm ≠ none ∧ w'.token = true) := by
  unfold step at h
  split at h
  · rename_i i due hnext
    obtain ⟨⟨c, hc, hdue⟩, -⟩ := next_eq_some hnext
    split at h
    · rename_i hrings
      obtain ⟨rfl, -⟩ := Prod.mk.inj (Option.some.inj h)
      exact .inr (.inr (ring_sets hrings))
    · rw [hc] at h
      obtain ⟨hw, hcrew⟩ := Prod.mk.inj (Option.some.inj h)
      exact .inl ⟨i, due, c, hc, hdue, fun j hj d hd u hu => next_first hnext hj hd hu, hw.symm,
        hcrew.symm⟩
  · split at h
    · obtain ⟨rfl, rfl⟩ := Prod.mk.inj (Option.some.inj h)
      exact .inr (.inl ⟨rfl, _, rfl⟩)
    all_goals simp at h

/-- A token that is set stays set. -/
theorem step_token_set (hg : crew.Grounded w₀ tr w) (h : crew.step scene w = some (w', crew'))
    (hset : w.token = true) : w'.token = true := by
  obtain ⟨i, due, c, hc, -, -, hact⟩ | ⟨-, -, rfl, -⟩ := step_cases h
  · obtain ⟨hrings, rfl, -⟩ | ⟨rfl, -⟩ := hact
    · exact (ring_sets hrings).2
    · have ha := Caller.act_acts scene crew.job crew.gate i { w with now := due } c
      exact ha.token_set (hg.enrolled c (List.mem_of_getElem? hc)) hset
  · exact hset

theorem Leads.token_set (hs : crew₀.Starts w₀) (hr : Reaches scene w₀ crew₀ w crew)
    (h : Leads scene w crew v crew'') (hset : w.token = true) : v.token = true := by
  induction h with
  | refl => exact hset
  | step s _ ih =>
    have hg := hr.grounded hs
    exact ih (hr.of_step hg.noneBefore_now s) (step_token_set hg s hset)

/-- The first `j` callers have been met, in the order of their positions, and the others have not
begun, while the token has been unset. -/
structure InOrder (w₀ w : World) (crew : Crew σ) (j : Nat) : Prop where
  unset : w.token = false
  met : w.met = w₀.met + j
  numbered : ∀ i < j, ∀ c, crew.callers[i]? = some c → c.number = some (w₀.met + i)
  fresh : ∀ i, j ≤ i → ∀ c, crew.callers[i]? = some c → c.stage = .fresh

theorem Starts.inOrder (hs : crew.Starts w₀) (hclear : w₀.token = false) :
    crew.InOrder w₀ w₀ 0 where
  unset := hclear
  met := rfl
  numbered := by
    intro i hi
    omega
  fresh := by
    intro i _ c hc
    rw [hs.callers c (List.mem_of_getElem? hc)]
    rfl

/-- What a crew needs for its machine to go by positions. -/
structure Calm (scene : Scene) (w₀ : World) (crew₀ : Crew σ) : Prop where
  starts : crew₀.Starts w₀
  tries : 0 < scene.policy.tries
  mild : ∀ i < crew₀.callers.length, (scene.script (w₀.met + i)).Mild
  pingless : crew₀.job.Pingless

/-- A caller that has been met acts. -/
theorem InOrder.act_numbered (hcalm : crew₀.Calm scene w₀) (hr : Reaches scene w₀ crew₀ w crew)
    (ho : crew.InOrder w₀ w j) {i due : Nat} {c : Caller σ} (hc : crew.callers[i]? = some c)
    (hi : i < j) :
    (crew.acted scene { w with now := due } i c).2.InOrder w₀
      (crew.acted scene { w with now := due } i c).1 j := by
  have hnum := ho.numbered i hi c hc
  have ha := Caller.act_acts scene crew.job crew.gate i { w with now := due } c
  have hf := hr.faithful hcalm.starts
  have hen := hf.enrolled c (List.mem_of_getElem? hc)
  obtain ⟨es, hw, -, hkeeps⟩ := ha.effect hen
  obtain ⟨hsame, hmet⟩ | ⟨hnone, -⟩ := hkeeps
  · have hlt : i < crew₀.callers.length := by
      rw [← hr.job_eq.2.2]
      exact (List.getElem?_eq_some_iff.mp hc).1
    have hmild : (scene.script c.who).Mild := Caller.who_eq hnum ▸ hcalm.mild i hlt
    have htoken : (crew.acted scene { w with now := due } i c).1.token = false := by
      refine (ha.token_eq ?_ ?_).trans ho.unset
      · intro n
        rw [show (Caller.enrol { w with now := due } c).2 = c by simp [Caller.enrol, hnum]]
        exact (hmild.attempt n).1
      · intro state sent due reply hstage
        obtain ⟨token, s₀, n, r, hask, rfl⟩ := (hf.agrees i c hc).reply_eq hstage
        rw [hr.job_eq.1] at hask
        exact (hmild.replyTo n (hcalm.pingless _ _ _ _ _ hask)).1
    refine { unset := htoken, met := hmet.trans ho.met, numbered := ?_, fresh := ?_ }
    · intro l hl d hd
      obtain ⟨rfl, rfl⟩ | ⟨-, hd⟩ := getElem?_set_cases hd
      · exact hsame.trans hnum
      · exact ho.numbered l hl d hd
    · intro l hl d hd
      obtain ⟨rfl, -⟩ | ⟨-, hd⟩ := getElem?_set_cases hd
      · omega
      · exact ho.fresh l hl d hd
  · simp [hnum] at hnone

/-- A caller begins, and it is the next one in the order of the positions. -/
theorem InOrder.act_fresh (hcalm : crew₀.Calm scene w₀) (hr : Reaches scene w₀ crew₀ w crew)
    (ho : crew.InOrder w₀ w j) {i due : Nat} {c : Caller σ} (hc : crew.callers[i]? = some c)
    (hdue : c.due w crew.gate = some due) (hi : j ≤ i)
    (first : ∀ l < i, ∀ d, crew.callers[l]? = some d → ∀ u, d.due w crew.gate = some u → due < u) :
    (crew.acted scene { w with now := due } i c).2.InOrder w₀
      (crew.acted scene { w with now := due } i c).1 (j + 1) := by
  have hfresh := ho.fresh i hi c hc
  have hlt := (List.getElem?_eq_some_iff.mp hc).1
  have hnow : due = w.now := by simpa [Caller.due, hfresh, eq_comm] using hdue
  -- the one that comes next by position is due as well
  obtain rfl : i = j := by
    by_cases hlate : j < i
    · obtain ⟨d, hd⟩ : ∃ d, crew.callers[j]? = some d :=
        ⟨_, List.getElem?_eq_getElem (Nat.lt_trans hlate hlt)⟩
      have hwaits := ho.fresh j (Nat.le_refl j) d hd
      have := first j hlate d hd w.now (by rw [Caller.due, hwaits])
      omega
    · omega
  have ha := Caller.act_acts scene crew.job crew.gate i { w with now := due } c
  have hmem := List.mem_of_getElem? hc
  have hs := (hr.onTime hcalm.starts c hmem).scheduled
  rw [Caller.Scheduled, hfresh] at hs
  obtain ⟨hnone, hnil, -⟩ := hs
  obtain ⟨hnum, hmet⟩ := ha.of_fresh hfresh hnone hnil hcalm.tries ho.unset
  have htoken : (crew.acted scene { w with now := due } i c).1.token = false := by
    refine (ha.token_eq ?_ ?_).trans ho.unset
    · intro n
      have hwho : (Caller.enrol { w with now := due } c).2.who = w₀.met + i := by
        simp [Caller.enrol, hnone, Caller.who, ho.met]
      rw [hwho]
      exact ((hcalm.mild i (hr.job_eq.2.2 ▸ hlt)).attempt n).1
    · intro state sent due reply hstage
      simp [hfresh] at hstage
  refine { unset := htoken, met := ?_, numbered := ?_, fresh := ?_ }
  · show (c.act scene crew.job crew.gate i { w with now := due }).1.met = _
    rw [hmet, ho.met, Nat.add_assoc]
  · intro l hl d hd
    obtain ⟨rfl, rfl⟩ | ⟨hne, hd⟩ := getElem?_set_cases hd
    · exact hnum.trans (congrArg some ho.met)
    · exact ho.numbered l (by omega) d hd
  · intro l hl d hd
    obtain ⟨rfl, -⟩ | ⟨-, hd⟩ := getElem?_set_cases hd
    · omega
    · exact ho.fresh l (by omega) d hd

/-- A step keeps the order, unless the alarm rings. -/
theorem InOrder.step (hcalm : crew₀.Calm scene w₀) (hr : Reaches scene w₀ crew₀ w crew)
    (ho : crew.InOrder w₀ w j) (h : crew.step scene w = some (w', crew')) :
    (w'.alarm = w.alarm ∧ ∃ j', crew'.InOrder w₀ w' j') ∨ (w.alarm ≠ none ∧ w'.token = true) := by
  obtain ⟨i, due, c, hc, hdue, first, rfl, rfl⟩ | ⟨rfl, gate, rfl⟩ | hrings := step_first h
  · left
    have hen := (hr.grounded hcalm.starts).enrolled c (List.mem_of_getElem? hc)
    refine ⟨(Caller.act_acts scene crew.job crew.gate i { w with now := due } c).alarm_eq hen, ?_⟩
    by_cases hi : i < j
    · exact ⟨j, ho.act_numbered hcalm hr hc hi⟩
    · exact ⟨j + 1, ho.act_fresh hcalm hr hc hdue (Nat.le_of_not_lt hi) first⟩
  · exact .inl ⟨rfl, j, { ho with }⟩
  · exact .inr hrings

theorem InOrder.leads (hcalm : crew₀.Calm scene w₀) (hr : Reaches scene w₀ crew₀ w crew)
    (ho : crew.InOrder w₀ w j) (h : Leads scene w crew v crew'') :
    (∃ j', crew''.InOrder w₀ v j') ∨ (w.alarm ≠ none ∧ v.token = true) := by
  induction h generalizing j with
  | refl => exact .inl ⟨j, ho⟩
  | step s later ih =>
    have hr' := hr.of_step (hr.grounded hcalm.starts).noneBefore_now s
    obtain ⟨halarm, j', ho'⟩ | ⟨halarm, hset⟩ := ho.step hcalm hr s
    · rw [← halarm]
      exact ih hr' ho'
    · exact .inr ⟨halarm, later.token_set hcalm.starts hr' hset⟩

theorem leads_of_run {limit : Nat} (h : crew.run scene limit w = some (w', crew')) :
    Leads scene w crew w' crew' ∧ crew'.Done w' := by
  induction limit generalizing w crew with
  | zero => simp [run] at h
  | succ limit ih =>
    unfold run at h
    split at h
    · rename_i hstep
      obtain ⟨rfl, rfl⟩ := Prod.mk.inj (Option.some.inj h)
      exact ⟨.refl, step_eq_none.mp hstep⟩
    · rename_i hstep
      obtain ⟨hleads, hdone⟩ := ih h
      exact ⟨.step hstep hleads, hdone⟩

/-- **At the end of a run with the token unset the numbers are those of the positions.** -/
theorem run_numbers (hcalm : crew₀.Calm scene w₀) {limit : Nat}
    (h : crew₀.run scene limit w₀ = some (w, crew)) (hunset : w.token = false) (i : Nat)
    (c : Caller σ) (hc : crew.callers[i]? = some c) : c.number = some (w₀.met + i) := by
  obtain ⟨hleads, hdone⟩ := leads_of_run h
  have hclear : w₀.token = false := by
    cases hset : w₀.token with
    | false => rfl
    | true => simp [hleads.token_set hcalm.starts .start hset] at hunset
  obtain ⟨j, ho⟩ | ⟨-, hset⟩ := (hcalm.starts.inOrder hclear).leads hcalm .start hleads
  · by_cases hi : i < j
    · exact ho.numbered i hi c hc
    · obtain ⟨how, hend⟩ := hdone.ended (List.mem_of_getElem? hc)
      simp [ho.fresh i (Nat.le_of_not_lt hi) c hc] at hend
  · simp [hset] at hunset

/-- Nothing but the alarm sets the token. -/
theorem run_unset (hcalm : crew₀.Calm scene w₀) {limit : Nat}
    (h : crew₀.run scene limit w₀ = some (w, crew)) (hclear : w₀.token = false)
    (halarm : w₀.alarm = none) : w.token = false := by
  obtain ⟨hleads, -⟩ := leads_of_run h
  obtain ⟨j, ho⟩ | ⟨hsome, -⟩ := (hcalm.starts.inOrder hclear).leads hcalm .start hleads
  · exact ho.unset
  · exact absurd halarm hsome

end Crew

end LoadSweep
