import LoadSweep.Proofs.Traffic

/-!
# `LoadSweep/Proofs/Shift.lean` — a course of traffic does not depend on when it begins

Traffic looks at the clock in two ways, and neither of them tells the time: it compares the instant
with a deadline that was counted from the opening, and it takes the time between a request and its
answer. So a course that begins later by `d` is the same course with `d` added to every instant
(`Traffic.course_later`). And a script leaves a course no choice: two courses from one opening are
equal turn by turn (`Job.Course.unique`, `Job.Course.goes_on`).

Together they compare two workers that have one script and one seed, whatever the instants at which
their windows opened (`Traffic.finished_unique`, `Traffic.length_lt_of_send`).
-/

set_option autoImplicit false

namespace LoadSweep

/-! ## One opening -/

namespace Job

variable {σ : Type} {job : Job σ} {script : Script} {i opened start t t' : Nat} {ts ts' : List Turn}
  {s s' : σ}

theorem Heeds.ask_unset (hj : job.Heeds) {token : Bool} {r : Request}
    (h : job.ask t token s = .send r s') : job.ask t false s = .send r s' := by
  cases token with
  | false => exact h
  | true => exact absurd h (hj t s s' r)

/-- After the same number of turns two courses from one opening are the same. -/
theorem Course.unique (hj : job.Heeds) (h : job.Course script i opened start ts s t)
    (h' : job.Course script i opened start ts' s' t') (hlen : ts.length = ts'.length) :
    ts = ts' ∧ s = s' ∧ t = t' := by
  induction h generalizing ts' s' t' with
  | enter =>
    cases h' with
    | enter => exact ⟨rfl, rfl, rfl⟩
    | turn => simp at hlen
  | turn _ hask ho ih =>
    cases h' with
    | enter => simp at hlen
    | turn h₀ hask' ho' =>
      obtain ⟨rfl, rfl, rfl⟩ := ih h₀ (Nat.succ.inj hlen)
      obtain ⟨rfl, rfl⟩ := Move.send.inj ((hj.ask_unset hask).symm.trans (hj.ask_unset hask'))
      obtain rfl := Option.some.inj (ho.symm.trans ho')
      exact ⟨rfl, rfl, rfl⟩

/-- A course that has fewer turns than another one goes on. -/
theorem Course.goes_on (hj : job.Heeds) (h : job.Course script i opened start ts s t)
    (h' : job.Course script i opened start ts' s' t') (hlt : ts.length < ts'.length) :
    ∃ r s'', job.ask t false s = .send r s'' := by
  induction h' with
  | enter => simp at hlt
  | @turn _ _ s₁ _ _ r _ h₀ hask _ ih =>
    obtain hless | hlen := Nat.lt_or_eq_of_le (Nat.le_of_lt_succ hlt)
    · exact ih hless
    · obtain ⟨-, rfl, rfl⟩ := h.unique hj h₀ hlen
      exact ⟨r, s₁, hj.ask_unset hask⟩

end Job

/-! ## Two openings -/

/-- The turn, `d` nanoseconds later. -/
def Turn.later (d : Nat) (x : Turn) : Turn := { x with sent := x.sent + d, heard := x.heard + d }

/-- The turn with its instants counted from `opened`. -/
def Turn.since (opened : Nat) (x : Turn) : Turn :=
  { x with sent := x.sent - opened, heard := x.heard - opened }

theorem Turn.since_later (opened d : Nat) (x : Turn) :
    (x.later d).since (opened + d) = x.since opened := by
  simp only [Turn.later, Turn.since, Nat.add_sub_add_right]

theorem Script.turn_later (script : Script) (n t d : Nat) (r : Request) :
    script.turn n (t + d) r = (script.turn n t r).later d := by
  simp only [Script.turn, Turn.later, Turn.mk.injEq, true_and, and_true]
  omega

theorem weightOf_later (d : Nat) (ts : List Turn) : weightOf (ts.map (Turn.later d)) = weightOf ts := by
  induction ts with
  | nil => rfl
  | cons x rest ih =>
    rw [List.map_cons, weightOf_cons, weightOf_cons, ih]
    rfl

namespace Traffic

variable {keys : KeySpace} {request : String → Request} {window : Duration} {seed seed' : Nat → Nat}
  {script : Script} {i i' opened opened' start t t' now d : Nat} {ts ts' : List Turn} {token : Bool}
  {s s' : Traffic}

/-- The caller in a window that closes `d` nanoseconds later. -/
def later (d : Nat) (s : Traffic) : Traffic := { s with deadline := s.deadline + d }

theorem ends_later (d : Nat) : Ends (now + d) token (s.later d) ↔ Ends now token s := by
  simp only [Ends, later, Nat.add_le_add_iff_right]

theorem ask_later (seed' : Nat → Nat) (d : Nat) {r : Request}
    (h : (job keys request window seed).ask now token s = .send r s') :
    (job keys request window seed').ask (now + d) token (s.later d) = .send r (s'.later d) := by
  simp only [job, later, Nat.add_lt_add_iff_right] at h ⊢
  split at h
  · simp at h
  · rename_i hsound
    rw [if_neg hsound]
    split at h
    · rename_i hgo
      rw [if_pos hgo]
      split at h
      · obtain ⟨rfl, rfl⟩ := Move.send.inj h
        rfl
      · simp at h
    · simp at h

theorem count_later (nanos d : Nat) (answer : Except ClientFault (Option String)) (s : Traffic) :
    (s.later d).count nanos answer = (s.count nanos answer).later d := by
  unfold count
  split
  · rfl
  · split <;> rfl

/-- **A course that begins later is the same course later.** -/
theorem course_later (h : (job keys request window seed).Course script i opened start ts s t)
    (hseed : seed' i' = seed i) (d : Nat) :
    (job keys request window seed').Course script i' (opened + d) (start + d)
      (ts.map (Turn.later d)) (s.later d) (t + d) := by
  induction h with
  | enter =>
    have hstate : (job keys request window seed').enter i' (opened + d)
        = ((job keys request window seed).enter i opened).later d := by
      simp only [job, later, hseed, Traffic.mk.injEq, and_true]
      omega
    rw [← hstate]
    exact .enter
  | @turn ts s s' t token r outcome _ hask ho ih =>
    have ho' : (script.turn (weightOf (ts.map (Turn.later d))) (t + d) r).answer.outcome
        = some outcome := by
      rw [weightOf_later, Script.turn_later]
      exact ho
    have hhear : (job keys request window seed').hear (t + d)
        ((script.turn (weightOf ts) t r).later d).heard outcome (s'.later d)
        = ((job keys request window seed).hear t (script.turn (weightOf ts) t r).heard outcome
          s').later d := by
      simp only [job, Turn.later, Nat.add_sub_add_right, count_later]
    have hturn := Job.Course.turn ih (ask_later seed' d hask) ho'
    rw [weightOf_later, Script.turn_later, hhear] at hturn
    exact hturn

/-- Two courses with one script and one seed, both moved to the sum of their openings. -/
theorem courses_meet (h : (job keys request window seed).Course script i opened opened ts s t)
    (h' : (job keys request window seed').Course script i' opened' opened' ts' s' t')
    (hseed : seed' i' = seed i) :
    (job keys request window seed').Course script i' (opened + opened') (opened + opened')
      (ts.map (Turn.later opened')) (s.later opened') (t + opened') ∧
    (job keys request window seed').Course script i' (opened + opened') (opened + opened')
      (ts'.map (Turn.later opened)) (s'.later opened) (t' + opened) := by
  have hmoved : (job keys request window seed').Course script i' (opened' + opened)
      (opened' + opened) (ts'.map (Turn.later opened)) (s'.later opened) (t' + opened) :=
    course_later h' rfl opened
  rw [Nat.add_comm opened' opened] at hmoved
  exact ⟨course_later h hseed opened', hmoved⟩

/-- A course that goes on has fewer turns than one that has come to its end. -/
theorem length_lt_of_send (h : (job keys request window seed).Course script i opened opened ts s t)
    (hends : Ends t false s)
    (h' : (job keys request window seed').Course script i' opened' opened' ts' s' t')
    (hseed : seed' i' = seed i) {r : Request} {s'' : Traffic}
    (hask : (job keys request window seed').ask t' token s' = .send r s'') :
    ts'.length < ts.length := by
  have hj := job_heeds keys request window seed'
  obtain ⟨hc, hc'⟩ := courses_meet h h' hseed
  have hstops := (ends_later opened').mpr hends
  have hgoes := ask_later seed' opened (hj.ask_unset hask)
  refine Nat.lt_of_not_le ?_
  intro hle
  obtain hlt | heq := Nat.lt_or_eq_of_le hle
  · obtain ⟨q, x, hmore⟩ := hc.goes_on hj hc' (by rwa [List.length_map, List.length_map])
    exact (not_ends_of_send hmore).1 hstops
  · obtain ⟨-, hs, ht⟩ := hc.unique hj hc' (by rw [List.length_map, List.length_map, heq])
    rw [hs, ht] at hstops
    exact (not_ends_of_send hgoes).1 hstops

/-- Two courses that have come to their end are the same, but for the instant of the opening. -/
theorem finished_unique (h : (job keys request window seed).Course script i opened opened ts s t)
    (hends : Ends t false s)
    (h' : (job keys request window seed').Course script i' opened' opened' ts' s' t')
    (hends' : Ends t' false s') (hseed : seed' i' = seed i) :
    s.result = s'.result ∧ ts.map (Turn.since opened) = ts'.map (Turn.since opened') := by
  have hj := job_heeds keys request window seed'
  obtain ⟨hc, hc'⟩ := courses_meet h h' hseed
  have hlen : (ts.map (Turn.later opened')).length = (ts'.map (Turn.later opened)).length := by
    obtain hlt | heq | hlt := Nat.lt_trichotomy (ts.map (Turn.later opened')).length
      (ts'.map (Turn.later opened)).length
    · obtain ⟨r, x, hask⟩ := hc.goes_on hj hc' hlt
      exact absurd ((ends_later opened').mpr hends) (not_ends_of_send hask).1
    · exact heq
    · obtain ⟨r, x, hask⟩ := hc'.goes_on hj hc hlt
      exact absurd ((ends_later opened).mpr hends') (not_ends_of_send hask).1
  obtain ⟨hts, hs, -⟩ := hc.unique hj hc' hlen
  have hresult : (s.later opened').result = (s'.later opened).result := congrArg Traffic.result hs
  refine ⟨hresult, ?_⟩
  -- counted from the openings again, the turns are what they were
  have hback := congrArg (List.map (Turn.since (opened + opened'))) hts
  rw [List.map_map, List.map_map] at hback
  have hleft : Turn.since (opened + opened') ∘ Turn.later opened' = Turn.since opened :=
    funext (Turn.since_later opened opened')
  have hright : Turn.since (opened + opened') ∘ Turn.later opened = Turn.since opened' := by
    rw [Nat.add_comm opened opened']
    exact funext (Turn.since_later opened' opened)
  rwa [hleft, hright] at hback

end Traffic

end LoadSweep
