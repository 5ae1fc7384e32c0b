import LoadSweep.Proofs.Budget
import LoadSweep.Proofs.Dialling

/-!
# `LoadSweep/Proofs/Rations.lean` — how much one caller asks of a server

The loops of the harness have no counters, and yet a server knows how often a caller comes. Attempts
are limited by the policy, since a caller only starts one that its schedule has
(`Crew.Reaches.attempts_le`). What a caller sends is limited by its job (`Job.Capped`): whoever still
sends has sent less than so much before. A list of questions, the keys of a preload, and a window in
which every request takes a millisecond are three reasons for such a limit, and one argument about
the stages of a caller serves all of them (`Crew.Reaches.asks_le`).
-/

set_option autoImplicit false

namespace LoadSweep

/-! ## Attempts -/

/-- The attempts of a history that is on time are as many as the policy has, at most. -/
theorem attempts_le_of_timely {scene : Scene} {w₀ : World} {tr : List Entry}
    (h : EachOf (fun older e => e.Timely scene w₀ older) [] tr) (k : Nat) :
    (Dealings.ofHistory tr k).attempts ≤ scene.policy.tries := by
  induction tr with
  | nil => exact Nat.zero_le _
  | cons e rest ih =>
    obtain ⟨he, hrest⟩ := h
    rw [attempts_cons]
    split
    · rename_i hattempt
      rw [List.append_nil, Entry.Timely, hattempt] at he
      exact he.1
    · exact ih hrest

/-- **No caller tries more often than the policy has tries.** -/
theorem Crew.Reaches.attempts_le {σ : Type} {scene : Scene} {w₀ w : World} {crew₀ crew : Crew σ}
    (hs : crew₀.Starts w₀) (h : Crew.Reaches scene w₀ crew₀ w crew) (k : Nat) :
    (Dealings.ofHistory (w.since w₀) k).attempts ≤ scene.policy.tries :=
  attempts_le_of_timely (h.punctual hs).timely k

/-! ## What a caller sends -/

/-- How much a caller has sent: its pings and its requests. -/
def Dealings.asks (d : Dealings) : Nat := d.pings + d.requests.length

theorem Dealings.asks_of_share {k n : Nat} {connected : Bool} {ts : List Turn}
    {waiting : Option (Nat × Request)} {tr : List Entry}
    (h : share k tr = .made k n connected ts waiting) :
    (Dealings.ofHistory tr k).asks = ts.length + waiting.toList.length := by
  have hdealings : Dealings.ofHistory tr k = _ := congrArg Share.dealings h
  have hlength : (requestsOf ts waiting).length = ts.length + waiting.toList.length := by
    simp [requestsOf]
  rw [hdealings, ← hlength, List.length_eq_countP_add_countP (· = .ping)]
  simp [asks, Share.made, ← List.countP_eq_length_filter]

/-- Who does this job and still sends has had less than `n` turns. -/
def Job.Capped {σ : Type} (job : Job σ) (scene : Scene) (n : Nat) : Prop :=
  ∀ (k i opened start t : Nat) (ts : List Turn) (s s' : σ) (token : Bool) (r : Request),
    opened ≤ start → job.Course (scene.script k) i opened start ts s t →
    job.ask t token s = .send r s' → ts.length < n

theorem Job.Capped.length_le {σ : Type} {job : Job σ} {scene : Scene} {n k i opened start t : Nat}
    {ts : List Turn} {s : σ} (h : job.Capped scene n) (hle : opened ≤ start)
    (hc : job.Course (scene.script k) i opened start ts s t) : ts.length ≤ n := by
  cases hc with
  | enter => exact Nat.zero_le n
  | turn hprev hask => exact h _ _ _ _ _ _ _ _ _ _ hle hprev hask

/-- Whatever the stage of a caller, it has sent no more than its job allows. -/
theorem Caller.asks_of_agrees {σ : Type} {job : Job σ} {scene : Scene} {w₀ : World} {gate : Gate}
    {i n k : Nat} {c : Caller σ} {tr : List Entry} (hcap : job.Capped scene n)
    (h : c.Agrees scene job w₀ gate i tr) (hk : c.number = some k) :
    (Dealings.ofHistory tr k).asks ≤ n := by
  have hdials : ∀ {a : Nat} {connected : Bool}, c.Dials tr a connected →
      (Dealings.ofHistory tr k).asks ≤ n := by
    intro a connected hd
    rw [Dealings.asks_of_share (hd.share k hk)]
    exact Nat.zero_le n
  have hshows : ∀ {ts : List Turn} {waiting : Option (Nat × Request)}, c.Shows tr ts waiting →
      ts.length + waiting.toList.length ≤ n → (Dealings.ofHistory tr k).asks ≤ n := by
    intro ts waiting hshow hle
    have hshare := hshow.share
    rw [who_eq hk] at hshare
    rw [Dealings.asks_of_share hshare]
    exact hle
  -- the turns that a caller has had, and one more if it goes on
  have hrested : ∀ {ts : List Turn} {s : σ} {t : Nat}, c.Came scene job gate i ts s t →
      ts.length ≤ n := fun ⟨_, _, hcourse⟩ => hcap.length_le (Nat.le_max_left _ _) hcourse
  have hasked : ∀ {ts : List Turn} {s s' : σ} {t : Nat} {token : Bool} {r : Request},
      c.Came scene job gate i ts s t → job.ask t token s = .send r s' → ts.length + 1 ≤ n :=
    fun ⟨_, _, hcourse⟩ hask => hcap _ _ _ _ _ _ _ _ _ _ (Nat.le_max_left _ _) hcourse hask
  unfold Agrees at h
  cases hstage : c.stage with
  | fresh | attempting | resting | settled =>
    simp only [hstage] at h
    exact hdials h
  | talking =>
    simp only [hstage] at h
    obtain ⟨ts, s₀, token, r, hshow, hcame, hask, -⟩ := h
    exact hshows hshow (hasked hcame hask)
  | ended how =>
    simp only [hstage] at h
    cases how with
    | served =>
      obtain ⟨ts, s₀, t, seen, hshow, hcame, -⟩ := h
      exact hshows hshow (hrested hcame)
    | unserved => exact hdials h.1
    | died state =>
      cases state with
      | none => exact hdials h.1
      | some =>
        obtain ⟨-, ts, s₀, t, token, hcame, ⟨hshow, hask, -⟩ | ⟨r, hshow, hask, -⟩⟩ := h
        · exact hshows hshow (hrested hcame)
        · exact hshows hshow (hasked hcame hask)

/-- **No caller sends more than its job allows**, in any state that is reached. -/
theorem Crew.Reaches.asks_le {σ : Type} {scene : Scene} {w₀ w : World} {crew₀ crew : Crew σ}
    {n : Nat} (hs : crew₀.Starts w₀) (h : Crew.Reaches scene w₀ crew₀ w crew)
    (hcap : crew₀.job.Capped scene n) (k : Nat) :
    (Dealings.ofHistory (w.since w₀) k).asks ≤ n := by
  have hf := h.faithful hs
  by_cases hheard : ∃ e ∈ w.since w₀, e.event.caller? = some k
  · obtain ⟨e, he, hcaller⟩ := hheard
    obtain ⟨c, hc, hk⟩ := hf.heard e he k hcaller
    obtain ⟨i, ha⟩ := hf.agrees_of_mem hc
    rw [h.job_eq.1] at ha
    exact Caller.asks_of_agrees hcap ha hk
  · have habsent := share_of_absent fun e he hcaller => hheard ⟨e, he, hcaller⟩
    rw [Dealings.asks_of_share habsent]
    exact Nat.zero_le n

/-! ## Three reasons to stop -/

/-- Each question is asked once. -/
theorem Questions.capped (scene : Scene) (requests : List Request) :
    (job requests).Capped scene requests.length := by
  intro k i opened start t ts s s' token r _ hcourse hask
  have hleft := course_left hcourse
  rw [(of_send hask).1, List.length_cons] at hleft
  omega

/-- As long as nothing has failed, every turn has loaded a key. -/
theorem Preload.course_length {keys : KeySpace} {valueSize every : Nat} {script : Script}
    {i opened start t : Nat} {ts : List Turn} {p : Preload}
    (h : (job keys valueSize every).Course script i opened start ts p t) (hp : p.fault = none) :
    ts.length = p.loaded := by
  induction h with
  | enter => rfl
  | @turn ts p p' t token r outcome _ hask _ ih =>
    obtain ⟨hfault, rfl, -⟩ := of_send hask
    cases outcome with
    | error fault => simp [job] at hp
    | ok value =>
      rw [List.length_cons, ih hfault]
      rfl

/-- Each key is loaded once. -/
theorem Preload.capped (scene : Scene) (keys : KeySpace) (valueSize every : Nat) :
    (job keys valueSize every).Capped scene keys.size := by
  intro k i opened start t ts p p' token r _ hcourse hask
  obtain ⟨hfault, rfl, key, hkey, -⟩ := of_send hask
  rw [course_length hcourse hfault]
  exact (Array.getElem?_eq_some_iff.mp hkey).1

/-- The milliseconds of a duration, rounded up. -/
def Duration.ceilMillis (d : Duration) : Nat := (d.nanos + (nanosPerMilli - 1)) / nanosPerMilli

/-- Every request takes a millisecond or more. -/
def Scene.Unhurried (scene : Scene) : Prop :=
  ∀ k n, Duration.nanosPerMilli ≤ ((scene.script k).reply n).takes.nanos

theorem Scene.Unhurried.paced {scene : Scene} (h : scene.Unhurried) : scene.Paced :=
  fun k n => Nat.lt_of_lt_of_le (by decide) (h k n)

theorem Scene.Unhurried.exhausts {scene : Scene} (h : scene.Unhurried) (k : Nat)
    (window : Duration) : (scene.script k).Exhausts window window.ceilMillis :=
  .inr (Nat.le_trans window.nanos_le_wait (Script.mul_le_spent (h k) _))

/-- A window has room for as many requests as it has milliseconds. -/
theorem Traffic.capped {scene : Scene} (h : scene.Unhurried) (keys : KeySpace)
    {request : String → Request} (hreq : ∀ key, request key ≠ .ping) (window : Duration)
    (seed : Nat → Nat) : (job keys request window seed).Capped scene window.ceilMillis := by
  intro k i opened start t ts s s' token r hle hcourse hask
  exact length_lt_of_exhausts hreq hle hcourse hask (h.exhausts k window)

end LoadSweep
