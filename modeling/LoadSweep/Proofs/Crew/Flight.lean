import LoadSweep.Proofs.Crew.Course
import LoadSweep.Proofs.Crew.Dial

/-!
# `LoadSweep/Proofs/Crew/Flight.lean` — what is begun runs to its end

An attempt and a request are each two entries of the history: one where it begins and one where it
ends. The script fixes the second one from the first (`Entry.ending`): after so many nanoseconds,
with this verdict or that answer, and nothing that happens meanwhile has a say in it, neither the
deadline nor the token. So every attempt and every request of a crew either has its ending in the
history or is the one that its caller waits for (`Crew.Orderly.flight`).

The other half is about beginnings. An attempt is there only if the token was unset just then, a
request only after an attempt of the same caller, and an answer only for a request that was open
(`Lawful`).
-/

set_option autoImplicit false

namespace LoadSweep

/-! ## The entries of a trace, each with what came before it -/

/-- Something holds of every entry of `new` and what came before it, `tr` being there already. -/
def EachOf (P : List Entry → Entry → Prop) (tr : List Entry) : List Entry → Prop
  | [] => True
  | e :: new => P (new ++ tr) e ∧ EachOf P tr new

theorem EachOf.append {P : List Entry → Entry → Prop} {tr new newer : List Entry}
    (h : EachOf P tr new) (h' : EachOf P (new ++ tr) newer) : EachOf P tr (newer ++ new) := by
  induction newer with
  | nil => exact h
  | cons e rest ih =>
    obtain ⟨he, hrest⟩ := h'
    rw [← List.append_assoc] at he
    exact ⟨he, ih hrest⟩

theorem EachOf.split {P : List Entry → Entry → Prop} {tr newer older : List Entry} {e : Entry}
    (h : EachOf P tr (newer ++ e :: older)) : P (older ++ tr) e := by
  induction newer with
  | nil => exact h.1
  | cons _ rest ih => exact ih h.2

theorem EachOf.of_split {P : List Entry → Entry → Prop} {tr new : List Entry}
    (h : ∀ (newer older : List Entry) (e : Entry), new = newer ++ e :: older → P (older ++ tr) e) :
    EachOf P tr new := by
  induction new with
  | nil => trivial
  | cons e rest ih =>
    refine ⟨h [] rest e rfl, ih ?_⟩
    intro newer older x heq
    exact h (e :: newer) older x (by rw [heq, List.cons_append])

/-- An entry is one of the new ones, or one of those that were there. -/
theorem entry_of_append {new tr newer older : List Entry} {e : Entry}
    (h : new ++ tr = newer ++ e :: older) :
    (∃ between, tr = between ++ e :: older ∧ newer = new ++ between) ∨
      ∃ between, new = newer ++ e :: between ∧ older = between ++ tr := by
  obtain ⟨between, rfl, htr⟩ | ⟨between, rfl, hold⟩ := List.append_eq_append_iff.mp h
  · exact .inl ⟨between, htr, rfl⟩
  · cases between with
    | nil => exact .inl ⟨[], hold.symm, by simp⟩
    | cons x rest =>
      obtain ⟨rfl, rfl⟩ := List.cons.inj hold
      exact .inr ⟨rest, rfl, rfl⟩

/-! ## Beginnings and endings -/

/-- What may begin, and what an answer needs. -/
def Lawful (w₀ : World) (older : List Entry) (e : Entry) : Prop :=
  match e.event with
  | .attempted _ => w₀.tokenAfter older = false
  | .asked k _ => ∃ t, ⟨t, .attempted k⟩ ∈ older
  | .answered k _ => pending k older ≠ none
  | .refused .. | .connected _ | .died _ | .cancelled => True

/-- What the end of an attempt looks like. -/
def Verdict.happening (k : Nat) : Verdict → Happening
  | .accepted => .connected k
  | .refused reason => .refused k reason
  | .dies => .died k

/-- The entry that ends an attempt or a request, by the script of the caller. -/
def Entry.ending (scene : Scene) (older : List Entry) (e : Entry) : Option Entry :=
  match e.event with
  | .attempted k =>
    let (takes, verdict) :=
      (scene.script k).dial scene.policy (Dealings.ofHistory older k).attempts
    some ⟨e.instant + takes, verdict.happening k⟩
  | .asked k r =>
    let reply := (scene.script k).replyTo (Dealings.ofHistory older k).requests.length r
    some ⟨e.instant + reply.takes.nanos, .answered k reply.answer⟩
  | .refused .. | .connected _ | .answered .. | .died _ | .cancelled => none

/-- The ending that a caller waits for. -/
def Caller.awaits {σ : Type} (c : Caller σ) : Option Entry :=
  match c.stage with
  | .attempting due verdict => some ⟨due, verdict.happening c.who⟩
  | .talking _ _ due reply => some ⟨due, .answered c.who reply.answer⟩
  | .fresh | .resting _ | .settled _ | .ended _ => none

theorem attempted_of_dealings {k : Nat} {tr : List Entry}
    (h : (Dealings.ofHistory tr k).attempts ≠ 0) : ∃ t, ⟨t, .attempted k⟩ ∈ tr := by
  induction tr with
  | nil => exact absurd rfl h
  | cons e rest ih =>
    rw [Dealings.ofHistory_cons] at h
    by_cases he : e.event = .attempted k
    · exact ⟨e.instant, by rw [← he]; exact List.mem_cons_self⟩
    · have hrest : (Dealings.ofHistory rest k).attempts ≠ 0 := by
        obtain ⟨u, c | _ | c | ⟨c, _ | _ | _⟩ | _ | _ | _⟩ := e <;>
          simp only [Dealings.follow, Dealings.caller_ofHistory] at h <;>
          (try split at h) <;> simp_all
      obtain ⟨t, ht⟩ := ih hrest
      exact ⟨t, List.mem_cons_of_mem _ ht⟩

theorem connected_of_dealings {k : Nat} {tr : List Entry}
    (h : (Dealings.ofHistory tr k).connected = true) : ∃ t, ⟨t, .connected k⟩ ∈ tr := by
  induction tr with
  | nil => simp [Dealings.ofHistory, Dealings.none] at h
  | cons e rest ih =>
    rw [Dealings.ofHistory_cons] at h
    by_cases he : e.event = .connected k
    · exact ⟨e.instant, by rw [← he]; exact List.mem_cons_self⟩
    · have hrest : (Dealings.ofHistory rest k).connected = true := by
        obtain ⟨u, c | _ | c | ⟨c, _ | _ | _⟩ | _ | _ | _⟩ := e <;>
          simp only [Dealings.follow, Dealings.caller_ofHistory] at h <;>
          (try split at h) <;> simp_all
      obtain ⟨t, ht⟩ := ih hrest
      exact ⟨t, List.mem_cons_of_mem _ ht⟩

theorem length_requestsOf (ts : List Turn) :
    ((requestsOf ts none).filter (· ≠ .ping)).length = weightOf ts := by
  induction ts with
  | nil => rfl
  | cons x rest ih =>
    have hsnoc : requestsOf (x :: rest) none = requestsOf rest none ++ [x.request] := by
      simp [requestsOf]
    rw [hsnoc, List.filter_append, List.length_append, ih, weightOf_cons]
    cases x.request <;> simp [Request.weight, Nat.add_comm]

namespace Caller

variable {σ : Type} {scene : Scene} {job : Job σ} {gate : Gate} {i : Nat} {w w' w₀ : World}
  {c c' : Caller σ} {tr new : List Entry} {ts : List Turn}

/-- An entry that a caller adds is lawful, and if it begins something the caller waits for its
end. -/
def Begins (scene : Scene) (w₀ : World) (c : Caller σ) (older : List Entry) (e : Entry) : Prop :=
  Lawful w₀ older e ∧ ∀ x, e.ending scene older = some x → c.awaits = some x

/-- Entries that neither begin nor answer anything. -/
theorem begins_of_mark {older : List Entry} {e : Entry}
    (h : ∀ k, e.event ≠ .attempted k ∧ ∀ r a, e.event ≠ .asked k r ∧ e.event ≠ .answered k a) :
    c.Begins scene w₀ older e := by
  obtain ⟨t, k | _ | _ | ⟨k, r⟩ | ⟨k, a⟩ | _ | _⟩ := e
  · exact absurd rfl (h k).1
  · exact ⟨trivial, by simp [Entry.ending]⟩
  · exact ⟨trivial, by simp [Entry.ending]⟩
  · exact absurd rfl ((h k).2 r .dies).1
  · exact absurd rfl ((h k).2 .ping a).2
  · exact ⟨trivial, by simp [Entry.ending]⟩
  · exact ⟨trivial, by simp [Entry.ending]⟩

theorem tolled_begins (w : World) (sets : Bool) (t : Nat) :
    EachOf (c.Begins scene w₀) tr ((w.tolled sets).map (Entry.mk t)) := by
  have hall : ∀ es : List Happening, (∀ e ∈ es, e = .cancelled) →
      EachOf (c.Begins scene w₀) tr (es.map (Entry.mk t)) := by
    intro es hes
    induction es with
    | nil => trivial
    | cons e rest ih =>
      obtain ⟨rfl, hrest⟩ := List.forall_mem_cons.mp hes
      exact ⟨begins_of_mark (by simp), ih hrest⟩
  exact hall _ fun e he => w.mem_tolled he

theorem Shows.attempted (h : c.Shows tr ts none) : ∃ t, ⟨t, .attempted c.who⟩ ∈ tr := by
  refine attempted_of_dealings ?_
  have hcount := congrArg (fun sh => sh.dealings.attempts) h.share
  replace hcount : (Dealings.ofHistory tr c.who).attempts = c.reasons.length + 1 := hcount
  rw [hcount]
  exact Nat.succ_ne_zero _

theorem Shows.length_requests (h : c.Shows tr ts none) :
    (Dealings.ofHistory tr c.who).requests.length = c.sent := by
  have hlen : (Dealings.ofHistory tr c.who).requests.length
      = ((requestsOf ts none).filter (· ≠ .ping)).length :=
    congrArg (fun sh => sh.dealings.requests.length) h.share
  have hsent := h.sent
  rw [hlen, length_requestsOf]
  simpa using hsent.symm

/-- At a check the caller adds a request, its death or nothing. -/
theorem Shows.proceed_begins {s : σ} (h : c.Shows tr ts none) (ht : Traces w₀ tr w)
    (ht' : Traces w₀ (new ++ tr) (c.proceed scene job w s).1) :
    EachOf ((c.proceed scene job w s).2.Begins scene w₀) tr new := by
  rw [proceed_eq] at ht' ⊢
  split at ht'
  · obtain rfl := List.append_left_eq_self.mp (ht.unique ht')
    trivial
  · obtain rfl := List.append_cancel_right ((ht.after _).unique ht')
    exact ⟨begins_of_mark (by simp), trivial⟩
  · rename_i r s' hask
    obtain rfl := List.append_cancel_right ((ht.after _).unique ht')
    refine ⟨⟨h.attempted, ?_⟩, trivial⟩
    intro x hx
    rw [← hx]
    simp only [Entry.ending, List.map_nil, List.nil_append, h.length_requests]
    rfl

/-- **What an act adds is lawful, the end of what the caller waited for is part of it, and what it
begins the caller waits for.** -/
theorem Acts.begins (h : Acts scene job gate i w c w' c') (ha : c.Agrees scene job w₀ gate i tr)
    (hdue : c.due w gate = some w.now) (htime : c.Timed w₀.now w.now gate) (ht : Traces w₀ tr w)
    (hmet : ∀ e ∈ tr, ∀ k, e.event.caller? = some k → k < w.met)
    (ht' : Traces w₀ (new ++ tr) w') :
    EachOf (c'.Begins scene w₀) tr new ∧ ∀ x, c.awaits = some x → x ∈ new := by
  have hdial : c.MayDial → c.awaits = none ∧ c.Dials tr c.reasons.length false := by
    rintro (hs | ⟨due, hs⟩)
    · exact ⟨by rw [awaits, hs], by simpa [Agrees, hs] using ha⟩
    · exact ⟨by rw [awaits, hs], by simpa [Agrees, hs] using ha⟩
  have hends : ∀ {due : Nat} {verdict : Verdict} {e : Happening},
      c.stage = .attempting due verdict → e = verdict.happening c.who →
      ∀ x, c.awaits = some x → x ∈ [Entry.mk w.now e] := by
    intro due verdict e hs he x hx
    obtain rfl : due = w.now := by simpa [Caller.due, hs] using hdue
    simp only [awaits, hs, Option.some.injEq] at hx
    rw [← hx, he]
    exact List.mem_singleton_self _
  have hanswers : ∀ {state : σ} {sent due : Nat} {reply : Reply},
      c.stage = .talking state sent due reply →
      ∀ x, c.awaits = some x → x = ⟨w.now, .answered c.who reply.answer⟩ := by
    intro state sent due reply hs x hx
    obtain rfl : due = w.now := by simpa [Caller.due, hs] using hdue
    simpa [awaits, hs, eq_comm] using hx
  -- an answer finds its request open, since only the token comes between
  have hopen : ∀ {state : σ} {sent due : Nat} {reply : Reply} (d : Caller σ),
      c.stage = .talking state sent due reply →
      EachOf (d.Begins scene w₀) tr
        ((.answered c.who reply.answer :: w.tolled reply.cancels).map (Entry.mk w.now)) := by
    intro state sent due reply d hs
    refine ⟨⟨?_, by simp [Entry.ending]⟩, tolled_begins w _ _⟩
    rw [Agrees, hs] at ha
    obtain ⟨ts, s₀, token, r, hshow, -⟩ := ha
    have hquiet := hshow.append fun e he k _ => not_about_tolled w reply.cancels w.now e he
    have hpending := congrArg Share.pending hquiet.share
    show pending c.who _ ≠ none
    rw [show pending c.who _ = some (sent, r) from hpending]
    exact Option.some_ne_none _
  cases h with
  | exhausted h | calledOff h =>
    obtain rfl := List.append_left_eq_self.mp (ht.unique ht')
    exact ⟨trivial, by simp [(hdial h).1]⟩
  | started h _ clear takes verdict sets ends =>
    obtain rfl := List.append_cancel_right ((traces_enrol ht c _).unique ht')
    rw [List.map_append]
    refine ⟨EachOf.append ⟨⟨?_, ?_⟩, trivial⟩ (tolled_begins w _ _), by simp [(hdial h).1]⟩
    · show w₀.tokenAfter tr = false
      rw [← ht.token]
      exact clear
    · intro x hx
      -- this is the attempt that the caller has come to
      have hcount : (Dealings.ofHistory tr (enrol w c).2.who).attempts = c.reasons.length := by
        have hshare := ((hdial h).2.enrol hmet).share _ (enrol_number w c)
        exact congrArg (fun sh => sh.dealings.attempts) hshare
      simp only [Entry.ending, List.map_nil, List.nil_append, hcount] at hx
      rw [show (scene.script (enrol w c).2.who).dial scene.policy c.reasons.length
        = (takes, verdict) from ends] at hx
      exact hx
  | accepted h | refused h | refusedLast h | perished h =>
    obtain rfl := List.append_cancel_right ((ht.after _).unique ht')
    exact ⟨⟨begins_of_mark (by simp), trivial⟩, hends h rfl⟩
  | turnedAway h =>
    obtain rfl := List.append_left_eq_self.mp (ht.unique ht')
    exact ⟨trivial, by simp [awaits, h]⟩
  | entered h hg =>
    obtain ⟨hshow, -⟩ := ha.entered h hg htime
    exact ⟨hshow.proceed_begins ht ht', by simp [awaits, h]⟩
  | heard h ho wa hwa =>
    obtain ⟨ts, hshow, -⟩ := ha.heard h hdue ho
    subst hwa
    obtain ⟨more, rfl, htraces, hnext⟩ := traces_proceed ht _ ht'
    refine ⟨(hopen _ h).append (hshow.proceed_begins htraces hnext), ?_⟩
    intro x hx
    rw [hanswers h x hx]
    exact List.mem_append_right _ List.mem_cons_self
  | choked h ho =>
    rename_i state sent due reply
    obtain rfl := List.append_cancel_right ((ht.after _).unique ht')
    have hanswer := hopen (c.depart (.died (some state))) h
    rw [ho] at hanswer
    refine ⟨⟨begins_of_mark (by simp), hanswer⟩, ?_⟩
    intro x hx
    rw [hanswers h x hx, ho]
    exact List.mem_cons_of_mem _ List.mem_cons_self
  | idle h =>
    obtain rfl := List.append_left_eq_self.mp (ht.unique ht')
    exact ⟨trivial, by simp [awaits, h]⟩

end Caller

/-! ## The whole crew -/

namespace Crew

variable {σ : Type} {scene : Scene} {w₀ w w' : World} {crew crew₀ crew' : Crew σ} {tr : List Entry}

/-- Every entry of the history is lawful, and what began has ended or is under way. -/
structure Orderly (scene : Scene) (w₀ : World) (tr : List Entry) (crew : Crew σ) : Prop where
  lawful : ∀ (newer older : List Entry) (e : Entry), tr = newer ++ e :: older → Lawful w₀ older e
  flight : ∀ (newer older : List Entry) (e x : Entry), tr = newer ++ e :: older →
    e.ending scene older = some x → x ∈ newer ∨ ∃ c ∈ crew.callers, c.awaits = some x

/-- One caller adds its entries, and the others wait on. -/
theorem Orderly.extend (h : crew.Orderly scene w₀ tr) {new : List Entry} {c : Caller σ}
    (hnew : EachOf (c.Begins scene w₀) tr new) (hc : ∀ x, c.awaits = some x → c ∈ crew'.callers)
    (hold : ∀ d ∈ crew.callers, ∀ x, d.awaits = some x → x ∈ new ∨ d ∈ crew'.callers) :
    crew'.Orderly scene w₀ (new ++ tr) where
  lawful := by
    intro newer older e heq
    obtain ⟨between, htr, -⟩ | ⟨between, rfl, rfl⟩ := entry_of_append heq
    · exact h.lawful between older e htr
    · exact hnew.split.1
  flight := by
    intro newer older e x heq hx
    obtain ⟨between, htr, rfl⟩ | ⟨between, rfl, rfl⟩ := entry_of_append heq
    · obtain hmem | ⟨d, hd, hawaits⟩ := h.flight between older e x htr hx
      · exact .inl (List.mem_append_right _ hmem)
      · obtain hmem | hstill := hold d hd x hawaits
        · exact .inl (List.mem_append_left _ hmem)
        · exact .inr ⟨d, hstill, hawaits⟩
    · have hawaits := hnew.split.2 x hx
      exact .inr ⟨c, hc x hawaits, hawaits⟩

theorem Orderly.step (h : crew.Orderly scene w₀ tr) (hf : crew.Faithful scene w₀ tr w)
    (hs : Step scene w crew w' crew') :
    ∃ new, crew'.Faithful scene w₀ (new ++ tr) w' ∧ crew'.Orderly scene w₀ (new ++ tr) := by
  obtain ⟨new, hf'⟩ := hf.step hs
  refine ⟨new, hf', ?_⟩
  cases hs with
  | wait =>
    have hsame : new ++ tr = tr := hf.traces.unique (hf'.traces.congr rfl rfl)
    rw [hsame]
    exact h
  | cancel =>
    have hcancel := hf.traces.after w.cancelling
    rw [← World.cancel_eq] at hcancel
    obtain rfl := List.append_cancel_right (hcancel.unique hf'.traces)
    -- the token is nobody's entry, least of all of a caller that waits for something
    refine h.extend (c := .fresh) (Caller.tolled_begins w true w.now) ?_ fun d hd _ _ => .inr hd
    simp [Caller.awaits, Caller.fresh]
  | @act i c hc hdue =>
    obtain ⟨hbegins, hended⟩ := (Caller.act_acts scene crew.job crew.gate i w c).begins
      (hf.agrees i c hc) hdue (hf.timed c (List.mem_of_getElem? hc)) hf.traces
      (fun e he k hk => (hf.heard_range he hk).2) hf'.traces
    refine h.extend hbegins (fun _ _ => mem_set_self hc _) ?_
    intro d hd x hx
    obtain hstill | rfl := mem_set_or_eq hc hd _
    · exact .inr hstill
    · exact .inl (hended x hx)
  | pass =>
    obtain rfl := List.append_left_eq_self.mp (hf.traces.unique hf'.traces)
    exact { h with }

/-- **Every reached state is orderly.** -/
theorem Reaches.orderly (hs : crew₀.Starts w₀) (h : Reaches scene w₀ crew₀ w crew) :
    crew.Orderly scene w₀ (w.since w₀) := by
  suffices ∃ tr, crew.Faithful scene w₀ tr w ∧ crew.Orderly scene w₀ tr by
    obtain ⟨tr, hf, ho⟩ := this
    rwa [hf.traces.since_eq]
  induction h with
  | start => exact ⟨[], hs.faithful, { lawful := by simp, flight := by simp }⟩
  | step _ s ih =>
    obtain ⟨tr, hf, ho⟩ := ih
    obtain ⟨new, hf', ho'⟩ := ho.step hf s
    exact ⟨_, hf', ho'⟩

/-- When nothing is left to do, everything that began has ended. -/
theorem Orderly.landed (h : crew.Orderly scene w₀ tr) (hdone : crew.Done w)
    {newer older : List Entry} {e x : Entry} (heq : tr = newer ++ e :: older)
    (hx : e.ending scene older = some x) : x ∈ newer := by
  obtain hmem | ⟨c, hc, hawaits⟩ := h.flight newer older e x heq hx
  · exact hmem
  · obtain ⟨how, hend⟩ := hdone.ended hc
    simp [Caller.awaits, hend] at hawaits

end Crew

end LoadSweep
