import LoadSweep.Harness.Dealings

/-!
# `LoadSweep/Proofs/Trace.lean` — reading a history back

A statement about a run is a statement about its history. A phase adds to a history that is
already there, so `World.since` is the part that was added, and everything below is read off such
a part. It is newest first, as the history itself.

Of one caller a trace shows three things: its dealings (`Dealings.ofHistory`), its **turns** — the
requests that were answered, each with the two instants and the answer — and the request that is
still open. Together they are the caller's **share** of the trace. What the other callers do, and
the token, leave the share as it is (`share_append`), and this is what lets an invariant of one
caller survive the steps of all others.
-/

set_option autoImplicit false

namespace LoadSweep

/-! ## What a happening is about -/

/-- The caller that a happening is about. -/
def Happening.caller? : Happening → Option Nat
  | .attempted k | .refused k _ | .connected k | .asked k _ | .answered k _ | .died k => some k
  | .cancelled => none

/-- What happened since an earlier world, newest first. -/
def World.since (w start : World) : List Entry :=
  w.history.take (w.history.length - start.history.length)

theorem World.since_eq {w start : World} {tr : List Entry}
    (h : w.history = tr ++ start.history) : w.since start = tr := by
  rw [World.since, h, List.length_append, Nat.add_sub_cancel, List.take_left]

/-- Whether the token is set after a trace that began in `start`. -/
def World.tokenAfter (start : World) (tr : List Entry) : Bool :=
  start.token || tr.any (·.event = .cancelled)

/-- The token has been set: it was from the beginning, or the trace says when. -/
theorem World.tokenAfter_iff {start : World} {tr : List Entry} :
    start.tokenAfter tr = true ↔ start.token = true ∨ ∃ t, ⟨t, .cancelled⟩ ∈ tr := by
  simp only [tokenAfter, Bool.or_eq_true, List.any_eq_true, decide_eq_true_eq]
  refine or_congr_right ⟨?_, ?_⟩
  · rintro ⟨⟨t, e⟩, hmem, he⟩
    exact ⟨t, he ▸ hmem⟩
  · rintro ⟨t, hmem⟩
    exact ⟨_, hmem, rfl⟩

theorem World.tokenAfter_mono {start : World} {older tr : List Entry} (hs : older <:+ tr)
    (h : start.tokenAfter older = true) : start.tokenAfter tr = true := by
  rw [tokenAfter_iff] at h ⊢
  exact h.imp_right fun ⟨t, ht⟩ => ⟨t, hs.subset ht⟩

theorem World.tokenAfter_append (start : World) (newer older : List Entry) :
    start.tokenAfter (newer ++ older)
      = (start.tokenAfter older || newer.any (·.event = .cancelled)) := by
  simp only [tokenAfter, List.any_append]
  cases start.token <;> cases newer.any _ <;> simp

/-! ## Turns -/

/-- A request that was answered. -/
structure Turn where
  request : Request
  /-- The instant at which it was sent. -/
  sent : Nat
  /-- The instant at which the answer arrived. -/
  heard : Nat
  answer : Answer
  deriving DecidableEq, Repr

/-- The request of a caller that has no answer yet, and the instant at which it was sent. -/
def pending (k : Nat) : List Entry → Option (Nat × Request)
  | [] => none
  | e :: rest =>
    match e.event with
    | .asked c r => if c = k then some (e.instant, r) else pending k rest
    | .answered c _ => if c = k then none else pending k rest
    | _ => pending k rest

/-- The turns of a caller, newest first. -/
def turns (k : Nat) : List Entry → List Turn
  | [] => []
  | e :: rest =>
    match e.event with
    | .answered c a =>
      if c = k then
        match pending k rest with
        | some (sent, r) => ⟨r, sent, e.instant, a⟩ :: turns k rest
        | none => turns k rest
      else turns k rest
    | _ => turns k rest

theorem mem_of_pending {k t : Nat} {r : Request} {tr : List Entry}
    (h : pending k tr = some (t, r)) : ⟨t, .asked k r⟩ ∈ tr := by
  induction tr with
  | nil => simp [pending] at h
  | cons e rest ih =>
    obtain ⟨u, e⟩ := e
    unfold pending at h
    split at h
    · split at h
      · rename_i c r' he hck
        obtain ⟨rfl, rfl⟩ := Prod.mk.inj (Option.some.inj h)
        obtain rfl : e = _ := he
        subst hck
        exact List.mem_cons_self
      · exact List.mem_cons_of_mem _ (ih h)
    · split at h
      · simp at h
      · exact List.mem_cons_of_mem _ (ih h)
    · exact List.mem_cons_of_mem _ (ih h)

theorem mem_turns_cons {k : Nat} {x : Turn} {e : Entry} {older : List Entry}
    (h : x ∈ turns k (e :: older)) : x ∈ turns k older ∨
      e = ⟨x.heard, .answered k x.answer⟩ ∧ pending k older = some (x.sent, x.request) := by
  obtain ⟨t, e⟩ := e
  unfold turns at h
  split at h
  · rename_i c a he
    obtain rfl : e = _ := he
    split at h
    · rename_i hc
      subst hc
      split at h
      · rename_i hpending
        rcases List.mem_cons.mp h with rfl | h
        · exact .inr ⟨rfl, hpending⟩
        · exact .inl h
      · exact .inl h
    · exact .inl h
  · exact .inl h

theorem mem_of_mem_turns {k : Nat} {x : Turn} {tr : List Entry} (h : x ∈ turns k tr) :
    ⟨x.sent, .asked k x.request⟩ ∈ tr ∧ ⟨x.heard, .answered k x.answer⟩ ∈ tr := by
  induction tr with
  | nil => simp [turns] at h
  | cons e older ih =>
    obtain hx | ⟨rfl, hpending⟩ := mem_turns_cons h
    · obtain ⟨hsent, hheard⟩ := ih hx
      exact ⟨List.mem_cons_of_mem _ hsent, List.mem_cons_of_mem _ hheard⟩
    · exact ⟨List.mem_cons_of_mem _ (mem_of_pending hpending), List.mem_cons_self⟩

/-- What is asked for is answered or open, and neither is taken back. -/
theorem asks_mono {k : Nat} {older tr : List Entry} (h : older <:+ tr) :
    (turns k older).length + (pending k older).toList.length
      ≤ (turns k tr).length + (pending k tr).toList.length := by
  obtain ⟨newer, rfl⟩ := h
  induction newer with
  | nil => exact Nat.le_refl _
  | cons e rest ih =>
    refine Nat.le_trans ih ?_
    rw [List.cons_append]
    obtain ⟨t, c | _ | c | ⟨c, r⟩ | ⟨c, a⟩ | _ | _⟩ := e
    case asked =>
      by_cases hc : c = k
      · cases pending k (rest ++ older) <;> simp [turns, pending, hc]
      · simp [turns, pending, hc]
    case answered =>
      by_cases hc : c = k
      · cases hp : pending k (rest ++ older) <;> simp [turns, pending, hc, hp]
      · simp [turns, pending, hc]
    all_goals simp [turns, pending]

/-- Who has no open request and asks for nothing more has no more turns. -/
theorem turns_of_unasked {k : Nat} {newer older : List Entry} (hp : pending k older = none)
    (h : ∀ e ∈ newer, ∀ r, e.event ≠ .asked k r) :
    pending k (newer ++ older) = none ∧ turns k (newer ++ older) = turns k older := by
  induction newer with
  | nil => exact ⟨hp, rfl⟩
  | cons e rest ih =>
    obtain ⟨hp', ht'⟩ := ih fun x hx => h x (List.mem_cons_of_mem _ hx)
    have hfirst := h e List.mem_cons_self
    obtain ⟨t, c | _ | c | ⟨c, r⟩ | ⟨c, a⟩ | _ | _⟩ := e
    case asked =>
      have hc : c ≠ k := by
        rintro rfl
        exact hfirst r rfl
      simp [turns, pending, hc, hp', ht']
    case answered =>
      by_cases hc : c = k <;> simp [turns, pending, hc, hp', ht']
    all_goals simp [turns, pending, hp', ht']

/-! ## Dealings, read forwards

`Dealings.ofHistory` folds a history from its newest entry to its oldest, so that what it adds
comes *before* what it has. A trace grows at the other end. The two ways of adding commute, and
therefore a new entry can be added to the dealings that are there. -/

/-- Notes a happening that comes *after* everything noted so far. -/
def Dealings.follow (d : Dealings) (e : Happening) : Dealings :=
  match e with
  | .attempted c => if c = d.caller then { d with attempts := d.attempts + 1 } else d
  | .connected c => if c = d.caller then { d with connected := true } else d
  | .asked c .ping => if c = d.caller then { d with pings := d.pings + 1 } else d
  | .asked c request =>
    if c = d.caller then { d with requests := d.requests ++ [request] } else d
  | .refused .. | .answered .. | .died _ | .cancelled => d

theorem Dealings.precede_follow (d : Dealings) (a b : Happening) :
    (d.follow a).precede b = (d.precede b).follow a := by
  -- only requests are kept in their order, and the two ways add them at opposite ends
  rcases a with k | _ | k | ⟨k, _ | _ | _⟩ | _ | _ | _ <;>
    rcases b with j | _ | j | ⟨j, _ | _ | _⟩ | _ | _ | _ <;>
    (try by_cases hk : k = d.caller) <;> (try by_cases hj : j = d.caller) <;>
    simp [follow, precede, *]

theorem Dealings.foldl_follow (a : Happening) (history : List Entry) (d : Dealings) :
    history.foldl (fun d e => d.precede e.event) (d.follow a)
      = (history.foldl (fun d e => d.precede e.event) d).follow a := by
  induction history generalizing d with
  | nil => rfl
  | cons e rest ih => rw [List.foldl_cons, List.foldl_cons, precede_follow, ih]

theorem Dealings.ofHistory_cons (e : Entry) (history : List Entry) (k : Nat) :
    Dealings.ofHistory (e :: history) k = (Dealings.ofHistory history k).follow e.event := by
  have hfirst : (Dealings.none k).precede e.event = (Dealings.none k).follow e.event := by
    rcases e with ⟨t, c | _ | c | ⟨c, _ | _ | _⟩ | _ | _ | _⟩ <;> rfl
  rw [ofHistory, List.foldl_cons, hfirst, foldl_follow]
  rfl

theorem Dealings.caller_follow (d : Dealings) (e : Happening) : (d.follow e).caller = d.caller := by
  rcases e with k | _ | k | ⟨k, _ | _ | _⟩ | _ | _ | _ <;> simp only [follow] <;> split <;> rfl

theorem Dealings.caller_ofHistory (history : List Entry) (k : Nat) :
    (Dealings.ofHistory history k).caller = k := by
  induction history with
  | nil => rfl
  | cons e rest ih => rw [ofHistory_cons, caller_follow, ih]

theorem Dealings.connected_of_mem {k t : Nat} {tr : List Entry} (h : ⟨t, .connected k⟩ ∈ tr) :
    (Dealings.ofHistory tr k).connected = true := by
  induction tr with
  | nil => simp at h
  | cons e rest ih =>
    rw [ofHistory_cons]
    rcases List.mem_cons.mp h with rfl | h
    · simp [follow, caller_ofHistory]
    · have := ih h
      obtain ⟨u, c | _ | c | ⟨c, _ | _ | _⟩ | _ | _ | _⟩ := e <;> simp only [follow] <;>
        (try split) <;> first | exact this | rfl

/-! ## The share of a caller -/

/-- What a trace shows of one caller. -/
structure Share where
  dealings : Dealings
  pending : Option (Nat × Request)
  /-- Newest first. -/
  turns : List Turn

def share (k : Nat) (tr : List Entry) : Share :=
  { dealings := Dealings.ofHistory tr k, pending := pending k tr, turns := turns k tr }

/-- The requests of some turns and of the one that is open, oldest first. -/
def requestsOf (ts : List Turn) (waiting : Option (Nat × Request)) : List Request :=
  ts.reverse.map (·.request) ++ waiting.toList.map (·.2)

/-- The share of a caller that tried to connect `attempts` times and got a connection or not, had
these turns, and waits for the answer to this request. -/
def Share.made (k attempts : Nat) (connected : Bool) (ts : List Turn)
    (waiting : Option (Nat × Request)) : Share :=
  { dealings :=
      { caller := k
        attempts
        connected
        pings := (requestsOf ts waiting).countP (· = .ping)
        requests := (requestsOf ts waiting).filter (· ≠ .ping) }
    pending := waiting
    turns := ts }

theorem share_nil (k : Nat) : share k [] = .made k 0 false [] none := rfl

theorem share_cons_of_other {e : Entry} {k : Nat} (h : e.event.caller? ≠ some k)
    (tr : List Entry) : share k (e :: tr) = share k tr := by
  have hd := Dealings.caller_ofHistory tr k
  rcases e with ⟨t, c | _ | c | ⟨c, _ | _ | _⟩ | _ | _ | _⟩ <;>
    simp_all [share, Dealings.ofHistory_cons, Dealings.follow, pending, turns, Happening.caller?]

/-- What is not about a caller leaves its share as it is. -/
theorem share_append {older newer : List Entry} {k : Nat}
    (h : ∀ e ∈ newer, e.event.caller? ≠ some k) : share k (newer ++ older) = share k older := by
  induction newer with
  | nil => rfl
  | cons e rest ih =>
    rw [List.cons_append, share_cons_of_other (h e List.mem_cons_self),
      ih fun x hx => h x (List.mem_cons_of_mem _ hx)]

theorem share_of_absent {tr : List Entry} {k : Nat} (h : ∀ e ∈ tr, e.event.caller? ≠ some k) :
    share k tr = .made k 0 false [] none := by
  rw [← List.append_nil tr, share_append h, share_nil]

/-! What a caller does itself adds to its share. -/

section Own

variable {tr : List Entry} {k n : Nat} {connected : Bool} {ts : List Turn}
  {waiting : Option (Nat × Request)}

/-- The happenings that a share does not show. -/
theorem share_cons_of_silent (e : Entry) (h : share k tr = .made k n connected ts waiting)
    (hs : e.event = .died k ∨ e.event = .cancelled ∨ ∃ reason, e.event = .refused k reason) :
    share k (e :: tr) = .made k n connected ts waiting := by
  rw [← h]
  obtain ⟨t, e⟩ := e
  obtain rfl | rfl | ⟨reason, rfl⟩ := hs <;>
    simp [share, Dealings.ofHistory_cons, Dealings.follow, pending, turns]

theorem share_cons_attempted (t : Nat) (h : share k tr = .made k n connected ts waiting) :
    share k (⟨t, .attempted k⟩ :: tr) = .made k (n + 1) connected ts waiting := by
  simp only [share, Share.made, Share.mk.injEq] at h ⊢
  obtain ⟨hd, hp, ht⟩ := h
  simp [Dealings.ofHistory_cons, Dealings.follow, pending, turns, hd, hp, ht]

theorem share_cons_connected (t : Nat) (h : share k tr = .made k n connected ts waiting) :
    share k (⟨t, .connected k⟩ :: tr) = .made k n true ts waiting := by
  simp only [share, Share.made, Share.mk.injEq] at h ⊢
  obtain ⟨hd, hp, ht⟩ := h
  simp [Dealings.ofHistory_cons, Dealings.follow, pending, turns, hd, hp, ht]

theorem share_cons_asked (t : Nat) (r : Request) (h : share k tr = .made k n connected ts none) :
    share k (⟨t, .asked k r⟩ :: tr) = .made k n connected ts (some (t, r)) := by
  simp only [share, Share.made, Share.mk.injEq] at h ⊢
  obtain ⟨hd, hp, ht⟩ := h
  cases r <;>
    simp [Dealings.ofHistory_cons, Dealings.follow, pending, turns, requestsOf, hd, ht]

theorem share_cons_answered (t : Nat) (a : Answer) {sent : Nat} {r : Request}
    (h : share k tr = .made k n connected ts (some (sent, r))) :
    share k (⟨t, .answered k a⟩ :: tr) = .made k n connected (⟨r, sent, t, a⟩ :: ts) none := by
  simp only [share, Share.made, Share.mk.injEq] at h ⊢
  obtain ⟨hd, hp, ht⟩ := h
  simp [Dealings.ofHistory_cons, Dealings.follow, pending, turns, requestsOf, hd, hp, ht]

end Own

end LoadSweep
