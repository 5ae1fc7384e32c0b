import LoadSweep.Harness.Warmup
import LoadSweep.Proofs.Window

/-!
# `LoadSweep/Proofs/KeyStream.lean` — the keys of a caller are the stream of its seed

A caller in traffic draws one position before each request and at no other time. Its generator
therefore stands where the number of its requests says (`Caller.Draws`), whatever the server answered
and whatever ended the loop; and since the positions come from its seed alone, two runs that share
the keys and the seeds can only differ in how far each caller got. The one asks for the first keys
of the other (`Crew.Replays`).

This relates two runs, but there is nothing to be said about both at once: each caller is compared
with its seed, in any state that its crew can reach, and the two comparisons meet in
`KeySpace.drawn`.
-/

set_option autoImplicit false

namespace LoadSweep

/-! ## The positions and keys of a stream -/

namespace Draw

/-- The stream after `j` draws of one of `n` positions. -/
def after (n : Nat) (s : Stream) : Nat → Stream
  | 0 => s
  | j + 1 => (draw n (after n s j)).2

/-- The position that is drawn after `j` others. -/
def nth (n : Nat) (s : Stream) (j : Nat) : Nat := (draw n (after n s j)).1

theorem nth_lt {n : Nat} (h : 0 < n) (s : Stream) (j : Nat) : nth n s j < n := draw_lt h _

end Draw

namespace KeySpace

variable (keys : KeySpace) (s : Draw.Stream)

/-- The keys at the first `n` positions that a stream gives. -/
def drawn (n : Nat) : List String :=
  (List.range n).filterMap fun j => keys.key? (Draw.nth keys.size s j)

theorem key?_nth (j : Nat) : ∃ key, keys.key? (Draw.nth keys.size s j) = some key :=
  ⟨_, Array.getElem?_eq_getElem (Draw.nth_lt keys.keys_pos s j)⟩

theorem drawn_succ {n : Nat} {key : String} (h : keys.key? (Draw.nth keys.size s n) = some key) :
    keys.drawn s (n + 1) = keys.drawn s n ++ [key] := by
  simp [drawn, List.range_succ, List.filterMap_append, h]

@[simp] theorem length_drawn (n : Nat) : (keys.drawn s n).length = n := by
  induction n with
  | zero => rfl
  | succ n ih =>
    obtain ⟨key, hkey⟩ := keys.key?_nth s n
    rw [keys.drawn_succ s hkey, List.length_append, ih, List.length_singleton]

theorem drawn_prefix {n m : Nat} (h : n ≤ m) : keys.drawn s n <+: keys.drawn s m := by
  induction h with
  | refl => exact List.prefix_rfl
  | @step m _ ih =>
    obtain ⟨key, hkey⟩ := keys.key?_nth s m
    rw [Nat.succ_eq_add_one, keys.drawn_succ s hkey]
    exact ih.trans (List.prefix_append _ _)

theorem getElem?_drawn {n j : Nat} (h : j < n) :
    (keys.drawn s n)[j]? = keys.key? (Draw.nth keys.size s j) := by
  obtain ⟨key, hkey⟩ := keys.key?_nth s j
  obtain ⟨rest, hrest⟩ := keys.drawn_prefix s (Nat.succ_le_of_lt h)
  rw [← hrest, Nat.succ_eq_add_one, keys.drawn_succ s hkey, hkey, List.append_assoc,
    List.getElem?_append_right (Nat.le_of_eq (keys.length_drawn s j))]
  simp

end KeySpace

/-! ## What a caller has asked for -/

/-- The key that a request is about. -/
def Request.key? : Request → Option String
  | .ping => none
  | .get key | .set key .. => some key

/-- The requests that a caller has sent, pings apart, oldest first. -/
def Caller.asked {σ : Type} (c : Caller σ) (tr : List Entry) : List Request :=
  match c.number with
  | some k => (Dealings.ofHistory tr k).requests
  | none => []

/-- The keys of its requests. -/
def Caller.keysAsked {σ : Type} (c : Caller σ) (tr : List Entry) : List String :=
  (c.asked tr).filterMap Request.key?

/-- A caller in traffic has asked for the keys that its seed draws, one draw for each request. -/
structure Caller.Draws (keys : KeySpace) (seed : Nat) (tr : List Entry) (c : Caller Traffic) :
    Prop where
  asked : c.keysAsked tr = keys.drawn (.ofSeed seed) (c.asked tr).length
  /-- The generator has given as many positions as the caller has sent requests. -/
  once : ∀ t, c.state? = some t →
    t.stream = Draw.after keys.size (.ofSeed seed) (c.asked tr).length

namespace Traffic

variable {keys : KeySpace} {request : String → Request} {window : Duration} {seed : Nat → Nat}

/-- A request is for the key at the next position, and uses up one draw. -/
theorem drawn_of_send {stream : Draw.Stream} {n now : Nat} {token : Bool} {s s' : Traffic}
    {r : Request} (hs : s.stream = Draw.after keys.size stream n)
    (h : (job keys request window seed).ask now token s = .send r s') :
    s'.stream = Draw.after keys.size stream (n + 1) ∧
      (keys.drawn stream (n + 1)).map request = (keys.drawn stream n).map request ++ [r] := by
  obtain ⟨key, hkey⟩ := keys.key?_nth stream n
  have hdraw : keys.key? (Draw.draw keys.size s.stream).1 = some key := by
    rw [hs]
    exact hkey
  unfold job at h
  simp only [hdraw] at h
  split at h
  · simp at h
  · split at h
    · obtain ⟨rfl, rfl⟩ := Move.send.inj h
      refine ⟨?_, ?_⟩
      · rw [hs]
        rfl
      · rw [keys.drawn_succ stream hkey, List.map_append]
        rfl
    · simp at h

@[simp] theorem count_stream (nanos : Nat) (answer : Except ClientFault (Option String))
    (t : Traffic) : (t.count nanos answer).stream = t.stream := by
  unfold count
  split
  · rfl
  · split <;> rfl

/-- After a number of turns the generator has given that many positions. -/
theorem course_drawn {script : Script} {i opened start t : Nat} {ts : List Turn} {s : Traffic}
    (h : (job keys request window seed).Course script i opened start ts s t) :
    s.stream = Draw.after keys.size (.ofSeed (seed i)) ts.length ∧
      requestsOf ts none = (keys.drawn (.ofSeed (seed i)) ts.length).map request := by
  induction h with
  | enter => exact ⟨rfl, rfl⟩
  | @turn ts s s' t token r outcome _ hask _ ih =>
    obtain ⟨hstream, hdrawn⟩ := ih
    obtain ⟨hnext, hsnoc⟩ := drawn_of_send hstream hask
    refine ⟨by simpa [job] using hnext, ?_⟩
    rw [List.length_cons, hsnoc, ← hdrawn]
    simp [requestsOf, Script.turn]

end Traffic

namespace Caller

variable {scene : Scene} {keys : KeySpace} {request : String → Request} {window : Duration}
  {seed : Nat → Nat} {gate : Gate} {i : Nat} {w₀ : World} {c : Caller Traffic} {tr : List Entry}

theorem asked_of_dials {n : Nat} {connected : Bool} (h : c.Dials tr n connected) :
    c.asked tr = [] := by
  unfold asked
  cases hk : c.number with
  | none => rfl
  | some k => exact congrArg (fun sh => sh.dealings.requests) (h.share k hk)

theorem asked_of_shows {ts : List Turn} {waiting : Option (Nat × Request)}
    (h : c.Shows tr ts waiting) : c.asked tr = (requestsOf ts waiting).filter (· ≠ .ping) := by
  obtain ⟨k, hk⟩ := h.numbered
  unfold asked
  rw [hk, ← who_eq hk]
  exact congrArg (fun sh => sh.dealings.requests) h.share

/-- No request of a caller in traffic is a ping, so all of them count. -/
theorem asked_of_drawn (hreq : ∀ key, (request key).key? = some key) {ts : List Turn}
    {waiting : Option (Nat × Request)} (h : c.Shows tr ts waiting) {n : Nat}
    (hdrawn : requestsOf ts waiting = (keys.drawn (.ofSeed (seed i)) n).map request) :
    c.asked tr = (keys.drawn (.ofSeed (seed i)) n).map request := by
  rw [asked_of_shows h, hdrawn, List.filter_eq_self]
  intro r hr
  obtain ⟨key, -, rfl⟩ := List.mem_map.mp hr
  have hkey := hreq key
  cases hr : request key <;> simp_all [Request.key?]

/-- At every stage the requests so far are for the first keys of the seed, and the generator stands
right after them. -/
theorem Agrees.drawn (hreq : ∀ key, (request key).key? = some key)
    (h : c.Agrees scene (Traffic.job keys request window seed) w₀ gate i tr) :
    ∃ n, c.asked tr = (keys.drawn (.ofSeed (seed i)) n).map request ∧
      ∀ t, c.state? = some t → t.stream = Draw.after keys.size (.ofSeed (seed i)) n := by
  have hdials : ∀ {n : Nat} {b : Bool}, c.Dials tr n b → c.state? = none →
      ∃ n, c.asked tr = (keys.drawn (.ofSeed (seed i)) n).map request ∧
        ∀ t, c.state? = some t → t.stream = Draw.after keys.size (.ofSeed (seed i)) n :=
    fun hd hnone => ⟨0, asked_of_dials hd, by simp [hnone]⟩
  unfold Agrees at h
  cases hs : c.stage with
  | fresh | attempting | resting | settled =>
    simp only [hs] at h
    exact hdials h (by rw [state?, hs])
  | talking s sent due reply =>
    simp only [hs] at h
    obtain ⟨ts, s₀, token, r, hshow, ⟨_, _, hcourse⟩, hask, -⟩ := h
    obtain ⟨hstream, hdrawn⟩ := Traffic.course_drawn hcourse
    obtain ⟨hnext, hsnoc⟩ := Traffic.drawn_of_send hstream hask
    refine ⟨ts.length + 1, asked_of_drawn hreq hshow ?_, by simpa [state?, hs] using hnext⟩
    rw [hsnoc, ← hdrawn]
    simp [requestsOf]
  | ended how =>
    simp only [hs] at h
    cases how with
    | unserved => exact hdials h.1 (by rw [state?, hs])
    | served s =>
      obtain ⟨ts, s₀, t, seen, hshow, ⟨_, _, hcourse⟩, -, -, -, hask⟩ := h
      obtain ⟨hstream, hdrawn⟩ := Traffic.course_drawn hcourse
      obtain ⟨rfl, -⟩ := Traffic.ends_of_stop hask
      exact ⟨ts.length, asked_of_drawn hreq hshow hdrawn, by simpa [state?, hs] using hstream⟩
    | died s =>
      cases s with
      | none => exact hdials h.1 (by rw [state?, hs])
      | some s =>
        obtain ⟨-, ts, s₀, t, token, ⟨_, _, hcourse⟩, ⟨-, hask, -⟩ | ⟨r, hshow, hask, -⟩⟩ := h
        · exact absurd hask Traffic.ask_ne_die
        · -- the request that killed it was drawn like any other
          obtain ⟨hstream, hdrawn⟩ := Traffic.course_drawn hcourse
          obtain ⟨hnext, hsnoc⟩ := Traffic.drawn_of_send hstream hask
          refine ⟨ts.length + 1, asked_of_drawn hreq hshow ?_, by simpa [state?, hs] using hnext⟩
          rw [hsnoc, ← hdrawn]
          simp [requestsOf, Script.turn]

theorem Agrees.draws (hreq : ∀ key, (request key).key? = some key)
    (h : c.Agrees scene (Traffic.job keys request window seed) w₀ gate i tr) :
    c.Draws keys (seed i) tr := by
  obtain ⟨n, hasked, hstream⟩ := h.drawn hreq
  have hlen : (c.asked tr).length = n := by
    rw [hasked, List.length_map, KeySpace.length_drawn]
  refine { asked := ?_, once := fun t ht => by rw [hlen]; exact hstream t ht }
  rw [hlen, keysAsked, hasked, List.filterMap_map]
  have hsome : Request.key? ∘ request = some := funext hreq
  rw [hsome, List.filterMap_some]

/-- Two callers with the same seed differ in how far they got. -/
theorem Draws.replay {seed : Nat} {c' : Caller Traffic} {tr' : List Entry}
    (h : c.Draws keys seed tr) (h' : c'.Draws keys seed tr') :
    c.keysAsked tr <+: c'.keysAsked tr' ∨ c'.keysAsked tr' <+: c.keysAsked tr := by
  rw [h.asked, h'.asked]
  rcases Nat.le_total (c.asked tr).length (c'.asked tr').length with hle | hle
  · exact .inl (keys.drawn_prefix _ hle)
  · exact .inr (keys.drawn_prefix _ hle)

end Caller

/-! ## Two runs -/

namespace Crew

variable {scene scene' : Scene} {w₀ w v₀ v : World} {crew₀ crew crew₀' crew' : Crew Traffic}
  {keys : KeySpace}

/-- The callers at place `i` of two crews have asked for the keys of one seed, so that the one has
asked for the first keys of the other. -/
def Replays (keys : KeySpace) (seed i : Nat) (tr : List Entry) (crew : Crew Traffic)
    (tr' : List Entry) (crew' : Crew Traffic) : Prop :=
  ∃ c c', crew.callers[i]? = some c ∧ crew'.callers[i]? = some c' ∧
    c.Draws keys seed tr ∧ c'.Draws keys seed tr' ∧
    (c.keysAsked tr <+: c'.keysAsked tr' ∨ c'.keysAsked tr' <+: c.keysAsked tr)

theorem Reaches.draws (hs : crew₀.Starts w₀) {request : String → Request} {window : Duration}
    {seed : Nat → Nat} (hjob : crew₀.job = Traffic.job keys request window seed)
    (hreq : ∀ key, (request key).key? = some key) (h : Reaches scene w₀ crew₀ w crew) {i : Nat}
    (hi : i < crew₀.callers.length) :
    ∃ c, crew.callers[i]? = some c ∧ c.Draws keys (seed i) (w.since w₀) := by
  have hlt : i < crew.callers.length := by rw [h.job_eq.2.2]; exact hi
  have hagrees := (h.faithful hs).agrees i _ (List.getElem?_eq_getElem hlt)
  rw [h.job_eq.1, hjob] at hagrees
  exact ⟨_, List.getElem?_eq_getElem hlt, hagrees.draws hreq⟩

end Crew

theorem Cell.key?_request (cell : Cell) (key : String) : (cell.request key).key? = some key := by
  unfold request
  cases cell.operation <;> rfl

/-- **The keys of a caller depend on its seed alone.** Two cells over the same keys and with the same
seed, or two warm-ups, may differ in everything else: the scene, what happened before, the other
settings, and how far the run has come. -/
theorem KeySpace.replayed (keys : KeySpace) :
    (∀ seed j, Draw.nth keys.size (.ofSeed seed) j < keys.size) ∧
    (∀ seed n j, j < n → (keys.drawn (.ofSeed seed) n)[j]?
      = keys.key? (Draw.nth keys.size (.ofSeed seed) j)) ∧
    (∀ (cell cell' : Cell) (scene scene' : Scene) (w₀ w v₀ v : World) (crew crew' : Crew Traffic),
      cell.keys = keys → cell'.keys = keys → cell'.seed = cell.seed →
      Crew.Reaches scene w₀ cell.crew w crew → Crew.Reaches scene' v₀ cell'.crew v crew' →
      ∀ i, i < cell.concurrency → i < cell'.concurrency →
        Crew.Replays keys ((cell.seed + i * 1337) % UInt64.size) i
          (w.since w₀) crew (v.since v₀) crew') ∧
    (∀ (duration duration' : Duration) (scene scene' : Scene) (w₀ w v₀ v : World)
      (crew crew' : Crew Traffic),
      Crew.Reaches scene w₀
        (.atOpenGate w₀ (Traffic.job keys .get duration (warmupSeed + ·)) warmupClients) w crew →
      Crew.Reaches scene' v₀
        (.atOpenGate v₀ (Traffic.job keys .get duration' (warmupSeed + ·)) warmupClients) v crew' →
      ∀ i, i < 16 →
        Crew.Replays keys (0xBEEF + i) i (w.since w₀) crew (v.since v₀) crew') := by
  refine ⟨fun seed j => Draw.nth_lt keys.keys_pos _ j, fun seed n j => keys.getElem?_drawn _, ?_, ?_⟩
  · intro cell cell' scene scene' w₀ w v₀ v crew crew' hkeys hkeys' hseed h h' i hi hi'
    have hsize : ∀ c : Cell, c.crew.callers.length = c.concurrency := fun c => List.length_replicate
    obtain ⟨c, hc, hdraws⟩ :=
      h.draws (cell.crew_starts w₀) rfl cell.key?_request (by rw [hsize]; exact hi)
    obtain ⟨c', hc', hdraws'⟩ :=
      h'.draws (cell'.crew_starts v₀) rfl cell'.key?_request (by rw [hsize]; exact hi')
    rw [hkeys] at hdraws
    rw [hkeys', Cell.workerSeed, hseed, ← Cell.workerSeed] at hdraws'
    exact ⟨c, c', hc, hc', hdraws, hdraws', hdraws.replay hdraws'⟩
  · intro duration duration' scene scene' w₀ w v₀ v crew crew' h h' i hi
    obtain ⟨c, hc, hdraws⟩ := h.draws (Crew.atOpenGate_starts w₀ _ _) rfl (fun _ => rfl) hi
    obtain ⟨c', hc', hdraws'⟩ := h'.draws (Crew.atOpenGate_starts v₀ _ _) rfl (fun _ => rfl) hi
    exact ⟨c, c', hc, hc', hdraws, hdraws', hdraws.replay hdraws'⟩

/-- Another cell of the sample: one worker, reading, for less time. -/
def Sample.briefCell : Cell :=
  { Sample.cell with operation := .get, valueSize := 256, duration := .ofMillis 3, concurrency := 1 }

/-- Two cells against different servers, and two warm-ups of different length. Worker 0 of the first
cell lost its connection in its fourth request, and the other one ran out of time before it; in the
warm-ups caller 0 is the only one to get a connection. -/
theorem KeySpace.replayed_sample :
    (∃ (w v : World) (crew crew' : Crew Traffic),
      Sample.cell.crew.run Sample.scene 20 (.start none) = some (w, crew) ∧
      Sample.briefCell.crew.run Sample.steady 20 (.start none) = some (v, crew') ∧
      crew.callers.map (·.keysAsked (w.since (.start none)))
        = [["key:1", "key:1", "key:2", "key:2"], []] ∧
      crew'.callers.map (·.keysAsked (v.since (.start none))) = [["key:1", "key:1", "key:2"]] ∧
      Crew.Replays Sample.keys ((Sample.cell.seed + 0 * 1337) % UInt64.size) 0
        (w.since (.start none)) crew (v.since (.start none)) crew') ∧
    (∃ (w v : World) (crew crew' : Crew Traffic),
      (Crew.atOpenGate (.start none) (Traffic.job Sample.keys .get (.ofMillis 3) (warmupSeed + ·))
        warmupClients).run Sample.scene 100 (.start none) = some (w, crew) ∧
      (Crew.atOpenGate (.start none) (Traffic.job Sample.keys .get (.ofMillis 4) (warmupSeed + ·))
        warmupClients).run Sample.scene 100 (.start none) = some (v, crew') ∧
      Crew.Replays Sample.keys (0xBEEF + 0) 0
        (w.since (.start none)) crew (v.since (.start none)) crew') := by
  obtain ⟨-, -, hcells, hwarm⟩ := KeySpace.replayed Sample.keys
  refine ⟨?_, ?_⟩
  · have hrun : (Sample.cell.crew.run Sample.scene 20 (.start none)).map
        (fun p => p.2.callers.map (·.keysAsked (p.1.since (.start none))))
        = some [["key:1", "key:1", "key:2", "key:2"], []] := by decide +kernel
    have hrun' : (Sample.briefCell.crew.run Sample.steady 20 (.start none)).map
        (fun p => p.2.callers.map (·.keysAsked (p.1.since (.start none))))
        = some [["key:1", "key:1", "key:2"]] := by decide +kernel
    obtain ⟨⟨w, crew⟩, hw, hkeys⟩ := Option.map_eq_some_iff.mp hrun
    obtain ⟨⟨v, crew'⟩, hv, hkeys'⟩ := Option.map_eq_some_iff.mp hrun'
    refine ⟨w, v, crew, crew', hw, hv, hkeys, hkeys', ?_⟩
    exact hcells Sample.cell Sample.briefCell _ _ _ _ _ _ _ _ rfl rfl rfl
      (Crew.run_reaches (Sample.cell.crew_starts _) .start hw).1
      (Crew.run_reaches (Sample.briefCell.crew_starts _) .start hv).1 0 (by decide) (by decide)
  · have hends : ∀ d ∈ [Duration.ofMillis 3, .ofMillis 4],
        ((Crew.atOpenGate (.start none) (Traffic.job Sample.keys .get d (warmupSeed + ·))
          warmupClients).run Sample.scene 100 (.start none)).isSome = true := by decide +kernel
    obtain ⟨⟨w, crew⟩, hw⟩ := Option.isSome_iff_exists.mp (hends (.ofMillis 3) (by decide))
    obtain ⟨⟨v, crew'⟩, hv⟩ := Option.isSome_iff_exists.mp (hends (.ofMillis 4) (by decide))
    refine ⟨w, v, crew, crew', hw, hv, ?_⟩
    exact hwarm _ _ _ _ _ _ _ _ _ _
      (Crew.run_reaches (Crew.atOpenGate_starts _ _ _) .start hw).1
      (Crew.run_reaches (Crew.atOpenGate_starts _ _ _) .start hv).1 0 (by decide)

end LoadSweep
