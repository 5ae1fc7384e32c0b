import LoadSweep.Harness.Measure
import LoadSweep.Harness.Preload
import LoadSweep.Harness.Probe
import LoadSweep.Proofs.Traffic

/-!
# `LoadSweep/Proofs/Stored.lean` — what a history says is stored

A server that keeps what is written holds, for every key, the value of the last write that it
acknowledged. `stored` reads that write off a history, with the caller that made it. A crew adds to
what earlier crews wrote, and its writes can be told from theirs by the callers' numbers
(`stored_append`). Whether it writes at all, and what, is a matter of its job (`Job.Sends`): of all
jobs only a preload and a cell that writes have any writes to send.
-/

set_option autoImplicit false

namespace LoadSweep

/-! ## Writes -/

/-- A write that was acknowledged. -/
structure Write where
  caller : Nat
  size : Nat
  deriving DecidableEq, Repr

/-- The write of a key that an entry acknowledges, when it comes after `older`. -/
def acknowledged (key : String) (e : Entry) (older : List Entry) : Option Write :=
  match e.event with
  | .answered k (.done _) =>
    match pending k older with
    | some (_, .set key' size _) => if key' = key then some ⟨k, size⟩ else none
    | some (_, .ping) | some (_, .get _) | none => none
  | _ => none

/-- The last write of a key that was acknowledged, in a history that is newest first. -/
def stored (key : String) : List Entry → Option Write
  | [] => none
  | e :: older => (acknowledged key e older).or (stored key older)

/-- No caller has a number that is still to be given. -/
def World.Numbered (w : World) : Prop :=
  ∀ e ∈ w.history, ∀ k, e.event.caller? = some k → k < w.met

theorem pending_append {k : Nat} {older : List Entry} (h : pending k older = none)
    (newer : List Entry) : pending k (newer ++ older) = pending k newer := by
  induction newer with
  | nil => exact h
  | cons e rest ih =>
    rw [List.cons_append]
    unfold pending
    split
    · split
      · rfl
      · exact ih
    · split
      · rfl
      · exact ih
    · exact ih

theorem acknowledged_eq_some {key : String} {e : Entry} {older : List Entry} {x : Write} :
    acknowledged key e older = some x ↔ (∃ value, e.event = .answered x.caller (.done value)) ∧
      ∃ t fill, pending x.caller older = some (t, .set key x.size fill) := by
  obtain ⟨k, size⟩ := x
  constructor
  · intro h
    unfold acknowledged at h
    split at h
    · rename_i c value he
      split at h
      · rename_i t key' size' fill hpending
        split at h
        · rename_i hkey
          obtain ⟨rfl, rfl⟩ := Write.mk.inj (Option.some.inj h)
          subst hkey
          exact ⟨⟨value, he⟩, t, fill, hpending⟩
        · simp at h
      · simp at h
      · simp at h
      · simp at h
    · simp at h
  · rintro ⟨⟨value, he⟩, t, fill, hpending⟩
    simp only [acknowledged, he]
    rw [hpending]
    simp

/-- What happened later, to callers that had asked for nothing before, counts first. -/
theorem stored_append {key : String} {newer older : List Entry}
    (h : ∀ e ∈ newer, ∀ k, e.event.caller? = some k → pending k older = none) :
    stored key (newer ++ older) = (stored key newer).or (stored key older) := by
  induction newer with
  | nil => rfl
  | cons e rest ih =>
    have hsame : acknowledged key e (rest ++ older) = acknowledged key e rest := by
      unfold acknowledged
      split
      · rename_i k value he
        rw [pending_append (h e List.mem_cons_self k (by rw [he]; rfl))]
      · rfl
    rw [List.cons_append, stored, stored, hsame, ih fun x hx => h x (List.mem_cons_of_mem _ hx),
      Option.or_assoc]

theorem mem_of_stored {key : String} {tr : List Entry} {x : Write} (h : stored key tr = some x) :
    ∃ t fill, ⟨t, .asked x.caller (.set key x.size fill)⟩ ∈ tr := by
  induction tr with
  | nil => simp [stored] at h
  | cons e older ih =>
    rw [stored, Option.or_eq_some_iff] at h
    obtain h | ⟨-, h⟩ := h
    · obtain ⟨-, t, fill, hpending⟩ := acknowledged_eq_some.mp h
      exact ⟨t, fill, List.mem_cons_of_mem _ (mem_of_pending hpending)⟩
    · obtain ⟨t, fill, hmem⟩ := ih h
      exact ⟨t, fill, List.mem_cons_of_mem _ hmem⟩

/-- Once a write of a key was acknowledged something is stored. -/
theorem stored_of_turn {key : String} {k size : Nat} {fill : Char} {value : Option String}
    {tr : List Entry} {x : Turn} (hx : x ∈ turns k tr) (hr : x.request = .set key size fill)
    (ha : x.answer = .done value) : ∃ y, stored key tr = some y := by
  rw [← Option.isSome_iff_exists]
  induction tr with
  | nil => simp [turns] at hx
  | cons e older ih =>
    rw [stored, Option.isSome_or, Bool.or_eq_true]
    obtain hx | ⟨rfl, hpending⟩ := mem_turns_cons hx
    · exact .inr (ih hx)
    · left
      rw [acknowledged_eq_some (x := ⟨k, size⟩) |>.mpr
        ⟨⟨value, by rw [ha]⟩, x.sent, fill, by rw [hpending, hr]⟩]
      rfl

/-! ## What jobs send -/

/-- Every request that a job sends is one of these. -/
def Job.Sends {σ : Type} (job : Job σ) (P : Request → Prop) : Prop :=
  ∀ {script : Script} {i opened start t : Nat} {ts : List Turn} {s s' : σ} {token : Bool}
    {r : Request}, job.Course script i opened start ts s t → job.ask t token s = .send r s' → P r

/-- The request writes nothing. -/
def Request.Reads (r : Request) : Prop := ∀ key size fill, r ≠ .set key size fill

theorem Traffic.job_sends (keys : KeySpace) (request : String → Request) (window : Duration)
    (seed : Nat → Nat) :
    (Traffic.job keys request window seed).Sends fun r => ∃ key ∈ keys.keys, r = request key :=
  fun _ hask => (Traffic.not_ends_of_send hask).2.1

namespace Questions

variable {requests : List Request}

/-- The next request is the first that is left. -/
theorem of_send {s s' : Questions} {t : Nat} {token : Bool} {r : Request}
    (h : (job requests).ask t token s = .send r s') :
    s.left = r :: s'.left ∧ s'.answers = s.answers := by
  unfold job at h
  cases hleft : s.left with
  | nil => simp [hleft] at h
  | cons q rest =>
    simp only [hleft] at h
    obtain ⟨rfl, rfl⟩ := Move.send.inj h
    exact ⟨rfl, rfl⟩

theorem of_stop {s s' : Questions} {t : Nat} {token : Bool}
    (h : (job requests).ask t token s = .stop s') : s' = s := by
  unfold job at h
  cases hleft : s.left with
  | nil => simpa [hleft] using h.symm
  | cons q rest => simp [hleft] at h

theorem job_sends (requests : List Request) : (job requests).Sends (· ∈ requests) := by
  intro script i opened start t ts s s' token r hcourse hask
  have hleft : ∀ q ∈ s.left, q ∈ requests := by
    refine hcourse.keeps (P := fun s => ∀ q ∈ s.left, q ∈ requests) (fun q hq => hq) ?_
    intro s s' now token r later outcome hs hask q hq
    exact hs q ((of_send hask).1 ▸ List.mem_cons_of_mem _ hq)
  exact hleft r ((of_send hask).1 ▸ List.mem_cons_self)

/-- Every turn uses up one question. -/
theorem course_left {script : Script} {i opened start t : Nat} {ts : List Turn} {s : Questions}
    (h : (job requests).Course script i opened start ts s t) :
    ts.length + s.left.length = requests.length := by
  induction h with
  | enter => exact Nat.zero_add _
  | turn _ hask _ ih =>
    rw [(of_send hask).1, List.length_cons] at ih
    rw [List.length_cons, ← ih]
    exact Nat.succ_add_eq_add_succ _ _

end Questions

namespace Preload

variable {keys : KeySpace} {valueSize every : Nat}

/-- The next write is that of the first key that is not loaded. -/
theorem of_send {p p' : Preload} {t : Nat} {token : Bool} {r : Request}
    (h : (job keys valueSize every).ask t token p = .send r p') :
    p.fault = none ∧ p' = p ∧
      ∃ key, keys.key? p.loaded = some key ∧ r = .set key valueSize preloadFill := by
  unfold job at h
  cases hfault : p.fault with
  | some => simp [hfault] at h
  | none =>
    cases hkey : keys.key? p.loaded with
    | none => simp [hfault, hkey] at h
    | some key =>
      cases token with
      | true => simp [hfault, hkey] at h
      | false =>
        obtain ⟨rfl, rfl⟩ : .set key valueSize preloadFill = r ∧ p = p' := by
          simpa [hfault, hkey] using h
        exact ⟨rfl, rfl, key, rfl, rfl⟩

theorem of_stop {p p' : Preload} {t : Nat} {token : Bool}
    (h : (job keys valueSize every).ask t token p = .stop p') : p' = p := by
  unfold job at h
  cases hfault : p.fault with
  | some => simpa [hfault] using h.symm
  | none =>
    cases hkey : keys.key? p.loaded with
    | none => simpa [hfault, hkey] using h.symm
    | some key =>
      cases token with
      | true => simpa [hfault, hkey] using h.symm
      | false => simp [hfault, hkey] at h

theorem job_sends (keys : KeySpace) (valueSize every : Nat) :
    (job keys valueSize every).Sends fun r =>
      ∃ key ∈ keys.keys, r = .set key valueSize preloadFill := by
  intro script i opened start t ts p p' token r _ hask
  obtain ⟨-, -, key, hkey, hr⟩ := of_send hask
  obtain ⟨hlt, rfl⟩ := Array.getElem?_eq_some_iff.mp hkey
  exact ⟨_, Array.getElem_mem hlt, hr⟩

/-- Every key that counts as loaded has a turn in which it was written. -/
theorem course_loaded {script : Script} {i opened start t : Nat} {ts : List Turn} {p : Preload}
    (h : (job keys valueSize every).Course script i opened start ts p t) (hp : p.fault = none) :
    ∀ (j : Nat) (key : String), j < p.loaded → keys.key? j = some key →
      ∃ x ∈ ts, x.request = .set key valueSize preloadFill ∧ ∃ value, x.answer = .done value := by
  induction h with
  | enter =>
    intro j key hj
    exact absurd hj (Nat.not_lt_zero j)
  | @turn ts p p' t token r outcome hcourse hask ho ih =>
    obtain ⟨hfault, rfl, key, hkey, rfl⟩ := of_send hask
    cases outcome with
    | error fault => simp [job] at hp
    | ok value =>
      intro j key' hj hkey'
      replace hj : j < p'.loaded + 1 := hj
      by_cases hlast : j = p'.loaded
      · subst hlast
        obtain rfl := Option.some.inj (hkey.symm.trans hkey')
        refine ⟨_, List.mem_cons_self, rfl, value, ?_⟩
        revert ho
        cases (script.turn (weightOf ts) t (.set key valueSize preloadFill)).answer <;>
          simp [Answer.outcome]
      · obtain ⟨x, hx, hrest⟩ := ih hfault j key' (by omega) hkey'
        exact ⟨x, List.mem_cons_of_mem _ hx, hrest⟩

end Preload

/-- A cell that reads writes nothing, and one that writes writes values of its size. -/
theorem Cell.job_sends (cell : Cell) : cell.job.Sends fun r => r.Reads ∨
    cell.operation = .set ∧ ∃ key ∈ cell.keys.keys, r = .set key cell.valueSize measureFill := by
  intro script i opened start t ts s s' token r hcourse hask
  obtain ⟨key, hkey, rfl⟩ := Traffic.job_sends _ _ _ _ hcourse hask
  unfold Cell.request
  cases hop : cell.operation with
  | get => exact .inl (by simp [Request.Reads])
  | set => exact .inr ⟨rfl, key, hkey, rfl⟩

/-! ## What crews add -/

namespace Crew

variable {σ : Type} {scene : Scene} {w₀ w : World} {crew₀ crew : Crew σ} {P : Request → Prop}

theorem Reaches.history_eq (hs : crew₀.Starts w₀) (h : Reaches scene w₀ crew₀ w crew) :
    w.history = w.since w₀ ++ w₀.history := (h.grounded hs).traces.history

theorem Reaches.numbered (hs : crew₀.Starts w₀) (h : Reaches scene w₀ crew₀ w crew)
    (hn : w₀.Numbered) : w.Numbered := by
  intro e he k hk
  rw [h.history_eq hs] at he
  rcases List.mem_append.mp he with he | he
  · exact ((h.grounded hs).heard_range he hk).2
  · exact Nat.lt_of_lt_of_le (hn e he k hk) (h.grounded hs).met

/-- The writes of a crew count before those of earlier callers. -/
theorem Reaches.stored_append (hs : crew₀.Starts w₀) (h : Reaches scene w₀ crew₀ w crew)
    (hn : w₀.Numbered) (key : String) {tr : List Entry} (ht : tr <:+ w.since w₀) :
    stored key (tr ++ w₀.history) = (stored key tr).or (stored key w₀.history) := by
  refine LoadSweep.stored_append ?_
  intro e he k hk
  have hge := ((h.grounded hs).heard_range (ht.subset he) hk).1
  cases hp : pending k w₀.history with
  | none => rfl
  | some p =>
    have := hn _ (mem_of_pending hp) k rfl
    omega

theorem Reaches.sends (hs : crew₀.Starts w₀) (h : Reaches scene w₀ crew₀ w crew)
    (hj : crew₀.job.Sends P) {t k : Nat} {r : Request} (hr : ⟨t, .asked k r⟩ ∈ w.since w₀) :
    P r := by
  obtain ⟨newer, older, hsince⟩ := List.append_of_mem hr
  obtain ⟨_, _, _, _, _, _, _, _, hcourse, hask, _⟩ :=
    (h.faithful hs).licensed t k r older (hsince ▸ List.suffix_append newer _)
  rw [h.job_eq.1] at hcourse hask
  exact hj hcourse hask

/-- Nothing changes while callers only read. -/
theorem Reaches.stored_of_reads (hs : crew₀.Starts w₀) (h : Reaches scene w₀ crew₀ w crew)
    (hn : w₀.Numbered) (hj : crew₀.job.Sends Request.Reads) (key : String) {tr : List Entry}
    (ht : tr <:+ w.since w₀) : stored key (tr ++ w₀.history) = stored key w₀.history := by
  rw [h.stored_append hs hn key ht]
  cases hx : stored key tr with
  | none => rfl
  | some x =>
    obtain ⟨t, fill, hmem⟩ := mem_of_stored hx
    exact absurd rfl (h.sends hs hj (ht.subset hmem) key x.size fill)

/-- **A preload that is complete has stored every key.** -/
theorem Reaches.stored_of_preload {keys : KeySpace} {valueSize every : Nat} {crew : Crew Preload}
    (h : Reaches scene w₀ (.atOpenGate w₀ (Preload.job keys valueSize every) 1) w crew)
    (hn : w₀.Numbered) {c : Caller Preload} (hc : c ∈ crew.callers) {p : Preload}
    (hp : c.stage = .ended (.served p)) (hfault : p.fault = none) (hloaded : p.loaded = keys.size)
    {key : String} (hkey : key ∈ keys.keys) :
    ∃ x, stored key w.history = some x ∧ x.size = valueSize := by
  have hs := atOpenGate_starts w₀ (Preload.job keys valueSize every) 1
  have hf := h.faithful hs
  obtain ⟨i, ha⟩ := hf.agrees_of_mem hc
  rw [Caller.Agrees, hp, h.job_eq.1] at ha
  obtain ⟨ts, s, t, seen, hshow, ⟨o, -, hcourse⟩, -, -, -, hask⟩ := ha
  obtain rfl := Preload.of_stop hask
  obtain ⟨j, hj, rfl⟩ := Array.mem_iff_getElem.mp hkey
  obtain ⟨x, hx, hr, value, hanswer⟩ := Preload.course_loaded hcourse hfault j _
    (hloaded ▸ hj) (Array.getElem?_eq_getElem hj)
  rw [← hshow.turns_eq] at hx
  -- the turn shows that something is stored, and a preload sends nothing of another size
  obtain ⟨y, hy⟩ := stored_of_turn hx hr hanswer
  obtain ⟨u, fill, hmem⟩ := mem_of_stored hy
  obtain ⟨key', -, hset⟩ := h.sends hs (Preload.job_sends keys valueSize every) hmem
  refine ⟨y, ?_, (Request.set.inj hset).2.1⟩
  rw [h.history_eq hs, h.stored_append hs hn _ (List.suffix_refl _), hy]
  rfl

end Crew

end LoadSweep
