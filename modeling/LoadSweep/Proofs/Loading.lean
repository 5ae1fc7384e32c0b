import LoadSweep.Proofs.Crew.Timetable
import LoadSweep.Proofs.Sample
import LoadSweep.Proofs.Stint
import LoadSweep.Proofs.Welcome

/-!
# `LoadSweep/Proofs/Loading.lean` — what a preload leaves behind

A preload has one counter, and three ways to stop: no key is left, the token is set, or a write has
failed. That the counter, the position of the next key and the number of acknowledged writes are one
number is the invariant of its course (`Preload.Tells`): the writes are those of the first keys, and
only the last can have failed. Two keys of a key space may be equal, so positions are counted and not
keys.

The history says the rest. A write is there only if the token was unset just before it, so when the
token was found set no write follows, and a token that is set later than the last write began makes
no difference (`KeySpace.Preloaded`).
-/

set_option autoImplicit false

namespace LoadSweep

/-- The fault with which a request failed. -/
def Turn.fault? (x : Turn) : Option ClientFault :=
  match x.answer with
  | .failed fault => some fault
  | .done _ | .dies => none

theorem Turn.fault?_eq_some {x : Turn} {fault : ClientFault} :
    x.fault? = some fault ↔ x.answer = .failed fault := by
  unfold fault?
  cases x.answer <;> simp

theorem Turn.succeeded_of_answer {x : Turn} (hlives : x.answer ≠ .dies) (h : x.fault? = none) :
    x.succeeded = true := by
  unfold fault? at h
  unfold succeeded
  cases hx : x.answer <;> simp_all

/-! ## The counter -/

namespace Preload

variable {keys : KeySpace} {valueSize every : Nat}

/-- Why a preload stops: a write failed, no key is left, or the token is set. -/
theorem ends_of_stop {p p' : Preload} {t : Nat} {token : Bool}
    (h : (job keys valueSize every).ask t token p = .stop p') :
    p.fault.isSome = true ∨ keys.size ≤ p.loaded ∨ token = true := by
  unfold job at h
  cases hfault : p.fault with
  | some => simp
  | none =>
    cases hkey : keys.key? p.loaded with
    | none =>
      have hle : keys.keys.size ≤ p.loaded := Array.getElem?_eq_none_iff.mp hkey
      exact .inr (.inl hle)
    | some key =>
      cases token with
      | true => simp
      | false => simp [hfault, hkey] at h

/-- The writes of the first `n` keys. -/
def writes (keys : KeySpace) (valueSize n : Nat) : List Request :=
  (keys.keys.toList.take n).map fun key => .set key valueSize preloadFill

/-- The counter of a preload against its turns, which are newest first. -/
structure Tells (keys : KeySpace) (valueSize : Nat) (p : Preload) (ts : List Turn) : Prop where
  requests : ts.reverse.map (·.request) = writes keys valueSize ts.length
  loaded : p.loaded = ts.countP Turn.succeeded
  fault : p.fault = ts.head?.bind Turn.fault?
  /-- Only the last write can have failed. -/
  earlier : ∀ x ∈ ts.tail, x.succeeded = true
  answered : ∀ x ∈ ts, x.answer ≠ .dies
  length_le : ts.length ≤ keys.size

variable {p : Preload} {ts : List Turn}

/-- As long as nothing has failed everything is loaded that was sent. -/
theorem Tells.sound (h : p.Tells keys valueSize ts) (hp : p.fault = none) :
    (∀ x ∈ ts, x.succeeded = true) ∧ p.loaded = ts.length := by
  have hall : ∀ x ∈ ts, x.succeeded = true := by
    have hfault := h.fault
    have hearlier := h.earlier
    have hanswered := h.answered
    cases ts with
    | nil => simp
    | cons x rest =>
      intro y hy
      rcases List.mem_cons.mp hy with rfl | hy
      · apply Turn.succeeded_of_answer (hanswered y List.mem_cons_self)
        rw [hp] at hfault
        exact hfault.symm
      · exact hearlier y hy
  exact ⟨hall, h.loaded.trans (List.countP_eq_length.mpr hall)⟩

theorem Tells.broken (h : p.Tells keys valueSize ts) {cause : ClientFault}
    (hp : p.fault = some cause) : ∃ x earlier, ts = x :: earlier ∧ x.answer = .failed cause ∧
      (∀ y ∈ earlier, y.succeeded = true) ∧ p.loaded = earlier.length := by
  have hfault := h.fault
  have hearlier := h.earlier
  have hloaded := h.loaded
  cases ts with
  | nil => simp [hp] at hfault
  | cons x earlier =>
    rw [hp] at hfault
    have hx : x.answer = .failed cause := Turn.fault?_eq_some.mp hfault.symm
    refine ⟨x, earlier, rfl, hx, hearlier, ?_⟩
    have hnot : x.succeeded = false := by simp [Turn.succeeded, hx]
    rw [hloaded, List.countP_cons, hnot]
    simpa using List.countP_eq_length.mpr hearlier

/-- The last write was that of the key which comes after those of the others. -/
theorem Tells.last {x : Turn} {earlier : List Turn} (h : p.Tells keys valueSize (x :: earlier)) :
    ∃ key, keys.key? earlier.length = some key ∧ x.request = .set key valueSize preloadFill := by
  have hlast := congrArg (fun rs => rs[earlier.length]?) h.requests
  have hlt : earlier.length < keys.keys.size := h.length_le
  simp only [writes, List.reverse_cons, List.length_cons, List.getElem?_map,
    List.getElem?_take_of_lt (Nat.lt_succ_self earlier.length)] at hlast
  rw [List.getElem?_append_right (by simp)] at hlast
  refine ⟨keys.keys[earlier.length], Array.getElem?_eq_getElem hlt, ?_⟩
  simpa [hlt] using hlast

/-- **The verdict names a write that failed, and only such a one.** -/
theorem Tells.verdict_error_iff (h : p.Tells keys valueSize ts) (cause : ClientFault) :
    (∃ x ∈ ts, x.answer = .failed cause) ↔
      ∃ index key, p.verdict keys = .error (.fault (.preload index key cause)) := by
  constructor
  · rintro ⟨x, hx, hfailed⟩
    cases hp : p.fault with
    | none =>
      have hgood := (h.sound hp).1 x hx
      simp [Turn.succeeded, hfailed] at hgood
    | some cause' =>
      obtain ⟨y, earlier, rfl, hy, hearlier, -⟩ := h.broken hp
      rcases List.mem_cons.mp hx with rfl | hx
      · obtain rfl := Answer.failed.inj (hfailed.symm.trans hy)
        exact ⟨_, _, by rw [verdict, hp]⟩
      · have hgood := hearlier x hx
        simp [Turn.succeeded, hfailed] at hgood
  · rintro ⟨index, key, hverdict⟩
    obtain ⟨cause', hp, heq⟩ := of_verdict_error hverdict
    obtain ⟨-, -, rfl⟩ := RunFault.preload.inj (Stop.fault.inj heq)
    obtain ⟨x, earlier, rfl, hx, -⟩ := h.broken hp
    exact ⟨x, List.mem_cons_self, hx⟩

/-- What a verdict says of a write that failed. -/
theorem Tells.of_verdict_error (h : p.Tells keys valueSize ts) {index : Nat} {key : String}
    {cause : ClientFault} (hverdict : p.verdict keys = .error (.fault (.preload index key cause))) :
    index = ts.countP Turn.succeeded ∧ keys.key? index = some key ∧
      ∃ x earlier, ts = x :: earlier ∧ x.answer = .failed cause ∧
        x.request = .set key valueSize preloadFill ∧ ∀ y ∈ earlier, y.succeeded = true := by
  obtain ⟨cause', hp, heq⟩ := Preload.of_verdict_error hverdict
  obtain ⟨rfl, rfl, rfl⟩ := RunFault.preload.inj (Stop.fault.inj heq)
  obtain ⟨x, earlier, rfl, hx, hearlier, hloaded⟩ := h.broken hp
  obtain ⟨key, hkey, hrequest⟩ := h.last
  rw [← hloaded] at hkey
  rw [hkey]
  exact ⟨h.loaded, rfl, x, earlier, rfl, hx, hrequest, hearlier⟩

theorem Tells.unbroken (h : p.Tells keys valueSize ts)
    (hall : ∀ x ∈ ts, ∀ cause, x.answer ≠ .failed cause) : p.fault = none := by
  cases hp : p.fault with
  | none => rfl
  | some cause =>
    obtain ⟨x, earlier, rfl, hx, -⟩ := h.broken hp
    exact absurd hx (hall x List.mem_cons_self cause)

/-- What a verdict says when no write failed. -/
theorem Tells.of_verdict_ok (h : p.Tells keys valueSize ts) {report : PreloadReport}
    (hverdict : p.verdict keys = .ok report) :
    (∀ x ∈ ts, x.succeeded = true) ∧ report.loaded = ts.length ∧
      report.loaded = ts.countP Turn.succeeded ∧ (report.complete = true ↔ ts.length = keys.size) := by
  obtain ⟨hp, rfl⟩ := Preload.of_verdict_ok hverdict
  obtain ⟨hall, hloaded⟩ := h.sound hp
  exact ⟨hall, hloaded, h.loaded, by simp [hloaded]⟩

theorem course_tells {script : Script} {i opened start t : Nat}
    (h : (job keys valueSize every).Course script i opened start ts p t) :
    p.Tells keys valueSize ts := by
  induction h with
  | enter =>
    exact { requests := rfl, loaded := rfl, fault := rfl, earlier := by simp, answered := by simp
            length_le := Nat.zero_le _ }
  | @turn ts p p' t token r outcome hcourse hask ho ih =>
    obtain ⟨hfault, rfl, key, hkey, rfl⟩ := of_send hask
    obtain ⟨hall, hloaded⟩ := ih.sound hfault
    have hlt : p'.loaded < keys.keys.size := (Array.getElem?_eq_some_iff.mp hkey).1
    generalize hx : script.turn (weightOf ts) t (.set key valueSize preloadFill) = x at *
    have hrequest : x.request = .set key valueSize preloadFill := by
      rw [← hx]
      rfl
    have hanswer : x.answer ≠ .dies := by
      intro hdies
      simp [hdies, Answer.outcome] at ho
    refine
      { requests := ?_, loaded := ?_, fault := ?_, earlier := hall
        answered := by simpa using ⟨hanswer, ih.answered⟩, length_le := ?_ }
    · have hkey' : keys.keys.toList[ts.length]? = some key := by
        rw [← hloaded, Array.getElem?_toList]
        exact hkey
      rw [List.reverse_cons, List.map_append, ih.requests, List.length_cons]
      simp [writes, List.take_add_one, hkey', hrequest]
    · cases hx' : x.answer with
      | dies => exact absurd hx' hanswer
      | done value =>
        obtain rfl : .ok value = outcome := by simpa [hx', Answer.outcome] using ho
        simp [job, advance, ih.loaded, Turn.succeeded, hx']
      | failed cause =>
        obtain rfl : .error cause = outcome := by simpa [hx', Answer.outcome] using ho
        simp [job, ih.loaded, Turn.succeeded, hx']
    · cases hx' : x.answer with
      | dies => exact absurd hx' hanswer
      | done value =>
        obtain rfl : .ok value = outcome := by simpa [hx', Answer.outcome] using ho
        simp [job, advance, hfault, Turn.fault?, hx']
      | failed cause =>
        obtain rfl : .error cause = outcome := by simpa [hx', Answer.outcome] using ho
        simp [job, Turn.fault?, hx']
    · rw [List.length_cons, ← hloaded]
      exact hlt

end Preload

/-! ## A caller by itself -/

namespace Crew.Reaches

variable {σ : Type} {scene : Scene} {job : Job σ} {w v : World} {crew : Crew σ} {c : Caller σ}

/-- The only caller of a crew is the next one that the server meets. -/
theorem number_alone (h : Crew.Reaches scene w (.atOpenGate w job 1) v crew)
    (hc : crew.callers = [c]) {k : Nat} (hk : c.number = some k) : k = w.met := by
  have hs := Crew.atOpenGate_starts w job 1
  obtain ⟨hlow, hhigh⟩ := (h.grounded hs).numbers 0 c k (by simp [hc]) hk
  have hmet := h.met_eq hs
  have hone : Crew.numbered crew.callers ≤ crew.callers.length := List.countP_le_length
  rw [hc, List.length_singleton] at hone
  rw [hc] at hmet
  omega

end Crew.Reaches

/-- What a caller did that served and stopped in the state `s`: it had these turns, and when it
looked for the last time it had seen `seen` of the trace. -/
structure Job.Served {σ : Type} (job : Job σ) (script : Script) (w : World) (k : Nat)
    (tr seen : List Entry) (ts : List Turn) (s : σ) : Prop where
  share : ∃ n, share k tr = .made k n true ts none ∧ share k seen = .made k n true ts none
  suffix : seen <:+ tr
  stopped : ∃ i opened start t s₀, job.Course script i opened start ts s₀ t ∧
    job.ask t (w.tokenAfter seen) s₀ = .stop s

namespace Crew.Reaches

variable {σ : Type} {scene : Scene} {job : Job σ} {w v : World} {crew : Crew σ} {c : Caller σ}

/-- A caller by itself that no answer kills has served, or the server saw only attempts of it. -/
theorem departs_alone (h : Crew.Reaches scene w (.atOpenGate w job 1) v crew)
    (hc : crew.callers = [c]) {how : Departure σ} (hend : c.stage = .ended how) (hj : job.Lasts)
    (hreply : ∀ now token s s' n r, job.ask now token s = .send r s' →
      ((scene.script w.met).replyTo n r).answer ≠ .dies) :
    (∃ s seen ts, how = .served s ∧
      job.Served (scene.script w.met) w w.met (v.since w) seen ts s) ∨
    ((∀ s, how ≠ .served s) ∧ ∃ n, share w.met (v.since w) = .made w.met n false [] none) := by
  have hs := Crew.atOpenGate_starts w job 1
  have hf := h.faithful hs
  have ha := hf.agrees 0 c (by simp [hc])
  rw [Caller.Agrees, hend, h.job_eq.1] at ha
  have hwho : ∀ {k : Nat}, c.number = some k → c.who = w.met := fun hk =>
    (Caller.who_eq hk).trans (h.number_alone hc hk)
  have hdials : ∀ {n : Nat}, c.Dials (v.since w) n false →
      ∃ n, share w.met (v.since w) = .made w.met n false [] none := by
    intro n hdials
    cases hk : c.number with
    | some k =>
      obtain rfl := h.number_alone hc hk
      exact ⟨n, hdials.share _ hk⟩
    | none =>
      refine ⟨0, share_of_absent fun e he hcaller => ?_⟩
      obtain ⟨d, hd, hdk⟩ := hf.heard e he _ hcaller
      rw [hc, List.mem_singleton] at hd
      simp [hd, hk] at hdk
  cases how with
  | served s =>
    obtain ⟨ts, s₀, t, seen, hshow, ⟨o, -, hcourse⟩, hseen, hshown, -, hask⟩ := ha
    obtain ⟨k, hk⟩ := hshow.numbered
    have hshare := hshow.share
    have hshare' := hshown.share
    rw [hwho hk] at hcourse hshare hshare'
    exact .inl ⟨s, seen, ts, rfl, ⟨_, hshare, hshare'⟩, hseen, 0, o, _, t, s₀, hcourse, hask⟩
  | unserved dialled =>
    right
    refine ⟨by simp, ?_⟩
    cases dialled with
    | ok =>
      -- its gate has stood open from the start
      have hstuck := ha.2 rfl
      rw [h.gate_eq rfl] at hstuck
      simp at hstuck
    | error fault => exact hdials ha.1
  | died state =>
    right
    refine ⟨by simp, ?_⟩
    cases state with
    | none => exact hdials ha.1
    | some s =>
      obtain ⟨-, ts, s₀, t, token, -, ⟨-, hask, -⟩ | ⟨r, hshow, hask, hdies⟩⟩ := ha
      · exact absurd hask (hj t token s₀)
      · obtain ⟨k, hk⟩ := hshow.numbered
        rw [hwho hk] at hdies
        exact absurd hdies (hreply t token s₀ s _ r hask)

end Crew.Reaches

/-! ## The preload -/

/-- What a preload by caller `k` that began in `w` wrote. -/
structure KeySpace.Written (keys : KeySpace) (valueSize : Nat) (w : World) (k : Nat)
    (tr : List Entry) : Prop where
  /-- One caller, … -/
  alone : ∀ e ∈ tr, ∀ j, e.event.caller? = some j → j = k
  /-- … one connection, … -/
  connection : ∀ newer older t, tr = newer ++ ⟨t, .connected k⟩ :: older →
    ∀ e ∈ newer, e.event ≠ .connected k ∧ e.event ≠ .attempted k
  /-- … and one write at a time, over the connection: that of the next key, when all before it are
  acknowledged and the token was just found unset. -/
  started : ∀ t q older, ⟨t, .asked k q⟩ :: older <:+ tr →
    (Dealings.ofHistory older k).connected = true ∧ pending k older = none ∧
      (∀ x ∈ turns k older, x.succeeded = true) ∧ w.tokenAfter older = false ∧
      ∃ key, keys.key? (turns k older).length = some key ∧ q = .set key valueSize preloadFill
  /-- So the writes are those of the first keys, in their order, each position once, … -/
  order : (Dealings.ofHistory tr k).requests = Preload.writes keys valueSize (turns k tr).length
  positions : (turns k tr).length ≤ keys.size
  /-- … and all of them have their answer. -/
  answered : pending k tr = none

/-- What a preload by caller `k` that began in `w` wrote, and its result `r`. -/
structure KeySpace.Preloaded (keys : KeySpace) (valueSize : Nat) (w : World) (k : Nat)
    (tr : List Entry) (r : Except Stop PreloadReport) : Prop
    extends keys.Written valueSize w k tr where
  /-- A failed write is reported, and nothing else is reported like that: with the position of the
  key, which is the number of writes acknowledged before it, the key and the fault. It is the
  last. -/
  failed : ∀ cause, (∃ x ∈ turns k tr, x.answer = .failed cause) ↔
    ∃ index key, r = .error (.fault (.preload index key cause))
  failure : ∀ index key cause, r = .error (.fault (.preload index key cause)) →
    index = (turns k tr).countP Turn.succeeded ∧ keys.key? index = some key ∧
      ∃ x earlier, turns k tr = x :: earlier ∧ x.answer = .failed cause ∧
        x.request = .set key valueSize preloadFill ∧ ∀ y ∈ earlier, y.succeeded = true
  /-- Once connected, and without a failed write, there is a report … -/
  reports : (Dealings.ofHistory tr k).connected = true →
    (∀ x ∈ turns k tr, ∀ cause, x.answer ≠ .failed cause) → ∃ report, r = .ok report
  /-- … of the number of acknowledged writes, which are those of the first keys. -/
  loaded : ∀ report, r = .ok report →
    report.loaded = (turns k tr).countP Turn.succeeded ∧
      ((turns k tr).reverse.filter Turn.succeeded).map (·.request)
        = Preload.writes keys valueSize report.loaded ∧
      (report.complete = true ↔ report.loaded = keys.size)
  /-- The preload is incomplete exactly when it looked before some write and found the token
  set; … -/
  incomplete : ∀ report, r = .ok report → (report.complete = false ↔ ∃ seen, seen <:+ tr ∧
    (Dealings.ofHistory seen k).connected = true ∧ pending k seen = none ∧
      (turns k seen).length < keys.size ∧ w.tokenAfter seen = true)
  /-- … it is complete when the last write was made, whatever became of the token. -/
  lastWrite : ∀ t q older, ⟨t, .asked k q⟩ :: older <:+ tr →
    (turns k older).length + 1 = keys.size → (∀ x ∈ turns k tr, ∀ cause, x.answer ≠ .failed cause) →
    r = .ok { loaded := keys.size, complete := true }
  /-- Whoever sends traffic for these keys later asks for one that was written. -/
  sampled : ∀ report, r = .ok report → report.complete = true →
    ∀ (scene : Scene) (request : String → Request) (window : Duration) (seed : Nat → Nat)
      (u u' : World) (crew₀ crew : Crew Traffic), crew₀.Starts u →
      crew₀.job = Traffic.job keys request window seed → Crew.Reaches scene u crew₀ u' crew →
      ∀ t j q, ⟨t, .asked j q⟩ ∈ u'.since u → ∃ key, q = request key ∧
        ∃ x ∈ turns k tr, x.request = .set key valueSize preloadFill ∧ x.succeeded = true
  /-- Without a connection nothing is written, and there is no report. -/
  unconnected : (Dealings.ofHistory tr k).connected = false →
    (∀ e ∈ tr, ∀ q, e.event ≠ .asked k q) ∧ ∃ e, r = .error e

namespace KeySpace

variable {keys : KeySpace} {valueSize every : Nat} {w v : World} {scene : Scene}
  {crew : Crew Preload} {c : Caller Preload} {tr seen : List Entry} {ts : List Turn} {p : Preload}
  {k n : Nat}

/-- A trace in which a caller has no turn and no open request has no request of it. -/
theorem not_asked_of_share {connected : Bool} (h : share k tr = .made k n connected [] none) :
    ∀ t q older, ¬ ⟨t, .asked k q⟩ :: older <:+ tr := by
  intro t q older hs
  have hle := asks_mono (k := k) hs
  have hturns : turns k tr = [] := congrArg Share.turns h
  have hpending : pending k tr = none := congrArg Share.pending h
  simp [hturns, hpending, pending] at hle

/-- Nothing but writes is among the writes. -/
theorem filter_writes (keys : KeySpace) (valueSize n : Nat) :
    (Preload.writes keys valueSize n).filter (· ≠ .ping) = Preload.writes keys valueSize n := by
  rw [List.filter_eq_self]
  intro r hr
  obtain ⟨key, -, rfl⟩ := List.mem_map.mp hr
  simp

/-- All keys are among those that were written when there are as many writes as keys. -/
theorem mem_writes {key : String} (h : key ∈ keys.keys) :
    .set key valueSize preloadFill ∈ Preload.writes keys valueSize keys.size := by
  have hall : keys.keys.toList.take keys.size = keys.keys.toList := List.take_length
  rw [Preload.writes, hall]
  exact List.mem_map_of_mem (Array.mem_toList_iff.mpr h)

/-- What a caller by itself wrote, given what it has to show for itself. -/
theorem written_of_share (h : Crew.Reaches scene w (.atOpenGate w (Preload.job keys valueSize every) 1)
    v crew) (hc : crew.callers = [c]) {connected : Bool}
    (hshare : share w.met (v.since w) = .made w.met n connected ts none)
    (hwrites : ts.reverse.map (·.request) = Preload.writes keys valueSize ts.length)
    (hle : ts.length ≤ keys.size) : keys.Written valueSize w w.met (v.since w) := by
  have hs := Crew.atOpenGate_starts w (Preload.job keys valueSize every) 1
  have hf := h.faithful hs
  have hturns : turns w.met (v.since w) = ts := congrArg Share.turns hshare
  refine
    { alone := ?_, connection := ?_, started := ?_, order := ?_
      positions := hturns ▸ hle, answered := congrArg Share.pending hshare }
  · intro e he j hj
    obtain ⟨d, hd, hnumber⟩ := hf.heard e he j hj
    rw [hc, List.mem_singleton] at hd
    exact h.number_alone hc (hd ▸ hnumber)
  · intro newer older t heq e he
    obtain ⟨later, between, rfl⟩ := List.append_of_mem he
    have hnow : (Dealings.ofHistory (between ++ ⟨t, .connected w.met⟩ :: older) w.met).connected
        = true := Dealings.connected_of_mem (t := t) (by simp)
    rw [List.append_assoc, List.cons_append] at heq
    have he := h.linked_at hs heq
    unfold Entry.Linked at he
    constructor <;> intro hevent <;> simp [hevent, hnow] at he
  · intro t q older hsuffix
    obtain ⟨i, opened, start, ts', p, p', -, -, hcourse, hask, hturns, hpending⟩ :=
      hf.licensed t w.met q older hsuffix
    rw [h.job_eq.1] at hcourse hask
    obtain ⟨hfault, -, key, hkey, hq⟩ := Preload.of_send hask
    obtain ⟨hall, hloaded⟩ := (Preload.course_tells hcourse).sound hfault
    obtain ⟨newer, heq⟩ := hsuffix
    have hunset := (Preload.job_heeds keys valueSize every).unset (h.job_eq.1 ▸ hf.licensed) heq.symm
    rw [hturns]
    exact ⟨h.linked_at hs heq.symm, hpending, hall, hunset, key, hloaded ▸ hkey, hq⟩
  · have hrequests : (Dealings.ofHistory (v.since w) w.met).requests
        = (requestsOf ts none).filter (· ≠ .ping) :=
      congrArg (fun sh => sh.dealings.requests) hshare
    rw [hrequests, hturns, requestsOf, hwrites]
    simpa using filter_writes keys valueSize ts.length

/-- No write follows when the token is set. -/
theorem Written.ends_of_token (hw : keys.Written valueSize w k tr) (hseen : seen <:+ tr)
    (hopen : pending k seen = none) (hset : w.tokenAfter seen = true) :
    turns k tr = turns k seen := by
  obtain ⟨newer, rfl⟩ := hseen
  refine (turns_of_unasked hopen fun e he q hq => ?_).2
  obtain ⟨later, between, rfl⟩ := List.append_of_mem he
  obtain ⟨t, _⟩ := e
  obtain rfl : _ = Happening.asked k q := hq
  have hunset := (hw.started t q (between ++ seen) ⟨later, by simp⟩).2.2.2.1
  rw [World.tokenAfter_mono (List.suffix_append between seen) hset] at hunset
  simp at hunset

/-- A preload that found no connection has written nothing. -/
theorem Written.unserved (hw : keys.Written valueSize w k tr)
    (hshare : share k tr = .made k n false [] none) {e : Stop}
    (he : ∀ index key cause, e ≠ .fault (.preload index key cause)) :
    keys.Preloaded valueSize w k tr (.error e) := by
  have hturns : turns k tr = [] := congrArg Share.turns hshare
  have hconnected : (Dealings.ofHistory tr k).connected = false :=
    congrArg (fun sh => sh.dealings.connected) hshare
  have hasked := not_asked_of_share hshare
  exact
    { hw with
      failed := by simp [hturns, he]
      failure := by simp [he]
      reports := by simp [hconnected]
      loaded := by simp
      incomplete := by simp
      lastWrite := fun t q older hs => absurd hs (hasked t q older)
      sampled := by simp
      unconnected := by
        refine fun _ => ⟨fun e' he' q hq => ?_, e, rfl⟩
        obtain ⟨newer, older, rfl⟩ := List.append_of_mem he'
        obtain ⟨t, _⟩ := e'
        exact hasked t q older (hq ▸ List.suffix_append newer _) }

/-- A preload that served reports on what it wrote. -/
theorem Written.served (hw : keys.Written valueSize w k tr) {script : Script}
    (hserved : (Preload.job keys valueSize every).Served script w k tr seen ts p) :
    keys.Preloaded valueSize w k tr (p.verdict keys) := by
  obtain ⟨n, hshare, hseen⟩ := hserved.share
  obtain ⟨i, opened, start, t, p₀, hcourse, hask⟩ := hserved.stopped
  obtain rfl := Preload.of_stop hask
  have htells := Preload.course_tells hcourse
  have hturns : turns k tr = ts := congrArg Share.turns hshare
  have hpending : pending k tr = none := hw.answered
  refine
    { hw with
      failed := fun cause => ?_, failure := fun index key cause hfault => ?_, reports := ?_
      loaded := ?_, incomplete := ?_, lastWrite := ?_, sampled := ?_, unconnected := ?_ }
  · rw [hturns]
    exact htells.verdict_error_iff cause
  · rw [hturns]
    exact htells.of_verdict_error hfault
  · intro _ hall
    exact ⟨_, Preload.verdict_of_sound (htells.unbroken (hturns ▸ hall))⟩
  · intro report hok
    obtain ⟨hall, hloaded, hcount, hcomplete⟩ := htells.of_verdict_ok hok
    rw [hturns, List.filter_eq_self.mpr fun x hx => hall x (List.mem_reverse.mp hx),
      htells.requests, hloaded]
    exact ⟨hloaded ▸ hcount, rfl, hcomplete⟩
  · intro report hok
    obtain ⟨-, hloaded, -, hcomplete⟩ := htells.of_verdict_ok hok
    constructor
    · intro hno
      have hne : ts.length ≠ keys.size := fun heq => by
        rw [hcomplete.mpr heq] at hno
        simp at hno
      have hlt : ts.length < keys.size := Nat.lt_of_le_of_ne htells.length_le hne
      have hsame : turns k seen = ts := congrArg Share.turns hseen
      refine ⟨seen, hserved.suffix, congrArg (fun sh => sh.dealings.connected) hseen,
        congrArg Share.pending hseen, hsame ▸ hlt, ?_⟩
      obtain ⟨hp, rfl⟩ := Preload.of_verdict_ok hok
      rcases Preload.ends_of_stop hask with hfault | hend | hset
      · simp [hp] at hfault
      · replace hloaded : p.loaded = ts.length := hloaded
        omega
      · exact hset
    · rintro ⟨earlier, hsuffix, -, hopen, hlt, hset⟩
      rw [← hw.ends_of_token hsuffix hopen hset, hturns] at hlt
      cases hc : report.complete with
      | false => rfl
      | true => exact absurd (hcomplete.mp hc) (Nat.ne_of_lt hlt)
  · intro t q older hsuffix hlast hall
    have hp := htells.unbroken (hturns ▸ hall)
    have hmono := asks_mono (k := k) hsuffix
    rw [hturns, hpending] at hmono
    simp only [turns, pending, if_true, Option.toList_some, List.length_singleton, hlast,
      Option.toList_none, List.length_nil, Nat.add_zero] at hmono
    have hlength : p.loaded = keys.size :=
      (htells.sound hp).2.trans (Nat.le_antisymm htells.length_le hmono)
    rw [Preload.verdict_of_sound hp, hlength]
    simp
  · intro report hok hcomplete scene request window seed u u' crew₀ crew hs hjob hreach t j q hasked
    obtain ⟨hall, -, -, hiff⟩ := htells.of_verdict_ok hok
    obtain ⟨key, hkey, hq⟩ := hreach.sends hs
      (hjob ▸ Traffic.job_sends keys request window seed) hasked
    have hmem : .set key valueSize preloadFill ∈ Preload.writes keys valueSize keys.size :=
      mem_writes hkey
    rw [← hiff.mp hcomplete, ← htells.requests] at hmem
    obtain ⟨x, hx, hrequest⟩ := List.mem_map.mp hmem
    have hx' : x ∈ ts := List.mem_reverse.mp hx
    exact ⟨key, hq, x, hturns ▸ hx', hrequest, hall x hx'⟩
  · intro hno
    have hconnected : (Dealings.ofHistory tr k).connected = true :=
      congrArg (fun sh => sh.dealings.connected) hshare
    simp [hconnected] at hno

/-- Logs make no difference to what was written. -/
theorem Preloaded.quiet {before : World} {r : Except Stop PreloadReport} (hq : w.Quiet before)
    (h : keys.Preloaded valueSize before k tr r) : keys.Preloaded valueSize w k tr r := by
  exact
    { h with
      started := by simpa only [hq.tokenAfter] using h.started
      incomplete := by simpa only [hq.tokenAfter] using h.incomplete }

/-- A caller by itself that no answer kills has loaded the keys, or some of them. -/
theorem preloaded_of_ended (h : Crew.Reaches scene w
      (.atOpenGate w (Preload.job keys valueSize every) 1) v crew)
    (hc : crew.callers = [c]) {how : Departure Preload} (hend : c.stage = .ended how)
    (halive : ∀ n, ((scene.script w.met).reply n).answer ≠ .dies) (target : Target) (tries : Nat) :
    keys.Preloaded valueSize w w.met (v.since w)
      (how.result target tries >>= Preload.verdict keys) := by
  have hreply : ∀ now token p p' n r,
      (Preload.job keys valueSize every).ask now token p = .send r p' →
      ((scene.script w.met).replyTo n r).answer ≠ .dies := by
    intro now token p p' n r hask
    obtain ⟨-, -, key, -, rfl⟩ := Preload.of_send hask
    exact halive n
  rcases h.departs_alone hc hend (Preload.job_lasts keys valueSize every) hreply with
    ⟨p, seen, ts, rfl, hserved⟩ | ⟨hnot, n, hshare⟩
  · obtain ⟨n, hshare, -⟩ := hserved.share
    obtain ⟨i, opened, start, t, p₀, hcourse, -⟩ := hserved.stopped
    have htells := Preload.course_tells hcourse
    exact (written_of_share h hc hshare htells.requests htells.length_le).served hserved
  · have hwritten := written_of_share h hc hshare rfl (Nat.zero_le _)
    cases how with
    | served s => exact absurd rfl (hnot s)
    | died => exact hwritten.unserved hshare (by simp)
    | unserved dialled =>
      cases dialled with
      | ok => exact hwritten.unserved hshare (by simp)
      | error fault =>
        apply hwritten.unserved hshare
        intro index key cause
        cases fault <;> simp [DialFault.toRunFault]

/-- **A preload writes the first keys in their order, and says how many**, for every key space, value
size and interval of reports, and whenever the token is set. It does come to a result. -/
theorem preloaded (keys : KeySpace) (scene : Scene) (target : Target) (valueSize every : Nat)
    (w : World) (halive : ∀ n, ((scene.script w.met).reply n).answer ≠ .dies) :
    (∀ (harness : Harness Option) (w' : World) (r : Except Stop PreloadReport),
      harness.Follows scene → harness.preload target keys valueSize every w = some (w', r) →
      keys.Preloaded valueSize w w.met (w'.since w) r) ∧
    (∀ limit, (scene.harness limit).Follows scene) ∧
    ∃ (limit : Nat) (w' : World) (r : Except Stop PreloadReport), ∀ more, limit ≤ more →
      (scene.harness more).preload target keys valueSize every w = some (w', r) := by
  refine ⟨?_, scene.harness_follows, ?_⟩
  · intro harness w' r hf hrun
    obtain ⟨before, v, r₀, hbefore, halone, hafter, rfl⟩ := Harness.of_preload hrun
    obtain ⟨u, crew, c, how, hreach, -, hcallers, hend, hquiet, rfl⟩ := Harness.alone_ends hf halone
    rw [← hbefore.met] at halive
    have hloaded := preloaded_of_ended hreach hcallers hend halive target harness.policy.tries
    rw [hafter.since, hquiet.since, ← hbefore.since_left, ← hbefore.met]
    exact hloaded.quiet hbefore
  · obtain ⟨limit, ⟨w', r⟩, hsettles⟩ :=
      Harness.preload_settles scene target keys valueSize every w
    exact ⟨limit, w', r, hsettles⟩

end KeySpace

/-! ## Three positions for two keys

The first key is written twice, and the token is set during the last write. -/

namespace Sample

def ring : KeySpace :=
  { keys := KeySpace.keysOf 3 (.decimal 2)
    mode := .decimal 2
    keys_pos := by rw [KeySpace.size_keysOf]; decide }

/-- The script of a caller that is interrupted in its third request. -/
def closing : Script :=
  .ofLists [] .plain (.plain ⟨0⟩)
    [(2, .plain (.ofMillis 1)), (1, ⟨.ofMillis 1, true, .done none⟩)] .repeatLast

theorem closing_answers (n : Nat) : (closing.reply n).answer = .done none := by
  have hplace : ∀ i, i ≤ 2 → ((Reply.atPlace
      [(2, .plain (.ofMillis 1)), (1, ⟨.ofMillis 1, true, .done none⟩)] i).getD
        (.plain (.ofMillis 1))).answer = .done none := by
    decide
  exact hplace _ (Nat.min_le_right n 2)

def ebbing : Scene := { policy, script := fun _ => closing }

end Sample

theorem KeySpace.preloaded_sample : ∃ w' : World,
    (Sample.ebbing.harness 20).preload Sample.target Sample.ring 64 0 (.start none)
      = some (w', .ok { loaded := 3, complete := true }) ∧
    w'.token = true ∧
    (Dealings.ofHistory w'.history 0).requests
      = ["key:0", "key:1", "key:0"].map (.set · 64 'X') ∧
    Sample.ring.Preloaded 64 (.start none) 0 w'.history (.ok { loaded := 3, complete := true }) := by
  have hrun : ((Sample.ebbing.harness 20).preload Sample.target Sample.ring 64 0 (.start none)).map
      (fun p => (p.2.toOption, p.1.token, (Dealings.ofHistory p.1.history 0).requests))
      = some (some { loaded := 3, complete := true }, true,
          ["key:0", "key:1", "key:0"].map (.set · 64 'X')) := by
    decide +kernel
  obtain ⟨⟨w', r⟩, hrun, heq⟩ := Option.map_eq_some_iff.mp hrun
  obtain ⟨hok, heq⟩ := Prod.mk.inj heq
  obtain ⟨htoken, hrequests⟩ := Prod.mk.inj heq
  obtain rfl := Sample.ok_of_toOption hok
  obtain ⟨hpreloaded, hmachine, -⟩ := KeySpace.preloaded Sample.ring Sample.ebbing Sample.target 64 0
    (.start none) fun n => by
      show (Sample.closing.reply n).answer ≠ _
      simp [Sample.closing_answers]
  have hall := hpreloaded _ w' _ (hmachine 20) hrun
  have hsince : w'.since (.start none) = w'.history := List.take_length
  rw [hsince] at hall
  exact ⟨w', hrun, htoken, hrequests, hall⟩

end LoadSweep
