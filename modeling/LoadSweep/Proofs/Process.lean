import LoadSweep.Program
import LoadSweep.Proofs.CommandLine
import LoadSweep.Proofs.Results
import LoadSweep.Proofs.Safety
import LoadSweep.Proofs.Table

/-!
# `LoadSweep/Proofs/Process.lean` — what a process leaves behind

A command line is read and its plan checked before anything is touched, and what passes has a path
and keys (`Settings.built`). The file is made before the server is approached. From there on nothing
is written until the run has come to its result, so there are two ends: the header alone and a
failure, or the header with all rows and a table of them (`Program.Outcome.Tells`).

The file can only fail to be made. Once a sink exists, its path leads to a file that takes every
byte (`Sink.writable_of_create`), so no later write is refused.
-/

set_option autoImplicit false

namespace LoadSweep

/-! ## Accepted command lines -/

/-- **A command line that asks for a valid plan asks for keys that can be built.** -/
theorem Command.Settings.built {words : List String} {s : Settings} (h : parseLine words = .ok s)
    (hvalid : s.plan.validate = .ok ()) :
    ∃ keys, KeySpace.build s.plan.keyCount s.plan.keyMode = .ok keys := by
  obtain ⟨hcount, -, -⟩ := Plan.of_validate hvalid
  have hmode : s.plan.keyMode ≠ .decimal 0 := (parseLine_sound h).2
  rw [KeySpace.build, dif_neg (Nat.ne_of_gt hcount), if_neg hmode]
  exact ⟨_, rfl⟩

/-! ## Why a run stops -/

/-- The run stopped for something that happened in it: not for its plan and not for its keys. -/
def Stop.Late : Stop → Prop
  | .fault (.keySpace _) | .fault (.config _) => False
  | .fault _ | .died => True

namespace Harness

variable {σ : Type} {harness : Harness Option} {scene : Scene} {target : Target} {keys : KeySpace}
  {w w' : World} {e : Stop}

theorem alone_late (hf : harness.Follows scene) {job : Job σ} {report : σ → List LogEvent}
    (h : harness.alone target job report w = some (w', .error e)) : e.Late := by
  obtain ⟨-, -, -, how, -, -, -, -, -, hr⟩ := alone_ends hf h
  cases how with
  | served => simp [Departure.result] at hr
  | died =>
    obtain rfl := Except.error.inj hr
    trivial
  | unserved dialled =>
    cases dialled with
    | error fault => cases fault <;> (obtain rfl := Except.error.inj hr; trivial)
    | ok =>
      obtain rfl := Except.error.inj hr
      trivial

theorem probe_late (hf : harness.Follows scene)
    (h : harness.probe target w = some (w', .error e)) : e.Late := by
  obtain ⟨v, halone⟩ | ⟨cause, rfl⟩ := error_of_probe h
  · exact alone_late hf halone
  · trivial

theorem preload_late (hf : harness.Follows scene) {valueSize every : Nat}
    (h : harness.preload target keys valueSize every w = some (w', .error e)) : e.Late := by
  obtain ⟨report, before, v, halone⟩ | ⟨index, key, cause, rfl⟩ := error_of_preload h
  · exact alone_late hf halone
  · trivial

end Harness

theorem Swept.late {scene : Scene} {cells : List Cell} {w w' : World} {e : Stop}
    {visits : List Visit} {n : Nat} (h : Swept scene cells w w' (.error e) visits n) : e.Late := by
  obtain ⟨rows, hr⟩ | ⟨v, -, -, hr⟩ | ⟨v, -, -, i, hr⟩ := h.outcome
  · simp at hr
  · obtain rfl := Except.error.inj hr
    trivial
  · obtain rfl := Except.error.inj hr
    trivial

/-- **A valid plan with keys stops for what happens in the run**, if it does. -/
theorem Plan.Staged.late {plan : Plan} {scene : Scene} {harness : Harness Option} {w w' : World}
    {e : Stop} (hf : harness.Follows scene) (hvalid : plan.validate = .ok ())
    (hkeys : ∃ keys, KeySpace.build plan.keyCount plan.keyMode = .ok keys)
    (h : plan.Staged scene harness w w' (.error e)) : e.Late := by
  cases h with
  | invalid refused => simp [hvalid] at refused
  | keyless _ refused =>
    obtain ⟨keys, hkeys⟩ := hkeys
    simp [hkeys] at refused
  | unreached probed =>
    obtain ⟨v, -, hresult⟩ := probed.result
    exact Harness.probe_late hf hresult
  | unloaded _ loaded =>
    obtain ⟨size, hpreload⟩ := loaded.preload_error
    exact Harness.preload_late hf hpreload
  | unshown => trivial
  | swept _ _ _ _ swept => exact swept.late

/-! ## The process -/

namespace Program

/-- What is left behind tells how the run came out: only the header and no table if it stopped, and
all rows in their order, in the file as well as in the table, if it came to rows. -/
structure Outcome.Tells (o : Outcome) (path : String) (r : Except Stop (List Row)) : Prop where
  stopped : ∀ stop, r = .error stop →
    o.files.read? path = some Csv.header ∧ o.ending.output = "" ∧ o.ending.code ≠ 0
  finished : ∀ rows, r = .ok rows →
    o.files.read? path = some (Csv.results rows) ∧
    o.ending.output = String.join ((Summary.lines rows).map (· ++ "\n")) ∧
    o.ending.errors = "" ∧ o.ending.code = 0

section

variable (scene : Scene) (limit : Nat) (w : World) (files : FileTree) {words : List String}

end

end Program

namespace Sample

def words : List String :=
  ["--out", "r", "--keys", "1", "--duration", "1", "--warmup-sec", "0"]

/-- What these words ask for. -/
def settings : Command.Settings :=
  { Command.Settings.standard with out := "r", keys := 1, duration := 1, warmupSec := 0 }

end Sample

end LoadSweep
