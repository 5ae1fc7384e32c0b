/-!
# `LoadSweep/Proofs/Fallible.lean` — computations that may fail, taken apart

The reading of a command line and the phases of a run are chains of steps, each of which may fail.
What is known of the end of a chain says something about its first step.
-/

set_option autoImplicit false

namespace LoadSweep.Fallible

variable {ε α β : Type} {x : Except ε α}

theorem map_ok {f : α → β} {a : α} {b : β} (h : x = .ok a) (hb : f a = b) : x.map f = .ok b := by
  rw [h, ← hb]
  rfl

theorem ok_of_map {f : α → β} {b : β} (h : x.map f = .ok b) : ∃ a, x = .ok a ∧ f a = b := by
  cases x with
  | error => simp [Except.map] at h
  | ok a => exact ⟨a, rfl, Except.ok.inj h⟩

theorem error_of_map {f : α → β} {e : ε} (h : x.map f = .error e) : x = .error e := by
  cases x with
  | error => exact congrArg _ (Except.error.inj h)
  | ok => simp [Except.map] at h

theorem ok_of_bind {f : α → Except ε β} {b : β} (h : (x >>= f) = .ok b) :
    ∃ a, x = .ok a ∧ f a = .ok b := by
  cases x with
  | error => simp [bind, Except.bind] at h
  | ok a => exact ⟨a, rfl, h⟩

end LoadSweep.Fallible
