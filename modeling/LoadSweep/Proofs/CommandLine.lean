import LoadSweep.Command.Line
import LoadSweep.Proofs.Fallible

/-!
# `LoadSweep/Proofs/CommandLine.lean` — what a command line can ask for

Two values that a program could not work with never get past the reading of the command line: an
empty output path, which is refused where it is looked at, and a modulus of zero, for which there is
no word. `Given.Sound` says so of what was set so far. Only `Given.set` changes that, and only when
an option is looked at; everything else that a word can do leaves it alone.
-/

set_option autoImplicit false

namespace LoadSweep.Command

/-- The output path is no empty text, and the modulus of the keys is not zero. -/
structure Given.Sound (g : Given) : Prop where
  out : g.out ≠ some ""
  keyMode : g.keyMode ≠ some (.decimal 0)

theorem of_once {α : Type} {s : Setting} {value : String} {old new : Option α}
    {parse : String → Except String α} (h : once s value old parse = .ok new) :
    old = none ∧ ∃ a, parse value = .ok a ∧ new = some a := by
  unfold once at h
  split at h
  · simp at h
  · rename_i hnone
    refine ⟨Option.not_isSome_iff_eq_none.mp hnone, ?_⟩
    cases hparse : parse value with
    | error => simp [hparse] at h
    | ok a =>
      rw [hparse] at h
      exact ⟨a, rfl, (Except.ok.inj h).symm⟩

/-- A word for a mode never means the modulus zero. -/
theorem parseMode_ne {value : String} {mode : KeyMode} (h : parseMode value = .ok mode) :
    mode ≠ .decimal 0 := by
  unfold parseMode KeyMode.parse at h
  dsimp only at h
  split at h
  · obtain rfl := Except.ok.inj h
    simp
  · split at h
    · obtain rfl := Except.ok.inj h
      decide
    · nomatch h

/-- **What an option sets is sound.** -/
theorem Given.Sound.set {g g' : Given} {s : Setting} {value : String} (hg : g.Sound)
    (h : g.set s value = .ok g') : g'.Sound := by
  cases s with
  | out =>
    unfold Given.set at h
    dsimp only at h
    split at h
    · simp at h
    · rename_i hvalue
      obtain ⟨v, hv, rfl⟩ := Fallible.ok_of_map h
      obtain ⟨hnone, a, ha, rfl⟩ := of_once hv
      obtain rfl := Except.ok.inj ha
      refine ⟨?_, hg.keyMode⟩
      rintro hempty
      exact hvalue ⟨Option.some.inj hempty, by rw [hnone]; rfl⟩
  | keyMode =>
    obtain ⟨v, hv, rfl⟩ := Fallible.ok_of_map h
    obtain ⟨-, mode, hmode, rfl⟩ := of_once hv
    exact ⟨hg.out, fun hzero => parseMode_ne hmode (Option.some.inj hzero)⟩
  | name | host | port | keys | values | clients | ops | duration | warmupSec | reportInterval =>
    obtain ⟨_, -, rfl⟩ := Fallible.ok_of_map h
    exact ⟨hg.out, hg.keyMode⟩

theorem Given.Sound.settings {g : Given} (hg : g.Sound) :
    g.settings.out ≠ "" ∧ g.settings.keyMode ≠ .decimal 0 := by
  refine ⟨?_, ?_⟩
  · show g.out.getD "results.csv" ≠ ""
    cases hout : g.out with
    | none => decide
    | some path =>
      rintro rfl
      exact hg.out hout
  · show g.keyMode.getD .sequential ≠ .decimal 0
    cases hmode : g.keyMode with
    | none => simp
    | some mode =>
      rintro rfl
      exact hg.keyMode hmode

namespace Reading

variable {r r' : Reading} {word : String}

theorem look_sound {s : Setting} {value : String} (hr : r.given.Sound)
    (h : r.look s value = .ok r') : r'.given.Sound := by
  obtain ⟨g, hset, rfl⟩ := Fallible.ok_of_map h
  exact hr.set hset

theorem settle_sound (hr : r.given.Sound) (h : r.settle = .ok r') : r'.given.Sound := by
  unfold settle at h
  split at h
  · obtain rfl := Except.ok.inj h
    exact hr
  · simp at h
  · exact look_sound (r := { r with pending := none }) hr h

theorem readLong_sound {value : Option String} (hr : r.given.Sound)
    (h : r.readLong word value = .ok r') : r'.given.Sound := by
  unfold readLong at h
  split at h
  · obtain ⟨r₁, hsettle, h⟩ := Fallible.ok_of_bind h
    have hr₁ := settle_sound hr hsettle
    cases value with
    | some value => exact look_sound hr₁ h
    | none =>
      obtain rfl := Except.ok.inj h
      exact hr₁
  · split at h
    · cases value with
      | some => simp at h
      | none =>
        obtain ⟨r₁, hsettle, h⟩ := Fallible.ok_of_bind h
        have hr₁ := settle_sound hr hsettle
        split at h
        · simp at h
        · split at h
          · simp at h
          · split at h
            · simp at h
            · obtain rfl := Except.ok.inj h
              exact ⟨hr₁.out, hr₁.keyMode⟩
    · simp at h

/-- A short option ends the reading. -/
theorem readShort_ne_ok (letter : Char) : r.readShort letter ≠ .ok r' := by
  unfold readShort
  split
  · cases r.settle <;> simp [Except.bind]
  · split
    · cases r.settle <;> simp [Except.bind]
    · simp

theorem read_sound (hr : r.given.Sound) (h : r.read word = .ok r') : r'.given.Sound := by
  unfold read at h
  split at h
  · simp at h
  · split at h
    · obtain rfl := Except.ok.inj h
      exact hr
    · exact readLong_sound hr h
    · exact absurd h (readShort_ne_ok _)
    · split at h
      · obtain rfl := Except.ok.inj h
        exact hr
      · simp at h

theorem readAll_sound {words : List String} {settings : Settings} (hr : r.given.Sound)
    (h : r.readAll words = .ok settings) :
    settings.out ≠ "" ∧ settings.keyMode ≠ .decimal 0 := by
  induction words generalizing r with
  | nil =>
    obtain ⟨r₁, hsettle, rfl⟩ := Fallible.ok_of_map h
    exact (settle_sound hr hsettle).settings
  | cons word rest ih =>
    unfold readAll at h
    cases hread : r.read word with
    | error => simp [hread] at h
    | ok r₁ =>
      rw [hread] at h
      exact ih (read_sound hr hread) h

end Reading

/-- **A command line that was read has an output path and a modulus.** -/
theorem parseLine_sound {words : List String} {settings : Settings}
    (h : parseLine words = .ok settings) : settings.out ≠ "" ∧ settings.keyMode ≠ .decimal 0 :=
  Reading.readAll_sound ⟨by simp [Reading.start], by simp [Reading.start]⟩ h

end LoadSweep.Command
