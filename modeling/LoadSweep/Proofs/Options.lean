import Mathlib.Data.List.TakeWhile
import LoadSweep.Command.Line
import LoadSweep.Proofs.Fallible

/-!
# `LoadSweep/Proofs/Options.lean` — a command line as a row of options

Words are read one at a time, and a value is looked at later than it is read. Neither shows in what
a line sets. An option with its value, in one word or in two, and the switch are the `Use`s of a
line, and a line of them sets what they set one after the other (`Reading.At.run`).

`Reading.At` is the invariant: a reading stands *at* some settings if it has them once it has looked
at the option that waits. Each use takes it on by what the use sets (`Reading.At.step`), since the
next option is what makes a reading look at the one before.
-/

set_option autoImplicit false

namespace LoadSweep.Command

/-- An option on a command line. -/
inductive Use where
  /-- In one word: dashes, the word of the setting, an equals sign and the value. -/
  | joined (s : Setting) (value : String)
  /-- In two words, the value being the second. -/
  | apart (s : Setting) (value : String)
  /-- The switch. -/
  | skip
  deriving DecidableEq, Repr

namespace Use

def words : Use → List String
  | .joined s value => ["--" ++ s.word ++ "=" ++ value]
  | .apart s value => ["--" ++ s.word, value]
  | .skip => ["--" ++ skipWord]

/-- A value of its own begins with no dash. -/
def Allowed : Use → Prop
  | .apart _ value => value.toList.head? ≠ some '-'
  | .joined .. | .skip => True

instance : DecidablePred Allowed
  | .apart _ value => inferInstanceAs (Decidable (value.toList.head? ≠ some '-'))
  | .joined .. | .skip => inferInstanceAs (Decidable True)

/-- Sets what an option says, or the switch, which may stand once. -/
def apply (g : Given) : Use → Except UsageFault Given
  | .joined s value | .apart s value => g.set s value
  | .skip =>
    if g.skipPreload then .error (.repeated ("--" ++ skipWord))
    else .ok { g with skipPreload := true }

end Use

/-! ## Words -/

theorem Setting.equals_notMem_word (s : Setting) : '=' ∉ s.word.toList := by
  cases s <;> decide

theorem Setting.word_ne_nil (s : Setting) : s.word.toList ≠ [] := by
  cases s <;> decide

theorem Setting.ofWord?_skipWord : Setting.ofWord? skipWord = none := by decide

namespace Reading

theorem not_equals_of_notMem {cs : List Char} (h : '=' ∉ cs) :
    ∀ c ∈ cs, decide (c ≠ '=') = true := by
  intro c hc
  rw [decide_eq_true_eq]
  rintro rfl
  exact h hc

/-- A word without an equals sign is all name. -/
theorem cutAtEquals_bare {word : String} (h : '=' ∉ word.toList) :
    cutAtEquals word.toList = (word, none) := by
  have htake := List.takeWhile_eq_self_iff.mpr (not_equals_of_notMem h)
  have hdrop := List.dropWhile_eq_nil_iff.mpr (not_equals_of_notMem h)
  rw [cutAtEquals, htake, hdrop]
  simp

/-- The value is everything after the first equals sign. -/
theorem cutAtEquals_joined {word : String} (h : '=' ∉ word.toList) (value : String) :
    cutAtEquals (word.toList ++ '=' :: value.toList) = (word, some value) := by
  rw [cutAtEquals, List.takeWhile_append_of_pos (not_equals_of_notMem h),
    List.dropWhile_append_of_pos (not_equals_of_notMem h)]
  simp

variable {r r' : Reading} {g g' : Given} {s : Setting} {word value : String}

theorem read_long (hopen : r.closed = false) {cs : List Char} (hne : cs ≠ [])
    (hword : word.toList = '-' :: '-' :: cs) :
    r.read word = r.readLong (cutAtEquals cs).1 (cutAtEquals cs).2 := by
  obtain ⟨c, cs, rfl⟩ := List.exists_cons_of_ne_nil hne
  rw [read, hopen, hword]
  rfl

theorem read_joined (hopen : r.closed = false) (s : Setting) (value : String) :
    r.read ("--" ++ s.word ++ "=" ++ value) = r.readLong s.word (some value) := by
  have hword : ("--" ++ s.word ++ "=" ++ value).toList
      = '-' :: '-' :: (s.word.toList ++ '=' :: value.toList) := by simp
  have hne : s.word.toList ++ '=' :: value.toList ≠ [] :=
    List.append_ne_nil_of_left_ne_nil s.word_ne_nil _
  rw [read_long hopen hne hword, cutAtEquals_joined s.equals_notMem_word]

theorem read_bare (hopen : r.closed = false) (hne : word.toList ≠ []) (hbare : '=' ∉ word.toList) :
    r.read ("--" ++ word) = r.readLong word none := by
  have hword : ("--" ++ word).toList = '-' :: '-' :: word.toList := by simp
  rw [read_long hopen hne hword, cutAtEquals_bare hbare]

/-- A word that begins with no dash is the value that an option waits for. -/
theorem read_value (hopen : r.closed = false) (hpending : r.pending = some (s, none))
    (hdash : value.toList.head? ≠ some '-') :
    r.read value = .ok { r with pending := some (s, some value) } := by
  rw [read, hopen, if_neg (by decide)]
  split
  case h_1 hdashes => exact absurd (by rw [hdashes]; rfl) hdash
  case h_2 hdashes => exact absurd (by rw [hdashes]; rfl) hdash
  case h_3 hdashes => exact absurd (by rw [hdashes]; rfl) hdash
  case h_4 => rw [hpending]

/-! ## Uses -/

/-- A reading for which no option waits. -/
def idle (g : Given) (used : List String) : Reading :=
  { given := g, used, pending := none, closed := false }

/-- Once it has looked at the option that waits, a reading has these settings. -/
structure At (r : Reading) (g : Given) : Prop where
  opened : r.closed = false
  settles : ∃ used, r.settle = .ok (idle g used)

theorem idle_at (g : Given) (used : List String) : (idle g used).At g := ⟨rfl, used, rfl⟩

theorem look_idle (hset : g.set s value = .ok g') (used : List String) :
    ∃ used', (idle g used).look s value = .ok (idle g' used') := by
  refine ⟨UsageFault.including used s.usage, ?_⟩
  rw [look, idle, hset]
  rfl

/-- An option that waits with its value counts as looked at. -/
theorem waiting_at (hset : g.set s value = .ok g') (used : List String) :
    At { idle g used with pending := some (s, some value) } g' :=
  ⟨rfl, look_idle hset used⟩

theorem At.joined (h : r.At g) (hset : g.set s value = .ok g') :
    ∃ r' : Reading, r'.At g' ∧ r.read ("--" ++ s.word ++ "=" ++ value) = .ok r' := by
  obtain ⟨used, hsettle⟩ := h.settles
  obtain ⟨used', hlook⟩ := look_idle hset used
  refine ⟨idle g' used', idle_at g' used', ?_⟩
  rw [read_joined h.opened, readLong, Setting.ofWord?_word, hsettle]
  exact hlook

theorem At.apart (h : r.At g) (hset : g.set s value = .ok g')
    (hdash : value.toList.head? ≠ some '-') :
    ∃ r₁ r' : Reading, r'.At g' ∧ r.read ("--" ++ s.word) = .ok r₁ ∧ r₁.read value = .ok r' := by
  obtain ⟨used, hsettle⟩ := h.settles
  refine ⟨{ idle g used with pending := some (s, none) }, _, waiting_at hset used, ?_,
    read_value rfl rfl hdash⟩
  rw [read_bare h.opened s.word_ne_nil s.equals_notMem_word, readLong, Setting.ofWord?_word,
    hsettle]
  rfl

theorem At.skip (h : r.At g) (hfirst : g.skipPreload = false) :
    ∃ r' : Reading, r'.At { g with skipPreload := true } ∧ r.read ("--" ++ skipWord) = .ok r' := by
  obtain ⟨used, hsettle⟩ := h.settles
  refine ⟨(idle { g with skipPreload := true } used).use ("--" ++ skipWord), idle_at _ _, ?_⟩
  have hread : r.readLong skipWord none
      = .ok ((idle { g with skipPreload := true } used).use ("--" ++ skipWord)) := by
    rw [readLong, Setting.ofWord?_skipWord, hsettle]
    simp [skipWord, idle, bind, Except.bind, hfirst]
  rw [read_bare h.opened (by decide) (by decide), hread]

/-- **A use takes a reading on by what it sets.** -/
theorem At.step {u : Use} (h : r.At g) (hallowed : u.Allowed) (happly : u.apply g = .ok g')
    (rest : List String) :
    ∃ r' : Reading, r'.At g' ∧ r.readAll (u.words ++ rest) = r'.readAll rest := by
  cases u with
  | joined s value =>
    obtain ⟨r', hat, hread⟩ := h.joined happly
    refine ⟨r', hat, ?_⟩
    rw [Use.words, List.singleton_append, readAll, hread]
  | apart s value =>
    obtain ⟨r₁, r', hat, hword, hvalue⟩ := h.apart happly hallowed
    refine ⟨r', hat, ?_⟩
    rw [Use.words, List.cons_append, List.singleton_append, readAll, hword]
    dsimp only
    rw [readAll, hvalue]
  | skip =>
    rw [Use.apply] at happly
    split at happly
    · nomatch happly
    · rename_i hfirst
      obtain rfl := Except.ok.inj happly
      obtain ⟨r', hat, hread⟩ := h.skip (eq_false_of_ne_true hfirst)
      refine ⟨r', hat, ?_⟩
      rw [Use.words, List.singleton_append, readAll, hread]

/-- **A line of uses sets what they set, one after the other.** -/
theorem At.run {line : List Use} (h : r.At g) (hallowed : ∀ u ∈ line, u.Allowed)
    (happly : line.foldlM Use.apply g = .ok g') :
    r.readAll (line.flatMap Use.words) = .ok g'.settings := by
  induction line generalizing r g with
  | nil =>
    -- what waits at the end of the line is looked at there
    obtain ⟨used, hsettle⟩ := h.settles
    obtain rfl := Except.ok.inj happly
    rw [List.flatMap_nil, readAll, hsettle]
    rfl
  | cons u line ih =>
    rw [List.foldlM_cons] at happly
    obtain ⟨g₁, hu, hline⟩ := Fallible.ok_of_bind happly
    obtain ⟨r₁, hat, hread⟩ := h.step (hallowed u List.mem_cons_self) hu (line.flatMap Use.words)
    rw [List.flatMap_cons, hread]
    exact ih hat (fun u' hu' => hallowed u' (List.mem_cons_of_mem u hu')) hline

end Reading

theorem parseLine_uses {line : List Use} {g : Given} (hallowed : ∀ u ∈ line, u.Allowed)
    (happly : line.foldlM Use.apply {} = .ok g) :
    parseLine (line.flatMap Use.words) = .ok g.settings :=
  (Reading.idle_at {} []).run hallowed happly

end LoadSweep.Command
