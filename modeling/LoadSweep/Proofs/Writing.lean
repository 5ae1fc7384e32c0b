import Std.Data.String.ToNat
import LoadSweep.Proofs.Options
import LoadSweep.Proofs.Values

/-!
# `LoadSweep/Proofs/Writing.lean` — every plan can be typed, in every way

A plan is typed by typing its settings. The value of a setting is one text, or the texts of a list
(`Settings.items`). They go into the values of the option in pieces, in order, and nothing else is
asked of a line: the options may stand in any order, a list may be cut anywhere, between two commas
or between two options, and a setting that is standard may be left out (`Writes`).

While such a line is read, what is given is determined by how many texts of each setting have been
read (`Settings.upTo`). An option takes that number on by the texts of its value (`set_upTo`), and
nothing else; so the order in which options come does not matter.
-/

set_option autoImplicit false

namespace LoadSweep

/-- What a plan must be for a command line to ask for it. The bounds are those of the numbers that
an option takes. -/
structure Plan.Expressible (p : Plan) : Prop where
  port : p.target.port < 2 ^ 16
  keyCount : p.keyCount < 2 ^ 64
  keyMode : p.keyMode = .sequential ∨ p.keyMode = .decimal KeyMode.defaultModulus
  valueSizes : p.matrix.valueSizes ≠ [] ∧ ∀ n ∈ p.matrix.valueSizes, n < 2 ^ 64
  clientCounts : p.matrix.clientCounts ≠ [] ∧ ∀ n ∈ p.matrix.clientCounts, n < 2 ^ 64
  operations : p.matrix.operations ≠ []
  duration : ∃ secs < 2 ^ 64, p.matrix.duration = .ofSecs secs
  warmup : ∃ secs < 2 ^ 64, p.warmup = .ofSecs secs
  reportInterval : p.reportInterval < 2 ^ 64

namespace Command

/-- The settings that mean a plan and an output path. -/
def Settings.of (p : Plan) (out : String) : Settings :=
  { name := p.target.name
    host := p.target.host
    port := p.target.port
    keys := p.keyCount
    keyMode := p.keyMode
    values := p.matrix.valueSizes
    clients := p.matrix.clientCounts
    ops := p.matrix.operations
    duration := p.matrix.duration.secs
    warmupSec := p.warmup.secs
    out
    skipPreload := p.skipPreload
    reportInterval := p.reportInterval }

/-- The texts of a setting: one for each entry of a list, and one for anything else. -/
def Settings.items (x : Settings) : Setting → List String
  | .name => [x.name]
  | .host => [x.host]
  | .port => [toString x.port]
  | .keys => [toString x.keys]
  | .keyMode => [x.keyMode.label]
  | .values => x.values.map toString
  | .clients => x.clients.map toString
  | .ops => x.ops.map (·.name)
  | .duration => [toString x.duration]
  | .warmupSec => [toString x.warmupSec]
  | .out => [x.out]
  | .reportInterval => [toString x.reportInterval]

/-- The value that a use gives to a setting. -/
def Use.valueFor (s : Setting) : Use → Option String
  | .joined t value | .apart t value => if t = s then some value else none
  | .skip => none

/-- The values that a line gives to a setting, in order. -/
def valuesFor (s : Setting) (line : List Use) : List String := line.filterMap (·.valueFor s)

/-- The values are the texts in order, one or more of them in each value. -/
def Spells (values texts : List String) : Prop :=
  ∃ pieces : List (List String),
    [] ∉ pieces ∧ pieces.flatten = texts ∧ values = pieces.map commaList

/-- The line is one way to type these settings. -/
structure Writes (line : List Use) (x : Settings) : Prop where
  allowed : ∀ u ∈ line, u.Allowed
  spelled : ∀ s, Spells (valuesFor s line) (x.items s) ∨
    valuesFor s line = [] ∧ x.items s = Settings.standard.items s
  switch : line.count .skip = x.skipPreload.toNat

/-! ## What is given so far -/

/-- A value that stands once, given as soon as it has been read. -/
def soFar {α : Type} (n : Nat) (a : α) : Option α := if n = 0 then none else some a

/-- The first entries of a list, given as soon as there are any. -/
def gathered {α : Type} (n : Nat) (l : List α) : Option (List α) :=
  if n = 0 then none else some (l.take n)

/-- What is given when so many texts of each setting have been read. -/
def Settings.upTo (x : Settings) (n : Setting → Nat) (skip : Bool) : Given :=
  { name := soFar (n .name) x.name
    host := soFar (n .host) x.host
    port := soFar (n .port) x.port
    keys := soFar (n .keys) x.keys
    keyMode := soFar (n .keyMode) x.keyMode
    values := gathered (n .values) x.values
    clients := gathered (n .clients) x.clients
    ops := gathered (n .ops) x.ops
    duration := soFar (n .duration) x.duration
    warmupSec := soFar (n .warmupSec) x.warmupSec
    out := soFar (n .out) x.out
    skipPreload := skip
    reportInterval := soFar (n .reportInterval) x.reportInterval }

section Pieces

variable {α : Type} {s : Setting} {parse : String → Except String α} {k : Nat}
  {piece : List String}

/-- A piece of one text is that text, and nothing was read before it. -/
theorem piece_of_one {text : String} (hpiece : piece ≠ []) (hnext : piece <+: [text].drop k) :
    k = 0 ∧ piece = [text] := by
  cases k with
  | zero =>
    rw [List.drop_zero] at hnext
    exact ⟨rfl, hnext.eq_of_length_le (List.length_pos_iff.mpr hpiece)⟩
  | succ k =>
    rw [List.drop_succ_cons, List.drop_nil] at hnext
    exact absurd (List.prefix_nil.mp hnext) hpiece

theorem commaList_one (text : String) : commaList [text] = text := rfl

theorem once_next {a : α} {text : String} (hread : parse text = .ok a) (hpiece : piece ≠ [])
    (hnext : piece <+: [text].drop k) :
    once s (commaList piece) (soFar k a) parse = .ok (soFar (k + piece.length) a) := by
  obtain ⟨rfl, rfl⟩ := piece_of_one hpiece hnext
  rw [commaList_one, once, soFar, hread]
  rfl

theorem gathered_getD (k : Nat) (l : List α) : (gathered k l).getD [] = l.take k := by
  rw [gathered]
  split
  case isTrue hzero =>
    rw [hzero]
    rfl
  case isFalse => rfl

theorem several_next {l : List α} {text : α → String} (hplain : ∀ a, ',' ∉ (text a).toList)
    (hread : ∀ a ∈ l, parse (text a) = .ok a) (hpiece : piece ≠ [])
    (hnext : piece <+: (l.map text).drop k) :
    several s (commaList piece) (gathered k l) parse = .ok (gathered (k + piece.length) l) := by
  obtain ⟨new, hnew⟩ : ∃ new, new = (l.drop k).take piece.length := ⟨_, rfl⟩
  have htexts : piece = new.map text := by
    rw [hnew, List.map_take, List.map_drop]
    exact List.prefix_iff_eq_take.mp hnext
  have hmem : ∀ a ∈ new, parse (text a) = .ok a := by
    intro a ha
    rw [hnew] at ha
    exact hread a (List.mem_of_mem_drop (List.mem_of_mem_take ha))
  have hne : new ≠ [] := by
    rintro rfl
    exact hpiece htexts
  have htaken : l.take k ++ new = l.take (k + piece.length) := by rw [hnew, ← List.take_add]
  have hpos := List.length_pos_iff.mpr hpiece
  conv_lhs => rw [htexts]
  rw [several_commaList hne hplain hmem, gathered_getD, htaken, gathered, if_neg (by omega)]

end Pieces

/-- The numbers fit their types, the lists are not empty, and there is an output path. -/
structure Settings.Legible (x : Settings) : Prop where
  port : x.port < 2 ^ 16
  keys : x.keys < 2 ^ 64
  keyMode : x.keyMode = .sequential ∨ x.keyMode = .decimal KeyMode.defaultModulus
  values : x.values ≠ [] ∧ ∀ n ∈ x.values, n < 2 ^ 64
  clients : x.clients ≠ [] ∧ ∀ n ∈ x.clients, n < 2 ^ 64
  ops : x.ops ≠ []
  duration : x.duration < 2 ^ 64
  warmupSec : x.warmupSec < 2 ^ 64
  out : x.out ≠ ""
  reportInterval : x.reportInterval < 2 ^ 64

variable {x : Settings} {n : Setting → Nat} {skip : Bool} {s : Setting} {piece : List String}

/-- **An option takes what is given on by the texts of its value.** -/
theorem set_upTo (hx : x.Legible) (hpiece : piece ≠ []) (hnext : piece <+: (x.items s).drop (n s)) :
    (x.upTo n skip).set s (commaList piece)
      = .ok (x.upTo (Function.update n s (n s + piece.length)) skip) := by
  cases s with
  | name | host =>
    refine Fallible.map_ok (once_next rfl hpiece hnext) ?_
    simp [Settings.upTo, Function.update]
  | port =>
    refine Fallible.map_ok (once_next (parsePort_toString hx.port) hpiece hnext) ?_
    simp [Settings.upTo, Function.update]
  | keys =>
    refine Fallible.map_ok (once_next (parseCount_toString hx.keys) hpiece hnext) ?_
    simp [Settings.upTo, Function.update]
  | keyMode =>
    refine Fallible.map_ok (once_next (parseMode_label hx.keyMode) hpiece hnext) ?_
    simp [Settings.upTo, Function.update]
  | values =>
    refine Fallible.map_ok (several_next comma_notMem_toString
      (fun v hv => parseCount_toString (hx.values.2 v hv)) hpiece hnext) ?_
    simp [Settings.upTo, Function.update]
  | clients =>
    refine Fallible.map_ok (several_next comma_notMem_toString
      (fun v hv => parseCount_toString (hx.clients.2 v hv)) hpiece hnext) ?_
    simp [Settings.upTo, Function.update]
  | ops =>
    refine Fallible.map_ok (several_next comma_notMem_name (fun op _ => parseOperation_name op)
      hpiece hnext) ?_
    simp [Settings.upTo, Function.update]
  | duration =>
    refine Fallible.map_ok (once_next (parseCount_toString hx.duration) hpiece hnext) ?_
    simp [Settings.upTo, Function.update]
  | warmupSec =>
    refine Fallible.map_ok (once_next (parseCount_toString hx.warmupSec) hpiece hnext) ?_
    simp [Settings.upTo, Function.update]
  | reportInterval =>
    refine Fallible.map_ok (once_next (parseCount_toString hx.reportInterval) hpiece hnext) ?_
    simp [Settings.upTo, Function.update]
  | out =>
    -- an empty path is refused before anything else
    obtain ⟨-, hwhole⟩ := piece_of_one hpiece hnext
    have hpath : ¬(commaList piece = "" ∧ (x.upTo n skip).out.isNone = true) := by
      rw [hwhole]
      exact fun h => hx.out h.1
    rw [Given.set, if_neg hpath]
    refine Fallible.map_ok (once_next rfl hpiece hnext) ?_
    simp [Settings.upTo, Function.update]

/-! ## Reading a line that was written -/

theorem Spells.nil {texts : List String} (h : Spells [] texts) : texts = [] := by
  obtain ⟨pieces, -, rfl, hvalues⟩ := h
  rw [List.map_eq_nil_iff.mp hvalues.symm]
  rfl

theorem Spells.whole {texts : List String} (hne : texts ≠ []) : Spells [commaList texts] texts :=
  ⟨[texts], by simpa using hne.symm, List.flatten_singleton, rfl⟩

theorem Spells.cons {value : String} {values texts : List String}
    (h : Spells (value :: values) texts) :
    ∃ piece rest, piece ≠ [] ∧ value = commaList piece ∧ texts = piece ++ rest ∧
      Spells values rest := by
  obtain ⟨pieces, hpieces, rfl, hvalues⟩ := h
  cases pieces with
  | nil => nomatch hvalues
  | cons piece pieces =>
    obtain ⟨rfl, rfl⟩ := List.cons.inj hvalues
    rw [List.mem_cons, not_or] at hpieces
    obtain ⟨hpiece, hpieces⟩ := hpieces
    exact ⟨piece, pieces.flatten, Ne.symm hpiece, rfl, List.flatten_cons, pieces, hpieces, rfl, rfl⟩

/-- The line is what is left to type when so many texts of each setting, and perhaps the switch,
have been read. -/
structure Remains (x : Settings) (n : Setting → Nat) (skip : Bool) (line : List Use) : Prop where
  spelled : ∀ s, Spells (valuesFor s line) ((x.items s).drop (n s)) ∨
    valuesFor s line = [] ∧ n s = 0 ∧ x.items s = Settings.standard.items s
  switch : line.count .skip + skip.toNat = x.skipPreload.toNat

theorem Writes.remains {line : List Use} (h : Writes line x) :
    Remains x (fun _ => 0) false line where
  spelled s := (h.spelled s).imp_right fun ⟨hnone, hstandard⟩ => ⟨hnone, rfl, hstandard⟩
  switch := h.switch

variable {u : Use} {line : List Use}

theorem valuesFor_cons (s : Setting) :
    valuesFor s (u :: line) = (u.valueFor s).toList ++ valuesFor s line := by
  rw [valuesFor, List.filterMap_cons]
  cases u.valueFor s <;> rfl

/-- An option is read and the rest of the line is what is left. -/
theorem Remains.option {t : Setting} {value : String} (hx : x.Legible)
    (h : Remains x n skip (u :: line)) (hne : u ≠ .skip)
    (hvalue : ∀ s, u.valueFor s = if t = s then some value else none) :
    ∃ n', (x.upTo n skip).set t value = .ok (x.upTo n' skip) ∧ Remains x n' skip line := by
  have hmine : valuesFor t (u :: line) = value :: valuesFor t line := by
    rw [valuesFor_cons, hvalue, if_pos rfl]
    rfl
  have hspells : Spells (value :: valuesFor t line) ((x.items t).drop (n t)) := by
    rcases h.spelled t with hspells | ⟨hnone, -⟩
    · rwa [hmine] at hspells
    · rw [hmine] at hnone
      nomatch hnone
  obtain ⟨piece, rest, hpiece, rfl, htexts, hrest⟩ := hspells.cons
  refine ⟨_, set_upTo hx hpiece ⟨rest, htexts.symm⟩, ?_, ?_⟩
  · intro s
    by_cases hs : s = t
    · -- one piece of this setting has been read, and of no other
      subst hs
      left
      rw [Function.update_self, ← List.drop_drop, htexts, List.drop_left]
      exact hrest
    · rw [Function.update_of_ne hs]
      have hother : valuesFor s (u :: line) = valuesFor s line := by
        rw [valuesFor_cons, hvalue, if_neg (Ne.symm hs)]
        rfl
      rw [← hother]
      exact h.spelled s
  · rw [← h.switch, List.count_cons_of_ne hne]

theorem Remains.switched (h : Remains x n skip (.skip :: line)) :
    skip = false ∧ Remains x n true line := by
  have hcount := h.switch
  rw [List.count_cons_self] at hcount
  have hlast := Bool.toNat_le x.skipPreload
  have hskip : skip = false := by
    cases skip with
    | false => rfl
    | true =>
      rw [Bool.toNat_true] at hcount
      omega
  refine ⟨hskip, h.spelled, ?_⟩
  rw [hskip, Bool.toNat_false] at hcount
  exact hcount

theorem Remains.step (hx : x.Legible) (h : Remains x n skip (u :: line)) :
    ∃ n' skip', u.apply (x.upTo n skip) = .ok (x.upTo n' skip') ∧ Remains x n' skip' line := by
  cases u with
  | joined t value | apart t value =>
    obtain ⟨n', hset, hrest⟩ := h.option hx (t := t) (by simp) (fun s => rfl)
    exact ⟨n', skip, hset, hrest⟩
  | skip =>
    obtain ⟨rfl, hrest⟩ := h.switched
    exact ⟨n, true, rfl, hrest⟩

/-- **A line that was written is read to its end**, whatever the order of its options. -/
theorem Remains.run (hx : x.Legible) (h : Remains x n skip line) :
    ∃ n' skip', line.foldlM Use.apply (x.upTo n skip) = .ok (x.upTo n' skip') ∧
      Remains x n' skip' [] := by
  induction line generalizing n skip with
  | nil => exact ⟨n, skip, rfl, h⟩
  | cons u line ih =>
    obtain ⟨n₁, skip₁, happly, hrest⟩ := h.step hx
    obtain ⟨n', skip', hline, hdone⟩ := ih hrest
    refine ⟨n', skip', ?_, hdone⟩
    rw [List.foldlM_cons, happly]
    exact hline

/-! ## What is given in the end -/

theorem soFar_getD {α : Type} (text : α → String) {k : Nat} {a d : α}
    (hinj : text a = text d → a = d)
    (h : [text a].drop k = [] ∨ k = 0 ∧ [text a] = [text d]) : (soFar k a).getD d = a := by
  rcases h with hread | ⟨rfl, hsame⟩
  · have hk : k ≠ 0 := by
      rintro rfl
      nomatch hread
    rw [soFar, if_neg hk, Option.getD_some]
  · exact (hinj (List.cons.inj hsame).1).symm

theorem gathered_getD_of_done {α : Type} {text : α → String} {k : Nat} {l d : List α}
    (hinj : Function.Injective text) (hne : l ≠ [])
    (h : (l.map text).drop k = [] ∨ k = 0 ∧ l.map text = d.map text) :
    (gathered k l).getD d = l := by
  rcases h with hread | ⟨rfl, hsame⟩
  · have hlength := List.drop_eq_nil_iff.mp hread
    rw [List.length_map] at hlength
    have hk : k ≠ 0 := by
      rintro rfl
      exact hne (List.length_eq_zero_iff.mp (Nat.le_zero.mp hlength))
    rw [gathered, if_neg hk, Option.getD_some, List.take_of_length_le hlength]
  · exact (hinj.list_map hsame).symm

theorem eq_standard_of_label {mode : KeyMode} (h : mode.label = KeyMode.standard.label) :
    mode = KeyMode.standard := by
  cases mode with
  | sequential => rfl
  | decimal modulus =>
    rw [KeyMode.label] at h
    exact absurd h (by decide)

theorem name_injective : Function.Injective Operation.name := by
  intro a b h
  cases a <;> cases b <;> simp_all [Operation.name]

/-- **When nothing is left to type, the settings are those that were typed.** -/
theorem Remains.settings (hx : x.Legible) (h : Remains x n skip []) :
    (x.upTo n skip).settings = x := by
  have hdone : ∀ s, (x.items s).drop (n s) = [] ∨ n s = 0 ∧ x.items s = Settings.standard.items s :=
    fun s => (h.spelled s).imp Spells.nil And.right
  have hswitch : skip = x.skipPreload := by
    have hcount := h.switch
    rw [List.count_nil, Nat.zero_add] at hcount
    revert hcount
    cases skip <;> cases x.skipPreload <;> decide
  have hnumber : Function.Injective (toString : Nat → String) := fun _ _ heq =>
    Nat.repr_injective heq
  have hname := soFar_getD id (fun heq => heq) (hdone .name)
  have hhost := soFar_getD id (fun heq => heq) (hdone .host)
  have hport := soFar_getD toString (@hnumber _ _) (hdone .port)
  have hkeys := soFar_getD toString (@hnumber _ _) (hdone .keys)
  have hkeyMode : (soFar (n .keyMode) x.keyMode).getD Settings.standard.keyMode = x.keyMode :=
    soFar_getD KeyMode.label eq_standard_of_label (hdone .keyMode)
  have hvalues := gathered_getD_of_done hnumber hx.values.1 (hdone .values)
  have hclients := gathered_getD_of_done hnumber hx.clients.1 (hdone .clients)
  have hops := gathered_getD_of_done name_injective hx.ops (hdone .ops)
  have hduration := soFar_getD toString (@hnumber _ _) (hdone .duration)
  have hwarmup := soFar_getD toString (@hnumber _ _) (hdone .warmupSec)
  have hout := soFar_getD id (fun heq => heq) (hdone .out)
  have hinterval := soFar_getD toString (@hnumber _ _) (hdone .reportInterval)
  simp only [Given.settings, Settings.upTo, hname, hhost, hport, hkeys, hkeyMode, hvalues, hclients,
    hops, hduration, hwarmup, hout, hinterval, hswitch]

/-- A line that was written is read back. -/
theorem parseLine_of_writes {line : List Use} (hx : x.Legible) (h : Writes line x) :
    parseLine (line.flatMap Use.words) = .ok x := by
  obtain ⟨n, skip, happly, hdone⟩ := h.remains.run hx
  rw [parseLine_uses h.allowed happly, hdone.settings hx]

/-! ## Plans -/

theorem secs_ofSecs (secs : Nat) : (Duration.ofSecs secs).secs = secs :=
  Nat.mul_div_cancel secs (by decide)

theorem Settings.legible_of {p : Plan} {out : String} (hp : p.Expressible) (hout : out ≠ "") :
    (Settings.of p out).Legible where
  port := hp.port
  keys := hp.keyCount
  keyMode := hp.keyMode
  values := hp.valueSizes
  clients := hp.clientCounts
  ops := hp.operations
  duration := by
    obtain ⟨secs, hsecs, heq⟩ := hp.duration
    rwa [Settings.of, heq, secs_ofSecs]
  warmupSec := by
    obtain ⟨secs, hsecs, heq⟩ := hp.warmup
    rwa [Settings.of, heq, secs_ofSecs]
  out := hout
  reportInterval := hp.reportInterval

theorem Settings.plan_of {p : Plan} (hp : p.Expressible) (out : String) :
    (Settings.of p out).plan = p := by
  obtain ⟨secs, -, hsecs⟩ := hp.duration
  obtain ⟨rest, -, hrest⟩ := hp.warmup
  have hduration : Duration.ofSecs p.matrix.duration.secs = p.matrix.duration := by
    rw [hsecs, secs_ofSecs]
  have hwarmup : Duration.ofSecs p.warmup.secs = p.warmup := by rw [hrest, secs_ofSecs]
  simp only [Settings.plan, Settings.of, hduration, hwarmup]

theorem Settings.Legible.items_ne_nil (hx : x.Legible) (s : Setting) : x.items s ≠ [] := by
  cases s with
  | values | clients =>
    rw [Settings.items, ne_eq, List.map_eq_nil_iff]
    first | exact hx.values.1 | exact hx.clients.1
  | ops =>
    rw [Settings.items, ne_eq, List.map_eq_nil_iff]
    exact hx.ops
  | _ => exact List.cons_ne_nil _ _

/-- Settings can be typed: every option once, in one word, and the switch if it is on. -/
theorem exists_writes (hx : x.Legible) : ∃ line, Writes line x := by
  refine ⟨Setting.all.map (fun s => .joined s (commaList (x.items s)))
    ++ List.replicate x.skipPreload.toNat .skip, ?_, ?_, ?_⟩
  · intro u hu
    rw [List.mem_append, List.mem_map, List.mem_replicate] at hu
    rcases hu with ⟨s, -, rfl⟩ | ⟨-, rfl⟩ <;> trivial
  · intro s
    have hswitch : (List.replicate x.skipPreload.toNat Use.skip).filterMap (·.valueFor s) = [] := by
      rw [List.filterMap_eq_nil_iff]
      intro u hu
      rw [List.eq_of_mem_replicate hu]
      rfl
    rw [valuesFor, List.filterMap_append, hswitch, List.append_nil]
    have honce := Spells.whole (hx.items_ne_nil s)
    cases s <;> exact .inl honce
  · rw [List.count_append, List.count_replicate_self, List.count_eq_zero_of_not_mem, Nat.zero_add]
    simp

end Command

open Command

/-- **Every plan that can be asked for is read back, however it is typed.** The options may stand in
any order, each in one word or two; the entries of a list may be spread over commas and over
repeated options; what is standard may be left out. The reading gives that plan and that output
path, and there is always a way to type them. -/
theorem plan_read_back (p : Plan) (out : String) (hp : p.Expressible) (hout : out ≠ "") :
    (∃ line, Writes line (Settings.of p out)) ∧
    ∀ line, Writes line (Settings.of p out) → ∃ settings : Settings,
      parseLine (line.flatMap Use.words) = .ok settings ∧
      settings.plan = p ∧ settings.out = out := by
  have hx := Settings.legible_of hp hout
  refine ⟨exists_writes hx, fun line hline => ?_⟩
  exact ⟨Settings.of p out, parseLine_of_writes hx hline, Settings.plan_of hp out, rfl⟩

/-- A plan whose name looks like an option with a list. -/
def Sample.typedPlan : Plan :=
  { target := { name := "--x=1,2", host := "::1", port := 6379 }
    keyCount := 0
    keyMode := .decimal KeyMode.defaultModulus
    matrix :=
      { valueSizes := [1, 2, 3]
        clientCounts := [16, 32, 64]
        operations := [.set, .get, .set]
        duration := .ofSecs 30 }
    warmup := .ofSecs 0
    skipPreload := true
    reportInterval := 50000 }

/-- A way to type it: lists that are spread, between the other options, and standard settings that
are left out. -/
def Sample.typedLine : List Use :=
  [.apart .values "1,2", .joined .ops "set", .joined .name "--x=1,2", .skip, .apart .host "::1",
    .joined .values "3", .apart .out "=", .apart .keyMode "decimal", .apart .ops "get,set",
    .joined .keys "0", .joined .warmupSec "0"]

theorem Sample.typedPlan_expressible : typedPlan.Expressible where
  port := by decide
  keyCount := by decide
  keyMode := .inr rfl
  valueSizes := by decide
  clientCounts := by decide
  operations := by decide
  duration := ⟨30, by decide, rfl⟩
  warmup := ⟨0, by decide, rfl⟩
  reportInterval := by decide

theorem Sample.typedLine_writes : Writes typedLine (Settings.of typedPlan "=") where
  allowed := by decide
  spelled s := by
    cases s with
    | values => exact .inl ⟨[["1", "2"], ["3"]], by decide +kernel⟩
    | ops => exact .inl ⟨[["set"], ["get", "set"]], by decide +kernel⟩
    | clients | port | duration | reportInterval => exact .inr (by decide +kernel)
    | name | host | keys | keyMode | warmupSec | out =>
      exact .inl (Spells.whole (List.cons_ne_nil _ _))
  switch := by decide

theorem plan_read_back_sample :
    Sample.typedPlan.Expressible ∧ Writes Sample.typedLine (Settings.of Sample.typedPlan "=") ∧
    ∃ settings : Settings,
      parseLine ["--values", "1,2", "--ops=set", "--name=--x=1,2", "--skip-preload", "--host",
        "::1", "--values=3", "--out", "=", "--key-mode", "decimal", "--ops", "get,set", "--keys=0",
        "--warmup-sec=0"] = .ok settings ∧
      settings.plan = Sample.typedPlan ∧ settings.out = "=" :=
  ⟨Sample.typedPlan_expressible, Sample.typedLine_writes,
    (plan_read_back Sample.typedPlan "=" Sample.typedPlan_expressible (by decide)).2
      Sample.typedLine Sample.typedLine_writes⟩

end LoadSweep
