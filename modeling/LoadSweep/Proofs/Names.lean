import Mathlib.Data.List.DropRight
import Mathlib.Data.List.Forall2
import LoadSweep.Key.Mode
import LoadSweep.Operation

/-!
# `LoadSweep/Proofs/Names.lean` — which texts name a mode or an operation

A typed name is compared in one form, `Text.fold`: blanks cut off, ASCII capitals lowered. What two
texts with the same form have in common can be said without that form. One goes into the other by
cutting blanks off the ends or putting them there, and by changing the case of ASCII letters
(`Text.Named.iff_fold`, `Text.Dressed.fold_eq`). It rests on two facts: there is one way to cut the
blanks off (`Text.Stripped.eq_trim`), and two letters are lowered to one if and only if they are the
same letter (`Text.lowerChar_eq_iff`). Neither of the two clean-ups undoes the other, since no blank
is a letter, and so the form of a form is itself.
-/

set_option autoImplicit false

namespace LoadSweep

namespace Text

/-! ## Blanks -/

/-- The code points with the Unicode property `White_Space`. -/
def whiteSpace : List Nat :=
  [0x9, 0xA, 0xB, 0xC, 0xD, 0x20, 0x85, 0xA0, 0x1680, 0x2000, 0x2001, 0x2002, 0x2003, 0x2004,
    0x2005, 0x2006, 0x2007, 0x2008, 0x2009, 0x200A, 0x2028, 0x2029, 0x202F, 0x205F, 0x3000]

theorem isBlank_iff (c : Char) : isBlank c = true ↔ c.toNat ∈ whiteSpace := by
  simp only [isBlank, whiteSpace, Bool.or_eq_true, Bool.and_eq_true, decide_eq_true_eq, beq_iff_eq,
    List.mem_cons, List.not_mem_nil, or_false]
  omega

def AllBlank (s : String) : Prop := ∀ c ∈ s.toList, c.toNat ∈ whiteSpace

instance (s : String) : Decidable (AllBlank s) := List.decidableBAll _ s.toList

/-- `core` is what is left of `s` when the blanks at both ends are cut off. -/
structure Stripped (s core : String) : Prop where
  around : ∃ before after, AllBlank before ∧ AllBlank after ∧ s = before ++ core ++ after
  first : ∀ c ∈ core.toList.head?, c.toNat ∉ whiteSpace
  last : ∀ c ∈ core.toList.getLast?, c.toNat ∉ whiteSpace

theorem AllBlank.isBlank {s : String} (h : AllBlank s) : ∀ c ∈ s.toList, isBlank c = true :=
  fun c hc => (isBlank_iff c).mpr (h c hc)

theorem AllBlank.append {s t : String} (hs : AllBlank s) (ht : AllBlank t) : AllBlank (s ++ t) := by
  intro c hc
  rw [String.toList_append, List.mem_append] at hc
  exact hc.elim (hs c) (ht c)

theorem trimChars_eq (cs : List Char) :
    trimChars cs = (cs.dropWhile isBlank).rdropWhile isBlank := rfl

/-- There is one way to cut the blanks off. -/
theorem Stripped.eq_trim {s core : String} (h : Stripped s core) : core = trim s := by
  obtain ⟨before, after, hbefore, hafter, rfl⟩ := h.around
  have hfront : ((before ++ core ++ after).toList).dropWhile Text.isBlank
      = (core.toList ++ after.toList).dropWhile Text.isBlank := by
    rw [String.toList_append, String.toList_append, List.append_assoc,
      List.dropWhile_append_of_pos hbefore.isBlank]
  apply String.toList_inj.mp
  rw [trim, String.toList_ofList, trimChars_eq, hfront]
  by_cases hempty : core.toList = []
  · -- all of it is blank, and the first cut leaves nothing
    rw [hempty, List.nil_append, List.dropWhile_eq_nil_iff.mpr hafter.isBlank]
    rfl
  · -- neither cut goes into the core
    have hkept : (core.toList ++ after.toList).dropWhile Text.isBlank
        = core.toList ++ after.toList := by
      rw [List.dropWhile_eq_self_iff]
      intro _ hblank
      rw [List.getElem_append_left (List.length_pos_iff.mpr hempty)] at hblank
      exact h.first _ (by rw [List.head?_eq_getElem?]; simp) ((isBlank_iff _).mp hblank)
    have hback : ∀ c ∈ after.toList.reverse, Text.isBlank c = true :=
      fun c hc => hafter.isBlank c (List.mem_reverse.mp hc)
    have hcore : core.toList.rdropWhile Text.isBlank = core.toList := by
      rw [List.rdropWhile_eq_self_iff]
      intro hne hblank
      exact h.last _ (by rw [List.getLast?_eq_some_getLast hne]; rfl) ((isBlank_iff _).mp hblank)
    rw [hkept, List.rdropWhile, List.reverse_append, List.dropWhile_append_of_pos hback]
    exact hcore.symm

/-- Every text can be stripped. -/
theorem stripped_trim (s : String) : Stripped s (trim s) := by
  have hcore : (trim s).toList = (s.toList.dropWhile isBlank).rdropWhile isBlank := by
    rw [trim, String.toList_ofList, trimChars_eq]
  have hfront : ∀ c ∈ s.toList.takeWhile isBlank, c.toNat ∈ whiteSpace :=
    fun c hc => (isBlank_iff c).mp (List.mem_takeWhile_imp hc)
  have hback : ∀ c ∈ (s.toList.dropWhile isBlank).rtakeWhile isBlank, c.toNat ∈ whiteSpace :=
    fun c hc => (isBlank_iff c).mp (List.mem_rtakeWhile_imp hc)
  refine ⟨⟨.ofList (s.toList.takeWhile isBlank),
    .ofList ((s.toList.dropWhile isBlank).rtakeWhile isBlank), ?_, ?_, ?_⟩, ?_, ?_⟩
  · rwa [AllBlank, String.toList_ofList]
  · rwa [AllBlank, String.toList_ofList]
  · apply String.toList_inj.mp
    rw [String.toList_append, String.toList_append, String.toList_ofList, String.toList_ofList,
      hcore, List.append_assoc, List.rdropWhile_append_rtakeWhile, List.takeWhile_append_dropWhile]
  · intro c hc hblank
    obtain ⟨rest, hrest⟩ := List.rdropWhile_prefix isBlank (s.toList.dropWhile isBlank)
    rw [hcore] at hc
    have hhead := List.head?_dropWhile_not isBlank s.toList
    rw [← hrest, List.head?_append, hc] at hhead
    exact absurd ((isBlank_iff c).mpr hblank) (by simpa using hhead)
  · intro c hc hblank
    rw [hcore] at hc
    obtain ⟨hne, rfl⟩ := List.mem_getLast?_eq_getLast hc
    exact List.rdropWhile_last_not isBlank _ hne ((isBlank_iff _).mpr hblank)

theorem trim_trim (s : String) : trim (trim s) = trim s := by
  obtain ⟨-, hfirst, hlast⟩ := stripped_trim s
  have hself : Stripped (trim s) (trim s) :=
    ⟨⟨"", "", nofun, nofun, by rw [String.empty_append, String.append_empty]⟩, hfirst, hlast⟩
  exact hself.eq_trim.symm

/-- Blanks that are put around a text are cut off again. -/
theorem trim_surrounded {before after : String} (hbefore : AllBlank before)
    (hafter : AllBlank after) (s : String) : trim (before ++ s ++ after) = trim s := by
  obtain ⟨⟨front, back, hfront, hback, hs⟩, hfirst, hlast⟩ := stripped_trim s
  have hall : before ++ s ++ after = (before ++ front) ++ trim s ++ (back ++ after) := by
    conv_lhs => rw [hs]
    simp only [String.append_assoc]
  have hstripped : Stripped (before ++ s ++ after) (trim s) :=
    ⟨⟨before ++ front, back ++ after, hbefore.append hfront, hback.append hafter, hall⟩, hfirst,
      hlast⟩
  exact hstripped.eq_trim.symm

/-! ## ASCII case -/

/-- The same character, up to the case of an ASCII letter. -/
def SameLetter (c d : Char) : Prop :=
  c = d ∨ (c.isUpper ∧ d.toNat = c.toNat + 32) ∨ (d.isUpper ∧ c.toNat = d.toNat + 32)

/-- The same text, up to the case of ASCII letters. -/
def SameButCase (s t : String) : Prop := List.Forall₂ SameLetter s.toList t.toList

theorem isUpper_iff (c : Char) : c.isUpper = true ↔ 65 ≤ c.toNat ∧ c.toNat ≤ 90 :=
  decide_eq_true_iff

theorem toNat_lowerChar (c : Char) :
    (lowerChar c).toNat = if c.isUpper then c.toNat + 32 else c.toNat := by
  have hcapital : ('A' ≤ c ∧ c ≤ 'Z') ↔ c.isUpper := (isUpper_iff c).symm
  simp only [lowerChar, hcapital]
  split
  case isTrue hupper =>
    have hrange := (isUpper_iff c).mp hupper
    have hvalid : (c.toNat + 32).isValidChar := .inl (by omega)
    rw [Char.ofNat, dif_pos hvalid]
    rfl
  case isFalse => rfl

theorem lowerChar_eq_iff (c d : Char) : lowerChar c = lowerChar d ↔ SameLetter c d := by
  simp only [SameLetter, ← Char.toNat_inj, toNat_lowerChar, isUpper_iff]
  split <;> split <;> omega

theorem isUpper_lowerChar (c : Char) : (lowerChar c).isUpper = false := by
  rw [← Bool.not_eq_true, isUpper_iff, toNat_lowerChar]
  simp only [isUpper_iff]
  split <;> omega

/-- No letter is a blank. -/
theorem not_letter_of_blank : ∀ n ∈ whiteSpace, n < 65 ∨ 122 < n := by decide

theorem isBlank_lowerChar (c : Char) : isBlank (lowerChar c) = isBlank c := by
  rw [Bool.eq_iff_iff, isBlank_iff, isBlank_iff, toNat_lowerChar]
  split
  case isTrue hupper =>
    have hrange := (isUpper_iff c).mp hupper
    have hlowered := not_letter_of_blank (c.toNat + 32)
    have hkept := not_letter_of_blank c.toNat
    constructor
    · intro hblank
      have := hlowered hblank
      omega
    · intro hblank
      have := hkept hblank
      omega
  case isFalse => rfl

theorem toList_lower (s : String) : (lower s).toList = s.toList.map lowerChar :=
  String.toList_ofList

theorem lower_eq_iff (s t : String) : lower s = lower t ↔ SameButCase s t := by
  rw [← String.toList_inj, toList_lower, toList_lower, ← List.forall₂_eq_eq_eq,
    List.forall₂_map_left_iff, List.forall₂_map_right_iff, SameButCase]
  simp only [lowerChar_eq_iff]

instance (s t : String) : Decidable (SameButCase s t) := decidable_of_iff _ (lower_eq_iff s t)

theorem isUpper_of_mem_lower {s : String} : ∀ c ∈ (lower s).toList, c.isUpper = false := by
  intro c hc
  rw [toList_lower, List.mem_map] at hc
  obtain ⟨d, -, rfl⟩ := hc
  exact isUpper_lowerChar d

theorem lower_lower (s : String) : lower (lower s) = lower s := by
  apply String.toList_inj.mp
  rw [toList_lower, toList_lower, List.map_map]
  refine List.map_congr_left fun c _ => ?_
  rw [Function.comp_apply, ← Char.toNat_inj, toNat_lowerChar, if_neg (by simp [isUpper_lowerChar])]

/-- No letter is a blank, so it does not matter which clean-up comes first. -/
theorem trim_lower (s : String) : trim (lower s) = lower (trim s) := by
  have hblank : isBlank ∘ lowerChar = isBlank := funext isBlank_lowerChar
  apply String.toList_inj.mp
  rw [toList_lower, trim, trim, String.toList_ofList, String.toList_ofList, toList_lower, trimChars,
    trimChars, List.dropWhile_map, hblank, ← List.map_reverse, List.dropWhile_map, hblank,
    List.map_reverse]

theorem fold_fold (s : String) : fold (fold s) = fold s := by
  rw [fold, fold, trim_lower, trim_trim, lower_lower]

/-! ## Names -/

/-- Up to blanks at both ends and ASCII case, the text is this name. -/
def Named (s name : String) : Prop := ∃ core, Stripped s core ∧ SameButCase core name

theorem Named.iff_fold (s name : String) : Named s name ↔ fold s = lower name := by
  rw [fold, lower_eq_iff]
  constructor
  · rintro ⟨core, hcore, hsame⟩
    rwa [← hcore.eq_trim]
  · intro hsame
    exact ⟨trim s, stripped_trim s, hsame⟩

/-- A table of lowered names is looked up by the form of the text. -/
theorem exists_named_iff {α : Type} {names : List (String × α)}
    (hlower : ∀ entry ∈ names, lower entry.1 = entry.1) (s : String) (a : α) :
    (∃ name, (name, a) ∈ names ∧ Named s name) ↔ (fold s, a) ∈ names := by
  simp only [Named.iff_fold]
  constructor
  · rintro ⟨name, hmem, hfold⟩
    rwa [hfold, hlower _ hmem]
  · intro hmem
    exact ⟨fold s, hmem, (hlower _ hmem).symm⟩

/-- `s'` is `s` with blanks put around it and the case of ASCII letters changed. -/
def Dressed (s s' : String) : Prop :=
  ∃ before t after, AllBlank before ∧ AllBlank after ∧ SameButCase s t ∧ s' = before ++ t ++ after

theorem Dressed.fold_eq {s s' : String} (h : Dressed s s') : fold s' = fold s := by
  obtain ⟨before, t, after, hbefore, hafter, hsame, rfl⟩ := h
  rw [fold, fold, trim_surrounded hbefore hafter, ← trim_lower, ← trim_lower,
    (lower_eq_iff s t).mpr hsame]

/-- `text` is `core` with every ASCII capital lowered. -/
structure Lowered (core text : String) : Prop where
  same : SameButCase core text
  no_capital : ∀ c ∈ text.toList, c.isUpper = false

theorem lowered_lower (core : String) : Lowered core (lower core) where
  same := (lower_eq_iff core (lower core)).mp (lower_lower core).symm
  no_capital := isUpper_of_mem_lower

end Text

/-! ## Modes and operations -/

/-- The names that a mode can be given by. -/
def KeyMode.names : List (String × KeyMode) :=
  [("sequential", .sequential), ("seq", .sequential),
    ("decimal", .decimal KeyMode.defaultModulus), ("masstree", .decimal KeyMode.defaultModulus)]

/-- The names that an operation can be given by. -/
def Operation.names : List (String × Operation) := [("get", .get), ("set", .set), ("put", .set)]

theorem KeyMode.parse_ok_iff (s : String) (mode : KeyMode) :
    KeyMode.parse s = .ok mode ↔ ∃ name, (name, mode) ∈ KeyMode.names ∧ Text.Named s name := by
  rw [Text.exists_named_iff (by decide +kernel), KeyMode.parse, KeyMode.names]
  split_ifs with hseq hdec
  · rcases hseq with h | h <;> simp [h, eq_comm]
  · rcases hdec with h | h <;> simp [h, eq_comm]
  · obtain ⟨hsequential, hseq⟩ := not_or.mp hseq
    obtain ⟨hdecimal, hmass⟩ := not_or.mp hdec
    simp [hsequential, hseq, hdecimal, hmass]

theorem Operation.parse_ok_iff (s : String) (op : Operation) :
    Operation.parse s = .ok op ↔ ∃ name, (name, op) ∈ Operation.names ∧ Text.Named s name := by
  rw [Text.exists_named_iff (by decide +kernel), Operation.parse, Operation.names]
  split_ifs with hget hset
  · simp [hget, eq_comm]
  · rcases hset with h | h <;> simp [h, eq_comm]
  · obtain ⟨hset, hput⟩ := not_or.mp hset
    simp [hget, hset, hput]

theorem KeyMode.parse_congr {s s' : String} (h : Text.fold s' = Text.fold s) :
    KeyMode.parse s' = KeyMode.parse s := by
  rw [KeyMode.parse, KeyMode.parse, h]

theorem KeyMode.error_of_parse {s : String} {fault : KeyFault}
    (h : KeyMode.parse s = .error fault) : fault = .unknownMode (Text.fold s) := by
  rw [KeyMode.parse] at h
  split_ifs at h
  exact (Except.error.inj h).symm

theorem Operation.error_of_parse {s : String} {fault : ConfigFault}
    (h : Operation.parse s = .error fault) : fault = .unknownOperation s := by
  rw [Operation.parse] at h
  split_ifs at h
  exact (Except.error.inj h).symm

theorem Operation.parse_name (op : Operation) : Operation.parse op.name = .ok op := by
  cases op <;> decide +kernel

theorem KeyMode.parse_label (mode : KeyMode) :
    ∃ read, KeyMode.parse mode.label = .ok read ∧ read.label = mode.label := by
  cases mode with
  | sequential => exact ⟨.sequential, by decide +kernel, rfl⟩
  | decimal modulus =>
    refine ⟨.decimal KeyMode.defaultModulus, ?_, rfl⟩
    rw [KeyMode.label]
    decide +kernel

/-- **What a name is.** A text names a mode or an operation if and only if it is one of their names
up to blanks at both ends and ASCII case, and dressing it otherwise in such a way changes no name
that is read. What names no mode is reported stripped and lowered, and what was reported is reported
as it is; what names no operation is reported as it was given. The name that is shown is read
back: as the operation, and as a mode with the same label. -/
theorem names_read :
    (∀ (s : String) (mode : KeyMode),
      KeyMode.parse s = .ok mode ↔ ∃ name, (name, mode) ∈ KeyMode.names ∧ Text.Named s name) ∧
    (∀ (s : String) (op : Operation),
      Operation.parse s = .ok op ↔ ∃ name, (name, op) ∈ Operation.names ∧ Text.Named s name) ∧
    (∀ s s' : String, Text.Dressed s s' → KeyMode.parse s' = KeyMode.parse s ∧
      ∀ op : Operation, Operation.parse s = .ok op → Operation.parse s' = .ok op) ∧
    (∀ (s : String) (fault : KeyFault), KeyMode.parse s = .error fault →
      ∃ core text, Text.Stripped s core ∧ Text.Lowered core text ∧ fault = .unknownMode text ∧
        KeyMode.parse text = .error fault) ∧
    (∀ (s : String) (fault : ConfigFault),
      Operation.parse s = .error fault → fault = .unknownOperation s) ∧
    (∀ op : Operation, Operation.parse op.name = .ok op) ∧
    ∀ mode : KeyMode, ∃ read, KeyMode.parse mode.label = .ok read ∧ read.label = mode.label := by
  refine ⟨KeyMode.parse_ok_iff, Operation.parse_ok_iff, ?_, ?_,
    fun _ _ => Operation.error_of_parse, Operation.parse_name, KeyMode.parse_label⟩
  · intro s s' hdressed
    refine ⟨KeyMode.parse_congr hdressed.fold_eq, fun op hop => ?_⟩
    rw [Operation.parse_ok_iff] at hop ⊢
    obtain ⟨name, hname, hnamed⟩ := hop
    refine ⟨name, hname, ?_⟩
    rw [Text.Named.iff_fold] at hnamed ⊢
    rw [hdressed.fold_eq, hnamed]
  · intro s fault hfault
    refine ⟨Text.trim s, Text.fold s, Text.stripped_trim s, Text.lowered_lower _,
      KeyMode.error_of_parse hfault, ?_⟩
    rw [KeyMode.parse_congr (Text.fold_fold s), hfault]

/-- A name between two kinds of blanks, and a text in which a letter that is not of ASCII keeps the
first word from being one: the small letter `ſ` is no `s`. -/
theorem names_read_sample :
    Text.Dressed "put" "\u00a0 PuT\n\u3000" ∧
    Operation.parse "\u00a0 PuT\n\u3000" = .ok .set ∧
    KeyMode.parse " ſeq\tQ " = .error (.unknownMode "ſeq\tq") ∧
    KeyMode.parse "ſeq\tq" = .error (.unknownMode "ſeq\tq") ∧
    Operation.parse "Get s" = .error (.unknownOperation "Get s") := by
  have hdressed : Text.Dressed "put" "\u00a0 PuT\n\u3000" :=
    ⟨"\u00a0 ", "PuT", "\n\u3000", by decide +kernel, by decide +kernel, by decide +kernel,
      by decide +kernel⟩
  have hmode : KeyMode.parse " ſeq\tQ " = .error (.unknownMode "ſeq\tq") := by decide +kernel
  obtain ⟨-, -, hdress, hunknown, hrefused, -⟩ := names_read
  refine ⟨hdressed, (hdress _ _ hdressed).2 .set (by decide +kernel), hmode, ?_, ?_⟩
  · obtain ⟨-, text, -, -, htext, hfixed⟩ := hunknown _ _ hmode
    rwa [← KeyFault.unknownMode.inj htext] at hfixed
  · have hparse : ∃ fault, Operation.parse "Get s" = .error fault := ⟨_, rfl⟩
    obtain ⟨fault, hfault⟩ := hparse
    rw [hfault, hrefused _ _ hfault]

end LoadSweep
