import LoadSweep.Report.Csv

/-!
# `LoadSweep/Proofs/Csv.lean` — what is written can be read again

A reader of comma-separated records goes through a text once, character by character
(`Csv.Reader.step`). It knows nothing of the writer: a comma ends a field and a line feed a record,
unless they stand between quotes; a field that begins with a quote goes on to its closing quote, two
quotes standing for one; a quote anywhere else, or anything between a closing quote and the end of
its field, is an error, and so is a record without an end.

Reading what was written gives the fields as they were, whatever stands in them (`Csv.read?_join`).
The invariant is that after a whole field the reader is not between quotes, so that the comma or the
line feed that follows ends it.

All fields of a row but its two names are **plain**: nothing in them has a meaning for a reader, and
they stand in the file as they are (`Row.fields_plain`).
-/

set_option autoImplicit false

namespace LoadSweep

open Number

namespace Csv

/-! ## The reader -/

/-- Where a reader is. -/
inductive Mode where
  /-- At the beginning of a field. -/
  | start
  /-- In a field that did not begin with a quote. -/
  | bare
  /-- Between the quotes of a field. -/
  | quoted
  /-- After a quote between quotes: it ends the field, or is the first of two. -/
  | closing
  deriving DecidableEq, Repr

/-- What was read of the field, the fields of its record before it, and the records before that, all
newest first. -/
structure Reader where
  mode : Mode
  text : List Char
  fields : List (List Char)
  records : List (List (List Char))

namespace Reader

def init : Reader := { mode := .start, text := [], fields := [], records := [] }

def endField (r : Reader) : Reader :=
  { r with mode := .start, text := [], fields := r.text.reverse :: r.fields }

def endRecord (r : Reader) : Reader :=
  { mode := .start, text := [], fields := []
    records := (r.text.reverse :: r.fields).reverse :: r.records }

/-- Reads one character; there is nothing after an error. -/
def step (r : Reader) (c : Char) : Option Reader :=
  match r.mode with
  | .quoted => some (if c = '"' then { r with mode := .closing } else { r with text := c :: r.text })
  | .start | .bare | .closing =>
    if c = ',' then some r.endField
    else if c = '\n' then some r.endRecord
    else match r.mode with
      | .start => some (if c = '"' then { r with mode := .quoted }
          else { r with mode := .bare, text := c :: r.text })
      | .closing => if c = '"' then some { r with mode := .quoted, text := c :: r.text } else none
      | _ => if c = '"' then none else some { r with text := c :: r.text }

/-- Reads several characters. -/
def run (r : Reader) (cs : List Char) : Option Reader := cs.foldlM step r

end Reader

/-- The records of a text, each ended by a line feed. -/
def read? (text : String) : Option (List (List String)) :=
  match Reader.init.run text.toList with
  | none => none
  | some r =>
    if r.mode = .start ∧ r.fields = [] then
      some (r.records.reverse.map fun fields => fields.map String.ofList)
    else none

namespace Reader

theorem run_append (r : Reader) (cs ds : List Char) :
    r.run (cs ++ ds) = (r.run cs).bind (run · ds) := List.foldlM_append

theorem run_cons (r : Reader) (c : Char) (cs : List Char) :
    r.run (c :: cs) = (r.step c).bind (run · cs) := rfl

theorem step_comma {r : Reader} (h : r.mode ≠ .quoted) : r.step ',' = some r.endField := by
  unfold step
  split
  · exact absurd ‹_› h
  all_goals rfl

theorem step_newline {r : Reader} (h : r.mode ≠ .quoted) : r.step '\n' = some r.endRecord := by
  unfold step
  split
  · exact absurd ‹_› h
  all_goals rfl

end Reader

/-! ## Fields -/

/-- Nothing in the text has a meaning for a reader. -/
def Bare (text : List Char) : Prop := ∀ c ∈ text, c ≠ ',' ∧ c ≠ '"' ∧ c ≠ '\n'

theorem needsQuotes_eq_false {text : List Char} : needsQuotes text = false ↔ Bare text := by
  simp [needsQuotes, Bare, and_assoc]

instance (text : List Char) : Decidable (Bare text) := decidable_of_iff _ needsQuotes_eq_false

theorem field_of_bare {text : List Char} (h : Bare text) : field text = text := by
  rw [field, needsQuotes_eq_false.mpr h]
  rfl

namespace Reader

variable {t : List Char} {fs : List (List Char)} {rs : List (List (List Char))}

theorem run_bare {text : List Char} (h : Bare text) {mode : Mode}
    (hmode : mode = .start ∨ mode = .bare) :
    ∃ last, last ≠ .quoted ∧
      run ⟨mode, t, fs, rs⟩ text = some ⟨last, text.reverse ++ t, fs, rs⟩ := by
  induction text generalizing mode t with
  | nil =>
    refine ⟨mode, ?_, rfl⟩
    rcases hmode with rfl | rfl <;> simp
  | cons c rest ih =>
    obtain ⟨⟨hcomma, hquote, hnewline⟩, hrest⟩ := List.forall_mem_cons.mp h
    obtain ⟨last, hlast, hrun⟩ := ih (t := c :: t) hrest (.inr rfl)
    have hstep : step ⟨mode, t, fs, rs⟩ c = some ⟨.bare, c :: t, fs, rs⟩ := by
      rcases hmode with rfl | rfl <;> simp [step, hcomma, hquote, hnewline]
    refine ⟨last, hlast, ?_⟩
    rw [run_cons, hstep, List.reverse_cons, List.append_assoc]
    exact hrun

/-- Between quotes everything stands for itself, and two quotes for one. -/
theorem run_doubleQuotes (text : List Char) :
    run ⟨.quoted, t, fs, rs⟩ (doubleQuotes text ++ ['"'])
      = some ⟨.closing, text.reverse ++ t, fs, rs⟩ := by
  induction text generalizing t with
  | nil => rfl
  | cons c rest ih =>
    rw [List.reverse_cons, List.append_assoc]
    by_cases hquote : c = '"'
    · subst hquote
      exact ih (t := '"' :: t)
    · rw [doubleQuotes, if_neg hquote, List.cons_append, run_cons]
      simp only [step, if_neg hquote]
      exact ih (t := c :: t)

/-- **A field is read as it was**, and the reader is not between quotes after it. -/
theorem run_field (text : List Char) :
    ∃ last, last ≠ .quoted ∧
      run ⟨.start, [], fs, rs⟩ (field text) = some ⟨last, text.reverse, fs, rs⟩ := by
  unfold field
  split
  · refine ⟨.closing, by simp, ?_⟩
    rw [← List.append_nil text.reverse]
    exact run_doubleQuotes text
  · rename_i hneeds
    rw [← List.append_nil text.reverse]
    exact run_bare (needsQuotes_eq_false.mp (Bool.eq_false_iff.mpr hneeds)) (.inl rfl)

/-! ## Records -/

theorem run_fields {texts : List (List Char)} (h : texts ≠ []) :
    run ⟨.start, [], fs, rs⟩ (Csv.fields texts ++ ['\n'])
      = some ⟨.start, [], [], (fs.reverse ++ texts) :: rs⟩ := by
  induction texts generalizing fs with
  | nil => exact absurd rfl h
  | cons text rest ih =>
    obtain ⟨last, hlast, hrun⟩ : ∃ last, last ≠ .quoted ∧
        run ⟨.start, [], fs, rs⟩ (field text) = some ⟨last, text.reverse, fs, rs⟩ := run_field text
    cases rest with
    | nil =>
      rw [Csv.fields, run_append, hrun, Option.bind_some, run_cons, step_newline hlast]
      simp [endRecord, run]
    | cons next rest =>
      have hsplit : Csv.fields (text :: next :: rest) ++ ['\n']
          = field text ++ ',' :: (Csv.fields (next :: rest) ++ ['\n']) := by simp [Csv.fields]
      rw [hsplit, run_append, hrun, Option.bind_some, run_cons, step_comma hlast, Option.bind_some]
      simp only [endField, List.reverse_reverse]
      rw [ih (List.cons_ne_nil _ _), List.reverse_cons, List.append_assoc]
      rfl

theorem run_record {texts : List String} (h : texts ≠ []) :
    run ⟨.start, [], [], rs⟩ (record texts).toList
      = some ⟨.start, [], [], texts.map String.toList :: rs⟩ := by
  rw [record, String.toList_ofList]
  exact run_fields (by simpa using h)

/-- After a record the reader stands where it stood before it. -/
theorem run_join {records : List (List String)} (h : ∀ texts ∈ records, texts ≠ []) :
    run ⟨.start, [], [], rs⟩ (String.join (records.map record)).toList
      = some ⟨.start, [], [], (records.map (·.map String.toList)).reverse ++ rs⟩ := by
  induction records generalizing rs with
  | nil => rfl
  | cons texts rest ih =>
    obtain ⟨htexts, hrest⟩ := List.forall_mem_cons.mp h
    rw [List.map_cons, String.join_cons, String.toList_append, run_append, run_record htexts,
      Option.bind_some, ih hrest, List.map_cons, List.reverse_cons, List.append_assoc]
    rfl

end Reader

/-- **Records are read as they were written.** -/
theorem read?_join {records : List (List String)} (h : ∀ texts ∈ records, texts ≠ []) :
    read? (String.join (records.map record)) = some records := by
  rw [read?, Reader.init, Reader.run_join h]
  simp [Function.comp_def]

/-! ## Numbers are plain -/

/-- Nothing in the text has a meaning for a reader, also for one that takes a carriage return for
the end of a record. -/
def Plain (text : List Char) : Prop := ∀ c ∈ text, c ≠ ',' ∧ c ≠ '"' ∧ c ≠ '\n' ∧ c ≠ '\r'

instance (text : List Char) : Decidable (Plain text) := List.decidableBAll _ text

theorem Plain.bare {text : List Char} (h : Plain text) : Bare text := by
  intro c hc
  obtain ⟨hcomma, hquote, hnewline, -⟩ := h c hc
  exact ⟨hcomma, hquote, hnewline⟩

theorem Plain.append {a b : List Char} (ha : Plain a) (hb : Plain b) : Plain (a ++ b) := by
  intro c hc
  rcases List.mem_append.mp hc with hc | hc
  · exact ha c hc
  · exact hb c hc

theorem plain_of_isDigit {text : List Char} (h : ∀ c ∈ text, c.isDigit = true) : Plain text := by
  intro c hc
  have hdigit := h c hc
  refine ⟨?_, ?_, ?_, ?_⟩ <;> rintro rfl <;> simp at hdigit

theorem plain_toString (n : Nat) : Plain (toString n).toList := by
  rw [Nat.toString_eq_ofList_toDigits, String.toList_ofList]
  exact plain_of_isDigit fun c hc => Nat.isDigit_of_mem_toDigits (by decide) (by decide) hc

theorem plain_padDigits (width n : Nat) : Plain (padDigits width n).toList := by
  rw [padDigits, String.toList_append, String.toList_ofList]
  refine (plain_of_isDigit fun c hc => ?_).append (plain_toString n)
  rw [List.eq_of_mem_replicate hc]
  rfl

theorem plain_placesText (places n : Nat) : Plain (placesText places n).toList := by
  unfold placesText
  split
  · exact plain_toString n
  · rw [String.toList_append, String.toList_append]
    exact ((plain_toString _).append (by decide)).append (plain_padDigits _ _)

/-- A double has a plain text, also when it is no number or infinite. -/
theorem plain_toFixed (places : Nat) (d : Double) : Plain (d.toFixed places).toList := by
  match d with
  | .nan => exact show Plain "NaN".toList by decide
  | .infinite true => exact show Plain "-inf".toList by decide
  | .infinite false => exact show Plain "inf".toList by decide
  | .finite s u =>
    rw [Double.toFixed, String.toList_append]
    refine Plain.append ?_ (plain_placesText _ _)
    cases s <;> decide

end Csv

/-- **All fields of a row but its two names are plain.** -/
theorem Row.fields_plain (r : Row) : ∀ text ∈ r.fields.drop 2, Csv.Plain text.toList := by
  have hop : Csv.Plain r.operation.name.toList := by cases r.operation <;> decide
  have hmode : Csv.Plain r.keyMode.label.toList := by
    cases r.keyMode with
    | sequential => decide
    | decimal => exact show Csv.Plain "decimal".toList by decide
  simp only [fields, List.drop_succ_cons, List.drop_zero, List.forall_mem_cons, Csv.plain_toString,
    Csv.plain_toFixed, hop, hmode, true_and]
  simp

theorem Row.fields_bare (r : Row) : ∀ text ∈ r.fields.drop 2, Csv.Bare text.toList :=
  fun text htext => (r.fields_plain text htext).bare

end LoadSweep
