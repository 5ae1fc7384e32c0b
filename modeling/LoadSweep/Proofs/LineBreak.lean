import LoadSweep.Proofs.Results

/-!
# `LoadSweep/Proofs/LineBreak.lean` — readers that end a record at a carriage return

What the reader of `LoadSweep/Proofs/Csv.lean` takes for the end of a record is the line feed alone.
Others take a carriage return, or the two together, as well (`Csv.AnyBreak`). They read a quoted
field as it was written. A field is quoted for a comma, a quote or a line feed, but not for a
carriage return, so a text that holds one and none of the others stands bare in the file, and each
of its carriage returns is the end of a record.

`Csv.looseReturns` counts them. It measures the damage exactly: such a reader sees as many records
more than were written, and reads what was written if there are none. Only the two names of a row
can have any.
-/

set_option autoImplicit false

namespace LoadSweep

open Number

namespace Csv

/-! ## Fields -/

/-- A text as every reader takes it: bare with nothing in it that has a meaning for any of them, or
in quotes with each quote written twice. -/
def Written (text shown : List Char) : Prop :=
  Plain text ∧ shown = text ∨ shown = '"' :: (doubleQuotes text ++ ['"'])

/-- The carriage returns of a field that is not quoted. -/
def looseReturns (text : List Char) : Nat :=
  if needsQuotes text then 0 else text.count '\r'

theorem looseReturns_of_bare {text : List Char} (h : Bare text) :
    looseReturns text = text.count '\r' := by
  rw [looseReturns, needsQuotes_eq_false.mpr h]
  rfl

theorem looseReturns_of_plain {text : List Char} (h : Plain text) : looseReturns text = 0 := by
  rw [looseReturns_of_bare h.bare, List.count_eq_zero]
  exact fun hmem => (h _ hmem).2.2.2 rfl

/-- A field is quoted, or it is bare. -/
theorem field_cases (text : List Char) :
    ¬ Bare text ∧ looseReturns text = 0 ∧ field text = '"' :: (doubleQuotes text ++ ['"']) ∨
      Bare text ∧ looseReturns text = text.count '\r' ∧ field text = text := by
  by_cases hneeds : needsQuotes text = true
  · refine .inl ⟨fun hbare => ?_, if_pos hneeds, if_pos hneeds⟩
    rw [needsQuotes_eq_false.mpr hbare] at hneeds
    exact Bool.false_ne_true hneeds
  · have hbare : Bare text := needsQuotes_eq_false.mp (Bool.eq_false_iff.mpr hneeds)
    exact .inr ⟨hbare, looseReturns_of_bare hbare, field_of_bare hbare⟩

/-- **A field is written as every reader takes it, unless a carriage return is loose in it.** -/
theorem written_field_iff (text : List Char) :
    Written text (field text) ↔ looseReturns text = 0 := by
  obtain ⟨-, hloose, hfield⟩ | ⟨hbare, hloose, hfield⟩ := field_cases text
  · exact ⟨fun _ => hloose, fun _ => .inr hfield⟩
  · rw [hfield, hloose, List.count_eq_zero]
    constructor
    · rintro (⟨hplain, -⟩ | hquoted) hmem
      · exact (hplain _ hmem).2.2.2 rfl
      · have hquote : '"' ∈ text := by rw [hquoted]; exact List.mem_cons_self
        exact (hbare _ hquote).2.1 rfl
    · intro hnone
      refine .inl ⟨fun c hc => ?_, rfl⟩
      obtain ⟨hcomma, hquote, hnewline⟩ := hbare c hc
      exact ⟨hcomma, hquote, hnewline, fun heq => hnone (heq ▸ hc)⟩

/-! ## The reader -/

/-- A reader that ends a record at a line feed, at a carriage return and at the two together. -/
structure AnyBreak where
  reader : Reader
  /-- The last character was a carriage return that ended a record. A line feed now is part of the
  same break. -/
  returned : Bool

namespace AnyBreak

def step (a : AnyBreak) (c : Char) : Option AnyBreak :=
  if a.reader.mode = .quoted then (a.reader.step c).map (⟨·, false⟩)
  else if c = '\r' then some ⟨a.reader.endRecord, true⟩
  else if c = '\n' ∧ a.returned = true then some ⟨a.reader, false⟩
  else (a.reader.step c).map (⟨·, false⟩)

def run (a : AnyBreak) (cs : List Char) : Option AnyBreak := cs.foldlM step a

end AnyBreak

/-- The records of a text, each ended by some line break. -/
def readAnyBreak? (text : String) : Option (List (List String)) :=
  match AnyBreak.run ⟨.init, false⟩ text.toList with
  | none => none
  | some a =>
    if a.reader.mode = .start ∧ a.reader.fields = [] then
      some (a.reader.records.reverse.map fun fields => fields.map String.ofList)
    else none

namespace AnyBreak

variable {t : List Char} {f : List (List Char)} {r : List (List (List Char))} {b : Bool}

theorem run_append (a : AnyBreak) (cs ds : List Char) :
    a.run (cs ++ ds) = (a.run cs).bind (run · ds) := List.foldlM_append

theorem run_cons (a : AnyBreak) (c : Char) (cs : List Char) :
    a.run (c :: cs) = (a.step c).bind (run · cs) := rfl

/-- Between quotes, and for a character that is no part of a break, it reads as any reader does. -/
theorem step_eq {a : AnyBreak} {c : Char}
    (h : a.reader.mode = .quoted ∨ c ≠ '\r' ∧ (c = '\n' → a.returned = false)) :
    a.step c = (a.reader.step c).map (⟨·, false⟩) := by
  unfold step
  obtain hquoted | ⟨hreturn, hnewline⟩ := h
  · rw [if_pos hquoted]
  · by_cases hquoted : a.reader.mode = .quoted
    · rw [if_pos hquoted]
    · rw [if_neg hquoted, if_neg hreturn, if_neg]
      rintro ⟨hc, hreturned⟩
      exact Bool.false_ne_true ((hnewline hc).symm.trans hreturned)

theorem step_return {a : AnyBreak} (h : a.reader.mode ≠ .quoted) :
    a.step '\r' = some ⟨a.reader.endRecord, true⟩ := by
  rw [step, if_neg h, if_pos rfl]

theorem run_doubleQuotes (text : List Char) :
    run ⟨⟨.quoted, t, f, r⟩, b⟩ (doubleQuotes text ++ ['"'])
      = some ⟨⟨.closing, text.reverse ++ t, f, r⟩, false⟩ := by
  induction text generalizing t b with
  | nil => rfl
  | cons c rest ih =>
    rw [List.reverse_cons, List.append_assoc]
    by_cases hquote : c = '"'
    · subst hquote
      exact ih (t := '"' :: t)
    · rw [doubleQuotes, if_neg hquote, List.cons_append, run_cons, step_eq (.inl rfl)]
      simp only [Reader.step, if_neg hquote]
      exact ih (t := c :: t)

/-- What a field leaves: a record more for each loose carriage return, and the text itself if there
is none. -/
structure AfterField (f : List (List Char)) (r : List (List (List Char))) (text : List Char)
    (a : AnyBreak) : Prop where
  mode : a.reader.mode ≠ .quoted
  records : a.reader.records.length = r.length + looseReturns text
  whole : looseReturns text = 0 → a = ⟨⟨a.reader.mode, text.reverse, f, r⟩, false⟩

/-- In a bare text a carriage return is the only character that does not stand for itself. -/
theorem run_bare {text : List Char} (h : Bare text) {mode : Mode}
    (hmode : mode = .start ∨ mode = .bare) :
    ∃ a, run ⟨⟨mode, t, f, r⟩, b⟩ text = some a ∧ a.reader.mode ≠ .quoted ∧
      a.reader.records.length = r.length + text.count '\r' ∧
      (b = false → '\r' ∉ text → a = ⟨⟨a.reader.mode, text.reverse ++ t, f, r⟩, false⟩) := by
  induction text generalizing mode t f r b with
  | nil =>
    refine ⟨_, rfl, ?_, rfl, fun hb _ => by rw [hb]; rfl⟩
    rcases hmode with rfl | rfl <;> simp
  | cons c rest ih =>
    obtain ⟨⟨hcomma, hquote, hnewline⟩, hrest⟩ := List.forall_mem_cons.mp h
    by_cases hreturn : c = '\r'
    · subst hreturn
      have hnot : mode ≠ .quoted := by rcases hmode with rfl | rfl <;> simp
      obtain ⟨a, hrun, hlast, hrecords, -⟩ := ih (t := []) (f := [])
        (r := (t.reverse :: f).reverse :: r) (b := true) hrest (.inl rfl)
      refine ⟨a, ?_, hlast, ?_, fun _ hnone => absurd List.mem_cons_self hnone⟩
      · rw [run_cons, step_return hnot]
        exact hrun
      · rw [hrecords, List.count_cons_self, List.length_cons]
        omega
    · obtain ⟨a, hrun, hlast, hrecords, hwhole⟩ := ih (t := c :: t) (f := f) (r := r)
        (b := false) hrest (.inr rfl)
      have hstep : Reader.step ⟨mode, t, f, r⟩ c = some ⟨.bare, c :: t, f, r⟩ := by
        rcases hmode with rfl | rfl <;> simp [Reader.step, hcomma, hquote, hnewline]
      refine ⟨a, ?_, hlast, ?_, fun _ hnone => ?_⟩
      · rw [run_cons, step_eq (.inr ⟨hreturn, fun hc => absurd hc hnewline⟩), hstep]
        exact hrun
      · rw [hrecords, List.count_cons_of_ne hreturn]
      · rw [List.reverse_cons, List.append_assoc]
        exact hwhole rfl fun hmem => hnone (List.mem_cons_of_mem _ hmem)

theorem run_field (text : List Char) :
    ∃ a, run ⟨⟨.start, [], f, r⟩, false⟩ (field text) = some a ∧ AfterField f r text a := by
  obtain ⟨-, hloose, hfield⟩ | ⟨hbare, hloose, hfield⟩ := field_cases text
  · refine ⟨⟨⟨.closing, text.reverse, f, r⟩, false⟩, ?_, ?_⟩
    · rw [hfield, ← List.append_nil text.reverse]
      exact run_doubleQuotes text
    · exact ⟨by simp, by rw [hloose]; rfl, fun _ => rfl⟩
  · obtain ⟨a, hrun, hlast, hrecords, hwhole⟩ :=
      run_bare (t := []) (f := f) (r := r) (b := false) hbare (.inl rfl)
    rw [← hloose] at hrecords
    rw [hfield]
    refine ⟨a, hrun, hlast, hrecords, fun hnone => ?_⟩
    rw [hloose, List.count_eq_zero] at hnone
    rw [← List.append_nil text.reverse]
    exact hwhole rfl hnone

/-! ## Records -/

/-- The loose carriage returns of a record. -/
def looseIn (texts : List (List Char)) : Nat := total (texts.map looseReturns)

/-- **Each loose carriage return is a record more**, if the last field of the record has none; it
would be one break with the line feed that follows. -/
theorem run_fields {texts : List (List Char)} (h : texts ≠ [])
    (hlast : looseReturns (texts.getLast h) = 0) :
    ∃ records, run ⟨⟨.start, [], f, r⟩, false⟩ (Csv.fields texts ++ ['\n'])
        = some ⟨⟨.start, [], [], records⟩, false⟩ ∧
      records.length = r.length + 1 + looseIn texts ∧
      (looseIn texts = 0 → records = (f.reverse ++ texts) :: r) := by
  induction texts generalizing f r with
  | nil => exact absurd rfl h
  | cons text rest ih =>
    obtain ⟨a, hrun, hafter⟩ := run_field (f := f) (r := r) text
    cases rest with
    | nil =>
      have hreturned : a.returned = false := by rw [hafter.whole hlast]
      have hstep : a.step '\n' = some ⟨a.reader.endRecord, false⟩ := by
        rw [step_eq (.inr ⟨by decide, fun _ => hreturned⟩), Reader.step_newline hafter.mode]
        rfl
      have hloose : looseIn [text] = 0 := by simpa [looseIn, total] using hlast
      refine ⟨a.reader.endRecord.records, ?_, ?_, fun _ => ?_⟩
      · rw [Csv.fields, run_append, hrun, Option.bind_some, run_cons, hstep]
        rfl
      · rw [hloose, hafter.whole hlast]
        rfl
      · rw [hafter.whole hlast]
        simp [Reader.endRecord]
    | cons next rest =>
      have hstep : a.step ',' = some ⟨a.reader.endField, false⟩ := by
        rw [step_eq (.inr ⟨by decide, fun hc => absurd hc (by decide)⟩),
          Reader.step_comma hafter.mode]
        rfl
      have hsplit : Csv.fields (text :: next :: rest) ++ ['\n']
          = field text ++ ',' :: (Csv.fields (next :: rest) ++ ['\n']) := by simp [Csv.fields]
      have hloose : looseIn (text :: next :: rest)
          = looseReturns text + looseIn (next :: rest) := rfl
      obtain ⟨records, hrest, hlength, hwhole⟩ := ih (f := a.reader.text.reverse :: a.reader.fields)
        (r := a.reader.records) (List.cons_ne_nil _ _) hlast
      refine ⟨records, ?_, ?_, fun hnone => ?_⟩
      · rw [hsplit, run_append, hrun, Option.bind_some, run_cons, hstep]
        exact hrest
      · rw [hlength, hafter.records, hloose]
        omega
      · rw [hwhole (by omega), hafter.whole (by omega)]
        simp

theorem run_record {texts : List String} (h : texts ≠ [])
    (hlast : looseReturns (texts.getLast h).toList = 0) :
    ∃ records, run ⟨⟨.start, [], [], r⟩, false⟩ (record texts).toList
        = some ⟨⟨.start, [], [], records⟩, false⟩ ∧
      records.length = r.length + 1 + looseIn (texts.map String.toList) ∧
      (looseIn (texts.map String.toList) = 0 → records = texts.map String.toList :: r) := by
  rw [record, String.toList_ofList]
  exact run_fields (by simpa using h) (by rwa [List.getLast_map])

/-- After a record the reader stands where it stood before it, a record further for each loose
carriage return. -/
theorem run_join {records : List (List String)}
    (h : ∀ texts ∈ records, ∃ hne : texts ≠ [], looseReturns (texts.getLast hne).toList = 0) :
    ∃ seen, run ⟨⟨.start, [], [], r⟩, false⟩ (String.join (records.map record)).toList
        = some ⟨⟨.start, [], [], seen⟩, false⟩ ∧
      seen.length = r.length + records.length
        + total (records.map fun texts => looseIn (texts.map String.toList)) ∧
      (total (records.map fun texts => looseIn (texts.map String.toList)) = 0 →
        seen = (records.map (·.map String.toList)).reverse ++ r) := by
  induction records generalizing r with
  | nil => exact ⟨r, rfl, rfl, fun _ => rfl⟩
  | cons texts rest ih =>
    obtain ⟨⟨hne, hlast⟩, hrest⟩ := List.forall_mem_cons.mp h
    obtain ⟨first, hfirst, hlength, hwhole⟩ := run_record (r := r) hne hlast
    obtain ⟨seen, hrun, hseen, hall⟩ := ih (r := first) hrest
    refine ⟨seen, ?_, ?_, fun hnone => ?_⟩
    · rw [List.map_cons, String.join_cons, String.toList_append, run_append, hfirst,
        Option.bind_some, hrun]
    · rw [hseen, hlength, List.map_cons, total, List.length_cons]
      omega
    · rw [List.map_cons, total] at hnone
      rw [hall (by omega), hwhole (by omega), List.map_cons, List.reverse_cons, List.append_assoc]
      rfl

end AnyBreak

theorem readAnyBreak?_join {records : List (List String)}
    (h : ∀ texts ∈ records, ∃ hne : texts ≠ [], looseReturns (texts.getLast hne).toList = 0) :
    ∃ seen, readAnyBreak? (String.join (records.map record)) = some seen ∧
      seen.length = records.length
        + total (records.map fun texts => AnyBreak.looseIn (texts.map String.toList)) ∧
      (total (records.map fun texts => AnyBreak.looseIn (texts.map String.toList)) = 0 →
        seen = records) := by
  obtain ⟨seen, hrun, hlength, hwhole⟩ := AnyBreak.run_join (r := []) h
  refine ⟨seen.reverse.map (·.map String.ofList), ?_, ?_, fun hnone => ?_⟩
  · rw [readAnyBreak?, Reader.init, hrun]
    rfl
  · rw [List.length_map, List.length_reverse, hlength]
    simp
  · rw [hwhole hnone]
    simp [Function.comp_def]

end Csv

/-! ## Files of results -/

/-- The loose carriage returns of a row: only its names can have any. -/
def Row.looseReturns (row : Row) : Nat :=
  Csv.looseReturns row.target.name.toList + Csv.looseReturns row.target.host.toList

theorem Row.looseIn_fields (row : Row) :
    Csv.AnyBreak.looseIn (row.fields.map String.toList) = row.looseReturns := by
  have hsplit : row.fields = row.target.name :: row.target.host :: row.fields.drop 2 := rfl
  have hplain : total ((row.fields.drop 2).map (Csv.looseReturns ∘ String.toList)) = 0 := by
    rw [total_eq_zero]
    intro n hn
    obtain ⟨text, htext, rfl⟩ := List.mem_map.mp hn
    exact Csv.looseReturns_of_plain (row.fields_plain text htext)
  rw [hsplit, Csv.AnyBreak.looseIn, List.map_map, List.map_cons, List.map_cons, total, total,
    hplain, Nat.add_zero, Function.comp_apply, Function.comp_apply, looseReturns]

namespace Csv

/-- **What such a reader sees of a file of results.** -/
theorem readAnyBreak?_results (rows : List Row) :
    ∃ seen, readAnyBreak? (results rows) = some seen ∧
      seen.length = 1 + rows.length + total (rows.map Row.looseReturns) ∧
      (seen = columns :: rows.map Row.fields ↔ ∀ row ∈ rows, row.looseReturns = 0) := by
  have hlast : ∀ texts ∈ columns :: rows.map Row.fields,
      ∃ hne : texts ≠ [], looseReturns (texts.getLast hne).toList = 0 := by
    intro texts htexts
    obtain rfl | htexts := List.mem_cons.mp htexts
    · exact ⟨by decide, by decide⟩
    · obtain ⟨row, -, rfl⟩ := List.mem_map.mp htexts
      exact ⟨List.cons_ne_nil _ _, looseReturns_of_plain (plain_toFixed 3 row.p99)⟩
  have hloose : total ((columns :: rows.map Row.fields).map
      fun texts => AnyBreak.looseIn (texts.map String.toList))
        = total (rows.map Row.looseReturns) := by
    have hcolumns : AnyBreak.looseIn (columns.map String.toList) = 0 := by decide
    rw [List.map_cons, total, hcolumns, Nat.zero_add, List.map_map]
    exact congrArg total (List.map_congr_left fun row _ => row.looseIn_fields)
  obtain ⟨seen, hread, hlength, hwhole⟩ := readAnyBreak?_join hlast
  rw [hloose] at hlength hwhole
  rw [List.length_cons, List.length_map] at hlength
  refine ⟨seen, by rw [results_eq]; exact hread, by omega, ?_⟩
  rw [← List.forall_mem_map (f := Row.looseReturns) (P := (· = 0)), ← total_eq_zero]
  refine ⟨fun h => ?_, hwhole⟩
  rw [h, List.length_cons, List.length_map] at hlength
  omega

end Csv

/-- The fields of a row are written as every reader takes them if no carriage return is loose. -/
theorem Row.written_iff (row : Row) :
    (∀ text ∈ row.fields, Csv.Written text.toList (Csv.field text.toList)) ↔
      row.looseReturns = 0 := by
  rw [← row.looseIn_fields, Csv.AnyBreak.looseIn, total_eq_zero]
  simp only [Csv.written_field_iff, List.forall_mem_map]

namespace Csv

/-- **Quotes keep every line break but a lone carriage return.** A field is quoted if and only if it
holds a comma, a quote or a line feed, and then its quotes are doubled; any other stands as it is.
That is how every reader takes it unless a carriage return is loose in it, which only the two names
of a row can have. A reader for any line break makes a record more of the file for each loose
carriage return, and reads what was written if and only if there is none. -/
theorem torn_at_returns {files : FileTree} {path : String} {place : Place}
    (h : files.WritableAt path place) (rows : List Row) :
    (∀ text, ¬ Bare text ∧ field text = '"' :: (doubleQuotes text ++ ['"']) ∨
      Bare text ∧ field text = text) ∧
    (∀ row ∈ rows, ∀ text ∈ row.fields.drop 2, Plain text.toList) ∧
    ((∀ row ∈ rows, ∀ text ∈ row.fields, Written text.toList (field text.toList)) ↔
      ∀ row ∈ rows, row.looseReturns = 0) ∧
    ∃ (sink : Sink) (made : FileTree) (last : Sink) (written : FileTree) (text : String)
      (seen : List (List String)),
      Sink.create files path = .ok (sink, made) ∧ sink.writeRows made rows = .ok (last, written) ∧
      written.read? path = some text ∧ readAnyBreak? text = some seen ∧
      seen.length = 1 + rows.length + total (rows.map Row.looseReturns) ∧
      (seen = columns :: rows.map Row.fields ↔ ∀ row ∈ rows, row.looseReturns = 0) := by
  refine ⟨fun text => ?_, fun row _ => row.fields_plain, ?_, ?_⟩
  · obtain ⟨hbare, -, hfield⟩ | ⟨hbare, -, hfield⟩ := field_cases text
    · exact .inl ⟨hbare, hfield⟩
    · exact .inr ⟨hbare, hfield⟩
  · simp only [Row.written_iff]
  · obtain ⟨sink, made, last, written, hcreate, hwrite, hfile⟩ := Sink.leaves_rows h rows
    obtain ⟨seen, hread, hlength, hwhole⟩ := readAnyBreak?_results rows
    exact ⟨sink, made, last, written, _, seen, hcreate, hwrite, hfile, hread, hlength, hwhole⟩

end Csv

/-- A name like one from a file whose lines end with two characters. -/
def Sample.returnRow : Row :=
  { Sample.oddRow with target := { name := "redis\r", host := "127.0.0.1", port := 6379 } }

namespace Csv

/-- One name has a loose carriage return; the other has one between quotes. -/
theorem torn_at_returns_sample : FileTree.empty.WritableAt "r" ["work", "r"] ∧
    ∃ (sink : Sink) (made : FileTree) (last : Sink) (written : FileTree) (text : String)
      (seen : List (List String)),
      Sink.create FileTree.empty "r" = .ok (sink, made) ∧
      sink.writeRows made [Sample.oddRow, Sample.returnRow] = .ok (last, written) ∧
      written.read? "r" = some text ∧ readAnyBreak? text = some seen ∧ seen.length = 4 := by
  obtain ⟨-, -, -, sink, made, last, written, text, seen, hcreate, hwrite, hread, hseen, hlength,
    -⟩ := torn_at_returns Sample.writable [Sample.oddRow, Sample.returnRow]
  refine ⟨Sample.writable, sink, made, last, written, text, seen, hcreate, hwrite, hread, hseen, ?_⟩
  rw [hlength]
  decide

/-- A name with a carriage return stands in the file without quotes, and a reader for any line break
sees three records: the columns, the name before the break, and the rest of the row. -/
theorem return_not_quoted :
    '\r' ∈ "redis\r".toList ∧ field "redis\r".toList = "redis\r".toList ∧
    ¬ Written "redis\r".toList (field "redis\r".toList) ∧
    results [Sample.returnRow]
      = header ++ "redis\r,127.0.0.1,6379,set,decimal,1,0,0,0,NaN,-inf,7,-0.000,inf,0.000\n" ∧
    readAnyBreak? (results [Sample.returnRow])
      = some [columns, ["redis"],
          ["", "127.0.0.1", "6379", "set", "decimal", "1", "0", "0", "0", "NaN", "-inf", "7",
            "-0.000", "inf", "0.000"]] := by
  have hloose : looseReturns "redis\r".toList ≠ 0 := by decide
  have hfile : results [Sample.returnRow]
      = header ++ "redis\r,127.0.0.1,6379,set,decimal,1,0,0,0,NaN,-inf,7,-0.000,inf,0.000\n" := by
    decide +kernel
  refine ⟨by decide, by decide, fun h => hloose ((written_field_iff _).mp h), hfile, ?_⟩
  rw [hfile]
  decide +kernel

end Csv

end LoadSweep
