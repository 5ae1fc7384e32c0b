import Mathlib.Data.List.Forall2
import LoadSweep.Proofs.Csv
import LoadSweep.Report.Summary

/-!
# `LoadSweep/Proofs/Table.lean` — where the fields of the table stand

A line of the table is a head and then one cell for each number: a space, and the number at the
right end of its column. If every number fits its column, a cell has one length whatever is in it,
so the end of a cell depends on the head alone (`standsAt_columns`). The head of the titles is
brought to the width of its column. The head of a row is the name of its operation as it is, so all
numbers of the row end before their titles, by what the name falls short of the width.
-/

set_option autoImplicit false

namespace LoadSweep

open Number Text

namespace Summary

/-! ## Lines -/

/-- The lines of a table with these rows. -/
def lines (rows : List Row) : List String :=
  "" :: "=== Benchmark Summary ===" :: titles :: rows.map line

/-- **The table is its lines.** -/
theorem text_eq (rows : List Row) : text rows = String.join ((lines rows).map (· ++ "\n")) := by
  have hhead : ∀ top rest : String, "\n=== Benchmark Summary ===\n" ++ top ++ "\n" ++ rest
      = "" ++ "\n" ++ ("=== Benchmark Summary ===" ++ "\n" ++ (top ++ "\n" ++ rest)) := by
    intro top rest
    rw [← String.toList_inj]
    simp
  rw [lines, List.map_cons, List.map_cons, List.map_cons, String.join_cons, String.join_cons,
    String.join_cons, List.map_map]
  exact hhead titles _

theorem plain_alignRight {width : Nat} {s : String} (h : Csv.Plain s.toList) :
    Csv.Plain (Text.alignRight width s).toList := by
  rw [Text.alignRight, String.toList_append, String.toList_ofList]
  refine Csv.Plain.append (fun c hc => ?_) h
  rw [List.eq_of_mem_replicate hc]
  decide

theorem plain_columns {texts : List String} (h : ∀ s ∈ texts, Csv.Plain s.toList) :
    Csv.Plain (columns texts).toList := by
  unfold columns
  generalize widths = ws
  induction texts generalizing ws with
  | nil => simp [Csv.Plain]
  | cons s rest ih =>
    cases ws with
    | nil => simp [Csv.Plain]
    | cons width ws =>
      obtain ⟨hs, hrest⟩ := List.forall_mem_cons.mp h
      rw [List.zip_cons_cons, List.map_cons, String.join_cons, String.toList_append,
        String.toList_append]
      have hblank : Csv.Plain " ".toList := by decide
      exact (hblank.append (plain_alignRight hs)).append (ih hrest ws)

theorem plain_line (r : Row) : Csv.Plain (line r).toList := by
  rw [line, String.toList_append]
  refine Csv.Plain.append (by cases r.operation <;> decide) (plain_columns ?_)
  simp only [List.forall_mem_cons, Csv.plain_toString, Csv.plain_toFixed, true_and]
  simp

/-- No line of the table has a line break in it. -/
theorem not_mem_lines {rows : List Row} {text : String} (h : text ∈ lines rows) :
    '\n' ∉ text.toList := by
  have hplain : Csv.Plain text.toList := by
    simp only [lines, List.mem_cons, List.mem_map] at h
    obtain rfl | rfl | rfl | ⟨r, -, rfl⟩ := h
    · decide
    · decide
    · decide +kernel
    · exact plain_line r
  exact fun hmem => (hplain _ hmem).2.2.1 rfl

/-! ## Cells -/

/-- The titles of the columns of numbers. -/
def titleTexts : List String := ["clients", "value", "ops/sec", "p50 us", "p95 us", "p99 us"]

/-- The numbers of a row, by column. -/
def numberTexts (r : Row) : List String :=
  [toString r.clients, toString r.valueSize, r.opsPerSec.toFixed 2, r.p50.toFixed 3,
    r.p95.toFixed 3, r.p99.toFixed 3]

theorem titles_eq : titles = alignLeft operationWidth "op" ++ columns titleTexts := rfl

theorem line_eq (r : Row) : line r = r.operation.name ++ columns (numberTexts r) := rfl

/-- The part of a line that is `width` characters long and ends at `stop` is `word`, with blanks
before it. -/
def StandsAt (line : String) (stop width : Nat) (word : String) : Prop :=
  (line.toList.take stop).drop (stop - width)
    = List.replicate (width - word.length) ' ' ++ word.toList

instance (line : String) (stop width : Nat) (word : String) :
    Decidable (StandsAt line stop width word) :=
  inferInstanceAs (Decidable (_ = _))

/-- One cell, with the space before it. -/
def cell (width : Nat) (word : String) : List Char := ' ' :: (alignRight width word).toList

/-- The cells of a line after its head. -/
def cells (ws : List Nat) (words : List String) : List Char :=
  (ws.zip words).flatMap fun (width, word) => cell width word

/-- How many characters the first `n` cells take. -/
def extent (ws : List Nat) (n : Nat) : Nat := total ((ws.take n).map (· + 1))

theorem toList_columns (words : List String) : (columns words).toList = cells widths words := by
  unfold columns
  generalize widths = ws
  induction ws generalizing words with
  | nil => rfl
  | cons width ws ih =>
    cases words with
    | nil => rfl
    | cons word rest =>
      rw [List.zip_cons_cons, List.map_cons, String.join_cons, String.toList_append,
        String.toList_append, ih]
      rfl

section

variable {ws : List Nat} {words : List String} {width i : Nat} {word : String}

theorem length_cell (h : word.length ≤ width) : (cell width word).length = width + 1 := by
  simp only [cell, alignRight, String.toList_append, String.toList_ofList, List.length_cons,
    List.length_append, List.length_replicate, String.length_toList]
  omega

/-- A cell is blanks up to its word, the space before it being one of them. -/
theorem cell_eq (h : word.length ≤ width) :
    cell width word = List.replicate (width + 1 - word.length) ' ' ++ word.toList := by
  rw [cell, alignRight, String.toList_append, String.toList_ofList,
    show width + 1 - word.length = (width - word.length) + 1 by omega, List.replicate_succ]
  rfl

/-- Every word fits its column. -/
def Fit (ws : List Nat) (words : List String) : Prop :=
  List.Forall₂ (fun width word => word.length ≤ width) ws words

/-- **A line whose words fit has one length.** -/
theorem length_cells (h : Fit ws words) : (cells ws words).length = extent ws ws.length := by
  induction h with
  | nil => rfl
  | cons hword _ ih =>
    rw [cells, List.zip_cons_cons, List.flatMap_cons, List.length_append, length_cell hword]
    exact congrArg (_ + ·) ih

/-- **A cell ends where the widths up to it say**, whatever the words before it are. -/
theorem cells_at (h : Fit ws words) (hwidth : ws[i]? = some width) (hword : words[i]? = some word) :
    ∃ before after, cells ws words = before ++ cell width word ++ after ∧
      before.length = extent ws i ∧ word.length ≤ width := by
  induction h generalizing i with
  | nil => simp at hwidth
  | @cons width₀ word₀ ws rest hfits _ ih =>
    cases i with
    | zero =>
      obtain rfl : width₀ = width := by simpa using hwidth
      obtain rfl : word₀ = word := by simpa using hword
      exact ⟨[], cells ws rest, rfl, rfl, hfits⟩
    | succ i =>
      obtain ⟨before, after, hcells, hlength, hle⟩ :=
        ih (by simpa using hwidth) (by simpa using hword)
      refine ⟨cell width₀ word₀ ++ before, after, ?_, ?_, hle⟩
      · rw [cells, List.zip_cons_cons, List.flatMap_cons, List.append_assoc, List.append_assoc,
          ← List.append_assoc before, ← hcells]
        rfl
      · rw [List.length_append, length_cell hfits, hlength]
        rfl

/-- **A word stands where the head and the widths say.** -/
theorem standsAt_columns (head : String) (h : Fit widths words) (hwidth : widths[i]? = some width)
    (hword : words[i]? = some word) :
    StandsAt (head ++ columns words) (head.length + extent widths i + (width + 1)) (width + 1)
      word := by
  obtain ⟨before, after, hcells, hlength, hle⟩ := cells_at h hwidth hword
  have hbefore : (head.toList ++ before).length = head.length + extent widths i := by
    rw [List.length_append, hlength, String.length_toList]
  have hline : (head ++ columns words).toList
      = (head.toList ++ before) ++ cell width word ++ after := by
    rw [String.toList_append, toList_columns, hcells]
    simp only [List.append_assoc]
  rw [StandsAt, hline, ← hbefore, Nat.add_sub_cancel, ← length_cell hle, ← List.length_append,
    List.take_left, List.drop_left, length_cell hle, cell_eq hle]

theorem length_line (head : String) (h : Fit widths words) :
    (head ++ columns words).length = head.length + extent widths widths.length := by
  rw [String.length_append, ← String.length_toList (s := columns words), toList_columns,
    length_cells h]

end

/-! ## Titles and rows -/

/-- Where the cell of column `i` ends in the line of the titles. -/
def titleEnd (i : Nat) : Nat := operationWidth + extent widths (i + 1)

/-- Every number of a row fits its column. The name of an operation always does. -/
structure Fits (r : Row) : Prop where
  clients : (toString r.clients).length ≤ 8
  valueSize : (toString r.valueSize).length ≤ 10
  opsPerSec : (r.opsPerSec.toFixed 2).length ≤ 14
  p50 : (r.p50.toFixed 3).length ≤ 10
  p95 : (r.p95.toFixed 3).length ≤ 10
  p99 : (r.p99.toFixed 3).length ≤ 10

theorem Fits.fit {r : Row} (h : Fits r) : Fit widths (numberTexts r) :=
  .cons h.clients (.cons h.valueSize (.cons h.opsPerSec (.cons h.p50 (.cons h.p95
    (.cons h.p99 .nil)))))

theorem fit_titleTexts : Fit widths titleTexts :=
  .cons (by decide) (.cons (by decide) (.cons (by decide) (.cons (by decide) (.cons (by decide)
    (.cons (by decide) .nil)))))

theorem length_name (op : Operation) : op.name.length = 3 := by cases op <;> rfl

theorem extent_succ {ws : List Nat} {i width : Nat} (h : ws[i]? = some width) :
    extent ws (i + 1) = extent ws i + (width + 1) := by
  rw [extent, List.take_add_one, h, List.map_append, total_append]
  rfl

/-- Where the number of a column stands in a row that fits. -/
theorem Fits.standsAt {r : Row} (h : Fits r) {i width : Nat} {title number : String}
    (hwidth : widths[i]? = some width) (htitle : titleTexts[i]? = some title)
    (hnumber : (numberTexts r)[i]? = some number) :
    StandsAt titles (titleEnd i) (width + 1) title ∧
      StandsAt (line r) (titleEnd i - 2) (width + 1) number := by
  have htitles := standsAt_columns (alignLeft operationWidth "op") fit_titleTexts hwidth htitle
  have hrow := standsAt_columns r.operation.name h.fit hwidth hnumber
  have hop : (alignLeft operationWidth "op").length = operationWidth := by decide
  have hend : titleEnd i - 2 = 3 + extent widths (i + 1) := by
    simp only [titleEnd, operationWidth]
    omega
  rw [hop, Nat.add_assoc, ← extent_succ hwidth] at htitles
  rw [length_name, Nat.add_assoc, ← extent_succ hwidth] at hrow
  rw [hend]
  exact ⟨htitles, hrow⟩

theorem length_titles : titles.length = 73 := by
  rw [titles_eq, length_line _ fit_titleTexts]
  decide

theorem Fits.length_line {r : Row} (h : Fits r) : (line r).length = 71 := by
  rw [line_eq, Summary.length_line _ h.fit, length_name]
  decide

/-- **Rows end before their titles.** The printed table is its lines, one for each row after that of
the titles. If the numbers of the rows fit, the name of the operation stands at the beginning of
each, and every number at the right end of its column; but the columns of a row end two characters
before those of the titles, and so does its line. Only a table with no rows is aligned. -/
theorem rows_end_early (rows : List Row) (h : ∀ r ∈ rows, Fits r) :
    text rows = String.join ((lines rows).map (· ++ "\n")) ∧
    lines rows = ["", "=== Benchmark Summary ===", titles] ++ rows.map line ∧
    (∀ shown ∈ lines rows, '\n' ∉ shown.toList) ∧
    titles.length = 73 ∧ (List.range 6).map titleEnd = [14, 25, 40, 51, 62, 73] ∧
    (∀ r ∈ rows, (line r).length = 71 ∧ r.operation.name.toList <+: (line r).toList ∧
      ∀ i width title number, widths[i]? = some width → titleTexts[i]? = some title →
        (numberTexts r)[i]? = some number →
          StandsAt titles (titleEnd i) (width + 1) title ∧
          StandsAt (line r) (titleEnd i - 2) (width + 1) number) ∧
    ((∀ r ∈ rows, (line r).length = titles.length) ↔ rows = []) := by
  refine ⟨text_eq rows, rfl, fun _ hshown => not_mem_lines hshown, length_titles, by decide,
    fun r hr => ?_, ?_⟩
  · refine ⟨(h r hr).length_line, ?_, fun i width title number => (h r hr).standsAt⟩
    rw [line_eq, String.toList_append]
    exact List.prefix_append _ _
  · constructor
    · intro hall
      refine List.eq_nil_iff_forall_not_mem.mpr fun r hr => ?_
      have hsame := hall r hr
      rw [(h r hr).length_line, length_titles] at hsame
      exact absurd hsame (by decide)
    · rintro rfl
      simp

end Summary

/-- A row like those of any sweep. -/
def Sample.tableRow : Row :=
  { target := { name := "redis", host := "127.0.0.1", port := 6379 }
    operation := .set, keyMode := .sequential, clients := 16, valueSize := 256
    duration := .ofSecs 30, totalOps := 300000, errors := 2, opsPerSec := .ofNat 10000
    opsPerSecPerClient := .ofNat 625, p50 := .ofFraction 171 2, p95 := .ofFraction 481 4
    p99 := .ofNat 310 }

theorem Sample.tableRow_fits : Summary.Fits Sample.tableRow := by
  constructor <;> decide +kernel

namespace Summary

theorem rows_end_early_sample :
    (∀ r ∈ [Sample.tableRow], Fits r) ∧ (line Sample.tableRow).length = 71 ∧
      StandsAt titles 40 15 "ops/sec" ∧ StandsAt (line Sample.tableRow) 38 15 "10000.00" := by
  have hfits : ∀ r ∈ [Sample.tableRow], Fits r := by simpa using Sample.tableRow_fits
  obtain ⟨-, -, -, -, -, hrows, -⟩ := rows_end_early [Sample.tableRow] hfits
  obtain ⟨hlength, -, hstands⟩ := hrows _ List.mem_cons_self
  have hnumber : (numberTexts Sample.tableRow)[2]? = some "10000.00" := by decide +kernel
  obtain ⟨htitle, hrow⟩ := hstands 2 14 "ops/sec" "10000.00" rfl rfl hnumber
  exact ⟨hfits, hlength, htitle, hrow⟩

/-- The row is shorter than the titles, and its first number ends before its title, with something
else where the title ends. -/
theorem row_not_aligned :
    Fits Sample.tableRow ∧
    titles
      = "op     clients      value        ops/sec     p50 us     p95 us     p99 us" ∧
    line Sample.tableRow
      = "set       16        256       10000.00     85.500    120.250    310.000" ∧
    (line Sample.tableRow).length ≠ titles.length ∧
    StandsAt titles 14 9 "clients" ∧ ¬ StandsAt (line Sample.tableRow) 14 9 "16" := by
  refine ⟨Sample.tableRow_fits, by decide +kernel, by decide +kernel, by decide +kernel,
    by decide +kernel, by decide +kernel⟩

end Summary

end LoadSweep
