import LoadSweep.Proofs.Csv
import LoadSweep.Proofs.Sample
import LoadSweep.Proofs.Sink

/-!
# `LoadSweep/Proofs/Results.lean` — the file of results and what it stands for

The file that a sink leaves is the header and one record per row (`Csv.results`), and reading it
gives the columns and the fields of the rows. So the file determines the fields, whatever the names
in them are: the fields determine it, too, and nothing else does.
-/

set_option autoImplicit false

namespace LoadSweep

/-- The file of results with these rows. -/
def Csv.results (rows : List Row) : String := Csv.header ++ String.join (rows.map Row.record)

theorem Csv.results_eq (rows : List Row) :
    Csv.results rows = String.join ((Csv.columns :: rows.map Row.fields).map Csv.record) := by
  rw [List.map_cons, String.join_cons, List.map_map]
  rfl

theorem Csv.results_append (rows more : List Row) :
    Csv.results (rows ++ more) = Csv.results rows ++ String.join (more.map Row.record) := by
  rw [Csv.results, Csv.results, List.map_append, String.join_append, String.append_assoc]

theorem Csv.read?_results (rows : List Row) :
    Csv.read? (Csv.results rows) = some (Csv.columns :: rows.map Row.fields) := by
  rw [Csv.results_eq]
  refine Csv.read?_join ?_
  simp [Csv.columns, Row.fields]

theorem Csv.results_inj {rows rows' : List Row} :
    Csv.results rows = Csv.results rows' ↔ rows.map Row.fields = rows'.map Row.fields := by
  refine ⟨fun h => ?_, fun h => by rw [Csv.results_eq, Csv.results_eq, h]⟩
  have hread := congrArg Csv.read? h
  rw [Csv.read?_results, Csv.read?_results] at hread
  exact (List.cons.inj (Option.some.inj hread)).2

/-- **A sink that is made and given rows leaves the file of results with them.** -/
theorem Sink.leaves_rows {files : FileTree} {path : String} {place : Place}
    (h : files.WritableAt path place) (rows : List Row) :
    ∃ (sink : Sink) (made : FileTree) (last : Sink) (written : FileTree),
      Sink.create files path = .ok (sink, made) ∧ sink.writeRows made rows = .ok (last, written) ∧
      written.read? path = some (Csv.results rows) := by
  obtain ⟨sink, made, hcreate, rfl, -, hmade, hholds⟩ := Sink.create_of_writable h
  obtain ⟨last, written, hwrite, hwrote, hpending⟩ := hholds.writeRows rows
  refine ⟨sink, made, last, written, hcreate, hwrite, h.read? (hmade.trans hwrote.rewritten) ?_⟩
  rw [← hwrote.place]
  exact hwrote.holds.file hpending

/-- **The file of results reads as what was written.** At any path where a file can be made, and
for any rows, the file holds the columns and then the fields of one row per record; the first two
fields are names as they were given, the other thirteen stand there as they are. -/
theorem Csv.results_read_back :
    (∀ r : Row, Csv.columns.zip r.fields =
      [("server", r.target.name), ("host", r.target.host), ("port", toString r.target.port),
        ("op", r.operation.name), ("key_dist", r.keyMode.label), ("clients", toString r.clients),
        ("value_size", toString r.valueSize), ("seconds", toString r.duration.secs),
        ("ops", toString r.totalOps), ("ops_per_sec", r.opsPerSec.toFixed 2),
        ("ops_per_sec_per_client", r.opsPerSecPerClient.toFixed 2), ("errors", toString r.errors),
        ("p50_us", r.p50.toFixed 3), ("p95_us", r.p95.toFixed 3), ("p99_us", r.p99.toFixed 3)] ∧
      r.fields.length = Csv.columns.length ∧
      ∀ text ∈ r.fields.drop 2, Csv.field text.toList = text.toList) ∧
    (∀ rows : List Row,
      Csv.read? (Csv.results rows) = some (Csv.columns :: rows.map Row.fields)) ∧
    (∀ rows rows' : List Row,
      Csv.results rows = Csv.results rows' ↔ rows.map Row.fields = rows'.map Row.fields) ∧
    ∀ (files : FileTree) (path : String) (place : Place), files.WritableAt path place →
      ∃ (sink : Sink) (made : FileTree), Sink.create files path = .ok (sink, made) ∧
        ∀ rows : List Row, ∃ (last : Sink) (written : FileTree),
          sink.writeRows made rows = .ok (last, written) ∧
          written.read? path = some (Csv.results rows) ∧ files.Rewritten place written := by
  refine ⟨?_, Csv.read?_results, fun _ _ => Csv.results_inj, ?_⟩
  · intro r
    exact ⟨rfl, rfl, fun text htext => Csv.field_of_bare (r.fields_bare text htext)⟩
  · intro files path place h
    obtain ⟨sink, made, hcreate, rfl, -, hmade, hholds⟩ := Sink.create_of_writable h
    refine ⟨sink, made, hcreate, fun rows => ?_⟩
    obtain ⟨last, written, hwrite, hwrote, hpending⟩ := hholds.writeRows rows
    have hrewritten := hmade.trans hwrote.rewritten
    refine ⟨last, written, hwrite, h.read? hrewritten ?_, hrewritten⟩
    rw [← hwrote.place]
    exact hwrote.holds.file hpending

/-- A row with names that must be quoted, and numbers that are none. -/
def Sample.oddRow : Row :=
  { target := { name := "a,\"b\"\n\r", host := "", port := 6379 }
    operation := .set, keyMode := .decimal 5, clients := 1, valueSize := 0, duration := ⟨0⟩
    totalOps := 0, errors := 7, opsPerSec := .nan, opsPerSecPerClient := .infinite true
    p50 := .finite true 0, p95 := .infinite false, p99 := .zero }

/-- The path has one component. -/
theorem Sample.components_r : FileTree.components "r" = ["r"] := by
  have hsplit : "r".splitOn "/" = ["r"] := by
    rw [String.splitOn, if_neg (by decide), String.splitOnAux, if_neg (by decide +kernel),
      if_neg (by decide +kernel), String.splitOnAux, if_pos (by decide +kernel)]
    decide +kernel
  rw [FileTree.components, hsplit]
  rfl

theorem Sample.writable : FileTree.empty.WritableAt "r" ["work", "r"] where
  locate := by
    have hslash : "r".startsWith "/" = false := by decide +kernel
    rw [FileTree.locate, String.contains_char_eq, components_r, FileTree.origin, hslash,
      if_neg (by decide), if_neg (by decide), if_neg (by decide)]
    rfl
  file := by
    have hslash : "r".endsWith "/" = false := by decide +kernel
    simp [FileTree.meansDirectory, components_r, hslash]
  node := .inl (by decide +kernel)

theorem Csv.results_read_back_sample :
    FileTree.empty.WritableAt "r" ["work", "r"] ∧
    ∃ (sink : Sink) (made : FileTree), Sink.create FileTree.empty "r" = .ok (sink, made) ∧
      ∃ (last : Sink) (written : FileTree),
        sink.writeRows made [Sample.oddRow, Sample.oddRow] = .ok (last, written) ∧
        written.read? "r" = some (Csv.header
          ++ "\"a,\"\"b\"\"\n\r\",,6379,set,decimal,1,0,0,0,NaN,-inf,7,-0.000,inf,0.000\n"
          ++ "\"a,\"\"b\"\"\n\r\",,6379,set,decimal,1,0,0,0,NaN,-inf,7,-0.000,inf,0.000\n") ∧
        Csv.read? (Csv.results [Sample.oddRow, Sample.oddRow])
          = some [Csv.columns, Sample.oddRow.fields, Sample.oddRow.fields] := by
  obtain ⟨-, hread, -, hfile⟩ := Csv.results_read_back
  obtain ⟨sink, made, hcreate, hwrite⟩ := hfile _ _ _ Sample.writable
  obtain ⟨last, written, hrows, htext, -⟩ := hwrite [Sample.oddRow, Sample.oddRow]
  refine ⟨Sample.writable, sink, made, hcreate, last, written, hrows, htext.trans ?_, hread _⟩
  exact congrArg some (by decide +kernel)

end LoadSweep
