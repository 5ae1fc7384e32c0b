import Mathlib.Logic.Function.Basic
import LoadSweep.File.Desk
import LoadSweep.Proofs.Results

/-!
# `LoadSweep/Proofs/Desk.lean` — no row is lost between a desk and its files

Sinks are made, given rows and closed, one after the other, at any paths (`Desk.Act`). What should
come of it is kept in a `Ledger`: for each file the rows that it was given since it was last made,
those up to the last flush apart from those after it. The ledger knows no buffer and no text.

The invariant is `Desk.Keeps`. Each file of the ledger begins with the records of its settled rows
and goes no further than those of all its rows (`Sheet.Allows`), and where no row is loose the two
are one. For the file of the open sink this is `Sink.Fills`; files left behind are whole. Besides
the acts there is one more step, `Desk.Passes`: a buffer may pass on what it holds whenever it
likes, so nothing here depends on when it is full.

That a path leads to the same file all the time is `FileTree.SameWays`: acts make files and rewrite
them, but no directory comes or goes.
-/

set_option autoImplicit false

namespace LoadSweep

/-! ## Ways through a tree -/

namespace FileTree

variable {t t' t'' : FileTree} {place : Place} {path text : String}

/-- The trees have the same directories and the same device at every place. Files may differ. -/
structure SameWays (t t' : FileTree) : Prop where
  here : t'.here = t.here
  directory : ∀ p, t'.node? p = some .directory ↔ t.node? p = some .directory
  full : ∀ p, t'.node? p = some .full ↔ t.node? p = some .full

namespace SameWays

theorem refl (t : FileTree) : t.SameWays t := ⟨rfl, fun _ => Iff.rfl, fun _ => Iff.rfl⟩

theorem symm (h : t.SameWays t') : t'.SameWays t :=
  ⟨h.here.symm, fun p => (h.directory p).symm, fun p => (h.full p).symm⟩

theorem trans (h : t.SameWays t') (h' : t'.SameWays t'') : t.SameWays t'' :=
  ⟨h'.here.trans h.here, fun p => (h'.directory p).trans (h.directory p),
    fun p => (h'.full p).trans (h.full p)⟩

end SameWays

/-- Where a file was made or rewritten, all ways are as they were. -/
theorem Rewritten.sameWays (h : t.Rewritten place t')
    (hold : t.node? place = none ∨ ∃ old, t.node? place = some (.file old))
    (hnew : t'.node? place = some (.file text)) : t.SameWays t' where
  here := h.here
  directory := by
    intro p
    by_cases hp : p = place
    · obtain hold | ⟨old, hold⟩ := hold <;> simp [hp, hold, hnew]
    · rw [h.elsewhere p hp]
  full := by
    intro p
    by_cases hp : p = place
    · obtain hold | ⟨old, hold⟩ := hold <;> simp [hp, hold, hnew]
    · rw [h.elsewhere p hp]

theorem WritableAt.of_sameWays (h : t.WritableAt path place) (hw : t.SameWays t') :
    t'.WritableAt path place where
  locate := locate_mono hw.here (fun q hq => (hw.directory q).mpr hq) h.locate
  file := h.file
  node := by
    have hfull : t.node? place ≠ some .full := by
      obtain hnone | ⟨text, hfile⟩ := h.node <;> simp [*]
    cases hnode : t'.node? place with
    | none => exact .inl rfl
    | some node =>
      cases node with
      | directory => exact absurd ((hw.directory place).mp hnode) h.ne_directory
      | full => exact absurd ((hw.full place).mp hnode) hfull
      | file text => exact .inr ⟨text, rfl⟩

/-- What stands in a file is read at every path that leads to it. -/
theorem WritableAt.read?_of_sameWays (h : t.WritableAt path place) (hw : t.SameWays t')
    (hfile : t'.node? place = some (.file text)) : t'.read? path = some text :=
  (h.of_sameWays hw).read? (.refl place t') hfile

end FileTree

/-! ## What files were given -/

/-- The rows given to a file since it was last made. -/
structure Sheet where
  /-- Those that were given when it was last flushed. -/
  settled : List Row
  /-- Those given after that. -/
  loose : List Row

namespace Sheet

variable {s : Sheet} {text : String}

def empty : Sheet := { settled := [], loose := [] }

def rows (s : Sheet) : List Row := s.settled ++ s.loose

def add (s : Sheet) (row : Row) : Sheet := { s with loose := s.loose ++ [row] }

def settle (s : Sheet) (rows : List Row) : Sheet := { settled := s.rows ++ rows, loose := [] }

theorem rows_add (s : Sheet) (row : Row) : (s.add row).rows = s.rows ++ [row] :=
  (List.append_assoc ..).symm

theorem rows_settle (s : Sheet) (rows : List Row) : (s.settle rows).rows = s.rows ++ rows :=
  List.append_nil _

theorem settled_eq (hloose : s.loose = []) : s.settled = s.rows := by
  rw [rows, hloose, List.append_nil]

/-- What may stand in the file: the records of the settled rows at least, and those of all rows at
most. -/
structure Allows (s : Sheet) (text : String) : Prop where
  settled : (Csv.results s.settled).toList <+: text.toList
  rows : text.toList <+: (Csv.results s.rows).toList

theorem allows_whole (hloose : s.loose = []) : s.Allows (Csv.results s.rows) where
  settled := by simp [settled_eq hloose]
  rows := List.prefix_rfl

/-- A file in which no row is loose is whole. -/
theorem Allows.whole (h : s.Allows text) (hloose : s.loose = []) : text = Csv.results s.rows := by
  have hbegins := h.settled
  rw [settled_eq hloose] at hbegins
  exact String.ext (h.rows.eq_of_length_le hbegins.length_le)

end Sheet

/-- What can be done at a desk. -/
inductive Desk.Act where
  | create (path : String)
  | row (row : Row)
  | rows (rows : List Row)
  | close

/-- The file that rows go to now, and what each file was given. -/
structure Ledger where
  current : Option Place
  sheet : Place → Option Sheet

namespace Ledger

variable {l : Ledger} {files : FileTree} {acts : List Desk.Act} {act : Desk.Act}
  {place p : Place} {path : String} {s : Sheet}

def empty : Ledger := { current := none, sheet := fun _ => none }

/-- Rows go to this file now, and this is its sheet. -/
def put (l : Ledger) (place : Place) (s : Sheet) : Ledger :=
  { current := some place, sheet := Function.update l.sheet place (some s) }

/-- Changes the sheet of the file that rows go to, if there is one. -/
def onCurrent (l : Ledger) (change : Sheet → Sheet) : Ledger :=
  match l.current with
  | none => l
  | some place => { l with sheet := Function.update l.sheet place ((l.sheet place).map change) }

def close (l : Ledger) : Ledger := { l.onCurrent (·.settle []) with current := none }

/-- What an act adds. A path leads where it led in the files that were there at the beginning, and
the empty path leads nowhere. -/
def after (files : FileTree) (l : Ledger) : Desk.Act → Ledger
  | .create path =>
    match files.locate path with
    | .ok place => l.close.put place .empty
    | .error _ => l.close
  | .row row => l.onCurrent (·.add row)
  | .rows rows => l.onCurrent (·.settle rows)
  | .close => l.close

/-- The ledger of some acts. -/
def of (files : FileTree) (acts : List Desk.Act) : Ledger := acts.foldl (after files) empty

/-- Whether an act is possible: a file can be made at the path, or there is one for the rows. -/
def Permits (files : FileTree) (l : Ledger) : Desk.Act → Prop
  | .create path => path = "" ∨ ∃ place, files.WritableAt path place
  | .row _ | .rows _ => l.current.isSome
  | .close => True

theorem of_concat (files : FileTree) (acts : List Desk.Act) (act : Desk.Act) :
    of files (acts ++ [act]) = (of files acts).after files act := by
  simp [of]

theorem put_sheet (l : Ledger) (place : Place) (s : Sheet) : (l.put place s).sheet place = some s :=
  Function.update_self ..

theorem put_sheet_of_ne (l : Ledger) (s : Sheet) (hp : p ≠ place) :
    (l.put place s).sheet p = l.sheet p := Function.update_of_ne hp ..

theorem put_self (hcurrent : l.current = some place) (hs : l.sheet place = some s) :
    l.put place s = l := by
  rw [put, ← hs, Function.update_eq_self, ← hcurrent]

theorem onCurrent_of_some (change : Sheet → Sheet) (hcurrent : l.current = some place)
    (hs : l.sheet place = some s) : l.onCurrent change = l.put place (change s) := by
  simp [onCurrent, hcurrent, hs, put]

theorem onCurrent_of_none (change : Sheet → Sheet) (hcurrent : l.current = none) :
    l.onCurrent change = l := by
  rw [onCurrent, hcurrent]

theorem onCurrent_current (l : Ledger) (change : Sheet → Sheet) :
    (l.onCurrent change).current = l.current := by
  unfold onCurrent
  split <;> rfl

theorem close_of_none (hcurrent : l.current = none) : l.close = l := by
  rw [close, onCurrent_of_none _ hcurrent, ← hcurrent]

theorem after_create (hlocate : files.locate path = .ok place) :
    l.after files (.create path) = l.close.put place .empty := by
  simp only [after, hlocate]

theorem after_create_empty (l : Ledger) (files : FileTree) :
    l.after files (.create "") = l.close := by
  have hlocate : files.locate "" = .error .notFound := by simp [FileTree.locate, FileTree.maxPath]
  simp only [after, hlocate]

/-- No sheet is ever thrown away. -/
theorem onCurrent_isSome (change : Sheet → Sheet) (h : (l.sheet p).isSome) :
    ((l.onCurrent change).sheet p).isSome := by
  cases hcurrent : l.current with
  | none => rwa [onCurrent_of_none _ hcurrent]
  | some place =>
    by_cases hp : p = place
    · obtain ⟨s, hs⟩ := Option.isSome_iff_exists.mp h
      rw [onCurrent_of_some change hcurrent (hp ▸ hs), hp, put_sheet]
      rfl
    · simpa [onCurrent, hcurrent, Function.update_of_ne hp] using h

theorem put_isSome (s : Sheet) (h : (l.sheet p).isSome) : ((l.put place s).sheet p).isSome := by
  by_cases hp : p = place
  · rw [hp, put_sheet]
    rfl
  · rwa [put_sheet_of_ne _ _ hp]

theorem after_isSome (files : FileTree) (act : Desk.Act) (h : (l.sheet p).isSome) :
    ((l.after files act).sheet p).isSome := by
  cases act with
  | create path =>
    have hclose : (l.close.sheet p).isSome := onCurrent_isSome _ h
    cases hlocate : files.locate path with
    | error => simpa only [after, hlocate] using hclose
    | ok place =>
      rw [after_create hlocate]
      exact put_isSome _ hclose
  | row | rows | close => exact onCurrent_isSome _ h

/-- Rows are loose in the open file only, and only after `row`. -/
theorem after_loose (hrow : ∀ row, act ≠ .row row)
    (hcurrent : (l.after files act).current = some place)
    (hs : (l.after files act).sheet place = some s) : s.loose = [] := by
  cases act with
  | create path =>
    cases hlocate : files.locate path with
    | error =>
      simp only [after, hlocate] at hcurrent
      simp [close] at hcurrent
    | ok made =>
      rw [after_create hlocate] at hcurrent hs
      obtain rfl := Option.some.inj hcurrent
      rw [put_sheet] at hs
      rw [← Option.some.inj hs, Sheet.empty]
  | row row => exact absurd rfl (hrow row)
  | rows rows =>
    rw [after, onCurrent_current] at hcurrent
    cases hold : l.sheet place with
    | none => simp [after, onCurrent, hcurrent, hold] at hs
    | some old =>
      rw [after, onCurrent_of_some _ hcurrent hold, put_sheet] at hs
      rw [← Option.some.inj hs, Sheet.settle]
  | close => simp [after, close] at hcurrent

end Ledger

/-! ## What a sink has passed on -/

namespace Sink

variable {s s' : Sink} {t t' : FileTree} {text old : String} {sheet sheet' : Sheet}

theorem beginning_append (a b : String) : a.toList <+: (a ++ b).toList := by
  rw [String.toList_append]
  exact List.prefix_append ..

theorem Holds.beginning {done : String} (h : s.Holds t text)
    (hnode : t.node? s.place = some (.file done)) : done.toList <+: text.toList := by
  obtain ⟨-, done', hnode', -, rfl⟩ := h
  obtain rfl : done' = done := by simpa [hnode'] using hnode
  exact beginning_append ..

/-- At least this text is in the file. -/
def Reached (s : Sink) (t : FileTree) (old : String) : Prop :=
  ∃ done, t.node? s.place = some (.file done) ∧ old.toList <+: done.toList

/-- What is in the file stays there while text is added. -/
theorem Reached.add {new : String} (hr : s.Reached t old) (h : s.Holds t text)
    (hadd : s.add t new = .ok (s', t')) : s'.Reached t' old := by
  unfold Sink.add at hadd
  split at hadd
  · obtain ⟨rfl, rfl⟩ := Prod.mk.inj (Except.ok.inj hadd)
    exact hr
  · -- Everything before the new text is in the file then.
    obtain ⟨flushed, files, hflush, hwrote, hpending⟩ := h.flush
    rw [hflush] at hadd
    obtain ⟨rfl, rfl⟩ := Prod.mk.inj (Except.ok.inj hadd)
    obtain ⟨done, hnode, hold⟩ := hr
    exact ⟨text, hwrote.holds.file hpending, hold.trans (h.beginning hnode)⟩

/-- The sink was given the rows of its sheet, and the settled ones have reached its file. -/
structure Fills (s : Sink) (t : FileTree) (sheet : Sheet) : Prop where
  holds : s.Holds t (Csv.results sheet.rows)
  reached : s.Reached t (Csv.results sheet.settled)

/-- One operation of a sink: the file is still its own, and this is its sheet now. -/
structure Filled (s : Sink) (t : FileTree) (sheet' : Sheet) (s' : Sink) (t' : FileTree) :
    Prop where
  place : s'.place = s.place
  rewritten : t.Rewritten s.place t'
  fills : s'.Fills t' sheet'

theorem Holds.fills (h : s.Holds t (Csv.results sheet.rows)) (hpending : s.pending = "")
    (hloose : sheet.loose = []) : s.Fills t sheet where
  holds := h
  reached := ⟨_, h.file hpending, (Sheet.allows_whole hloose).settled⟩

namespace Fills

theorem allows (h : s.Fills t sheet) :
    ∃ text, t.node? s.place = some (.file text) ∧ sheet.Allows text := by
  obtain ⟨text, hnode, hold⟩ := h.reached
  exact ⟨text, hnode, hold, h.holds.beginning hnode⟩

/-- Passing on a beginning of what is pending changes nothing that matters. -/
theorem early {front back : String} (h : s.Fills t sheet) (hpending : s.pending = front ++ back)
    (hwrite : t.write s.place s.offset front = .ok t') :
    s.Filled t sheet { s with offset := s.offset + front.utf8ByteSize, pending := back } t' := by
  obtain ⟨⟨hroot, done, hnode, hoffset, hdone⟩, done', hnode', hold⟩ := h
  obtain rfl : done' = done := by simpa [hnode'] using hnode
  obtain ⟨files, hfiles, hrewritten, hnew⟩ := FileTree.write_end hroot hnode front
  rw [hoffset, hfiles] at hwrite
  obtain rfl := Except.ok.inj hwrite
  refine ⟨rfl, hrewritten, ⟨hroot, _, hnew, ?_, ?_⟩, _, hnew, hold.trans (beginning_append ..)⟩
  · rw [String.utf8ByteSize_append, hoffset]
  · rw [String.append_assoc, ← hpending, hdone]

end Fills

/-- What an operation does to the sheet of a sink. It never fails. -/
def Changes (f : Sink → FileTree → Except SinkFault (Sink × FileTree)) (change : Sheet → Sheet) :
    Prop :=
  ∀ {s t sheet}, s.Fills t sheet → ∃ s' t', f s t = .ok (s', t') ∧ s.Filled t (change sheet) s' t'

theorem writeRow_changes (row : Row) :
    Changes (fun s t => s.writeRow t row) (·.add row) := by
  intro s t sheet h
  obtain ⟨s', t', hadd, hwrote⟩ := h.holds.add row.record
  refine ⟨s', t', hadd, hwrote.place, hwrote.rewritten, ?_, h.reached.add h.holds hadd⟩
  rw [Sheet.rows_add, Csv.results_append]
  simpa using hwrote.holds

theorem writeRows_changes (rows : List Row) :
    Changes (fun s t => s.writeRows t rows) (·.settle rows) := by
  intro s t sheet h
  obtain ⟨s', t', hwrite, hwrote, hpending⟩ := h.holds.writeRows rows
  rw [← Csv.results_append, ← Sheet.rows_settle] at hwrote
  exact ⟨s', t', hwrite, hwrote.place, hwrote.rewritten, hwrote.holds.fills hpending rfl⟩

end Sink

/-! ## Runs of a desk -/

namespace Desk

variable {files t t' : FileTree} {acts : List Act} {act : Act} {d d' : Desk} {l : Ledger}
  {s s' : Sink} {place : Place} {path : String} {sheet sheet' : Sheet}
  {f : Sink → FileTree → Except SinkFault (Sink × FileTree)} {change : Sheet → Sheet}

/-- An act without a failure of the files, and the desk after it. The empty path is refused: nothing
is made there. -/
def Does (d : Desk) : Act → Desk → Prop
  | .create path, d' => d.create path = (d', if path = "" then .error .emptyPath else .ok ())
  | .row row, d' => d.writeRow row = (d', some (.ok ()))
  | .rows rows, d' => d.writeRows rows = (d', some (.ok ()))
  | .close, d' => d.close = d'

/-- The open sink passes on a beginning of what is pending before it has to. -/
inductive Passes : Desk → Desk → Prop where
  | early (s : Sink) (t t' : FileTree) (front back : String)
      (pending : s.pending = front ++ back) (write : t.write s.place s.offset front = .ok t') :
      Passes ⟨t, some s⟩
        ⟨t', some { s with offset := s.offset + front.utf8ByteSize, pending := back }⟩

/-- The desks that some acts lead to, with no sink at the beginning. -/
inductive Runs (files : FileTree) : List Act → Desk → Prop where
  | start : Runs files [] (.ofFiles files)
  | act {acts : List Act} {act : Act} {d d' : Desk} (before : Runs files acts d)
      (does : d.Does act d') : Runs files (acts ++ [act]) d'
  | pass {acts : List Act} {d d' : Desk} (before : Runs files acts d) (passes : d.Passes d') :
      Runs files acts d'

theorem onSink_eq (hf : f s t = .ok (s', t')) :
    onSink ⟨t, some s⟩ f = (⟨t', some s'⟩, some (.ok ())) := by
  simp only [onSink, hf]

/-- Making a file where one can be made. -/
theorem does_create (hpath : path ≠ "") :
    d.Does (.create path) d' ↔
      ∃ s t', Sink.create d.close.files path = .ok (s, t') ∧ d' = ⟨t', some s⟩ := by
  rw [Does, create, if_neg hpath]
  cases hcreate : Sink.create d.close.files path with
  | error => simp
  | ok made =>
    obtain ⟨s, t'⟩ := made
    constructor
    · intro hmade
      exact ⟨s, t', rfl, (Prod.mk.inj hmade).1.symm⟩
    · rintro ⟨_, _, ⟨⟩, rfl⟩
      rfl

theorem does_create_empty : d.Does (.create "") d' ↔ d' = d.close := by
  simp [Does, create, Sink.create, eq_comm]

/-! ## The invariant -/

/-- **The invariant**: the files are those of the ledger. -/
structure Keeps (files : FileTree) (d : Desk) (l : Ledger) : Prop where
  ways : files.SameWays d.files
  current : l.current = d.sink.map Sink.place
  inUse : ∀ s, d.sink = some s → ∃ sheet, l.sheet s.place = some sheet ∧ s.Fills d.files sheet
  /-- Files left behind are whole. -/
  leftBehind : ∀ p sheet, l.sheet p = some sheet → l.current ≠ some p →
    sheet.loose = [] ∧ d.files.node? p = some (.file (Csv.results sheet.rows))
  untouched : ∀ p, l.sheet p = none → d.files.node? p = files.node? p

theorem keeps_start (files : FileTree) : Keeps files (.ofFiles files) .empty where
  ways := .refl files
  current := rfl
  inUse := by simp [ofFiles]
  leftBehind := by simp [Ledger.empty]
  untouched := fun _ _ => rfl

namespace Keeps

/-- A sink that has written its file, the only one that was in use. -/
theorem put (h : Keeps files d l) (hcurrent : ∀ p, l.current = some p → p = s.place)
    (hold : d.files.node? s.place = none ∨ ∃ old, d.files.node? s.place = some (.file old))
    (hrewritten : d.files.Rewritten s.place t) (hfills : s.Fills t sheet) :
    Keeps files ⟨t, some s⟩ (l.put s.place sheet) where
  ways := by
    obtain ⟨new, hnew, -⟩ := hfills.reached
    exact h.ways.trans (hrewritten.sameWays hold hnew)
  current := rfl
  inUse := by
    rintro _ ⟨⟩
    exact ⟨sheet, l.put_sheet _ _, hfills⟩
  leftBehind := by
    intro p other hother hp
    have hne : p ≠ s.place := fun heq => hp (congrArg some heq.symm)
    rw [Ledger.put_sheet_of_ne _ _ hne] at hother
    obtain ⟨hloose, hnode⟩ := h.leftBehind p other hother fun heq => hne (hcurrent p heq)
    exact ⟨hloose, (hrewritten.elsewhere p hne).trans hnode⟩
  untouched := by
    intro p hnone
    have hne : p ≠ s.place := by
      rintro rfl
      simp [Ledger.put_sheet] at hnone
    rw [Ledger.put_sheet_of_ne _ _ hne] at hnone
    exact (hrewritten.elsewhere p hne).trans (h.untouched p hnone)

/-- An operation of the open sink. -/
theorem filled (h : Keeps files ⟨t, some s⟩ l) (hfilled : s.Filled t sheet' s' t') :
    Keeps files ⟨t', some s'⟩ (l.put s.place sheet') := by
  obtain ⟨sheet, hsheet, hfills⟩ := h.inUse s rfl
  obtain ⟨old, hold, -⟩ := hfills.reached
  have hcurrent : l.current = some s.place := h.current
  rw [← hfilled.place] at hcurrent hold ⊢
  refine h.put ?_ (.inr ⟨old, hold⟩) (hfilled.place ▸ hfilled.rewritten) hfilled.fills
  intro p hp
  exact Option.some.inj (hp.symm.trans hcurrent)

theorem onSink (h : Keeps files d l) (hf : Sink.Changes f change)
    (hdoes : d.onSink f = (d', some (.ok ()))) : Keeps files d' (l.onCurrent change) := by
  obtain ⟨t, sink⟩ := d
  cases sink with
  | none => simp [Desk.onSink] at hdoes
  | some s =>
    obtain ⟨sheet, hsheet, hfills⟩ := h.inUse s rfl
    obtain ⟨s', t', hok, hfilled⟩ := hf hfills
    rw [onSink_eq hok] at hdoes
    obtain ⟨rfl, -⟩ := Prod.mk.inj hdoes
    rw [Ledger.onCurrent_of_some _ h.current hsheet]
    exact h.filled hfilled

/-- A sink may be put away when no row is loose. -/
theorem leave (h : Keeps files ⟨t, some s⟩ l) (hsheet : l.sheet s.place = some sheet)
    (hloose : sheet.loose = []) : Keeps files (.ofFiles t) { l with current := none } where
  ways := h.ways
  current := rfl
  inUse := by simp [ofFiles]
  leftBehind := by
    intro p other hother _
    by_cases hp : p = s.place
    · obtain ⟨found, hfound, hfills⟩ := h.inUse s rfl
      obtain rfl : found = sheet := by simpa [hsheet] using hfound.symm
      obtain rfl : other = found := by simpa [hp, hsheet] using hother.symm
      obtain ⟨text, hnode, hallows⟩ := hfills.allows
      exact ⟨hloose, by rw [hp, ← hallows.whole hloose]; exact hnode⟩
    · exact h.leftBehind p other hother fun heq => hp (Option.some.inj (heq.symm.trans h.current))
  untouched := h.untouched

/-- Closing leaves the file behind, whole. -/
theorem close (h : Keeps files d l) : Keeps files d.close l.close := by
  obtain ⟨t, sink⟩ := d
  cases sink with
  | none =>
    rw [Ledger.close_of_none h.current]
    exact h
  | some s =>
    obtain ⟨sheet, hsheet, hfills⟩ := h.inUse s rfl
    -- A sink is closed by a flush, and that is what giving it no rows comes to.
    obtain ⟨s', t', hwrite, hfilled⟩ := Sink.writeRows_changes [] hfills
    have hflush : s.flush t = .ok (s', t') := hwrite
    have hclose : Desk.close ⟨t, some s⟩ = .ofFiles t' := by simp [Desk.close, Sink.close, hflush]
    rw [hclose, Ledger.close, Ledger.onCurrent_of_some _ h.current hsheet]
    exact (h.filled hfilled).leave (by rw [hfilled.place, Ledger.put_sheet]) rfl

theorem create (h : Keeps files d l) (hdoes : d.Does (.create path) d') :
    Keeps files d' (l.after files (.create path)) := by
  by_cases hpath : path = ""
  · subst hpath
    rw [does_create_empty.mp hdoes, Ledger.after_create_empty]
    exact h.close
  · obtain ⟨s, t, hcreate, rfl⟩ := (does_create hpath).mp hdoes
    -- The path was walked now, but it leads where the ledger found it in the first files.
    have hwritable := Sink.writable_of_create hcreate
    have hlocate := (hwritable.of_sameWays h.close.ways.symm).locate
    obtain ⟨s', t', hcreate', hplace, hpending, hrewritten, hholds⟩ :=
      Sink.create_of_writable hwritable
    obtain ⟨rfl, rfl⟩ := Prod.mk.inj (Except.ok.inj (hcreate.symm.trans hcreate'))
    have hempty : s.Holds t (Csv.results Sheet.empty.rows) := by
      simpa [Sheet.empty, Sheet.rows, Csv.results] using hholds
    rw [Ledger.after_create hlocate]
    exact h.close.put (by simp [Ledger.close]) hwritable.node hrewritten
      (hempty.fills hpending rfl)

/-- **Every act keeps the files in step with the ledger.** -/
theorem does (h : Keeps files d l) (hdoes : d.Does act d') :
    Keeps files d' (l.after files act) := by
  cases act with
  | create path => exact h.create hdoes
  | row row => exact h.onSink (Sink.writeRow_changes row) hdoes
  | rows rows => exact h.onSink (Sink.writeRows_changes rows) hdoes
  | close =>
    obtain rfl : d.close = d' := hdoes
    exact h.close

theorem passes (h : Keeps files d l) (hpasses : d.Passes d') : Keeps files d' l := by
  cases hpasses with
  | early s t t' front back pending write =>
    obtain ⟨sheet, hsheet, hfills⟩ := h.inUse s rfl
    rw [← Ledger.put_self h.current hsheet]
    exact h.filled (hfills.early pending write)

theorem onSink_iff (h : Keeps files d l) (hf : Sink.Changes f change) :
    (∃ d', d.onSink f = (d', some (.ok ()))) ↔ l.current.isSome := by
  obtain ⟨t, sink⟩ := d
  rw [h.current]
  cases sink with
  | none => simp [Desk.onSink]
  | some s =>
    obtain ⟨sheet, -, hfills⟩ := h.inUse s rfl
    obtain ⟨s', t', hok, -⟩ := hf hfills
    simp [onSink_eq hok]

/-- What is possible is what the ledger permits. -/
theorem does_iff (h : Keeps files d l) (act : Act) :
    (∃ d', d.Does act d') ↔ l.Permits files act := by
  cases act with
  | create path =>
    by_cases hpath : path = ""
    · subst hpath
      simp [does_create_empty, Ledger.Permits]
    · rw [Ledger.Permits, or_iff_right hpath]
      constructor
      · rintro ⟨d', hdoes⟩
        obtain ⟨s, t, hcreate, -⟩ := (does_create hpath).mp hdoes
        exact ⟨s.place, (Sink.writable_of_create hcreate).of_sameWays h.close.ways.symm⟩
      · rintro ⟨place, hwritable⟩
        obtain ⟨s, t, hcreate, -⟩ :=
          Sink.create_of_writable (hwritable.of_sameWays h.close.ways)
        exact ⟨_, (does_create hpath).mpr ⟨s, t, hcreate, rfl⟩⟩
  | row row => exact h.onSink_iff (Sink.writeRow_changes row)
  | rows rows => exact h.onSink_iff (Sink.writeRows_changes rows)
  | close => simp [Does, Ledger.Permits]

/-- Every file that has a sheet, in use or left behind. -/
theorem allows (h : Keeps files d l) (hsheet : l.sheet place = some sheet) :
    ∃ text, d.files.node? place = some (.file text) ∧ sheet.Allows text ∧
      (l.current ≠ some place → sheet.loose = []) := by
  by_cases hcurrent : l.current = some place
  · have hsink := h.current
    rw [hcurrent] at hsink
    obtain ⟨s, hs, rfl⟩ := Option.map_eq_some_iff.mp hsink.symm
    obtain ⟨found, hfound, hfills⟩ := h.inUse s hs
    obtain rfl : found = sheet := by simpa [hsheet] using hfound.symm
    obtain ⟨text, hnode, hallows⟩ := hfills.allows
    exact ⟨text, hnode, hallows, fun hne => absurd hcurrent hne⟩
  · obtain ⟨hloose, hnode⟩ := h.leftBehind place sheet hsheet hcurrent
    exact ⟨_, hnode, Sheet.allows_whole hloose, fun _ => hloose⟩

end Keeps

namespace Runs

theorem keeps (h : Runs files acts d) : Keeps files d (.of files acts) := by
  induction h with
  | start => exact keeps_start files
  | act _ does ih =>
    rw [Ledger.of_concat]
    exact ih.does does
  | pass _ passes ih => exact ih.passes passes

/-- A file that was made has a sheet, and its path led to it from the beginning. -/
theorem made (h : Runs files acts d) (hmade : .create path ∈ acts) (hpath : path ≠ "") :
    ∃ place, files.WritableAt path place ∧ ((Ledger.of files acts).sheet place).isSome := by
  induction h with
  | start => simp at hmade
  | @act acts act d d' before does ih =>
    rw [Ledger.of_concat]
    obtain hbefore | hlast := List.mem_append.mp hmade
    · obtain ⟨place, hwritable, hsome⟩ := ih hbefore
      exact ⟨place, hwritable, Ledger.after_isSome _ _ hsome⟩
    · obtain rfl := List.mem_singleton.mp hlast
      obtain ⟨place, hwritable⟩ :=
        ((before.keeps.does_iff _).mp ⟨d', does⟩).resolve_left hpath
      refine ⟨place, hwritable, ?_⟩
      rw [Ledger.after_create hwritable.locate, Ledger.put_sheet]
      rfl
  | pass _ _ ih => exact ih hmade

/-- Rows are loose after `row` only. -/
theorem loose (h : Runs files acts d) (hlast : ∀ row, acts.getLast? ≠ some (.row row))
    (hcurrent : (Ledger.of files acts).current = some place)
    (hsheet : (Ledger.of files acts).sheet place = some sheet) : sheet.loose = [] := by
  induction h with
  | start => simp [Ledger.of, Ledger.empty] at hcurrent
  | act before does ih =>
    rw [Ledger.of_concat] at hcurrent hsheet
    refine Ledger.after_loose (fun row hrow => hlast row ?_) hcurrent hsheet
    rw [List.getLast?_concat, hrow]
  | pass _ _ ih => exact ih hlast hcurrent hsheet

end Runs

theorem does_rows_cons (d d' : Desk) (row : Row) (rest : List Row) :
    d.Does (.rows (row :: rest)) d' ↔ ∃ d'', d.Does (.row row) d'' ∧ d''.Does (.rows rest) d' := by
  obtain ⟨t, sink⟩ := d
  cases sink with
  | none => simp [Does, writeRow, writeRows, onSink]
  | some s =>
    cases hrow : s.writeRow t row with
    | error => simp [Does, writeRow, writeRows, onSink, Sink.writeRows, hrow]
    | ok made =>
      cases hrest : made.1.writeRows made.2 rest <;>
        simp [Does, writeRow, writeRows, onSink, Sink.writeRows, hrow, hrest]

/-- **No row is lost, doubled or moved between a desk and its files.** Whatever was done, and
however much the open sink has passed on, the file of every path that was made begins with the
records of the rows that were given when it was last flushed, and goes no further than those of all
rows given since it was last made, in the order in which they were given. Unless a single row was
given last, it is exactly the file of all these rows. No other file changes, whatever the ledger
permits can be done, and to give rows together is to give the first and then the others. -/
theorem loses_no_row (h : Runs files acts d) :
    (∀ path, .create path ∈ acts → path ≠ "" → ∃ place sheet text,
      files.WritableAt path place ∧ (Ledger.of files acts).sheet place = some sheet ∧
      d.files.read? path = some text ∧ sheet.Allows text ∧
      ((∀ row, acts.getLast? ≠ some (.row row)) → text = Csv.results sheet.rows)) ∧
    (∀ place, (Ledger.of files acts).sheet place = none →
      d.files.node? place = files.node? place) ∧
    (∀ act, (∃ d', d.Does act d') ↔ (Ledger.of files acts).Permits files act) ∧
    ∀ row rest d', d.Does (.rows (row :: rest)) d' ↔
      ∃ d'', d.Does (.row row) d'' ∧ d''.Does (.rows rest) d' := by
  refine ⟨fun path hmade hpath => ?_, h.keeps.untouched, h.keeps.does_iff,
    fun row rest d' => does_rows_cons d d' row rest⟩
  obtain ⟨place, hwritable, hsome⟩ := h.made hmade hpath
  obtain ⟨sheet, hsheet⟩ := Option.isSome_iff_exists.mp hsome
  obtain ⟨text, hnode, hallows, hother⟩ := h.keeps.allows hsheet
  refine ⟨place, sheet, text, hwritable, hsheet,
    hwritable.read?_of_sameWays h.keeps.ways hnode, hallows, fun hlast => hallows.whole ?_⟩
  by_cases hcurrent : (Ledger.of files acts).current = some place
  · exact h.loose hlast hcurrent hsheet
  · exact hother hcurrent

/-- A file made twice, the second time with a row still pending from the first. -/
theorem loses_no_row_sample :
    ∃ d, Runs FileTree.empty [.create "r", .row Sample.oddRow, .create "r", .row Sample.oddRow,
        .rows [Sample.oddRow, Sample.oddRow]] d ∧
      d.files.read? "r" = some (Csv.header
          ++ "\"a,\"\"b\"\"\n\r\",,6379,set,decimal,1,0,0,0,NaN,-inf,7,-0.000,inf,0.000\n"
          ++ "\"a,\"\"b\"\"\n\r\",,6379,set,decimal,1,0,0,0,NaN,-inf,7,-0.000,inf,0.000\n"
          ++ "\"a,\"\"b\"\"\n\r\",,6379,set,decimal,1,0,0,0,NaN,-inf,7,-0.000,inf,0.000\n") := by
  have hlocate := Sample.writable.locate
  have hnext : ∀ {acts : List Act} {d : Desk} (act : Act), Runs FileTree.empty acts d →
      (Ledger.of FileTree.empty acts).Permits FileTree.empty act →
      ∃ d', Runs FileTree.empty (acts ++ [act]) d' := by
    intro acts d act h hpermits
    obtain ⟨d', hdoes⟩ := ((loses_no_row h).2.2.1 act).mpr hpermits
    exact ⟨d', h.act hdoes⟩
  have hopen : ∀ acts, (Ledger.of FileTree.empty (acts ++ [.create "r"])).current.isSome := by
    intro acts
    rw [Ledger.of_concat, Ledger.after_create hlocate]
    rfl
  obtain ⟨_, h⟩ := hnext (.create "r") .start (.inr ⟨_, Sample.writable⟩)
  obtain ⟨_, h⟩ := hnext (.row Sample.oddRow) h (hopen _)
  obtain ⟨_, h⟩ := hnext (.create "r") h (.inr ⟨_, Sample.writable⟩)
  obtain ⟨_, h⟩ := hnext (.row Sample.oddRow) h (hopen _)
  have hstill := hopen [.create "r", .row Sample.oddRow]
  rw [← Ledger.onCurrent_current _ (·.add Sample.oddRow)] at hstill
  obtain ⟨d, h⟩ := hnext (.rows [Sample.oddRow, Sample.oddRow]) h hstill
  obtain ⟨place, sheet, text, hwritable, hsheet, hread, -, hwhole⟩ :=
    (loses_no_row h).1 "r" (by simp) (by decide)
  obtain rfl : place = ["work", "r"] := Except.ok.inj (hwritable.locate.symm.trans hlocate)
  have hrows : sheet.rows = [Sample.oddRow, Sample.oddRow, Sample.oddRow] := by
    simp only [Ledger.of, List.nil_append, List.cons_append, List.foldl_cons, List.foldl_nil,
      Ledger.after, hlocate, Ledger.put, Ledger.onCurrent, Function.update_self, Option.map_some,
      Function.update_idem, Option.some.injEq] at hsheet
    simp [← hsheet, Sheet.empty, Sheet.add, Sheet.settle, Sheet.rows]
  refine ⟨d, h, hread.trans ?_⟩
  rw [hwhole (by simp), hrows]
  exact congrArg some (by decide +kernel)

end Desk

end LoadSweep
