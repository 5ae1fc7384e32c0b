import LoadSweep.File.Sink

/-!
# `LoadSweep/Proofs/Sink.lean` — a file that is written piece by piece

Of a text that was given to a sink, a beginning has reached the file and the rest is pending
(`Sink.Holds`). Every operation keeps this and adds its own text, so how the text was divided among
the operations, and when too much had gathered, leaves no trace in the file. That needs the sink's
offset to be the size of what has reached the file; a piece is then written at the end, and nothing
is written over.

Nothing else changes (`FileTree.Rewritten`): the walk along a path goes through directories, and a
file that is made or rewritten was none. So the path of the sink still leads to its file, and what
is read there is what was written.
-/

set_option autoImplicit false

namespace LoadSweep

namespace FileTree

variable {t t' t'' : FileTree} {place p : Place} {path text : String}

/-! ## What stands where -/

theorem find?_replaced (nodes : List (Place × Node)) (node : Node) (p : Place) :
    (nodes.map fun q => if q.1 == place then (place, node) else q).find? (·.1 == p)
      = if p = place then (nodes.find? (·.1 == p)).map fun _ => (place, node)
        else nodes.find? (·.1 == p) := by
  induction nodes with
  | nil => simp
  | cons q rest ih =>
    simp only [List.map_cons, List.find?_cons, ih]
    by_cases hq : q.1 = place <;> by_cases hp : p = place
    · simp [hq, hp]
    · simp [hq, hp, beq_eq_false_iff_ne.mpr (Ne.symm hp)]
    · simp [hp, beq_eq_false_iff_ne.mpr hq]
    · simp [hq, hp]

/-- What was put at a place stands there, and all else stands as it did. -/
theorem node?_put (t : FileTree) (hplace : place ≠ []) (node : Node) (p : Place) :
    (t.put place node).node? p = if p = place then some node else t.node? p := by
  by_cases hroot : p = []
  · rw [if_neg (by rw [hroot]; exact Ne.symm hplace)]
    simp [node?, hroot]
  · unfold put
    split
    · rename_i hthere
      simp only [node?, if_neg hroot, find?_replaced]
      split
      · rename_i hp
        obtain ⟨q, hq, heq⟩ := List.any_eq_true.mp hthere
        rw [hp]
        cases hfind : t.nodes.find? (·.1 == place) with
        | none => exact absurd heq (List.find?_eq_none.mp hfind q hq)
        | some => rfl
      · rfl
    · rename_i hnot
      simp only [node?, if_neg hroot, List.find?_append]
      split
      · rename_i hp
        subst hp
        have hnone : t.nodes.find? (·.1 == p) = none := by
          rw [List.find?_eq_none]
          exact fun q hq heq => hnot (List.any_eq_true.mpr ⟨q, hq, heq⟩)
        simp [hnone]
      · rename_i hp
        simp [beq_eq_false_iff_ne.mpr (Ne.symm hp)]

/-- The trees differ in what stands at one place at most. -/
structure Rewritten (place : Place) (t t' : FileTree) : Prop where
  here : t'.here = t.here
  elsewhere : ∀ p, p ≠ place → t'.node? p = t.node? p

theorem Rewritten.refl (place : Place) (t : FileTree) : t.Rewritten place t :=
  ⟨rfl, fun _ _ => rfl⟩

theorem Rewritten.trans (h : t.Rewritten place t') (h' : t'.Rewritten place t'') :
    t.Rewritten place t'' :=
  ⟨h'.here.trans h.here, fun p hp => (h'.elsewhere p hp).trans (h.elsewhere p hp)⟩

theorem put_rewritten (t : FileTree) (hplace : place ≠ []) (node : Node) :
    t.Rewritten place (t.put place node) where
  here := by unfold put; split <;> rfl
  elsewhere := fun p hp => by rw [node?_put t hplace, if_neg hp]

/-- Writing where a file ends makes it longer. -/
theorem write_end (hplace : place ≠ []) (hnode : t.node? place = some (.file text)) (new : String) :
    ∃ t', t.write place text.utf8ByteSize new = .ok t' ∧ t.Rewritten place t' ∧
      t'.node? place = some (.file (text ++ new)) := by
  unfold write
  split
  · rename_i hnew
    refine ⟨t, rfl, .refl _ t, ?_⟩
    rw [hnew, String.append_empty]
    exact hnode
  · refine ⟨t.put place (.file (text ++ new)), ?_, t.put_rewritten hplace _, ?_⟩
    · simp [hnode, overwrite]
    · rw [node?_put t hplace, if_pos rfl]

/-! ## Paths -/

/-- A walk needs the directories that it goes through, and nothing else. -/
theorem walk_mono (h : ∀ p, t.node? p = some .directory → t'.node? p = some .directory)
    {names : List String} {start : Place} (hw : t.walk start names = .ok place) :
    t'.walk start names = .ok place := by
  induction names generalizing start with
  | nil => exact hw
  | cons name rest ih =>
    unfold walk at hw ⊢
    have henter : ∀ next, t.enter start name = .ok next → t'.enter start name = .ok next := by
      intro next hnext
      unfold enter at hnext ⊢
      split at hnext
      · simp at hnext
      · simp at hnext
      · simp at hnext
      · rename_i hdir
        rw [h start hdir]
        exact hnext
    cases hstep : t.enter start name with
    | error => simp [hstep] at hw
    | ok next =>
      rw [hstep] at hw
      rw [henter next hstep]
      exact ih hw

/-- A path leads where it did if no directory is gone. -/
theorem locate_mono (hhere : t'.here = t.here)
    (hdirs : ∀ q, t.node? q = some .directory → t'.node? q = some .directory)
    (hl : t.locate path = .ok p) : t'.locate path = .ok p := by
  have horigin : t'.origin path = t.origin path := by rw [origin, origin, hhere]
  unfold FileTree.locate at hl ⊢
  rw [horigin]
  split at hl
  · simp at hl
  · rename_i hnul
    rw [if_neg hnul]
    split at hl
    · simp at hl
    · rename_i hlong
      rw [if_neg hlong]
      split at hl
      · simp at hl
      · rename_i hempty
        rw [if_neg hempty]
        exact walk_mono hdirs hl

/-- A path leads where it did after something that is no directory was rewritten. -/
theorem Rewritten.locate (h : t.Rewritten place t') (hnot : t.node? place ≠ some .directory)
    (hl : t.locate path = .ok p) : t'.locate path = .ok p := by
  refine locate_mono h.here (fun q hq => ?_) hl
  rw [h.elsewhere q fun heq => hnot (heq ▸ hq)]
  exact hq

/-- A file can be made or emptied at the place that a path leads to. -/
structure WritableAt (t : FileTree) (path : String) (place : Place) : Prop where
  locate : t.locate path = .ok place
  file : meansDirectory path = false
  node : t.node? place = none ∨ ∃ text, t.node? place = some (.file text)

namespace WritableAt

theorem ne_directory (h : t.WritableAt path place) : t.node? place ≠ some .directory := by
  obtain hnone | ⟨text, hfile⟩ := h.node <;> simp [*]

theorem ne_root (h : t.WritableAt path place) : place ≠ [] := by
  intro hroot
  refine h.ne_directory ?_
  rw [hroot]
  rfl

theorem ne_empty (h : t.WritableAt path place) : path ≠ "" := by
  rintro rfl
  have hl := h.locate
  simp [FileTree.locate, maxPath] at hl

theorem openFile (h : t.WritableAt path place) :
    t.openFile path = .ok (t.put place (.file ""), place) := by
  rw [FileTree.openFile, h.locate]
  obtain hnode | ⟨text, hnode⟩ := h.node <;> simp [h.file, hnode]

/-- What is written to the file is read at its path. -/
theorem read? (h : t.WritableAt path place) (hr : t.Rewritten place t')
    (hfile : t'.node? place = some (.file text)) : t'.read? path = some text := by
  have hslash : path.endsWith "/" = false := by
    have hmeans := h.file
    rw [meansDirectory, Bool.or_eq_false_iff] at hmeans
    exact hmeans.1
  rw [FileTree.read?, hr.locate h.ne_directory h.locate]
  simp [hfile, hslash]

end WritableAt

/-- Opening makes or empties a file, unless a device stands there. -/
theorem of_openFile (h : t.openFile path = .ok (t', place)) :
    t.WritableAt path place ∨ t' = t ∧ t.node? place = some .full := by
  unfold FileTree.openFile at h
  split at h
  · simp at h
  · rename_i hlocate
    split at h
    · simp at h
    · rename_i hmeans
      have hfile := Bool.eq_false_iff.mpr hmeans
      split at h
      · simp at h
      · rename_i hnode
        obtain ⟨rfl, rfl⟩ := Prod.mk.inj (Except.ok.inj h)
        exact .inr ⟨rfl, hnode⟩
      · rename_i text hnode
        obtain ⟨-, rfl⟩ := Prod.mk.inj (Except.ok.inj h)
        exact .inl ⟨hlocate, hfile, .inr ⟨text, hnode⟩⟩
      · rename_i hnode
        obtain ⟨-, rfl⟩ := Prod.mk.inj (Except.ok.inj h)
        exact .inl ⟨hlocate, hfile, .inl hnode⟩

end FileTree

/-! ## The sink -/

namespace Sink

variable {s s' : Sink} {t t' : FileTree} {text : String} {place : Place} {path : String}

/-- This text was given to the sink: a beginning has reached the file, and the rest is pending. -/
def Holds (s : Sink) (t : FileTree) (text : String) : Prop :=
  s.place ≠ [] ∧ ∃ done, t.node? s.place = some (.file done) ∧ s.offset = done.utf8ByteSize ∧
    done ++ s.pending = text

theorem Holds.file (h : s.Holds t text) (hpending : s.pending = "") :
    t.node? s.place = some (.file text) := by
  obtain ⟨-, done, hnode, -, rfl⟩ := h
  rw [hpending, String.append_empty]
  exact hnode

/-- One operation of a sink: the file is still its own, and holds this text now. -/
structure Wrote (s : Sink) (t : FileTree) (text : String) (s' : Sink) (t' : FileTree) : Prop where
  place : s'.place = s.place
  rewritten : t.Rewritten s.place t'
  holds : s'.Holds t' text

theorem Wrote.trans {s'' : Sink} {t'' : FileTree} {text' : String} (h : s.Wrote t text s' t')
    (h' : s'.Wrote t' text' s'' t'') : s.Wrote t text' s'' t'' where
  place := h'.place.trans h.place
  rewritten := h.rewritten.trans (h.place ▸ h'.rewritten)
  holds := h'.holds

/-- **A flush brings everything to the file.** -/
theorem Holds.flush (h : s.Holds t text) :
    ∃ s' t', s.flush t = .ok (s', t') ∧ s.Wrote t text s' t' ∧ s'.pending = "" := by
  obtain ⟨hroot, done, hnode, hoffset, rfl⟩ := h
  obtain ⟨t', hwrite, hrewritten, hnode'⟩ := FileTree.write_end hroot hnode s.pending
  refine ⟨{ s with offset := s.offset + s.pending.utf8ByteSize, pending := "" }, t', ?_,
    ⟨rfl, hrewritten, hroot, _, hnode', ?_, String.append_empty⟩, rfl⟩
  · rw [Sink.flush, hoffset, hwrite]
  · rw [String.utf8ByteSize_append, hoffset]

theorem Holds.add (h : s.Holds t text) (new : String) :
    ∃ s' t', s.add t new = .ok (s', t') ∧ s.Wrote t (text ++ new) s' t' := by
  unfold Sink.add
  split
  · obtain ⟨hroot, done, hnode, hoffset, rfl⟩ := h
    exact ⟨_, _, rfl, rfl, .refl _ t, hroot, done, hnode, hoffset, (String.append_assoc ..).symm⟩
  · obtain ⟨s', t', hflush, hwrote, hpending⟩ := h.flush
    obtain ⟨hroot, done, hnode, hoffset, hdone⟩ := hwrote.holds
    rw [hflush]
    refine ⟨_, _, rfl, hwrote.place, hwrote.rewritten, hroot, done, hnode, hoffset, ?_⟩
    rw [hpending, String.append_empty] at hdone
    rw [hdone]

/-- **Rows are added one after the other, and all of them reach the file.** -/
theorem Holds.writeRows (h : s.Holds t text) (rows : List Row) :
    ∃ s' t', s.writeRows t rows = .ok (s', t') ∧
      s.Wrote t (text ++ String.join (rows.map Row.record)) s' t' ∧ s'.pending = "" := by
  induction rows generalizing s t text with
  | nil =>
    obtain ⟨s', t', hflush, hwrote, hpending⟩ := h.flush
    rw [List.map_nil, String.join_nil, String.append_empty]
    exact ⟨s', t', hflush, hwrote, hpending⟩
  | cons row rest ih =>
    obtain ⟨s₁, t₁, hadd, hwrote⟩ := h.add row.record
    obtain ⟨s', t', hrest, hmore, hpending⟩ := ih hwrote.holds
    refine ⟨s', t', ?_, ?_, hpending⟩
    · rw [Sink.writeRows, writeRow, hadd]
      exact hrest
    · rw [List.map_cons, String.join_cons, ← String.append_assoc]
      exact hwrote.trans hmore

theorem Holds.close (h : s.Holds t text) :
    t.Rewritten s.place (s.close t) ∧ (s.close t).node? s.place = some (.file text) := by
  obtain ⟨s', t', hflush, hwrote, hpending⟩ := h.flush
  rw [Sink.close, hflush]
  exact ⟨hwrote.rewritten, hwrote.place ▸ hwrote.holds.file hpending⟩

/-- **A new sink has its file, with the header in it**, if the path is that of a file. -/
theorem create_of_writable (h : t.WritableAt path place) :
    ∃ s t', create t path = .ok (s, t') ∧ s.place = place ∧ s.pending = "" ∧
      t.Rewritten place t' ∧ s.Holds t' Csv.header := by
  have hmade : Holds { path, place, offset := 0, pending := Csv.header } (t.put place (.file ""))
      Csv.header := by
    refine ⟨h.ne_root, "", ?_, rfl, String.empty_append⟩
    rw [FileTree.node?_put t h.ne_root, if_pos rfl]
  obtain ⟨s, t', hflush, hwrote, hpending⟩ := hmade.flush
  refine ⟨s, t', ?_, hwrote.place, hpending, ?_, hwrote.holds⟩
  · rw [create, if_neg h.ne_empty, h.openFile]
    exact hflush
  · exact (t.put_rewritten h.ne_root _).trans hwrote.rewritten

/-- **A sink that was made has a file.** The device that takes no bytes does not take the header. -/
theorem writable_of_create (h : create t path = .ok (s, t')) : t.WritableAt path s.place := by
  unfold create at h
  split at h
  · simp at h
  · split at h
    · simp at h
    · rename_i made place hopen
      obtain hpath | ⟨rfl, hfull⟩ := FileTree.of_openFile hopen
      · unfold flush at h
        split at h
        · simp at h
        · obtain ⟨rfl, -⟩ := Prod.mk.inj (Except.ok.inj h)
          exact hpath
      · have hheader : Csv.header ≠ "" := by decide +kernel
        simp [flush, FileTree.write, hfull, hheader] at h

end Sink

end LoadSweep
