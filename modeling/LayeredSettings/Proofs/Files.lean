import LayeredSettings.Source

/-!
# What writing a file leaves

Making directories and writing a file leave the rest of the tree as it is: `Files.Frame` says what
stays, the laws behind it say so of each operation, and `Files.Frame.transfer` concludes that a file
is read as before unless it is the one written. `World.write_cases` puts the operations together: a
file that could be written is read back, and a failed attempt changes no file.
-/

namespace LayeredSettings

namespace Files

variable {fs fs' fs'' : Files} {p : Path} {place : Place} {bytes : List UInt8}

/-! ## Nodes -/

theorem node?_put_self (h : place ≠ []) (node : Node) :
    (fs.put place node).node? place = some node := by
  rw [node?, if_neg h, put, List.findSome?_cons, if_pos rfl]

private theorem findSome?_filter_ne {other : Place} (h : other ≠ place)
    (nodes : List (Place × Node)) :
    ((nodes.filter (·.1 ≠ place)).findSome? fun e => if e.1 = other then some e.2 else none) =
      nodes.findSome? fun e => if e.1 = other then some e.2 else none := by
  induction nodes with
  | nil => rfl
  | cons e rest ih =>
    by_cases he : e.1 = place
    · have hne : e.1 ≠ other := fun h' => h (h'.symm.trans he)
      rw [List.filter_cons_of_neg (by simp [he]), ih, List.findSome?_cons, if_neg hne]
    · rw [List.filter_cons_of_pos (by simp [he]), List.findSome?_cons, List.findSome?_cons, ih]

theorem node?_put_of_ne {other : Place} (h : other ≠ place) (node : Node) :
    (fs.put place node).node? other = fs.node? other := by
  unfold node? put
  rw [List.findSome?_cons, if_neg (Ne.symm h), findSome?_filter_ne h]

theorem ne_nil_of_node? (h : fs.node? place ≠ some .directory) : place ≠ [] := by
  rintro rfl
  exact h (if_pos rfl)

/-! ## Frames -/

/-- What a change leaves: the working directory, all directories, and all nodes but the one that
stands at `off`, if a place is given. -/
structure Frame (off : Option Place) (fs fs' : Files) : Prop where
  working : fs'.working = fs.working
  directory : ∀ {place}, fs.node? place = some .directory → fs'.node? place = some .directory
  node : ∀ {place node}, fs.node? place = some node → off ≠ some place →
    fs'.node? place = some node

namespace Frame

variable {off : Option Place}

theorem refl (fs : Files) : Frame off fs fs := ⟨rfl, id, fun h _ => h⟩

theorem trans (h : Frame off fs fs') (h' : Frame off fs' fs'') : Frame off fs fs'' where
  working := h'.working.trans h.working
  directory hd := h'.directory (h.directory hd)
  node hn hoff := h'.node (h.node hn hoff) hoff

theorem weaken (h : Frame none fs fs') : Frame off fs fs' where
  working := h.working
  directory := h.directory
  node hn _ := h.node hn (by simp)

/-- Names that lead to a place lead there still, since they lead through directories. -/
theorem follow (h : Frame off fs fs') {here : Place} {names : List Text}
    (hf : fs.follow here names = .ok place) : fs'.follow here names = .ok place := by
  induction names generalizing here with
  | nil => exact hf
  | cons name names ih =>
    unfold Files.follow at hf ⊢
    cases hn : fs.node? here with
    | none => simp only [hn] at hf; cases hf
    | some node =>
      cases node with
      | file bytes => simp only [hn] at hf; cases hf
      | special bytes => simp only [hn] at hf; cases hf
      | closedFile => simp only [hn] at hf; cases hf
      | closedDirectory => simp only [hn] at hf; cases hf
      | directory =>
        simp only [hn] at hf
        simp only [h.directory hn]
        split at hf
        · cases hf
        · next hlong =>
          rw [if_neg hlong]
          split at hf
          · next hdots =>
            rw [if_pos hdots]
            exact ih hf
          · next hdots =>
            rw [if_neg hdots]
            exact ih hf

theorem locate (h : Frame off fs fs') (hl : fs.locate p = .ok place) :
    fs'.locate p = .ok place := by
  unfold Files.locate at hl ⊢
  rw [h.working]
  split at hl
  · cases hl
  · next hlong =>
    rw [if_neg hlong]
    exact h.follow hl

end Frame

/-! ## Reading -/

theorem exists_of_transfer {tr : Transfer} (h : fs.transfer p = .ok tr) :
    ∃ place node, fs.locate p = .ok place ∧ fs.node? place = some node := by
  unfold transfer find? at h
  cases hl : fs.locate p with
  | error cause =>
    rw [hl] at h
    cases h
  | ok place =>
    rw [hl] at h
    cases hn : fs.node? place with
    | none =>
      simp only [Except.map, hn] at h
      cases h
    | some node => exact ⟨place, node, rfl, hn⟩

theorem transfer_of_file (hl : fs.locate p = .ok place)
    (hn : fs.node? place = some (.file bytes)) : fs.transfer p = .ok (.ofBytes bytes) := by
  unfold transfer find?
  rw [hl]
  simp only [Except.map, hn]

/-- A file is read as before unless it stands at the place that the frame leaves out. -/
theorem Frame.transfer {off : Option Place} {tr : Transfer} (h : Frame off fs fs')
    (hr : fs.transfer p = .ok tr)
    (hoff : ∀ place, off = some place → fs'.locate p ≠ .ok place) : fs'.transfer p = .ok tr := by
  obtain ⟨place, node, hl, hn⟩ := exists_of_transfer hr
  have hl' : fs'.locate p = .ok place := h.locate hl
  have hn' : fs'.node? place = some node := h.node hn fun he => hoff place he hl'
  rw [← hr]
  unfold Files.transfer find?
  rw [hl, hl']
  simp only [Except.map, hn, hn']

/-! ## Changes -/

/-- Putting a node where no directory is leaves all else. -/
theorem frame_put (h : fs.node? place ≠ some .directory) (node : Node) :
    Frame (some place) fs (fs.put place node) where
  working := rfl
  directory {other} hd := by
    have hne : other ≠ place := by
      rintro rfl
      exact h hd
    rw [node?_put_of_ne hne, hd]
  node {other node} hn hoff := by
    have hne : other ≠ place := by
      rintro rfl
      exact hoff rfl
    rw [node?_put_of_ne hne, hn]

theorem frame_put_of_none (h : fs.node? place = none) (node : Node) :
    Frame none fs (fs.put place node) where
  working := rfl
  directory := (frame_put (by simp [h]) node).directory
  node hn _ := (frame_put (by simp [h]) node).node hn (by rintro ⟨⟩; simp [h] at hn)

theorem frame_of_makeDirectory (h : fs.makeDirectory p = .ok fs') : Frame none fs fs' := by
  unfold makeDirectory at h
  split at h
  · cases h
  · next place _ =>
    split at h
    · cases h
    · next hnone =>
      cases h
      exact frame_put_of_none hnone .directory

/-- Directories that were made stay when making more of them fails, and so does all else. -/
theorem frame_makeDirectories (anchor : Path.Anchor) (names : List Text) :
    Frame none fs (fs.makeDirectories anchor names).1 := by
  -- The innermost name stands first: the directories around it are made before it is tried again.
  induction names with
  | nil =>
    unfold makeDirectories
    simp only
    split <;> exact .refl fs
  | cons name outer ih =>
    unfold makeDirectories
    simp only
    split
    · next made => exact frame_of_makeDirectory made
    · split
      · split
        · next houter => rwa [houter] at ih
        · next houter =>
          rw [houter] at ih
          split
          · next made => exact ih.trans (frame_of_makeDirectory made)
          · split <;> exact ih
      · split <;> exact .refl fs

/-- A file that could be written stands at its place, and all else is left. -/
theorem write_eq_ok (h : fs.write p bytes = .ok fs') :
    ∃ place, fs'.locate p = .ok place ∧ fs'.node? place = some (.file bytes) ∧
      Frame (some place) fs fs' := by
  unfold Files.write at h
  split at h
  · cases h
  · next place hl =>
    split at h
    · cases h
    · next hwritable =>
      cases h
      have hn : fs.node? place ≠ some .directory := by
        intro hd
        rw [hd] at hwritable
        cases hwritable
      have hframe : Frame (some place) fs (fs.put place (.file bytes)) := frame_put hn _
      exact ⟨place, hframe.locate hl, node?_put_self (ne_nil_of_node? hn) _, hframe⟩

end Files

/-! ## Worlds -/

/-- Another error makes no success. -/
theorem mapError_eq_ok_iff {α ε ε' : Type} {x : Except ε α} {f : ε → ε'} {a : α} :
    x.mapError f = .ok a ↔ x = .ok a := by
  cases x with
  | error e =>
    constructor
    · intro h
      cases h
    · intro h
      cases h
  | ok a =>
    constructor
    · intro h
      cases h
      rfl
    · intro h
      cases h
      rfl

namespace World

variable {w : World} {p : Path} {bytes : List UInt8}

theorem transfer_eq_ok_iff {tr : Transfer} :
    w.transfer p = .ok tr ↔ p.hasNull = false ∧ w.files.transfer p = .ok tr := by
  unfold World.transfer
  cases p.hasNull with
  | true => simp
  | false =>
    rw [if_neg (by decide), mapError_eq_ok_iff]
    simp

/-- All bytes of a file are those of its transfer. -/
theorem read_eq_ok_iff :
    w.read p = .ok bytes ↔ ∃ tr, w.transfer p = .ok tr ∧ tr.whole = .ok bytes := by
  unfold World.read
  cases w.transfer p with
  | error f =>
    constructor
    · intro h
      cases h
    · rintro ⟨tr, htr, -⟩
      cases htr
  | ok tr =>
    show tr.whole.mapError Failure.transfer = .ok bytes ↔ _
    rw [mapError_eq_ok_iff]
    simp

theorem frame_makeDirectories (w : World) (p : Path) :
    Files.Frame none w.files (w.makeDirectories p).1 := by
  unfold makeDirectories
  split
  · exact .refl w.files
  · exact Files.frame_makeDirectories p.anchor p.names.reverse

/-- Writing a file ends in one of two ways: the file is at its place and all else is left, or the
attempt fails and all files are left. -/
theorem write_cases (w : World) (p : Path) (bytes : List UInt8) :
    ((w.write p bytes).2 = .ok () ∧ p.hasNull = false ∧
      ∃ place, (w.write p bytes).1.locate p = .ok place ∧
        (w.write p bytes).1.node? place = some (.file bytes) ∧
        Files.Frame (some place) w.files (w.write p bytes).1) ∨
    ∃ f, (w.write p bytes).2 = .error f ∧ Files.Frame none w.files (w.write p bytes).1 := by
  have hmade := w.frame_makeDirectories { p with names := p.names.dropLast }
  unfold World.write
  split
  · next files f hd =>
    rw [hd] at hmade
    exact .inr ⟨f, rfl, hmade⟩
  · next files hd =>
    rw [hd] at hmade
    split
    · exact .inr ⟨_, rfl, hmade⟩
    · next hnull =>
      cases hw : files.write p bytes with
      | error f => exact .inr ⟨_, rfl, hmade⟩
      | ok files' =>
        obtain ⟨place, hl, hn, hframe⟩ := Files.write_eq_ok hw
        exact .inl ⟨rfl, by simpa using hnull, place, hl, hn, hmade.weaken.trans hframe⟩

end World

end LayeredSettings
