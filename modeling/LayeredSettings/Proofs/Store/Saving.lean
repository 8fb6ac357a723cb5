import LayeredSettings.Proofs.Files
import LayeredSettings.Proofs.Sources
import LayeredSettings.Proofs.Store.RoundTrip

/-!
# Loading what was saved

A store that could be saved is loaded again with the entries it shows, and all other files are
loaded as before, also when saving fails (`load_save`). A written store holds no carriage return, so
that reading its file leaves the text as it was written.
-/

namespace LayeredSettings

/-! ## No carriage returns -/

theorem Text.eq_or_mem_of_mem_joinWith {sep c : Char} {parts : List Text}
    (h : c ∈ joinWith sep parts) : c = sep ∨ ∃ part ∈ parts, c ∈ part := by
  cases parts with
  | nil => cases h
  | cons part parts =>
    rw [joinWith_cons, List.mem_append, List.mem_flatMap] at h
    rcases h with h | ⟨other, hother, h⟩
    · exact .inr ⟨part, List.mem_cons_self, h⟩
    · rcases List.mem_cons.1 h with h | h
      · exact .inl h
      · exact .inr ⟨other, List.mem_cons_of_mem _ hother, h⟩

theorem Quoted.return_notMem_encode (t : Text) : '\r' ∉ encode t := by
  induction t with
  | nil => exact List.not_mem_nil
  | cons c t ih =>
    unfold encode
    cases he : escape? c with
    | none =>
      have hc : '\r' ≠ c := by
        rintro rfl
        cases he
      simp only [List.mem_cons, not_or]
      exact ⟨hc, ih⟩
    | some e =>
      have hsign : '\r' ≠ e := by
        rintro rfl
        cases unescape?_of_escape? he
      simp only [List.mem_cons, not_or]
      exact ⟨by decide, hsign, ih⟩

theorem Quoted.return_notMem_literal (t : Text) : '\r' ∉ literal t := by
  unfold literal
  simp only [List.mem_cons, List.mem_append, List.not_mem_nil, or_false, not_or]
  exact ⟨by decide, return_notMem_encode t, by decide⟩

theorem Key.return_notMem_of_isName {segment : Text} (h : isName segment = true) :
    '\r' ∉ segment := by
  cases segment with
  | nil => exact List.not_mem_nil
  | cons c rest =>
    simp only [isName, Bool.and_eq_true, List.all_eq_true] at h
    intro hmem
    rcases List.mem_cons.1 hmem with rfl | hmem
    · exact absurd h.1 (by decide)
    · exact absurd (h.2 _ hmem) (by decide)

theorem Key.return_notMem_render (key : Text) : '\r' ∉ render key := by
  intro h
  rcases Text.eq_or_mem_of_mem_joinWith h with h | ⟨part, hpart, h⟩
  · exact absurd h (by decide)
  · obtain ⟨segment, -, rfl⟩ := List.mem_map.1 hpart
    unfold renderSegment at h
    split at h
    · next hname => exact return_notMem_of_isName hname h
    · exact Quoted.return_notMem_literal segment h

namespace Store

theorem return_notMem_entryLine (e : Entry) : '\r' ∉ entryLine e := by
  unfold entryLine
  simp only [List.mem_append, not_or]
  exact ⟨⟨Key.return_notMem_render e.1, by decide⟩, Quoted.return_notMem_literal e.2⟩

theorem return_notMem_headerLines {header : List Text} (h : ∀ line ∈ header, '\r' ∉ line) :
    ∀ line ∈ headerLines header, '\r' ∉ line := by
  intro line hline
  unfold headerLines at hline
  split at hline
  · cases hline
  · rcases List.mem_append.1 hline with hline | hline
    · obtain ⟨comment, hcomment, rfl⟩ := List.mem_map.1 hline
      unfold commentLine
      split
      · decide
      · simp only [List.mem_cons, not_or]
        exact ⟨by decide, by decide, h comment hcomment⟩
    · rw [List.mem_singleton.1 hline]
      exact List.not_mem_nil

/-- A carriage return in a key or a value is written as an escape. -/
theorem return_notMem_render (host : Host) (s : Store) {header : List Text}
    (h : ∀ line ∈ header, '\r' ∉ line) : '\r' ∉ s.render host header := by
  unfold render
  rw [List.mem_append, not_or]
  refine ⟨fun hmem => ?_, by decide⟩
  rcases Text.eq_or_mem_of_mem_joinWith hmem with hmem | ⟨line, hline, hmem⟩
  · exact absurd hmem (by decide)
  · rcases List.mem_append.1 hline with hline | hline
    · exact return_notMem_headerLines h line hline hmem
    · obtain ⟨e, -, rfl⟩ := List.mem_map.1 hline
      exact return_notMem_entryLine e hmem

/-! ## Saving and loading -/

/-- The world behind an attempt to save a store. -/
def worldAfterSave (w : World) (s : Store) (p : Path) : World := { w with files := (s.save w p).1 }

/-- Saving ends as writing does, but for the wording of a failure. -/
theorem save_cases (w : World) (s : Store) (p : Path) :
    ((s.save w p).2 = .ok () ∧ p.hasNull = false ∧
      ∃ place, (s.save w p).1.locate p = .ok place ∧
        (s.save w p).1.node? place =
          some (.file (Encoding.Utf8.encode (s.render w.host savedHeader))) ∧
        Files.Frame (some place) w.files (s.save w p).1) ∨
    ∃ f, (s.save w p).2 = .error f ∧ Files.Frame none w.files (s.save w p).1 := by
  rcases w.write_cases p (Encoding.Utf8.encode (s.render w.host savedHeader)) with
    ⟨hok, hwritten⟩ | ⟨f, herror, hframe⟩
  · refine .inl ⟨?_, hwritten⟩
    show (World.write _ _ _).2.mapError _ = _
    rw [hok]
    rfl
  · have hsave : ∃ g, (s.save w p).2 = .error g := by
      show ∃ g, (World.write _ _ _).2.mapError _ = .error g
      rw [herror]
      exact ⟨_, rfl⟩
    obtain ⟨g, hg⟩ := hsave
    exact .inr ⟨g, hg, hframe⟩

end Store

namespace Source

variable {w w' : World} {src : Source} {q : Path}

/-- A source gives the same in both worlds, whatever reads it. -/
def ReadsAlike (src : Source) (w w' : World) : Prop :=
  ∀ o, ∃ outcome, src.Reads w o outcome ∧ src.Reads w' o outcome

theorem readsAlike_of_frame {off : Option Files.Place} {tr : Transfer}
    (hq : Loader.pathOf? src = .ok (some q)) (htr : w.transfer q = .ok tr)
    (hframe : Files.Frame off w.files w'.files)
    (hoff : ∀ place, off = some place → w'.files.locate q ≠ .ok place) :
    src.ReadsAlike w w' := by
  obtain ⟨hnull, hfile⟩ := World.transfer_eq_ok_iff.1 htr
  have htr' : w'.transfer q = .ok tr :=
    World.transfer_eq_ok_iff.2 ⟨hnull, hframe.transfer hfile hoff⟩
  exact fun o => ⟨_, reads_file hq htr, reads_file hq htr'⟩

/-- A file that holds a written store gives what the store shows, in the order of the keys. -/
theorem reads_rendered {host : Host} {s : Store} {o : LoadOptions}
    (hq : Loader.pathOf? src = .ok (some q)) (ho : o.encoding = .utf8)
    (htr : w.transfer q =
      .ok (.ofBytes (Encoding.Utf8.encode (s.render host Store.savedHeader)))) :
    src.Reads w o (.ok (s.sortedSettings host)) := by
  have hreturns : '\r' ∉ s.render host Store.savedHeader :=
    Store.return_notMem_render host s (by decide)
  have hparse : (OpenSource.ofTransfer o q.render
      (.ofBytes (Encoding.Utf8.encode (s.render host Store.savedHeader)))).bind
        (·.parse o.strict) = .ok (s.sortedSettings host) := by
    rw [OpenSource.parse_ofTransfer ho (Transfer.whole_ofBytes _),
      Text.lineFeeds_of_notMem hreturns]
    exact Store.parseText_render_eq host s _ (by decide) q.render o.strict
  rw [← hparse]
  exact reads_file hq htr

end Source

namespace Store

/-- If a store could be saved to a file, loading the file gives the entries that the store shows,
in strictly increasing order of their keys, and a path that held a file before leads to the saved
file or is read as before. If saving failed, all paths that held a file are read as before. -/
theorem load_save (w : World) (s : Store) (p : Path) :
    ((s.save w p).2 = .ok () →
      ∃ settings, settings.entries.Perm (s.entries w.host) ∧ settings.keys.Pairwise (· < ·) ∧
        (Loader.load (worldAfterSave w s p) (({} : LoadOptions).strictly true) (.path p)
          none).result = .ok (.mapped settings) ∧
        (Store.load (worldAfterSave w s p) {} (.path p)).result = .ok (.mapped settings) ∧
        ∀ src q bytes, Loader.pathOf? src = .ok (some q) → w.read q = .ok bytes →
          ((worldAfterSave w s p).files.locate q = (worldAfterSave w s p).files.locate p →
            ∀ strict, src.Reads (worldAfterSave w s p) (({} : LoadOptions).strictly strict)
              (.ok settings)) ∧
          ((worldAfterSave w s p).files.locate q ≠ (worldAfterSave w s p).files.locate p →
            src.ReadsAlike w (worldAfterSave w s p))) ∧
    ∀ f, (s.save w p).2 = .error f → ∀ src q bytes, Loader.pathOf? src = .ok (some q) →
      w.read q = .ok bytes → src.ReadsAlike w (worldAfterSave w s p) := by
  rcases save_cases w s p with ⟨hok, hnull, place, hplace, hnode, hframe⟩ | ⟨f, herror, hframe⟩
  · refine ⟨fun _ => ?_, fun f hf => ?_⟩
    · -- Whatever leads to the place of the saved file reads the written store there.
      have hsaved : ∀ src q, Loader.pathOf? src = .ok (some q) → q.hasNull = false →
          (worldAfterSave w s p).files.locate q = .ok place → ∀ strict,
          src.Reads (worldAfterSave w s p) (({} : LoadOptions).strictly strict)
            (.ok (s.sortedSettings w.host)) := by
        intro src q hq hqnull hlocate strict
        refine Source.reads_rendered hq rfl (World.transfer_eq_ok_iff.2 ⟨hqnull, ?_⟩)
        exact Files.transfer_of_file hlocate hnode
      have hself := hsaved (.path p) p rfl hnull hplace
      refine ⟨s.sortedSettings w.host, sortedEntries_perm w.host s,
        pairwise_sortedEntries w.host s, (hself true).load none, (hself false).store, ?_⟩
      intro src q bytes hq hread
      obtain ⟨tr, htr, -⟩ := World.read_eq_ok_iff.1 hread
      refine ⟨fun hsame => ?_, fun hother => ?_⟩
      · exact hsaved src q hq (World.transfer_eq_ok_iff.1 htr).1 (hsame.trans hplace)
      · refine Source.readsAlike_of_frame hq htr hframe fun other he hlocate => hother ?_
        rw [hlocate, ← Option.some.inj he]
        exact hplace.symm
    · rw [hok] at hf
      cases hf
  · refine ⟨fun hok => ?_, fun f' _ src q bytes hq hread => ?_⟩
    · rw [herror] at hok
      cases hok
    · obtain ⟨tr, htr, -⟩ := World.read_eq_ok_iff.1 hread
      exact Source.readsAlike_of_frame hq htr hframe fun _ he => by cases he

/-- A working directory with one file, `b.conf`. -/
def workplace : World where
  files := ⟨[(["b.conf".toList, ['w']], .file (Encoding.Utf8.encode "b = 1".toList)),
    ([['w']], .directory)], [['w']]⟩
  host := ⟨.empty, .empty⟩
  fetch := fun _ => .error ⟨.system, []⟩

/-- Saving to a directory that does not exist yet makes it; saving below `b.conf` fails. -/
theorem load_save_beside_file :
    let s : Store := .mapped (.ofList [("a".toList, "1\r\n2".toList)])
    let p : Path := ⟨.working, ["conf".toList, "a.conf".toList]⟩
    let other : Path := ⟨.working, ["b.conf".toList]⟩
    let below : Path := ⟨.working, ["b.conf".toList, "a.conf".toList]⟩
    (s.save workplace p).2 = .ok () ∧
      (s.save workplace below).2 =
        .error (.config (.load (.unwritable below ⟨.occupied, other⟩))) ∧
      (∃ settings, settings.entries.Perm [("a".toList, "1\r\n2".toList)] ∧
        (Store.load (worldAfterSave workplace s p) {} (.path p)).result = .ok (.mapped settings)) ∧
      (Source.path other).ReadsAlike workplace (worldAfterSave workplace s p) ∧
      (Source.path other).ReadsAlike workplace (worldAfterSave workplace s below) := by
  intro s p other below
  have hsaved : (s.save workplace p).2 = .ok () := rfl
  have hfailed : (s.save workplace below).2 =
      .error (.config (.load (.unwritable below ⟨.occupied, other⟩))) := rfl
  have hread : workplace.read other = .ok (Encoding.Utf8.encode "b = 1".toList) :=
    World.read_eq_ok_iff.2 ⟨_, rfl, Transfer.whole_ofBytes _⟩
  have hplace : (worldAfterSave workplace s p).files.locate p =
      .ok ["a.conf".toList, "conf".toList, ['w']] := rfl
  have hother : (worldAfterSave workplace s p).files.locate other =
      .ok ["b.conf".toList, ['w']] := rfl
  have hplaces : (worldAfterSave workplace s p).files.locate other ≠
      (worldAfterSave workplace s p).files.locate p := by
    rw [hplace, hother]
    exact fun h => absurd (Except.ok.inj h) (by decide)
  obtain ⟨settings, hentries, -, -, hload, hothers⟩ := (load_save workplace s p).1 hsaved
  refine ⟨hsaved, hfailed, ⟨settings, hentries, hload⟩, ?_, ?_⟩
  · exact (hothers _ other _ rfl hread).2 hplaces
  · exact (load_save workplace s below).2 _ hfailed _ other _ rfl hread

end Store

end LayeredSettings
