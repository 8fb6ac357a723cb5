import LayeredSettings.Proofs.Key
import LayeredSettings.Proofs.Store.Entries
import LayeredSettings.Proofs.Yaml.Trimming
import LayeredSettings.Store.Snapshot

/-!
# What a snapshot tells

A snapshot trims what an emitter writes. Of an emitter it is enough to know that its documents tell
their mappings and end in a line feed, and what becomes of white space at the end of a last value
(`Yaml.Emitter.Lawful`). A snapshot then tells the keys of a store and their values, unless the last
value stands without quotes and ends in white space, which is trimmed together with the end of the
document (`snapshot_eq_iff_of_lawful`). For the emitter that the program runs with, this is an
equivalence (`snapshot_document_eq_iff`).
-/

namespace LayeredSettings

open Text (isSpace trimEnd)
open Yaml (EqualButEnd LooseEnd PlainTrimmed)

/-! ## Emitters -/

/-- What snapshots rely on. The values that are written without quotes are the plain ones. -/
structure Yaml.Emitter.Lawful (emit : Yaml.Emitter) (plain : Text → Prop) : Prop where
  /-- A document tells its mapping. -/
  determines {es fs : List Entry} : (es.map Prod.fst).Nodup → (fs.map Prod.fst).Nodup →
    emit es = emit fs → es.Perm fs
  /-- A document ends in a line feed, and in no other white space than that of a plain value. -/
  closed {es : List Entry} : ¬ LooseEnd plain es → trimEnd isSpace (emit es) ++ ['\n'] = emit es
  /-- White space at the end of a plain last value is written as white space, whatever it is. -/
  blank (ds : List Entry) (key stem : Text) : ∃ t, ∀ w, (∀ c ∈ w, isSpace c = true) →
    plain (stem ++ w) → ∃ w', (∀ c ∈ w', isSpace c = true) ∧
      emit (ds ++ [(key, stem ++ w)]) = t ++ w'

namespace Yaml.Emitter.Lawful

variable {emit : Yaml.Emitter} {plain : Text → Prop} {es fs : List Entry}

theorem trimEnd_eq_of_equalButEnd (laws : emit.Lawful plain) (h : EqualButEnd plain es fs) :
    trimEnd isSpace (emit es) = trimEnd isSpace (emit fs) := by
  obtain ⟨ds, key, value, value', rfl, rfl, hvalue, hvalue', htrim⟩ := h
  obtain ⟨t, ht⟩ := laws.blank ds key (trimEnd isSpace value)
  have hend : ∀ u, plain u → trimEnd isSpace u = trimEnd isSpace value →
      trimEnd isSpace (emit (ds ++ [(key, u)])) = trimEnd isSpace t := by
    intro u hu hstem
    obtain ⟨w, hw, hblank⟩ := Text.exists_trimEnd_append isSpace u
    rw [hstem] at hw
    rw [hw] at hu ⊢
    obtain ⟨w', hw', htext⟩ := ht w hblank hu
    rw [htext, Text.trimEnd_append_of_all hw']
  rw [hend value hvalue rfl, hend value' hvalue' htrim.symm]

/-- Of rows without loose ends a trimmed document tells the entries. -/
theorem eq_of_trimEnd_eq (laws : emit.Lawful plain) (hes : (es.map Prod.fst).Pairwise (· < ·))
    (hfs : (fs.map Prod.fst).Pairwise (· < ·)) (hloose : ¬ LooseEnd plain es)
    (hloose' : ¬ LooseEnd plain fs) (h : trimEnd isSpace (emit es) = trimEnd isSpace (emit fs)) :
    es = fs := by
  have hdocument : emit es = emit fs := by rw [← laws.closed hloose, ← laws.closed hloose', h]
  have hne : ∀ {k k' : Text}, k < k' → k ≠ k' := by
    rintro k k' hlt rfl
    exact List.lt_irrefl k hlt
  exact Store.eq_of_perm hes hfs (laws.determines (hes.imp hne) (hfs.imp hne) hdocument)

end Yaml.Emitter.Lawful

/-- The emitter that the program runs with is lawful. -/
theorem Yaml.lawful_document : Yaml.Emitter.Lawful document (styleOf · = .plain) where
  determines _ _ h := by
    rw [renderMapping_injective (List.append_cancel_right h)]
  closed h := by
    rw [trimEnd_document, trimEnd_renderMapping h, document]
  blank ds key stem := by
    refine ⟨trimEnd isSpace
      (writePlain true (keyPen (entriesPen ds) key) (trimEnd isSpace stem)).text,
      fun w hw hplain => ?_⟩
    obtain ⟨w', hw', hblank⟩ :=
      Text.exists_trimEnd_append isSpace (document (ds ++ [(key, stem ++ w)]))
    rw [trimEnd_document, trimEnd_renderMapping_plain ds key hplain,
      Text.trimEnd_append_of_all hw] at hw'
    exact ⟨w', hblank, hw'⟩

namespace Store

/-! ## Snapshots -/

theorem snapshot_eq_append (emit : Yaml.Emitter) (host : Host) (s : Store) :
    s.snapshot emit host = Text.lines snapshotHeader ++
      '\n' :: (trimEnd isSpace (emit (s.sortedEntries host)) ++ ['\n']) := by
  show Text.joinWith '\n' (snapshotHeader ++ [_]) ++ ['\n'] = _
  rw [Text.joinWith_append '\n' (by simp [snapshotHeader]) (by simp), List.append_assoc]
  rfl

variable {emit : Yaml.Emitter} {plain : Text → Prop} {host host' : Host} {s s' : Store}

theorem snapshot_eq_iff_trimEnd :
    s.snapshot emit host = s'.snapshot emit host' ↔
      trimEnd isSpace (emit (s.sortedEntries host)) =
        trimEnd isSpace (emit (s'.sortedEntries host')) := by
  rw [snapshot_eq_append, snapshot_eq_append]
  constructor
  · intro h
    exact List.append_cancel_right (List.cons.inj (List.append_cancel_left h)).2
  · intro h
    rw [h]

/-- Last values are compared without the white space at their ends. -/
theorem eq_or_equalButEnd_of_snapshot_eq (laws : emit.Lawful plain)
    (hplain : PlainTrimmed plain (s.sortedEntries host))
    (hplain' : PlainTrimmed plain (s'.sortedEntries host'))
    (h : s.snapshot emit host = s'.snapshot emit host') :
    s.sortedEntries host = s'.sortedEntries host' ∨
      EqualButEnd plain (s.sortedEntries host) (s'.sortedEntries host') := by
  obtain ⟨es, hloose, hkeys, hes⟩ := hplain.exists_tight
  obtain ⟨fs, hloose', hkeys', hfs⟩ := hplain'.exists_tight
  have hsorted : (es.map Prod.fst).Pairwise (· < ·) := by
    rw [hkeys]
    exact pairwise_sortedEntries host s
  have hsorted' : (fs.map Prod.fst).Pairwise (· < ·) := by
    rw [hkeys']
    exact pairwise_sortedEntries host' s'
  have htrim : ∀ {gs gs' : List Entry}, gs = gs' ∨ EqualButEnd plain gs gs' →
      trimEnd isSpace (emit gs) = trimEnd isSpace (emit gs') := by
    rintro gs gs' (rfl | h)
    · rfl
    · exact laws.trimEnd_eq_of_equalButEnd h
  obtain rfl : es = fs := by
    refine laws.eq_of_trimEnd_eq hsorted hsorted' hloose hloose' ?_
    rw [← htrim hes, ← htrim hfs, snapshot_eq_iff_trimEnd.1 h]
  rcases hes with hes | hes
  · rcases hfs with hfs | hfs
    · exact Or.inl (hes.trans hfs.symm)
    · exact Or.inr (hes ▸ hfs.symm)
  · rcases hfs with hfs | hfs
    · exact Or.inr (hfs ▸ hes)
    · exact Or.inr (hes.trans hfs.symm)

/-- Of stores without white space at the end of a plain last value, snapshots tell the visible
entries. Such white space is lost, and nothing besides it as long as the value stays plain. -/
theorem snapshot_eq_iff_of_lawful (laws : emit.Lawful plain) (host host' : Host) (s s' : Store) :
    (¬ LooseEnd plain (s.sortedEntries host) → ¬ LooseEnd plain (s'.sortedEntries host') →
      (s.snapshot emit host = s'.snapshot emit host' ↔
        ∀ e, e ∈ s.entries host ↔ e ∈ s'.entries host')) ∧
    (EqualButEnd plain (s.sortedEntries host) (s'.sortedEntries host') →
      s.snapshot emit host = s'.snapshot emit host') ∧
    (PlainTrimmed plain (s.sortedEntries host) → PlainTrimmed plain (s'.sortedEntries host') →
      s.snapshot emit host = s'.snapshot emit host' →
        (∀ e, e ∈ s.entries host ↔ e ∈ s'.entries host') ∨
          EqualButEnd plain (s.sortedEntries host) (s'.sortedEntries host')) := by
  simp only [← sortedEntries_eq_iff]
  refine ⟨fun hloose hloose' => ?_, fun h => ?_, eq_or_equalButEnd_of_snapshot_eq laws⟩
  · rw [snapshot_eq_iff_trimEnd]
    constructor
    · exact laws.eq_of_trimEnd_eq (pairwise_sortedEntries host s) (pairwise_sortedEntries host' s')
        hloose hloose'
    · intro h
      rw [h]
  · exact snapshot_eq_iff_trimEnd.2 (laws.trimEnd_eq_of_equalButEnd h)

/-- A store with one setting. -/
def holding (value : Text) : Store := .mapped (.ofList [("k".toList, value)])

theorem sortedEntries_holding (host : Host) (value : Text) :
    (holding value).sortedEntries host = [("k".toList, value)] :=
  List.mergeSort_singleton _

/-- A space at the end of a value makes the emitter quote it, and wider white space does not. -/
theorem snapshot_eq_iff_of_lawful_holding :
    let written (value : Text) : Text := (holding value).snapshot Yaml.document ⟨.empty, .empty⟩
    written "a\u3000 ".toList ≠ written "a".toList ∧
      written "a\u3000".toList = written "a\u2003".toList ∧
      written "a\u3000".toList ≠ written "b\u3000".toList := by
  intro written
  refine ⟨?quoted, ?plain, ?other⟩
  case quoted =>
    intro h
    have hentries := (snapshot_eq_iff_of_lawful Yaml.lawful_document _ _ _ _).1
      (by rw [sortedEntries_holding]; decide) (by rw [sortedEntries_holding]; decide) |>.1 h
    exact absurd ((hentries ("k".toList, "a\u3000 ".toList)).1 (by decide)) (by decide)
  case plain =>
    refine (snapshot_eq_iff_of_lawful Yaml.lawful_document _ _ _ _).2.1 ?_
    rw [sortedEntries_holding, sortedEntries_holding]
    exact ⟨[], _, _, _, rfl, rfl, by decide, by decide, by decide⟩
  case other =>
    intro h
    have hsame := (snapshot_eq_iff_of_lawful Yaml.lawful_document _ _ _ _).2.2
      (by rw [sortedEntries_holding]; decide) (by rw [sortedEntries_holding]; decide) h
    rw [sortedEntries_holding, sortedEntries_holding] at hsame
    rcases hsame with hsame | ⟨ds, key, value, value', hes, hfs, -, -, htrim⟩
    · exact absurd ((hsame ("k".toList, "a\u3000".toList)).1 (by decide)) (by decide)
    · have hes : [] ++ [("k".toList, "a\u3000".toList)] = ds ++ [(key, value)] := hes
      have hfs : [] ++ [("k".toList, "b\u3000".toList)] = ds ++ [(key, value')] := hfs
      obtain ⟨-, hlast⟩ := List.append_inj' hes rfl
      obtain ⟨-, hlast'⟩ := List.append_inj' hfs rfl
      cases hlast
      cases hlast'
      exact absurd htrim (by decide)

/-! ## The emitter that the program runs with -/

/-- Two snapshots are equal if and only if the stores show the same settings, or settings whose
last values differ in the white space at their ends only and have no quotes on the page. -/
theorem snapshot_document_eq_iff (host host' : Host) (s s' : Store) :
    s.snapshot Yaml.document host = s'.snapshot Yaml.document host' ↔
      (∀ e, e ∈ s.entries host ↔ e ∈ s'.entries host') ∨
        EqualButEnd (Yaml.styleOf · = .plain) (s.sortedEntries host) (s'.sortedEntries host') := by
  rw [snapshot_eq_iff_trimEnd, ← sortedEntries_eq_iff, ← Yaml.trimEnd_renderMapping_eq_iff,
    Yaml.trimEnd_document, Yaml.trimEnd_document]

/-- An ideographic space at the end of a value stands without quotes, and is trimmed. -/
theorem snapshot_ideographic_space :
    (holding "a\u3000".toList).snapshot Yaml.document ⟨.empty, .empty⟩ =
        (holding "a".toList).snapshot Yaml.document ⟨.empty, .empty⟩ ∧
      ("k".toList, "a\u3000".toList) ∈ (holding "a\u3000".toList).entries ⟨.empty, .empty⟩ ∧
      ("k".toList, "a\u3000".toList) ∉ (holding "a".toList).entries ⟨.empty, .empty⟩ := by
  refine ⟨?_, by decide, by decide⟩
  rw [snapshot_eq_append, snapshot_eq_append, sortedEntries_holding, sortedEntries_holding]
  decide +kernel

end Store

end LayeredSettings
