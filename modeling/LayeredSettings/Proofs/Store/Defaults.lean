import LayeredSettings.Proofs.Document.Strictness
import LayeredSettings.Proofs.Store.Composition

/-!
# Defaults in front and defaults beneath

Defaults may be given to the parser, which sets what a document assigns on top of them, or a store
may be layered over them. Whether a document is at fault does not depend on the defaults, and if it
is not, it assigns the same whatever they are (`ofLexemes_defaults`). Both ways therefore fail alike
or answer alike (`loadText_defaults`).
-/

namespace LayeredSettings

/-! ## Documents over defaults -/

namespace Document

/-- A draft refuses assignments because of what was assigned, not because of what is set. -/
theorem Draft.assignAll_defaults (strict : Bool) (assigned : List Text)
    (made : List Assignment) :
    (∃ f, ∀ settings, assignAll strict ⟨settings, assigned⟩ made = .error f) ∨
      ∀ settings, assignAll strict ⟨settings, assigned⟩ made =
        .ok (extend ⟨settings, assigned⟩ (made.map Assignment.entry)) := by
  induction made generalizing assigned with
  | nil => exact .inr fun settings => rfl
  | cons a made ih =>
    by_cases hdup : (strict && assigned.contains a.key) = true
    · refine .inl ⟨.duplicate a.start a.key, fun settings => ?_⟩
      rw [assignAll, assign, if_pos hdup]
    · have hassign : ∀ settings, assignAll strict ⟨settings, assigned⟩ (a :: made) =
          assignAll strict ⟨settings.insert a.key a.value, a.key :: assigned⟩ made := by
        intro settings
        rw [assignAll, assign, if_neg hdup]
      rcases ih (a.key :: assigned) with ⟨f, hf⟩ | hok
      · exact .inl ⟨f, fun settings => (hassign settings).trans (hf _)⟩
      · refine .inr fun settings => ?_
        rw [hassign, hok]
        exact congrArg Except.ok (extend_append ⟨settings, assigned⟩ [a.entry] _).symm

/-- A document is at fault whatever the defaults are, or it sets the same entries on top of them,
whatever they are. -/
theorem ofLexemes_defaults (strict : Bool) (ls : Lexemes) :
    (∃ f, ∀ defaults, ofLexemes strict defaults ls = .error f) ∨
      ∃ es, ∀ defaults, ofLexemes strict defaults ls = .ok (defaults.insertAll es) := by
  obtain ⟨made, blocks, rest, hsteps, hstuck⟩ := exists_assigns ls
  unfold ofLexemes
  rcases Draft.assignAll_defaults strict [] made with ⟨f, hf⟩ | hok
  · refine .inl ⟨f, fun defaults => ?_⟩
    rw [read_steps hsteps, hf]
  · rcases read_stuck hstuck with ⟨-, -, -, hend⟩ | ⟨f, hend⟩
    · refine .inr ⟨made.map Assignment.entry, fun defaults => ?_⟩
      rw [read_steps hsteps, hok]
      exact hend strict _
    · refine .inl ⟨f, fun defaults => ?_⟩
      rw [read_steps hsteps, hok]
      exact hend strict _

end Document

theorem parseText_defaults (text source : Text) (strict : Bool) :
    (∃ f, ∀ defaults, parseText text source defaults strict = .error f) ∨
      ∃ es, ∀ defaults, parseText text source defaults strict =
        .ok (defaults.insertAll es) := by
  unfold parseText Document.ofText
  rcases Document.ofLexemes_defaults strict (.ofText text) with ⟨f, hf⟩ | ⟨es, hes⟩
  · exact .inl ⟨f.inSource source, fun defaults => by rw [hf]; rfl⟩
  · exact .inr ⟨es, fun defaults => by rw [hes]; rfl⟩

namespace Store

/-! ## Stores of mappings -/

/-- Entries as pairs of no fixed type. -/
def pairsOf (es : List Entry) : List (Datum × Datum) := es.map fun e => (.text e.1, .text e.2)

theorem putDatum_pairsOf (key value : Text) (es : List Entry) :
    putDatum (.text key) (.text value) (pairsOf es) = pairsOf (Settings.put key value es) := by
  induction es with
  | nil => rfl
  | cons e rest ih =>
    show putDatum _ _ ((.text e.1, .text e.2) :: pairsOf rest) = _
    rw [putDatum, Settings.put, ih]
    by_cases h : e.1 = key
    · rw [if_pos h, if_pos (by simp [Datum.sameKey, h]), h]
      rfl
    · rw [if_neg h, if_neg (by simp [Datum.sameKey, h])]
      rfl

theorem textual_pairsOf (es : List Entry) : textual (pairsOf es) = .ok es := by
  induction es with
  | nil => rfl
  | cons e rest ih =>
    show textual ((.text e.1, .text e.2) :: pairsOf rest) = _
    rw [textual, ih]
    rfl

theorem mappingOf_pairsOf (es : List Entry) :
    mappingOf (pairsOf es) = .ok (pairsOf (Settings.ofList es).entries) := by
  suffices h : ∀ s : Settings, (pairsOf es).foldlM (fun m p =>
      if p.1.isUsableKey then .ok (putDatum p.1 p.2 m) else .error (.unusableKey p.1))
      (pairsOf s.entries) = (.ok (pairsOf (s.insertAll es).entries) : Except Failure _) from
    h .empty
  induction es with
  | nil => exact fun s => rfl
  | cons e rest ih =>
    intro s
    rw [Settings.insertAll_cons, ← ih (s.insert e.1 e.2)]
    show (pairsOf rest).foldlM _ (putDatum (.text e.1) (.text e.2) (pairsOf s.entries)) = _
    rw [putDatum_pairsOf]
    rfl

/-- The store of a mapping from texts to texts holds the mapping. -/
theorem ofPairs_pairsOf (settings : Settings) :
    ofPairs (pairsOf settings.entries) = .ok (.mapped settings) := by
  have hlist : Settings.ofList settings.entries = settings :=
    Settings.ext (Settings.entries_insertAll settings.distinct fun _ _ => List.not_mem_nil)
  unfold ofPairs
  rw [mappingOf_pairsOf, hlist]
  show (textual (pairsOf settings.entries) >>= _) = _
  rw [textual_pairsOf]
  exact congrArg (fun s => Except.ok (mapped s)) hlist

/-! ## Both ways -/

theorem query_mapped_insertAll (host : Host) (defaults : Settings) (es : List Entry) (key : Text) :
    (mapped (defaults.insertAll es)).query host key =
      ((mapped (Settings.empty.insertAll es)).compose (mapped defaults)).query host key := by
  rw [query_compose]
  show (defaults.insertAll es).get? key =
    ((Settings.empty.insertAll es).get? key).or (defaults.get? key)
  rw [Settings.get?_insertAll, Settings.get?_insertAll, Settings.get?_empty, Option.or_none]

/-- Parsing a text on top of defaults and layering what it says over a store of the defaults fail
with the same failure, or both succeed and the two stores answer every query alike. -/
theorem loadText_defaults (text source : Text) (strict : Bool) (defaults : Settings) :
    (∀ settings : Settings, ofPairs (pairsOf settings.entries) = .ok (.mapped settings)) ∧
    ((∃ f, parseText text source defaults strict = .error f ∧
        Loader.loadText (({} : LoadOptions).strictly strict) text source
          (some (.mapped defaults)) = .error f) ∨
      ∃ settings store, parseText text source defaults strict = .ok settings ∧
        Loader.loadText (({} : LoadOptions).strictly strict) text source
          (some (.mapped defaults)) = .ok store ∧
        ∀ host key, (mapped settings).query host key = store.query host key) := by
  refine ⟨ofPairs_pairsOf, ?_⟩
  have hstrict : (({} : LoadOptions).strictly strict).strict = strict := Bool.or_false strict
  unfold Loader.loadText ofText
  rw [hstrict]
  rcases parseText_defaults text source strict with ⟨f, hf⟩ | ⟨es, hes⟩
  · refine .inl ⟨f, hf defaults, ?_⟩
    rw [hf]
    rfl
  · refine .inr ⟨_, _, hes defaults, ?_, fun host => query_mapped_insertAll host defaults es⟩
    rw [hes]
    rfl

end Store

end LayeredSettings
