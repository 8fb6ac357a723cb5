import LayeredSettings.Loader
import LayeredSettings.Proofs.Document.Reading
import LayeredSettings.Proofs.Token.Lexing

/-!
# How loading ends

Loading gives a store, fails with an error of the configuration, or ends in one of the ways that
`Loader.Escapes` lists: a malformed URL, a path that the system does not look up, a breach of the
protocol by which a URL is fetched, an encoding that is none of texts, a torn text that is read up
to its tear, a value that is no source. `load_escapes_iff` says that these are all of them, and
`validate` hands them on.
-/

namespace LayeredSettings

/-! ## Torn texts -/

namespace Document

variable {ending : Lexeme.Ending} {e : Tear}

theorem ending_of_refuse {ls : List Lexeme} {reason : Reason}
    (h : refuse ending ls reason = .torn e) : ending = .torn e := by
  unfold refuse at h
  split at h
  · cases h
  · cases h
  · cases h
  · cases h
    rfl

theorem ending_of_moreWords {ls : List Lexeme} (h : moreWords ending ls = .error (.torn e)) :
    ending = .torn e := by
  fun_induction moreWords ending ls with
  | case1 => cases h
  | case2 => exact ending_of_refuse (Except.error.inj h)
  | case3 => cases h
  | case4 _ _ _ _ e' hr ih =>
    cases h
    exact ih hr
  | case5 => exact ending_of_refuse (Except.error.inj h)
  | case6 => cases h

theorem ending_of_statement {w : Text} {ls : List Lexeme}
    (h : statement ending w ls = .error (.torn e)) : ending = .torn e := by
  unfold statement at h
  split at h
  · unfold afterKey at h
    split at h
    · split at h
      · cases h
      · next hm =>
        cases h
        exact ending_of_moreWords hm
    · exact ending_of_refuse (Except.error.inj h)
    · cases h
    · exact ending_of_refuse (Except.error.inj h)
  · next hm =>
    cases h
    exact ending_of_moreWords hm

theorem ending_of_read {strict : Bool} {blocks : List Text} {d : Draft} {ls : List Lexeme}
    (h : read strict ending blocks d ls = .error (.torn e)) : ending = .torn e := by
  fun_induction read strict ending blocks d ls with
  | case1 => cases h
  | case2 => exact ending_of_refuse (Except.error.inj h)
  | case3 blocks d w p rest e' hs =>
    cases h
    exact ending_of_statement hs
  | case4 blocks d w p rest key value rest' hs e' ha =>
    cases h
    unfold Draft.assign at ha
    split at ha <;> cases ha
  | case5 _ _ _ _ _ _ _ _ _ _ _ ih => exact ih h
  | case6 _ _ _ _ _ _ _ _ ih => exact ih h
  | case7 => cases h
  | case8 _ _ _ _ _ ih => exact ih h
  | case9 => cases h

end Document

/-! ## Ways out -/

/-- An error of the configuration. -/
def Failure.IsConfig (f : Failure) : Prop := ∃ e, f = .config e

/-- The text that starts with `chars` is read as a document up to the tear behind them. -/
def ReadsToTear (strict : Bool) (chars : Text) (tear : Tear) : Prop :=
  Document.ofLexemes strict .empty (.ofLexer (some tear) (.ofText chars)) = .error (.torn tear)

/-- Where there is nothing in front of a tear, the tear is what is found first. -/
theorem readsToTear_nil (strict : Bool) (tear : Tear) : ReadsToTear strict [] tear := by
  have hlexemes : Lexemes.ofLexer (some tear) (.ofText []) = ⟨[], .torn tear⟩ := by
    rw [Lexemes.ofLexer.eq_def]
    rfl
  rw [ReadsToTear, Document.ofLexemes, hlexemes, Document.read.eq_def]
  rfl

/-- The bytes that a source gives, as they arrive. -/
inductive Source.Gives (w : World) (o : LoadOptions) : Source → Transfer → Prop
  | file {s : Source} {p : Path} {tr : Transfer} :
      Loader.pathOf? s = .ok (some p) → w.transfer p = .ok tr → Gives w o s tr
  | url {t : Text} {tr : Transfer} :
      Url.isUrl t = .ok true → w.fetch ⟨t, o.timeout⟩ = .ok tr → Gives w o (.address t) tr
  | stream {name : Option Text} {tr : Transfer} : Gives w o (.byteStream name tr) tr

/-- The ways in which loading ends without a store and without an error of the configuration. -/
inductive Loader.Escapes (w : World) (o : LoadOptions) : Source → Failure → Prop
  | malformed {t : Text} {fault : Url.Fault} :
      Url.isUrl t = .error fault → Escapes w o (.address t) (.malformedUrl fault)
  | unsearchable {s : Source} {p : Path} {cause : Files.Cause} :
      Loader.pathOf? s = .ok (some p) → p.hasNull = false →
      w.files.locate p = .error cause → cause.isAbsence = false →
      Escapes w o s (.files ⟨cause, p⟩)
  | unfetched {t : Text} {f : Transfer.Failure} :
      Url.isUrl t = .ok true → w.fetch ⟨t, o.timeout⟩ = .error f → f.kind = .other →
      Escapes w o (.address t) (.transfer f)
  | misfit {s : Source} {tr : Transfer} {fault : Encoding.Fault} :
      s.Gives w o tr → o.encoding.misfit? = some fault → Escapes w o s (.decoding fault)
  | torn {s : Source} {tr : Transfer} {chars : Text} {tear : Tear} :
      s.Gives w o tr → o.encoding.misfit? = none →
      o.encoding.read tr = ⟨chars, some tear⟩ → ReadsToTear o.strict chars tear →
      Escapes w o s tear.failure
  | unsupported {d : Datum} : Escapes w o (.other d) (.unsupportedSource d)

/-! ## Parsing what is open -/

theorem Tear.not_isConfig (tear : Tear) : ¬ tear.failure.IsConfig := by
  rintro ⟨e, he⟩
  cases tear <;> cases he

theorem Document.Fault.isConfig_inSource (source : Text) (fault : Document.Fault) :
    (fault.inSource source).IsConfig ∨
      ∃ tear, fault = .torn tear ∧ fault.inSource source = tear.failure := by
  cases fault with
  | lexical f => exact Or.inl ⟨_, rfl⟩
  | grammar p r => exact Or.inl ⟨_, rfl⟩
  | duplicate p k => exact Or.inl ⟨_, rfl⟩
  | torn tear => exact Or.inr ⟨tear, rfl, rfl⟩

namespace OpenSource

variable {s : OpenSource} {o : LoadOptions} {strict : Bool} {f : Failure} {name : Text}
  {tr : Transfer}

/-- What is not the configuration's fault is the tear of a text that is read that far. -/
theorem torn_of_parse (h : s.parse strict = .error f) (hf : ¬ f.IsConfig) :
    ∃ chars tear, s.content = ⟨chars, some tear⟩ ∧ ReadsToTear strict chars tear ∧
      f = tear.failure := by
  unfold parse at h
  cases hr : Document.ofLexemes strict .empty
      (.ofLexer s.content.tear (.ofText s.content.chars)) with
  | ok settings =>
    rw [hr] at h
    cases h
  | error fault =>
    rw [hr] at h
    cases h
    rcases fault.isConfig_inSource s.name with hconfig | ⟨tear, rfl, htear⟩
    · exact absurd hconfig hf
    · have hcontent : s.content.tear = some tear :=
        Lexemes.tear_of_ending (Document.ending_of_read hr)
      rw [hcontent] at hr
      exact ⟨s.content.chars, tear, by rw [← hcontent], hr, htear⟩

theorem parse_of_tear {chars : Text} {tear : Tear} (h : s.content = ⟨chars, some tear⟩)
    (ht : ReadsToTear strict chars tear) : s.parse strict = .error tear.failure := by
  unfold ReadsToTear at ht
  rw [parse, h, ht]
  rfl

/-- Bytes that are opened and parsed escape by way of the encoding or of a tear. -/
theorem escapes_ofTransfer_iff :
    (ofTransfer o name tr).bind (·.parse o.strict) = .error f ∧ ¬ f.IsConfig ↔
      (∃ fault, o.encoding.misfit? = some fault ∧ f = .decoding fault) ∨
        o.encoding.misfit? = none ∧ ∃ chars tear, o.encoding.read tr = ⟨chars, some tear⟩ ∧
          ReadsToTear o.strict chars tear ∧ f = tear.failure := by
  unfold ofTransfer
  cases o.encoding.misfit? with
  | some fault =>
    constructor
    · rintro ⟨h, -⟩
      cases h
      exact .inl ⟨fault, rfl, rfl⟩
    · rintro (⟨fault', hfault, rfl⟩ | ⟨hnone, -⟩)
      · cases hfault
        exact ⟨rfl, fun ⟨_, he⟩ => Failure.noConfusion he⟩
      · cases hnone
  | none =>
    constructor
    · rintro ⟨h, hf⟩
      exact .inr ⟨rfl, torn_of_parse h hf⟩
    · rintro (⟨fault, hfault, -⟩ | ⟨-, chars, tear, hread, ht, rfl⟩)
      · cases hfault
      · exact ⟨parse_of_tear hread ht, tear.not_isConfig⟩

end OpenSource

/-! ## Loading -/

namespace Loader

variable {w : World} {o : LoadOptions} {s : Source} {p : Path} {defaults : Option Store}
  {f : Failure} {tr : Transfer}

/-- What is done with the settings of a source does not fail. -/
theorem error_of_loaded :
    ((Store.load w o s).andThen fun store => .ok (store.withDefaults defaults)).result = .error f ↔
      (s.openSource w o).result.bind (·.parse o.strict) = .error f := by
  show ((((s.openSource w o).result.bind (·.parse o.strict)).bind _).bind _) = _ ↔ _
  cases (s.openSource w o).result.bind (·.parse o.strict) with
  | error e =>
    constructor
    · intro h
      cases h
      rfl
    · intro h
      cases h
      rfl
  | ok settings =>
    constructor
    · intro h
      cases h
    · intro h
      cases h

theorem openSource_of_path (hp : pathOf? s = .ok (some p)) :
    (s.openSource w o).result = Source.openFile w o p := by
  unfold pathOf? at hp
  split at hp
  · next t =>
    unfold Source.openSource
    split at hp
    · cases hp
    · cases hp
    · next hurl =>
      cases hp
      simp only [hurl]
  · cases hp
    rfl
  · cases hp

theorem openSource_of_gives (h : s.Gives w o tr) :
    ∃ name, (s.openSource w o).result = OpenSource.ofTransfer o name tr := by
  cases h with
  | file hp hread =>
    rw [openSource_of_path hp, Source.openFile, hread]
    exact ⟨_, rfl⟩
  | url hurl hfetch =>
    simp only [Source.openSource, hurl, Source.openUrl, hfetch]
    exact ⟨_, rfl⟩
  | stream => exact ⟨_, rfl⟩

theorem present_of_transfer (h : w.transfer p = .ok tr) : w.present p = .ok true := by
  unfold World.transfer at h
  unfold World.present
  split at h
  · cases h
  · next hnull =>
    rw [if_neg hnull]
    unfold Files.transfer at h
    unfold Files.present
    cases hfind : w.files.find? p with
    | error cause => rw [hfind] at h; cases h
    | ok node =>
      rw [hfind] at h
      cases node with
      | none => cases h
      | some n => rfl

theorem present_eq_error_iff :
    w.present p = .error f ↔ p.hasNull = false ∧ ∃ cause, w.files.locate p = .error cause ∧
      cause.isAbsence = false ∧ f = .files ⟨cause, p⟩ := by
  unfold World.present Files.present Files.find?
  by_cases hnull : p.hasNull = true
  · rw [if_pos hnull]
    simp [hnull]
  · rw [if_neg hnull]
    cases hloc : w.files.locate p with
    | ok place =>
      show Except.ok (w.files.node? place).isSome = Except.error f ↔ _
      simp
    | error cause =>
      show (if cause.isAbsence then Except.ok false
        else Except.error ⟨cause, p⟩ : Except Files.Failure Bool).mapError .files = .error f ↔ _
      cases habsence : cause.isAbsence with
      | true =>
        constructor
        · intro h
          cases h
        · rintro ⟨-, cause', hcause, hpresent, -⟩
          cases hcause
          rw [habsence] at hpresent
          cases hpresent
      | false =>
        constructor
        · intro h
          cases h
          exact ⟨by simpa using hnull, cause, rfl, habsence, rfl⟩
        · rintro ⟨-, cause', hcause, -, rfl⟩
          cases hcause
          rfl

/-- Opening a file that exists fails with an error of the configuration, if its bytes cannot be
had. -/
theorem openFile_of_present (h : w.present p = .ok true) :
    (∃ tr, w.transfer p = .ok tr) ∨ ∃ e, Source.openFile w o p = .error (.config e) := by
  unfold World.present at h
  unfold Source.openFile World.transfer
  split at h
  · cases h
  · next hnull =>
    rw [if_neg hnull]
    cases w.files.transfer p with
    | ok tr => exact Or.inl ⟨tr, rfl⟩
    | error failure => exact Or.inr ⟨_, rfl⟩

/-- Loading what gives bytes goes on to open and parse them. -/
theorem load_of_gives (defaults : Option Store) (f : Failure) (h : s.Gives w o tr) :
    ∃ name, (load w o s defaults).result = .error f ↔
      (OpenSource.ofTransfer o name tr).bind (·.parse o.strict) = .error f := by
  obtain ⟨name, hopen⟩ := openSource_of_gives h
  refine ⟨name, ?_⟩
  have hloaded : (load w o s defaults).result =
      ((Store.load w o s).andThen fun store => .ok (store.withDefaults defaults)).result := by
    unfold load
    cases h with
    | file hp hread => simp only [hp, present_of_transfer hread]
    | url hurl _ => simp only [pathOf?, hurl]
    | stream => rfl
  rw [hloaded, error_of_loaded, hopen]

/-- What escapes from parsing the bytes of a source escapes from loading it. -/
theorem escapes_of_gives (h : s.Gives w o tr) (hf : ¬ f.IsConfig)
    (herror : (load w o s defaults).result = .error f) : Escapes w o s f := by
  obtain ⟨name, hload⟩ := load_of_gives defaults f h
  rcases OpenSource.escapes_ofTransfer_iff.1 ⟨hload.1 herror, hf⟩ with
    ⟨fault, hfault, rfl⟩ | ⟨hnone, chars, tear, hread, ht, rfl⟩
  · exact .misfit h hfault
  · exact .torn h hnone hread ht

/-- What escapes from loading a file: the file cannot be looked up, or its bytes do not parse. -/
theorem escapes_of_path (hp : pathOf? s = .ok (some p))
    (herror : (load w o s defaults).result = .error f) (hf : ¬ f.IsConfig) :
    Escapes w o s f := by
  have hstages := herror
  unfold load at hstages
  simp only [hp] at hstages
  cases hpresent : w.present p with
  | error g =>
    simp only [hpresent] at hstages
    cases hstages
    obtain ⟨hnull, cause, hloc, habsence, rfl⟩ := present_eq_error_iff.1 hpresent
    exact .unsearchable hp hnull hloc habsence
  | ok there =>
    simp only [hpresent] at hstages
    cases there with
    | false =>
      cases hstages
      exact absurd ⟨_, rfl⟩ hf
    | true =>
      rcases openFile_of_present (o := o) hpresent with ⟨tr, hread⟩ | ⟨e, hopen⟩
      · exact escapes_of_gives (.file hp hread) hf herror
      · have hconfig := error_of_loaded.1 hstages
        rw [openSource_of_path hp, hopen] at hconfig
        cases hconfig
        exact absurd ⟨e, rfl⟩ hf

/-- What escapes from loading a URL: it is not fetched for a reason that is not foreseen, or its
bytes do not parse. -/
theorem escapes_of_url {t : Text} (hurl : Url.isUrl t = .ok true)
    (herror : (load w o (.address t) defaults).result = .error f) (hf : ¬ f.IsConfig) :
    Escapes w o (.address t) f := by
  cases hfetch : w.fetch ⟨t, o.timeout⟩ with
  | ok tr => exact escapes_of_gives (.url hurl hfetch) hf herror
  | error failure =>
    simp only [load, pathOf?, hurl] at herror
    have hopen := error_of_loaded.1 herror
    simp only [Source.openSource, hurl, Source.openUrl, hfetch] at hopen
    by_cases hkind : failure.kind = .other
    · rw [if_pos hkind] at hopen
      cases hopen
      exact .unfetched hurl hfetch hkind
    · rw [if_neg hkind] at hopen
      cases hopen
      exact absurd ⟨_, rfl⟩ hf

theorem escapes_of_load (herror : (load w o s defaults).result = .error f) (hf : ¬ f.IsConfig) :
    Escapes w o s f := by
  cases s with
  | address t =>
    cases hurl : Url.isUrl t with
    | error fault =>
      simp only [load, pathOf?, hurl] at herror
      cases herror
      exact .malformed hurl
    | ok isUrl =>
      cases isUrl with
      | false =>
        have hp : pathOf? (.address t) = .ok (some (.ofText t)) := by simp only [pathOf?, hurl]
        exact escapes_of_path hp herror hf
      | true => exact escapes_of_url hurl herror hf
  | path p => exact escapes_of_path rfl herror hf
  | textStream name text =>
    have hparse : OpenSource.parse ⟨name.getD Source.unnamed, ⟨text, none⟩⟩ o.strict =
        .error f := error_of_loaded.1 herror
    obtain ⟨chars, tear, hcontent, -⟩ := OpenSource.torn_of_parse hparse hf
    cases hcontent
  | byteStream name tr => exact escapes_of_gives .stream hf herror
  | other d =>
    cases error_of_loaded.1 herror
    exact .unsupported

theorem load_of_escapes (h : Escapes w o s f) :
    (load w o s defaults).result = .error f ∧ ¬ f.IsConfig := by
  cases h with
  | malformed hurl =>
    refine ⟨?_, fun ⟨_, he⟩ => Failure.noConfusion he⟩
    simp only [load, pathOf?, hurl]
  | unsearchable hp hnull hloc habsence =>
    refine ⟨?_, fun ⟨_, he⟩ => Failure.noConfusion he⟩
    simp only [load, hp, present_eq_error_iff.2 ⟨hnull, _, hloc, habsence, rfl⟩]
  | unfetched hurl hfetch hkind =>
    refine ⟨?_, fun ⟨_, he⟩ => Failure.noConfusion he⟩
    simp only [load, pathOf?, hurl]
    rw [error_of_loaded]
    simp only [Source.openSource, hurl, Source.openUrl, hfetch]
    rw [if_pos hkind]
    rfl
  | misfit hgives hfault =>
    obtain ⟨name, hload⟩ := load_of_gives defaults _ hgives
    obtain ⟨hparse, hf⟩ := OpenSource.escapes_ofTransfer_iff.2 (.inl ⟨_, hfault, rfl⟩)
    exact ⟨hload.2 hparse, hf⟩
  | torn hgives hnone hread ht =>
    obtain ⟨name, hload⟩ := load_of_gives defaults _ hgives
    obtain ⟨hparse, hf⟩ :=
      OpenSource.escapes_ofTransfer_iff.2 (.inr ⟨hnone, _, _, hread, ht, rfl⟩)
    exact ⟨hload.2 hparse, hf⟩
  | unsupported => exact ⟨rfl, fun ⟨_, he⟩ => Failure.noConfusion he⟩

/-- Loading ends in a failure that is no error of the configuration exactly in the ways listed. -/
theorem load_escapes_iff :
    (load w o s defaults).result = .error f ∧ ¬ f.IsConfig ↔ Escapes w o s f :=
  ⟨fun h => escapes_of_load h.1 h.2, load_of_escapes⟩

/-! ## Validating -/

theorem validate_eq_ok_iff {errors : List String} :
    validate w o p = .ok errors ↔
      (∃ store, (load w o (.path p) none).result = .ok store) ∧ errors = [] ∨
        ∃ e, (load w o (.path p) none).result = .error (.config e) ∧ errors = [e.message] := by
  unfold validate
  cases (load w o (.path p) none).result with
  | ok store => simp [eq_comm]
  | error g => cases g <;> simp [eq_comm]

theorem validate_eq_error_iff :
    validate w o p = .error f ↔
      (load w o (.path p) none).result = .error f ∧ ¬ f.IsConfig := by
  unfold validate
  cases (load w o (.path p) none).result with
  | ok store =>
    constructor
    · intro h
      cases h
    · rintro ⟨h, -⟩
      cases h
  | error g =>
    cases g with
    | config e =>
      constructor
      · intro h
        cases h
      · rintro ⟨h, hf⟩
        exact absurd ⟨e, (Except.error.inj h).symm⟩ hf
    | _ =>
      constructor
      · intro h
        cases h
        exact ⟨rfl, fun ⟨_, he⟩ => Failure.noConfusion he⟩
      · rintro ⟨h, -⟩
        cases h
        rfl

/-- Unless one of the ways out is taken, loading gives a store or an error of the configuration,
and validating a file gives nothing or the wording of that error. -/
theorem load_and_validate (w : World) (o : LoadOptions) :
    (∀ s defaults f,
        (load w o s defaults).result = .error f ∧ ¬ f.IsConfig ↔ Escapes w o s f) ∧
      (∀ p errors, validate w o p = .ok errors ↔
        (∃ store, (load w o (.path p) none).result = .ok store) ∧ errors = [] ∨
          ∃ e, (load w o (.path p) none).result = .error (.config e) ∧ errors = [e.message]) ∧
      ∀ p f, validate w o p = .error f ↔ Escapes w o (.path p) f := by
  refine ⟨fun _ _ _ => load_escapes_iff, fun _ _ => validate_eq_ok_iff, fun p f => ?_⟩
  rw [validate_eq_error_iff, load_escapes_iff]

/-- A world with one file `a.conf`, whose only byte starts no character. -/
def undecodableWorld : World where
  files := ⟨[(["a.conf".toList], .file [0xff])], []⟩
  host := ⟨.empty, .empty⟩
  fetch := fun _ => .error ⟨.system, []⟩

private theorem read_undecodable :
    Encoding.utf8.read (.ofBytes [0xff]) =
      ⟨[], some (.undecodable (.undecodable .utf8 0xff 0 1 .invalidStart))⟩ := by
  have hportions : Transfer.portionsOf [0xff] = [[0xff]] :=
    Transfer.portionsOf_of_length_le (by decide) (by decide)
  have hfeed : Decoder.feed ⟨.utf8, []⟩ [0xff] =
      .error (.undecodable .utf8 0xff 0 1 .invalidStart) := by
    show (Encoding.Utf8.decodeFrom 0 [0xff]).map _ = _
    rw [Encoding.Utf8.decodeFrom.eq_def]
    rfl
  have hcontent : Decoder.read none ⟨.utf8, []⟩ (Transfer.ofBytes [0xff]).portions =
      ⟨[], some (.undecodable (.undecodable .utf8 0xff 0 1 .invalidStart))⟩ := by
    show Decoder.read none ⟨.utf8, []⟩ (Transfer.portionsOf [0xff]) = _
    rw [hportions]
    simp only [Decoder.read, hfeed]
  rw [Encoding.read, show (Transfer.ofBytes [0xff]).failure = none from rfl, hcontent]
  rfl

/-- The file of one byte can neither be loaded nor validated, and what is wrong is no error of the
configuration. -/
theorem load_undecodable :
    (load undecodableWorld {} (.path ⟨.working, ["a.conf".toList]⟩) none).result =
        .error (.decoding (.undecodable .utf8 0xff 0 1 .invalidStart)) ∧
      (∀ e, Failure.decoding (.undecodable .utf8 0xff 0 1 .invalidStart) ≠ .config e) ∧
      ∀ errors, validate undecodableWorld {} ⟨.working, ["a.conf".toList]⟩ ≠ .ok errors := by
  have hescapes : Escapes undecodableWorld {} (.path ⟨.working, ["a.conf".toList]⟩)
      (Tear.undecodable (.undecodable .utf8 0xff 0 1 .invalidStart)).failure :=
    .torn (.file rfl rfl) rfl read_undecodable (readsToTear_nil false _)
  obtain ⟨hload, -⟩ := @load_of_escapes _ _ _ none _ hescapes
  refine ⟨hload, fun e h => Failure.noConfusion h, fun errors h => ?_⟩
  rw [validate, hload] at h
  cases h

end Loader

end LayeredSettings
