import LayeredSettings.Proofs.Encoding
import LayeredSettings.Proofs.Files
import LayeredSettings.Proofs.Loading

/-!
# Texts in sources

A text in UTF-8 is read from a file, a URL or a stream of bytes as it is read from memory, once its
line ends are line feeds; a text stream is read as it stands. `Source.Reads` says what a source
gives to each operation that reads sources, and `Source.reads_text` that it is what parsing the
text gives, with the name of the source in the locations.
-/

namespace LayeredSettings

/-! ## Line ends -/

namespace Text

/-- A text without the carriage returns that stand in front of a line feed. -/
def joinReturns : Text → Text
  | [] => []
  | '\r' :: '\n' :: rest => '\n' :: joinReturns rest
  | c :: rest => c :: joinReturns rest

/-- A text with each `\r\n`, and then each `\r` that is left, replaced by a line feed. -/
def lineFeeds (t : Text) : Text := (joinReturns t).map fun c => if c = '\r' then '\n' else c

theorem joinReturns_return {rest : Text} (h : ∀ more, rest ≠ '\n' :: more) :
    joinReturns ('\r' :: rest) = '\r' :: joinReturns rest := by
  rw [joinReturns]
  exact fun more _ he => h more he

theorem joinReturns_other {c : Char} (h : c ≠ '\r') (rest : Text) :
    joinReturns (c :: rest) = c :: joinReturns rest := by
  rw [joinReturns]
  exact fun _ hc _ => h hc

/-- What decoding does to line ends is what the two replacements do. -/
theorem unifyLines_eq_lineFeeds (t : Text) : unifyLines false t = lineFeeds t := by
  unfold lineFeeds
  fun_induction unifyLines false t with
  | case1 => rfl
  | case2 h => cases h
  | case3 => rfl
  | case4 rest ih =>
    rw [joinReturns, List.map_cons, ← ih]
    rfl
  | case5 rest hnil hfeed ih =>
    rw [joinReturns_return (fun more he => hfeed more he), List.map_cons, ← ih]
    rfl
  | case6 c rest hnil hfeed hreturn ih =>
    rw [joinReturns_other hreturn, List.map_cons, if_neg hreturn, ← ih]

theorem lineFeeds_of_notMem {t : Text} (h : '\r' ∉ t) : lineFeeds t = t := by
  unfold lineFeeds
  induction t with
  | nil => rfl
  | cons c rest ih =>
    rw [List.mem_cons, not_or] at h
    rw [joinReturns_other (Ne.symm h.1), List.map_cons, if_neg (Ne.symm h.1), ih h.2]

end Text

/-! ## Names of sources -/

/-- An error with another source in its location. -/
def ConfigError.inSource (source : Text) : ConfigError → ConfigError
  | lexical l reason => .lexical { l with source } reason
  | grammar l reason => .grammar { l with source } reason
  | duplicate l key => .duplicate { l with source } key
  | load e => .load e
  | expansion e => .expansion e

def Failure.inSource (source : Text) : Failure → Failure
  | config e => .config (e.inSource source)
  | f => f

theorem Document.Fault.inSource_inSource (source other : Text) (fault : Document.Fault) :
    (fault.inSource source).inSource other = fault.inSource other := by
  cases fault with
  | torn tear => cases tear <;> rfl
  | _ => rfl

/-- The name of a source changes nothing but the locations. -/
theorem parseText_inSource (t source other : Text) (defaults : Settings) (strict : Bool) :
    (parseText t source defaults strict).mapError (·.inSource other) =
      parseText t other defaults strict := by
  unfold parseText
  cases Document.ofText strict defaults t with
  | ok settings => rfl
  | error fault =>
    exact congrArg Except.error (fault.inSource_inSource source other)

/-! ## What sources give -/

/-- Whatever reads the source ends in `outcome`: parsing it, making a store of it, and loading it
over defaults or none. -/
structure Source.Reads (w : World) (o : LoadOptions) (s : Source)
    (outcome : Except Failure Settings) : Prop where
  parse : (parseSource w o s).result = outcome
  store : (Store.load w o s).result = outcome.map .mapped
  load : ∀ defaults, (Loader.load w o s defaults).result =
    outcome.map fun settings => (Store.mapped settings).withDefaults defaults

namespace Source

variable {w : World} {o : LoadOptions} {s : Source}

/-- A source, if it is there in case it is a file, gives what opening it and parsing its content
gives. -/
theorem reads_of_open {opened : Except Failure OpenSource}
    (hopen : (s.openSource w o).result = opened)
    (hpath : Loader.pathOf? s = .ok none ∨
      ∃ p, Loader.pathOf? s = .ok (some p) ∧ w.present p = .ok true) :
    s.Reads w o (opened.bind (·.parse o.strict)) := by
  have hparse : (parseSource w o s).result = opened.bind (·.parse o.strict) := by
    show (s.openSource w o).result.bind _ = _
    rw [hopen]
  have hstore : (Store.load w o s).result = (opened.bind (·.parse o.strict)).map .mapped := by
    show (parseSource w o s).result.bind _ = _
    rw [hparse]
    cases opened.bind (·.parse o.strict) <;> rfl
  refine ⟨hparse, hstore, fun defaults => ?_⟩
  have hloaded : (Loader.load w o s defaults).result =
      (Store.load w o s).result.bind fun store => .ok (store.withDefaults defaults) := by
    rcases hpath with hpath | ⟨p, hpath, hpresent⟩
    · simp only [Loader.load, hpath]
      rfl
    · simp only [Loader.load, hpath, hpresent]
      rfl
  rw [hloaded, hstore]
  cases opened.bind (·.parse o.strict) <;> rfl

theorem reads_file {p : Path} {tr : Transfer} (hp : Loader.pathOf? s = .ok (some p))
    (htr : w.transfer p = .ok tr) :
    s.Reads w o ((OpenSource.ofTransfer o p.render tr).bind (·.parse o.strict)) := by
  refine reads_of_open ?_ (.inr ⟨p, hp, Loader.present_of_transfer htr⟩)
  rw [Loader.openSource_of_path hp, openFile, htr]

end Source

/-! ## Texts in UTF-8 -/

/-- However the bytes of a text are parted when they arrive, they are opened and parsed as the text
is. -/
theorem OpenSource.parse_ofTransfer {o : LoadOptions} {tr : Transfer} {t : Text}
    (ho : o.encoding = .utf8) (htr : tr.whole = .ok (Encoding.Utf8.encode t)) (name : Text) :
    (ofTransfer o name tr).bind (·.parse o.strict) =
      parseText t.lineFeeds name .empty o.strict := by
  unfold ofTransfer
  rw [ho, Encoding.read_encode htr, Text.unifyLines_eq_lineFeeds]
  rfl

namespace Source

/-- A text in UTF-8, be it in a stream of bytes, in a file or behind a URL, is read as the text with
unified line ends is parsed, in whatever portions its bytes arrive, and a text stream as its own
text is. What is read goes by the name of its source, which shows in the locations of errors and
nowhere else. -/
theorem reads_text (w : World) (o : LoadOptions) (t : Text) (ho : o.encoding = .utf8) :
    (∀ name tr, tr.whole = .ok (Encoding.Utf8.encode t) → (byteStream name tr).Reads w o
      (parseText t.lineFeeds (name.getD unnamed) .empty o.strict)) ∧
    (∀ p, w.read p = .ok (Encoding.Utf8.encode t) →
      parseFile w o p = parseText t.lineFeeds p.render .empty o.strict ∧
      ∀ s, Loader.pathOf? s = .ok (some p) →
        s.Reads w o (parseText t.lineFeeds p.render .empty o.strict)) ∧
    (∀ url tr, w.fetch ⟨url, o.timeout⟩ = .ok tr → tr.whole = .ok (Encoding.Utf8.encode t) →
      (parseUrl w o url).result = parseText t.lineFeeds url .empty o.strict ∧
      (Url.isUrl url = .ok true →
        (address url).Reads w o (parseText t.lineFeeds url .empty o.strict))) ∧
    (∀ name, (textStream name t).Reads w o
      (parseText t (name.getD unnamed) .empty o.strict)) ∧
    ∀ u name other, (parseText u name .empty o.strict).mapError (·.inSource other) =
      parseText u other .empty o.strict := by
  refine ⟨?bytes, ?file, ?url, ?text, ?names⟩
  case bytes =>
    intro name tr htr
    rw [← OpenSource.parse_ofTransfer ho htr]
    exact reads_of_open rfl (.inl rfl)
  case file =>
    intro p hread
    obtain ⟨tr, htr, hwhole⟩ := World.read_eq_ok_iff.1 hread
    rw [← OpenSource.parse_ofTransfer ho hwhole]
    refine ⟨?_, fun s hp => reads_file hp htr⟩
    unfold parseFile openFile
    rw [htr]
  case url =>
    intro url tr hfetch htr
    rw [← OpenSource.parse_ofTransfer ho htr]
    refine ⟨?_, fun hurl => ?_⟩
    · show (openUrl w o url).result.bind _ = _
      simp only [openUrl, hfetch]
    · refine reads_of_open ?_ (.inl ?_)
      · simp only [openSource, hurl, openUrl, hfetch]
      · simp only [Loader.pathOf?, hurl]
  case text =>
    intro name
    have hopen : ((textStream name t).openSource w o).result =
        .ok ⟨name.getD unnamed, ⟨t, none⟩⟩ := rfl
    exact reads_of_open hopen (.inl rfl)
  case names =>
    intro u name other
    exact parseText_inSource u name other .empty o.strict

/-- A literal that goes over a line, and a sign that starts no token on the line behind it, all
lines ending as they may. -/
def mixedLines : Text := "\"a\r\nb\"\r!".toList

/-- A world that holds a text in one file and behind every URL. -/
def worldOf (t : Text) : World where
  files := ⟨[(["a.conf".toList], .file (Encoding.Utf8.encode t))], []⟩
  host := ⟨.empty, .empty⟩
  fetch := fun _ => .ok (.ofBytes (Encoding.Utf8.encode t))

private theorem parseText_mixedLines (source : Text) :
    parseText mixedLines.lineFeeds source .empty false =
      .error (.config (.lexical ⟨source, ⟨6, 3⟩⟩ (.unexpectedCharacter '!'))) := by
  have hls : Lexemes.ofText mixedLines.lineFeeds =
      ⟨[⟨.word "a\nb".toList, ⟨0, 1⟩⟩], .fault ⟨.unexpectedCharacter '!', ⟨6, 3⟩⟩⟩ := by
    decide +kernel
  unfold parseText Document.ofText Document.ofLexemes
  rw [hls, Document.read]
  rfl

/-- The sign is found at the same place in a file and behind a URL. -/
theorem reads_text_mixedLines :
    (address "a.conf".toList).Reads (worldOf mixedLines) {}
        (.error (.config (.lexical ⟨"a.conf".toList, ⟨6, 3⟩⟩ (.unexpectedCharacter '!')))) ∧
      (address "http://h/a".toList).Reads (worldOf mixedLines) {}
        (.error (.config (.lexical ⟨"http://h/a".toList, ⟨6, 3⟩⟩ (.unexpectedCharacter '!')))) := by
  obtain ⟨-, hfile, hurl, -⟩ := reads_text (worldOf mixedLines) {} mixedLines rfl
  rw [← parseText_mixedLines "a.conf".toList, ← parseText_mixedLines "http://h/a".toList]
  have hread : (worldOf mixedLines).read (.ofText "a.conf".toList) =
      .ok (Encoding.Utf8.encode mixedLines) :=
    World.read_eq_ok_iff.2 ⟨_, rfl, Transfer.whole_ofBytes _⟩
  refine ⟨?_, ?_⟩
  · exact (hfile (.ofText "a.conf".toList) hread).2 _ rfl
  · exact (hurl "http://h/a".toList _ rfl (Transfer.whole_ofBytes _)).2 rfl

end Source

end LayeredSettings
