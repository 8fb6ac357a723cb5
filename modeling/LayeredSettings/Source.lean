import LayeredSettings.Encoding.Decoding
import LayeredSettings.Options.Basic
import LayeredSettings.Store.Construction

/-!
# Sources

Settings are read from files, from URLs and from streams that are open already. What a world holds
decides how the reading of a source ends.
-/

namespace LayeredSettings

/-- A URL that is asked for, and how long to wait for it. -/
structure Fetch where
  url : Text
  timeout : Float

/-- What programs see of the world: files, the host, and what URLs give, which are bytes or the
reason why there are none. -/
structure World where
  files : Files
  host : Host
  fetch : Fetch → Except Transfer.Failure Transfer

inductive Source where
  /-- A URL, or the path of a file. -/
  | address (t : Text)
  | path (p : Path)
  | textStream (name : Option Text) (text : Text)
  | byteStream (name : Option Text) (bytes : Transfer)
  /-- A value that is no source. -/
  | other (d : Datum)

/-- How an operation ended, and the URLs it asked for. -/
structure Attempt (α : Type) where
  fetched : List Fetch := []
  result : Except Failure α

/-- An attempt whose result is used further. -/
def Attempt.andThen {α β : Type} (a : Attempt α) (f : α → Except Failure β) : Attempt β :=
  { a with result := a.result.bind f }

/-- An open source: what diagnostics call it, and its text as far as it can be read. -/
structure OpenSource where
  name : Text
  content : Content

/-- Bytes as an open source. Only an encoding of texts can open them. -/
def OpenSource.ofTransfer (o : LoadOptions) (name : Text) (tr : Transfer) :
    Except Failure OpenSource :=
  match o.encoding.misfit? with
  | some fault => .error (.decoding fault)
  | none => .ok ⟨name, o.encoding.read tr⟩

def Path.hasNull (p : Path) : Bool := p.names.any (·.contains '\x00')

namespace World

def transfer (w : World) (p : Path) : Except Failure Transfer :=
  if p.hasNull then .error .nullInPath else (w.files.transfer p).mapError .files

/-- All bytes of a file. -/
def read (w : World) (p : Path) : Except Failure (List UInt8) := do
  (← w.transfer p).whole.mapError .transfer

/-- The text of a file that is written in UTF-8, line ends as they are. -/
def readText (w : World) (p : Path) : Except Failure Text := do
  (Encoding.Utf8.decodeWhole (← w.read p)).mapError .decoding

/-- Whether a path leads to something; no path with a null character does. -/
def present (w : World) (p : Path) : Except Failure Bool :=
  if p.hasNull then .ok false else (w.files.present p).mapError .files

/-- Makes a directory and those it lies in, as far as they do not exist. -/
def makeDirectories (w : World) (p : Path) : Files × Except Failure Unit :=
  if p.hasNull then (w.files, .error .nullInPath)
  else
    let (files, made) := w.files.makeDirectories p.anchor p.names.reverse
    (files, made.mapError .files)

/-- Writes a file, making the directories it lies in. What was made before a failure stays. -/
def write (w : World) (p : Path) (bytes : List UInt8) : Files × Except Failure Unit :=
  match w.makeDirectories { p with names := p.names.dropLast } with
  | (files, .error f) => (files, .error f)
  | (files, .ok ()) =>
    if p.hasNull then (files, .error .nullInPath)
    else
      match files.write p bytes with
      | .ok files' => (files', .ok ())
      | .error f => (files, .error (.files f))

end World

namespace Source

/-- What a stream without a name is called. -/
def unnamed : Text := "<stream>".toList

def openFile (w : World) (o : LoadOptions) (p : Path) : Except Failure OpenSource :=
  match w.transfer p with
  | .ok tr => OpenSource.ofTransfer o p.render tr
  | .error (.files f) => .error (.config (.load (.unreadable p f)))
  | .error f => .error f

/-- Opens what a URL gives. Failures of the system and values that cannot be used are errors of the
configuration, others are not. -/
def openUrl (w : World) (o : LoadOptions) (url : Text) : Attempt OpenSource :=
  { fetched := [⟨url, o.timeout⟩]
    result :=
      match w.fetch ⟨url, o.timeout⟩ with
      | .ok tr => OpenSource.ofTransfer o url tr
      | .error f =>
        if f.kind = .other then .error (.transfer f)
        else .error (.config (.load (.unfetchable url f.reason))) }

/-- Opens a source. The text of a text stream is taken as it is. -/
def openSource (w : World) (o : LoadOptions) : Source → Attempt OpenSource
  | address t =>
    match Url.isUrl t with
    | .error fault => { result := .error (.malformedUrl fault) }
    | .ok true => openUrl w o t
    | .ok false => { result := openFile w o (.ofText t) }
  | path p => { result := openFile w o p }
  | textStream name text => { result := .ok ⟨name.getD unnamed, ⟨text, none⟩⟩ }
  | byteStream name tr => { result := OpenSource.ofTransfer o (name.getD unnamed) tr }
  | other d => { result := .error (.unsupportedSource d) }

end Source

/-- The settings of an open source. A text that breaks off is read up to there: what is wrong with
it before is told first. -/
def OpenSource.parse (s : OpenSource) (strict : Bool) : Except Failure Settings :=
  (Document.ofLexemes strict .empty (.ofLexer s.content.tear (.ofText s.content.chars))).mapError
    (Document.Fault.inSource s.name)

def parseFile (w : World) (o : LoadOptions) (p : Path) : Except Failure Settings :=
  (Source.openFile w o p).bind (·.parse o.strict)

def parseUrl (w : World) (o : LoadOptions) (url : Text) : Attempt Settings :=
  (Source.openUrl w o url).andThen (·.parse o.strict)

def parseSource (w : World) (o : LoadOptions) (s : Source) : Attempt Settings :=
  (s.openSource w o).andThen (·.parse o.strict)

end LayeredSettings
