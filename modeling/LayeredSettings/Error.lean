import LayeredSettings.Document.Fault
import LayeredSettings.Expansion.Basic
import LayeredSettings.Files.Basic
import LayeredSettings.Location
import LayeredSettings.Options.Field
import LayeredSettings.Url.Basic

/-!
# Errors

What can go wrong with configuration, by cause, and the wording of each cause. A `Failure` is an
error of the configuration or something else: bytes that are no text or do not arrive, options that
do not check, arguments of a wrong kind.
-/

namespace LayeredSettings

/-! ## Wordings -/

def Lexer.Reason.message : Lexer.Reason → String
  | unexpectedCharacter c => "unexpected character " ++ String.ofList (Text.inspect [c])
  | unterminatedLiteral => "unterminated literal"
  | unicodeEscape => "unicode escapes are not supported"
  | unsupportedEscape sign =>
    "unsupported escape sequence '" ++ String.ofList ['\\', sign] ++ "'"
  | malformedNumber text => "unsupported number syntax '" ++ String.ofList text ++ "'"

def Document.Reason.message : Document.Reason → String
  | valueExpected => "unexpected token; a value was required here"
  | wordExpected => "unexpected token; a word was required here"
  | assignmentExpected => "unexpected token; '=' or '\x7b' required here"
  | closeExpected key =>
    "unexpected token; '\x7d' required to close '" ++ String.ofList key ++ "'"
  | endExpected => "found data after settings"

/-! ## Configuration errors -/

/-- Why a source cannot be loaded or a store not be saved. -/
inductive LoadError where
  | notFound (path : Path)
  | unreadable (path : Path) (failure : Files.Failure)
  | unfetchable (url : Text) (reason : Text)
  | unwritable (path : Path) (failure : Files.Failure)
  deriving DecidableEq, Repr

def LoadError.message : LoadError → String
  | notFound path => "Configuration file not found: " ++ String.ofList path.render
  | unreadable path failure =>
    "Cannot read configuration file " ++ String.ofList path.render ++ ": " ++ failure.message
  | unfetchable url reason =>
    "Cannot read configuration resource " ++ String.ofList url ++ ": " ++ String.ofList reason
  | unwritable path failure =>
    "Cannot write configuration file " ++ String.ofList path.render ++ ": " ++ failure.message

inductive ConfigError where
  | lexical (location : Location) (reason : Lexer.Reason)
  | grammar (location : Location) (reason : Document.Reason)
  | duplicate (location : Location) (key : Text)
  | load (error : LoadError)
  | expansion (error : Expansion.Error)
  deriving DecidableEq, Repr

def ConfigError.message : ConfigError → String
  | lexical location reason => location.render ++ ": " ++ reason.message
  | grammar location reason => location.render ++ ": " ++ reason.message
  | duplicate location key =>
    location.render ++ ": duplicate setting '" ++ String.ofList key ++ "'"
  | load error => error.message
  | expansion error => error.message

/-! ## Failures -/

/-- Whatever an operation may fail with. -/
inductive Failure where
  | config (error : ConfigError)
  | decoding (fault : Encoding.Fault)
  /-- Bytes that did not arrive. -/
  | transfer (failure : Transfer.Failure)
  | options (errors : List Field.Error)
  /-- A text that is neither a URL nor a path. -/
  | malformedUrl (fault : Url.Fault)
  /-- A failed operation on files that no error of the configuration accounts for. -/
  | files (failure : Files.Failure)
  /-- A path with a null character in it. -/
  | nullInPath
  | unsupportedSource (source : Datum)
  /-- Keys and values do not pair up. -/
  | oddArguments
  /-- A setting whose key or value is no text. -/
  | notTextual (key value : Datum)
  /-- A key that cannot be looked up. -/
  | unusableKey (key : Datum)
  | notStore (value : Datum)

def Failure.message : Failure → String
  | config error => error.message
  | decoding fault => fault.message
  | transfer failure => String.ofList failure.reason
  | options errors => Field.messages errors
  | malformedUrl fault => fault.message
  | files failure => failure.message
  | nullInPath => "embedded null byte"
  | unsupportedSource source => "Unsupported configuration source: " ++ source.kindName
  | oddArguments => "Store.of() requires an even number of arguments"
  | notTextual key value =>
    "Settings must map strings to strings, got " ++ String.ofList key.inspect ++ ": "
      ++ String.ofList value.inspect
  | unusableKey key => "unhashable type: '" ++ key.kindName ++ "'"
  | notStore value => "Cannot compose with " ++ value.kindName

def Tear.failure : Tear → Failure
  | undecodable fault => .decoding fault
  | lost failure => .transfer failure

/-- The fault of a document read from `source`. -/
def Document.Fault.inSource (source : Text) : Document.Fault → Failure
  | lexical fault => .config (.lexical ⟨source, fault.position⟩ fault.reason)
  | grammar position reason => .config (.grammar ⟨source, position⟩ reason)
  | duplicate position key => .config (.duplicate ⟨source, position⟩ key)
  | torn tear => tear.failure

end LayeredSettings
