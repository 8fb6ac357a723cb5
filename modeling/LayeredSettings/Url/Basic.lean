import LayeredSettings.Text.Ascii
import LayeredSettings.Text.Inspect
import LayeredSettings.Url.Address
import LayeredSettings.Url.Lookalike

/-!
# URLs

How a URL is told from the path of a file: by a scheme in front of the first colon. A text whose
authority is malformed is neither. Control characters and spaces in front, tabs and line breaks
anywhere count for nothing.
-/

namespace LayeredSettings.Url

/-- Why a text is neither a URL nor a path. -/
inductive Fault where
  /-- A bracket without its partner, or text beside a pair of brackets. -/
  | brackets
  /-- A host in brackets that is no address. -/
  | notAddress (host : Text)
  /-- Four octets in brackets. -/
  | octets
  /-- An address with a version that is not well formed. -/
  | version
  /-- A character that turns into a delimiter when it is normalised. -/
  | lookalike (authority : Text)
  deriving DecidableEq, Repr

def Fault.message : Fault → String
  | brackets => "Invalid IPv6 URL"
  | notAddress host =>
    String.ofList host.inspect ++ " does not appear to be an IPv4 or IPv6 address"
  | octets => "An IPv4 address cannot be in brackets"
  | version => "IPvFuture address is invalid"
  | lookalike authority =>
    "netloc '" ++ String.ofList authority
      ++ "' contains invalid characters under NFKC normalization"

/-! ## The parts of a URL -/

/-- A text without the characters of a URL that count for nothing. -/
def clean (t : Text) : Text :=
  (t.dropWhile (·.toNat ≤ 0x20)).filter fun c => c ≠ '\t' && c ≠ '\r' && c ≠ '\n'

def isSchemeChar (c : Char) : Bool :=
  Text.isLetter c || Text.isDigit c || c = '+' || c = '-' || c = '.'

/-- Splits a text into the scheme in front of its first colon and what follows the colon; without a
scheme nothing is split off. -/
def splitScheme (t : Text) : Option Text × Text :=
  let scheme := t.takeWhile (· ≠ ':')
  match t.dropWhile (· ≠ ':') with
  | [] => (none, t)
  | _ :: rest =>
    if (scheme.head?.any Text.isLetter) && scheme.all isSchemeChar then
      (some (scheme.map Char.toLower), rest)
    else (none, t)

def schemes : List Text := ["http", "https", "file", "ftp"].map String.toList

/-- User, host and port of a URL, from two slashes up to the next slash, question mark or hash. -/
def authority : Text → Text
  | '/' :: '/' :: rest => rest.takeWhile fun c => c ≠ '/' && c ≠ '?' && c ≠ '#'
  | _ => []

/-- Host and port, which follow the last at sign of an authority. -/
def hostAndPort (authority : Text) : Text :=
  (authority.reverse.takeWhile (· ≠ '@')).reverse

/-! ## Checks -/

/-- The host of an authority with brackets. They must hold the whole host. -/
def bracketedHost (authority : Text) : Except Fault Text :=
  let t := hostAndPort authority
  match t.dropWhile (· ≠ '[') with
  | [] => .ok (t.takeWhile (· ≠ ':'))
  | _ :: rest =>
    let port := (rest.dropWhile (· ≠ ']')).tail
    if t.head? = some '[' ∧ (port = [] ∨ port.head? = some ':') then
      .ok (rest.takeWhile (· ≠ ']'))
    else .error .brackets

/-- Checks that a host in brackets is an address of eight groups or of a later version. -/
def checkAddress (host : Text) : Except Fault Unit :=
  if host.head? = some 'v' then
    if Address.isVersioned host then .ok () else .error .version
  else if Address.isOctets host then .error .octets
  else if Address.isZonedGroups host then .ok ()
  else .error (.notAddress host)

/-- Checks an authority. Brackets come in pairs and hold an address, and no character is taken for
a delimiter. -/
def checkAuthority (authority : Text) : Except Fault Unit := do
  if authority.contains '[' != authority.contains ']' then throw .brackets
  if authority.contains '[' then checkAddress (← bracketedHost authority)
  if authority.any isLookalike then throw (.lookalike authority)

/-- Whether a text is a URL and no path, or why it is neither. -/
def isUrl (t : Text) : Except Fault Bool := do
  let (scheme, rest) := splitScheme (clean t)
  checkAuthority (authority rest)
  return scheme.any (schemes.contains ·)

end LayeredSettings.Url
