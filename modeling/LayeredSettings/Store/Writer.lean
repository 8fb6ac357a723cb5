import LayeredSettings.Store.Basic
import LayeredSettings.Text.Quoted
import LayeredSettings.Token.Basic

/-!
# Writing stores

A store as configuration text: comment lines, then one line `key = "value"` for each setting, in
the order of the keys.
-/

namespace LayeredSettings

/-- Whether a segment of a key may stand without quotes. -/
def Key.isName : Text → Bool
  | [] => false
  | c :: rest => Token.isNameStart c && rest.all Token.isNameChar

def Key.renderSegment (segment : Text) : Text :=
  if isName segment then segment else Quoted.literal segment

/-- A key as it is written, segment by segment. -/
def Key.render (key : Text) : Text :=
  Text.joinWith '.' ((Text.splitOn '.' key).map renderSegment)

namespace Store

def commentLine (line : Text) : Text :=
  if line = [] then ['#'] else '#' :: ' ' :: line

def entryLine (e : Entry) : Text :=
  Key.render e.1 ++ [' ', '=', ' '] ++ Quoted.literal e.2

/-- The comment lines of a header, with an empty line behind them if there are any. -/
def headerLines (header : List Text) : List Text :=
  if header = [] then [] else header.map commentLine ++ [[]]

/-- A store as configuration text. -/
def render (host : Host) (s : Store) (header : List Text) : Text :=
  Text.lines (headerLines header ++ (s.sortedEntries host).map entryLine) ++ ['\n']

def savedHeader : List Text := ["Generated by hierconf".toList]

end Store

end LayeredSettings
