import LayeredSettings.Text.Pattern

/-!
# Implicit types

The plain scalars that YAML 1.1 reads as something else than text: truth values, numbers, dates,
nothing, and the keys `<<` and `=`. Text that looks like one of them has to be quoted.
-/

namespace LayeredSettings.Yaml

open Pattern

def digit : Pattern := oneOf "0123456789"

/-- Matches digits and underscores, or nothing. -/
def digits : Pattern := star (oneOf "0123456789_")

def sign : Pattern := optional (oneOf "+-")

def sixtieths : Pattern := plus (all [char ':', optional (oneOf "012345"), digit])

/-- Matches an exponent, whose sign may not be left out, or nothing. -/
def exponent : Pattern := optional (all [oneOf "eE", oneOf "+-", plus digit])

def oneOrTwo : Pattern := seq digit (optional digit)

def truth : Pattern :=
  any (["yes", "Yes", "YES", "no", "No", "NO", "true", "True", "TRUE", "false", "False", "FALSE",
    "on", "On", "ON", "off", "Off", "OFF"].map exactly)

def floating : Pattern :=
  any [
    all [sign, digit, digits, char '.', digits, exponent],
    all [char '.', digit, digits, exponent],
    all [sign, digit, digits, sixtieths, char '.', digits],
    all [sign, char '.', any (["inf", "Inf", "INF"].map exactly)],
    all [char '.', any (["nan", "NaN", "NAN"].map exactly)]]

def whole : Pattern :=
  any [
    all [sign, exactly "0b", plus (oneOf "01_")],
    all [sign, char '0', plus (oneOf "01234567_")],
    all [sign, alt (char '0') (seq (oneOf "123456789") digits)],
    all [sign, exactly "0x", plus (oneOf "0123456789abcdefABCDEF_")],
    all [sign, oneOf "123456789", digits, sixtieths]]

def absent : Pattern := any (["~", "null", "Null", "NULL", ""].map exactly)

/-- Dates, and dates with a time of day. -/
def timestamp : Pattern :=
  let year := all [digit, digit, digit, digit]
  let two := seq digit digit
  any [
    all [year, char '-', two, char '-', two],
    all [year, char '-', oneOrTwo, char '-', oneOrTwo,
      alt (oneOf "Tt") (plus (oneOf " \t")),
      oneOrTwo, char ':', two, char ':', two, optional (seq (char '.') (star digit)),
      optional (seq (star (oneOf " \t"))
        (alt (char 'Z') (all [oneOf "+-", oneOrTwo, optional (seq (char ':') two)])))]]

def implicitType : Pattern :=
  any [truth, floating, whole, absent, timestamp, exactly "<<", exactly "="]

def readsAsText (t : Text) : Bool := !implicitType.accepts t

end LayeredSettings.Yaml
