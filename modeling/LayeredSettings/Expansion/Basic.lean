import LayeredSettings.Expansion.Template
import LayeredSettings.Key

/-!
# Expansion

What the expansion of a template needs and gives: a resolver for the markers, a ceiling on the
nesting of markers, and the trace of a run with the keys it looked up.
-/

namespace LayeredSettings.Expansion

/-- Why a template has no expansion. -/
inductive Error where
  /-- No setting has this key. -/
  | missing (key : Text)
  | relative (fault : Key.RelativeFault)
  | malformed (template : Text)
  | unterminated (template : Text)
  /-- Markers nest deeper than the ceiling. -/
  | depthLimit (ceiling : Nat)
  deriving DecidableEq, Repr

def Error.ofTemplate (template : Text) : Template.Fault → Error
  | .malformed => .malformed template
  | .unterminated => .unterminated template

def Error.message : Error → String
  | missing key => "no such setting: " ++ String.ofList key
  | relative (.pastRoot key base) =>
    "invalid relative substitution '" ++ String.ofList key ++ "' from '" ++ String.ofList base
      ++ "'"
  | relative (.onlyDots key) => "invalid substitution key: " ++ String.ofList key
  | malformed template => "malformed template: " ++ String.ofList template
  | unterminated template =>
    "unterminated substitution in template: " ++ String.ofList template
  | depthLimit ceiling => "substitution depth limit reached (" ++ toString ceiling ++ ")"

/-- Errors of a resolver, with the errors that an expansion adds to them. -/
class Faults (ε : Type) where
  ofTemplate : Text → Template.Fault → ε
  depthLimit : Nat → ε

instance : Faults Error := ⟨Error.ofTemplate, Error.depthLimit⟩

/-- What a key means in a scope: a value, and the scope of the markers in that value. A resolver
may give any error. -/
abbrev Resolver (σ : Type) (ε : Type := Error) := σ → Text → Except ε (Text × σ)

/-- What an expansion did: the keys it looked up, each with its scope, and how it ended. -/
structure Trace (σ : Type) (ε : Type := Error) where
  calls : List (σ × Text) := []
  result : Except ε Text

/-! ## The ceiling -/

/-- A ceiling on the nesting of markers. It is at least five. -/
structure Ceiling where
  depth : Nat
  five_le : 5 ≤ depth := by decide
  deriving DecidableEq, Repr

namespace Ceiling

def least : Nat := 5

def standard : Ceiling := { depth := 16 }

/-- The ceiling with the given depth, unless that is too small. -/
def ofInt? (n : Int) : Option Ceiling :=
  if h : 5 ≤ n then some ⟨n.toNat, by omega⟩ else none

def tooSmallMessage (n : Int) : String :=
  "max_depth must be at least " ++ toString least ++ ", got " ++ toString n

end Ceiling

end LayeredSettings.Expansion
