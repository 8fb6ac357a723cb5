import LayeredSettings.Document.Statement
import LayeredSettings.Key
import LayeredSettings.Settings

/-!
# Reading documents

The statements of a document assign values to keys. An assignment inside blocks has the keys of
the blocks in front of its own, so that a document describes one flat list of settings.
-/

namespace LayeredSettings.Document

/-- The settings read so far, and the keys that the document itself has assigned. -/
structure Draft where
  settings : Settings
  assigned : List Text := []

/-- Assigns a value. A strict document assigns no key twice; `position` is where the statement
starts. -/
def Draft.assign (strict : Bool) (d : Draft) (position : Position) (key value : Text) :
    Except Fault Draft :=
  if strict && d.assigned.contains key then .error (.duplicate position key)
  else .ok { settings := d.settings.insert key value, assigned := key :: d.assigned }

/-- What is required where no statement starts, `blocks` being the keys of the open blocks. -/
def pending : List Text → Reason
  | [] => .endExpected
  | key :: _ => .closeExpected key

/-- Reads statements up to the end of the document. The keys of the open blocks stand innermost
first, each including those around it. -/
def read (strict : Bool) (ending : Lexeme.Ending) (blocks : List Text) (draft : Draft) :
    List Lexeme → Except Fault Settings
  | [] =>
    match ending, blocks with
    | .finish _, [] => .ok draft.settings
    | _, _ => .error (refuse ending [] (pending blocks))
  | ⟨.word w, position⟩ :: rest =>
    match _h : statement ending w rest with
    | .error e => .error e
    | .ok (.assignment key value, rest') =>
      match draft.assign strict position
          (Key.under (blocks.headD []) (Key.ofSegments key)) (Key.ofSegments value) with
      | .error e => .error e
      | .ok draft' => read strict ending blocks draft' rest'
    | .ok (.block key, rest') =>
      read strict ending (Key.under (blocks.headD []) (Key.ofSegments key) :: blocks) draft rest'
  | ⟨.closing, position⟩ :: rest =>
    match blocks with
    | [] => .error (.grammar position .endExpected)
    | _ :: outer => read strict ending outer draft rest
  | x :: _ => .error (.grammar x.start (pending blocks))
termination_by ls => ls.length
decreasing_by
  · exact Nat.lt_succ_of_le (length_statement_le _h)
  · exact Nat.lt_succ_of_le (length_statement_le _h)
  · exact Nat.lt_succ_self _

/-- The settings that lexemes describe, in front of which `defaults` are taken as set. -/
def ofLexemes (strict : Bool) (defaults : Settings) (ls : Lexemes) : Except Fault Settings :=
  read strict ls.ending [] { settings := defaults } ls.run

def ofText (strict : Bool) (defaults : Settings) (t : Text) : Except Fault Settings :=
  ofLexemes strict defaults (.ofText t)

end LayeredSettings.Document
