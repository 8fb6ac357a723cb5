import LayeredSettings.Document.Reader

/-!
# The grammar of documents

    body  := entry*
    entry := key ('=' key | '{' body '}')
    key   := WORD ('.' WORD)*

A derivation of a body is a tree. Its leaves, from left to right, are the tokens derived
(`Body.tokens`); its meaning is the list of entries it makes, one for each `=`, in the same order
(`Body.entries`).
-/

namespace LayeredSettings.Document

/-- A derivation of `key := WORD ('.' WORD)*`: the words. -/
structure Words where
  first : Text
  more : List Text

namespace Words

def toList (k : Words) : List Text := k.first :: k.more

/-- The tokens of the words behind the first one, each with the dot before it. -/
def moreTokens (ws : List Text) : List Token := ws.flatMap fun w => [.dot, .word w]

def tokens (k : Words) : List Token := .word k.first :: moreTokens k.more

def text (k : Words) : Text := Key.ofSegments k.toList

end Words

/-- A derivation of `entry := key ('=' key | '{' body '}')`, where `body := entry*`. -/
inductive Node where
  | assignment (key value : Words)
  | block (key : Words) (body : List Node)

/-- A derivation of `body := entry*`. -/
abbrev Body := List Node

mutual

/-- The tokens derived from an entry. -/
def Node.tokens : Node → List Token
  | .assignment key value => key.tokens ++ .equal :: value.tokens
  | .block key body => key.tokens ++ .opening :: (Body.tokens body ++ [.closing])

/-- The tokens derived from a body. -/
def Body.tokens : Body → List Token
  | [] => []
  | node :: rest => node.tokens ++ Body.tokens rest

end

mutual

/-- What an entry inside the block `block` assigns. -/
def Node.entries (block : Text) : Node → List Entry
  | .assignment key value => [(Key.under block key.text, value.text)]
  | .block key body => Body.entries (Key.under block key.text) body

/-- What a body inside the block `block` assigns, in order. -/
def Body.entries (block : Text) : Body → List Entry
  | [] => []
  | node :: rest => node.entries block ++ Body.entries block rest

end

end LayeredSettings.Document
