import LayeredSettings.Store.Basic
import LayeredSettings.Text.Space

/-!
# Snapshots

A store as a flat YAML mapping, for tools that read YAML. Keys are not nested: a key may be a
setting and the beginning of other keys. The mapping itself is written by an emitter for YAML, which
snapshots take as it is.
-/

namespace LayeredSettings

/-- What writes a mapping, whose entries are given in order, as a YAML document. -/
abbrev Yaml.Emitter := List Entry → Text

namespace Store

def snapshotHeader : List Text :=
  ["# hierconf settings snapshot".toList,
    "# Keys are dot-qualified; all values are strings".toList, []]

/-- A store as a YAML document without white space at its end. -/
def snapshot (emit : Yaml.Emitter) (host : Host) (s : Store) : Text :=
  let body := Text.trimEnd Text.isSpace (emit (s.sortedEntries host))
  Text.lines (snapshotHeader ++ [body]) ++ ['\n']

end Store

end LayeredSettings
