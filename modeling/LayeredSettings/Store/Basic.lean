import LayeredSettings.Settings

/-!
# Stores

A store answers queries for settings. It is empty, shows the host's properties or environment,
holds settings of its own, or layers one store over another. `query` and `entries` describe what a
store shows; both see the host as it is at the time.
-/

namespace LayeredSettings

/-- What a host shows to stores. -/
structure Host where
  properties : Settings
  environment : Settings

/-- A read-only source of settings. -/
inductive Store where
  | empty
  | system
  | environment
  | mapped (settings : Settings)
  | layered (primary fallback : Store)
  deriving DecidableEq

namespace Store

/-- The value of a key. A layered store asks its fallback for what its primary lacks. -/
def query (host : Host) (key : Text) : Store → Option Text
  | empty => none
  | system => host.properties.get? key
  | environment => host.environment.get? key
  | mapped settings => settings.get? key
  | layered primary fallback => (primary.query host key).or (fallback.query host key)

/-- The entries whose keys were not seen before, each key being seen from then on. -/
def unseen (seen : List Text) : List Entry → List Entry
  | [] => []
  | e :: rest => if e.1 ∈ seen then unseen seen rest else e :: unseen (e.1 :: seen) rest

mutual

/-- All settings that a store shows, each key once. A layered store goes through its layers one
after another. -/
def entries (host : Host) : Store → List Entry
  | empty => []
  | system => host.properties.entries
  | environment => host.environment.entries
  | mapped settings => settings.entries
  | layered primary fallback => unseen [] (primary.entries host ++ fallback.chained host)

/-- What the layers of a store list, one layer after another. -/
def chained (host : Host) : Store → List Entry
  | empty => []
  | system => host.properties.entries
  | environment => host.environment.entries
  | mapped settings => settings.entries
  | layered primary fallback => primary.entries host ++ fallback.chained host

end

def sortedEntries (host : Host) (s : Store) : List Entry :=
  (s.entries host).mergeSort fun a b => Text.le a.1 b.1

def keys (host : Host) (s : Store) : List Text :=
  ((s.entries host).map Prod.fst).mergeSort Text.le

/-! ## Layers -/

/-- The layers of a store in the order they are asked, none of the later ones being unfolded
from a primary. -/
def layers : Store → List Store
  | layered primary fallback => primary :: fallback.layers
  | s => [s]

theorem chained_eq_flatMap_layers (host : Host) (s : Store) :
    s.chained host = s.layers.flatMap (entries host) := by
  induction s with
  | layered primary fallback _ hf => rw [chained, layers, List.flatMap_cons, hf]
  | _ => simp [layers, chained, entries]

/-- Puts the layers of one store over another. -/
def atop (ls : List Store) (s : Store) : Store := ls.foldr layered s

/-- Layers a store over `defaults`. The empty store adds no layer, and no primary is layered. -/
def compose (s defaults : Store) : Store :=
  if defaults = empty then s
  else if s = empty then defaults
  else atop s.layers defaults

def describe : Store → String
  | empty => "Store(empty)"
  | system => "Store(system)"
  | environment => "Store(environment)"
  | mapped settings => "Store(mapped, " ++ toString settings.size ++ " settings)"
  | s@(layered _ _) => "Store(composite, " ++ toString s.layers.length ++ " layers)"

end Store

end LayeredSettings
