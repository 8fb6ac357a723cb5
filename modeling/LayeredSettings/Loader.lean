import LayeredSettings.Source
import LayeredSettings.Store.Writer

/-!
# Loading and saving

Stores loaded from sources, checked files, and stores saved to files. `validate` reports what is
wrong with the configuration in a file and lets every other failure pass.
-/

namespace LayeredSettings

/-- The options of a loader that is strict if either is. -/
def LoadOptions.strictly (o : LoadOptions) (strict : Bool) : LoadOptions :=
  { o with strict := strict || o.strict }

/-- Layers a store over defaults if there are any. -/
def Store.withDefaults (s : Store) : Option Store → Store
  | some defaults => s.compose defaults
  | none => s

/-- The store that holds the settings of a source. -/
def Store.load (w : World) (o : LoadOptions) (s : Source) : Attempt Store :=
  (parseSource w o s).andThen fun settings => .ok (.mapped settings)

namespace Loader

/-- The path of the file that a source names, unless it is a URL or no name. -/
def pathOf? : Source → Except Failure (Option Path)
  | .address t =>
    match Url.isUrl t with
    | .error fault => .error (.malformedUrl fault)
    | .ok true => .ok none
    | .ok false => .ok (some (.ofText t))
  | .path p => .ok (some p)
  | _ => .ok none

/-- Loads a store from a source, over defaults if there are any. A file must exist. -/
def load (w : World) (o : LoadOptions) (s : Source) (defaults : Option Store) : Attempt Store :=
  let loaded := (Store.load w o s).andThen fun store => .ok (store.withDefaults defaults)
  match pathOf? s with
  | .error f => { result := .error f }
  | .ok none => loaded
  | .ok (some p) =>
    match w.present p with
    | .error f => { result := .error f }
    | .ok true => loaded
    | .ok false => { result := .error (.config (.load (.notFound p))) }

/-- Loads a store from a text, over defaults if there are any. -/
def loadText (o : LoadOptions) (text source : Text) (defaults : Option Store) :
    Except Failure Store :=
  (Store.ofText text source o.strict).map (·.withDefaults defaults)

/-- What is wrong with the configuration in a file: the wording of the error, or nothing. -/
def validate (w : World) (o : LoadOptions) (p : Path) : Except Failure (List String) :=
  match (load w o (.path p) none).result with
  | .ok _ => .ok []
  | .error (.config e) => .ok [e.message]
  | .error f => .error f

end Loader

/-- Saves a store to a file, making the directories it lies in. What was made before a failure
stays. -/
def Store.save (w : World) (s : Store) (p : Path) : Files × Except Failure Unit :=
  let (files, written) := w.write p (Encoding.Utf8.encode (s.render w.host savedHeader))
  (files, written.mapError fun
    | .files f => .config (.load (.unwritable p f))
    | f => f)

end LayeredSettings
