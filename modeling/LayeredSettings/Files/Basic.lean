import LayeredSettings.Files.Path
import LayeredSettings.Text.Inspect
import LayeredSettings.Transfer

/-!
# Files

A tree of directories and files with a working directory, and the operations on it that reading
and writing settings need. What the program has no permission for is closed to it. Besides files
of bytes there are special files, such as devices, which are only read. A failed operation says why
and on which path.
-/

namespace LayeredSettings

inductive Files.Cause where
  | notFound
  | denied
  | occupied
  | notDirectory
  | isDirectory
  /-- A name or a whole path that is longer than the system allows. -/
  | nameTooLong
  deriving DecidableEq, Repr

structure Files.Failure where
  cause : Files.Cause
  path : Path
  deriving DecidableEq, Repr

def Files.Cause.number : Files.Cause → Nat
  | notFound => 2
  | denied => 13
  | occupied => 17
  | notDirectory => 20
  | isDirectory => 21
  | nameTooLong => 36

def Files.Cause.message : Files.Cause → String
  | notFound => "No such file or directory"
  | denied => "Permission denied"
  | occupied => "File exists"
  | notDirectory => "Not a directory"
  | isDirectory => "Is a directory"
  | nameTooLong => "File name too long"

def Files.Failure.message (f : Files.Failure) : String :=
  "[Errno " ++ toString f.cause.number ++ "] " ++ f.cause.message ++ ": "
    ++ String.ofList f.path.render.inspect

/-- Whether a look-up that fails for this cause says that there is nothing. -/
def Files.Cause.isAbsence : Files.Cause → Bool
  | notFound | notDirectory => true
  | _ => false

inductive Files.Node where
  | file (bytes : List UInt8)
  /-- A file whose bytes are not stored, and what reading it gives. -/
  | special (bytes : Transfer)
  | directory
  /-- A file that may neither be read nor written. -/
  | closedFile
  /-- A directory in which nothing may be looked up. -/
  | closedDirectory
  deriving DecidableEq, Repr

/-- Why no file can be written where a node stands. -/
def Files.Node.unwritable? : Files.Node → Option Files.Cause
  | file _ => none
  | directory | closedDirectory => some .isDirectory
  | special _ | closedFile => some .denied

/-- A place of the tree: the names to it from the root, innermost first. -/
abbrev Files.Place := List Text

/-- A tree of files: the nodes by their places, and the place of the working directory. The root is
a directory and is not listed. -/
structure Files where
  nodes : List (Files.Place × Files.Node)
  working : Files.Place

namespace Files

/-- An empty working directory `name` in an otherwise empty tree. -/
def workingIn (name : Text) : Files := ⟨[([name], .directory)], [name]⟩

def node? (fs : Files) (place : Place) : Option Node :=
  if place = [] then some .directory
  else fs.nodes.findSome? fun e => if e.1 = place then some e.2 else none

def put (fs : Files) (place : Place) (node : Node) : Files :=
  { fs with nodes := (place, node) :: fs.nodes.filter (·.1 ≠ place) }

def longestName : Nat := 255

def longestPath : Nat := 4095

/-- The place that names lead to from another place. All names but the last must lead through
directories; the last need not exist. -/
def follow (fs : Files) (here : Place) : List Text → Except Cause Place
  | [] => .ok here
  | name :: names =>
    match fs.node? here with
    | none => .error .notFound
    | some (.file _) | some (.special _) | some .closedFile => .error .notDirectory
    | some .closedDirectory => .error .denied
    | some .directory =>
      if longestName < Path.byteSize name then .error .nameTooLong
      else if name = ['.', '.'] then fs.follow here.tail names
      else fs.follow (name :: here) names

def locate (fs : Files) (p : Path) : Except Cause Place :=
  if longestPath < Path.byteSize p.render then .error .nameTooLong
  else fs.follow (if p.anchor = .working then fs.working else []) p.names

def find? (fs : Files) (p : Path) : Except Cause (Option Node) :=
  (fs.locate p).map fs.node?

/-- Whether a path leads to something. Of a path that is too long, or leads through a closed
directory, it cannot be told. -/
def present (fs : Files) (p : Path) : Except Failure Bool :=
  match fs.find? p with
  | .ok node => .ok node.isSome
  | .error cause => if cause.isAbsence then .ok false else .error ⟨cause, p⟩

def isDirectory (fs : Files) (p : Path) : Bool :=
  match fs.find? p with
  | .ok (some .directory) | .ok (some .closedDirectory) => true
  | _ => false

/-- The bytes of a file, which may break off while they are read. -/
def transfer (fs : Files) (p : Path) : Except Failure Transfer :=
  match fs.find? p with
  | .ok (some (.file bytes)) => .ok (.ofBytes bytes)
  | .ok (some (.special bytes)) => .ok bytes
  | .ok (some .directory) => .error ⟨.isDirectory, p⟩
  | .ok (some .closedFile) | .ok (some .closedDirectory) => .error ⟨.denied, p⟩
  | .ok none => .error ⟨.notFound, p⟩
  | .error cause => .error ⟨cause, p⟩

/-- Writes a file, making or replacing it. -/
def write (fs : Files) (p : Path) (bytes : List UInt8) : Except Failure Files :=
  match fs.locate p with
  | .error cause => .error ⟨cause, p⟩
  | .ok place =>
    match (fs.node? place).bind Node.unwritable? with
    | some cause => .error ⟨cause, p⟩
    | none => .ok (fs.put place (.file bytes))

/-- Makes a directory whose parent exists. -/
def makeDirectory (fs : Files) (p : Path) : Except Failure Files :=
  match fs.locate p with
  | .error cause => .error ⟨cause, p⟩
  | .ok place =>
    match fs.node? place with
    | some _ => .error ⟨.occupied, p⟩
    | none => .ok (fs.put place .directory)

/-- Makes the directory that the names, innermost first, lead to from an anchor, and those it lies
in, as far as they do not exist. What was made before a failure stays. -/
def makeDirectories (fs : Files) (anchor : Path.Anchor) :
    List Text → Files × Except Failure Unit
  | [] =>
    let p : Path := ⟨anchor, []⟩
    if fs.isDirectory p then (fs, .ok ()) else (fs, .error ⟨.notFound, p⟩)
  | name :: outer =>
    let p : Path := ⟨anchor, (name :: outer).reverse⟩
    let settle (fs : Files) (f : Failure) : Files × Except Failure Unit :=
      if f.cause ≠ .notFound ∧ fs.isDirectory p then (fs, .ok ()) else (fs, .error f)
    match fs.makeDirectory p with
    | .ok fs' => (fs', .ok ())
    | .error f =>
      if f.cause = .notFound then
        match makeDirectories fs anchor outer with
        | (fs', .error f') => (fs', .error f')
        | (fs', .ok ()) =>
          match fs'.makeDirectory p with
          | .ok fs'' => (fs'', .ok ())
          | .error f' => settle fs' f'
      else settle fs f

/-- The paths of everything below the working directory, in order; directories end in a slash. -/
def list (fs : Files) : List Text :=
  let depth := fs.working.length
  let below := fs.nodes.filter fun e =>
    depth < e.1.length ∧ e.1.drop (e.1.length - depth) = fs.working
  let paths := below.map fun e =>
    Text.joinWith '/' (e.1.take (e.1.length - depth)).reverse
      ++ (if e.2 = .directory ∨ e.2 = .closedDirectory then ['/'] else [])
  paths.mergeSort Text.le

end Files

end LayeredSettings
