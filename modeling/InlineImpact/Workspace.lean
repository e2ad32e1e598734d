import InlineImpact.Keyed
import InlineImpact.Path
import InlineImpact.Text.Lines
import InlineImpact.Text.Quoted
import InlineImpact.Text.Utf8

/-!
The files that a run works on: a value that maps places to directories and files, and the operations
on it. A path is followed part by part, and every part but the last has to be a directory.
-/
namespace InlineImpact

/-- The parts of a path from the root. -/
abbrev Place := List String

inductive Entry where
  | directory
  | file (content : ByteArray) (executable : Bool)

inductive StorageError where
  | notFound
  | occupied
  | notDirectory
  | isDirectory
  | denied
  | notExecutable
  | nameTooLong
  /-- The path holds a character that no path can hold. -/
  | unnameable
  deriving DecidableEq, Repr

namespace StorageError

def number : StorageError → Nat
  | notFound => 2
  | notExecutable => 8
  | denied => 13
  | occupied => 17
  | notDirectory => 20
  | isDirectory => 21
  | unnameable => 22
  | nameTooLong => 36

def reason : StorageError → String
  | notFound => "No such file or directory"
  | notExecutable => "Exec format error"
  | denied => "Permission denied"
  | occupied => "File exists"
  | notDirectory => "Not a directory"
  | isDirectory => "Is a directory"
  | unnameable => "embedded null byte"
  | nameTooLong => "File name too long"

end StorageError

/-- An operation that failed, and the path as it was given. -/
structure StorageFault where
  error : StorageError
  path : String
  deriving DecidableEq, Repr

def StorageFault.message (f : StorageFault) : String :=
  if f.error = .unnameable then f.error.reason
  else "[Errno " ++ toString f.error.number ++ "] " ++ f.error.reason ++ ": " ++ Text.quoted f.path

structure Workspace where
  /-- The place that relative paths start from. -/
  here : Place
  entries : Keyed Place Entry

namespace Workspace

/-- A workspace that holds nothing but the directories down to `here`. -/
def empty (here : Place) : Workspace :=
  ⟨here, (List.range (here.length + 1)).map fun n => (here.take n, .directory)⟩

def hereText (ws : Workspace) : String := "/" ++ "/".intercalate ws.here

/-- One part further. -/
def next (place : Place) (part : String) : Place :=
  if part == "" || part == "." then place
  else if part == ".." then place.dropLast
  else place ++ [part]

/-- A name may take up to 255 bytes. -/
def maxNameBytes : Nat := 255

def follow (ws : Workspace) (place : Place) : List String → Except StorageError Place
  | [] => .ok place
  | part :: rest =>
    match ws.entries.get? place with
    | none => .error .notFound
    | some (.file ..) => .error .notDirectory
    | some .directory =>
      if maxNameBytes < part.utf8ByteSize then .error .nameTooLong
      else ws.follow (next place part) rest

def start (ws : Workspace) (path : String) : Place := if path.startsWith "/" then [] else ws.here

/-- The parts of a path that can name anything. -/
def parts (path : String) : Except StorageError (List String) :=
  if path.toList.contains '\x00' then .error .unnameable
  else if path.isEmpty then .error .notFound
  else .ok (path.splitOn "/")

/-- The place that a path leads to; there need not be anything yet. -/
def locate (ws : Workspace) (path : String) : Except StorageError Place := do
  ws.follow (ws.start path) (← parts path)

/-- The place of a file that may be new. A path that ends in a slash is one of a directory. -/
def locateFile (ws : Workspace) (path : String) : Except StorageError Place :=
  if path.endsWith "/" then
    (ws.locate (Path.trimSlashes path)).bind fun _ => .error .isDirectory
  else ws.locate path

def entry? (ws : Workspace) (path : String) : Option Entry :=
  match ws.locate path with
  | .ok place => ws.entries.get? place
  | .error _ => none

def holds (ws : Workspace) (path : String) : Bool := (ws.entry? path).isSome

def isDirectory (ws : Workspace) (path : String) : Bool :=
  match ws.entry? path with
  | some .directory => true
  | _ => false

def fail (e : StorageError) (path : String) : Except StorageFault α := .error ⟨e, path⟩

/-- The content of a file. -/
def read (ws : Workspace) (path : String) : Except StorageFault ByteArray :=
  match ws.locate path with
  | .error e => fail e path
  | .ok place =>
    match ws.entries.get? place with
    | none => fail .notFound path
    | some .directory => fail .isDirectory path
    | some (.file content _) => .ok content

/-- Gives a file new content; a file that is new is not executable. -/
def write (ws : Workspace) (path : String) (content : ByteArray) : Except StorageFault Workspace :=
  match ws.locateFile path with
  | .error e => fail e path
  | .ok place =>
    match ws.entries.get? place with
    | some .directory => fail .isDirectory path
    | some (.file _ executable) =>
      .ok { ws with entries := ws.entries.put place (.file content executable) }
    | none => .ok { ws with entries := ws.entries.put place (.file content false) }

def writeText (ws : Workspace) (path text : String) : Except StorageFault Workspace :=
  ws.write path text.toUTF8

/-- Adds bytes at the end of a file, which may be new. -/
def append (ws : Workspace) (path : String) (bytes : ByteArray) : Except StorageFault Workspace :=
  match ws.read path with
  | .ok old => ws.write path (old ++ bytes)
  | .error _ => ws.write path bytes

def appendText (ws : Workspace) (path text : String) : Except StorageFault Workspace :=
  ws.append path text.toUTF8

def remove (ws : Workspace) (path : String) : Except StorageFault Workspace :=
  match ws.locate path with
  | .error e => fail e path
  | .ok place =>
    match ws.entries.get? place with
    | none => fail .notFound path
    | some .directory => fail .isDirectory path
    | some (.file ..) => .ok { ws with entries := ws.entries.filter (·.1 ≠ place) }

/-- Makes the directories on the way, the last part included, where they are missing. -/
def makeDirectoriesFrom (ws : Workspace) (place : Place) : List String → Except StorageError Workspace
  | [] => .ok ws
  | part :: rest =>
    let place := next place part
    match ws.entries.get? place with
    | some .directory => ws.makeDirectoriesFrom place rest
    | some (.file ..) => .error (if rest.all (· == "") then .occupied else .notDirectory)
    | none =>
      if maxNameBytes < part.utf8ByteSize then .error .nameTooLong
      else makeDirectoriesFrom { ws with entries := ws.entries.put place .directory } place rest

def makeDirectories (ws : Workspace) (path : String) : Except StorageFault Workspace :=
  match (do ws.makeDirectoriesFrom (ws.start path) (← parts path)) with
  | .ok ws => .ok ws
  | .error e => fail e path

/-- Puts a file at a path from here, with the directories on the way. -/
def place (ws : Workspace) (path : String) (content : ByteArray) (executable : Bool) : Workspace :=
  let parts := path.splitOn "/"
  match ws.makeDirectoriesFrom ws.here parts.dropLast with
  | .ok ws => { ws with entries := ws.entries.put (parts.foldl next ws.here) (.file content executable) }
  | .error _ => ws

/-- The names right below a place. -/
def namesIn (ws : Workspace) (place : Place) : List String :=
  ws.entries.filterMap fun (p, _) =>
    if p.length = place.length + 1 && place.isPrefixOf p then p.getLast? else none

/-- The files below a directory, with their paths from it. -/
def filesBelow (ws : Workspace) (directory : String) : List (String × ByteArray) :=
  match ws.locate directory with
  | .error _ => []
  | .ok top =>
    ws.entries.filterMap fun (place, e) =>
      match e with
      | .directory => none
      | .file content _ =>
        if top.isPrefixOf place && top != place then
          some ("/".intercalate (place.drop top.length), content)
        else none

/-- A file as text with unified line ends, unless it is not well formed. -/
def decode? (content : ByteArray) : Option (List Char) :=
  (String.fromUTF8? content).map fun s => Text.unifyLineEnds s.toList

end Workspace

end InlineImpact
