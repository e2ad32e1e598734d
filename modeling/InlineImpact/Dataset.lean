import InlineImpact.Csv
import InlineImpact.Dataset.Row
import InlineImpact.Json
import InlineImpact.Path
import InlineImpact.Workspace

/-!
Datasets: tables in which each row is one isolated decision. Rows are only ever appended; the header
is written when the file is new or empty, and a file beside it tells the category of every column.
-/
namespace InlineImpact.Dataset

structure Writer where
  path : String
  columns : Columns := {}
  rowsWritten : Nat := 0
  isOpen : Bool := false

/-- Where the categories of the columns go. -/
def schemaPath (path : String) : String := Path.withoutEnding path ++ ".schema.json"

def schemaText (columns : Columns) : String :=
  Json.write Json.indented (.object (columns.schema.map fun (n, c) => (n, .string c.text)))

/-- The result of a change of a writer and its files. What was done before a failure stays done. -/
abbrev Change := Except Failure Unit × Writer × Workspace

namespace Writer

def schemaFile (w : Writer) : String := schemaPath w.path

/-- A file that is missing or has nothing in it. -/
def startsNew (ws : Workspace) (path : String) : Bool :=
  match ws.read path with
  | .ok bytes => bytes.isEmpty
  | .error fault => fault.error == .notFound

def openFile (w : Writer) (ws : Workspace) : Except StorageFault Workspace := do
  let ws ← ws.makeDirectories (Path.directory (Path.absolute ws.hereText w.path))
  ws.appendText w.path (if startsNew ws w.path then Csv.writeRow w.columns.names else "")

/-- Gets ready to append. The file itself is open even if the schema cannot be written. -/
def start (w : Writer) (ws : Workspace) : Change :=
  if w.isOpen then (.ok (), w, ws)
  else match w.openFile ws with
    | .error fault => (.error (.storage fault), w, ws)
    | .ok ws =>
      let w := { w with isOpen := true }
      match ws.writeText w.schemaFile (schemaText w.columns) with
      | .error fault => (.error (.storage fault), w, ws)
      | .ok ws => (.ok (), w, ws)

def appendOpen (w : Writer) (ws : Workspace) (r : Row) : Change :=
  match r.cells w.columns with
  | .error e => (.error e, w, ws)
  | .ok cells =>
    match ws.appendText w.path (Csv.writeRow cells) with
    | .error fault => (.error (.storage fault), w, ws)
    | .ok ws => (.ok (), { w with rowsWritten := w.rowsWritten + 1 }, ws)

/-- Appends a row, opening the file first if that is needed. -/
def append (w : Writer) (ws : Workspace) (r : Row) : Change :=
  match w.start ws with
  | (.ok (), w, ws) => w.appendOpen ws r
  | failed => failed

def close (w : Writer) : Writer := { w with isOpen := false }

def appendAllOpen (w : Writer) (ws : Workspace) : List Row → Change
  | [] => (.ok (), w, ws)
  | r :: rest =>
    match w.append ws r with
    | (.ok (), w, ws) => w.appendAllOpen ws rest
    | failed => failed

/-- Opens, appends the rows and closes, also after a failure to append. -/
def session (w : Writer) (ws : Workspace) (rows : List Row) : Change :=
  match w.start ws with
  | (.ok (), w, ws) =>
    let (result, w, ws) := w.appendAllOpen ws rows
    (result, w.close, ws)
  | failed => failed

end Writer

/-- A cell that is read: its text, nothing where a row is short, or all that a row has too many. -/
inductive Found where
  | text (s : String)
  | absent
  | surplus (cells : List String)

/-- The cells of a row by column. Surplus cells have no column. -/
def byColumn (header row : List String) : Keyed (Option String) Found :=
  let named := (header.zip row).map fun (name, cell) => (some name, Found.text cell)
  let rest :=
    if header.length < row.length then [(none, .surplus (row.drop header.length))]
    else (header.drop row.length).map fun name => (some name, .absent)
  Keyed.ofPairs (named ++ rest)

/-- The rows of a dataset by the columns of its first line; blank lines after it are skipped. -/
def byHeader : List (List String) → List (Keyed (Option String) Found)
  | [] => []
  | header :: rows => (rows.filter (!·.isEmpty)).map (byColumn header)

def read (ws : Workspace) (path : String) : Except Failure (List (Keyed (Option String) Found)) := do
  let bytes ← (ws.read path).mapError .storage
  match String.fromUTF8? bytes with
  | none => .error (.notText path)
  | some text =>
    let rows := Csv.read text.toList
    if Csv.withinLimit rows then return byHeader rows
    else .error (.badValue ("field larger than field limit (" ++ toString Csv.fieldLimit ++ ")"))

end InlineImpact.Dataset
