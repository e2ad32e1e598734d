/-!
Tables as text. Fields are separated by commas and rows ended by a carriage return and a line feed; a
field that holds one of these or a quote is quoted, with quotes inside written twice. Reading accepts
more: any line end, quotes in the middle of a field, and a quoted field that is never closed.
-/
namespace InlineImpact.Csv

def needsQuotes (field : List Char) : Bool :=
  field.any fun c => c == ',' || c == '"' || c == '\r' || c == '\n'

def doubleQuotes (field : List Char) : List Char :=
  field.flatMap fun c => if c == '"' then ['"', '"'] else [c]

def writeField (field : List Char) : List Char :=
  if needsQuotes field then '"' :: (doubleQuotes field ++ ['"']) else field

def writeFields : List (List Char) → List Char
  | [] => []
  | [field] => writeField field
  | field :: rest => writeField field ++ ',' :: writeFields rest

def writeRow (fields : List String) : String :=
  String.ofList (writeFields (fields.map String.toList) ++ ['\r', '\n'])

inductive Mode where
  | startRow
  | startField
  | inField
  | quoted
  /-- After a quote inside quotes, which may be the closing one. -/
  | afterQuote
  deriving DecidableEq, Repr

/-- What has been read: a field, the fields of its row, and the rows before, all in reverse. -/
structure Reading where
  mode : Mode := .startRow
  field : List Char := []
  fields : List String := []
  rows : List (List String) := []
  /-- A carriage return has just ended a row, so a line feed belongs to it. -/
  returned : Bool := false

namespace Reading

def add (s : Reading) (c : Char) (mode : Mode) : Reading :=
  { s with mode, field := c :: s.field, returned := false }

def endField (s : Reading) : Reading :=
  { s with
    mode := .startField, field := [], fields := String.ofList s.field.reverse :: s.fields
    returned := false }

/-- Ends the row; a line without anything on it is a row without fields. -/
def endRow (s : Reading) (returned : Bool) : Reading :=
  let s := if s.mode = .startRow then s else s.endField
  { mode := .startRow, field := [], fields := [], rows := s.fields.reverse :: s.rows, returned }

/-- A character outside of quotes. -/
def plain (s : Reading) (c : Char) : Reading :=
  if c == '\r' then s.endRow true
  else if c == '\n' then s.endRow false
  else if c == ',' then s.endField
  else s.add c .inField

def step (s : Reading) (c : Char) : Reading :=
  match s.mode with
  | .quoted =>
    if c == '"' then { s with mode := .afterQuote } else s.add c .quoted
  | .afterQuote => if c == '"' then s.add c .quoted else s.plain c
  | .inField => s.plain c
  | .startField =>
    if c == '"' then { s with mode := .quoted } else s.plain c
  | .startRow =>
    if c == '\n' && s.returned then { s with returned := false }
    else if c == '"' then { s with mode := .quoted, returned := false }
    else s.plain c

/-- Ends the row that the end of the text leaves open. -/
def finish (s : Reading) : List (List String) :=
  (if s.mode = .startRow then s else s.endRow false).rows.reverse

end Reading

/-- The rows of a text; a blank line is a row without fields. -/
def read (text : List Char) : List (List String) := (text.foldl Reading.step {}).finish

/-- A longer field is refused. -/
def fieldLimit : Nat := 131072

def withinLimit (rows : List (List String)) : Bool :=
  rows.all fun row => row.all fun field => decide (field.length ≤ fieldLimit)

end InlineImpact.Csv
