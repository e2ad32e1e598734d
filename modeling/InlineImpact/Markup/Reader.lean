import InlineImpact.Markup.Hedge
import InlineImpact.Markup.Scope
import InlineImpact.Text.Lines
import InlineImpact.Text.Numeral

/-!
Reading a document that is one element. The reader takes one character after the other; its state
says which piece of markup it is in and which elements are open. Comments and instructions leave no
trace, so that the text around them is one text. A document type is not accepted, and of the named
characters only the five that every document knows.
-/
namespace InlineImpact.Markup

/-- A start tag as far as it has been read. -/
structure StartTag where
  name : List Char
  attributes : List (List Char × List Char) := []

/-- The piece of markup that the next character belongs to. Partial names, values and references
are kept in reverse. -/
inductive Mode where
  /-- Text; counts the closing brackets just read, up to two. -/
  | content (brackets : Nat)
  | reference (body : List Char)
  /-- After `<`. -/
  | angle
  | startName (name : List Char)
  | betweenAttributes (tag : StartTag)
  | attributeName (tag : StartTag) (name : List Char)
  | beforeEquals (tag : StartTag) (name : List Char)
  | beforeValue (tag : StartTag) (name : List Char)
  | value (tag : StartTag) (name : List Char) (quote : Char) (read : List Char)
  | valueReference (tag : StartTag) (name : List Char) (quote : Char) (read body : List Char)
  | afterValue (tag : StartTag)
  /-- After the slash of an empty element. -/
  | slash (tag : StartTag)
  | endName (name : List Char)
  | afterEndName (name : List Char)
  /-- After `<!`, in order. -/
  | mark (seen : List Char)
  | comment (dashes : Nat)
  /-- Verbatim text; counts the closing brackets held back, up to two. -/
  | verbatim (brackets : Nat)
  | target (name : List Char)
  | afterTarget
  | instruction (question : Bool)

/-- An open element: its name as written, its full name, the scope around it, its text so far and
its children so far, both in reverse. -/
structure Frame where
  name : List Char
  tag : String
  outside : Scope
  text : List Char := []
  children : List Element := []

structure Reading where
  mode : Mode := .content 0
  scope : Scope := baseScope
  frames : List Frame := []
  root : Option Element := none

def isMarkupBlank (c : Char) : Bool := c == ' ' || c == '\t' || c == '\n' || c == '\r'

/-- The characters that a document may hold. -/
def isMarkupChar (c : Char) : Bool :=
  (32 ≤ c.toNat || isMarkupBlank c) && c.toNat != 0xFFFE && c.toNat != 0xFFFF

/-- The character with a given number, if a document may hold it. -/
def charOfNumber? (n : Nat) : Option Char :=
  if n.isValidChar then some (Char.ofNat n) |>.filter isMarkupChar else none

/-- The character that a reference stands for. -/
def resolve? (body : List Char) : Option Char :=
  match body with
  | '#' :: 'x' :: ds =>
    if ds.all (fun c => (Text.digitIn? 16 c).isSome) && !ds.isEmpty then
      charOfNumber? (Text.ofDigits 16 (ds.filterMap Text.asciiDigit?))
    else none
  | '#' :: ds =>
    if ds.all Char.isDigit && !ds.isEmpty then
      charOfNumber? (Text.ofDigits 10 (ds.filterMap Text.asciiDigit?))
    else none
  | _ =>
    match String.ofList body with
    | "lt" => some '<'
    | "gt" => some '>'
    | "amp" => some '&'
    | "quot" => some '"'
    | "apos" => some '\''
    | _ => none

namespace Reading

def inMode (s : Reading) (m : Mode) : Reading := { s with mode := m }

/-- Adds a character to the text of the innermost element, unless a child has closed already. -/
def addText (s : Reading) (c : Char) : Option Reading :=
  match s.frames with
  | [] => none
  | f :: rest =>
    if f.children.isEmpty then some { s with frames := { f with text := c :: f.text } :: rest }
    else some s

def openElement (s : Reading) (tag : StartTag) : Option Reading := do
  let (inside, full) ← enter? s.scope tag.name tag.attributes.reverse
  return { s with
    mode := .content 0
    scope := inside
    frames := { name := tag.name, tag := String.ofList full, outside := s.scope } :: s.frames }

/-- Closes the innermost element; its name has to be the given one. -/
def closeElement (s : Reading) (name : List Char) : Option Reading :=
  match s.frames with
  | [] => none
  | f :: rest =>
    if f.name ≠ name then none
    else
      let e : Element := ⟨f.tag, String.ofList f.text.reverse, .ofList f.children.reverse⟩
      let s := { s with mode := .content 0, scope := f.outside }
      match rest with
      | [] => some { s with frames := [], root := some e }
      | g :: more => some { s with frames := { g with children := e :: g.children } :: more }

/-- The reader after one more character, unless the document is malformed. -/
def step (s : Reading) (c : Char) : Option Reading :=
  if s.root.isSome || !isMarkupChar c then none
  else match s.mode with
  | .content brackets =>
    if c == '<' then some (s.inMode .angle)
    else if s.frames.isEmpty then none
    else if c == '&' then some (s.inMode (.reference []))
    else if c == '>' && brackets == 2 then none
    else (s.addText c).map (·.inMode (.content (if c == ']' then min 2 (brackets + 1) else 0)))
  | .reference body =>
    if c == ';' then do
      return (← s.addText (← resolve? body.reverse)).inMode (.content 0)
    else some (s.inMode (.reference (c :: body)))
  | .angle =>
    if c == '/' then some (s.inMode (.endName []))
    else if c == '!' then some (s.inMode (.mark []))
    else if c == '?' then some (s.inMode (.target []))
    else if startsName c then some (s.inMode (.startName [c]))
    else none
  | .startName name =>
    if insideName c || c == ':' then some (s.inMode (.startName (c :: name)))
    else if isMarkupBlank c then some (s.inMode (.betweenAttributes ⟨name.reverse, []⟩))
    else if c == '>' then s.openElement ⟨name.reverse, []⟩
    else if c == '/' then some (s.inMode (.slash ⟨name.reverse, []⟩))
    else none
  | .betweenAttributes tag =>
    if isMarkupBlank c then some s
    else if c == '>' then s.openElement tag
    else if c == '/' then some (s.inMode (.slash tag))
    else if startsName c then some (s.inMode (.attributeName tag [c]))
    else none
  | .attributeName tag name =>
    if insideName c || c == ':' then some (s.inMode (.attributeName tag (c :: name)))
    else if c == '=' then some (s.inMode (.beforeValue tag name))
    else if isMarkupBlank c then some (s.inMode (.beforeEquals tag name))
    else none
  | .beforeEquals tag name =>
    if isMarkupBlank c then some s
    else if c == '=' then some (s.inMode (.beforeValue tag name))
    else none
  | .beforeValue tag name =>
    if isMarkupBlank c then some s
    else if c == '"' || c == '\'' then some (s.inMode (.value tag name c []))
    else none
  | .value tag name quote read =>
    if c == quote then
      some (s.inMode (.afterValue
        { tag with attributes := (name.reverse, read.reverse) :: tag.attributes }))
    else if c == '<' then none
    else if c == '&' then some (s.inMode (.valueReference tag name quote read []))
    else some (s.inMode (.value tag name quote ((if isMarkupBlank c then ' ' else c) :: read)))
  | .valueReference tag name quote read body =>
    if c == ';' then do
      return s.inMode (.value tag name quote ((← resolve? body.reverse) :: read))
    else some (s.inMode (.valueReference tag name quote read (c :: body)))
  | .afterValue tag =>
    if isMarkupBlank c then some (s.inMode (.betweenAttributes tag))
    else if c == '>' then s.openElement tag
    else if c == '/' then some (s.inMode (.slash tag))
    else none
  | .slash tag =>
    if c == '>' then do (← s.openElement tag).closeElement tag.name else none
  | .endName name =>
    if insideName c || c == ':' then some (s.inMode (.endName (c :: name)))
    else if isMarkupBlank c then some (s.inMode (.afterEndName name))
    else if c == '>' then s.closeElement name.reverse
    else none
  | .afterEndName name =>
    if isMarkupBlank c then some s
    else if c == '>' then s.closeElement name.reverse
    else none
  | .mark seen =>
    let seen := seen ++ [c]
    if seen == ['-', '-'] then some (s.inMode (.comment 0))
    else if seen == "[CDATA[".toList then
      if s.frames.isEmpty then none else some (s.inMode (.verbatim 0))
    else if seen.isPrefixOf ['-', '-'] || seen.isPrefixOf "[CDATA[".toList then
      some (s.inMode (.mark seen))
    else none
  | .comment dashes =>
    if dashes == 2 then
      if c == '>' then some (s.inMode (.content 0)) else none
    else some (s.inMode (.comment (if c == '-' then dashes + 1 else 0)))
  | .verbatim brackets =>
    if c == ']' then
      if brackets == 2 then s.addText ']' else some (s.inMode (.verbatim (brackets + 1)))
    else if c == '>' && brackets == 2 then some (s.inMode (.content 0))
    else do
      let held ← (List.replicate brackets ']').foldlM addText s
      return (← held.addText c).inMode (.verbatim 0)
  | .target name =>
    if insideName c && (!name.isEmpty || startsName c) then some (s.inMode (.target (c :: name)))
    else if name.isEmpty || name.reverse.map Char.toLower == "xml".toList then none
    else if c == '?' then some (s.inMode .afterTarget)
    else if isMarkupBlank c then some (s.inMode (.instruction false))
    else none
  | .afterTarget => if c == '>' then some (s.inMode (.content 0)) else none
  | .instruction question =>
    if c == '>' && question then some (s.inMode (.content 0))
    else some (s.inMode (.instruction (c == '?')))

end Reading

/-- Reads a document that consists of one element and nothing around it. -/
def readDocument? (s : List Char) : Option Element := do
  (← (Text.unifyLineEnds s).foldlM Reading.step {}).root

end InlineImpact.Markup
