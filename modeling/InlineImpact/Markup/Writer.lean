import InlineImpact.Markup.Hedge

/-!
Writing element trees. Each element starts on a line of its own, two blanks further in than the
element around it; an element without content is a single tag.
-/
namespace InlineImpact.Markup

/-- Characters with a meaning in markup are written by name. -/
def escapeChar : Char → List Char
  | '&' => ['&', 'a', 'm', 'p', ';']
  | '<' => ['&', 'l', 't', ';']
  | '>' => ['&', 'g', 't', ';']
  | c => [c]

def lineAt (level : Nat) : List Char := '\n' :: List.replicate (2 * level) ' '

def openTag (tag : List Char) : List Char := '<' :: (tag ++ ['>'])

def closeTag (tag : List Char) : List Char := '<' :: '/' :: (tag ++ ['>'])

def emptyTag (tag : List Char) : List Char := '<' :: (tag ++ [' ', '/', '>'])

/-- The elements of a hedge, each on a new line at this level. -/
def writeHedge (level : Nat) : Hedge → List Char
  | .empty => []
  | .element tag text inner rest =>
    let body :=
      match inner with
      | .empty =>
        if text.isEmpty then emptyTag tag.toList
        else openTag tag.toList ++ text.toList.flatMap escapeChar ++ closeTag tag.toList
      | .element .. =>
        openTag tag.toList ++ writeHedge (level + 1) inner ++ lineAt level ++ closeTag tag.toList
    lineAt level ++ body ++ writeHedge level rest

/-- One element as a document, ended by a line feed. -/
def writeDocument (tag : String) (inner : Hedge) : List Char :=
  (writeHedge 0 (.node tag inner)).drop 1 ++ ['\n']

end InlineImpact.Markup
