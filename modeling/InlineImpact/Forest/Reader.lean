import InlineImpact.Forest
import InlineImpact.Markup.Reader
import InlineImpact.Text.Word

/-!
Reading a forest out of a log. The log holds the report as markup, somewhere between other text; the
first report that is closed again counts.
-/
namespace InlineImpact

inductive ForestFault where
  | noForest
  | malformedMarkup
  | missingValue (field : String)
  | badInteger (field : String) (text : String)
  /-- The log cannot be read; the text says why. -/
  | unreadable (path : String) (why : String)
  deriving DecidableEq, Repr

def ForestFault.message : ForestFault → String
  | .noForest => "No <InlineForest> element found"
  | .malformedMarkup => "Inline forest XML is malformed"
  | .missingValue field => "Missing value for " ++ field
  | .badInteger field text => "Bad integer for " ++ field ++ ": " ++ Text.quoted text
  | .unreadable path why => "Cannot read inline forest " ++ path ++ ": " ++ why

namespace Forest

def opening : List Char := "<InlineForest".toList

def closing : List Char := "</InlineForest>".toList

/-- The text up to and with the first closing tag. -/
def throughClosing? : List Char → Option (List Char)
  | [] => none
  | c :: rest =>
    if closing.isPrefixOf (c :: rest) then some closing else (throughClosing? rest).map (c :: ·)

/-- The tag's name ends here. -/
def endsName : List Char → Bool
  | [] => true
  | c :: _ => !Text.isWord c

/-- The first report of a log, from its opening tag through the first closing one. -/
def excerpt? : List Char → Option (List Char)
  | [] => none
  | c :: rest =>
    let s := c :: rest
    if opening.isPrefixOf s && endsName (s.drop opening.length) then
      (throughClosing? (s.drop opening.length)).map (opening ++ ·)
    else excerpt? rest

/-- An integer in base ten, or in base sixteen after the mark `0x`. -/
def readInteger (field : String) (text : Option String) : Except ForestFault Int :=
  let s := Text.trim (text.getD "").toList
  if s.isEmpty then .error (.missingValue field)
  else
    let value :=
      match s with
      | '0' :: 'x' :: _ => Text.readHex? s
      | '0' :: 'X' :: _ => Text.readHex? s
      | _ => Text.readInt? s
    match value with
    | some n => .ok n
    | none => .error (.badInteger field (String.ofList s))

/-- An integer that may be left out, or be empty. -/
def readOptional (field : String) (text : Option String) : Except ForestFault Int :=
  if (text.getD "").isEmpty then .ok 0 else readInteger field text

/-- A number where the text is one. -/
def readFeature (text : String) : Datum :=
  let s := Text.trim text.toList
  match Text.readInt? s with
  | some n => .int n
  | none =>
    match Text.readFloat? s with
    | some x => .float x
    | none => .text (String.ofList s)

/-- Elements of a decision that are part of its structure. -/
def structuralTags : List String :=
  ["Inlines", "MethodToken", "Hash", "Offset", "Reason", "Data"]

/-- All that was observed at a call site: what is listed under `Data`, and childless elements beside
it. -/
def featuresOf (inner : Markup.Hedge) : Keyed String Datum :=
  let beside := inner.toList.filter fun e => !structuralTags.contains e.tag && e.inner.isEmpty
  let listed := (inner.find? "Data").elim [] (·.inner.toList)
  Keyed.ofPairs ((beside ++ listed).map fun e => (e.tag, readFeature e.text))

def readDecision (caller : MethodId) (above : CallPath) (inner : Markup.Hedge) :
    Except ForestFault Decision := do
  let token ← readInteger "Inline/MethodToken" (inner.textOf? "MethodToken")
  let offset ← readInteger "Inline/Offset" (inner.textOf? "Offset")
  let hash ← readOptional "Inline/Hash" (inner.textOf? "Hash")
  return {
    above, site := ⟨offset, token⟩, calleeHash := hash, caller := some caller
    reason := Text.trimText ((inner.textOf? "Reason").getD "")
    features := featuresOf inner }

/-- Reads the decisions below `above`, each before those inside it. With `listed` the hedge is the
list itself, otherwise the list is the first `Inlines` element of the hedge. -/
def readDecisions (listed : Bool) (caller : MethodId) (above : CallPath) :
    Markup.Hedge → Except ForestFault (List Decision)
  | .empty => .ok []
  | .element tag _ inner rest =>
    if listed then
      if tag = "Inline" then do
        let d ← readDecision caller above inner
        let inside ← readDecisions false d.callee d.path inner
        let others ← readDecisions true caller above rest
        return d :: (inside ++ others)
      else readDecisions true caller above rest
    else if tag = "Inlines" then readDecisions true caller above inner
    else readDecisions false caller above rest

/-- A field of a root's record; one that is missing or blank is zero. -/
def readField (inner : Markup.Hedge) (tag : String) : Except ForestFault Int :=
  let text := (inner.textOf? tag).getD ""
  if (Text.trim text.toList).isEmpty then .ok 0 else readInteger ("Method/" ++ tag) (some text)

def readReport (inner : Markup.Hedge) : Except ForestFault MethodReport := do
  let token ← readInteger "Method/Token" (inner.textOf? "Token")
  let hash ← readOptional "Method/Hash" (inner.textOf? "Hash")
  let root : MethodId := ⟨token, hash⟩
  let inlineCount ← readField inner "InlineCount"
  let hotSize ← readField inner "HotSize"
  let coldSize ← readField inner "ColdSize"
  let jitTime ← readField inner "JitTime"
  let sizeEstimate ← readField inner "SizeEstimate"
  let timeEstimate ← readField inner "TimeEstimate"
  let callCount ← readField inner "CallCount"
  let decisions ← readDecisions false root [] inner
  return ⟨root, { inlineCount, hotSize, coldSize, jitTime, sizeEstimate, timeEstimate, callCount },
    decisions⟩

/-- Reads the methods of a report. -/
def readReports (document : Markup.Hedge) : Except ForestFault (List MethodReport) :=
  match document.find? "Methods" with
  | none => .ok []
  | some methods => (methods.inner.findAll "Method").mapM fun e => readReport e.inner

/-- Reads the forest of a log. -/
def read (log : List Char) : Except ForestFault Forest := do
  match excerpt? log with
  | none => .error .noForest
  | some s =>
    match Markup.readDocument? s with
    | none => .error .malformedMarkup
    | some document => return ofReports (← readReports document.inner)

end Forest

end InlineImpact
