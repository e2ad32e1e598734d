import InlineImpact.Yaml.Scalar

/-!
Tokens of suite files. Nesting is shown by indentation in blocks and by brackets in flows; a token
may turn out to start a key when a colon follows, and then the tokens that make it one are put in
front of it. Where the text cannot be cut further a last token says why.
-/
namespace InlineImpact.Yaml

/-- A line in front of a document. -/
inductive Directive where
  | version (major : Nat)
  /-- A short name for the first part of tags. -/
  | handle (name start : String)
  | other
  deriving DecidableEq, Repr

inductive Token where
  | directive (d : Directive)
  | documentStart
  | documentEnd
  | blockSequence
  | blockMapping
  | blockEnd
  | entry
  | key
  | value
  | flowSequence
  | flowSequenceEnd
  | flowMapping
  | flowMappingEnd
  | comma
  | anchor (name : String)
  | reference (name : String)
  | tag (handle : Option String) (suffix : String)
  | scalar (text : String) (plain : Bool)
  | fault (f : Fault)
  deriving DecidableEq, Repr

/-- A token that becomes a key if a colon follows it. -/
structure Candidate where
  /-- The number of its token. -/
  number : Nat
  required : Bool
  place : Cursor

structure Scan where
  place : Cursor
  tokens : Array Token := #[]
  /-- How many brackets are open. -/
  flow : Nat := 0
  indent : Int := -1
  indents : List Int := []
  keyAllowed : Bool := true
  /-- The candidate of each open bracket level. -/
  candidates : List (Nat × Candidate) := []

/-- What a step comes to, or the file is malformed. -/
def orMalformed (o : Option α) : Except Fault α := o.elim (.error .malformed) .ok

namespace Scan

def push (s : Scan) (t : Token) : Scan := { s with tokens := s.tokens.push t }

/-- Leaves the blocks that are indented further than `column`. -/
def unwindTo (column : Int) : List Int → Scan → Scan
  | [], s => s
  | outer :: rest, s =>
    if column < s.indent then
      unwindTo column rest ({ s with indent := outer, indents := rest }.push .blockEnd)
    else s

def unwind (s : Scan) (column : Int) : Scan :=
  if s.flow > 0 then s else unwindTo column s.indents s

/-- Enters a block at a column further in than the current one. -/
def indentTo (s : Scan) (column : Nat) (number : Nat) (t : Token) : Scan :=
  if s.indent < column then
    { s with
      indents := s.indent :: s.indents, indent := column
      tokens := (s.tokens.extract 0 number).push t ++ s.tokens.extract number s.tokens.size }
  else s

def enter (s : Scan) (t : Token) : Scan := s.indentTo s.place.column s.tokens.size t

/-- Drops the candidate of this level; it is an error if it had to become a key. -/
def dropCandidate (s : Scan) : Except Fault Scan :=
  match s.candidates.lookup s.flow with
  | none => .ok s
  | some c =>
    if c.required then .error .malformed
    else .ok { s with candidates := s.candidates.filter (·.1 ≠ s.flow) }

/-- Drops candidates that are on an earlier line or too far back. -/
def dropStale (s : Scan) : Except Fault Scan :=
  let isStale (c : Candidate) : Bool :=
    c.place.line != s.place.line || s.place.index - c.place.index > 1024
  if s.candidates.any fun (_, c) => isStale c && c.required then .error .malformed
  else .ok { s with candidates := s.candidates.filter fun (_, c) => !isStale c }

/-- Makes the next token a candidate, where a key may stand. -/
def saveCandidate (s : Scan) : Except Fault Scan :=
  if !s.keyAllowed then .ok s
  else do
    let required := s.flow = 0 && s.indent = s.place.column
    let s ← s.dropCandidate
    return { s with candidates := (s.flow, ⟨s.tokens.size, required, s.place⟩) :: s.candidates }

/-- Past spaces, comments and line breaks. -/
def skipGaps (s : Scan) : (fuel : Nat) → Scan
  | 0 => s
  | fuel + 1 =>
    let p := s.place.skipComment
    match p.lineBreak? with
    | none => { s with place := p }
    | some (_, p) =>
      skipGaps { s with place := p, keyAllowed := s.keyAllowed || s.flow = 0 } fuel

/-! ### Indicators -/

/-- A single-character token that is no text. -/
def indicator (s : Scan) (t : Token) : Scan := { s.push t with place := s.place.step }

def startFlow (s : Scan) (t : Token) : Except Fault Scan := do
  let s ← s.saveCandidate
  return { s.indicator t with flow := s.flow + 1, keyAllowed := true }

/-- A closing bracket without an opening one cannot be part of a file. -/
def endFlow (s : Scan) (t : Token) : Except Fault Scan := do
  let s ← s.dropCandidate
  if s.flow = 0 then .error .malformed
  else return { s.indicator t with flow := s.flow - 1, keyAllowed := false }

def comma (s : Scan) : Except Fault Scan := do
  let s ← dropCandidate s
  return { s.indicator .comma with keyAllowed := true }

def marker (s : Scan) (t : Token) : Except Fault Scan := do
  let s ← (s.unwind (-1)).dropCandidate
  return { s.push t with place := s.place.advance 3, keyAllowed := false }

/-- Outside of brackets an indicator opens a block, where a key may stand. -/
def enterBlock (s : Scan) (t : Token) : Except Fault Scan :=
  if s.flow > 0 then .ok s
  else if s.keyAllowed then .ok (s.enter t)
  else .error .malformed

def entry (s : Scan) : Except Fault Scan := do
  let s ← (← s.enterBlock .blockSequence).dropCandidate
  return { s.indicator .entry with keyAllowed := true }

def key (s : Scan) : Except Fault Scan := do
  let s ← (← s.enterBlock .blockMapping).dropCandidate
  return { s.indicator .key with keyAllowed := s.flow = 0 }

/-- A colon: it turns the candidate of this level into a key, if there is one. -/
def value (s : Scan) : Except Fault Scan :=
  match s.candidates.lookup s.flow with
  | some c =>
    let tokens := (s.tokens.extract 0 c.number).push .key ++ s.tokens.extract c.number s.tokens.size
    let s := { s with tokens, candidates := s.candidates.filter (·.1 ≠ s.flow) }
    let s := if s.flow = 0 then s.indentTo c.place.column c.number .blockMapping else s
    .ok { s.indicator .value with keyAllowed := false }
  | none => do
    let s ← s.enterBlock .blockMapping
    return { s.indicator .value with keyAllowed := s.flow = 0 }

/-! ### Texts -/

def plain (s : Scan) : Except Fault Scan := do
  let s ← s.saveCandidate
  let (place, broken, text) :=
    plainText (s.flow > 0) (s.indent + 1) [] [] false (s.place.rest.length + 1) s.place
  return { s.push (.scalar (String.ofList text) true) with place, keyAllowed := broken }

def quoted (s : Scan) (quote : Char) : Except Fault Scan := do
  let s ← s.saveCandidate
  let (place, text) ← quotedText quote [] (s.place.rest.length + 1) s.place.step
  return { s.push (.scalar (String.ofList text) false) with place, keyAllowed := false }

/-- A block of lines cannot be a key. -/
def block (s : Scan) (folded : Bool) : Except Fault Scan := do
  let s ← s.dropCandidate
  let (place, text) ← blockText folded s.indent s.place.step
  return { s.push (.scalar (String.ofList text) false) with place, keyAllowed := true }

/-! ### Names, tags and directives -/

/-- The name of a node, after the indicator. -/
def name (s : Scan) (token : String → Token) : Except Fault Scan := do
  let s ← s.saveCandidate
  let (name, place) := s.place.step.span isNameChar
  let ends := place.head?.elim true fun c =>
    isGap c || ['?', ':', ',', ']', '\x7d', '%', '@', Char.ofNat 96].contains c
  if name.isEmpty || !ends then .error .malformed
  else return { s.push (token (String.ofList name)) with place, keyAllowed := false }

/-- The characters of tags. -/
def isTagChar (c : Char) : Bool := c.isAlphanum || "-;/?:@&=+$,_.!~*'()[]%".toList.contains c

/-- Bytes written as a sign and two digits each. -/
def tagBytes : (fuel : Nat) → List Char → Option (List UInt8)
  | 0, _ => none
  | fuel + 1, s =>
    match s with
    | '%' :: rest => do
      let n ← hexNumber? 2 rest
      return UInt8.ofNat n :: (← tagBytes fuel (rest.drop 2))
    | _ => some []

/-- Characters of a tag, the ones that are written as bytes included. -/
def tagChars : (fuel : Nat) → List Char → Option (List Char)
  | 0, _ => none
  | fuel + 1, s =>
    match s with
    | [] => some []
    | c :: rest =>
      if c ≠ '%' then (tagChars fuel rest).map (c :: ·)
      else do
        let bytes ← tagBytes fuel s
        let text ← String.fromUTF8? (ByteArray.mk bytes.toArray)
        return text.toList ++ (← tagChars fuel (s.drop (3 * bytes.length)))

/-- A part of a tag, which is not empty. -/
def tagPart? (p : Cursor) : Option (String × Cursor) := do
  let (run, q) := p.span isTagChar
  if run.isEmpty then none
  else return (String.ofList (← tagChars (run.length + 1) run), q)

/-- A short name for the first part of tags: a name between two marks, one mark or both. -/
def handle? (p : Cursor) : Option (String × Cursor) := do
  let (name, q) := (← p.past? '!').span isNameChar
  match q.past? '!' with
  | some q => return ("!" ++ String.ofList name ++ "!", q)
  | none => if name.isEmpty && q.head? == some ' ' then return ("!", q) else none

def tag? (p : Cursor) : Option (Token × Cursor) := do
  let rest := p.rest.drop 1
  let (t, p) ←
    if rest.head? == some '<' then do
      let (suffix, p) ← tagPart? (p.advance 2)
      return (Token.tag none suffix, ← p.past? '>')
    else if endsHere rest then some (Token.tag none "!", p.step)
    else do
      let word := rest.takeWhile fun c => c ≠ ' ' && !isBreak c
      let (handle, p) ← if word.contains '!' then handle? p else some ("!", p.step)
      let (suffix, p) ← tagPart? p
      return (Token.tag (some handle) suffix, p)
  if p.atWordEnd then return (t, p) else none

def tag (s : Scan) : Except Fault Scan := do
  let s ← s.saveCandidate
  let (t, place) ← orMalformed (tag? s.place)
  return { s.push t with place, keyAllowed := false }

/-- The numbers of a version, of which the first one matters. -/
def version? (p : Cursor) : Option (Directive × Cursor) := do
  let (major, p) := (p.skip (· == ' ')).span Char.isDigit
  let (minor, p) := (← p.past? '.').span Char.isDigit
  if major.isEmpty || minor.isEmpty || !p.atWordEnd then none
  else return (.version (major.foldl (fun n c => n * 10 + (c.toNat - 48)) 0), p)

def handleDirective? (p : Cursor) : Option (Directive × Cursor) := do
  let (handle, p) ← handle? (p.skip (· == ' '))
  if p.head? ≠ some ' ' then none
  else
    let (start, p) ← tagPart? (p.skip (· == ' '))
    if p.atWordEnd then return (.handle handle start, p) else none

/-- A directive, after its indicator; an unknown one is skipped. -/
def directive? (p : Cursor) : Option (Directive × Cursor) := do
  let (name, p) := p.span isNameChar
  if name.isEmpty || !p.atWordEnd then none
  else
    let (d, p) ← match String.ofList name with
      | "YAML" => version? p
      | "TAG" => handleDirective? p
      | _ => some (.other, p.skip (!isBreak ·))
    return (d, ← p.endLine?)

def directive (s : Scan) : Except Fault Scan := do
  let s ← (s.unwind (-1)).dropCandidate
  let (d, place) ← orMalformed (directive? s.place.step)
  return { s.push (.directive d) with place, keyAllowed := false }

/-! ### All tokens -/

/-- A plain text may start with this character. -/
def startsPlain (inFlow : Bool) (c : Char) (rest : List Char) : Bool :=
  let indicators := "-?:,[]#&*!|>'\"%@".toList ++ ['\x7b', '\x7d', Char.ofNat 96]
  !(isGap c || indicators.contains c) ||
    (!endsHere rest && (c == '-' || (!inFlow && (c == '?' || c == ':'))))

/-- Reads the next token; the text has not ended. -/
def token (s : Scan) (c : Char) (rest : List Char) : Except Fault Scan :=
  if s.place.column = 0 && c == '%' then s.directive
  else if s.place.column = 0 && s.place.atMarker then
    s.marker (if c == '-' then .documentStart else .documentEnd)
  else
    let inFlow : Bool := s.flow > 0
    match c with
    | '[' => s.startFlow .flowSequence
    | '\x7b' => s.startFlow .flowMapping
    | ']' => s.endFlow .flowSequenceEnd
    | '\x7d' => s.endFlow .flowMappingEnd
    | ',' => s.comma
    | '*' => s.name .reference
    | '&' => s.name .anchor
    | '!' => s.tag
    | '\'' => s.quoted c
    | '"' => s.quoted c
    | _ =>
      if c == '-' && endsHere rest then s.entry
      else if c == '?' && (inFlow || endsHere rest) then s.key
      else if c == ':' && (inFlow || endsHere rest) then s.value
      else if (c == '|' || c == '>') && !inFlow then s.block (c == '>')
      else if startsPlain inFlow c rest then s.plain
      else .error .malformed

/-- Past the gap before the next token, and out of the blocks that it is not part of. -/
def approach (s : Scan) : Except Fault Scan := do
  let s ← (s.skipGaps (s.place.rest.length + 1)).dropStale
  return s.unwind s.place.column

/-- The tokens that are read, ended by what is wrong after them. -/
def stop (s : Scan) (f : Fault) : List Token := (s.push (.fault f)).tokens.toList

/-- Reads tokens to the end of the text. -/
def all : (fuel : Nat) → Scan → List Token
  | 0, s => s.stop .malformed
  | fuel + 1, s =>
    match s.approach with
    | .error f => s.stop f
    | .ok s =>
      match s.place.rest with
      | [] => match (s.unwind (-1)).dropCandidate with
        | .error f => s.stop f
        | .ok s => s.tokens.toList
      | c :: rest => match s.token c rest with
        | .error f => s.stop f
        | .ok next => all fuel next

end Scan

def tokens (s : List Char) : List Token :=
  if s.all isAllowed then Scan.all (s.length + 2) { place := Cursor.start s }
  else [.fault .malformed]

end InlineImpact.Yaml
