import InlineImpact.Yaml.Kind
import InlineImpact.Yaml.Token

/-!
Nodes of suite files: texts, sequences and mappings, as the tokens nest them. A reference stands for
the node of its name, which has to be complete.
-/
namespace InlineImpact.Yaml

inductive Node where
  | scalar (kind : Kind) (text : String)
  | sequence (kind : Kind) (items : List Node)
  | mapping (kind : Kind) (pairs : List (Node × Node))

/-- What is left of a file, and what it has defined so far. -/
structure Reading where
  tokens : List Token
  /-- What the short names stand for that tags may start with. -/
  handles : List (String × String) := [("!", "!"), ("!!", Kind.tagBase)]
  /-- The nodes that have a name; one that is not complete has no node yet. -/
  nodes : List (String × Option Node) := []

namespace Reading

def next? (r : Reading) : Option Token := r.tokens.head?

def isNextIn (r : Reading) (ts : List Token) : Bool := r.next?.any ts.contains

def drop (r : Reading) : Reading := { r with tokens := r.tokens.tail }

/-- The file cannot be read further, for the reason that its last token gives if that is next. -/
def fail (r : Reading) : Except Fault α :=
  match r.next? with
  | some (.fault f) => .error f
  | _ => .error .malformed

/-- A name is used once. -/
def define (r : Reading) (name : String) : Except Fault Reading :=
  if (r.nodes.lookup name).isSome then .error .malformed
  else .ok { r with nodes := (name, none) :: r.nodes }

def complete (r : Reading) (name : Option String) (node : Node) : Reading :=
  match name with
  | none => r
  | some name => { r with nodes := (name, some node) :: r.nodes }

/-- The node that a reference stands for. -/
def resolve (r : Reading) (name : String) : Except Fault Node :=
  orMalformed ((r.nodes.lookup name).bind id)

def fullTag (r : Reading) (handle : Option String) (suffix : String) : Except Fault String :=
  match handle with
  | none => .ok suffix
  | some h => (orMalformed (r.handles.lookup h)).map (· ++ suffix)

end Reading

/-- The name and the tag that stand in front of a node. -/
structure Properties where
  name : Option String := none
  tag : Option String := none

namespace Properties

def isEmpty (p : Properties) : Bool := p.name.isNone && p.tag.isNone

/-- Reads a tag, if one is next. -/
def readTag (r : Reading) : Option (Option String × String) × Reading :=
  match r.next? with
  | some (.tag handle suffix) => (some (handle, suffix), r.drop)
  | _ => (none, r)

/-- Reads a name, if one is next. -/
def readName (r : Reading) : Option String × Reading :=
  match r.next? with
  | some (.anchor name) => (some name, r.drop)
  | _ => (none, r)

/-- A name and a tag may stand in any order. -/
def read (r : Reading) : Except Fault (Properties × Reading) := do
  let (before, r) := readTag r
  let (name, r) := readName r
  let (tag, r) := match before with
    | some t => (some t, r)
    | none => if name.isSome then readTag r else (none, r)
  match tag with
  | none => return (⟨name, none⟩, r)
  | some (handle, suffix) => return (⟨name, some (← r.fullTag handle suffix)⟩, r)

/-- A tag that is a single mark stands for no kind. -/
def kindOr (p : Properties) (k : Kind) : Kind :=
  match p.tag with
  | none => k
  | some tag => if tag == "!" then k else Kind.ofTag tag

/-- The kind of a text. Without a tag a quoted text is a text, and the mark alone makes it plain. -/
def textKind (p : Properties) (text : String) (plain : Bool) : Kind :=
  if p.tag.isNone && !plain then .text else p.kindOr (Kind.ofPlain text)

end Properties

namespace Node

def kind : Node → Kind
  | scalar k _ | sequence k _ | mapping k _ => k

/-- A value that is left out. -/
def omitted : Node := scalar .null ""

mutual

/-- Reads one node. In the place of a value, entries without an indentation of their own make a
sequence, too. -/
def read (inBlock indentless : Bool) : (fuel : Nat) → Reading → Except Fault (Node × Reading)
  | 0, r => r.fail
  | fuel + 1, r =>
    match r.next? with
    | some (.reference name) => do return (← r.resolve name, r.drop)
    | _ => do
      let (p, r) ← Properties.read r
      let r ← p.name.elim (.ok r) r.define
      let (node, r) ← readContent p inBlock indentless fuel r
      return (node, r.complete p.name node)

/-- Reads a node after its name and tag. -/
def readContent (p : Properties) (inBlock indentless : Bool) : (fuel : Nat) → Reading →
    Except Fault (Node × Reading)
  | 0, r => r.fail
  | fuel + 1, r =>
    match r.next?, indentless, inBlock with
    | some .entry, true, _ => do
      let (items, r) ← looseItems fuel r
      return (sequence (p.kindOr .list) items, r)
    | some (.scalar text plain), _, _ => .ok (scalar (p.textKind text plain) text, r.drop)
    | some .flowSequence, _, _ => do
      let (items, r) ← flowItems true fuel r.drop
      return (sequence (p.kindOr .list) items, r)
    | some .flowMapping, _, _ => do
      let (pairs, r) ← flowPairs true fuel r.drop
      return (mapping (p.kindOr .map) pairs, r)
    | some .blockSequence, _, true => do
      let (items, r) ← blockItems fuel r.drop
      return (sequence (p.kindOr .list) items, r)
    | some .blockMapping, _, true => do
      let (pairs, r) ← blockPairs fuel r.drop
      return (mapping (p.kindOr .map) pairs, r)
    | _, _, _ => if p.isEmpty then r.fail else .ok (scalar (p.textKind "" true) "", r)

/-- Reads a node unless one of these tokens is next, which leaves it out. -/
def readUnless (stops : List Token) (inBlock indentless : Bool) : (fuel : Nat) → Reading →
    Except Fault (Node × Reading)
  | 0, r => r.fail
  | fuel + 1, r =>
    if r.isNextIn stops then .ok (omitted, r) else read inBlock indentless fuel r

def blockItems : (fuel : Nat) → Reading → Except Fault (List Node × Reading)
  | 0, r => r.fail
  | fuel + 1, r =>
    match r.next? with
    | some .blockEnd => .ok ([], r.drop)
    | some .entry => do
      let (item, r) ← readUnless [.entry, .blockEnd] true false fuel r.drop
      let (items, r) ← blockItems fuel r
      return (item :: items, r)
    | _ => r.fail

def looseItems : (fuel : Nat) → Reading → Except Fault (List Node × Reading)
  | 0, r => r.fail
  | fuel + 1, r =>
    match r.next? with
    | some .entry => do
      let (item, r) ← readUnless [.entry, .key, .value, .blockEnd] true false fuel r.drop
      let (items, r) ← looseItems fuel r
      return (item :: items, r)
    | _ => .ok ([], r)

/-- The value of a pair, if it has one. -/
def readValue (stops : List Token) (inBlock : Bool) : (fuel : Nat) → Reading →
    Except Fault (Node × Reading)
  | 0, r => r.fail
  | fuel + 1, r =>
    match r.next? with
    | some .value => readUnless stops inBlock inBlock fuel r.drop
    | _ => .ok (omitted, r)

def blockPairs : (fuel : Nat) → Reading → Except Fault (List (Node × Node) × Reading)
  | 0, r => r.fail
  | fuel + 1, r =>
    match r.next? with
    | some .blockEnd => .ok ([], r.drop)
    | some .key => do
      let stops := [.key, .value, .blockEnd]
      let (k, r) ← readUnless stops true true fuel r.drop
      let (v, r) ← readValue stops true fuel r
      let (pairs, r) ← blockPairs fuel r
      return ((k, v) :: pairs, r)
    | _ => r.fail

/-- Items of a flow sequence; one that is a pair makes a mapping of its own. -/
def flowItems (first : Bool) : (fuel : Nat) → Reading → Except Fault (List Node × Reading)
  | 0, r => r.fail
  | fuel + 1, r => do
    if r.next? = some .flowSequenceEnd then return ([], r.drop)
    let r ← if first then .ok r else if r.next? = some .comma then .ok r.drop else r.fail
    match r.next? with
    | some .flowSequenceEnd => return ([], r.drop)
    | some .key =>
      let (k, r) ← readUnless [.value, .comma, .flowSequenceEnd] false false fuel r.drop
      let (v, r) ← readValue [.comma, .flowSequenceEnd] false fuel r
      let (items, r) ← flowItems false fuel r
      return (mapping .map [(k, v)] :: items, r)
    | _ =>
      let (item, r) ← read false false fuel r
      let (items, r) ← flowItems false fuel r
      return (item :: items, r)

/-- Pairs of a flow mapping; a key may stand without a value. -/
def flowPairs (first : Bool) : (fuel : Nat) → Reading → Except Fault (List (Node × Node) × Reading)
  | 0, r => r.fail
  | fuel + 1, r => do
    if r.next? = some .flowMappingEnd then return ([], r.drop)
    let r ← if first then .ok r else if r.next? = some .comma then .ok r.drop else r.fail
    match r.next? with
    | some .flowMappingEnd => return ([], r.drop)
    | some .key =>
      let (k, r) ← readUnless [.value, .comma, .flowMappingEnd] false false fuel r.drop
      let (v, r) ← readValue [.comma, .flowMappingEnd] false fuel r
      let (pairs, r) ← flowPairs false fuel r
      return ((k, v) :: pairs, r)
    | _ =>
      let (k, r) ← read false false fuel r
      let (pairs, r) ← flowPairs false fuel r
      return ((k, omitted) :: pairs, r)

end

/-- Takes up the directives in front of a document. -/
def readDirectives (version : Bool) (handles : List (String × String)) (r : Reading) :
    List Token → Except Fault Reading
  | .directive d :: rest =>
    match d with
    | .version major =>
      if version || major ≠ 1 then .error .malformed else readDirectives true handles r rest
    | .handle name start =>
      if (handles.lookup name).isSome then .error .malformed
      else readDirectives version ((name, start) :: handles) r rest
    | .other => readDirectives version handles r rest
  | rest => .ok { r with tokens := rest, handles := handles ++ r.handles }

/-- Nothing but the end of the only document is left. -/
def finish (r : Reading) : Except Fault Unit :=
  match r.tokens.dropWhile (· == .documentEnd) with
  | [] => .ok ()
  | rest => { r with tokens := rest }.fail

/-- The node of the only document; `none` if there is no document at all. -/
def ofTokens (tokens : List Token) : Except Fault (Option Node) := do
  let fuel := 4 * tokens.length + 4
  let r : Reading := { tokens }
  match tokens with
  | [] => return none
  | .directive _ :: _ | .documentStart :: _ =>
    let r ← readDirectives false [] r tokens
    if r.next? ≠ some .documentStart then r.fail
    else
      let r := r.drop
      let (node, r) ←
        if r.tokens.isEmpty then .ok (omitted, r)
        else readUnless [.documentStart, .documentEnd] true false fuel r
      finish r
      return some node
  | _ =>
    let (node, r) ← read true false fuel r
    finish r
    return some node

end Node

end InlineImpact.Yaml
