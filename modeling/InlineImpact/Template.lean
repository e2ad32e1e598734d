import InlineImpact.Keyed
import InlineImpact.Template.Layout
import InlineImpact.Text.Quoted

/-!
Templates for commands. A field in braces names a value, parts of it, a form to write it in, and a
layout; a brace that is meant itself is written twice. A layout may hold fields of its own, one level
deep. The first fault from the left is the one that is reported.
-/
namespace InlineImpact.Template

/-- What a value is, which is a value as well. -/
inductive Kind where
  | text | int | kind | any
  deriving DecidableEq, Repr

def Kind.name : Kind → String
  | text => "str"
  | int => "int"
  | kind => "type"
  | any => "object"

inductive Value where
  | text (s : List Char)
  | int (n : Int)
  | kind (k : Kind)

/-- A field between its braces. -/
structure Field where
  name : List Char
  conversion : Option Char
  layout : List Char

namespace Field

/-- The name up to the character that ends it; square brackets protect what they hold. -/
def splitName (inside : Bool) : List Char → Option (List Char × Char × List Char)
  | [] => none
  | c :: rest =>
    let more (inside : Bool) := (splitName inside rest).map fun (name, r) => (c :: name, r)
    if inside then more (c != ']')
    else if c == '{' then none
    else if c == '}' || c == ':' || c == '!' then some ([], c, rest)
    else more (c == '[')

/-- The layout up to the brace that closes the field; braces inside come in pairs. -/
def splitLayout (depth : Nat) : List Char → Option (List Char × List Char)
  | [] => none
  | c :: rest =>
    if c == '}' && depth == 0 then some ([], rest)
    else
      let depth := if c == '{' then depth + 1 else if c == '}' then depth - 1 else depth
      (splitLayout depth rest).map fun (layout, r) => (c :: layout, r)

/-- Reads a field after its opening brace. -/
def read? (s : List Char) : Option (Field × List Char) := do
  let (name, stop, rest) ← splitName false s
  let withLayout (conversion : Option Char) (rest : List Char) := do
    let (layout, rest) ← splitLayout 0 rest
    return (⟨name, conversion, layout⟩, rest)
  if stop == '}' then return (⟨name, none, []⟩, rest)
  else if stop == ':' then withLayout none rest
  else match rest with
    | c :: '}' :: rest => return (⟨name, some c, []⟩, rest)
    | c :: ':' :: rest => withLayout (some c) rest
    | _ => none

end Field

namespace Value

/-- A number that is one all through, digits of any script. -/
def index? (s : List Char) : Except TemplateFault (Option Nat) := do
  match ← number? none s with
  | (n, []) => return n
  | _ => return none

def kindOf : Value → Kind
  | text _ => .text
  | int _ => .int
  | kind _ => .kind

/-- The parts that a value has by name. Every value knows what it is. -/
def member (v : Value) (name : List Char) : Except TemplateFault Value :=
  match v, String.ofList name with
  | v, "__class__" => .ok (.kind v.kindOf)
  | .kind k, "__name__" | .kind k, "__qualname__" => .ok (.text k.name.toList)
  | .kind _, "__module__" => .ok (.text "builtins".toList)
  | .kind .any, "__base__" => .ok (.text "None".toList)
  | .kind _, "__base__" => .ok (.kind .any)
  | .int n, "real" | .int n, "numerator" => .ok (.int n)
  | .int _, "imag" => .ok (.int 0)
  | .int _, "denominator" => .ok (.int 1)
  | _, _ => .error .noSuchPart

/-- Texts have their characters as items. -/
def item (v : Value) (key : List Char) : Except TemplateFault Value := do
  match v, ← index? key with
  | .text s, some i =>
    match s[i]? with
    | some c => return .text [c]
    | none => .error .noSuchItem
  | _, _ => .error .notIndexable

/-- Follows the parts of a name after the first. -/
def select (v : Value) : List Char → Except TemplateFault Value
  | [] => .ok v
  | '.' :: rest =>
    let name := rest.takeWhile fun c => c != '.' && c != '['
    if name.isEmpty then .error .malformed
    else do select (← v.member name) (rest.drop name.length)
  | '[' :: rest =>
    let key := rest.takeWhile (· != ']')
    if key.length = rest.length then .error .malformed
    else do
      let _ ← index? key
      if key.isEmpty then .error .malformed
      select (← v.item key) (rest.drop (key.length + 1))
  | _ => .error .malformed
termination_by s => s.length
decreasing_by all_goals (simp only [List.length_drop, List.length_cons]; omega)

/-- A character in basic Latin; any other one by its code point. -/
def asciiOnly (c : Char) : List Char :=
  if c.toNat < 128 then [c]
  else if c.toNat < 0x100 then '\\' :: 'x' :: Text.hexWide 2 c.toNat
  else if c.toNat < 0x10000 then '\\' :: 'u' :: Text.hexWide 4 c.toNat
  else '\\' :: 'U' :: Text.hexWide 8 c.toNat

/-- A kind has one form only. -/
def kindText (k : Kind) : List Char := ("<class '" ++ k.name ++ "'>").toList

def convert (v : Value) (form : Char) : Except TemplateFault Value := do
  let shown ← match v with
    | .text s => pure s
    | .int n => Layout.integer (← Layout.read true []) n
    | .kind k => pure (kindText k)
  let quoted := match v with
    | .text s => (Text.quoted (String.ofList s)).toList
    | .int _ | .kind _ => shown
  if form == 's' then return .text shown
  else if form == 'r' then return .text quoted
  else if form == 'a' then return .text (quoted.flatMap asciiOnly)
  else .error .malformed

def render (layout : List Char) : Value → Except TemplateFault (List Char)
  | .text s => do (← Layout.read false layout).text s
  | .int n => do (← Layout.read true layout).integer n
  | .kind k => if layout.isEmpty then .ok (kindText k) else .error .noLayout

end Value

/-- The value that a field names. Values have names only, no positions. -/
def Field.value (values : Keyed String Value) (f : Field) : Except TemplateFault Value := do
  let first := f.name.takeWhile fun c => c != '.' && c != '['
  if first.isEmpty || (← Value.index? first).isSome then .error .positional
  match values.get? (String.ofList first) with
  | none => .error (.unknownName (String.ofList first))
  | some v => v.select (f.name.drop first.length)

/-- Fills one field; `expand` fills the fields of its layout. -/
def Field.fill (values : Keyed String Value) (expand : List Char → Except TemplateFault (List Char))
    (f : Field) : Except TemplateFault (List Char) := do
  let v ← f.value values
  let v ← match f.conversion with
    | some form => v.convert form
    | none => pure v
  v.render (← if f.layout.contains '{' then expand f.layout else .ok f.layout)

/-- Fills the fields of a template from the left, each by `fill`. -/
def expandWith (fill : Field → Except TemplateFault (List Char)) (s : List Char) :
    Except TemplateFault (List Char) :=
  match s with
  | [] => .ok []
  | '{' :: '{' :: rest => do return '{' :: (← expandWith fill rest)
  | '}' :: '}' :: rest => do return '}' :: (← expandWith fill rest)
  | '}' :: _ => .error .malformed
  | '{' :: rest =>
    match Field.read? rest with
    | none => .error .malformed
    | some (f, after) =>
      if after.length ≤ rest.length then do return (← fill f) ++ (← expandWith fill after)
      else .error .malformed
  | c :: rest => do return c :: (← expandWith fill rest)
termination_by s.length

/-- Fills a template whose fields are nested at most `depth` deep. -/
def expand (values : Keyed String Value) : Nat → List Char → Except TemplateFault (List Char)
  | 0, _ => .error .malformed
  | depth + 1, s => expandWith (Field.fill values (expand values depth)) s

/-- Fills the fields of a template. -/
def fill (values : Keyed String Value) (template : String) : Except TemplateFault (List Char) :=
  expand values 2 template.toList

end InlineImpact.Template
