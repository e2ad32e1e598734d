import InlineImpact.Markup.Name

/-!
Names with name spaces. The first part of a name stands for the identifier that the nearest
declaration binds it to; the full name is then `{identifier}last part`.
-/
namespace InlineImpact.Markup

/-- Bindings of first parts, the innermost first. Names without a first part look up the empty one. -/
abbrev Scope := List (List Char × List Char)

/-- The identifier that is always bound to `xml` and to nothing else. -/
def reservedSpace : List Char := ("http:" ++ "//www.w3.org/XML/1998/namespace").toList

/-- The identifier of the declarations themselves, which cannot be bound. -/
def declarationSpace : List Char := ("http:" ++ "//www.w3.org/2000/xmlns/").toList

def baseScope : Scope := [("xml".toList, reservedSpace)]

/-- A name as its two parts, the first of which may be missing. -/
def splitName? (name : List Char) : Option (List Char × List Char) :=
  match takePart? name with
  | some (last, []) => some ([], last)
  | some (first, ':' :: rest) =>
    match takePart? rest with
    | some (last, []) => some (first, last)
    | _ => none
  | _ => none

/-- The binding that an attribute declares: `some none` if it declares none, and `none` for a
declaration that is not allowed. -/
def declaration? (name value : List Char) : Option (Option (List Char × List Char)) := do
  let (first, last) ← splitName? name
  let xmlns := "xmlns".toList
  let part ←
    if first.isEmpty && last == xmlns then some (some [])
    else if first == xmlns then some (some last)
    else some none
  match part with
  | none => return none
  | some part =>
    if part == xmlns then none
    else if (part == "xml".toList) != (value == reservedSpace) then none
    else if value == declarationSpace || value.contains '}' then none
    else if value.isEmpty && !part.isEmpty then none
    else return some (part, value)

/-- The full name, if its first part is bound. -/
def fullName? (scope : Scope) (useDefault : Bool) (name : List Char) : Option (List Char) := do
  let (first, last) ← splitName? name
  if first.isEmpty && !useDefault then return last
  match scope.lookup first with
  | none => if first.isEmpty then return last else none
  | some [] => return last
  | some space => return '{' :: (space ++ '}' :: last)

/-- The scope inside an element with these attributes, and its full name. -/
def enter? (scope : Scope) (name : List Char) (attributes : List (List Char × List Char)) :
    Option (Scope × List Char) := do
  let names := attributes.map Prod.fst
  if names.eraseDups.length ≠ names.length then none
  let declared ← attributes.mapM fun (n, v) => declaration? n v
  let inside := declared.reverse.filterMap id ++ scope
  let others := (attributes.zip declared).filterMap fun ((n, _), d) =>
    if d.isSome then none else some n
  let full ← others.mapM (fullName? inside false)
  if full.eraseDups.length ≠ full.length then none
  return (inside, ← fullName? inside true name)

end InlineImpact.Markup
