import InlineImpact.Text.Digit

/-!
Options on a command line. A long name may be cut short where that leaves one option only, and a value
may be attached to a name. Short names may share one dash. A negative number is a value and no option.
-/
namespace InlineImpact.Options

/-- What follows an option. -/
inductive Arity where
  | nothing
  | one
  /-- One value or more, up to the next option. -/
  | several
  deriving DecidableEq, Repr

structure Spec where
  /-- The names, dashes included; the first one stands for the option. -/
  names : List String
  arity : Arity
  deriving DecidableEq, Repr

def Spec.key (s : Spec) : String := s.names.headD ""

/-- What comes of reading the words in order. -/
inductive Event where
  | given (option : String) (values : List String)
  /-- A word that belongs to no option. -/
  | stray (word : String)
  /-- Reading cannot go on. -/
  | refused
  deriving DecidableEq, Repr

/-- What a word is before anything is known of the words around it. -/
inductive Role where
  | value
  /-- An option, the name it was given by, and what is attached to it in the same word. -/
  | option (spec : Spec) (name : String) (attached : Option String)
  | unknownOption
  /-- All words after it are values. -/
  | separator

def named? (specs : List Spec) (name : String) : Option Spec := specs.find? (·.names.contains name)

/-- Cuts a word at its first equals sign. -/
def splitEquals (word : String) : Option (String × String) :=
  let cs := word.toList
  if cs.contains '=' then
    let name := cs.takeWhile (· != '=')
    some (String.ofList name, String.ofList (cs.drop (name.length + 1)))
  else none

/-- The options that a word which is no full name may mean. -/
def abbreviated (specs : List Spec) (word : String) : List Role :=
  let names := specs.flatMap fun s => s.names.map fun n => (s, n)
  if word.startsWith "--" then
    let (start, attached) := match splitEquals word with
      | some (n, v) => (n, some v)
      | none => (word, none)
    names.filterMap fun (s, n) => if n.startsWith start then some (.option s n attached) else none
  else
    let short := String.ofList (word.toList.take 2)
    names.filterMap fun (s, n) =>
      if n == short then some (.option s n (some (String.ofList (word.toList.drop 2))))
      else if n.startsWith word then some (.option s n none)
      else none

def isDigits (s : List Char) : Bool := s.all fun c => (Text.decimalValue? c).isSome

/-- A dash and a number, with a point or without. -/
def isNegativeNumber (word : String) : Bool :=
  match word.toList with
  | '-' :: rest =>
    let rest := if rest.getLast? == some '\n' then rest.dropLast else rest
    let whole := rest.takeWhile (· != '.')
    isDigits whole &&
      match rest.drop whole.length with
      | [] => !whole.isEmpty
      | _ :: fraction => isDigits fraction && !fraction.isEmpty
  | _ => false

/-- The role of a word; none if it may mean several options. -/
def role? (specs : List Spec) (word : String) : Option Role :=
  if !word.startsWith "-" then some .value
  else match named? specs word with
    | some s => some (.option s word none)
    | none =>
      if word == "-" then some .value
      else
        let attached := (splitEquals word).bind fun (n, v) =>
          (named? specs n).map fun s => Role.option s n (some v)
        match attached, abbreviated specs word with
        | some r, _ => some r
        | none, [r] => some r
        | none, _ :: _ :: _ => none
        | none, [] =>
          some (if isNegativeNumber word || word.contains ' ' then .value else .unknownOption)

/-- The roles of all words; none if one of them is ambiguous. -/
def roles? (specs : List Spec) : List String → Option (List (String × Role))
  | [] => some []
  | "--" :: rest => some (("--", .separator) :: rest.map fun w => (w, .value))
  | w :: rest => do return (w, ← role? specs w) :: (← roles? specs rest)

def isValue : String × Role → Bool
  | (_, .value) => true
  | _ => false

/-- An option with something attached to its name: its value, or, after the short name of an option
without values, the short names of others. The last of them may still take values from the words after
it. A separator is no value. -/
def withAttached (specs : List Spec) (spec : Spec) (long : Bool) :
    List Char → Option (List Event × Option Spec)
  | [] => if spec.arity = .nothing then none else some ([.given spec.key [""]], none)
  | c :: rest =>
    if spec.arity ≠ .nothing then
      let value := String.ofList (c :: rest)
      some ([.given spec.key (if value == "--" then [] else [value])], none)
    else if long then none
    else do
      let s ← named? specs (String.ofList ['-', c])
      if rest.isEmpty then return ([.given spec.key []], some s)
      else
        let (es, last) ← withAttached specs s false rest
        return (.given spec.key [] :: es, last)

/-- The event of an option that takes its values from the words after it, and how many it takes. -/
def withFollowing (spec : Spec) (rest : List (String × Role)) : Option (Event × Nat) :=
  let values := (rest.takeWhile isValue).map Prod.fst
  match spec.arity, values with
  | .nothing, _ => some (.given spec.key [], 0)
  | _, [] => none
  | .one, w :: _ => some (.given spec.key [w], 1)
  | .several, _ => some (.given spec.key values, values.length)

/-- The events of the options in one word, and how many words after it they take. -/
def ofWord (specs : List Spec) (spec : Spec) (name : String) (attached : Option String)
    (rest : List (String × Role)) : Option (List Event × Nat) := do
  let (before, last) ← match attached with
    | some a => withAttached specs spec (name.startsWith "--") a.toList
    | none => some ([], some spec)
  match last with
  | none => return (before, 0)
  | some s =>
    let (event, n) ← withFollowing s rest
    return (before ++ [event], n)

/-- The events in order. Nothing of a word counts that cannot be understood to its end. -/
def events (specs : List Spec) (words : List (String × Role)) : List Event :=
  match words with
  | [] => []
  | (w, .value) :: rest | (w, .separator) :: rest | (w, .unknownOption) :: rest =>
    .stray w :: events specs rest
  | (_, .option spec name attached) :: rest =>
    match ofWord specs spec name attached rest with
    | none => [.refused]
    | some (es, n) => es ++ events specs (rest.drop n)
termination_by words.length
decreasing_by all_goals (simp only [List.length_drop, List.length_cons]; omega)

/-- What the words of a command line say, in order. -/
def read (specs : List Spec) (words : List String) : List Event :=
  match roles? specs words with
  | none => [.refused]
  | some rs => events specs rs

end InlineImpact.Options
