/-!
Element trees. A hedge is a sequence of elements, each with its own hedge inside; the text of an
element is what stands before its first child.
-/
namespace InlineImpact.Markup

inductive Hedge where
  | empty
  | element (tag text : String) (inner rest : Hedge)

structure Element where
  tag : String
  text : String
  inner : Hedge

namespace Hedge

def toList : Hedge → List Element
  | empty => []
  | element tag text inner rest => ⟨tag, text, inner⟩ :: rest.toList

def ofList : List Element → Hedge
  | [] => empty
  | e :: rest => element e.tag e.text e.inner (ofList rest)

@[simp] theorem toList_ofList (es : List Element) : (ofList es).toList = es := by
  induction es with
  | nil => rfl
  | cons e rest ih => simp [ofList, toList, ih]

@[simp] theorem ofList_toList (h : Hedge) : ofList h.toList = h := by
  induction h with
  | empty => rfl
  | element tag text inner rest _ ih => simp [ofList, toList, ih]

def isEmpty : Hedge → Bool
  | empty => true
  | element .. => false

def append : Hedge → Hedge → Hedge
  | empty, k => k
  | element tag text inner rest, k => element tag text inner (rest.append k)

/-- An element that holds only text. -/
def leaf (tag text : String) : Hedge := element tag text empty empty

/-- An element that holds only elements. -/
def node (tag : String) (inner : Hedge) : Hedge := element tag "" inner empty

/-- The first element with this tag. -/
def find? (tag : String) (h : Hedge) : Option Element := h.toList.find? (·.tag = tag)

def findAll (tag : String) (h : Hedge) : List Element := h.toList.filter (·.tag = tag)

/-- The text of the first element with this tag. -/
def textOf? (tag : String) (h : Hedge) : Option String := (h.find? tag).map (·.text)

end Hedge

end InlineImpact.Markup
