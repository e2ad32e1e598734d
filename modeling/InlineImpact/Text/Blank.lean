/-!
White space as Unicode classes it, with the control characters that separate lines, groups and
records. Texts are trimmed and cut into words at these characters.
-/
namespace InlineImpact.Text

def isBlank (c : Char) : Bool :=
  let n := c.toNat
  (9 ≤ n && n ≤ 13) || (28 ≤ n && n ≤ 32) || n == 0x85 || n == 0xA0 || n == 0x1680 ||
    (0x2000 ≤ n && n ≤ 0x200A) || n == 0x2028 || n == 0x2029 || n == 0x202F || n == 0x205F ||
    n == 0x3000

/-- Drops the elements with the property from both ends. -/
def trimEnds (p : α → Bool) (s : List α) : List α :=
  ((s.dropWhile p).reverse.dropWhile p).reverse

def trim (s : List Char) : List Char := trimEnds isBlank s

@[simp] theorem trimEnds_nil (p : α → Bool) : trimEnds p [] = [] := rfl

@[simp] theorem trim_nil : trim [] = [] := rfl

/-- The maximal runs of elements without the property. -/
def runsWithout (p : α → Bool) : List α → List (List α)
  | [] => []
  | c :: rest =>
    if p c then runsWithout p rest
    else match rest with
      | [] => [[c]]
      | d :: _ =>
        if p d then [c] :: runsWithout p rest
        else match runsWithout p rest with
          | [] => [[c]]
          | run :: more => (c :: run) :: more

/-- The words of a text, blanks of any kind between them. -/
def words (s : List Char) : List (List Char) := runsWithout isBlank s

def trimText (s : String) : String := String.ofList (trim s.toList)

end InlineImpact.Text
