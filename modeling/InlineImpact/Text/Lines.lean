/-!
Lines of a text. A line feed, a carriage return, or the two together end a line; nothing else does.
-/
namespace InlineImpact.Text

/-- Every line end becomes a single line feed. -/
def unifyLineEnds : List Char → List Char
  | [] => []
  | '\r' :: '\n' :: rest => '\n' :: unifyLineEnds rest
  | '\r' :: rest => '\n' :: unifyLineEnds rest
  | c :: rest => c :: unifyLineEnds rest

/-- The pieces between the elements equal to `mark`; there is one more than there are marks. -/
def splitAtEach [BEq α] (mark : α) : List α → List (List α)
  | [] => [[]]
  | c :: rest =>
    if c == mark then [] :: splitAtEach mark rest
    else match splitAtEach mark rest with
      | [] => [[c]]
      | piece :: more => (c :: piece) :: more

/-- The lines of a text, without their ends. -/
def lines (s : List Char) : List (List Char) := splitAtEach '\n' (unifyLineEnds s)

/-- Cuts at the first `mark`; the second part is empty without one. -/
def cutAt [BEq α] (mark : α) (s : List α) : List α × List α :=
  (s.takeWhile (· != mark), (s.dropWhile (· != mark)).drop 1)

/-- The text has `pattern` as a contiguous part. -/
def contains [BEq α] (pattern : List α) : List α → Bool
  | [] => pattern.isEmpty
  | c :: rest => pattern.isPrefixOf (c :: rest) || contains pattern rest

end InlineImpact.Text
