/-!
What can be wrong with a suite file, by cause.
-/
namespace InlineImpact.Yaml

inductive Fault where
  | malformed
  /-- A value that is not spelled like one of its kind. -/
  | badValue
  /-- A number outside the range of its kind. -/
  | outOfRange
  /-- A word that stands for no truth value. -/
  | unknownWord
  /-- A number without any character. -/
  | noDigits
  /-- A text in the place of a point of time that is none. -/
  | noTime
  deriving DecidableEq, Repr

end InlineImpact.Yaml
