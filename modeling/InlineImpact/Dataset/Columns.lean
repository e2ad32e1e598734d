/-!
The columns of a dataset and the category of each. A name that is asked for twice has one column, and
it belongs to the strongest of its categories: what identifies a row, then what the compiler observed,
then what it estimated, then what was measured.
-/
namespace InlineImpact.Dataset

def metaColumns : List String :=
  ["Benchmark", "Method", "Decision", "Callee", "TreeDepth", "Reason", "Confidence", "Status"]

/-- What the compiler observes at a call site. -/
def defaultInputColumns : List String := [
  "ILSize", "CallsiteFrequency", "InstructionCount", "LoadStoreCount",
  "Depth", "BlockCount", "Maxstack", "ArgCount",
  "ArgType0", "ArgType1", "ArgType2", "ArgType3", "ArgType4", "ArgType5",
  "ArgSize0", "ArgSize1", "ArgSize2", "ArgSize3", "ArgSize4", "ArgSize5",
  "LocalCount", "ReturnType", "ReturnSize", "ArgAccessCount",
  "LocalAccessCount", "IntConstantCount", "FloatConstantCount",
  "IntLoadCount", "FloatLoadCount", "IntStoreCount", "FloatStoreCount",
  "SimpleMathCount", "ComplexMathCount", "OverflowMathCount",
  "IntArrayLoadCount", "FloatArrayLoadCount", "RefArrayLoadCount",
  "StructArrayLoadCount", "IntArrayStoreCount", "FloatArrayStoreCount",
  "RefArrayStoreCount", "StructArrayStoreCount", "StructOperationCount",
  "ObjectModelCount", "FieldLoadCount", "FieldStoreCount",
  "StaticFieldLoadCount", "StaticFieldStoreCount", "LoadAddressCount",
  "ThrowCount", "ReturnCount", "CallCount", "CallSiteWeight",
  "IsForceInline", "IsInstanceCtor", "IsFromPromotableValueClass",
  "HasSimd", "LooksLikeWrapperMethod", "ArgFeedsConstantTest",
  "IsMostlyLoadStore", "ArgFeedsRangeCheck", "ConstantArgFeedsConstantTest",
  "CalleeNativeSizeEstimate", "CallsiteNativeSizeEstimate"]

def defaultEstimateColumns : List String :=
  ["ModelCodeSizeEstimate", "ModelPerCallInstructionEstimate"]

def outputColumns : List String :=
  ["InstRetiredDelta", "InstRetiredSD", "CallDelta", "InstRetiredPerCallDelta", "RootCallCount",
    "InstRetiredPerRootCallDelta"]

/-- The columns that a dataset takes from what the compiler said. -/
structure Columns where
  input : List String := defaultInputColumns
  estimate : List String := defaultEstimateColumns
  deriving DecidableEq, Repr

inductive Category where
  | identity
  | input
  | estimate
  | output
  deriving DecidableEq, Repr

def Category.text : Category → String
  | identity => "meta"
  | input => "input"
  | estimate => "estimate"
  | output => "output"

/-- Each name once, where it first stands. -/
def distinctNames : List String → List String
  | [] => []
  | name :: rest => name :: (distinctNames rest).filter (· ≠ name)

namespace Columns

/-- All columns in their order. -/
def names (c : Columns) : List String :=
  distinctNames (metaColumns ++ c.input ++ c.estimate ++ outputColumns)

def category (c : Columns) (name : String) : Category :=
  if metaColumns.contains name then .identity
  else if c.input.contains name then .input
  else if c.estimate.contains name then .estimate
  else .output

/-- The category of each column. -/
def schema (c : Columns) : List (String × Category) := c.names.map fun name => (name, c.category name)

/-- The compiler's own values are kept for these. -/
def passesThrough (c : Columns) (name : String) : Bool :=
  c.input.contains name || c.estimate.contains name

end Columns

end InlineImpact.Dataset
