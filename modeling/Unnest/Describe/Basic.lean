/-!
# Descriptions of assets

A description service knows which model an asset has, if any, and which properties a model has. It may
know neither, and it may be unavailable.
-/

namespace Unnest

/-- A property of a model and its readable name. -/
structure Property where
  id : String
  name : String
deriving DecidableEq, Repr

/-- Why a description could not be had. -/
inductive DescribeError where
  | assetNotFound (id : String)
  | modelNotFound (id : String)
  | unavailable (reason : String)
deriving DecidableEq, Repr

def DescribeError.message : DescribeError → String
  | assetNotFound id => "asset `" ++ id ++ "` not found"
  | modelNotFound id => "asset model `" ++ id ++ "` not found"
  | unavailable reason => "describe service unavailable: " ++ reason

/-- What is asked of a description service. -/
inductive Call where
  | asset (id : String)
  | model (id : String)
deriving DecidableEq, Repr

end Unnest
