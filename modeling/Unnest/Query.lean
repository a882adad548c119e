import Unnest.Flatten

/-!
# Responses to queries

The response to a query is flattened when the query's kind may carry payloads and the first frame looks
as if it did: some text column starts with a cell that opens an object and mentions diagnostics.
Otherwise it is passed on as it is.
-/

namespace Unnest
variable {α : Type} [Quantity α]

/-- What was asked for, and of which assets. -/
structure Query where
  kind : QueryKind
  assetIds : List String := []
deriving DecidableEq, Repr

/-- Whether a text occurs in another. -/
def Text.occurs (part : List Char) : List Char → Bool
  | [] => part.isEmpty
  | c :: rest => part.isPrefixOf (c :: rest) || Text.occurs part rest

/-- Whether a cell opens an object and mentions diagnostics. -/
def Payload.isLikely (raw : String) : Bool :=
  raw.toList.head? = some '{' && Text.occurs Payload.diagnosticsKey.toList raw.toList

/-- Whether some text column starts with a cell that looks like a payload. -/
def Frame.looksNested (frame : Frame α) : Bool :=
  frame.columns.any fun column => ((column.strings?.bind List.head?).map Payload.isLikely).getD false

namespace Query

def fieldNames : List String := ["query_type", "asset_ids"]

def ofJson? (j : Json) : Option Query := do
  let field ← j.record? fieldNames
  let kind ← QueryKind.ofName? (← (← field "query_type").variant?)
  let assetIds ← Options.orDefault [] (field "asset_ids") Json.strings?
  return { kind, assetIds }

/-- The asset whose model names the properties: the first one, trimmed. -/
def primaryAsset (query : Query) : String := (query.assetIds.head?.map Text.trim).getD ""

/-- Whether a response to the query has to be flattened. -/
def needsFlattening (query : Query) (frames : List (Frame α)) : Bool :=
  query.kind.carriesPayloads && (frames.head?.map Frame.looksNested).getD false

/-- Flattens a response if it has to be. -/
def respond {σ : Type} (query : Query) (describer : Describer σ) (options : Options)
    (frames : List (Frame α)) : Session σ (List (Frame α)) := do
  if query.needsFlattening frames then
    Frame.flattenAll describer options query.primaryAsset frames
  else
    Describer.report (.nothingToFlatten query.kind)
    return frames

end Query

end Unnest
