/-!
# Kinds of queries

The kinds of time-series queries. Only three of them return values that may carry payloads.
-/

namespace Unnest

/-- The kind of a query. -/
inductive QueryKind where
  | propertyValue
  | propertyValueHistory
  | propertyAggregate
  | propertyInterpolated
  | listAssets
  | listAssetModels
  | executeQuery
deriving DecidableEq, Repr

namespace QueryKind

def all : List QueryKind :=
  [propertyValue, propertyValueHistory, propertyAggregate, propertyInterpolated, listAssets,
    listAssetModels, executeQuery]

def name : QueryKind → String
  | propertyValue => "property_value"
  | propertyValueHistory => "property_value_history"
  | propertyAggregate => "property_aggregate"
  | propertyInterpolated => "property_interpolated"
  | listAssets => "list_assets"
  | listAssetModels => "list_asset_models"
  | executeQuery => "execute_query"

def ofName? (s : String) : Option QueryKind := all.find? fun kind => kind.name = s

def title : QueryKind → String
  | propertyValue => "PropertyValue"
  | propertyValueHistory => "PropertyValueHistory"
  | propertyAggregate => "PropertyAggregate"
  | propertyInterpolated => "PropertyInterpolated"
  | listAssets => "ListAssets"
  | listAssetModels => "ListAssetModels"
  | executeQuery => "ExecuteQuery"

/-- Whether the values of a query may carry payloads. -/
def carriesPayloads : QueryKind → Bool
  | propertyValue | propertyValueHistory | propertyAggregate => true
  | _ => false

end QueryKind

end Unnest
