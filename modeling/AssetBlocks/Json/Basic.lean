import AssetBlocks.Number.Binary64

/-! JSON values. An integer literal that fits in 64 bits stays an integer; all other
numbers are doubles. Fields are kept in the order of their keys. -/
namespace AssetBlocks

inductive Json
  | null
  | bool (value : Bool)
  | integer (value : Int)
  | real (value : Binary64)
  | text (value : String)
  | list (items : List Json)
  | object (fields : List (String × Json))
deriving Repr, Inhabited

namespace Json

/-- The fields of an object, in ascending order of their keys. -/
abbrev Fields := List (String × Json)

def Fields.insert (key : String) (value : Json) : Fields → Fields
  | [] => [(key, value)]
  | (k, v) :: rest =>
    if key < k then (key, value) :: (k, v) :: rest
    else if key = k then (key, value) :: rest
    else (k, v) :: Fields.insert key value rest

/-- Of two fields with one key the later wins. -/
def Fields.ofList (fields : List (String × Json)) : Fields :=
  fields.foldl (fun all field => all.insert field.1 field.2) []

/-- Every further field is added or replaces the one of the same key. -/
def Fields.extend (fields more : Fields) : Fields :=
  more.foldl (fun all field => all.insert field.1 field.2) fields

def Fields.get? (fields : Fields) (key : String) : Option Json := fields.lookup key

/-- The fields of an object; no other value has any. -/
def fields : Json → Fields
  | .object fields => fields
  | _ => []

end Json
end AssetBlocks
