import AssetBlocks.Toml.Moment

/-! TOML values and how tables come about. What a table was begun by decides what may
still be added to it. -/
namespace AssetBlocks

/-- What a table was begun by. -/
inductive Toml.Origin
  /-- A header that names it. -/
  | header
  /-- A header that names a table inside it. -/
  | path
  /-- A dotted key that leads through it, even if the header of a table inside it came
  first. -/
  | dotted
  /-- Braces; such a table is complete. -/
  | braces
deriving DecidableEq, Repr

inductive Toml
  | text (s : String)
  | number (n : Toml.Numeral)
  | bool (b : Bool)
  | moment (m : Toml.Moment)
  | list (items : List Toml)
  | table (origin : Toml.Origin) (fields : List (String × Toml))
  /-- The tables of repeated headers, the latest first. -/
  | tables (items : List (List (String × Toml)))
deriving Repr, Inhabited

namespace Toml

abbrev Fields := List (String × Toml)

mutual

/-- All that is written like a number is one. -/
def isSound : Toml → Bool
  | number n => n.isNumber
  | list items => allSound items
  | table _ fields => fieldsSound fields
  | tables items => tablesSound items
  | _ => true

def allSound : List Toml → Bool
  | [] => true
  | value :: rest => isSound value && allSound rest

def fieldsSound : List (String × Toml) → Bool
  | [] => true
  | (_, value) :: rest => isSound value && fieldsSound rest

def tablesSound : List (List (String × Toml)) → Bool
  | [] => true
  | fields :: rest => fieldsSound fields && tablesSound rest

end

inductive Statement
  | pair (keys : List String) (value : Toml)
  | header (keys : List String)
  | repeatedHeader (keys : List String)
deriving Repr

namespace Fields

def set (key : String) (value : Toml) : Fields → Fields
  | [] => [(key, value)]
  | (k, v) :: rest => if k = key then (key, value) :: rest else (k, v) :: set key value rest

/-- Changes the fields of the table that a key leads to on the way of a header. -/
def enter (key : String) (change : Fields → Option Fields) (fields : Fields) : Option Fields :=
  match fields.lookup key with
  | none => (change []).map fun inner => set key (.table .path inner) fields
  | some (.table .braces _) => none
  | some (.table origin inner) =>
    (change inner).map fun inner => set key (.table origin inner) fields
  | some (.tables (latest :: older)) =>
    (change latest).map fun latest => set key (.tables (latest :: older)) fields
  | some _ => none

def enterAll (change : Fields → Option Fields) : List String → Fields → Option Fields
  | [], fields => change fields
  | key :: keys, fields => enter key (enterAll change keys) fields

/-- Adds a pair. Its dotted keys begin tables, or lead through tables without a header of
their own. No value is replaced. -/
def add (value : Toml) : List String → Fields → Option Fields
  | [], _ => none
  | [key], fields =>
    match fields.lookup key with
    | none => some (set key value fields)
    | some _ => none
  | key :: next :: keys, fields =>
    match fields.lookup key with
    | none => (add value (next :: keys) []).map fun inner => set key (.table .dotted inner) fields
    | some (.table .dotted inner) =>
      (add value (next :: keys) inner).map fun inner => set key (.table .dotted inner) fields
    | some (.table .path inner) =>
      (add value (next :: keys) inner).map fun inner => set key (.table .dotted inner) fields
    | some (.tables (latest :: older)) =>
      if keys = [] then none
      else (add value (next :: keys) latest).map fun latest =>
        set key (.tables (latest :: older)) fields
    | some _ => none

def begin (key : String) (fields : Fields) : Option Fields :=
  match fields.lookup key with
  | none => some (set key (.table .header []) fields)
  | some (.table .path inner) => some (set key (.table .header inner) fields)
  | some _ => none

def beginFurther (key : String) (fields : Fields) : Option Fields :=
  match fields.lookup key with
  | none => some (set key (.tables [[]]) fields)
  | some (.tables items) => some (set key (.tables ([] :: items)) fields)
  | some _ => none

end Fields

/-- Goes through the lines of a document. Pairs belong to the table of the header above
them, to which the keys in `here` lead. -/
def build (here : List String) (fields : Fields) : List Statement → Option Fields
  | [] => some fields
  | .pair keys value :: rest =>
    match Fields.enterAll (Fields.add value keys) here fields with
    | some fields => build here fields rest
    | none => none
  | .header keys :: rest =>
    match keys.getLast? with
    | none => none
    | some key =>
      match Fields.enterAll (Fields.begin key) keys.dropLast fields with
      | some fields => build keys fields rest
      | none => none
  | .repeatedHeader keys :: rest =>
    match keys.getLast? with
    | none => none
    | some key =>
      match Fields.enterAll (Fields.beginFurther key) keys.dropLast fields with
      | some fields => build keys fields rest
      | none => none

end Toml
end AssetBlocks
