/-!
# TOML values

* `Toml` — the values of a document; the entries of a table are kept in the order of their keys;
* `Toml.kind` — the name of a value's type;
* `Toml.get?`, `Toml.insert` — the entries of a table.
-/

namespace Requisite

/-- A TOML value.  A float is kept as its canonical text and a date as it is written, since
neither is computed with. -/
inductive Toml
  | string (text : String)
  | integer (n : Int)
  | float (text : String)
  | boolean (b : Bool)
  | datetime (text : String)
  | array (items : List Toml)
  | table (entries : List (String × Toml))
  deriving Repr

namespace Toml

/-- The name of a value's type. -/
def kind : Toml → String
  | .string _ => "string"
  | .integer _ => "integer"
  | .float _ => "float"
  | .boolean _ => "boolean"
  | .datetime _ => "datetime"
  | .array _ => "array"
  | .table _ => "table"

/-- The entry of a key. -/
def lookup (key : String) : List (String × Toml) → Option Toml
  | [] => none
  | (k, v) :: rest => if k = key then some v else lookup key rest

/-- The entry of a key, if the value is a table that has it. -/
def get? (key : String) : Toml → Option Toml
  | .table entries => lookup key entries
  | _ => none

/-- The entries with one more, in the order of their keys; an entry of the same key is
replaced. -/
def insert (key : String) (value : Toml) : List (String × Toml) → List (String × Toml)
  | [] => [(key, value)]
  | (k, v) :: rest =>
    match compare key k with
    | .lt => (key, value) :: (k, v) :: rest
    | .eq => (key, value) :: rest
    | .gt => (k, v) :: insert key value rest

end Toml

end Requisite
