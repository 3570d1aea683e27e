/-!
# JSON values

* `Json` — the values of a document, the entries of an object in the order of the text;
* `Json.record?` — the fields of an object, or of an array that has them in their order.
-/

namespace Requisite

/-- A JSON value. -/
inductive Json
  | null
  | boolean (b : Bool)
  /-- A number, of which only a value that is written in digits alone is kept. -/
  | number (natural : Option Nat)
  /-- A text, none if an escape in it stands for half a character. -/
  | string (text : Option String)
  | array (items : List Json)
  | object (entries : List (Option String × Json))
  deriving Repr

namespace Json

/-- The fields of a record by their keys. -/
abbrev Fields := List (String × Json)

/-- The entries of an object, none if one of them has no key. -/
def named? : List (Option String × Json) → Option Fields
  | [] => some []
  | (none, _) :: _ => none
  | (some key, value) :: entries => (named? entries).map ((key, value) :: ·)

/-- A key occurs more than once. -/
def repeats (fields : Fields) (key : String) : Bool :=
  (fields.countP fun e => e.1 == key) > 1

/-- The fields of a record with the given keys.  An object has them at most once each, next to
any others.  An array has them in their order, and may end after the first `required` ones. -/
def record? (keys : List String) (required : Nat) : Json → Option Fields
  | .object entries =>
    match named? entries with
    | none => none
    | some fields => if keys.any (repeats fields) then none else some fields
  | .array items =>
    if items.length < required || keys.length < items.length then none
    else some (keys.zip items)
  | _ => none

/-- A text. -/
def text? : Json → Option String
  | .string text => text
  | _ => none

/-- A text, or none for `null`. -/
def optional? : Json → Option (Option String)
  | .null => some none
  | .string (some text) => some (some text)
  | _ => none

/-- A list of texts. -/
def texts? : Json → Option (List String)
  | .array items => items.mapM text?
  | _ => none

namespace Fields

/-- The text of a field that must not be missing. -/
def text? (fields : Fields) (key : String) : Option String :=
  (fields.lookup key).bind Json.text?

/-- The text of a field that may be missing or `null`. -/
def optional? (fields : Fields) (key : String) : Option (Option String) :=
  match fields.lookup key with
  | none => some none
  | some value => Json.optional? value

/-- The texts of a field; none if it is missing. -/
def texts? (fields : Fields) (key : String) : Option (List String) :=
  match fields.lookup key with
  | none => some []
  | some value => Json.texts? value

end Fields

end Json

end Requisite
