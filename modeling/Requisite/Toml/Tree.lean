import Requisite.Toml.Value

/-!
# Tables in the making

While a document is read, its tables grow: a header opens one, a dotted key may open others, and
an item of a list of tables is a table that later headers lead into.  A table is defined in one
way and in one place only, and no key of it is given twice.

* `Tree.open?`, `Tree.openItem?` — the tree after the header of a table or of an item;
* `Tree.set?` — the tree with a value under a dotted key;
* `Toml.ofEntries?` — the table of some dotted keys with values.
-/

namespace Requisite.Toml

/-- How a table came into being. -/
inductive Birth
  /-- By a header of its own. -/
  | header
  /-- On the way to another table. -/
  | implied
  /-- By a dotted key. -/
  | dotted
  deriving DecidableEq, Repr

/-- What a key of a table stands for. -/
inductive Node
  /-- A value, to which nothing is added any more. -/
  | value (v : Toml)
  | table (birth : Birth) (entries : List (String × Node))
  /-- A list of tables in reverse order, so that the last one comes first. -/
  | items (tables : List (List (String × Node)))

/-- A table in the making. -/
structure Tree where
  birth : Birth
  entries : List (String × Node)

namespace Tree

/-- The document before its first line. -/
def empty : Tree := ⟨.header, []⟩

/-- What a key stands for. -/
def find? (t : Tree) (key : String) : Option Node :=
  t.entries.lookup key

/-- The entries with another node for a key. -/
def replace (key : String) (node : Node) : List (String × Node) → List (String × Node)
  | [] => [(key, node)]
  | (k, n) :: rest => if k = key then (key, node) :: rest else (k, n) :: replace key node rest

/-- The tree with another node for a key. -/
def put (t : Tree) (key : String) (node : Node) : Tree :=
  { t with entries := replace key node t.entries }

/-- The tree in which `change` was made to the table that a path leads to.  Tables on the way come
into being by `birth`; a path of a dotted key leads into no table with a header. -/
def within? (birth : Birth) (change : Tree → Option Tree) : List String → Tree → Option Tree
  | [], t => change t
  | key :: path, t =>
    match t.find? key with
    | none =>
      (within? birth change path ⟨birth, []⟩).map fun u => t.put key (.table u.birth u.entries)
    | some (.value _) => none
    | some (.table born entries) =>
      if birth = .dotted && born = .header then none
      else
        (within? birth change path ⟨born, entries⟩).map fun u =>
          t.put key (.table u.birth u.entries)
    | some (.items []) => none
    | some (.items (last :: before)) =>
      (within? birth change path ⟨.header, last⟩).map fun u =>
        t.put key (.items (u.entries :: before))

/-- The table after the header of the table under a key.  A table may have been implied before. -/
def openKey? (key : String) (t : Tree) : Option Tree :=
  match t.find? key with
  | none => some (t.put key (.table .header []))
  | some (.table .implied entries) => some (t.put key (.table .header entries))
  | _ => none

/-- The table after the header of an item of the list under a key. -/
def openItemKey? (key : String) (t : Tree) : Option Tree :=
  match t.find? key with
  | none => some (t.put key (.items [[]]))
  | some (.items tables) => some (t.put key (.items ([] :: tables)))
  | _ => none

/-- The table with a value under a key.  A dotted key leads to tables of dotted keys alone. -/
def setKey? (isDotted : Bool) (key : String) (value : Toml) (t : Tree) : Option Tree :=
  if (t.birth == .dotted) != isDotted then none
  else
    match t.find? key with
    | none => some (t.put key (.value value))
    | some _ => none

/-- The tree after a header. -/
def open? (path : List String) (t : Tree) : Option Tree :=
  match path.getLast? with
  | none => none
  | some key => within? .implied (openKey? key) path.dropLast t

/-- The tree after the header of an item. -/
def openItem? (path : List String) (t : Tree) : Option Tree :=
  match path.getLast? with
  | none => none
  | some key => within? .implied (openItemKey? key) path.dropLast t

/-- The tree with a value under a dotted key of the table that `header` leads to. -/
def set? (header path : List String) (value : Toml) (t : Tree) : Option Tree :=
  match path.getLast? with
  | none => none
  | some key =>
    let way := path.dropLast
    within? .implied (within? .dotted (setKey? (!way.isEmpty) key value) way) header t

end Tree

/-! ### Finished tables -/

mutual

/-- The value that a key stands for. -/
def Node.finish : Node → Toml
  | .value v => v
  | .table _ entries => .table (finishEntries entries)
  | .items tables => .array (finishItems tables [])

/-- The entries of a finished table, in the order of their keys. -/
def finishEntries : List (String × Node) → List (String × Toml)
  | [] => []
  | (key, node) :: rest => insert key node.finish (finishEntries rest)

/-- The tables of a finished list, in order, before those in `after`. -/
def finishItems : List (List (String × Node)) → List Toml → List Toml
  | [], after => after
  | t :: before, after => finishItems before (.table (finishEntries t) :: after)

end

/-- The finished document. -/
def Tree.finish (t : Tree) : Toml :=
  .table (finishEntries t.entries)

/-- The table of some dotted keys with values, none if a key is given twice. -/
def ofEntries? (entries : List (List String × Toml)) : Option Toml :=
  (entries.foldlM (fun (t : Tree) e => t.set? [] e.1 e.2) Tree.empty).map Tree.finish

end Requisite.Toml
