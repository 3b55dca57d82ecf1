/-!
What a TOML document holds, and how its parts are put together. A table may be
named more than once as long as it is not defined twice: by a header after it
was implied by another, or by several dotted keys.
-/

namespace ExprCheck.Toml

/-- How a table came to be. -/
inductive Origin where
  /-- By a header of its own. -/
  | header
  /-- On the way to another table, in that table's header. -/
  | implied
  /-- On the way to a value, in a dotted key. -/
  | dotted
deriving DecidableEq, Repr

inductive Item where
  | string (s : String)
  | integer (n : Int)
  | boolean (b : Bool)
  | float
  | datetime
  | array (items : List Item)
  /-- A table in braces, to which nothing can be added. -/
  | inline (entries : List (String × Item))
  | table (origin : Origin) (entries : List (String × Item))
  /-- The tables under headers in double brackets: the last, and those before it, of
  which the first comes last. -/
  | tables (last : List (String × Item)) (earlier : List (List (String × Item)))

/-- Entries with different keys, the latest first. -/
abbrev Table := List (String × Item)

namespace Table

/-- Puts an item in the stead of the one that a key has. -/
def replace (t : Table) (key : String) (item : Item) : Table :=
  t.map fun (k, old) => if k = key then (k, item) else (k, old)

/-- Gives a value to a dotted key. The tables on the way may be new, implied or
dotted, and the last of them must be dotted or new. -/
def assign : (path : List String) → String → Item → Table → Option Table
  | [], key, item, t =>
    match t.lookup key with
    | none => some ((key, item) :: t)
    | some _ => none
  | name :: path, key, item, t =>
    match t.lookup name with
    | none => (assign path key item []).map fun sub => (name, .table .dotted sub) :: t
    | some (.table origin sub) =>
      if origin = .dotted ∨ origin = .implied ∧ path ≠ [] then
        (assign path key item sub).map fun sub => t.replace name (.table origin sub)
      else none
    | some (.tables last earlier) =>
      if path = [] then none
      else (assign path key item last).map fun last => t.replace name (.tables last earlier)
    | some _ => none

/-- Changes the table at the end of a header's path. Tables that are missing on
the way are implied, and of several tables the last one is meant. -/
def alter (change : Table → Option Table) : (path : List String) → Table → Option Table
  | [], t => change t
  | name :: path, t =>
    match t.lookup name with
    | none => (alter change path []).map fun sub => (name, .table .implied sub) :: t
    | some (.table origin sub) =>
      (alter change path sub).map fun sub => t.replace name (.table origin sub)
    | some (.tables last earlier) =>
      (alter change path last).map fun last => t.replace name (.tables last earlier)
    | some _ => none

/-- Defines a table and fills it; it must be new or implied. -/
def define (key : String) (fill : Table → Option Table) (t : Table) : Option Table :=
  match t.lookup key with
  | none => (fill []).map fun sub => (key, .table .header sub) :: t
  | some (.table .implied sub) => (fill sub).map fun sub => t.replace key (.table .header sub)
  | some _ => none

/-- Adds a table to those under a key and fills it. -/
def append (key : String) (fill : Table → Option Table) (t : Table) : Option Table :=
  match t.lookup key with
  | none => (fill []).map fun sub => (key, .tables sub []) :: t
  | some (.tables last earlier) =>
    (fill []).map fun sub => t.replace key (.tables sub (last :: earlier))
  | some _ => none

end Table

/-- A key with the names that lead to it. -/
structure Key where
  path : List String
  name : String
deriving DecidableEq, Repr

/-- Where the pairs below a header go. -/
inductive Heading where
  /-- No header: the document itself. -/
  | document
  | table (key : Key)
  | element (key : Key)
deriving DecidableEq, Repr

structure Section where
  heading : Heading
  pairs : List (Key × Item)

/-- Gives the pairs to a table, one after the other. -/
def fill (pairs : List (Key × Item)) (t : Table) : Option Table :=
  pairs.foldlM (fun t (key, item) => t.assign key.path key.name item) t

def Section.addTo (s : Section) (document : Table) : Option Table :=
  match s.heading with
  | .document => fill s.pairs document
  | .table key => document.alter (Table.define key.name (fill s.pairs)) key.path
  | .element key => document.alter (Table.append key.name (fill s.pairs)) key.path

/-- The document that sections make, unless something is defined twice. -/
def assemble (sections : List Section) : Option Table :=
  sections.foldlM (fun document s => s.addTo document) []

end ExprCheck.Toml
