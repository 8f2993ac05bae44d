import CodeCensus.Toml.Value

/-!
# Building TOML tables

A table may be written in several places: under its own header, under the headers of tables inside it,
and through keys with dots. Each table remembers how it came about, because that decides where it may
still be added to. A table that has only been led through is implicit; one that has been led through by
a key with dots is dotted as well.
-/

namespace CodeCensus.Toml

/-! ### Tables under construction -/

/-- Something that a key stands for. -/
inductive Item where
  | value (value : Value)
  | table (implicit dotted : Bool) (members : List (String × Item))
  /-- The tables of an array of tables, last one first. -/
  | tables (elements : List (List (String × Item)))

/-- A table: whether it is implicit, whether it is dotted, and its members. -/
structure Table where
  implicit : Bool := false
  dotted : Bool := false
  members : List (String × Item) := []

namespace Table

/-- Put an item under a key, in place of what stands there. -/
def insert (key : String) (item : Item) : List (String × Item) → List (String × Item)
  | [] => [(key, item)]
  | (k, old) :: rest => if k = key then (k, item) :: rest else (k, old) :: insert key item rest

/-- Change the table at the end of a path. Tables that are missing on the way are made. In an array
of tables the last one is meant. A key with dots, unlike a header, may lead only through implicit
tables. -/
def alter (throughDots : Bool) (change : Table → Option Table) (table : Table) :
    List String → Option Table
  | [] => change table
  | key :: keys =>
    match table.members.lookup key with
    | none => do
      let inner ← alter throughDots change ⟨true, throughDots, []⟩ keys
      return { table with
        members := insert key (.table inner.implicit inner.dotted inner.members) table.members }
    | some (.table implicit dotted members) =>
      if throughDots && !implicit then none
      else do
        let inner ← alter throughDots change ⟨implicit, dotted, members⟩ keys
        return { table with
          members := insert key (.table inner.implicit inner.dotted inner.members) table.members }
    | some (.tables (last :: before)) => do
      let inner ← alter throughDots change ⟨false, false, last⟩ keys
      return { table with members := insert key (.tables (inner.members :: before)) table.members }
    | some (.tables []) => none
    | some (.value _) => none

/-- Put a value under a key with dots. The last key must be new, and must not be added to a table
that was begun in the other way, under a header. -/
def insertValue (table : Table) (path : List String) (key : String) (value : Value) :
    Option Table :=
  table.alter true
    (fun inner =>
      if inner.dotted == path.isEmpty then none
      else if (inner.members.lookup key).isSome then none
      else some { inner with members := insert key (.value value) inner.members })
    path

/-- The members but the one under a key. -/
def erase (key : String) (members : List (String × Item)) : List (String × Item) :=
  members.filter (·.1 ≠ key)

/-- Begin the table of a header. It must be new, or implicit without being dotted; then it moves behind
the tables that were begun before it. -/
def openTable (table : Table) (path : List String) (key : String) : Option Table :=
  table.alter false
    (fun parent =>
      match parent.members.lookup key with
      | none =>
        some { parent with members := insert key (.table false false []) parent.members }
      | some (.table true false members) =>
        some { parent with members := erase key parent.members ++ [(key, .table false false members)] }
      | some _ => none)
    path

/-- Begin a further table of an array of tables. -/
def openElement (table : Table) (path : List String) (key : String) : Option Table :=
  table.alter false
    (fun parent =>
      match parent.members.lookup key with
      | none => some { parent with members := insert key (.tables [[]]) parent.members }
      | some (.tables elements) =>
        some { parent with members := insert key (.tables ([] :: elements)) parent.members }
      | some _ => none)
    path

/-- Put a value into the table that was begun last. -/
def insertUnder (table : Table) (header path : List String) (key : String) (value : Value) :
    Option Table :=
  table.alter false (fun inner => inner.insertValue path key value) header

end Table

/-! ### Finished tables -/

mutual

/-- The value of an item. -/
def Item.toValue : Item → Value
  | .value value => value
  | .table _ _ members => .table (membersToValues members)
  | .tables elements => .array (elementsToValues elements).reverse

/-- The values of the members of a table. -/
def membersToValues : List (String × Item) → List (String × Value)
  | [] => []
  | (key, item) :: rest => (key, item.toValue) :: membersToValues rest

/-- The values of the tables of an array. -/
def elementsToValues : List (List (String × Item)) → List Value
  | [] => []
  | members :: rest => .table (membersToValues members) :: elementsToValues rest

end

/-- The value of a table. -/
def Table.toValue (table : Table) : Value :=
  .table (membersToValues table.members)

end CodeCensus.Toml
