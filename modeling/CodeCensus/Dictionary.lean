/-!
# Dictionaries in key order

Entries under texts, in the order of their keys, each key once. Keys are compared character by
character, which is the same as comparing their bytes.
-/

namespace CodeCensus.Dictionary

variable {α : Type}

/-- Put an entry at its place in a dictionary; it replaces the entry of the same key. -/
def insert (key : String) (value : α) : List (String × α) → List (String × α)
  | [] => [(key, value)]
  | (k, old) :: rest =>
    if key < k then (key, value) :: (k, old) :: rest
    else if key = k then (key, value) :: rest
    else (k, old) :: insert key value rest

/-- The dictionary of some entries. Of several entries with one key the last one counts. -/
def ofList (entries : List (String × α)) : List (String × α) :=
  entries.foldl (fun dictionary (key, value) => insert key value dictionary) []

end CodeCensus.Dictionary
