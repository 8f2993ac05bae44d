/-!
# Grouping and ranking

The tables of a census are made in two steps. Entries that belong together are gathered under one
key, in the order in which the keys are first seen; then the gathered entries are put in order, larger
first, and cut off at a limit. Both steps keep the order of what they do not have to move.
-/

namespace CodeCensus.Ranking

variable {κ α β : Type} [DecidableEq κ]

/-- Change the entry with the given key, or add a new entry at the end if there is none. -/
def upsert (keyOf : α → κ) (key : κ) (fresh : α) (change : α → α) : List α → List α
  | [] => [fresh]
  | a :: rest =>
    if keyOf a = key then change a :: rest
    else a :: upsert keyOf key fresh change rest

/-- Gather inputs under their keys: each input either begins the entry of its key or changes it. -/
def gather (keyOf : α → κ) (keyIn : β → κ) (fresh : β → α) (change : β → α → α)
    (inputs : List β) : List α :=
  inputs.foldl (fun entries input => upsert keyOf (keyIn input) (fresh input) (change input) entries) []

/-- Put entries with larger measure first. Entries of equal measure keep their order. -/
def descending (measure : α → Nat) (entries : List α) : List α :=
  entries.mergeSort fun a b => measure b ≤ measure a

/-- A limit of zero stands for the limit that applies when none is given. -/
def limit (asked standard : Nat) : Nat :=
  if asked = 0 then standard else asked

/-- The first entries in descending order, as many as the limit allows. -/
def top (asked standard : Nat) (measure : α → Nat) (entries : List α) : List α :=
  (descending measure entries).take (limit asked standard)

end CodeCensus.Ranking
