import CodeCensus.Path

/-!
# Directory trees

What a directory holds: files, symbolic links and further directories, each under a name. The entries
of a directory stand one after the other, and each further directory stands in its entry, so that one
recursion reaches everything below.
-/

namespace CodeCensus.FileSystem

/-! ### Directories and their entries -/

/-- The contents of a directory. -/
inductive Tree where
  | empty
  | file (name : FileName) (body : ByteArray) (rest : Tree)
  | link (name : FileName) (target : Path) (rest : Tree)
  | directory (name : FileName) (inside : Tree) (rest : Tree)

/-- What stands under a name. -/
inductive Entry where
  | file (body : ByteArray)
  | link (target : Path)
  | directory (inside : Tree)

namespace Tree

/-- Put an entry in front of a tree. -/
def cons (name : FileName) (entry : Entry) (rest : Tree) : Tree :=
  match entry with
  | .file body => file name body rest
  | .link target => link name target rest
  | .directory inside => directory name inside rest

/-- The entry of a name, if there is one. -/
def find? (wanted : FileName) : Tree → Option Entry
  | empty => none
  | file name body rest => if name = wanted then some (.file body) else find? wanted rest
  | link name target rest => if name = wanted then some (.link target) else find? wanted rest
  | directory name inside rest =>
    if name = wanted then some (.directory inside) else find? wanted rest

/-- Put an entry under a name, in place of what stands there. -/
def insert (wanted : FileName) (entry : Entry) : Tree → Tree
  | empty => cons wanted entry empty
  | file name body rest =>
    if name = wanted then cons wanted entry rest else file name body (insert wanted entry rest)
  | link name target rest =>
    if name = wanted then cons wanted entry rest else link name target (insert wanted entry rest)
  | directory name inside rest =>
    if name = wanted then cons wanted entry rest
    else directory name inside (insert wanted entry rest)

/-! ### Places below a directory -/

/-- What stands at a place, given by the names that lead to it. Links are not followed. -/
def at? (tree : Tree) : List FileName → Option Entry
  | [] => some (.directory tree)
  | name :: names =>
    match tree.find? name with
    | some (.directory inside) => inside.at? names
    | some entry => if names.isEmpty then some entry else none
    | none => none

/-- Change the entries of the directory at a place. Directories that are missing on the way are
made; where something else is in the way, nothing happens. -/
def modifyAt (tree : Tree) (change : Tree → Tree) : List FileName → Tree
  | [] => change tree
  | name :: names =>
    match tree.find? name with
    | some (.directory inside) => tree.insert name (.directory (inside.modifyAt change names))
    | some _ => tree
    | none => tree.insert name (.directory (Tree.empty.modifyAt change names))

/-- Put an entry at a place. -/
def putAt (tree : Tree) (place : List FileName) (entry : Entry) : Tree :=
  match place.getLast? with
  | none => tree
  | some name => tree.modifyAt (insert name entry) place.dropLast

/-- Every file below a directory, with the names that lead to it. -/
def files (above : List FileName) : Tree → List (List FileName × ByteArray)
  | empty => []
  | file name body rest => (above ++ [name], body) :: files above rest
  | link _ _ rest => files above rest
  | directory name inside rest => files (above ++ [name]) inside ++ files above rest

/-- The files of a tree that are not in another tree with the same contents. -/
def changes (before after : Tree) : List (List FileName × ByteArray) :=
  (files [] after).filter fun (place, body) =>
    match before.at? place with
    | some (.file old) => old != body
    | _ => true

end Tree

end CodeCensus.FileSystem
