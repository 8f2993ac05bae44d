import CodeCensus.FileSystem.Resolve
import CodeCensus.Proofs.FileSystem.Tree

/-!
# Where paths lead

What following a path finds at a place is a file, a link or a directory; what is inside a directory is
only looked at further on (`Tree.node?`, `walk_cons`).  Where the segments of a path lead is stated as a
relation of its own (`Leads`), with one rule for each way to go on, so that an induction on how a path is
followed has the cases of the walk and no others (`walk_eq_ok_iff`).

A path whose last link is followed leads to something that is no link, or to a vacant place
(`stands_of_resolve`).
-/

namespace CodeCensus.FileSystem

/-! ### What stands at a place -/

/-- What stands at a place, without what is inside a directory. -/
inductive Node where
  | file (body : ByteArray)
  | link (target : Path)
  | directory

/-- An entry without what is inside a directory. -/
def Entry.node : Entry → Node
  | .file body => .file body
  | .link target => .link target
  | .directory _ => .directory

namespace Tree

variable {tree inside : Tree} {place above : List FileName} {name wanted : FileName}

/-- What stands at a place, without what is inside a directory. -/
def node? (tree : Tree) (place : List FileName) : Option Node :=
  (tree.at? place).map Entry.node

@[simp] theorem node?_nil (tree : Tree) : tree.node? [] = some .directory := rfl

/-- What stands below a name is looked for in the entry of this name. -/
theorem node?_cons (tree : Tree) (name : FileName) (place : List FileName) :
    tree.node? (name :: place) =
      (tree.find? name).bind fun entry => (entry.at? place).map Entry.node := by
  rw [node?, at?_eq_bind, Option.map_bind]
  rfl

/-- A directory stands at a place if the entry there is one. -/
theorem node?_eq_directory_iff :
    tree.node? place = some .directory ↔ ∃ inside, tree.at? place = some (.directory inside) := by
  rw [node?, Option.map_eq_some_iff]
  constructor
  · rintro ⟨entry, found, same⟩
    cases entry with
    | directory inside => exact ⟨inside, found⟩
    | file body => cases same
    | link target => cases same
  · rintro ⟨inside, found⟩
    exact ⟨_, found, rfl⟩

/-- The entries of a directory stand one name below it. -/
theorem node?_concat (directory : tree.at? place = some (.directory inside)) (name : FileName) :
    tree.node? (place ++ [name]) = (inside.find? name).map Entry.node := by
  rw [node?, at?_append, directory, Option.bind_some, at?_directory, at?_eq_bind, Option.map_bind]
  cases inside.find? name <;> rfl

/-- Only in a directory stands anything. -/
theorem node?_directory_of_concat (found : (tree.node? (place ++ [name])).isSome) :
    tree.node? place = some .directory := by
  rw [node?, at?_append, Option.isSome_map] at found
  cases hplace : tree.at? place with
  | none =>
    rw [hplace] at found
    cases found
  | some entry =>
    rw [hplace] at found
    cases entry with
    | directory inside => exact node?_eq_directory_iff.2 ⟨inside, hplace⟩
    | file body => cases found
    | link target => cases found

end Tree

/-! ### Following a path -/

variable {root : Tree} {ending : Ending} {links : Nat} {here place target : Place}
  {segments : List FileName}

/-- A path does not lead on from anything but a directory. -/
theorem walk_cons_of_not_directory (noDirectory : root.node? here ≠ some .directory)
    (segment : FileName) (rest : List FileName) :
    walk root ending links here (segment :: rest) = .error .notDirectory := by
  rw [walk]
  cases found : root.at? here with
  | none => rfl
  | some entry =>
    cases entry with
    | directory inside => exact absurd (Tree.node?_eq_directory_iff.2 ⟨inside, found⟩) noDirectory
    | file body => rfl
    | link target => rfl

/-- A step along a path only depends on what stands at the next place. -/
theorem walk_cons (directory : root.node? here = some .directory) (segment : FileName)
    (rest : List FileName) :
    walk root ending links here (segment :: rest) =
      if segment = [] ∨ segment = [Path.dot] then walk root ending links here rest
      else if segment = [Path.dot, Path.dot] then walk root ending links here.dropLast rest
      else if maxName < segment.length then .error .nameTooLong
      else
        match root.node? (here ++ [segment]) with
        | some (.link target) =>
          if rest = [] ∧ ending = .keep then .ok (here ++ [segment])
          else
            match links with
            | 0 => .error .tooManyLinks
            | links + 1 =>
              walk root ending links (if target.isAbsolute then [] else here) (target.segments ++ rest)
        | some _ => walk root ending links (here ++ [segment]) rest
        | none => if rest = [] ∧ ending = .create then .ok (here ++ [segment]) else .error .notFound := by
  obtain ⟨inside, found⟩ := Tree.node?_eq_directory_iff.1 directory
  rw [walk, Tree.node?_concat found]
  simp only [found]
  cases entered : inside.find? segment with
  | none => simp only [Option.map_none]
  | some entry =>
    cases entry with
    | link target => cases links <;> simp only [Option.map_some, Entry.node]
    | file body => simp only [Option.map_some, Entry.node]
    | directory inner => simp only [Option.map_some, Entry.node]

/-- Whether a segment of a path can name an entry of a directory. -/
def IsEntryName (segment : FileName) : Prop :=
  ¬ (segment = [] ∨ segment = [Path.dot]) ∧ segment ≠ [Path.dot, Path.dot] ∧
    ¬ maxName < segment.length

/-- Where the segments of a path lead from a place, with a number of links that may be followed. -/
inductive Leads (root : Tree) (ending : Ending) : Nat → Place → List FileName → Place → Prop where
  | arrived {links : Nat} {here : Place} : Leads root ending links here [] here
  | stay {links : Nat} {here target : Place} {segment : FileName} {rest : List FileName}
    (directory : root.node? here = some .directory) (same : segment = [] ∨ segment = [Path.dot])
    (onward : Leads root ending links here rest target) :
    Leads root ending links here (segment :: rest) target
  | up {links : Nat} {here target : Place} {rest : List FileName}
    (directory : root.node? here = some .directory)
    (onward : Leads root ending links here.dropLast rest target) :
    Leads root ending links here ([Path.dot, Path.dot] :: rest) target
  | enter {links : Nat} {here target : Place} {segment : FileName} {rest : List FileName} {node : Node}
    (directory : root.node? here = some .directory) (isName : IsEntryName segment)
    (found : root.node? (here ++ [segment]) = some node) (noLink : ∀ link, node ≠ .link link)
    (onward : Leads root ending links (here ++ [segment]) rest target) :
    Leads root ending links here (segment :: rest) target
  | follow {links : Nat} {here target : Place} {segment : FileName} {rest : List FileName} {link : Path}
    (directory : root.node? here = some .directory) (isName : IsEntryName segment)
    (found : root.node? (here ++ [segment]) = some (.link link))
    (goesOn : ¬ (rest = [] ∧ ending = .keep))
    (onward : Leads root ending links (if link.isAbsolute then [] else here) (link.segments ++ rest)
      target) :
    Leads root ending (links + 1) here (segment :: rest) target
  | keep {links : Nat} {here : Place} {segment : FileName} {link : Path}
    (directory : root.node? here = some .directory) (isName : IsEntryName segment)
    (found : root.node? (here ++ [segment]) = some (.link link)) (keeps : ending = .keep) :
    Leads root ending links here [segment] (here ++ [segment])
  | create {links : Nat} {here : Place} {segment : FileName}
    (directory : root.node? here = some .directory) (isName : IsEntryName segment)
    (missing : root.node? (here ++ [segment]) = none) (creates : ending = .create) :
    Leads root ending links here [segment] (here ++ [segment])

/-- A path that is followed to a place leads there. -/
theorem leads_of_walk (links : Nat) (here : Place) (segments : List FileName)
    (arrives : walk root ending links here segments = .ok target) :
    Leads root ending links here segments target := by
  match segments with
  | [] =>
    rw [walk] at arrives
    cases arrives
    exact .arrived
  | segment :: rest =>
    by_cases directory : root.node? here = some .directory
    · rw [walk_cons directory] at arrives
      by_cases same : segment = [] ∨ segment = [Path.dot]
      · rw [if_pos same] at arrives
        exact .stay directory same (leads_of_walk links here rest arrives)
      rw [if_neg same] at arrives
      by_cases up : segment = [Path.dot, Path.dot]
      · rw [if_pos up] at arrives
        exact up ▸ .up directory (leads_of_walk links here.dropLast rest arrives)
      rw [if_neg up] at arrives
      by_cases long : maxName < segment.length
      · rw [if_pos long] at arrives
        cases arrives
      rw [if_neg long] at arrives
      -- What is left is a name; the cases are those of what stands under it.
      have isName : IsEntryName segment := ⟨same, up, long⟩
      split at arrives
      · next link found =>
        split at arrives
        · next last =>
          obtain ⟨rfl, keeps⟩ := last
          cases arrives
          exact .keep directory isName found keeps
        · next goesOn =>
          cases links with
          | zero => cases arrives
          | succ links => exact .follow directory isName found goesOn (leads_of_walk links _ _ arrives)
      · next node noLink found =>
        exact .enter directory isName found noLink
          (leads_of_walk links (here ++ [segment]) rest arrives)
      · next missing =>
        split at arrives
        · next last =>
          obtain ⟨rfl, creates⟩ := last
          cases arrives
          exact .create directory isName missing creates
        · cases arrives
    · rw [walk_cons_of_not_directory directory] at arrives
      cases arrives
termination_by (links, segments.length)

/-- A path is followed to where it leads. -/
theorem walk_eq_ok_iff :
    walk root ending links here segments = .ok target ↔ Leads root ending links here segments target := by
  constructor
  · exact leads_of_walk links here segments
  · intro leads
    -- Each way to lead on is one branch of the walk.
    induction leads with
    | arrived => rw [walk]
    | stay directory same _ ih => rw [walk_cons directory, if_pos same, ih]
    | up directory _ ih =>
      rw [walk_cons directory, if_neg (by decide), if_pos rfl, ih]
    | @enter links here target segment rest node directory isName found noLink _ ih =>
      obtain ⟨other, notUp, short⟩ := isName
      rw [walk_cons directory, if_neg other, if_neg notUp, if_neg short, found]
      cases node with
      | link link => exact absurd rfl (noLink link)
      | file body => exact ih
      | directory => exact ih
    | follow directory isName found goesOn _ ih =>
      obtain ⟨other, notUp, short⟩ := isName
      rw [walk_cons directory, if_neg other, if_neg notUp, if_neg short, found]
      simp only [if_neg goesOn]
      exact ih
    | keep directory isName found keeps =>
      obtain ⟨other, notUp, short⟩ := isName
      rw [walk_cons directory, if_neg other, if_neg notUp, if_neg short, found]
      simp only [keeps, and_self, if_true]
    | create directory isName missing creates =>
      obtain ⟨other, notUp, short⟩ := isName
      rw [walk_cons directory, if_neg other, if_neg notUp, if_neg short, missing]
      simp only [creates, and_self, if_true]

/-! ### Where paths lead -/

/-- Whether something other than a link stands at a place. -/
def Tree.Stands (root : Tree) (place : Place) : Prop :=
  ∃ node, root.node? place = some node ∧ ∀ link, node ≠ .link link

/-- Whether nothing stands at a place, although there is a directory for it. -/
def Tree.IsVacant (root : Tree) (place : Place) : Prop :=
  root.node? place = none ∧ ∃ above name, place = above ++ [name] ∧ root.node? above = some .directory

/-- Something stands where a directory does. -/
theorem Tree.stands_of_directory (directory : root.node? here = some .directory) : root.Stands here :=
  ⟨.directory, directory, fun link same => by cases same⟩

/-- What is above a directory is one. -/
theorem Tree.node?_dropLast (directory : root.node? here = some .directory) :
    root.node? here.dropLast = some .directory := by
  rcases List.eq_nil_or_concat here with rfl | ⟨above, name, rfl⟩
  · exact directory
  · rw [List.concat_eq_append] at directory ⊢
    rw [List.dropLast_concat]
    exact Tree.node?_directory_of_concat (by rw [directory]; rfl)

/-- If the last link is followed, a path leads to something that is no link, or to a vacant place. -/
theorem Leads.stands (leads : Leads root ending links here segments target) (follows : ending ≠ .keep)
    (starts : segments = [] → root.Stands here) :
    root.Stands target ∨ ending = .create ∧ root.IsVacant target := by
  induction leads with
  | arrived => exact .inl (starts rfl)
  | stay directory _ _ ih => exact ih fun _ => Tree.stands_of_directory directory
  | up directory _ ih => exact ih fun _ => Tree.stands_of_directory (Tree.node?_dropLast directory)
  | @enter _ _ _ _ _ node _ _ found noLink _ ih => exact ih fun _ => ⟨node, found, noLink⟩
  | @follow _ here _ _ _ link directory _ _ _ _ ih =>
    apply ih
    intro _
    split
    · exact Tree.stands_of_directory root.node?_nil
    · exact Tree.stands_of_directory directory
  | keep _ _ _ keeps => exact absurd keeps follows
  | @create _ here segment directory _ missing creates =>
    exact .inr ⟨creates, missing, here, segment, rfl, directory⟩

/-! ### Usable paths -/

variable {working : Place} {path : Path}

/-- Whether the system takes a path at all. -/
def IsUsable (path : Path) : Prop :=
  path.bytes ≠ [] ∧ ¬ path.bytes.contains 0 ∧ ¬ maxPath ≤ path.bytes.length

/-- A usable path is followed to where it leads. -/
theorem resolve_eq_ok_iff : resolve root working ending path = .ok target ↔
    IsUsable path ∧
      Leads root ending maxLinks (if path.isAbsolute then [] else working) path.segments target := by
  rw [← walk_eq_ok_iff, IsUsable, resolve]
  by_cases empty : path.bytes = []
  · simp [empty]
  by_cases zero : path.bytes.contains 0
  · rw [if_neg empty, if_pos zero]
    exact iff_of_false nofun fun both => both.1.2.1 zero
  by_cases long : maxPath ≤ path.bytes.length
  · rw [if_neg empty, if_neg zero, if_pos long]
    exact iff_of_false nofun fun both => both.1.2.2 long
  · rw [if_neg empty, if_neg zero, if_neg long]
    exact (and_iff_right ⟨empty, zero, long⟩).symm

/-- If the last link is followed, a path leads to something that is no link, or to a vacant place. -/
theorem stands_of_resolve (arrives : resolve root working ending path = .ok target)
    (follows : ending ≠ .keep) : root.Stands target ∨ ending = .create ∧ root.IsVacant target := by
  obtain ⟨-, leads⟩ := resolve_eq_ok_iff.1 arrives
  refine leads.stands follows fun none => ?_
  exact absurd none (List.splitOn_ne_nil _ _)

end CodeCensus.FileSystem
