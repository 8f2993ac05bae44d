import CodeCensus.Proofs.FileSystem.Following
import CodeCensus.Proofs.Utf8

/-!
# Writing a file

A file is written where its path leads, be it through links, and nothing else on the disk changes
(`Disk.wrote_of_write`).  To say so, what stands at a place is looked at without what is inside a
directory (`Tree.node?`): otherwise every directory above the file would change with it.

Following a path only depends on what stands at places, so every path that led somewhere leads to the same
place afterwards (`resolve_wrote`), and the path that was written leads to the new file
(`Disk.Wrote.entry?_written`).
-/

namespace CodeCensus.FileSystem

namespace Tree

variable {tree inside : Tree} {place above : List FileName} {name : FileName}

/-! ### Changing what stands at a place -/

/-- What was put in is found under its name, and everything else as before. -/
theorem find?_insert (tree : Tree) (name : FileName) (entry : Entry) (wanted : FileName) :
    (tree.insert name entry).find? wanted = if name = wanted then some entry else tree.find? wanted := by
  induction tree using consInduction with
  | empty =>
    rw [insert, find?_cons]
  | cons first other rest _ ih =>
    have hinsert : (cons first other rest).insert name entry =
        if first = name then cons name entry rest else cons first other (rest.insert name entry) := by
      cases other <;> rfl
    rw [hinsert, find?_cons]
    split
    · next same =>
      rw [find?_cons, same]
      split <;> rfl
    · next different =>
      rw [find?_cons, ih]
      split_ifs with hfirst hname
      · exact absurd (hfirst.trans hname.symm) different
      · rfl
      · rfl
      · rfl

theorem modifyAt_nil (tree : Tree) (change : Tree → Tree) : tree.modifyAt change [] = change tree := by
  rw [modifyAt.eq_def]

/-- To change a tree below a directory is to put the changed directory in its place. -/
theorem modifyAt_cons {change : Tree → Tree} (directory : tree.find? name = some (.directory inside))
    (place : List FileName) : tree.modifyAt change (name :: place) =
      tree.insert name (.directory (inside.modifyAt change place)) := by
  rw [modifyAt.eq_def]
  simp only [directory]

/-- An entry is put into the directory above its place. -/
theorem putAt_concat (tree : Tree) (above : List FileName) (name : FileName) (entry : Entry) :
    tree.putAt (above ++ [name]) entry = tree.modifyAt (insert name entry) above := by
  rw [putAt, List.getLast?_concat, List.dropLast_concat]

/-- A file that is put where nothing or a file stands changes nothing at any other place. -/
theorem node?_putAt_file {body : ByteArray} (directory : tree.at? above = some (.directory inside))
    (free : ∀ entry, inside.find? name = some entry → ∃ old, entry = .file old)
    (other : List FileName) :
    (tree.putAt (above ++ [name]) (.file body)).node? other =
      if other = above ++ [name] then some (.file body) else tree.node? other := by
  rw [putAt_concat]
  induction above generalizing tree other with
  | nil =>
    cases directory
    cases other with
    | nil => rfl
    | cons first other =>
      rw [List.nil_append, modifyAt_nil, node?_cons, find?_insert, node?_cons]
      by_cases same : name = first
      · subst same
        rw [if_pos rfl, Option.bind_some]
        cases other with
        | nil => simp [Entry.at?, Entry.node]
        | cons second other =>
          -- Nothing stands below a file, neither the old one nor the new one.
          rw [if_neg (by simp)]
          cases hold : inside.find? name with
          | none => rfl
          | some entry =>
            obtain ⟨old, rfl⟩ := free entry hold
            rfl
      · rw [if_neg same, if_neg fun both => same (List.cons.inj both).1.symm]
  | cons first above ih =>
    rw [at?_eq_bind] at directory
    obtain ⟨entry, hfirst, directory⟩ := Option.bind_eq_some_iff.1 directory
    cases entry with
    | directory middle =>
      rw [at?_directory] at directory
      rw [modifyAt_cons hfirst]
      cases other with
      | nil => rfl
      | cons second other =>
        rw [List.cons_append, node?_cons, find?_insert, node?_cons]
        by_cases same : first = second
        · subst same
          rw [if_pos rfl, Option.bind_some, at?_directory, hfirst, Option.bind_some, at?_directory]
          have hmiddle := ih directory other
          rw [node?, node?] at hmiddle
          rw [hmiddle]
          simp only [List.cons.injEq, true_and]
        · rw [if_neg same, if_neg fun both => same (List.cons.inj both).1.symm]
    | file body => cases above <;> cases directory
    | link target => cases above <;> cases directory

end Tree

/-! ### A tree with another file -/

variable {root root' : Tree} {ending : Ending} {links : Nat} {here place target working : Place}
  {segments : List FileName} {path : Path} {body : ByteArray}

/-- Of two trees the second one has a further file at a place, or another one. -/
structure Tree.Wrote (root root' : Tree) (place : Place) (body : ByteArray) : Prop where
  free : ∀ node, root.node? place = some node → ∃ old, node = .file old
  node?_eq : ∀ other, root'.node? other = if other = place then some (.file body) else root.node? other

namespace Tree.Wrote

variable (wrote : root.Wrote root' place body)

include wrote

/-- The new file stands at its place. -/
theorem node?_place : root'.node? place = some (.file body) := by
  rw [wrote.node?_eq, if_pos rfl]

theorem node?_of_ne {other : Place} (different : other ≠ place) : root'.node? other = root.node? other := by
  rw [wrote.node?_eq, if_neg different]

/-- What is no file stays what it is. -/
theorem node?_of_noFile {node : Node} (found : root.node? here = some node)
    (noFile : ∀ old, node ≠ .file old) : root'.node? here = some node := by
  have different : here ≠ place := by
    rintro rfl
    obtain ⟨old, same⟩ := wrote.free node found
    exact noFile old same
  rw [wrote.node?_of_ne different, found]

/-- Every directory is still there, since a file is not written in place of one. -/
theorem node?_directory (directory : root.node? here = some .directory) :
    root'.node? here = some .directory :=
  wrote.node?_of_noFile directory fun old same => by cases same

/-- What is no link becomes none. -/
theorem exists_node? {node : Node} (found : root.node? here = some node)
    (noLink : ∀ link, node ≠ .link link) :
    ∃ new, root'.node? here = some new ∧ ∀ link, new ≠ .link link := by
  by_cases same : here = place
  · subst same
    exact ⟨.file body, wrote.node?_place, fun link same => by cases same⟩
  · exact ⟨node, (wrote.node?_of_ne same).trans found, noLink⟩

/-- A path that led somewhere leads there still; a path that led to a vacant place leads there if it has
been filled. -/
theorem leads (leads : Leads root ending links here segments target) (follows : ending ≠ .keep)
    (filled : ending = .create → (root'.node? target).isSome) :
    Leads root' .follow links here segments target := by
  induction leads with
  | arrived => exact .arrived
  | stay directory same _ ih => exact .stay (wrote.node?_directory directory) same (ih filled)
  | up directory _ ih => exact .up (wrote.node?_directory directory) (ih filled)
  | enter directory isName found noLink _ ih =>
    obtain ⟨new, hnew, noLink⟩ := wrote.exists_node? found noLink
    exact .enter (wrote.node?_directory directory) isName hnew noLink (ih filled)
  | @follow _ _ _ _ _ link directory isName found _ _ ih =>
    have hlink := wrote.node?_of_noFile found fun old same => by cases same
    exact .follow (wrote.node?_directory directory) isName hlink (by simp) (ih filled)
  | keep _ _ _ keeps => exact absurd keeps follows
  | @create _ here segment directory isName missing creates =>
    have hplace : here ++ [segment] = place := by
      by_contra different
      have hfilled := filled creates
      rw [wrote.node?_of_ne different, missing] at hfilled
      cases hfilled
    have hfile : root'.node? (here ++ [segment]) = some (.file body) := by
      rw [hplace, wrote.node?_place]
    exact .enter (wrote.node?_directory directory) isName hfile (fun link same => by cases same) .arrived

end Tree.Wrote

/-- Paths lead where they led before, and to the place that has been filled. -/
theorem resolve_wrote (wrote : root.Wrote root' place body)
    (arrives : resolve root working ending path = .ok target) (follows : ending ≠ .keep)
    (filled : ending = .create → (root'.node? target).isSome) :
    resolve root' working .follow path = .ok target := by
  obtain ⟨usable, leads⟩ := resolve_eq_ok_iff.1 arrives
  exact resolve_eq_ok_iff.2 ⟨usable, wrote.leads leads follows filled⟩

namespace Tree

/-- A file that is put where one stands, or at a vacant place, changes nothing at any other place. -/
theorem wrote_putAt (free : root.IsVacant place ∨ ∃ old, root.node? place = some (.file old)) :
    root.Wrote (root.putAt place (.file body)) place body := by
  have hfree : ∀ node, root.node? place = some node → ∃ old, node = .file old := by
    intro node found
    rcases free with ⟨none, -⟩ | ⟨old, file⟩
    · rw [none] at found
      cases found
    · exact ⟨old, Option.some.inj (found.symm.trans file)⟩
  refine ⟨hfree, ?_⟩
  have habove : ∃ above name, place = above ++ [name] ∧ root.node? above = some .directory := by
    rcases free with ⟨-, above⟩ | ⟨old, file⟩
    · exact above
    · rcases List.eq_nil_or_concat place with rfl | ⟨above, name, rfl⟩
      · cases file
      · rw [List.concat_eq_append] at file ⊢
        exact ⟨above, name, rfl, node?_directory_of_concat (by rw [file]; rfl)⟩
  obtain ⟨above, name, rfl, directory⟩ := habove
  obtain ⟨inside, found⟩ := node?_eq_directory_iff.1 directory
  refine node?_putAt_file found fun entry here => ?_
  obtain ⟨old, same⟩ := hfree entry.node (by rw [node?_concat found, here]; rfl)
  cases entry <;> cases same
  exact ⟨old, rfl⟩

end Tree

/-! ### Disks -/

namespace Disk

variable {disk before after : Disk} {other : Path}

/-- Of two disks the second one has another file where a path leads, or a further one, and is like the
first one everywhere else. -/
def Wrote (before after : Disk) (path : Path) (body : ByteArray) : Prop :=
  after.working = before.working ∧ after.userIgnore? = before.userIgnore? ∧
    ∃ place, resolve before.root before.working .create path = .ok place ∧
      before.root.Wrote after.root place body

/-- What is written is put where the path leads, unless a directory stands there. -/
theorem write_eq_ok_iff : disk.write path body = .ok after ↔
    ∃ place, resolve disk.root disk.working .create path = .ok place ∧
      disk.root.node? place ≠ some .directory ∧
      { disk with root := disk.root.putAt place (.file body) } = after := by
  rw [write]
  cases arrives : resolve disk.root disk.working .create path with
  | error fault => exact iff_of_false nofun fun ⟨_, same, _⟩ => by cases same
  | ok place =>
    simp only [bind, Except.bind, Except.ok.injEq, exists_eq_left', Tree.node?]
    cases disk.root.at? place with
    | none => simp [pure, Except.pure]
    | some entry =>
      cases entry <;> simp [Entry.node, pure, Except.pure, throw, throwThe, MonadExceptOf.throw]

/-- Writing changes the file that the path leads to, and nothing else. -/
theorem wrote_of_write (written : disk.write path body = .ok after) : disk.Wrote after path body := by
  obtain ⟨place, arrives, noDirectory, rfl⟩ := write_eq_ok_iff.1 written
  refine ⟨rfl, rfl, place, arrives, Tree.wrote_putAt ?_⟩
  rcases stands_of_resolve arrives nofun with ⟨node, found, noLink⟩ | ⟨-, vacant⟩
  · cases node with
    | file old => exact .inr ⟨old, found⟩
    | link link => exact absurd rfl (noLink link)
    | directory => exact absurd found noDirectory
  · exact .inl vacant

/-- The entry of a path is what stands where the path leads. -/
theorem entry?_eq_ok_iff {entry : Entry} : disk.entry? path = .ok entry ↔
    ∃ place, resolve disk.root disk.working .follow path = .ok place ∧
      disk.root.at? place = some entry := by
  unfold entry?
  cases arrives : resolve disk.root disk.working .follow path with
  | error fault => exact iff_of_false nofun fun ⟨_, same, _⟩ => by cases same
  | ok place =>
    simp only [bind, Except.bind, Except.ok.injEq, exists_eq_left']
    cases disk.root.at? place with
    | none => exact iff_of_false nofun nofun
    | some found => simp [pure, Except.pure]

/-- The path that was written leads to the new file. -/
theorem Wrote.entry?_written (wrote : before.Wrote after path body) :
    after.entry? path = .ok (.file body) := by
  obtain ⟨working, -, place, arrives, wrote⟩ := wrote
  rw [entry?_eq_ok_iff, working]
  refine ⟨place, resolve_wrote wrote arrives nofun fun _ => ?_, ?_⟩
  · rw [wrote.node?_place]
    rfl
  · obtain ⟨entry, found, same⟩ := Option.map_eq_some_iff.1 wrote.node?_place
    cases entry <;> cases same
    exact found

/-- The text of a file is read. -/
theorem readText_of_entry? {text : String} (found : disk.entry? path = .ok (.file text.toUTF8)) :
    disk.readText path = .ok text := by
  have hread : disk.read path = .ok text.toUTF8 := by
    rw [read, found]
    rfl
  rw [readText, hread]
  simp only [bind, Except.bind, Text.ofUtf8?_eq_some_iff.2 rfl]
  rfl

end Disk

end CodeCensus.FileSystem
