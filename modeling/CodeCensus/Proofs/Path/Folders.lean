import CodeCensus.Proofs.Path
import CodeCensus.Proofs.Census.Files
import Mathlib.Data.List.DropRight
import Mathlib.Logic.Relation

/-!
# Folders and directories

The path of a file relative to a root is made of the names below the root (`relativeTo_eq`), and its folder
is found by cutting this text at its last slash.  The directory around the file is found in the path
itself, by dropping its last part (`parent?`).  Both come to the same, because a name is shown without
slashes of its own: the folder of the relative path is the relative path of the directory.

The spelling of a path does not matter.  A slash or a single dot too many (`Padded`) leaves the parts of a
path alone, and relative paths are made of nothing else (`relativeTo_congr`).
-/

namespace CodeCensus.Path

/-! ### Other spellings -/

/-- A path, and the same path with one slash or one single dot too many. -/
inductive Padded : Path → Path → Prop where
  | slash (front behind : List UInt8) :
    Padded ⟨front ++ slash :: behind⟩ ⟨front ++ slash :: slash :: behind⟩
  | dot (front behind : List UInt8) :
    Padded ⟨front ++ slash :: behind⟩ ⟨front ++ slash :: dot :: slash :: behind⟩
  | lastSlash (front : List UInt8) (ne_nil : front ≠ []) : Padded ⟨front⟩ ⟨front ++ [slash]⟩
  | lastDot (front : List UInt8) : Padded ⟨front ++ [slash]⟩ ⟨front ++ [slash, dot]⟩

/-- Two paths are spelled alike up to slashes and single dots that change nothing. -/
def Respelled : Path → Path → Prop :=
  Relation.EqvGen Padded

/-- A segment that stands for no part may stand in front of others. -/
theorem filterMap_splitOn_silent (segment : FileName) (noSlash : slash ∉ segment)
    (silent : partOf? segment = none) (behind : List UInt8) :
    ((segment ++ slash :: behind).splitOn slash).filterMap partOf? =
      (behind.splitOn slash).filterMap partOf? := by
  rw [List.splitOn_append_cons_self, List.splitOn_eq_singleton noSlash, List.singleton_append,
    List.filterMap_cons_none silent]

/-- A slash or a dot too many leaves the parts alone. -/
theorem Padded.parts_eq {path other : Path} (padded : Padded path other) : path.parts = other.parts := by
  cases padded with
  | slash front behind =>
    rw [parts_behind_slash, parts_behind_slash front (.cons _ _)]
    exact congrArg _ (filterMap_splitOn_silent [] (by decide) (by decide) behind).symm
  | dot front behind =>
    rw [parts_behind_slash, parts_behind_slash front (.cons _ _)]
    exact congrArg _ (filterMap_splitOn_silent [Path.dot] (by decide) (by decide) behind).symm
  | lastSlash front ne_nil => exact (parts_append_slash ne_nil).symm
  | lastDot front =>
    rw [parts_behind_slash front [Path.dot], List.splitOn_eq_singleton (by decide)]
    exact (List.append_nil _).symm

/-- So do any number of them, put in or taken out. -/
theorem Respelled.parts_eq {path other : Path} (respelled : Respelled path other) :
    path.parts = other.parts := by
  induction respelled with
  | rel _ _ padded => exact padded.parts_eq
  | refl => rfl
  | symm _ _ _ ih => exact ih.symm
  | trans _ _ _ _ _ ih ih' => exact ih.trans ih'

/-- Relative paths do not depend on how the paths are spelled. -/
theorem relativeTo_congr {root path root' path' : Path} (root_eq : Respelled root root')
    (path_eq : Respelled path path') : relativeTo root' path' = relativeTo root path := by
  unfold relativeTo
  rw [root_eq.parts_eq, path_eq.parts_eq]

/-! ### The directory around a path -/

/-- Whether a segment stands for no part. -/
def isSilent (segment : FileName) : Bool :=
  (partOf? segment).isNone

/-- The segments in front of the last part of a path, without silent ones at their end. -/
def around (path : Path) : List FileName :=
  (path.segments.rdropWhile isSilent).dropLast.rdropWhile isSilent

/-- The directory around an absolute path: what is left without the last part, and without the slashes and
the dots in front of it. There is none around the root. -/
def parent? (path : Path) : Option Path :=
  if path.parts = [.root] then none
  else if path.around = [] then some ⟨[slash]⟩
  else some ⟨List.intercalate [slash] path.around⟩

theorem isSilent_iff {segment : FileName} : isSilent segment ↔ partOf? segment = none :=
  Option.isNone_iff_eq_none

/-- Silent segments at the end can be dropped. -/
theorem filterMap_rdropWhile (segments : List FileName) :
    (segments.rdropWhile isSilent).filterMap partOf? = segments.filterMap partOf? := by
  induction segments using List.reverseRecOn with
  | nil => rfl
  | append_singleton segments segment ih =>
    by_cases silent : isSilent segment
    · rw [List.rdropWhile_concat_pos _ _ _ silent, ih, List.filterMap_append,
        List.filterMap_cons_none (isSilent_iff.1 silent), List.filterMap_nil, List.append_nil]
    · rw [List.rdropWhile_concat_neg _ _ _ silent]

/-- After that, dropping the last segment is dropping the last part. -/
theorem filterMap_dropLast_rdropWhile (segments : List FileName) :
    (segments.rdropWhile isSilent).dropLast.filterMap partOf? = (segments.filterMap partOf?).dropLast := by
  induction segments using List.reverseRecOn with
  | nil => rfl
  | append_singleton segments segment ih =>
    cases hpart : partOf? segment with
    | none =>
      rw [List.rdropWhile_concat_pos _ _ _ (isSilent_iff.2 hpart), ih, List.filterMap_append,
        List.filterMap_cons_none hpart, List.filterMap_nil, List.append_nil]
    | some part =>
      have audible : ¬ isSilent segment := by simp [isSilent_iff, hpart]
      rw [List.rdropWhile_concat_neg _ _ _ audible, List.dropLast_concat, List.filterMap_append,
        List.filterMap_cons_some hpart, List.filterMap_nil, List.dropLast_concat]

/-- An absolute path begins with an empty segment. -/
theorem head?_segments {path : Path} (absolute : path.isAbsolute) : path.segments.head? = some [] := by
  obtain ⟨bytes⟩ := path
  obtain ⟨behind, rfl⟩ : ∃ behind, bytes = slash :: behind := by
    cases bytes with
    | nil => cases absolute
    | cons byte behind => exact ⟨behind, by rw [Option.some.inj (beq_iff_eq.1 absolute)]⟩
  exact congrArg List.head? (List.splitOn_append_cons_self [] behind)

/-- An absolute path begins at the root and goes on with its segments. -/
theorem parts_of_isAbsolute {path : Path} (absolute : path.isAbsolute) :
    path.parts = .root :: path.segments.filterMap partOf? := by
  rw [parts_eq, if_pos absolute, List.singleton_append]

/-- A path made of segments has the parts that they stand for. -/
theorem parts_intercalate {segments : List FileName} (noSlash : ∀ segment ∈ segments, slash ∉ segment)
    (first : segments.head? = some []) (more : segments ≠ [[]]) :
    Path.parts ⟨List.intercalate [slash] segments⟩ = .root :: segments.filterMap partOf? := by
  obtain ⟨others, rfl⟩ : ∃ others, segments = [] :: others := by
    cases segments with
    | nil => cases first
    | cons segment others => exact ⟨others, by rw [Option.some.inj first]⟩
  have habsolute : Path.isAbsolute ⟨List.intercalate [slash] ([] :: others)⟩ := by
    obtain ⟨other, others, rfl⟩ := List.exists_cons_of_ne_nil fun none => more (congrArg _ none)
    rw [intercalate_cons]
    rfl
  rw [parts_of_isAbsolute habsolute]
  unfold segments
  rw [List.splitOn_intercalate _ noSlash (List.cons_ne_nil _ _)]

/-- The segments around a path stand for its parts but the last. -/
theorem filterMap_around (path : Path) :
    path.around.filterMap partOf? = (path.segments.filterMap partOf?).dropLast := by
  rw [around, filterMap_rdropWhile, filterMap_dropLast_rdropWhile]

/-- The segments around a path are the front of its segments. -/
theorem around_isPrefix (path : Path) : path.around <+: path.segments :=
  (List.rdropWhile_prefix _ _).trans ((List.dropLast_prefix _).trans (List.rdropWhile_prefix _ _))

/-- The segments around a path are none, or have something in them. -/
theorem around_ne_singleton_nil (path : Path) : path.around ≠ [[]] := by
  intro only
  have ne_nil : path.around ≠ [] := only ▸ List.cons_ne_nil _ _
  refine List.rdropWhile_last_not _ _ ne_nil ?_
  change isSilent (path.around.getLast ne_nil)
  simp only [only, List.getLast_singleton]
  decide

/-- The directory around a path has the parts of the path but for the last one. -/
theorem exists_parent {path : Path} (absolute : path.isAbsolute) (ne_root : path.parts ≠ [.root]) :
    ∃ parent, path.parent? = some parent ∧ parent.parts = path.parts.dropLast := by
  have hparts := parts_of_isAbsolute absolute
  have hinner : path.segments.filterMap partOf? ≠ [] := fun none => ne_root (by rw [hparts, none])
  have hdropLast : path.parts.dropLast = .root :: path.around.filterMap partOf? := by
    rw [filterMap_around, hparts, List.dropLast_cons_of_ne_nil hinner]
  rw [parent?, if_neg ne_root, hdropLast]
  split_ifs with top
  · refine ⟨_, rfl, ?_⟩
    rw [top]
    rfl
  · obtain ⟨rest, hrest⟩ := around_isPrefix path
    have hfirst : path.around.head? = some [] := by
      rw [← head?_segments absolute, ← hrest, List.head?_append_of_ne_nil _ top]
    refine ⟨_, rfl, parts_intercalate (fun segment mem => ?_) hfirst (around_ne_singleton_nil path)⟩
    have isSegment : segment ∈ path.segments := hrest ▸ List.mem_append_left rest mem
    exact slash_notMem_of_mem_splitOn isSegment

/-! ### The names below a root -/

/-- The bytes of a part that is a name. -/
def Part.name? : Part → Option FileName
  | .name bytes => some bytes
  | _ => none

/-- The names among the parts of a path behind those of a root. -/
def namesBelow (root path : Path) : List FileName :=
  (path.parts.drop root.parts.length).filterMap Part.name?

/-- The names below a root are parts of the path. -/
theorem mem_parts_of_mem_namesBelow {root path : Path} {name : FileName} (mem : name ∈ namesBelow root path) :
    Part.name name ∈ path.parts := by
  obtain ⟨part, isPart, isName⟩ := List.mem_filterMap.1 mem
  cases part <;> cases isName
  exact List.mem_of_mem_drop isPart

variable {root path other : Path}

/-- Below a root come the names of whatever was put behind its parts. -/
theorem namesBelow_eq {rest : List Part} (parts_eq : path.parts = root.parts ++ rest) :
    namesBelow root path = rest.filterMap Part.name? := by
  rw [namesBelow, parts_eq, List.drop_left]

/-- The relative path is made of the names below the root. -/
theorem relativeTo_eq (below : root.parts <+: path.parts) :
    relativeTo root path = "/".intercalate ((namesBelow root path).map Text.lossy) := by
  obtain ⟨rest, hrest⟩ := below
  rw [namesBelow_eq hrest.symm, relativeTo, ← hrest, after?_append, Option.getD_some, joinNames,
    List.map_filterMap]
  congr 2
  funext part
  cases part <;> rfl

/-- A name is shown as something, without slashes. -/
theorem IsName.lossy {name : FileName} (isName : IsName name) :
    Text.lossy name ≠ "" ∧ '/' ∉ (Text.lossy name).toList := by
  refine ⟨Text.lossy_ne_empty isName.ne_nil, Text.notMem_toList_lossy (by decide) (by decide) ?_⟩
  intro byte mem same
  have hslash : byte = slash := UInt8.toNat_inj.1 same
  exact isName.noSlash (hslash ▸ mem)

/-! ### The folder of a relative path -/

/-- One more text comes behind another separator. -/
theorem intercalate_concat {texts : List String} (ne_nil : texts ≠ []) (text : String) :
    "/".intercalate (texts ++ [text]) = "/".intercalate texts ++ "/" ++ text := by
  induction texts with
  | nil => exact absurd rfl ne_nil
  | cons first texts ih =>
    by_cases last : texts = []
    · rw [last, List.singleton_append, String.intercalate_cons_of_ne_nil (List.cons_ne_nil _ _),
        String.intercalate_singleton, String.intercalate_singleton]
    · rw [List.cons_append, String.intercalate_cons_of_ne_nil (List.append_ne_nil_of_left_ne_nil last _),
        ih last, String.intercalate_cons_of_ne_nil last]
      simp only [String.append_assoc]

/-- The folder of joined names is what the names in front of the last one are joined to. -/
theorem folderOf_intercalate_concat (texts : List String) {text : String} (noSlash : '/' ∉ text.toList) :
    Census.folderOf ("/".intercalate (texts ++ [text])) = "/".intercalate texts := by
  rw [Census.folderOf_eq_iff]
  by_cases alone : texts = []
  · rw [alone, List.nil_append, String.intercalate_singleton]
    exact .inr ⟨noSlash, String.intercalate_nil⟩
  · refine .inl ⟨text.toList, noSlash, ?_⟩
    rw [intercalate_concat alone, String.toList_append, String.toList_append, List.append_assoc]
    rfl

/-- An absolute path that leads strictly below a root and ends in a name. -/
structure IsNamedBelow (root path : Path) : Prop where
  absolute : path.isAbsolute
  below : root.parts <+: path.parts
  ne_root : path.parts ≠ root.parts
  named : path.fileName?.isSome

/-- A path that is named below a root ends in a name. -/
theorem IsNamedBelow.exists_rest (namedBelow : IsNamedBelow root path) :
    ∃ rest name, path.parts = root.parts ++ rest ++ [.name name] := by
  obtain ⟨front, name, hlast⟩ : ∃ front name, path.parts = front ++ [.name name] := by
    have named := namedBelow.named
    unfold fileName? at named
    split at named
    · next name last =>
      obtain ⟨front, hfront⟩ := List.getLast?_eq_some_iff.1 last
      exact ⟨front, name, hfront⟩
    · cases named
  have hbelow : root.parts <+: front ++ [.name name] := hlast ▸ namedBelow.below
  rcases List.prefix_concat_iff.1 hbelow with same | ⟨rest, hrest⟩
  · exact absurd (hlast.trans same.symm) namedBelow.ne_root
  · exact ⟨rest, name, by rw [hlast, hrest]⟩

/-- The folder of a relative path is the relative path of the directory around the file. -/
theorem folderOf_relativeTo (namedBelow : IsNamedBelow root path) :
    ∃ parent, path.parent? = some parent ∧ parent.parts = path.parts.dropLast ∧
      Census.folderOf (relativeTo root path) = relativeTo root parent := by
  obtain ⟨rest, name, hparts⟩ := namedBelow.exists_rest
  have ne_root : path.parts ≠ [.root] := by
    intro top
    have hlast := congrArg List.getLast? top
    rw [hparts, List.getLast?_concat] at hlast
    cases hlast
  obtain ⟨parent, isParent, hparent⟩ := exists_parent namedBelow.absolute ne_root
  have haround : parent.parts = root.parts ++ rest := by rw [hparent, hparts, List.dropLast_concat]
  have isName : IsName name := isName_of_mem_parts (hparts ▸ List.mem_append_right _ List.mem_cons_self)
  have hnames : namesBelow root path = namesBelow root parent ++ [name] := by
    rw [namesBelow_eq haround, namesBelow_eq (hparts.trans (List.append_assoc _ _ _)),
      List.filterMap_append]
    rfl
  refine ⟨parent, isParent, hparent, ?_⟩
  rw [relativeTo_eq namedBelow.below, relativeTo_eq ⟨rest, haround.symm⟩, hnames, List.map_append]
  exact folderOf_intercalate_concat _ isName.lossy.2

/-! ### Telling paths apart -/

/-- A path that leads from a root along names which are texts. -/
def IsTextBelow (root path : Path) : Prop :=
  ∃ names : List FileName, (∀ name ∈ names, Text.IsText name) ∧
    path.parts = root.parts ++ names.map Part.name

/-- Names make an empty text only if there are none. -/
theorem intercalate_eq_nil_iff {names : List FileName} (areNames : ∀ name ∈ names, IsName name) :
    List.intercalate [slash] names = [] ↔ names = [] := by
  refine ⟨fun nil => ?_, fun none => none ▸ List.intercalate_nil⟩
  cases names with
  | nil => rfl
  | cons name names =>
    rw [intercalate_cons] at nil
    exact absurd (List.append_eq_nil_iff.1 nil).1 (areNames name List.mem_cons_self).ne_nil

/-- Where all names are texts, paths below one root are told apart by their relative paths. -/
theorem parts_eq_of_relativeTo_eq (textBelow : IsTextBelow root path) (textBelow' : IsTextBelow root other)
    (same : relativeTo root path = relativeTo root other) : path.parts = other.parts := by
  obtain ⟨names, texts, hparts⟩ := textBelow
  obtain ⟨others, texts', hparts'⟩ := textBelow'
  have areNames : ∀ name ∈ names, IsName name := fun name mem =>
    isName_of_mem_parts (hparts ▸ List.mem_append_right _ (List.mem_map_of_mem mem))
  have areNames' : ∀ name ∈ others, IsName name := fun name mem =>
    isName_of_mem_parts (hparts' ▸ List.mem_append_right _ (List.mem_map_of_mem mem))
  have hbytes : List.intercalate [slash] names = List.intercalate [slash] others := by
    rw [← toUTF8_relativeTo texts hparts, same, toUTF8_relativeTo texts' hparts']
  have hnames : names = others := by
    by_cases none : names = []
    · rw [none, List.intercalate_nil] at hbytes
      rw [none, (intercalate_eq_nil_iff areNames').1 hbytes.symm]
    · have some : others ≠ [] := fun none' => none <|
        (intercalate_eq_nil_iff areNames).1 (by rw [hbytes, none', List.intercalate_nil])
      exact eq_of_intercalate_eq none some areNames areNames' hbytes
  rw [hparts, hparts', hnames]

/-- Relative paths follow the structure of the paths that they are made from. Below a root they are the
names on the way joined with slashes, and cutting off the last name leads to the directory around the file;
how the paths are spelled does not matter; and paths of textual names are told apart. -/
theorem relativeTo_structural (root : Path) :
    (∀ path, IsNamedBelow root path →
      relativeTo root path = "/".intercalate ((namesBelow root path).map Text.lossy) ∧
      (∀ name ∈ namesBelow root path, Text.lossy name ≠ "" ∧ '/' ∉ (Text.lossy name).toList) ∧
      ∃ parent, path.parent? = some parent ∧ parent.parts = path.parts.dropLast ∧
        Census.folderOf (relativeTo root path) = relativeTo root parent) ∧
    (∀ path root' path', Respelled root root' → Respelled path path' →
      relativeTo root' path' = relativeTo root path) ∧
    ∀ path other, IsTextBelow root path → IsTextBelow root other →
      relativeTo root path = relativeTo root other → path.parts = other.parts := by
  refine ⟨fun path namedBelow => ⟨relativeTo_eq namedBelow.below, fun name mem => ?_,
    folderOf_relativeTo namedBelow⟩, fun _ _ _ => relativeTo_congr, fun _ _ => parts_eq_of_relativeTo_eq⟩
  exact (isName_of_mem_parts (mem_parts_of_mem_namesBelow mem)).lossy

/-- A file behind two dots, and the same file with a root and a path of other spellings. -/
theorem relativeTo_structural_dots :
    Census.folderOf (relativeTo (ofString "/r") (ofString "/r/b/../a/c")) = "b/a" ∧
      relativeTo (ofString "/./r") (ofString "/r//b/../a/c") = "b/a/c" ∧
      Path.parts (ofString "/r/a") = Path.parts (ofString "/r//a/.") := by
  obtain ⟨hfiles, hspelling, happart⟩ := relativeTo_structural (ofString "/r")
  have namedBelow : IsNamedBelow (ofString "/r") (ofString "/r/b/../a/c") :=
    ⟨by decide +kernel, ⟨[.name [0x62], .parent, .name [0x61], .name [0x63]], by decide +kernel⟩,
      by decide +kernel, by decide +kernel⟩
  have rootRespelled : Respelled (ofString "/r") (ofString "/./r") := by
    have hroot : ofString "/r" = ⟨[] ++ slash :: [0x72]⟩ := by decide +kernel
    have hroot' : ofString "/./r" = ⟨[] ++ slash :: dot :: slash :: [0x72]⟩ := by decide +kernel
    rw [hroot, hroot']
    exact .rel _ _ (.dot _ _)
  have pathRespelled : Respelled (ofString "/r/b/../a/c") (ofString "/r//b/../a/c") := by
    have hpath : ofString "/r/b/../a/c" = ⟨"/r".toUTF8.toList ++ slash :: "b/../a/c".toUTF8.toList⟩ := by
      decide +kernel
    have hpath' : ofString "/r//b/../a/c" =
        ⟨"/r".toUTF8.toList ++ slash :: slash :: "b/../a/c".toUTF8.toList⟩ := by decide +kernel
    rw [hpath, hpath']
    exact .rel _ _ (.slash _ _)
  have isText : Text.IsText [0x61] := ⟨"a", by decide +kernel⟩
  have textBelow : IsTextBelow (ofString "/r") (ofString "/r/a") :=
    ⟨[[0x61]], by simpa using isText, by decide +kernel⟩
  have textBelow' : IsTextBelow (ofString "/r") (ofString "/r//a/.") :=
    ⟨[[0x61]], by simpa using isText, by decide +kernel⟩
  refine ⟨?_, ?_, happart _ _ textBelow textBelow' (by decide +kernel)⟩
  · obtain ⟨-, -, parent, isParent, -, hfolder⟩ := hfiles _ namedBelow
    have hparent : Path.parent? (ofString "/r/b/../a/c") = some (ofString "/r/b/../a") := by
      decide +kernel
    cases hparent.symm.trans isParent
    rw [hfolder]
    decide +kernel
  · rw [hspelling _ _ _ rootRespelled pathRespelled]
    decide +kernel

end CodeCensus.Path
