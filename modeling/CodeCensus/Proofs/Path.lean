import CodeCensus.Path
import CodeCensus.Proofs.Utf8

/-!
# Paths made of names

A name that can stand in a directory (`IsName`) becomes one more part of every path that it is appended
to, however the path is written.  So the path to a place below a root has the parts of the root and the
names that lead to the place, and its path relative to the root is made of these names alone
(`relativeTo_of_parts_eq`).  Where the names are texts, the bytes of the relative path are the names with
slashes between them, from which the names can be read off again.
-/

namespace CodeCensus.Path

/-- A name that can stand in a directory. -/
structure IsName (name : FileName) : Prop where
  ne_nil : name ≠ []
  ne_dot : name ≠ [dot]
  ne_dots : name ≠ [dot, dot]
  noSlash : slash ∉ name

instance (name : FileName) : Decidable (IsName name) :=
  decidable_of_iff (name ≠ [] ∧ name ≠ [dot] ∧ name ≠ [dot, dot] ∧ slash ∉ name)
    ⟨fun ⟨ne_nil, ne_dot, ne_dots, noSlash⟩ => ⟨ne_nil, ne_dot, ne_dots, noSlash⟩,
      fun ⟨ne_nil, ne_dot, ne_dots, noSlash⟩ => ⟨ne_nil, ne_dot, ne_dots, noSlash⟩⟩

/-! ### Appending a name -/

/-- A segment is a name if it is neither empty nor one dot nor two. -/
theorem partOf?_eq_name_iff {segment name : FileName} : partOf? segment = some (.name name) ↔
    segment = name ∧ segment ≠ [] ∧ segment ≠ [dot] ∧ segment ≠ [dot, dot] := by
  unfold partOf?
  split_ifs with silent dots
  · refine iff_of_false (by simp) ?_
    rintro ⟨-, ne_nil, ne_dot, -⟩
    exact silent.elim ne_nil ne_dot
  · refine iff_of_false (by simp) ?_
    rintro ⟨-, -, -, ne_dots⟩
    exact ne_dots dots
  · rw [Option.some_inj, Part.name.injEq]
    exact ⟨fun same => ⟨same, fun nil => silent (.inl nil), fun one => silent (.inr one), dots⟩, And.left⟩

/-- A name stands for itself as a part of a path. -/
theorem partOf?_eq_name {name : FileName} (isName : IsName name) : partOf? name = some (.name name) :=
  partOf?_eq_name_iff.2 ⟨rfl, isName.ne_nil, isName.ne_dot, isName.ne_dots⟩

theorem isAbsolute_eq_false {name : FileName} (isName : IsName name) :
    Path.isAbsolute ⟨name⟩ = false := by
  cases name with
  | nil => exact absurd rfl isName.ne_nil
  | cons byte bytes =>
    have hne : byte ≠ slash := fun same => isName.noSlash (same ▸ List.mem_cons_self)
    simpa [Path.isAbsolute] using hne

/-- Behind a slash, or behind nothing, a name is put without another slash. -/
theorem child_of_separated {base : Path} {name : FileName} (isName : IsName name)
    (separated : base.bytes = [] ∨ base.bytes.getLast? = some slash) :
    base.child name = ⟨base.bytes ++ name⟩ := by
  rw [child, join, isAbsolute_eq_false isName, if_neg Bool.false_ne_true, if_pos separated]

/-- Behind anything else a slash is put in between. -/
theorem child_of_not_separated {base : Path} {name : FileName} (isName : IsName name)
    (open' : ¬ (base.bytes = [] ∨ base.bytes.getLast? = some slash)) :
    base.child name = ⟨base.bytes ++ slash :: name⟩ := by
  rw [child, join, isAbsolute_eq_false isName, if_neg Bool.false_ne_true, if_neg open']

/-- The parts of a path that is not empty, by its segments. -/
theorem parts_eq (path : Path) : path.parts =
    (if path.isAbsolute then [.root] else if path.segments.head? = some [dot] then [.here] else []) ++
      path.segments.filterMap partOf? := by
  unfold parts
  split
  · rfl
  · split <;> rfl

/-- The empty segment at the end of a path that ends in a slash stands for no part. -/
theorem filterMap_singleton_nil : [([] : FileName)].filterMap partOf? = [] := by
  simp [partOf?]

/-- What is behind a slash adds the parts of its segments. -/
theorem parts_behind_slash (before after : List UInt8) : Path.parts ⟨before ++ slash :: after⟩ =
    Path.parts ⟨before ++ [slash]⟩ ++ (after.splitOn slash).filterMap partOf? := by
  have hsegments (after : List UInt8) : Path.segments ⟨before ++ slash :: after⟩ =
      before.splitOn slash ++ after.splitOn slash := by
    unfold Path.segments
    exact List.splitOn_append_cons_self before after
  have hhead (after : List FileName) : (before.splitOn slash ++ after).head? =
      (before.splitOn slash).head? := by
    rw [List.head?_append_of_ne_nil _ (List.splitOn_ne_nil slash before)]
  have habsolute (after : List UInt8) : Path.isAbsolute ⟨before ++ slash :: after⟩ =
      Path.isAbsolute ⟨before ++ [slash]⟩ := by
    unfold Path.isAbsolute
    cases before <;> rfl
  rw [parts_eq, parts_eq, hsegments, hsegments, hhead, hhead, habsolute, List.splitOn_nil,
    List.filterMap_append, List.filterMap_append, filterMap_singleton_nil, List.append_nil, List.append_assoc]

/-- A name behind a slash adds a part. -/
theorem parts_slash_name {before : List UInt8} {name : FileName} (isName : IsName name) :
    Path.parts ⟨before ++ slash :: name⟩ = Path.parts ⟨before ++ [slash]⟩ ++ [.name name] := by
  rw [parts_behind_slash, List.splitOn_eq_singleton isName.noSlash,
    List.filterMap_cons_some (partOf?_eq_name isName), List.filterMap_nil]

/-- A slash at the end of a path adds no part to it. -/
theorem parts_append_slash {before : List UInt8} (ne_nil : before ≠ []) :
    Path.parts ⟨before ++ [slash]⟩ = Path.parts ⟨before⟩ := by
  have hsegments : Path.segments ⟨before ++ [slash]⟩ = before.splitOn slash ++ [[]] := by
    unfold Path.segments
    exact List.splitOn_append_cons_self before []
  have habsolute : Path.isAbsolute ⟨before ++ [slash]⟩ = Path.isAbsolute ⟨before⟩ := by
    unfold Path.isAbsolute
    rw [List.head?_append_of_ne_nil _ ne_nil]
  rw [parts_eq, parts_eq, hsegments, List.filterMap_append, filterMap_singleton_nil, List.append_nil, habsolute,
    List.head?_append_of_ne_nil _ (List.splitOn_ne_nil slash before)]
  rfl

/-- A name is a path of one part. -/
theorem parts_of_isName {name : FileName} (isName : IsName name) :
    Path.parts ⟨name⟩ = [.name name] := by
  have hsegments : Path.segments ⟨name⟩ = [name] := by
    unfold Path.segments
    exact List.splitOn_eq_singleton isName.noSlash
  have hhead : ([name] : List FileName).head? ≠ some [dot] := by
    intro same
    exact isName.ne_dot (Option.some.inj same)
  rw [parts_eq, hsegments, isAbsolute_eq_false isName, if_neg Bool.false_ne_true, if_neg hhead,
    List.filterMap_cons_some (partOf?_eq_name isName), List.filterMap_nil, List.nil_append]

/-- A name that is appended to a path becomes its last part. -/
theorem parts_child (base : Path) {name : FileName} (isName : IsName name) :
    (base.child name).parts = base.parts ++ [.name name] := by
  obtain ⟨bytes⟩ := base
  by_cases separated : bytes = [] ∨ bytes.getLast? = some slash
  · rw [child_of_separated isName separated]
    rcases separated with empty | last
    · rw [empty, List.nil_append, parts_of_isName isName]
      rfl
    · obtain ⟨before, hbefore⟩ := List.getLast?_eq_some_iff.1 last
      rw [hbefore, List.append_assoc, List.singleton_append]
      exact parts_slash_name isName
  · rw [child_of_not_separated isName separated, parts_slash_name isName,
      parts_append_slash fun empty => separated (.inl empty)]

/-! ### The names in a path -/

/-- No segment between two slashes has a slash. -/
theorem slash_notMem_of_mem_splitOn {bytes : List UInt8} {segment : FileName}
    (mem : segment ∈ bytes.splitOn slash) : slash ∉ segment := by
  induction bytes generalizing segment with
  | nil =>
    rw [List.splitOn_nil, List.mem_singleton] at mem
    exact mem ▸ List.not_mem_nil
  | cons byte bytes ih =>
    rw [List.splitOn_cons_eq_if_modifyHead] at mem
    split at mem
    · rcases List.mem_cons.1 mem with rfl | mem
      · exact List.not_mem_nil
      · exact ih mem
    · next different =>
      -- The byte stands in front of the first segment of the others.
      obtain ⟨first, others, hsplit⟩ := List.exists_cons_of_ne_nil (List.splitOn_ne_nil slash bytes)
      rw [hsplit] at ih mem
      rcases List.mem_cons.1 mem with rfl | mem
      · exact List.not_mem_cons_of_ne_of_not_mem (fun same => different (beq_iff_eq.2 same.symm))
          (ih List.mem_cons_self)
      · exact ih (List.mem_cons_of_mem first mem)

/-- What comes as a name out of a path is one. -/
theorem isName_of_mem_parts {path : Path} {name : FileName} (mem : Part.name name ∈ path.parts) :
    IsName name := by
  rw [parts_eq, List.mem_append] at mem
  rcases mem with first | inner
  · split_ifs at first <;> simp at first
  · obtain ⟨segment, isSegment, isPart⟩ := List.mem_filterMap.1 inner
    obtain ⟨rfl, ne_nil, ne_dot, ne_dots⟩ := partOf?_eq_name_iff.1 isPart
    exact ⟨ne_nil, ne_dot, ne_dots, slash_notMem_of_mem_splitOn isSegment⟩

/-! ### Appending names -/

/-- Going down name by name appends these names to the parts of the path. -/
theorem parts_foldl_child (base : Path) {names : List FileName} (areNames : ∀ name ∈ names, IsName name) :
    (names.foldl child base).parts = base.parts ++ names.map Part.name := by
  induction names generalizing base with
  | nil => rw [List.foldl_nil, List.map_nil, List.append_nil]
  | cons name names ih =>
    obtain ⟨isName, areNames⟩ := List.forall_mem_cons.1 areNames
    rw [List.foldl_cons, ih _ areNames, parts_child base isName, List.map_cons, List.append_assoc,
      List.singleton_append]

/-- Different names lead to different paths. -/
theorem eq_of_foldl_child_eq {base : Path} {names others : List FileName}
    (areNames : ∀ name ∈ names, IsName name) (areNames' : ∀ name ∈ others, IsName name)
    (same : names.foldl child base = others.foldl child base) : names = others := by
  have hparts : base.parts ++ names.map Part.name = base.parts ++ others.map Part.name := by
    rw [← parts_foldl_child base areNames, same, parts_foldl_child base areNames']
  refine List.map_injective_iff.2 ?_ (List.append_cancel_left hparts)
  intro name other same
  cases same
  rfl

theorem intercalate_cons (name : FileName) (names : List FileName) :
    List.intercalate [slash] (name :: names) = name ++ names.flatMap (slash :: ·) := by
  induction names generalizing name with
  | nil => simp
  | cons other names ih =>
    rw [List.intercalate_cons_of_ne_nil (List.cons_ne_nil other names), ih, List.flatMap_cons,
      List.append_assoc, List.singleton_append, List.cons_append]

/-- What ends in a name needs a slash before the next one. -/
theorem not_separated_append (before : List UInt8) {name : FileName} (isName : IsName name) :
    ¬ (before ++ name = [] ∨ (before ++ name).getLast? = some slash) := by
  rw [List.getLast?_append_of_ne_nil _ isName.ne_nil]
  rintro (empty | last)
  · exact isName.ne_nil (List.append_eq_nil_iff.1 empty).2
  · exact isName.noSlash (List.mem_of_getLast? last)

/-- Going down from a path that does not end in a slash puts one in front of each name. -/
theorem foldl_child_of_not_separated {bytes : List UInt8} {names : List FileName}
    (areNames : ∀ name ∈ names, IsName name)
    (open' : ¬ (bytes = [] ∨ bytes.getLast? = some slash)) :
    names.foldl child ⟨bytes⟩ = ⟨bytes ++ names.flatMap (slash :: ·)⟩ := by
  induction names generalizing bytes with
  | nil => rw [List.foldl_nil, List.flatMap_nil, List.append_nil]
  | cons name names ih =>
    obtain ⟨isName, areNames⟩ := List.forall_mem_cons.1 areNames
    have hopen := not_separated_append (bytes ++ [slash]) isName
    rw [List.append_assoc, List.singleton_append] at hopen
    rw [List.foldl_cons, child_of_not_separated isName open', ih areNames hopen, List.flatMap_cons,
      List.append_assoc]

/-- Names that are appended one after the other might as well be joined first. -/
theorem foldl_child_eq_join (base : Path) {names : List FileName} (ne_nil : names ≠ [])
    (areNames : ∀ name ∈ names, IsName name) :
    names.foldl child base = base.join ⟨List.intercalate [slash] names⟩ := by
  obtain ⟨name, names, rfl⟩ := List.exists_cons_of_ne_nil ne_nil
  obtain ⟨isName, areNames⟩ := List.forall_mem_cons.1 areNames
  have hrelative : Path.isAbsolute ⟨name ++ names.flatMap (slash :: ·)⟩ = false := by
    have hname := isAbsolute_eq_false isName
    unfold Path.isAbsolute at hname ⊢
    rwa [List.head?_append_of_ne_nil _ isName.ne_nil]
  rw [List.foldl_cons, intercalate_cons, join, hrelative, if_neg Bool.false_ne_true]
  by_cases separated : base.bytes = [] ∨ base.bytes.getLast? = some slash
  · rw [child_of_separated isName separated, if_pos separated,
      foldl_child_of_not_separated areNames (not_separated_append _ isName), List.append_assoc]
  · have hopen := not_separated_append (base.bytes ++ [slash]) isName
    rw [List.append_assoc, List.singleton_append] at hopen
    rw [child_of_not_separated isName separated, if_neg separated,
      foldl_child_of_not_separated areNames hopen, List.append_assoc, List.cons_append]

/-! ### Relative paths -/

/-- What comes behind the parts of a root is what was put behind them. -/
theorem after?_append (root rest : List Part) : after? root (root ++ rest) = some rest := by
  induction root with
  | nil => rfl
  | cons part root ih => rw [List.cons_append, after?, if_pos rfl, ih]

/-- Parts that are names are joined with slashes between them, each shown as text. -/
theorem joinNames_map_name (names : List FileName) :
    joinNames (names.map Part.name) = "/".intercalate (names.map Text.lossy) := by
  unfold joinNames
  rw [List.filterMap_map]
  congr 1
  exact List.filterMap_eq_map_iff_forall_eq_some.2 fun _ _ => rfl

/-- The path from a root to a place below it is made of the names that lead there. -/
theorem relativeTo_of_parts_eq {root path : Path} {names : List FileName}
    (parts_eq : path.parts = root.parts ++ names.map Part.name) :
    relativeTo root path = "/".intercalate (names.map Text.lossy) := by
  rw [relativeTo, parts_eq, after?_append, Option.getD_some, joinNames_map_name]

/-- Names are found again in what they are joined to. -/
theorem eq_of_intercalate_eq {names others : List FileName} (ne_nil : names ≠ []) (ne_nil' : others ≠ [])
    (areNames : ∀ name ∈ names, IsName name) (areNames' : ∀ name ∈ others, IsName name)
    (same : List.intercalate [slash] names = List.intercalate [slash] others) : names = others := by
  have hnames := List.splitOn_intercalate slash (fun name mem => (areNames name mem).noSlash) ne_nil
  have hothers := List.splitOn_intercalate slash (fun name mem => (areNames' name mem).noSlash) ne_nil'
  rw [← hnames, ← hothers, same]

/-- The bytes of joined texts are their joined bytes. -/
theorem toUTF8_intercalate (texts : List String) :
    ("/".intercalate texts).toUTF8.toList =
      List.intercalate [slash] (texts.map fun text => text.toUTF8.toList) := by
  have hslash : ("/" : String).toUTF8.toList = [slash] := by
    rw [Text.toList_toUTF8]
    rfl
  induction texts with
  | nil =>
    rw [String.intercalate_nil, List.map_nil, Text.toList_toUTF8]
    rfl
  | cons text texts ih =>
    by_cases last : texts = []
    · rw [last, String.intercalate_singleton, List.map_singleton, List.intercalate_singleton]
    · have hmap : texts.map (fun text => text.toUTF8.toList) ≠ [] := by simpa using last
      rw [String.intercalate_cons_of_ne_nil last, Text.toList_toUTF8_append, Text.toList_toUTF8_append,
        ih, hslash, List.map_cons, List.intercalate_cons_of_ne_nil hmap]

/-- The bytes of the relative path are the names with slashes between them. -/
theorem toUTF8_relativeTo {root path : Path} {names : List FileName}
    (texts : ∀ name ∈ names, Text.IsText name)
    (parts_eq : path.parts = root.parts ++ names.map Part.name) :
    (relativeTo root path).toUTF8.toList = List.intercalate [slash] names := by
  have hbytes : names.map (fun name => (Text.lossy name).toUTF8.toList) = names :=
    (List.map_congr_left fun name mem => (texts name mem).toList_lossy).trans (List.map_id' names)
  rw [relativeTo_of_parts_eq parts_eq, toUTF8_intercalate, List.map_map]
  exact congrArg _ hbytes

end CodeCensus.Path
