import CodeCensus.Proofs.Census.Agreement
import CodeCensus.Proofs.Ranking.Order

/-!
# The table of languages, entry by entry

The files of a language are counted one by one, wherever they stand among files of other languages and
files that cannot be read.  What comes out is the list of all labels, ranked by lines of code, each with
what its files have together (`exists_ranked_languages`).
-/

namespace CodeCensus

variable {contents : Contents} {files others : List SourceFile} {texts : List (SourceFile × String)}

/-- The files that have an answer are all that matters. -/
theorem readable_eq_of_filter_eq
    (same : others.filter (fun file => (contents file.path).isSome) =
      files.filter fun file => (contents file.path).isSome) :
    readable contents others = readable contents files := by
  have hkept : ∀ some : List SourceFile, readable contents some =
      (some.filter fun file => (contents file.path).isSome).filterMap
        fun file => (contents file.path).map (file, ·) := by
    intro some
    rw [readable_eq_filterMap, List.filterMap_filter]
    refine List.filterMap_congr fun file _ => ?_
    cases contents file.path <;> rfl
  rw [hkept, hkept, same]

namespace Census

namespace LanguageTable

/-- What the texts with a label have together. -/
def statsOf (texts : List (SourceFile × String)) (label : String) : LanguageStats :=
  let counts := (texts.filter fun entry => entry.1.label = label).map countsOf
  { label := label
    files := counts.length
    code := (counts.map (·.code)).sum
    comments := (counts.map (·.comments)).sum
    blank := (counts.map (·.blank)).sum
    total := (counts.map (·.total)).sum }

/-- The languages of the table are the labels of its texts, ranked by lines of code. -/
theorem exists_ranked_languages (contents : Contents) (files : List SourceFile) :
    ∃ order, Ranking.Ranked (fun label => (statsOf (readable contents files) label).code)
        ((readable contents files).map fun entry => entry.1.label) order ∧
      (ofFiles contents files).languages = order.map (statsOf (readable contents files)) := by
  refine addsUp.exists_ranked LanguageStats.code (fun _ => rfl) ?_
  intro weight mem label
  simp only [List.mem_cons, List.not_mem_nil, or_false] at mem
  rcases mem with rfl | rfl | rfl | rfl | rfl <;> simp [statsOf, LanguageStats.ofFile, Function.comp_def]

/-- A language is in the table because of a file. -/
theorem one_le_files_statsOf {label : String} (seen : label ∈ texts.map fun entry => entry.1.label) :
    1 ≤ (statsOf texts label).files := by
  obtain ⟨entry, hentry, rfl⟩ := List.mem_map.1 seen
  have hmem : entry ∈ texts.filter fun other => other.1.label = entry.1.label :=
    List.mem_filter.2 ⟨hentry, by simp⟩
  rw [statsOf, List.length_map]
  exact List.length_pos_of_mem hmem

end LanguageTable

/-- **The table of languages.**  Every label of a file that can be read has one entry, with what the files
of this label have together, and there are no other entries.  Those with more lines of code come first,
and of those with the same number the one whose label is seen first.  The totals are the sums over the
entries, and files that cannot be read make no difference. -/
theorem languages_exact (contents : Contents) (files : List SourceFile) :
    let texts := readable contents files
    let table := LanguageTable.ofFiles contents files
    (∃ order, Ranking.Ranked (fun label => (LanguageTable.statsOf texts label).code)
        (texts.map fun entry => entry.1.label) order ∧
      table.languages = order.map (LanguageTable.statsOf texts)) ∧
    (∀ stats ∈ table.languages, 1 ≤ stats.files) ∧
    table.totals =
      { files := (table.languages.map LanguageStats.files).sum
        code := (table.languages.map LanguageStats.code).sum
        comments := (table.languages.map LanguageStats.comments).sum
        blank := (table.languages.map LanguageStats.blank).sum
        total := (table.languages.map LanguageStats.total).sum } ∧
    ∀ others : List SourceFile,
      others.filter (fun file => (contents file.path).isSome) =
        files.filter (fun file => (contents file.path).isSome) →
      LanguageTable.ofFiles contents others = table := by
  intro texts table
  obtain ⟨order, ranked, hlanguages⟩ := LanguageTable.exists_ranked_languages contents files
  refine ⟨⟨order, ranked, hlanguages⟩, ?_, ?_, ?_⟩
  · intro stats hstats
    obtain ⟨label, hlabel, rfl⟩ := List.mem_map.1 (hlanguages ▸ hstats)
    exact LanguageTable.one_le_files_statsOf ((ranked.mem_iff label).1 hlabel)
  · exact LineTotals.ofLanguages_eq table.languages
  · intro others same
    have htexts : (answers contents others).texts = (answers contents files).texts :=
      readable_eq_of_filter_eq same
    rw [LanguageTable.ofFiles, LanguageTable.ofAnswers, htexts]
    rfl

/-- A file that cannot be read stands between two files of the same language. -/
theorem languages_exact_lost :
    let files := [markedFile, lostFile, markedFile]
    let table := LanguageTable.ofFiles markedContents files
    let rust : LanguageStats := ⟨"Rust", 2, 2, 2, 0, 4⟩
    rust ∈ table.languages ∧ 1 ≤ rust.files ∧
      LanguageTable.ofFiles markedContents [markedFile, markedFile] = table := by
  intro files table rust
  obtain ⟨⟨order, ranked, hlanguages⟩, hfiles, -, hlost⟩ := languages_exact markedContents files
  have hrust : LanguageTable.statsOf (readable markedContents files) "Rust" = rust := by decide
  have hmem : rust ∈ table.languages := by
    rw [hlanguages, ← hrust]
    exact List.mem_map_of_mem ((ranked.mem_iff "Rust").2 (by decide))
  exact ⟨hmem, hfiles rust hmem, hlost _ (by decide)⟩

end Census

end CodeCensus
