import CodeCensus.Proofs.Census.Agreement
import CodeCensus.Proofs.Health.Categories
import CodeCensus.Proofs.Ranking.Order

/-!
# Large files in a ranking

Large files are counted in the ranking of files, of which only the beginning is there.  The ranking has the
longest files first, so that all large files stand in front of all others, and the beginning has as many of
them as have room in it (`largeFiles_ofFiles`).  Five of them take off all the points there are to take,
and no ranking has room for fewer than five but one that was asked to be so short.  So the code quality
does not depend on the length of the ranking (`codeQuality_ranked`).

The points are counted in words of 32 bits, and twice the number of large files has to fit into them.
-/

namespace CodeCensus.Health

open Census (FileTable LargestFile)

/-! ### Large files -/

variable {contents : Contents} {files : List SourceFile}

/-- How many of some files have a text of more than five hundred lines. -/
def largeTexts (contents : Contents) (files : List SourceFile) : Nat :=
  (readable contents files).countP fun entry => 500 < Text.lineCount entry.2

/-- The large files among the entries are the texts with more than five hundred lines. -/
theorem countP_entries (texts : List (SourceFile × String)) :
    (FileTable.entries texts).countP (largeFileLines < ·.lines) =
      texts.countP fun entry => 500 < Text.lineCount entry.2 := by
  rw [FileTable.entries, List.countP_map]
  rfl

/-- A ranking has as many large files as have room in it. -/
theorem largeFiles_ofFiles (contents : Contents) (files : List SourceFile) (top : Nat) :
    largeFiles (.ofFiles contents files top) =
      min (largeTexts contents files) (Ranking.limit top FileTable.standardLength) := by
  rw [largeTexts, ← countP_entries]
  exact Ranking.countP_top top largeFileLines (FileTable.entries (readable contents files))

/-- The table of some files with all of them in the ranking. -/
def wholeTable (contents : Contents) (files : List SourceFile) (top : Nat) : FileTable :=
  { FileTable.ofFiles contents files top with
    largest := Ranking.descending LargestFile.lines (FileTable.entries (readable contents files)) }

/-- A ranking that has all files has all large ones. -/
theorem largeFiles_wholeTable (contents : Contents) (files : List SourceFile) (top : Nat) :
    largeFiles (wholeTable contents files top) = largeTexts contents files := by
  rw [largeTexts, ← countP_entries]
  exact (Ranking.descending_perm _ _).countP_eq _

/-! ### The code quality of a project -/

/-- The code quality of a project that has this table of files, and everything else from the signals. -/
def codeQualityWith (s : Signals) (files : FileTable) : Nat :=
  (score { s with files }).breakdown.codeQuality

/-- The points for the quality of the code are those that are left by large files and by sparse comments. -/
theorem codeQualityWith_eq (s : Signals) {files : FileTable} (few : largeFiles files < 2 ^ 30) :
    codeQualityWith s files = 25 - largePoints (largeFiles files) - commentPoints s.languages :=
  codeQuality_score few

/-- Where there is room for five large files, no more than these are needed. -/
theorem largePoints_min {large room : Nat} (enough : 5 ≤ room) :
    largePoints (min large room) = largePoints large := by
  unfold largePoints
  omega

/-- **The length of the ranking does not change the code quality.**  Of the large files, a ranking has as
many as have room in it, and two points are taken off for each of these, up to ten.  So all rankings in
which five files have room, and also the whole ranking, leave the same code quality. -/
theorem codeQuality_ranked (contents : Contents) (files : List SourceFile) (s : Signals) :
    let large := largeTexts contents files
    let length : Nat → Nat := fun top => if top = 0 then 10 else top
    let table := FileTable.ofFiles contents files
    (∀ top, largeFiles (table top) = min large (length top) ∧
      taken (largeFileDebt (table top)) = min (wordPoints (2 * min large (length top))) 10) ∧
    (∀ top, min large (length top) < 2 ^ 30 →
      taken (largeFileDebt (table top)) = min (2 * min large (length top)) 10 ∧
      codeQualityWith s (table top) + min (2 * min large (length top)) 10 = codeQualityWith s {}) ∧
    (large < 2 ^ 30 → ∀ top, top = 0 ∨ 5 ≤ top →
      (∀ other, other = 0 ∨ 5 ≤ other → codeQualityWith s (table top) = codeQualityWith s (table other)) ∧
      codeQualityWith s (table top) = codeQualityWith s (wholeTable contents files top)) := by
  intro large length table
  have hlarge : ∀ top, largeFiles (table top) = min large (length top) :=
    largeFiles_ofFiles contents files
  have hwhole : large < 2 ^ 30 → ∀ top, top = 0 ∨ 5 ≤ top →
      codeQualityWith s (table top) = 25 - largePoints large - commentPoints s.languages := by
    intro few top asked
    have hroom : 5 ≤ length top := by
      rcases asked with rfl | enough
      · decide
      · rwa [show length top = top from if_neg (by omega)]
    rw [codeQualityWith_eq s (by rw [hlarge]; omega), hlarge, largePoints_min hroom]
  refine ⟨fun top => ⟨hlarge top, ?_⟩, fun top few => ⟨?_, ?_⟩, fun few top asked => ⟨?_, ?_⟩⟩
  · rw [taken_largeFileDebt, hlarge, largeFilePoints]
  · rw [taken_largeFileDebt, hlarge, largeFilePoints_eq few, largePoints]
  · have hpoints := largePoints_le (min large (length top))
    have hcomments := commentPoints_le s.languages
    have hnone : largePoints (largeFiles {}) = 0 := rfl
    rw [codeQualityWith_eq s (by rwa [hlarge]), codeQualityWith_eq s (by decide), hlarge, hnone,
      ← largePoints]
    omega
  · intro other otherwise
    rw [hwhole few top asked, hwhole few other otherwise]
  · have hall := largeFiles_wholeTable contents files top
    rw [hwhole few top asked, codeQualityWith_eq s (by rwa [hall]), hall]

/-- A text of empty lines, one more than it has line feeds. -/
def feeds (count : Nat) : String :=
  String.ofList (List.replicate count '\n')

theorem lineCount_feeds (count : Nat) : Text.lineCount (feeds count) = 1 + count := by
  rw [Text.lineCount, Text.length_lines, feeds, String.toList_ofList, List.count_replicate_self]

/-- A file with five hundred and one lines. -/
def largeFile : SourceFile :=
  { path := ⟨[0x61]⟩, relativePath := "a", extension := "", label := "Text", size := 500 }

/-- All copies of a large file are large. -/
theorem largeTexts_replicate (count : Nat) :
    largeTexts (fun _ => some (feeds 500)) (List.replicate count largeFile) = count := by
  have hreadable : readable (fun _ => some (feeds 500)) (List.replicate count largeFile) =
      List.replicate count (largeFile, feeds 500) := by
    rw [readable_eq_filterMap]
    exact List.filterMap_replicate_of_some rfl
  rw [largeTexts, hreadable, List.countP_replicate, if_pos]
  rw [lineCount_feeds]
  decide

/-- Of seven large files five take as many points off as all of them, and three take fewer. -/
theorem codeQuality_ranked_replicate :
    let contents : Contents := fun _ => some (feeds 500)
    let files := List.replicate 7 largeFile
    let quality := fun top => codeQualityWith {} (.ofFiles contents files top)
    largeTexts contents files < 2 ^ 30 ∧ quality 5 = quality 0 ∧
      quality 5 = codeQualityWith {} (wholeTable contents files 5) ∧
      quality 5 + 10 = codeQualityWith {} {} ∧ quality 3 + 6 = codeQualityWith {} {} := by
  intro contents files quality
  have hlarge : largeTexts contents files = 7 := largeTexts_replicate 7
  have few : largeTexts contents files < 2 ^ 30 := by
    rw [hlarge]
    decide
  obtain ⟨-, hpoints, hlength⟩ := codeQuality_ranked contents files {}
  obtain ⟨hother, hwhole⟩ := hlength few 5 (.inr le_rfl)
  have hfive := (hpoints 5 (by rw [hlarge]; decide)).2
  have hthree := (hpoints 3 (by rw [hlarge]; decide)).2
  rw [hlarge] at hfive hthree
  exact ⟨few, hother 0 (.inl rfl), hwhole, hfive, hthree⟩

end CodeCensus.Health
