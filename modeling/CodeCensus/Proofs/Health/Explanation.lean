import CodeCensus.Proofs.Health.Categories
import Mathlib.Algebra.Order.BigOperators.Group.List

/-!
# What a score is explained by

The deductions are chosen one inside the other: some conditions are only asked where others fail, and a
project without a repository is asked nothing else about its history.  Here everything that can be reported
is a plain list of remarks, each with the whole condition under which it is made (`remarks`), and a score
is explained by those of them that apply, in the order of this list (`explains_deductions`).

Conditions that exclude each other leave room for no more than nine remarks at a time
(`length_applying_remarks_le`), so that no issue is ever cut off; of the advice, which comes with an issue
each time, five pieces are kept.  A deduction always takes something off, so that nothing is reported of a
project with full marks (`score_lt_of_deductions`).
-/

namespace CodeCensus.Health

/-! ### Remarks -/

/-- Something that may be reported of a project: an issue, perhaps with a piece of advice. -/
structure Remark where
  applies : Bool
  issue : String
  advice : Option String := none

/-- What may be reported of large files. -/
def largeRemarks (large : Nat) : List Remark :=
  [⟨0 < large, toString large ++ " files with >500 lines",
    some "Consider splitting large files into smaller modules"⟩]

/-- What may be reported of the comments in a code base. -/
def commentRemarks (ratio : Float) : List Remark :=
  [⟨ratio < 0.05, "Very few comments in codebase", some "Add more documentation comments"⟩,
    ⟨¬ ratio < 0.05 ∧ ratio > 0.5, "Excessive comments (may indicate commented-out code)", none⟩]

/-- What may be reported of the number of markers. -/
def markerRemarks (total : Nat) : List Remark :=
  [⟨50 < total, toString total ++ " TODOs/FIXMEs - high tech debt",
      some "Address TODO items to reduce tech debt"⟩,
    ⟨20 < total ∧ total ≤ 50, toString total ++ " TODOs/FIXMEs", none⟩]

/-- What may be reported of critical markers. -/
def criticalRemarks (critical : Nat) : List Remark :=
  [⟨5 < critical, toString critical ++ " critical issues (FIXME/BUG)",
    some "Prioritize fixing BUG and FIXME items"⟩]

/-- What may be reported of the dependencies. -/
def dependencyRemarks (dependencies : Dependency.Summary) : List Remark :=
  [⟨0 < dependencies.total ∧ dependencies.hasLockfile = false, "No lockfile found",
      some "Add a lockfile (package-lock.json) for reproducible builds"⟩,
    ⟨0 < dependencies.total ∧ 10 < dependencies.outdated,
      toString dependencies.outdated ++ " outdated dependencies", some "Update outdated dependencies"⟩]

/-- What may be reported of missing documentation. -/
def documentationRemarks (languages : Census.LanguageTable) : List Remark :=
  [⟨languages.has "Markdown" = false, "No markdown documentation found", some "Add a README.md file"⟩]

/-- What may be reported of the commits in the activity window of a repository. -/
def inactivityRemarks (history : History.Summary) : List Remark :=
  let recent := history.recentCommits
  [⟨history.isRepository ∧ recent = 0, "No commits in the last 30 days",
      some "Repository appears inactive"⟩,
    ⟨history.isRepository ∧ 0 < recent ∧ recent < 5, "Low commit activity in the last 30 days", none⟩]

/-- What may be reported of the authors of a repository. -/
def authorRemarks (history : History.Summary) : List Remark :=
  [⟨history.isRepository ∧ history.contributors.length = 1 ∧ 50 < history.totalCommits,
    "Single contributor on a large project", none⟩]

/-- What may be reported of the history. -/
def historyRemarks (history : History.Summary) : List Remark :=
  ⟨history.isRepository = false, "Not a git repository", some "Initialize git for version control"⟩ ::
    (inactivityRemarks history ++ authorRemarks history)

/-- Everything that may be reported of a project, in the order in which it is. -/
def remarks (s : Signals) : List Remark :=
  (largeRemarks (largeFiles s.files) ++ commentRemarks s.languages.totals.commentRatio) ++
    (markerRemarks s.markers.total ++ criticalRemarks (criticalMarkers s.markers) ++
      dependencyRemarks s.dependencies) ++
    documentationRemarks s.languages ++
    historyRemarks s.history

/-- The remarks that apply. -/
def applying (remarks : List Remark) : List Remark :=
  remarks.filter Remark.applies

/-! ### Remarks behind deductions -/

/-- What is said about some deductions is what is said in the remarks that apply. -/
structure Explains (remarks : List Remark) (deductions : List Deduction) : Prop where
  issues : deductions.filterMap Deduction.issue = (applying remarks).map Remark.issue
  advice : deductions.filterMap Deduction.advice = (applying remarks).filterMap Remark.advice

section Explains

variable {remarks others : List Remark} {deductions further : List Deduction}
  {condition : Prop} [Decidable condition] {points : Int} {issue : String} {advice : Option String}

theorem applying_append (remarks others : List Remark) :
    applying (remarks ++ others) = applying remarks ++ applying others :=
  List.filter_append _ _

/-- Two lists of remarks in a row explain two lists of deductions in a row. -/
theorem Explains.append (explains : Explains remarks deductions) (also : Explains others further) :
    Explains (remarks ++ others) (deductions ++ further) := by
  constructor
  · rw [List.filterMap_append, explains.issues, also.issues, applying_append, List.map_append]
  · rw [List.filterMap_append, explains.advice, also.advice, applying_append, List.filterMap_append]

/-- A single remark may come first. -/
theorem Explains.cons {remark : Remark} (explains : Explains [remark] deductions)
    (also : Explains others further) : Explains (remark :: others) (deductions ++ further) :=
  explains.append also

/-- A deduction that is made comes from a remark that applies. -/
theorem explains_made {applies : Bool} (holds : applies) (nothing : applying others = []) :
    Explains (⟨applies, issue, advice⟩ :: others) [⟨points, some issue, advice⟩] := by
  have happlying : applying (⟨applies, issue, advice⟩ :: others) = [⟨applies, issue, advice⟩] := by
    rw [applying, List.filter_cons_of_pos holds]
    exact congrArg _ nothing
  constructor
  · rw [happlying]
    rfl
  · rw [happlying]
    cases advice <;> rfl

/-- A remark that does not apply says nothing. -/
theorem Explains.skip {remark : Remark} (fails : ¬ remark.applies) (explains : Explains others further) :
    Explains (remark :: others) further := by
  have hothers : applying (remark :: others) = applying others := List.filter_cons_of_neg fails
  constructor
  · rw [hothers, explains.issues]
  · rw [hothers, explains.advice]

/-- What is deducted only where a condition fails is said in remarks that apply only there. -/
theorem explains_ite {applies : Bool} (same : applies = true ↔ condition)
    (apart : condition → applying others = []) (explains : ¬ condition → Explains others further) :
    Explains (⟨applies, issue, advice⟩ :: others)
      (if condition then [⟨points, some issue, advice⟩] else further) := by
  split
  · next holds => exact explains_made (same.2 holds) (apart holds)
  · next fails => exact (explains fails).skip (mt same.1 fails)

/-- A deduction that is made under the condition of a remark. -/
theorem explains_deductIf {applies : Bool} (same : applies = true ↔ condition) :
    Explains [⟨applies, issue, advice⟩] (deductIf condition ⟨points, some issue, advice⟩) :=
  explains_ite same (fun _ => rfl) fun _ => ⟨rfl, rfl⟩

/-- Of some deductions nothing is said. -/
theorem explains_silent : Explains [] (deductIf condition ⟨points, none, none⟩) := by
  unfold deductIf
  split <;> constructor <;> rfl

end Explains

/-! ### The remarks of a project -/

/-- The deductions for the quality of the code are those for large files and for sparse comments. -/
theorem explains_codeQuality (s : Signals) :
    Explains (largeRemarks (largeFiles s.files) ++ commentRemarks s.languages.totals.commentRatio)
      (codeQuality s) := by
  apply Explains.append
  · exact explains_deductIf decide_eq_true_iff
  · apply explains_ite decide_eq_true_iff
    · intro few
      simp [applying, few]
    · intro enough
      apply explains_deductIf
      simp [enough]

/-- The deductions for markers are explained by the remark on their number. -/
theorem explains_markerDebt (total : Nat) : Explains (markerRemarks total) (markerDebt total) := by
  apply explains_ite decide_eq_true_iff
  · intro many
    simp [applying, many]
  · intro fewer
    apply explains_ite
    · rw [decide_eq_true_iff]
      omega
    · exact fun _ => rfl
    · exact fun _ => explains_silent

/-- The deductions for dependencies are explained by the remarks on them. -/
theorem explains_dependencyDebt (dependencies : Dependency.Summary) :
    Explains (dependencyRemarks dependencies) (dependencyDebt dependencies) := by
  unfold dependencyDebt
  split
  · next dependent =>
    apply Explains.cons
    · exact explains_deductIf (by simp [dependent])
    · exact explains_deductIf (by simp [dependent])
  · next independent =>
    apply Explains.skip (by simp [independent])
    apply Explains.skip (by simp [independent])
    exact ⟨rfl, rfl⟩

/-- The deductions for maintenance are those for markers, for critical markers and for dependencies. -/
theorem explains_maintenance (s : Signals) :
    Explains (markerRemarks s.markers.total ++ criticalRemarks (criticalMarkers s.markers) ++
      dependencyRemarks s.dependencies) (maintenance s) := by
  apply Explains.append
  · apply Explains.append
    · exact explains_markerDebt s.markers.total
    · exact explains_deductIf decide_eq_true_iff
  · exact explains_dependencyDebt s.dependencies

/-- The deductions for documentation are explained by the remarks on it. -/
theorem explains_documentation (s : Signals) :
    Explains (documentationRemarks s.languages) (documentation s) := by
  rw [← List.append_nil (documentationRemarks s.languages)]
  exact (explains_deductIf decide_eq_true_iff).append explains_silent

/-- In a repository, the deductions for inactivity are explained by the remarks on recent commits. -/
theorem explains_inactivity {history : History.Summary} (isRepository : history.isRepository) :
    Explains (inactivityRemarks history) (inactivity history.recentCommits) := by
  apply explains_ite (by simp [isRepository])
  · intro inactive
    simp [applying, inactive]
  · intro active
    apply explains_deductIf
    simp [isRepository, Nat.pos_of_ne_zero active]

/-- The deductions for activity are explained by the remarks on the history, be it there or not. -/
theorem explains_activity (s : Signals) : Explains (historyRemarks s.history) (activity s) := by
  unfold activity
  split
  · next isRepository =>
    apply Explains.skip (by simp [isRepository])
    apply Explains.append
    · exact explains_inactivity isRepository
    · exact explains_deductIf (by simp [isRepository])
  · next absent =>
    apply explains_made (by simpa using absent)
    simp [applying, inactivityRemarks, authorRemarks, absent]

/-- What is said about all deductions is what is said in all remarks. -/
theorem explains_deductions (s : Signals) : Explains (remarks s) (deductions s) :=
  (((explains_codeQuality s).append (explains_maintenance s)).append (explains_documentation s)).append
    (explains_activity s)

/-! ### How much can be reported -/

theorem length_applying_le (remarks : List Remark) : (applying remarks).length ≤ remarks.length :=
  List.length_filter_le _ _

/-- Of two remarks that exclude each other at most one applies. -/
theorem length_applying_pair_le {first second : Remark} (apart : first.applies → ¬ second.applies) :
    (applying [first, second]).length ≤ 1 := by
  by_cases holds : first.applies
  · rw [applying, List.filter_cons_of_pos holds, List.filter_cons_of_neg (apart holds)]
    exact le_rfl
  · rw [applying, List.filter_cons_of_neg holds]
    exact length_applying_le [second]

/-- Two remarks on the history apply at most: without a repository there is one, and with one they are about
recent commits and about a lone author. -/
theorem length_applying_historyRemarks_le (history : History.Summary) :
    (applying (historyRemarks history)).length ≤ 2 := by
  by_cases isRepository : history.isRepository
  · have hrecent : (applying (inactivityRemarks history)).length ≤ 1 := by
      apply length_applying_pair_le
      intro inactive
      simp [of_decide_eq_true inactive]
    have hauthor := length_applying_le (authorRemarks history)
    rw [historyRemarks, applying, List.filter_cons_of_neg (by simp [isRepository]), ← applying,
      applying_append, List.length_append]
    exact Nat.add_le_add hrecent hauthor
  · simp [applying, historyRemarks, inactivityRemarks, authorRemarks, isRepository]

/-- No more than nine remarks apply at a time. -/
theorem length_applying_remarks_le (s : Signals) : (applying (remarks s)).length ≤ 9 := by
  have hlarge : (applying (largeRemarks (largeFiles s.files))).length ≤ 1 := length_applying_le _
  have hcomments : (applying (commentRemarks s.languages.totals.commentRatio)).length ≤ 1 := by
    apply length_applying_pair_le
    intro few
    simp [of_decide_eq_true few]
  have hmarkers : (applying (markerRemarks s.markers.total)).length ≤ 1 := by
    apply length_applying_pair_le
    intro many
    simp [of_decide_eq_true many]
  have hcritical : (applying (criticalRemarks (criticalMarkers s.markers))).length ≤ 1 :=
    length_applying_le _
  have hdependencies : (applying (dependencyRemarks s.dependencies)).length ≤ 2 := length_applying_le _
  have hdocumentation : (applying (documentationRemarks s.languages)).length ≤ 1 := length_applying_le _
  have hhistory := length_applying_historyRemarks_le s.history
  simp only [remarks, applying_append, List.length_append]
  omega

/-! ### Deductions take something off -/

/-- Each of some deductions takes points off. -/
def AllTake (deductions : List Deduction) : Prop :=
  ∀ deduction ∈ deductions, 0 < deduction.points

section AllTake

variable {deductions further : List Deduction} {condition : Prop} [Decidable condition] {points : Int}
  {issue advice : Option String}

/-- A single deduction takes something off if its points are positive. -/
theorem allTake_singleton : AllTake [⟨points, issue, advice⟩] ↔ 0 < points :=
  List.forall_mem_singleton

theorem allTake_append : AllTake (deductions ++ further) ↔ AllTake deductions ∧ AllTake further :=
  List.forall_mem_append

/-- A deduction under a condition only has to take something off where the condition holds. -/
theorem allTake_deductIf :
    AllTake (deductIf condition ⟨points, issue, advice⟩) ↔ (condition → 0 < points) := by
  unfold deductIf
  split
  · next holds => rw [allTake_singleton, forall_prop_of_true holds]
  · next fails => exact iff_of_true (List.forall_mem_nil _) fun holds => absurd holds fails

/-- Some deductions that take points off do take points off together. -/
theorem AllTake.taken_pos (takes : AllTake deductions) (made : deductions ≠ []) :
    0 < taken deductions := by
  apply List.sum_pos
  · exact List.forall_mem_map.2 takes
  · simpa using made

end AllTake

/-- The deductions for the quality of the code take something off, as long as the product for large files
does not overflow. -/
theorem allTake_codeQuality {s : Signals} (few : largeFiles s.files < 2 ^ 30) :
    AllTake (codeQuality s) := by
  rw [codeQuality_eq, largeFileDebt, allTake_append, allTake_deductIf, commentDebt]
  constructor
  · intro large
    rw [largeFilePoints_eq few, largePoints]
    omega
  · split
    · exact allTake_singleton.2 (by decide)
    · exact allTake_deductIf.2 fun _ => by decide

theorem allTake_markerDebt (total : Nat) : AllTake (markerDebt total) := by
  unfold markerDebt
  split
  · exact allTake_singleton.2 (by decide)
  · split
    · exact allTake_singleton.2 (by decide)
    · exact allTake_deductIf.2 fun _ => by decide

theorem allTake_dependencyDebt (dependencies : Dependency.Summary) :
    AllTake (dependencyDebt dependencies) := by
  unfold dependencyDebt
  split
  · exact allTake_append.2 ⟨allTake_deductIf.2 fun _ => by decide, allTake_deductIf.2 fun _ => by decide⟩
  · exact List.forall_mem_nil _

theorem allTake_activity (s : Signals) : AllTake (activity s) := by
  unfold activity
  split
  · rw [allTake_append, allTake_deductIf, inactivity]
    constructor
    · split
      · exact allTake_singleton.2 (by decide)
      · exact allTake_deductIf.2 fun _ => by decide
    · exact fun _ => by decide
  · exact allTake_singleton.2 (by decide)

/-- All deductions take something off. -/
theorem allTake_deductions {s : Signals} (few : largeFiles s.files < 2 ^ 30) :
    AllTake (deductions s) := by
  simp only [deductions, maintenance, documentation, allTake_append, allTake_deductIf]
  refine ⟨⟨⟨allTake_codeQuality few, ⟨allTake_markerDebt _, ?_⟩, allTake_dependencyDebt _⟩, ?_, ?_⟩,
    allTake_activity s⟩
  · exact fun _ => by decide
  · exact fun _ => by decide
  · exact fun _ => by decide

/-- Where something is deducted, the score is less than full marks. -/
theorem score_lt_of_deductions {s : Signals} (few : largeFiles s.files < 2 ^ 30)
    (made : deductions s ≠ []) : (score s).score < 100 := by
  have htaken := (allTake_deductions few).taken_pos made
  rw [deductions, taken_append, taken_append, taken_append, taken_codeQuality few, taken_maintenance,
    taken_documentation, taken_activity] at htaken
  have hquality := codeQuality_score few
  have hmaintenance := maintenance_score s
  have hdocumentation := documentation_score s
  have hactivity := activity_score s
  have hscore : (score s).score = (score s).breakdown.codeQuality + (score s).breakdown.maintenance +
    (score s).breakdown.documentation + (score s).breakdown.activity := rfl
  omega

/-! ### The score and its explanation -/

/-- **The score stays in its range, and its explanation is complete.**  Each category keeps what its worst
case leaves of it, so that the score has thirty points at least.  Every remark that applies is an issue,
there are at most nine of them, and the first five pieces of their advice are the recommendations.  Where
something is reported, the score is less than full marks. -/
theorem score_explained (s : Signals) (few : s.files.largest.length < 2 ^ 30) :
    let breakdown := (score s).breakdown
    (10 ≤ breakdown.codeQuality ∧ breakdown.codeQuality ≤ 25) ∧
    breakdown.maintenance ≤ 25 ∧
    (10 ≤ breakdown.documentation ∧ breakdown.documentation ≤ 25) ∧
    (10 ≤ breakdown.activity ∧ breakdown.activity ≤ 25) ∧
    (score s).score = breakdown.codeQuality + breakdown.maintenance + breakdown.documentation +
      breakdown.activity ∧
    (30 ≤ (score s).score ∧ (score s).score ≤ 100) ∧
    (score s).grade = .ofScore (score s).score ∧
    (score s).issues = (applying (remarks s)).map Remark.issue ∧
    (score s).issues.length ≤ 9 ∧
    (score s).recommendations = ((applying (remarks s)).filterMap Remark.advice).take 5 ∧
    (score s).recommendations.length ≤ (score s).issues.length ∧
    ((score s).issues ≠ [] → (score s).score < 100) := by
  intro breakdown
  have hfew : largeFiles s.files < 2 ^ 30 := List.countP_le_length.trans_lt few
  have hquality : breakdown.codeQuality = _ := codeQuality_score hfew
  have hmaintenance : breakdown.maintenance = _ := maintenance_score s
  have hdocumentation : breakdown.documentation = _ := documentation_score s
  have hactivity : breakdown.activity = _ := activity_score s
  have hlarge := largePoints_le (largeFiles s.files)
  have hcomments := commentPoints_le s.languages
  have hmissing := documentationPoints_le s.languages
  have hhistory := activityPoints_le s.history
  have hscore : (score s).score = breakdown.codeQuality + breakdown.maintenance +
    breakdown.documentation + breakdown.activity := rfl
  obtain ⟨hsaid, hadvised⟩ := explains_deductions s
  have hnine := length_applying_remarks_le s
  have hissues : (score s).issues = (applying (remarks s)).map Remark.issue := by
    rw [← hsaid]
    apply List.take_of_length_le
    rw [hsaid, List.length_map]
    exact hnine.trans (by decide)
  have hrecommendations :
      (score s).recommendations = ((applying (remarks s)).filterMap Remark.advice).take 5 :=
    congrArg (List.take 5) hadvised
  refine ⟨⟨by omega, by omega⟩, by omega, ⟨by omega, by omega⟩, ⟨by omega, by omega⟩, hscore,
    ⟨by omega, by omega⟩, rfl, hissues, ?_, hrecommendations, ?_, fun reported => ?_⟩
  · rw [hissues, List.length_map]
    exact hnine
  · rw [hrecommendations, hissues, List.length_take, List.length_map]
    exact (Nat.min_le_right _ _).trans (List.length_filterMap_le _ _)
  · apply score_lt_of_deductions hfew
    intro nothing
    rw [hissues, ← hsaid, nothing] at reported
    exact reported rfl

/-- A project of which everything is reported that can be reported at a time. -/
def neglected : Signals where
  files := { largest := List.replicate 5 ⟨"a.rs", 501, 1⟩ }
  markers := { items := List.replicate 6 ⟨.bug, "x", "a.rs", 1⟩, total := 51 }
  history := { isRepository := true, totalCommits := 51, contributors := [⟨"Ada", "a", 51⟩] }
  dependencies := { total := 1, outdated := 11 }

/-- Nine issues are reported, and five of the eight pieces of advice that come with them. -/
theorem score_explained_neglected :
    neglected.files.largest.length < 2 ^ 30 ∧ (score neglected).issues.length = 9 ∧
      (score neglected).recommendations =
        ["Consider splitting large files into smaller modules", "Add more documentation comments",
          "Address TODO items to reduce tech debt", "Prioritize fixing BUG and FIXME items",
          "Add a lockfile (package-lock.json) for reproducible builds"] ∧
      (score neglected).score < 100 ∧ 30 ≤ (score neglected).score := by
  have few : neglected.files.largest.length < 2 ^ 30 := by decide
  obtain ⟨-, -, -, -, -, ⟨hlow, -⟩, -, hissues, -, hadvice, -, hreported⟩ :=
    score_explained neglected few
  have hnine : (score neglected).issues.length = 9 := by
    rw [hissues]
    decide
  refine ⟨few, hnine, ?_, hreported ?_, hlow⟩
  · rw [hadvice]
    decide
  · intro nothing
    rw [nothing] at hnine
    cases hnine

end CodeCensus.Health
