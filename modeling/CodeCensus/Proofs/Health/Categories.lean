import CodeCensus.Proofs.Health.Points

/-!
# What the categories lose

The deductions of a category are chosen by conditions, some of which are only asked where others fail.
The points that they take off are written here as numbers that only depend on what is counted, one for
each kind of sign (`markerPoints`, `inactivityPoints` and so on), and each category is what these numbers
leave of the full marks (`codeQuality_score`, `maintenance_score`, `documentation_score`,
`activity_score`).  Only in the maintenance they may be more than there is to lose.

Large files take two points each in words of 32 bits, so that there must not be too many of them.
-/

namespace CodeCensus.Health

/-! ### Code quality -/

/-- The deduction for large files. -/
def largeFileDebt (files : Census.FileTable) : List Deduction :=
  let large := largeFiles files
  deductIf (0 < large)
    ⟨largeFilePoints large, some (toString large ++ " files with >500 lines"),
      some "Consider splitting large files into smaller modules"⟩

/-- The deduction for too few comments or too many. -/
def commentDebt (languages : Census.LanguageTable) : List Deduction :=
  if languages.totals.commentRatio < 0.05 then
    [⟨5, some "Very few comments in codebase", some "Add more documentation comments"⟩]
  else
    deductIf (languages.totals.commentRatio > 0.5)
      ⟨3, some "Excessive comments (may indicate commented-out code)", none⟩

theorem codeQuality_eq (s : Signals) :
    codeQuality s = largeFileDebt s.files ++ commentDebt s.languages := rfl

/-- The points that large files take off. -/
def largePoints (large : Nat) : Nat :=
  min (2 * large) 10

/-- The points that are taken off for too few comments or too many. -/
def commentPoints (languages : Census.LanguageTable) : Nat :=
  if languages.totals.commentRatio < 0.05 then 5
  else if languages.totals.commentRatio > 0.5 then 3
  else 0

/-- More large files never take less off. -/
theorem largePoints_mono {large more : Nat} (le : large ≤ more) :
    largePoints large ≤ largePoints more := by
  unfold largePoints
  omega

theorem largePoints_le (large : Nat) : largePoints large ≤ 10 :=
  Nat.min_le_right _ _

theorem commentPoints_le (languages : Census.LanguageTable) : commentPoints languages ≤ 5 := by
  unfold commentPoints
  split_ifs <;> omega

/-- As long as the product does not overflow, the points for large files are those of their number. -/
theorem largeFilePoints_eq {large : Nat} (few : large < 2 ^ 30) :
    largeFilePoints large = largePoints large := by
  rw [largeFilePoints, wordPoints_eq (by omega) (by omega), largePoints]
  omega

/-- Large files take off two points each, as far as these can be counted, and no more than ten. -/
theorem taken_largeFileDebt (files : Census.FileTable) :
    taken (largeFileDebt files) = largeFilePoints (largeFiles files) := by
  rw [largeFileDebt, taken_deductIf]
  split
  · rfl
  · next small =>
    rw [Nat.eq_zero_of_not_pos small]
    rfl

/-- The deductions for sparse comments take their points off. -/
theorem taken_commentDebt (languages : Census.LanguageTable) :
    taken (commentDebt languages) = commentPoints languages := by
  unfold commentDebt commentPoints
  split
  · simp
  · rw [taken_deductIf]
    split <;> rfl

/-- What the deductions of code quality take off. -/
theorem taken_codeQuality {s : Signals} (few : largeFiles s.files < 2 ^ 30) :
    taken (codeQuality s) = (largePoints (largeFiles s.files) + commentPoints s.languages : Nat) := by
  rw [codeQuality_eq, taken_append, taken_largeFileDebt, taken_commentDebt, largeFilePoints_eq few]
  rfl

/-- What is left of the code quality. -/
theorem codeQuality_score {s : Signals} (few : largeFiles s.files < 2 ^ 30) :
    (score s).breakdown.codeQuality =
      25 - largePoints (largeFiles s.files) - commentPoints s.languages := by
  have hlarge := largePoints_le (largeFiles s.files)
  have hcomments := commentPoints_le s.languages
  rw [Nat.sub_sub]
  exact categoryScore_eq_sub (taken_codeQuality few) (by omega)

/-! ### Maintenance -/

/-- The points that the number of markers takes off. -/
def markerPoints (total : Nat) : Nat :=
  if 50 < total then 15 else if 20 < total then 8 else if 10 < total then 4 else 0

/-- The points that critical markers take off. -/
def criticalPoints (critical : Nat) : Nat :=
  if 5 < critical then 5 else 0

/-- The points that the dependencies take off. -/
def dependencyPoints (dependencies : Dependency.Summary) : Nat :=
  if 0 < dependencies.total then
    (if dependencies.hasLockfile = false then 5 else 0) + if 10 < dependencies.outdated then 5 else 0
  else 0

theorem taken_markerDebt (total : Nat) : taken (markerDebt total) = markerPoints total := by
  unfold markerDebt markerPoints
  split
  · simp
  · split
    · simp
    · rw [taken_deductIf]
      split <;> rfl

theorem taken_dependencyDebt (dependencies : Dependency.Summary) :
    taken (dependencyDebt dependencies) = dependencyPoints dependencies := by
  unfold dependencyDebt dependencyPoints
  split
  · rw [taken_append, taken_deductIf, taken_deductIf]
    split <;> split <;> rfl
  · rfl

theorem criticalPoints_mono {critical more : Nat} (le : critical ≤ more) :
    criticalPoints critical ≤ criticalPoints more :=
  ite_le_ite_of_imp fun many => Nat.lt_of_lt_of_le many le

theorem criticalPoints_le (critical : Nat) : criticalPoints critical ≤ 5 := by
  unfold criticalPoints
  split_ifs <;> omega

theorem markerPoints_mono {total more : Nat} (le : total ≤ more) :
    markerPoints total ≤ markerPoints more := by
  unfold markerPoints
  split_ifs <;> omega

theorem markerPoints_le (total : Nat) : markerPoints total ≤ 15 := by
  unfold markerPoints
  split_ifs <;> omega

/-- The dependencies take five points off, or ten. -/
theorem dependencyPoints_cases (dependencies : Dependency.Summary) :
    dependencyPoints dependencies = 0 ∨ dependencyPoints dependencies = 5 ∨
      dependencyPoints dependencies = 10 := by
  unfold dependencyPoints
  split_ifs <;> omega

/-- What the deductions of the maintenance take off. -/
theorem taken_maintenance (s : Signals) :
    taken (maintenance s) = (markerPoints s.markers.total +
      criticalPoints (criticalMarkers s.markers) + dependencyPoints s.dependencies : Nat) := by
  rw [maintenance, taken_append, taken_append, taken_markerDebt, taken_dependencyDebt, taken_deductIf,
    criticalPoints]
  split <;> rfl

/-- What is left of the maintenance. -/
theorem maintenance_score (s : Signals) :
    (score s).breakdown.maintenance = 25 - markerPoints s.markers.total -
      criticalPoints (criticalMarkers s.markers) - dependencyPoints s.dependencies := by
  have hmarkers := markerPoints_le s.markers.total
  have hcritical := criticalPoints_le (criticalMarkers s.markers)
  have hdependencies := dependencyPoints_cases s.dependencies
  rw [Nat.sub_sub, Nat.sub_sub, ← Nat.add_assoc]
  exact categoryScore_eq_sub (taken_maintenance s) (by omega)

/-! ### Documentation -/

/-- The points that are taken off for missing documentation. -/
def documentationPoints (languages : Census.LanguageTable) : Nat :=
  (if languages.has "Markdown" = false then 10 else 0) +
    if languages.totals.commentRatio < 0.1 then 5 else 0

theorem documentationPoints_le (languages : Census.LanguageTable) :
    documentationPoints languages ≤ 15 := by
  unfold documentationPoints
  split_ifs <;> omega

/-- What the deductions of the documentation take off. -/
theorem taken_documentation (s : Signals) : taken (documentation s) = documentationPoints s.languages := by
  rw [documentation, taken_append, taken_deductIf, taken_deductIf, documentationPoints]
  split <;> split <;> rfl

/-- What is left of the documentation. -/
theorem documentation_score (s : Signals) :
    (score s).breakdown.documentation = 25 - documentationPoints s.languages := by
  have hpoints := documentationPoints_le s.languages
  exact categoryScore_eq_sub (taken_documentation s) (by omega)

/-! ### Activity -/

/-- The points that are taken off for few commits in the activity window. -/
def inactivityPoints (recent : Nat) : Nat :=
  if recent = 0 then 10 else if recent < 5 then 5 else 0

/-- The points that the history takes off. -/
def activityPoints (history : History.Summary) : Nat :=
  if history.isRepository then
    inactivityPoints history.recentCommits +
      if history.contributors.length = 1 ∧ 50 < history.totalCommits then 3 else 0
  else 15

theorem taken_inactivity (recent : Nat) : taken (inactivity recent) = inactivityPoints recent := by
  unfold inactivity inactivityPoints
  split
  · simp
  · rw [taken_deductIf]
    split <;> rfl

theorem inactivityPoints_le (recent : Nat) : inactivityPoints recent ≤ 10 := by
  unfold inactivityPoints
  split_ifs <;> omega

/-- Fewer commits take more off. -/
theorem inactivityPoints_anti {recent fewer : Nat} (le : fewer ≤ recent) :
    inactivityPoints recent ≤ inactivityPoints fewer := by
  unfold inactivityPoints
  split_ifs <;> omega

/-- Nothing takes more off than that there is no repository. -/
theorem activityPoints_le (history : History.Summary) : activityPoints history ≤ 15 := by
  have hrecent := inactivityPoints_le history.recentCommits
  unfold activityPoints
  split_ifs <;> omega

/-- What the deductions of the activity take off. -/
theorem taken_activity (s : Signals) : taken (activity s) = activityPoints s.history := by
  unfold activity activityPoints
  split
  · rw [taken_append, taken_inactivity, taken_deductIf]
    split <;> rfl
  · rfl

/-- What is left of the activity. -/
theorem activity_score (s : Signals) :
    (score s).breakdown.activity = 25 - activityPoints s.history := by
  have hpoints := activityPoints_le s.history
  exact categoryScore_eq_sub (taken_activity s) (by omega)

end CodeCensus.Health
