import CodeCensus.Proofs.Health.Categories

/-!
# Decline

A project declines if every sign of debt is at least as strong as before: there are as many large files or
more, as many markers, as many critical ones among those that are listed, as many outdated dependencies, no
lockfile unless there was one before, and no more commits in the activity window
(`Signals.DeclinesTo`).  What is not a debt stays as it was.

No number of points that a category loses for one of these signs goes down with it, wherever its tiers
begin, and a sign that is only asked for under a condition is asked for under the same one.  So no category
rises, nor does the score, and the grade does not improve (`score_declines`).
-/

namespace CodeCensus.Health

/-! ### Signs of debt -/

/-- The later signals show at least the debt of the earlier ones, and differ in nothing but debt. -/
structure Signals.DeclinesTo (before after : Signals) : Prop where
  languages : after.languages = before.languages
  isRepository : after.history.isRepository = before.history.isRepository
  contributors : after.history.contributors = before.history.contributors
  totalCommits : after.history.totalCommits = before.history.totalCommits
  dependent : 0 < after.dependencies.total ↔ 0 < before.dependencies.total
  large : largeFiles before.files ≤ largeFiles after.files
  markers : before.markers.total ≤ after.markers.total
  critical : criticalMarkers before.markers ≤ criticalMarkers after.markers
  outdated : before.dependencies.outdated ≤ after.dependencies.outdated
  lockfile : after.dependencies.hasLockfile → before.dependencies.hasLockfile
  recent : after.history.recentCommits ≤ before.history.recentCommits

/-- The signals of a project whose repository is gone. -/
def Signals.withoutRepository (s : Signals) : Signals :=
  { s with history := { s.history with isRepository := false } }

namespace Signals.DeclinesTo

variable {before after : Signals} (declines : before.DeclinesTo after)

include declines

/-- A missing lockfile was missing before, or it has got lost. -/
theorem lockfile_missing (missing : before.dependencies.hasLockfile = false) :
    after.dependencies.hasLockfile = false := by
  rw [← Bool.not_eq_true] at missing ⊢
  exact fun there => missing (declines.lockfile there)

/-- Dependencies take off at least as much as before. -/
theorem dependencyPoints_le :
    dependencyPoints before.dependencies ≤ dependencyPoints after.dependencies := by
  unfold dependencyPoints
  by_cases dependent : 0 < before.dependencies.total
  · rw [if_pos dependent, if_pos (declines.dependent.2 dependent)]
    apply Nat.add_le_add
    · exact ite_le_ite_of_imp declines.lockfile_missing
    · exact ite_le_ite_of_imp fun old => Nat.lt_of_lt_of_le old declines.outdated
  · rw [if_neg dependent]
    exact Nat.zero_le _

/-- The activity takes off at least as much as before, since what counts beside the recent commits is the
same. -/
theorem activityPoints_le : activityPoints before.history ≤ activityPoints after.history := by
  have hrecent := inactivityPoints_anti declines.recent
  unfold activityPoints
  rw [declines.isRepository, declines.contributors, declines.totalCommits]
  split
  · omega
  · exact le_rfl

end Signals.DeclinesTo

/-! ### Grades -/

/-- A lower score has no better grade. -/
theorem Grade.rank_ofScore_anti {score lower : Nat} (le : lower ≤ score) :
    (Grade.ofScore score).rank ≤ (Grade.ofScore lower).rank := by
  unfold Grade.ofScore
  split_ifs <;> first | decide | omega

/-! ### The score -/

/-- **The score falls with every sign of debt.**  If a project declines, none of its categories rises, its
score does not rise, and its grade is no better.  Nor does the activity rise if only the repository is
gone. -/
theorem score_declines :
    (∀ before after : Signals, before.DeclinesTo after → before.files.largest.length < 2 ^ 30 →
      after.files.largest.length < 2 ^ 30 →
      (score after).breakdown.codeQuality ≤ (score before).breakdown.codeQuality ∧
      (score after).breakdown.maintenance ≤ (score before).breakdown.maintenance ∧
      (score after).breakdown.documentation ≤ (score before).breakdown.documentation ∧
      (score after).breakdown.activity ≤ (score before).breakdown.activity ∧
      (score after).score ≤ (score before).score ∧
      (score before).grade.rank ≤ (score after).grade.rank) ∧
    ∀ s : Signals, s.history.isRepository →
      (score s.withoutRepository).breakdown.activity ≤ (score s).breakdown.activity := by
  constructor
  · intro before after declines few few'
    have hquality : (score after).breakdown.codeQuality ≤ (score before).breakdown.codeQuality := by
      have hlarge := largePoints_mono declines.large
      rw [codeQuality_score (List.countP_le_length.trans_lt few),
        codeQuality_score (List.countP_le_length.trans_lt few'), declines.languages]
      omega
    have hmaintenance :
        (score after).breakdown.maintenance ≤ (score before).breakdown.maintenance := by
      have hmarkers := markerPoints_mono declines.markers
      have hcritical := criticalPoints_mono declines.critical
      have hdependencies := declines.dependencyPoints_le
      rw [maintenance_score, maintenance_score]
      omega
    have hdocumentation :
        (score after).breakdown.documentation ≤ (score before).breakdown.documentation := by
      rw [documentation_score, documentation_score, declines.languages]
    have hactivity : (score after).breakdown.activity ≤ (score before).breakdown.activity := by
      have hpoints := declines.activityPoints_le
      rw [activity_score, activity_score]
      omega
    have hscore : (score after).score ≤ (score before).score := by
      apply Nat.add_le_add (Nat.add_le_add (Nat.add_le_add hquality hmaintenance) hdocumentation)
      exact hactivity
    exact ⟨hquality, hmaintenance, hdocumentation, hactivity, hscore, Grade.rank_ofScore_anti hscore⟩
  · intro s isRepository
    have hpoints := activityPoints_le s.history
    have hgone : activityPoints s.withoutRepository.history = 15 := rfl
    rw [activity_score, activity_score, hgone]
    omega

/-- A project that is just not in debt: nothing of what is counted is beyond its bound. -/
def tended : Signals where
  files := { largest := [⟨"a.rs", 500, 1⟩] }
  markers := { items := List.replicate 5 ⟨.fixme, "x", "a.rs", 1⟩, total := 10 }
  history :=
    { isRepository := true
      totalCommits := 50
      contributors := [⟨"Ada", "a", 50⟩]
      recentActivity := [⟨"2026-10-01", 5⟩] }
  dependencies := { hasLockfile := true, total := 1, outdated := 10 }

/-- The same project with one more of everything that is a debt. -/
def untended : Signals where
  files := { largest := [⟨"a.rs", 501, 1⟩] }
  markers := { items := List.replicate 6 ⟨.fixme, "x", "a.rs", 1⟩, total := 11 }
  history := { tended.history with recentActivity := [⟨"2026-10-01", 4⟩] }
  dependencies := { hasLockfile := false, total := 1, outdated := 11 }

/-- The second sample shows the signs of debt of the first one, and more. -/
theorem tended_declinesTo : tended.DeclinesTo untended := by
  constructor <;> decide

/-- One more of each debt takes nineteen points off the maintenance. -/
theorem score_declines_untended :
    tended.DeclinesTo untended ∧ tended.files.largest.length < 2 ^ 30 ∧
      untended.files.largest.length < 2 ^ 30 ∧ tended.history.isRepository ∧
      (score tended).breakdown.maintenance = 25 ∧ (score untended).breakdown.maintenance = 6 ∧
      (score untended).score ≤ (score tended).score ∧
      (score tended).grade.rank ≤ (score untended).grade.rank ∧
      (score tended.withoutRepository).breakdown.activity ≤ (score tended).breakdown.activity := by
  have few : tended.files.largest.length < 2 ^ 30 := by decide
  have few' : untended.files.largest.length < 2 ^ 30 := by decide
  obtain ⟨-, -, -, -, hscore, hgrade⟩ := score_declines.1 tended untended tended_declinesTo few few'
  refine ⟨tended_declinesTo, few, few', rfl, ?_, ?_, hscore, hgrade, score_declines.2 tended rfl⟩
  · rw [maintenance_score]
    decide
  · rw [maintenance_score]
    decide

end CodeCensus.Health
