import CodeCensus.Proofs.Analysis.Merging
import CodeCensus.Proofs.Program.Effects

/-!
# The configuration that is written says nothing new

What an analysis does by a plan does not depend on the lengths in the plan, but on the lengths that the
tables have by it.  So a plan is looked at with these lengths in place of its own (`Plan.course`), and all
that is found, reported and printed by a plan depends on its course alone (`findings_congr`,
`survey_congr`, `deliver_congr`).

The configuration that `init` writes repeats what holds without it: the format, the number of workers and
the lengths of the tables, which each table has for itself and which are written as zero in a plan without
a configuration.  Where the command line says something, it decides in both cases; where it says nothing,
the courses agree (`course_drawn_templateConfig`), and so does everything that depends on them
(`map_make_templateConfig`).
-/

namespace CodeCensus

/-! ### Lengths of tables -/

namespace Ranking

variable {α : Type} {asked other standard : Nat}

/-- Two lengths that come to one limit give one ranking. -/
theorem top_congr (same : limit asked standard = limit other standard) (measure : α → Nat)
    (entries : List α) : top asked standard measure entries = top other standard measure entries := by
  rw [top, top, same]

/-- To ask for the standard length is to ask for none. -/
theorem limit_standard (asked : Option Nat) (standard : Nat) :
    limit ((asked <|> some standard).getD 0) standard = limit ((asked <|> none).getD 0) standard := by
  cases asked with
  | none => simp [limit]
  | some n => rfl

end Ranking

/-- The table of files only depends on what its length comes to. -/
theorem Census.FileTable.ofFiles_congr {asked other : Nat}
    (same : Ranking.limit asked standardLength = Ranking.limit other standardLength)
    (contents : Contents) (files : List SourceFile) :
    ofFiles contents files asked = ofFiles contents files other := by
  simp only [ofFiles, ofAnswers, Ranking.top_congr same]

/-- The table of markers only depends on what its length comes to. -/
theorem Census.MarkerTable.ofFiles_congr {asked other : Nat}
    (same : Ranking.limit asked standardLength = Ranking.limit other standardLength)
    (contents : Contents) (files : List SourceFile) :
    ofFiles contents files asked = ofFiles contents files other := by
  simp only [ofFiles, ofAnswers, Ranking.top_congr same]

/-- The summary of a history only depends on what its length comes to. -/
theorem History.summarize_congr {asked other : Nat}
    (same : Ranking.limit asked standardTop = Ranking.limit other standardTop) (disk : FileSystem.Disk)
    (objects? : Option Objects) (path : Path) (now : Calendar.Instant) :
    summarize disk objects? path asked now = summarize disk objects? path other now := by
  simp only [summarize, Repository.summary, summaryOf, listed, same, Ranking.top_congr same]

namespace Analysis

open Census (FileTable MarkerTable)

/-! ### What an analysis depends on -/

/-- What an analysis does by a plan: the plan with the lengths that the tables have by it. -/
structure Course where
  format : Report.Format
  /-- The length of the rankings of files and of folders. -/
  fileLength : Nat
  /-- The length of the lists of contributors and of changed files. -/
  historyLength : Nat
  /-- The length of the ranking of files by their markers. -/
  markerLength : Nat
  workers : Nat
  noGit : Bool
  checkOutdated : Bool
  discovery : Discovery.Options
  deriving DecidableEq

/-- The course of an analysis by a plan. -/
def Plan.course (plan : Plan) : Course where
  format := plan.format
  fileLength := Ranking.limit plan.top FileTable.standardLength
  historyLength := Ranking.limit plan.top History.standardTop
  markerLength := Ranking.limit plan.todoTop MarkerTable.standardLength
  workers := plan.workers
  noGit := plan.noGit
  checkOutdated := plan.checkOutdated
  discovery := plan.discovery

/-- What is found by a plan about some files, whatever their contents are taken from. -/
def findings (contents : Contents) (around : Surroundings) (root : Path) (files : List SourceFile)
    (plan : Plan) : Health.Signals where
  languages := .ofFiles contents files
  files := .ofFiles contents files plan.top
  markers := .ofFiles contents files plan.todoTop
  history :=
    if plan.noGit then {}
    else History.summarize around.disk around.objects? root plan.top around.now
  dependencies := Dependency.summarize around.disk root plan.checkOutdated around.outdated?

/-- A survey takes the contents of the files from a snapshot. -/
theorem signals_eq_findings (around : Surroundings) (root : Path) (plan : Plan)
    (files : List SourceFile) : signals around root plan files =
      findings (Snapshot.ofFiles around.disk files).contents around root files plan := rfl

variable {plan other : Plan}

/-- Plans with one course find the same. -/
theorem findings_congr (same : plan.course = other.course) (contents : Contents)
    (around : Surroundings) (root : Path) (files : List SourceFile) :
    findings contents around root files plan = findings contents around root files other := by
  obtain ⟨-, hfiles, hhistory, hmarkers, -, hnoGit, houtdated, -⟩ := Course.mk.injEq .. ▸ same
  simp only [findings, FileTable.ofFiles_congr hfiles, MarkerTable.ofFiles_congr hmarkers,
    History.summarize_congr hhistory, hnoGit, houtdated]

/-- Plans with one course make the same report. -/
theorem survey_congr (same : plan.course = other.course) (around : Surroundings) (root : Path) :
    survey around root plan = survey around root other := by
  have hdiscovery : plan.discovery = other.discovery := congrArg Course.discovery same
  simp only [survey, signals_eq_findings, findings_congr same, hdiscovery]

end Analysis

namespace Program

open Analysis (Surroundings Options Plan findings)
open FileSystem (Disk)
open Report (Format)

variable {around : Surroundings} {path : String} {root : Path} {plan other : Plan}

/-- Plans with one course deliver the same. -/
theorem deliver_congr (same : plan.course = other.course) (around : Surroundings) (root : Path)
    (output : Option String) : deliver around root output plan = deliver around root output other := by
  have hformat : plan.format = other.format := congrArg Analysis.Course.format same
  simp only [deliver, Analysis.survey_congr same, hformat]

/-! ### Merging the configuration that is written -/

/-- The template asks for the format that is the standard anyway. -/
theorem formatOf_templateConfig (options : Options) :
    Plan.formatOf options templateConfig = Plan.formatOf options {} := by
  unfold Plan.formatOf
  cases options.format <;> rfl

/-- The template asks for the number of workers that is the standard anyway. -/
theorem workersOf_templateConfig (workers : Nat) :
    Plan.workersOf workers templateConfig = Plan.workersOf workers {} := by
  change (if workers = Analysis.standardWorkers then _ else workers) = workers
  split
  · next standard => exact standard.symm
  · rfl

/-- In whatever format, the plan with the configuration takes the course of the plan without one. -/
theorem course_drawn_templateConfig (options : Options) (workers : Nat) (format : Format) :
    (Plan.drawn options workers templateConfig format).course =
      (Plan.drawn options workers {} format).course := by
  have hfile := Ranking.limit_standard options.top Census.FileTable.standardLength
  have hhistory := Ranking.limit_standard options.top History.standardTop
  have hmarker := Ranking.limit_standard options.todoTop Census.MarkerTable.standardLength
  have hworkers := workersOf_templateConfig workers
  exact Analysis.Course.mk.injEq .. ▸ ⟨rfl, hfile, hhistory, hmarker, hworkers, rfl, rfl, rfl⟩

/-- What only depends on the course of a plan is the same with the configuration and without one. -/
theorem map_make_templateConfig {α : Type} {found : Plan → α}
    (congr : ∀ {plan other : Plan}, plan.course = other.course → found plan = found other)
    (options : Options) (workers : Nat) :
    (Plan.make options workers templateConfig).map found =
      (Plan.make options workers {}).map found := by
  rw [Plan.make_eq_map, Plan.make_eq_map, formatOf_templateConfig]
  cases Plan.formatOf options {} with
  | error unknown => rfl
  | ok format => exact congrArg Except.ok (congr (course_drawn_templateConfig options workers format))

/-! ### Projects that are set up -/

/-- A project without a file for it has the empty configuration. -/
theorem ofProject_of_missing {disk : Disk} (missing : disk.exists? (Config.pathIn root) = false) :
    Config.ofProject disk root = {} := by
  cases found : disk.entry? (Config.pathIn root) with
  | ok entry =>
    rw [Disk.exists?, found] at missing
    cases missing
  | error fault =>
    have hread : disk.readText (Config.pathIn root) = .error fault := by
      simp [Disk.readText, Disk.read, found, bind, Except.bind]
    simp [Config.ofProject, Config.load, hread, Except.toOption]

/-- A project that is set up has had the empty configuration and now has the one that is written. -/
theorem ofProject_init (writes : (init around path).disk ≠ around.disk) :
    ∃ root, canonical? around.disk path = some root ∧ Config.ofProject around.disk root = {} ∧
      Config.ofProject (init around path).disk root = templateConfig := by
  rcases init_cases around path with same | ⟨root, found, _, missing, wrote, _⟩
  · exact absurd same writes
  · refine ⟨root, found, ofProject_of_missing missing, ?_⟩
    rw [Config.ofProject, load_of_entry? wrote.entry?_written parse?_template]
    rfl

/-- A directory without a configuration is set up if a file can be written there. -/
theorem init_disk_ne {disk : Disk} (found : canonical? around.disk path = some root)
    (directory : around.disk.isDirectory root)
    (missing : around.disk.exists? (Config.pathIn root) = false)
    (written : around.disk.write (Config.pathIn root) template.toUTF8 = .ok disk) :
    (init around path).disk ≠ around.disk := by
  have hdisk : (init around path).disk = disk := by
    unfold init
    simp only [found, if_pos directory, missing, written, Bool.false_eq_true, if_false]
    cases Config.load disk (Config.pathIn root) <;> rfl
  have hentry := (Disk.wrote_of_write written).entry?_written
  intro same
  rw [← same, hdisk, Disk.exists?, hentry] at missing
  cases missing

/-- **The configuration that is written is neutral.**  It can be read; where `init` writes it, there was no
configuration.  Whatever the command line says, the plan that is made with it is the plan that is made
without a configuration, but for lengths that every table takes for its own; so everything that is found
about a project is the same, for all files with whatever contents, and so is what is printed or written. -/
theorem template_neutral :
    Config.parse? template = some templateConfig ∧
    (∀ around path, (init around path).disk ≠ around.disk →
      ∃ root, canonical? around.disk path = some root ∧ Config.ofProject around.disk root = {} ∧
        Config.ofProject (init around path).disk root = templateConfig) ∧
    ∀ options workers,
      (Plan.make options workers templateConfig).map Plan.course =
        (Plan.make options workers {}).map Plan.course ∧
      (∀ contents around root files,
        (Plan.make options workers templateConfig).map (findings contents around root files) =
          (Plan.make options workers {}).map (findings contents around root files) ∧
        (Plan.make options workers templateConfig).map
            (Health.score ∘ findings contents around root files) =
          (Plan.make options workers {}).map (Health.score ∘ findings contents around root files)) ∧
      ∀ around root output,
        (Plan.make options workers templateConfig).map (deliver around root output) =
          (Plan.make options workers {}).map (deliver around root output) := by
  refine ⟨parse?_template, fun _ _ => ofProject_init, fun options workers => ⟨?_, ?_, ?_⟩⟩
  · exact map_make_templateConfig id options workers
  · intro contents around root files
    have congr {plan other : Plan} (same : plan.course = other.course) :=
      Analysis.findings_congr same contents around root files
    exact ⟨map_make_templateConfig congr options workers,
      map_make_templateConfig (fun same => congrArg Health.score (congr same)) options workers⟩
  · intro around root output
    exact map_make_templateConfig (fun same => deliver_congr same around root output) options workers

/-! ### A project that is set up -/

/-- What a run finds around a project `p` with one file. -/
def freshAround : Surroundings where
  disk :=
    { root := .directory [0x70] (.file "a.rs".toUTF8.toList "fn main() {}\n".toUTF8 .empty) .empty
      working := [] }
  now := ((0 : Int) : Calendar.Moment)

/-- Writing the template changes the disk of the sample. -/
theorem freshAround_disk_ne : (init freshAround "p").disk ≠ freshAround.disk := by
  have hroot : canonical? freshAround.disk "p" = some ⟨[0x2F, 0x70]⟩ := by cbv
  have hdirectory : freshAround.disk.isDirectory ⟨[0x2F, 0x70]⟩ := by cbv
  have hmissing : freshAround.disk.exists? (Config.pathIn ⟨[0x2F, 0x70]⟩) = false := by cbv
  have hplace : FileSystem.resolve freshAround.disk.root freshAround.disk.working .create
      (Config.pathIn ⟨[0x2F, 0x70]⟩) = .ok [[0x70], Config.fileName.toUTF8.toList] := by cbv
  have hvacant : freshAround.disk.root.at? [[0x70], Config.fileName.toUTF8.toList] = none := by cbv
  refine init_disk_ne hroot hdirectory hmissing (Disk.write_eq_ok_iff.2 ⟨_, hplace, ?_, rfl⟩)
  rw [FileSystem.Tree.node?, hvacant]
  exact Option.some_ne_none _ ∘ Eq.symm

/-- The project gets the configuration, and all that is printed about it stays as it was, also if the
standard number of workers and lengths of zero are asked for. -/
theorem template_neutral_fresh :
    (∃ root, canonical? freshAround.disk "p" = some root ∧
      Config.ofProject (init freshAround "p").disk root = templateConfig) ∧
    ∀ root, (Plan.make { top := some 0, todoTop := some 0 } 8 templateConfig).map
        (deliver freshAround root none) =
      (Plan.make { top := some 0, todoTop := some 0 } 8 {}).map (deliver freshAround root none) := by
  obtain ⟨-, initial, neutral⟩ := template_neutral
  obtain ⟨root, found, -, loaded⟩ := initial freshAround "p" freshAround_disk_ne
  exact ⟨⟨root, found, loaded⟩, fun root => (neutral _ 8).2.2 freshAround root none⟩

end Program

end CodeCensus
