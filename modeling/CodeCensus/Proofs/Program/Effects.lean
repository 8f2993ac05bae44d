import CodeCensus.Program.Run
import CodeCensus.Proofs.FileSystem.Writing
import CodeCensus.Proofs.Health.LoneAuthor
import Mathlib

/-!
# What a run changes

A run changes one file at most.  Which one it is depends on the command: an analysis changes the file
that its report is written to, and `init` the configuration that was missing.  All other runs, and all
runs that fail, leave the disk as it is (`effects_confined`).

A run that has written something might still fail if what it has written cannot be used, so the
configuration that `init` writes has to be one (`parse?_template`).  A second `init` finds what the first
one has written, as the path of the project leads to the same directory still (`canonical?_of_wrote`).
-/

namespace CodeCensus

/-- The options of the analysis that an invocation asks for, if it asks for one. -/
def CommandLine.Invocation.analysis? (invocation : CommandLine.Invocation) : Option Analysis.Options :=
  match invocation.command with
  | some .init => none
  | some (.analyze options) => some options
  | none => some {}

namespace Program

open FileSystem (Disk resolve)
open Report (render)
open Analysis (Surroundings Plan Options survey)
open CommandLine (Invocation)

variable {around later : Surroundings} {before after : Disk} {path : String} {root : Path} {plan : Plan}
  {report : Report}

/-! ### The configuration that is written -/

/-- What the configuration says that is written. -/
def templateConfig : Config where
  defaults :=
    { format := some "text"
      top := some 10
      todoTop := some 15
      workers := some 8
      noGit := some false
      checkOutdated := some false }

/-- The template is made of its lines, each with a line feed. -/
theorem toList_template :
    template.toList = templateLines.flatMap fun line => line.toList ++ ['\n'] := by
  simp [template, List.flatMap_map]

set_option maxRecDepth 100000 in
/-- The configuration that is written can be read. -/
theorem parse?_template : Config.parse? template = some templateConfig := by
  unfold Config.parse?
  rw [toList_template]
  decide +kernel

/-- The configuration in a file is the one that the text of the file describes. -/
theorem load_of_entry? {disk : Disk} {place : Path} {text : String} {config : Config}
    (found : disk.entry? place = .ok (.file text.toUTF8)) (parsed : Config.parse? text = some config) :
    Config.load disk place = .ok config := by
  rw [Config.load, Disk.readText_of_entry? found]
  simp only [parsed]

/-! ### The directory of a project -/

/-- The path of a project leads to the same directory still. -/
theorem canonical?_of_wrote {other : Path} {body : ByteArray} (wrote : before.Wrote after other body)
    (found : canonical? before path = some root) : canonical? after path = some root := by
  obtain ⟨working, -, _, -, wrote⟩ := wrote
  unfold canonical? at found ⊢
  cases arrives : resolve before.root before.working .follow (Path.ofString path) with
  | error fault =>
    rw [arrives] at found
    cases found
  | ok place =>
    rw [arrives] at found
    rw [working, FileSystem.resolve_wrote wrote arrives nofun nofun]
    exact found

/-! ### Analyses -/

/-- The report about the project at a path, and the plan that it is made by. -/
def Reports (around : Surroundings) (path : String) (options : Options) (workers : Nat) (plan : Plan)
    (report : Report) : Prop :=
  ∃ root, canonical? around.disk path = some root ∧ around.disk.isDirectory root ∧
    Plan.make options workers (Config.ofProject around.disk root) = .ok plan ∧
    survey around root plan = .ok report

/-- What stands in front of a report in a format. -/
def frontOf (around : Surroundings) (root : Path) (plan : Plan) : String :=
  if plan.format == .text then heading around.colour root else ""

/-- What a run leaves behind that has made a report: the report is printed, or a file with the report in
it. -/
inductive Delivered (around : Surroundings) (root : Path) (plan : Plan) (report : Report) :
    Option String → Outcome → Prop where
  | printed :
    Delivered around root plan report none
      { disk := around.disk
        output := frontOf around root plan ++ render report plan.format around.colour ++ "\n"
        timed := plan.format == .text }
  | saved {target : String} {disk : Disk}
    (written : around.disk.write (Path.ofString target) (render report plan.format false).toUTF8 =
      .ok disk) :
    Delivered around root plan report (some target)
      { disk
        output := frontOf around root plan
        notices := writtenNotice around.colour target
        timed := plan.format == .text }

/-- Whether a run has failed without a change. -/
def Fails (around : Surroundings) (outcome : Outcome) : Prop :=
  outcome.failure?.isSome ∧ outcome.disk = around.disk

/-- Delivering a report fails without a change, or it is printed or saved. -/
theorem deliver_cases (around : Surroundings) (root : Path) (output : Option String) (plan : Plan) :
    Fails around (deliver around root output plan) ∨
      ∃ report, survey around root plan = .ok report ∧
        Delivered around root plan report output (deliver around root output plan) := by
  unfold deliver
  cases surveyed : survey around root plan with
  | error failure => exact .inl ⟨rfl, rfl⟩
  | ok report =>
    cases output with
    | none =>
      refine .inr ⟨report, rfl, ?_⟩
      simp only [Option.isNone_none, Bool.and_true]
      exact .printed
    | some target =>
      simp only [Option.isNone_some, Bool.and_false]
      cases written : around.disk.write (Path.ofString target)
          (render report plan.format false).toUTF8 with
      | error fault => exact .inl ⟨rfl, rfl⟩
      | ok disk => exact .inr ⟨report, rfl, .saved written⟩

/-- An analysis fails without a change, or it makes a report by a plan and delivers it. -/
theorem analyze_cases (around : Surroundings) (path : String) (options : Options) (workers : Nat) :
    Fails around (analyze around path options workers) ∨
      ∃ root plan report, Reports around path options workers plan report ∧
        Delivered around root plan report options.output (analyze around path options workers) := by
  unfold analyze
  cases found : canonical? around.disk path with
  | none => exact .inl ⟨rfl, rfl⟩
  | some root =>
    by_cases directory : around.disk.isDirectory root
    · simp only [if_pos directory]
      cases made : Plan.make options workers (Config.ofProject around.disk root) with
      | error unknown => exact .inl ⟨rfl, rfl⟩
      | ok plan =>
        rcases deliver_cases around root options.output plan with fails | ⟨report, surveyed, delivered⟩
        · exact .inl fails
        · exact .inr ⟨root, plan, report, ⟨root, found, directory, made, surveyed⟩, delivered⟩
    · simp only [if_neg directory]
      exact .inl ⟨rfl, rfl⟩

/-- A report that is printed changes nothing; one for programs is all that is printed. -/
theorem Delivered.of_printed {outcome : Outcome}
    (delivered : Delivered around root plan report none outcome) :
    outcome.disk = around.disk ∧ (plan.format = .json → ∀ seconds,
      outcome.outputAfter around.colour seconds = render report .json false ++ "\n") := by
  cases delivered
  refine ⟨rfl, ?_⟩
  intro json seconds
  simp [Outcome.outputAfter, frontOf, json, render]

/-- A report that is written changes the file that it is written to; beside one for programs nothing is
printed. -/
theorem Delivered.of_saved {target : String} {outcome : Outcome}
    (delivered : Delivered around root plan report (some target) outcome) :
    around.disk.Wrote outcome.disk (Path.ofString target) (render report plan.format false).toUTF8 ∧
      outcome.disk.readText (Path.ofString target) = .ok (render report plan.format false) ∧
      (plan.format = .json → ∀ seconds, outcome.outputAfter around.colour seconds = "") := by
  cases delivered with
  | saved written =>
    have wrote := Disk.wrote_of_write written
    refine ⟨wrote, Disk.readText_of_entry? wrote.entry?_written, ?_⟩
    intro json seconds
    simp [Outcome.outputAfter, frontOf, json]

theorem Delivered.failure?_eq_none {output : Option String} {outcome : Outcome}
    (delivered : Delivered around root plan report output outcome) : outcome.failure? = none := by
  cases delivered <;> rfl

/-- An analysis succeeds if there is a report, and it can be written where it is to be written. -/
theorem failure?_analyze {options : Options} {workers : Nat}
    (reports : Reports around path options workers plan report)
    (writable : ∀ target, options.output = some target →
      ∃ disk, around.disk.write (Path.ofString target) (render report plan.format false).toUTF8 =
        .ok disk) :
    (analyze around path options workers).failure? = none := by
  obtain ⟨root, found, directory, made, surveyed⟩ := reports
  unfold analyze
  simp only [found, if_pos directory, made]
  unfold deliver
  simp only [surveyed]
  cases houtput : options.output with
  | none => rfl
  | some target =>
    obtain ⟨disk, written⟩ := writable target houtput
    simp only [Option.isNone_some, Bool.and_false, written]

/-! ### Setting up -/

/-- Setting up changes nothing, or it writes the configuration that is missing and does not fail. -/
theorem init_cases (around : Surroundings) (path : String) :
    (init around path).disk = around.disk ∨
      ∃ root, canonical? around.disk path = some root ∧ around.disk.isDirectory root ∧
        around.disk.exists? (Config.pathIn root) = false ∧
        around.disk.Wrote (init around path).disk (Config.pathIn root) template.toUTF8 ∧
        (init around path).failure? = none := by
  unfold init
  cases found : canonical? around.disk path with
  | none => exact .inl rfl
  | some root =>
    by_cases directory : around.disk.isDirectory root
    · simp only [if_pos directory]
      cases missing : around.disk.exists? (Config.pathIn root) with
      | true => exact .inl rfl
      | false =>
        cases written : around.disk.write (Config.pathIn root) template.toUTF8 with
        | error fault => exact .inl rfl
        | ok disk =>
          have wrote := Disk.wrote_of_write written
          simp only [Bool.false_eq_true, if_false, load_of_entry? wrote.entry?_written parse?_template]
          exact .inr ⟨root, rfl, directory, missing, wrote, trivial⟩
    · simp only [if_neg directory, true_or]

/-- A configuration that is there is left alone. -/
theorem init_of_exists (found : canonical? around.disk path = some root)
    (there : around.disk.exists? (Config.pathIn root)) : (init around path).disk = around.disk := by
  rcases init_cases around path with same | ⟨other, hother, _, missing, _⟩
  · exact same
  · obtain rfl : root = other := Option.some.inj (found.symm.trans hother)
    rw [missing] at there
    cases there

/-- What setting up does to a disk only depends on the disk. -/
theorem init_disk_congr (same : later.disk = around.disk) :
    (init later path).disk = (init around path).disk := by
  unfold init
  rw [same]
  cases canonical? around.disk path with
  | none => rfl
  | some root =>
    by_cases directory : around.disk.isDirectory root
    · simp only [if_pos directory]
      cases around.disk.exists? (Config.pathIn root) with
      | true => rfl
      | false =>
        cases around.disk.write (Config.pathIn root) template.toUTF8 with
        | error fault => rfl
        | ok disk =>
          simp only [Bool.false_eq_true, if_false]
          cases Config.load disk (Config.pathIn root) <;> rfl
    · simp only [if_neg directory]

/-- Setting up a second time changes nothing. -/
theorem init_init (again : later.disk = (init around path).disk) :
    (init later path).disk = (init around path).disk := by
  rcases init_cases around path with same | ⟨root, found, _, _, wrote, _⟩
  · rw [init_disk_congr (again.trans same)]
  · rw [← again] at wrote ⊢
    refine init_of_exists (canonical?_of_wrote wrote found) ?_
    rw [Disk.exists?, wrote.entry?_written]
    rfl

/-! ### Runs -/

/-- A run for an analysis fails without a change, or it makes a report. -/
theorem run_cases (around : Surroundings) {invocation : Invocation} {options : Options}
    (asked : invocation.analysis? = some options) :
    Fails around (run around invocation) ∨
      ∃ root plan report, Reports around invocation.path options invocation.workers plan report ∧
        Delivered around root plan report options.output (run around invocation) := by
  unfold Invocation.analysis? at asked
  unfold run
  cases command : invocation.command with
  | none =>
    rw [command] at asked
    cases asked
    simp only
    split
    · exact .inl ⟨rfl, rfl⟩
    · exact analyze_cases around invocation.path {} invocation.workers
  | some command' =>
    rw [command] at asked
    cases command' with
    | init => cases asked
    | analyze given =>
      cases asked
      exact analyze_cases around invocation.path options invocation.workers

/-- What an invocation asks for is an analysis or a set-up. -/
theorem analysis?_cases (invocation : Invocation) :
    (∃ options, invocation.analysis? = some options) ∨ invocation.command = some .init := by
  unfold Invocation.analysis?
  cases invocation.command with
  | none => exact .inl ⟨_, rfl⟩
  | some command =>
    cases command with
    | init => exact .inr rfl
    | analyze options => exact .inl ⟨_, rfl⟩

/-- A run that is asked to write a configuration does that at its path. -/
theorem run_init {invocation : Invocation} (asked : invocation.command = some .init) :
    run around invocation = init around invocation.path := by
  unfold run
  rw [asked]

/-- **What a run changes.**  A run that fails changes nothing.  An analysis that succeeds changes nothing
either if no output is named; otherwise it changes the file that the name of the output leads to, which is
the report then.  If the report is one for programs, then it is all that is printed, or nothing is.
Setting up changes at most the configuration of the project, and only if there is none; to set up again
changes nothing. -/
theorem effects_confined (around : Surroundings) (invocation : Invocation) :
    ((run around invocation).failure?.isSome → (run around invocation).disk = around.disk) ∧
    (∀ options, invocation.analysis? = some options → (run around invocation).failure? = none →
      ∃ plan report,
        Reports around invocation.path options invocation.workers plan report ∧
        (options.output = none →
          (run around invocation).disk = around.disk ∧
          (plan.format = .json → ∀ seconds,
            (run around invocation).outputAfter around.colour seconds =
              render report .json false ++ "\n")) ∧
        (∀ target, options.output = some target →
          around.disk.Wrote (run around invocation).disk (Path.ofString target)
            (render report plan.format false).toUTF8 ∧
          (run around invocation).disk.readText (Path.ofString target) =
            .ok (render report plan.format false) ∧
          (plan.format = .json → ∀ seconds,
            (run around invocation).outputAfter around.colour seconds = ""))) ∧
    (invocation.command = some .init →
      ((run around invocation).disk = around.disk ∨
        ∃ root, canonical? around.disk invocation.path = some root ∧
          around.disk.exists? (Config.pathIn root) = false ∧
          around.disk.Wrote (run around invocation).disk (Config.pathIn root) template.toUTF8) ∧
      ∀ later : Surroundings, later.disk = (run around invocation).disk →
        (run later invocation).disk = (run around invocation).disk) := by
  refine ⟨?_, ?_, ?_⟩
  · intro failed
    rcases analysis?_cases invocation with ⟨options, asked⟩ | asked
    · rcases run_cases around asked with fails | ⟨root, plan, report, _, delivered⟩
      · exact fails.2
      · rw [delivered.failure?_eq_none] at failed
        cases failed
    · rw [run_init asked] at failed ⊢
      rcases init_cases around invocation.path with same | ⟨_, _, _, _, _, succeeds⟩
      · exact same
      · rw [succeeds] at failed
        cases failed
  · intro options asked succeeds
    rcases run_cases around asked with fails | ⟨root, plan, report, reports, delivered⟩
    · rw [Fails, succeeds] at fails
      cases fails.1
    · refine ⟨plan, report, reports, ?_, ?_⟩
      · intro none
        rw [none] at delivered
        exact delivered.of_printed
      · intro target some
        rw [some] at delivered
        exact delivered.of_saved
  · intro asked
    simp only [run_init asked]
    constructor
    · rcases init_cases around invocation.path with same | ⟨root, found, _, missing, wrote, _⟩
      · exact .inl same
      · exact .inr ⟨root, found, missing, wrote⟩
    · intro later again
      exact init_init again

/-! ### A project with a configuration and nothing else -/

/-- A configuration by which reports are for programs. -/
def bareText : String := "exclude.skip_defaults = true\ndefaults.format = \"json\"\n"

/-- What that configuration says. -/
def bareConfig : Config where
  exclude := { skipDefaults := true }
  defaults := { format := some "json" }

/-- What a run finds around a project `p` that has this configuration and nothing else. -/
def bareAround : Surroundings where
  disk :=
    { root := .directory [0x70] (.file "codestat.toml".toUTF8.toList bareText.toUTF8 .empty) .empty
      working := [] }
  now := ((0 : Int) : Calendar.Moment)

/-- The path of this project. -/
def bareRoot : Path := ⟨[0x2F, 0x70]⟩

/-- The options for a report in a file `r`. -/
def bareOptions : Options where
  output := some "r"

/-- The plan that is made for them and for this project. -/
def barePlan : Plan where
  format := .json
  top := 0
  todoTop := 0
  workers := 8
  noGit := false
  checkOutdated := false
  discovery := {}

/-- What is asked for to write that report. -/
def bareSaving : Invocation where
  path := "p"
  command := some (.analyze bareOptions)

/-- What is asked for to set up the root. -/
def bareSetUp : Invocation where
  path := "/"
  command := some .init

/-- The configuration of the sample can be parsed. -/
theorem parse?_bareText : Config.parse? bareText = some bareConfig := by
  decide +kernel

/-- The sample is analysed by it. -/
theorem ofProject_bare : Config.ofProject bareAround.disk bareRoot = bareConfig := by
  have hentry : bareAround.disk.entry? (Config.pathIn bareRoot) = .ok (.file bareText.toUTF8) := by cbv
  rw [Config.ofProject, load_of_entry? hentry parse?_bareText]
  rfl

/-- The sample can be surveyed. -/
theorem exists_survey_bare : ∃ report, survey bareAround bareRoot barePlan = .ok report := by
  have hfound : (Discovery.files bareAround.disk bareRoot {}).toOption.any fun files => files ≠ [] := by
    cbv
  cases listed : Discovery.files bareAround.disk bareRoot {} with
  | error fault =>
    rw [listed] at hfound
    cases hfound
  | ok files =>
    rw [listed] at hfound
    refine Analysis.exists_survey ?_ listed
    simpa [Except.toOption] using hfound

/-- A report is made about it. -/
theorem exists_reports_bare :
    ∃ report, Reports bareAround "p" bareOptions Analysis.standardWorkers barePlan report := by
  have hroot : canonical? bareAround.disk "p" = some bareRoot := by cbv
  have hdirectory : bareAround.disk.isDirectory bareRoot := by cbv
  have hplan : Plan.make bareOptions Analysis.standardWorkers bareConfig = .ok barePlan := by cbv
  obtain ⟨report, surveyed⟩ := exists_survey_bare
  refine ⟨report, bareRoot, hroot, hdirectory, ?_, surveyed⟩
  rw [ofProject_bare, hplan]

theorem exists_write_bare (body : ByteArray) :
    ∃ disk, bareAround.disk.write (Path.ofString "r") body = .ok disk := by
  have hplace : resolve bareAround.disk.root bareAround.disk.working .create (Path.ofString "r") =
      .ok [[0x72]] := by cbv
  have hvacant : bareAround.disk.root.at? [[0x72]] = none := by cbv
  refine ⟨_, Disk.write_eq_ok_iff.2 ⟨[[0x72]], hplace, ?_, rfl⟩⟩
  simp [FileSystem.Tree.node?, hvacant]

/-- An analysis of what is not there fails; one of the project succeeds, prints nothing and changes the
file that its report is written to; and the root can be set up twice. -/
theorem effects_confined_bare :
    ((run bareAround { path := "p/q" }).failure?.isSome ∧
      (run bareAround { path := "p/q" }).disk = bareAround.disk) ∧
    ((run bareAround bareSaving).failure? = none ∧
      ∃ plan report, Reports bareAround "p" bareOptions Analysis.standardWorkers plan report ∧
        bareAround.disk.Wrote (run bareAround bareSaving).disk (Path.ofString "r")
          (render report plan.format false).toUTF8) ∧
    (run { bareAround with disk := (run bareAround bareSetUp).disk } bareSetUp).disk =
      (run bareAround bareSetUp).disk := by
  refine ⟨?_, ?_, ?_⟩
  · have fails : (run bareAround { path := "p/q" }).failure?.isSome := by cbv
    exact ⟨fails, (effects_confined bareAround { path := "p/q" }).1 fails⟩
  · obtain ⟨report, reports⟩ := exists_reports_bare
    have succeeds : (run bareAround bareSaving).failure? = none := by
      refine failure?_analyze reports ?_
      intro target same
      cases same
      exact exists_write_bare _
    obtain ⟨plan, report, reports, _, saved⟩ :=
      (effects_confined bareAround bareSaving).2.1 bareOptions rfl succeeds
    exact ⟨succeeds, plan, report, reports, (saved "r" rfl).1⟩
  · exact ((effects_confined bareAround bareSetUp).2.2 rfl).2 _ rfl

end Program

end CodeCensus
