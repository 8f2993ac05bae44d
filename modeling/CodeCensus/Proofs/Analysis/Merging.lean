import CodeCensus.Analysis.Plan
import CodeCensus.Proofs.Dictionary
import Mathlib.Data.List.Induction

/-!
# What a plan is made of

A plan is made of what the command line says and of what the configuration says, and every entry of a plan
has its own rule for which of the two decides.  The rules are written down entry by entry (`Merges`), and a
plan is made exactly if it keeps to all of them (`make_eq_ok_iff`); there is no plan exactly if the name of
the format that decides is the name of none (`make_eq_error_iff`).

The patterns to pass over come from three places and are added one by one, first those of the configuration
and later those of the command line.  Adding patterns that are new to a list without repetitions is the same
as removing the repetitions from the longer list (`addNew_eraseDups`), so what is left in the end is the
first occurrence of each pattern in all three places one behind the other (`excludeOf_eq_eraseDups`).
-/

namespace CodeCensus

/-! ### Lists without repetitions -/

/-- A new text is added to the first occurrences of others. -/
theorem addNew_eraseDups (list : List String) (s : String) :
    addNew list.eraseDups s = (list ++ [s]).eraseDups := by
  rw [List.eraseDups_append]
  by_cases old : s ∈ list
  · simp [addNew, List.removeAll, old]
  · simp [addNew, List.removeAll, old, List.eraseDups_cons]

/-- Adding texts one by one to a list without repetitions leaves the first appearances of all. -/
theorem foldl_addNew_eraseDups (list more : List String) :
    more.foldl addNew list.eraseDups = (list ++ more).eraseDups := by
  induction more generalizing list with
  | nil => rw [List.foldl_nil, List.append_nil]
  | cons s more ih =>
    rw [List.foldl_cons, addNew_eraseDups, ih, List.append_assoc, List.singleton_append]

theorem nodup_addNew {list : List String} (nodup : list.Nodup) (s : String) : (addNew list s).Nodup := by
  unfold addNew
  split
  · exact nodup
  · next new => simpa using nodup.concat (by simpa using new)

/-- The first occurrences are without repetitions. -/
theorem nodup_eraseDups (list : List String) : list.eraseDups.Nodup := by
  induction list using List.reverseRecOn with
  | nil => exact List.nodup_nil
  | append_singleton list s ih =>
    rw [← addNew_eraseDups]
    exact nodup_addNew ih s

theorem eraseDups_builtinPatterns : builtinPatterns.eraseDups = builtinPatterns := by decide

/-- The built-in patterns, unless they are to be skipped. -/
def Exclusion.builtin (exclusion : Exclusion) : List String :=
  if exclusion.skipDefaults then [] else builtinPatterns

/-- The patterns of a configuration are the first occurrences among the built-in ones and its own. -/
theorem Exclusion.patterns_eq_eraseDups (exclusion : Exclusion) :
    exclusion.patterns = (exclusion.builtin ++ exclusion.paths).eraseDups := by
  have hbuiltin : exclusion.builtin.eraseDups = exclusion.builtin := by
    unfold Exclusion.builtin
    split
    · rfl
    · exact eraseDups_builtinPatterns
  rw [← foldl_addNew_eraseDups, hbuiltin]
  rfl

/-! ### Names of formats -/

namespace Report.Format

/-- Whether a name, in whatever case, stands for a format. -/
def IsNamed (format : Format) (name : String) : Prop :=
  (Text.fold name, format) ∈ names

instance (format : Format) (name : String) : Decidable (format.IsNamed name) :=
  inferInstanceAs (Decidable ((Text.fold name, format) ∈ names))

/-- The table of formats has a format under each of its names, in whatever letters. -/
theorem lookup_names_iff {name : String} {format : Format} :
    names.lookup (Text.fold name) = some format ↔ format.IsNamed name :=
  Dictionary.lookup_eq_some_iff_mem (by decide)

/-- A name is that of a format if and only if the format is named so. -/
theorem ofName_eq_ok_iff {name : String} {format : Format} :
    ofName name = .ok format ↔ format.IsNamed name := by
  rw [← lookup_names_iff, ofName]
  cases names.lookup (Text.fold name) <;> simp

/-- A name that is refused is that of no format, and the refusal says this name. -/
theorem ofName_eq_error_iff {name : String} {unknown : UnknownFormat} :
    ofName name = .error unknown ↔ unknown.name = name ∧ ∀ format : Format, ¬ format.IsNamed name := by
  simp only [← lookup_names_iff, ofName]
  cases names.lookup (Text.fold name) with
  | none =>
    obtain ⟨other⟩ := unknown
    simp [eq_comm]
  | some format => simp

end Report.Format

namespace Analysis

open Report (Format UnknownFormat)

variable {options : Options} {workers : Nat} {config : Config} {plan : Plan}

/-! ### Patterns -/

/-- A pattern without the blanks around it. -/
def trimmed (pattern : String) : String :=
  String.ofList (Text.trim pattern.toList)

/-- The patterns of the command line, without the blank ones and without blanks around them. -/
def Options.patterns (options : Options) : List String :=
  (options.ignore.map trimmed).filter (· ≠ "")

namespace Plan

/-- The excluded patterns are the first appearances in the three sources, one after the other. -/
theorem excludeOf_eq_eraseDups (options : Options) (config : Config) :
    excludeOf options config =
      (config.exclude.builtin ++ config.exclude.paths ++ options.patterns).eraseDups := by
  have hpatterns : (options.ignore.map trimmed).filter (!·.isEmpty) = options.patterns := by
    refine List.filter_congr fun pattern _ => ?_
    rw [Bool.eq_iff_iff]
    simp
  rw [← foldl_addNew_eraseDups, ← Exclusion.patterns_eq_eraseDups, ← hpatterns]
  rfl

/-! ### The rules -/

/-- A plan keeps to what the command line and the configuration say. -/
structure Merges (options : Options) (workers : Nat) (config : Config) (plan : Plan) : Prop where
  format_named : ∀ name, options.format.or config.defaults.format = some name → plan.format.IsNamed name
  format_standard : options.format.or config.defaults.format = none → plan.format = .text
  top : plan.top = (options.top.or config.defaults.top).getD 0
  todoTop : plan.todoTop = (options.todoTop.or config.defaults.todoTop).getD 0
  workers_bounds : 1 ≤ plan.workers ∧ plan.workers ≤ maxWorkers
  /-- The configuration decides if the command line does not ask for another number than the standard. -/
  workers_configured : ∀ number, workers = standardWorkers → config.defaults.workers = some number →
    plan.workers = max 1 (min number maxWorkers)
  workers_given : workers ≠ standardWorkers ∨ config.defaults.workers = none → plan.workers = workers
  noGit : plan.noGit ↔ options.noGit ∨ config.defaults.noGit = some true
  checkOutdated : plan.checkOutdated ↔ options.checkOutdated ∨ config.defaults.checkOutdated = some true
  exclude : plan.discovery.exclude =
    (config.exclude.builtin ++ config.exclude.paths ++ options.patterns).eraseDups
  exclude_nodup : plan.discovery.exclude.Nodup
  languages : plan.discovery.languages = options.languages

/-! ### Making a plan -/

/-- The format is the one that is named on the command line, else the one in the configuration, else text.
-/
theorem formatOf_eq_ok_iff {format : Format} : formatOf options config = .ok format ↔
    (∀ name, options.format.or config.defaults.format = some name → format.IsNamed name) ∧
      (options.format.or config.defaults.format = none → format = .text) := by
  rw [formatOf, Option.orElse_eq_orElse, Option.orElse_eq_or]
  cases options.format.or config.defaults.format with
  | none => simp [eq_comm]
  | some name => simp [Format.ofName_eq_ok_iff]

/-- A format is refused if the name that counts is that of none. -/
theorem formatOf_eq_error_iff {unknown : UnknownFormat} : formatOf options config = .error unknown ↔
    options.format.or config.defaults.format = some unknown.name ∧
      ∀ format : Format, ¬ format.IsNamed unknown.name := by
  rw [formatOf, Option.orElse_eq_orElse, Option.orElse_eq_or]
  cases options.format.or config.defaults.format with
  | none => simp
  | some name =>
    simp only [Format.ofName_eq_error_iff, Option.some.injEq]
    constructor
    · rintro ⟨rfl, unnamed⟩
      exact ⟨rfl, unnamed⟩
    · rintro ⟨rfl, unnamed⟩
      exact ⟨rfl, unnamed⟩

/-- The plan in a given format. -/
def drawn (options : Options) (workers : Nat) (config : Config) (format : Format) : Plan where
  format := format
  top := (options.top <|> config.defaults.top).getD 0
  todoTop := (options.todoTop <|> config.defaults.todoTop).getD 0
  workers := workersOf workers config
  noGit := options.noGit || config.defaults.noGit.getD false
  checkOutdated := options.checkOutdated || config.defaults.checkOutdated.getD false
  discovery := ⟨excludeOf options config, options.languages⟩

/-- Only the format can be wrong. -/
theorem make_eq_map (options : Options) (workers : Nat) (config : Config) :
    make options workers config = (formatOf options config).map (drawn options workers config) := by
  unfold make
  cases formatOf options config <;> rfl

/-- The number of workers stays within the bounds of the command line, even where the configuration asks for
more. -/
theorem workersOf_bounds (least : 1 ≤ workers) (most : workers ≤ maxWorkers) (config : Config) :
    1 ≤ workersOf workers config ∧ workersOf workers config ≤ maxWorkers := by
  unfold workersOf maxWorkers at *
  cases config.defaults.workers with
  | none => exact ⟨least, most⟩
  | some number =>
    simp only
    split <;> omega

/-- A plan that is drawn in the right format keeps to the rules. -/
theorem merges_drawn (least : 1 ≤ workers) (most : workers ≤ maxWorkers) {format : Format}
    (named : formatOf options config = .ok format) :
    Merges options workers config (drawn options workers config format) := by
  obtain ⟨format_named, format_standard⟩ := formatOf_eq_ok_iff.1 named
  exact
    { format_named
      format_standard
      top := by simp [drawn]
      todoTop := by simp [drawn]
      workers_bounds := workersOf_bounds least most config
      workers_configured := by
        intro number standard configured
        simp only [drawn, workersOf, configured, if_pos standard, maxWorkers]
        omega
      workers_given := by
        rintro (other | unconfigured)
        · cases configured : config.defaults.workers <;> simp [drawn, workersOf, configured, other]
        · simp [drawn, workersOf, unconfigured]
      noGit := by cases configured : config.defaults.noGit <;> simp [drawn, configured]
      checkOutdated := by cases configured : config.defaults.checkOutdated <;> simp [drawn, configured]
      exclude := excludeOf_eq_eraseDups options config
      exclude_nodup := by
        simp only [drawn, excludeOf_eq_eraseDups]
        exact nodup_eraseDups _
      languages := rfl }

/-- The rules leave nothing open. -/
theorem Merges.unique {other : Plan} (merges : Merges options workers config plan)
    (merges' : Merges options workers config other) : plan = other := by
  have hformat : plan.format = other.format := by
    have hplan := formatOf_eq_ok_iff.2 ⟨merges.format_named, merges.format_standard⟩
    have hother := formatOf_eq_ok_iff.2 ⟨merges'.format_named, merges'.format_standard⟩
    exact Except.ok.inj (hplan.symm.trans hother)
  have hworkers : plan.workers = other.workers := by
    by_cases standard : workers = standardWorkers
    · cases configured : config.defaults.workers with
      | none => rw [merges.workers_given (.inr configured), merges'.workers_given (.inr configured)]
      | some number =>
        rw [merges.workers_configured number standard configured,
          merges'.workers_configured number standard configured]
    · rw [merges.workers_given (.inl standard), merges'.workers_given (.inl standard)]
  have hnoGit : plan.noGit = other.noGit := Bool.eq_iff_iff.2 (merges.noGit.trans merges'.noGit.symm)
  have houtdated : plan.checkOutdated = other.checkOutdated :=
    Bool.eq_iff_iff.2 (merges.checkOutdated.trans merges'.checkOutdated.symm)
  have hdiscovery : plan.discovery = other.discovery := by
    have hexclude := merges.exclude.trans merges'.exclude.symm
    have hlanguages := merges.languages.trans merges'.languages.symm
    cases hplan : plan.discovery
    cases hother : other.discovery
    rw [hplan, hother] at hexclude hlanguages
    exact Discovery.Options.mk.injEq .. ▸ ⟨hexclude, hlanguages⟩
  have htop := merges.top.trans merges'.top.symm
  have htodoTop := merges.todoTop.trans merges'.todoTop.symm
  cases plan
  cases other
  exact Plan.mk.injEq .. ▸
    ⟨hformat, htop, htodoTop, hworkers, hnoGit, houtdated, hdiscovery⟩

/-- A plan is made if and only if it merges the sources as it should. -/
theorem make_eq_ok_iff (least : 1 ≤ workers) (most : workers ≤ maxWorkers) :
    make options workers config = .ok plan ↔ Merges options workers config plan := by
  rw [make_eq_map]
  constructor
  · intro made
    cases named : formatOf options config with
    | error unknown =>
      rw [named] at made
      cases made
    | ok format =>
      rw [named] at made
      cases made
      exact merges_drawn least most named
  · intro merges
    have named := formatOf_eq_ok_iff.2 ⟨merges.format_named, merges.format_standard⟩
    rw [named, merges.unique (merges_drawn least most named)]
    rfl

/-- There is no plan if the name that decides is the name of no format; this name is told then. -/
theorem make_eq_error_iff {unknown : UnknownFormat} : make options workers config = .error unknown ↔
    options.format.or config.defaults.format = some unknown.name ∧
      ∀ format : Format, ¬ format.IsNamed unknown.name := by
  rw [← formatOf_eq_error_iff, make_eq_map]
  cases formatOf options config <;> simp [Except.map]

/-- There is a plan if the name that decides, if there is any, is the name of a format. -/
theorem exists_make_iff : (∃ plan, make options workers config = .ok plan) ↔
    ∀ name, options.format.or config.defaults.format = some name →
      ∃ format : Format, format.IsNamed name := by
  constructor
  · rintro ⟨plan, made⟩ name decides
    by_contra unnamed
    have fails : make options workers config = .error ⟨name⟩ :=
      make_eq_error_iff.2 ⟨decides, not_exists.1 unnamed⟩
    rw [made] at fails
    cases fails
  · intro named
    cases made : make options workers config with
    | ok plan => exact ⟨plan, rfl⟩
    | error unknown =>
      obtain ⟨decides, unnamed⟩ := make_eq_error_iff.1 made
      obtain ⟨format, isNamed⟩ := named unknown.name decides
      exact absurd isNamed (unnamed format)

/-- **What a plan is made of.**  There is a plan unless the name of a format decides that is the name of
none, and then this name is told; what the configuration calls a format is of no importance where the
command line names one.  The plan is the one that keeps to the rules: the patterns to pass over are the
first occurrences among the built-in ones, those of the configuration and those of the command line, and
every other entry is decided by one of the two sources. -/
theorem plan_exact (options : Options) (config : Config) (least : 1 ≤ workers)
    (most : workers ≤ maxWorkers) :
    ((∃ plan, make options workers config = .ok plan) ↔
      ∀ name, options.format.or config.defaults.format = some name →
        ∃ format : Format, format.IsNamed name) ∧
    (∀ unknown, make options workers config = .error unknown ↔
      options.format.or config.defaults.format = some unknown.name ∧
        ∀ format : Format, ¬ format.IsNamed unknown.name) ∧
    (∀ name (format : Format), options.format = some name → format.IsNamed name →
      ∃ plan, make options workers config = .ok plan) ∧
    ∀ plan, make options workers config = .ok plan ↔ Merges options workers config plan := by
  refine ⟨exists_make_iff, fun _ => make_eq_error_iff, ?_, fun _ => make_eq_ok_iff least most⟩
  intro name format given isNamed
  refine exists_make_iff.2 fun other decides => ⟨format, ?_⟩
  rw [given, Option.some_or] at decides
  cases decides
  exact isNamed

/-! ### Two sources that disagree -/

/-- What a command line says against `clashConfig`. -/
def clashOptions : Options where
  format := some "JSON"
  ignore := [" gen/** ", " ", "own/**", "gen/**"]
  top := some 0
  checkOutdated := true

/-- A configuration with a format that there is not. -/
def clashConfig : Config where
  exclude := { paths := ["own/**", " gen/**", "own/**"], skipDefaults := true }
  defaults := { format := some "pdf", top := some 3, todoTop := some 4, workers := some 100 }

/-- The plan for both. -/
def clashPlan : Plan where
  format := .json
  top := 0
  todoTop := 4
  workers := 64
  noGit := false
  checkOutdated := true
  discovery := ⟨["own/**", " gen/**", "gen/**"], []⟩

/-- Both sources together give a plan, in which the standard number of workers gives way; without the
command line the format of the configuration decides, and there is no plan. -/
theorem plan_exact_clash :
    Merges clashOptions standardWorkers clashConfig clashPlan ∧
      make {} standardWorkers clashConfig = .error ⟨"pdf"⟩ := by
  have least : 1 ≤ standardWorkers := by decide
  have most : standardWorkers ≤ maxWorkers := by decide
  refine ⟨((plan_exact clashOptions clashConfig least most).2.2.2 clashPlan).1 rfl,
    ((plan_exact {} clashConfig least most).2.1 ⟨"pdf"⟩).2 ⟨rfl, fun format => ?_⟩⟩
  cases format <;> decide

end Plan

end Analysis

end CodeCensus
