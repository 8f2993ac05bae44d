import CodeCensus.CommandLine.Parser
import CodeCensus.Proofs.CommandLine.Settings
import Mathlib.Data.List.Nodup

/-!
# Command lines for settings

A command line for some settings has an argument for each parameter that is set (`Settings.argument`), in
any order, and then the path.  The parameters of all commands may stand in front of the word for the
command.  Such a command line is read as the settings that it is written for (`parse_arguments`).

An argument is never waited for, since each value stands in the argument of its parameter; and since no
parameter is written twice, none is refused for having a value already.
-/

namespace CodeCensus.CommandLine

variable {stage : Level} {settings : Settings} {read parameters : List Parameter} {parameter : Parameter}
  {name value path : String}

namespace Reading

/-! ### Kinds of arguments -/

/-- Behind two dashes stands a name, and the value behind the first equals sign. -/
theorem shapeOf_of_dashes {argument : String} {cs : List Char} (nonempty : cs ≠ [])
    (dashes : argument.toList = '-' :: '-' :: cs) :
    shapeOf argument = .long (String.ofList (cs.takeWhile (· != '=')))
      ((cs.dropWhile (· != '=')).tail?.map String.ofList) := by
  unfold shapeOf
  rw [dashes]
  cases cs with
  | nil => exact absurd rfl nonempty
  | cons c cs =>
    simp only
    cases (c :: cs).dropWhile (· != '=') <;> rfl

theorem bne_of_noEquals (noEquals : '=' ∉ name.toList) : ∀ c ∈ name.toList, (c != '=') = true := by
  intro c mem
  rw [bne_iff_ne]
  rintro rfl
  exact noEquals mem

/-- A name with a value ends at the first equals sign. -/
theorem shapeOf_valued (noEquals : '=' ∉ name.toList) (value : String) :
    shapeOf ("--" ++ name ++ "=" ++ value) = .long name (some value) := by
  have hlist : ("--" ++ name ++ "=" ++ value).toList =
      '-' :: '-' :: (name.toList ++ '=' :: value.toList) := by
    simp
  rw [shapeOf_of_dashes (by simp) hlist, List.takeWhile_append_of_pos (bne_of_noEquals noEquals),
    List.dropWhile_append_of_pos (bne_of_noEquals noEquals)]
  simp

/-- A name behind two dashes, without a value, is taken as it is. -/
theorem shapeOf_bare (nonempty : name ≠ "") (noEquals : '=' ∉ name.toList) :
    shapeOf ("--" ++ name) = .long name none := by
  have hlist : ("--" ++ name).toList = '-' :: '-' :: name.toList := by simp
  rw [shapeOf_of_dashes (by simpa using nonempty) hlist,
    List.takeWhile_eq_self_iff.2 (bne_of_noEquals noEquals),
    List.dropWhile_eq_nil_iff.2 (bne_of_noEquals noEquals)]
  simp

/-- What does not begin with a dash is a word. -/
theorem shapeOf_word (noDash : path.toList.head? ≠ some '-') : shapeOf path = .word := by
  unfold shapeOf
  split
  · next same => simp [same] at noDash
  · next same => simp [same] at noDash
  · next same => simp [same] at noDash
  · rfl

end Reading

/-! ### Arguments for settings -/

namespace Settings

/-- Whether a parameter is given. -/
def isSet (settings : Settings) (parameter : Parameter) : Bool :=
  (settings.written? parameter).isSome || settings.isOn parameter

/-- The argument that gives a parameter, by its name. -/
def argument (settings : Settings) (parameter : Parameter) : String :=
  match settings.written? parameter with
  | some value => "--" ++ parameter.long?.getD "" ++ "=" ++ value
  | none => "--" ++ parameter.long?.getD ""

/-- The parameters of an analysis that are given by name. -/
def named (settings : Settings) : List Parameter :=
  Level.analyze.parameters.filter settings.isSet

/-- A parameter that is set is known by its name, which has no equals sign in it. -/
theorem exists_name (mem : parameter ∈ stage.parameters) :
    ∃ name, parameter.long? = some name ∧ name ≠ "" ∧ '=' ∉ name.toList ∧
      stage.long? name = some parameter := by
  have hnames : ∀ parameter ∈ stage.parameters,
      ∃ name ∈ parameter.long?, name ≠ "" ∧ '=' ∉ name.toList ∧ stage.long? name = some parameter := by
    cases stage <;> decide
  exact hnames parameter mem

/-- A parameter that is written with a value takes one. -/
theorem exists_value?_of_written? (written : settings.written? parameter = some value) :
    ∃ placeholder, parameter.value? = some placeholder := by
  cases parameter <;> first | exact ⟨_, rfl⟩ | cases written

/-- A parameter that is only switched on takes no value. -/
theorem value?_of_isOn (on : settings.isOn parameter) : parameter.value? = none := by
  cases parameter <;> first | rfl | cases on

/-- The argument of one more parameter is read. -/
theorem long_argument (writable : settings.IsWritable) (mem : parameter ∈ stage.parameters)
    (set : settings.isSet parameter) (unread : parameter ∉ read) :
    ∃ name value?, Reading.shapeOf (settings.argument parameter) = .long name value? ∧
      Reading.long stage { settings := settings.restrict read } name value? =
        .ok { settings := settings.restrict (parameter :: read) } := by
  obtain ⟨name, hname, nonempty, noEquals, hlong⟩ := exists_name mem
  rw [argument, hname]
  cases written : settings.written? parameter with
  | some value =>
    obtain ⟨placeholder, hvalue⟩ := exists_value?_of_written? written
    have hgive := give_restrict writable unread written
    refine ⟨name, some value, Reading.shapeOf_valued noEquals value, ?_⟩
    rw [Reading.long, hlong]
    simp only [hvalue, Reading.attach, Reading.settle, hgive, bind, Except.bind, pure, Except.pure]
  | none =>
    have on : settings.isOn parameter := by simpa [isSet, written] using set
    have hswitch := switch_restrict unread on
    refine ⟨name, none, Reading.shapeOf_bare nonempty noEquals, ?_⟩
    rw [Reading.long, hlong]
    simp only [value?_of_isOn on, Reading.switch, Reading.settle, hswitch, bind, Except.bind, pure,
      Except.pure]

/-- An argument that begins with a dash is not the name of a command. -/
theorem lookup_argument : commands.lookup (settings.argument parameter) = none := by
  have hdash : (settings.argument parameter).toList.head? = some '-' := by
    rw [argument]
    split <;> simp
  have hcommands : ∀ entry ∈ commands, entry.1.toList.head? ≠ some '-' := by decide
  rw [List.lookup_eq_none_iff]
  intro entry mem
  rw [bne_iff_ne]
  intro same
  exact hcommands entry mem (same ▸ hdash)

/-! ### Reading them one by one -/

/-- Of the arguments behind the command, the first one is read, and then the others with what it has set. -/
theorem level_argument (writable : settings.IsWritable) (mem : parameter ∈ stage.parameters)
    (set : settings.isSet parameter) (unread : parameter ∉ read) (rest : List String) :
    Reading.level stage { settings := settings.restrict read } (settings.argument parameter :: rest) =
      Reading.level stage { settings := settings.restrict (parameter :: read) } rest := by
  obtain ⟨name, value?, hshape, hlong⟩ := long_argument writable mem set unread
  rw [Reading.level, hshape]
  simp only [hlong, bind, Except.bind]

/-- Of the arguments in front of the command, the first one is read in the same way. -/
theorem front_argument (writable : settings.IsWritable) (mem : parameter ∈ Level.top.parameters)
    (set : settings.isSet parameter) (unread : parameter ∉ read) (rest : List String) :
    front { settings := settings.restrict read } (settings.argument parameter :: rest) =
      front { settings := settings.restrict (parameter :: read) } rest := by
  obtain ⟨name, value?, hshape, hlong⟩ := long_argument writable mem set unread
  rw [front]
  simp only [Reading.isWaiting, Bool.false_eq_true, if_false, lookup_argument, hshape, hlong, bind,
    Except.bind]

/-- What reads the argument of any parameter reads the arguments of all, whatever their order. -/
theorem read_arguments {α : Type} {reader : Reading → List String → α}
    (step : ∀ parameter ∈ parameters, ∀ read, parameter ∉ read → ∀ rest,
      reader { settings := settings.restrict read } (settings.argument parameter :: rest) =
        reader { settings := settings.restrict (parameter :: read) } rest)
    (nodup : parameters.Nodup) (rest : List String) :
    reader {} (parameters.map settings.argument ++ rest) =
      reader { settings := settings.restrict parameters } rest := by
  have hread : ∀ read, (parameters ++ read).Nodup →
      reader { settings := settings.restrict read } (parameters.map settings.argument ++ rest) =
        reader { settings := settings.restrict (parameters ++ read) } rest := by
    induction parameters with
    | nil => exact fun _ _ => rfl
    | cons parameter parameters ih =>
      intro read unread
      have hmoved : (parameters ++ parameter :: read).Perm (parameter :: (parameters ++ read)) :=
        List.perm_middle
      obtain ⟨notMem, _⟩ := List.nodup_cons.1 unread
      rw [List.map_cons, List.cons_append, step parameter List.mem_cons_self read fun inRead =>
        notMem (List.mem_append_right _ inRead)]
      rw [ih (fun other inRest => step other (List.mem_cons_of_mem _ inRest)) nodup.of_cons
        (parameter :: read) (hmoved.nodup_iff.2 unread), restrict_congr fun _ => hmoved.mem_iff,
        List.cons_append]
  have hall := hread [] (by rwa [List.append_nil])
  rwa [List.append_nil, restrict_nil] at hall

/-- The path is read behind the arguments of parameters. -/
theorem level_path (writable : settings.IsWritable) (hpath : settings.path = some path)
    (noDash : path.toList.head? ≠ some '-') (unread : .path ∉ read) :
    Reading.level stage { settings := settings.restrict read } [path] =
      .ok { settings := settings.restrict (.path :: read), hasPath := true } := by
  have hwritten : settings.written? .path = some path := hpath
  have hgive := give_restrict writable unread hwritten
  rw [Reading.level, Reading.shapeOf_word noDash]
  simp only [Reading.isWaiting, Bool.false_eq_true, if_false, Reading.place, Reading.settle, bind,
    Except.bind, pure, Except.pure]
  rw [Reading.level, Reading.settle]
  simp only [hgive, bind, Except.bind, pure, Except.pure]

/-! ### Settings that have been read -/

/-- The parameters to be given by name are those of an analysis that are set. -/
theorem mem_named_iff : parameter ∈ settings.named ↔
    parameter ∈ Level.analyze.parameters ∧ settings.isSet parameter :=
  List.mem_filter

theorem nodup_named : settings.named.Nodup := by
  have hparameters : Level.analyze.parameters.Nodup := by decide
  exact hparameters.filter _

/-- Only the path is not given by name. -/
theorem mem_named_of_isSet (set : settings.isSet parameter) (notPath : parameter ≠ .path) :
    parameter ∈ settings.named := by
  refine mem_named_iff.2 ⟨?_, set⟩
  cases parameter <;> first | exact absurd rfl notPath | cases set | decide

/-- All that is set is the path, or it is given by name in front of the command or behind it. -/
theorem mem_of_isSet {before behind : List Parameter} (given : (before ++ behind).Perm settings.named)
    (set : settings.isSet parameter) : parameter ∈ before ∨ parameter ∈ Parameter.path :: behind := by
  by_cases isPath : parameter = .path
  · exact .inr (isPath ▸ List.mem_cons_self)
  · rcases List.mem_append.1 (given.mem_iff.2 (mem_named_of_isSet set isPath)) with inFront | inBack
    · exact .inl inFront
    · exact .inr (List.mem_cons_of_mem _ inBack)

/-- The options of an analysis have been read if all of their parameters have been. -/
theorem restrict_options
    (complete : ∀ parameter, settings.isSet parameter → parameter ∉ Level.top.parameters →
      parameter ∈ read) :
    (settings.restrict read).options = settings.options := by
  have hcomplete : ∀ {α : Type} {value standard : α} {parameter : Parameter},
      parameter ∉ Level.top.parameters → (value ≠ standard → settings.isSet parameter) →
      (if parameter ∈ read then value else standard) = value := by
    intro α value standard parameter notGeneral set
    refine ite_eq_left_iff.2 fun unread => ?_
    by_contra different
    exact unread (complete parameter (set fun same => different same.symm) notGeneral)
  rcases hoptions : settings.options with
    ⟨format, output, ignore, languages, top, todoTop, noGit, checkOutdated⟩
  simp only [restrict, hoptions, Analysis.Options.mk.injEq]
  refine ⟨?_, ?_, ?_, ?_, ?_, ?_, ?_, ?_⟩
  all_goals
    refine hcomplete (by decide) ?_
    simp [isSet, written?, isOn, listText?, hoptions, Option.isSome_iff_ne_none]

/-- Nothing is lost if some parameters are read in front of a command, and all others behind it. -/
theorem invocation_restrict {command : Option Command}
    (complete : ∀ parameter, settings.isSet parameter → parameter ∈ read ∨ parameter ∈ parameters) :
    invocation (settings.restrict read) (settings.restrict parameters) command =
      invocation settings {} command := by
  have hcomplete : ∀ {α : Type} {value : Option α} {parameter : Parameter},
      (value ≠ none → settings.isSet parameter) →
      ((if parameter ∈ parameters then value else none) <|>
        if parameter ∈ read then value else none) = value := by
    intro α value parameter set
    cases value with
    | none => simp
    | some value =>
      rcases complete parameter (set nofun) with inFront | behind
      · by_cases inBoth : parameter ∈ parameters <;> simp [inFront, inBoth]
      · simp [behind]
  simp only [invocation, restrict]
  rw [hcomplete, hcomplete, hcomplete]
  · rfl
  all_goals simp [isSet, written?, isOn, Option.isSome_iff_ne_none]

end Settings

/-- **Command lines are read as the settings that they are written for.**  The arguments of the parameters
may come in any order, those of the parameters for all commands also in front of the word for the
command. -/
theorem parse_arguments {settings : Settings} {path : String} {before behind : List Parameter}
    (writable : settings.IsWritable) (hpath : settings.path = some path)
    (noDash : path.toList.head? ≠ some '-') (given : (before ++ behind).Perm settings.named)
    (general : ∀ parameter ∈ before, parameter ∈ [Parameter.logLevel, .workers]) :
    parse (before.map settings.argument ++ "analyze" :: (behind.map settings.argument ++ [path])) =
      .ok
        { path
          logLevel := settings.logLevel.getD .warn
          workers := settings.workers.getD Analysis.standardWorkers
          command := some (.analyze settings.options) } := by
  have hset : ∀ parameter ∈ before ++ behind,
      parameter ∈ Level.analyze.parameters ∧ settings.isSet parameter :=
    fun parameter mem => Settings.mem_named_iff.1 (given.mem_iff.1 mem)
  obtain ⟨nodupBefore, nodupBehind, _⟩ := List.nodup_append.1 (given.nodup_iff.2 Settings.nodup_named)
  have hgeneral : ∀ parameter ∈ before, parameter ∈ Level.top.parameters ∧ settings.isSet parameter := by
    have hnames : ∀ parameter ∈ [Parameter.logLevel, .workers], parameter ∈ Level.top.parameters := by
      decide
    intro parameter mem
    exact ⟨hnames parameter (general parameter mem), (hset parameter (List.mem_append_left _ mem)).2⟩
  have hpathUnread : .path ∉ behind := by
    intro mem
    exact absurd (hset .path (List.mem_append_right _ mem)).1 (by decide)
  have hoptions : (settings.restrict (.path :: behind)).options = settings.options := by
    refine Settings.restrict_options fun parameter set notGeneral => ?_
    rcases Settings.mem_of_isSet given set with inFront | inBack
    · exact absurd (hgeneral parameter inFront).1 notGeneral
    · exact inBack
  have hlevel : Reading.level .analyze {} (behind.map settings.argument ++ [path]) =
      .ok { settings := settings.restrict (.path :: behind), hasPath := true } := by
    refine (Settings.read_arguments ?_ nodupBehind [path]).trans
      (Settings.level_path writable hpath noDash hpathUnread)
    intro parameter mem read unread rest
    obtain ⟨known, set⟩ := hset parameter (List.mem_append_right _ mem)
    exact Settings.level_argument writable known set unread rest
  have hfront (rest : List String) : front {} (before.map settings.argument ++ rest) =
      front { settings := settings.restrict before } rest := by
    refine Settings.read_arguments ?_ nodupBefore rest
    intro parameter mem read unread rest
    obtain ⟨known, set⟩ := hgeneral parameter mem
    exact Settings.front_argument writable known set unread rest
  have hinvocation : invocation (settings.restrict before) (settings.restrict (.path :: behind))
      (some (.analyze settings.options)) = invocation settings {} (some (.analyze settings.options)) :=
    Settings.invocation_restrict fun _ set => Settings.mem_of_isSet given set
  have hanalyze : commands.lookup "analyze" = some (some Level.analyze) := by decide
  rw [parse, hfront, front]
  simp only [Reading.isWaiting, Bool.false_eq_true, if_false, hanalyze, hlevel, Reading.settle, bind,
    Except.bind, pure, Except.pure, commandOf, hoptions, hinvocation]
  simp [invocation, hpath]

/-! ### Some parameters on either side of the command -/

/-- Settings in which a value has an equals sign and another one a comma. -/
def mixedSettings : Settings where
  path := some "src"
  logLevel := some .debug
  workers := some 64
  options :=
    { format := some "json"
      output := some "--out=r.json"
      ignore := ["*.md", "a=b"]
      top := some 0
      noGit := true }

/-- Values may have equals signs and dashes in them. -/
theorem isWritable_mixed : mixedSettings.IsWritable := by
  constructor <;> simp [mixedSettings] <;> decide

/-- A path, lists and numbers are read from an order in which parameters of both levels are mixed. -/
theorem parse_arguments_mixed :
    parse ["--workers=64", "analyze", "--no-git", "--ignore=*.md,a=b", "--output=--out=r.json",
        "--log-level=debug", "--top=0", "--format=json", "src"] =
      .ok
        { path := "src"
          logLevel := .debug
          workers := 64
          command := some (.analyze mixedSettings.options) } := by
  have given : ([Parameter.workers] ++ [Parameter.noGit, .ignore, .output, .logLevel, .top, .format]).Perm
      mixedSettings.named := by decide
  have hparse := parse_arguments isWritable_mixed rfl (by decide) given (by decide)
  exact hparse

end CodeCensus.CommandLine
