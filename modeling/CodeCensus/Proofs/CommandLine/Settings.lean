import CodeCensus.CommandLine.Settings
import CodeCensus.Proofs.Digits

/-!
# Giving settings one by one

Settings are written as a text for each parameter that has a value (`Settings.written?`), and read from
these texts one by one.  What has been read by then is not defined by reading: it is the settings without
what parameters say that have not been read (`Settings.restrict`).  One more parameter takes what has been
read before to what has been read with it (`Settings.give_restrict`, `Settings.switch_restrict`), whichever
parameters came before, so the order in which the parameters come makes no difference.
-/

namespace CodeCensus.CommandLine

/-! ### Numbers and lists -/

/-- More digits do not make a number smaller. -/
theorem le_ofDigitChars (cs : List Char) (n : Nat) : n ≤ Nat.ofDigitChars 10 cs n := by
  have hpos : 0 < 10 ^ cs.length := Nat.pow_pos (by decide)
  rw [Nat.ofDigitChars_eq_ofDigitChars_zero]
  exact (Nat.le_mul_of_pos_left n hpos).trans (Nat.le_add_right _ _)

/-- Digits are read as the number that they stand for, unless it is too large. -/
theorem digits_eq_ok {cs : List Char} (areDigits : ∀ c ∈ cs, c.isDigit) {n : Nat}
    (small : Nat.ofDigitChars 10 cs n < numberBound) : digits n cs = .ok (Nat.ofDigitChars 10 cs n) := by
  induction cs generalizing n with
  | nil => rfl
  | cons c cs ih =>
    have hdigit : c.isDigit := areDigits c List.mem_cons_self
    rw [Nat.ofDigitChars_cons, Nat.mul_comm] at small ⊢
    have hnext : n * 10 + (c.toNat - '0'.toNat) < numberBound :=
      (le_ofDigitChars cs _).trans_lt small
    rw [digits, if_pos hdigit]
    simp only [if_pos hnext]
    exact ih (fun d mem => areDigits d (List.mem_cons_of_mem c mem)) small

/-- A number is read from its digits. -/
theorem number_repr {n : Nat} (small : n < numberBound) : number n.repr = .ok n := by
  have hdigits : ∀ c ∈ Nat.toDigits 10 n, c.isDigit := fun c mem => isDigit_of_mem_toDigits mem
  have hread : digits 0 (Nat.toDigits 10 n) = .ok n := by
    rw [digits_eq_ok hdigits] <;> rw [Nat.ofDigitChars_ten_toDigits]
    exact small
  rw [number, Nat.toList_repr]
  obtain ⟨first, rest, hcons⟩ := List.exists_cons_of_ne_nil (Nat.toDigits_ne_nil (b := 10) (n := n))
  have hfirst : first ≠ '+' := by
    refine ne_of_isDigit (hdigits first ?_) rfl
    rw [hcons]
    exact List.mem_cons_self
  rw [hcons] at hread ⊢
  split
  · next none => cases none
  · next plus => exact absurd (List.cons.inj plus).1 hfirst
  · next plus => exact absurd (List.cons.inj plus).1 hfirst
  · exact hread

/-- A list is read from its items with commas between them. -/
theorem items_intercalate {list : List String} (some : list ≠ [])
    (noComma : ∀ item ∈ list, ',' ∉ item.toList) : items (",".intercalate list) = list := by
  have hsplit : (List.intercalate [','] (list.map String.toList)).splitOn ',' =
      list.map String.toList := by
    refine List.splitOn_intercalate _ ?_ (by simpa using some)
    intro part mem
    obtain ⟨item, hitem, rfl⟩ := List.mem_map.1 mem
    exact noComma item hitem
  have hcomma : ",".toList = [','] := rfl
  rw [items, String.toList_intercalate, hcomma, hsplit, List.map_map]
  simp

/-! ### Writing settings -/

/-- A list as the value of a parameter, if there is anything in it. -/
def listText? (list : List String) : Option String :=
  if list = [] then none else some (",".intercalate list)

namespace Settings

/-- The value of a parameter as it is written, if it has one. -/
def written? (settings : Settings) : Parameter → Option String
  | .path => settings.path
  | .logLevel => settings.logLevel.map LogLevel.name
  | .workers => settings.workers.map Nat.repr
  | .format => settings.options.format
  | .output => settings.options.output
  | .ignore => listText? settings.options.ignore
  | .lang => listText? settings.options.languages
  | .top => settings.options.top.map Nat.repr
  | .todoTop => settings.options.todoTop.map Nat.repr
  | .noGit | .checkOutdated | .help | .version => none

/-- Whether a parameter that takes no value is given. -/
def isOn (settings : Settings) : Parameter → Bool
  | .noGit => settings.options.noGit
  | .checkOutdated => settings.options.checkOutdated
  | _ => false

/-- Whether all values of some settings can be written. -/
structure IsWritable (settings : Settings) : Prop where
  path : ∀ path, settings.path = some path → path ≠ ""
  workers : ∀ n, settings.workers = some n → 1 ≤ n ∧ n ≤ Analysis.maxWorkers
  format : ∀ name, settings.options.format = some name →
    name = Report.Format.text.name ∨ name = Report.Format.json.name
  output : ∀ target, settings.options.output = some target → target ≠ ""
  ignore : ∀ pattern ∈ settings.options.ignore, ',' ∉ pattern.toList
  languages : ∀ language ∈ settings.options.languages, ',' ∉ language.toList
  top : ∀ n, settings.options.top = some n → n < numberBound
  todoTop : ∀ n, settings.options.todoTop = some n → n < numberBound

/-! ### Reading settings -/

/-- The settings without the values of the parameters that have not been read. -/
def restrict (settings : Settings) (read : List Parameter) : Settings where
  path := if .path ∈ read then settings.path else none
  logLevel := if .logLevel ∈ read then settings.logLevel else none
  workers := if .workers ∈ read then settings.workers else none
  options :=
    { format := if .format ∈ read then settings.options.format else none
      output := if .output ∈ read then settings.options.output else none
      ignore := if .ignore ∈ read then settings.options.ignore else []
      languages := if .lang ∈ read then settings.options.languages else []
      top := if .top ∈ read then settings.options.top else none
      todoTop := if .todoTop ∈ read then settings.options.todoTop else none
      noGit := if .noGit ∈ read then settings.options.noGit else false
      checkOutdated := if .checkOutdated ∈ read then settings.options.checkOutdated else false }

variable {settings : Settings} {read other : List Parameter} {parameter : Parameter} {text : String}

theorem restrict_nil : settings.restrict [] = {} := rfl

/-- Where parameters stand in the list makes no difference. -/
theorem restrict_congr (same : ∀ parameter, parameter ∈ read ↔ parameter ∈ other) :
    settings.restrict read = settings.restrict other := by
  simp only [restrict, same]

/-- A parameter that was not given before takes its value. -/
theorem once_none {α : Type} (parameter : Parameter) (value : Except Rejection α) :
    once parameter none value = value := rfl

/-- A number that is written in digits is read, if it is one of the machine. -/
theorem readNumber_repr {n : Nat} (small : n < numberBound) : readNumber parameter n.repr = .ok n := by
  rw [readNumber, number_repr small]

/-- A number of workers within its bounds is read. -/
theorem readWorkers_repr {n : Nat} (positive : 1 ≤ n) (le : n ≤ Analysis.maxWorkers) :
    readWorkers n.repr = .ok n := by
  have hsmall : n < numberBound := le.trans_lt (by decide)
  have hpos : n ≠ 0 := by omega
  rw [readWorkers, number_repr hsmall]
  simp only [if_neg hpos, if_neg (Nat.not_lt.2 le)]

theorem readPath_of_ne (some : text ≠ "") : readPath parameter text = .ok text := by
  rw [readPath, if_neg (by simpa using some)]

/-- A level of logging is read from its name. -/
theorem readChoice_name (level : LogLevel) :
    readChoice parameter LogLevel.ofName? level.name = .ok level := by
  cases level <;> rfl

/-- The names of the two formats are among the choices. -/
theorem readChoice_format (known : text = Report.Format.text.name ∨ text = Report.Format.json.name) :
    readChoice parameter format? text = .ok text := by
  rcases known with rfl | rfl <;> rfl

/-- The items of a list that is written with commas are read back, if no item has a comma itself. -/
theorem items_of_listText? {list : List String} (noComma : ∀ item ∈ list, ',' ∉ item.toList)
    (written : listText? list = some text) : items text = list := by
  unfold listText? at written
  split at written
  · cases written
  · next some =>
    cases written
    exact items_intercalate some noComma

/-- One more option with a value is read. -/
theorem giveOption_restrict (writable : settings.IsWritable) (unread : parameter ∉ read)
    (written : settings.written? parameter = some text)
    (option : parameter ∉ [.path, .logLevel, .workers]) :
    giveOption (settings.restrict read).options parameter text =
      .ok (settings.restrict (parameter :: read)).options := by
  -- Each parameter has its own way of writing a value, which its reader undoes.
  cases parameter with
  | format =>
    have hvalue : settings.options.format = some text := written
    have hread : readChoice .format format? text = .ok text :=
      readChoice_format (writable.format text hvalue)
    simp [giveOption, restrict, unread, once_none, hvalue, hread, pure, Except.pure, bind, Except.bind]
  | output =>
    have hvalue : settings.options.output = some text := written
    have hread : readPath .output text = .ok text := readPath_of_ne (writable.output text hvalue)
    simp [giveOption, restrict, unread, once_none, hvalue, hread, pure, Except.pure, bind, Except.bind]
  | ignore =>
    have hread : items text = settings.options.ignore := items_of_listText? writable.ignore written
    simp [giveOption, restrict, unread, hread, pure, Except.pure]
  | lang =>
    have hread : items text = settings.options.languages :=
      items_of_listText? writable.languages written
    simp [giveOption, restrict, unread, hread, pure, Except.pure]
  | top =>
    obtain ⟨n, hvalue, rfl⟩ := Option.map_eq_some_iff.1 written
    have hread : readNumber .top n.repr = .ok n := readNumber_repr (writable.top n hvalue)
    simp [giveOption, restrict, unread, once_none, hvalue, hread, pure, Except.pure, bind, Except.bind]
  | todoTop =>
    obtain ⟨n, hvalue, rfl⟩ := Option.map_eq_some_iff.1 written
    have hread : readNumber .todoTop n.repr = .ok n := readNumber_repr (writable.todoTop n hvalue)
    simp [giveOption, restrict, unread, once_none, hvalue, hread, pure, Except.pure, bind, Except.bind]
  | path | logLevel | workers => simp at option
  | noGit | checkOutdated | help | version => cases written

/-- One more parameter with a value is read. -/
theorem give_restrict (writable : settings.IsWritable) (unread : parameter ∉ read)
    (written : settings.written? parameter = some text) :
    (settings.restrict read).give parameter text = .ok (settings.restrict (parameter :: read)) := by
  cases parameter with
  | path =>
    have hvalue : settings.path = some text := written
    have hread : readPath .path text = .ok text := readPath_of_ne (writable.path text hvalue)
    simp [give, restrict, unread, once_none, hvalue, hread, pure, Except.pure, bind, Except.bind]
  | logLevel =>
    obtain ⟨level, hvalue, rfl⟩ := Option.map_eq_some_iff.1 written
    simp [give, restrict, unread, once_none, hvalue, readChoice_name, pure, Except.pure, bind,
      Except.bind]
  | workers =>
    obtain ⟨n, hvalue, rfl⟩ := Option.map_eq_some_iff.1 written
    obtain ⟨positive, le⟩ := writable.workers n hvalue
    simp [give, restrict, unread, once_none, hvalue, readWorkers_repr positive le, pure, Except.pure,
      bind, Except.bind]
  | format | output | ignore | lang | top | todoTop =>
    have hoption := giveOption_restrict writable unread written (by decide)
    simp only [give, hoption, bind, Except.bind]
    simp [restrict, pure, Except.pure]
  | noGit | checkOutdated | help | version => cases written

/-- One more parameter without a value is read. -/
theorem switch_restrict (unread : parameter ∉ read) (on : settings.isOn parameter) :
    (settings.restrict read).switch parameter = .ok (settings.restrict (parameter :: read)) := by
  cases parameter with
  | noGit =>
    have hvalue : settings.options.noGit = true := on
    simp [switch, restrict, unread, hvalue]
  | checkOutdated =>
    have hvalue : settings.options.checkOutdated = true := on
    simp [switch, restrict, unread, hvalue]
  | _ => cases on

end Settings

end CodeCensus.CommandLine
