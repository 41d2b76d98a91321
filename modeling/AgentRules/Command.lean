import AgentRules.Page.Data
import AgentRules.Page.Markdown
import AgentRules.Settings.File
import AgentRules.Text.Integer
import AgentRules.Text.Terminal

/-!
# Commands

A command line names a command, a project and options. Running it gives what is printed, what is
noted, how it ends, and the files as they stand then.
-/

namespace AgentRules

/-! ## Command lines -/

structure Arguments where
  project : Option String := none
  format : Option String := none
  config : Option String := none
  gaps : List String := []
  failBelow : Option String := none
  budget : Option String := none
  trial : Bool := false
  divide : Bool := true
  deriving DecidableEq, Repr

structure Options where
  project : Path := ⟨.here, []⟩
  format : Option String := none
  config : Option Path := none
  gaps : List String := []
  failBelow : Option Int := none
  trial : Bool := false
  divide : Bool := true
  budget : Int := 1500
  deriving DecidableEq, Repr

inductive Command
  | lint
  | score
  | review
  | mend
  | listChecks
  deriving DecidableEq, Repr

inductive Request
  | tellVersion
  | perform (verbose : Bool) (command : Command) (options : Options)
  deriving Repr

namespace Command

def ofName? : String → Option Command
  | "lint" => some lint
  | "doctor" => some score
  | "audit" => some review
  | "fix" => some mend
  | "checks" => some listChecks
  | _ => none

def valued : Command → List String
  | lint => ["--format", "--config"]
  | score => ["--format", "--config", "--coverage-gap", "--fail-below"]
  | review => ["--format", "--config", "--coverage-gap"]
  | mend => ["--format", "--max-tokens"]
  | listChecks => ["--format", "--config"]

end Command

inductive UsageFault
  | noCommand
  | unknownCommand (name : String)
  | unknownOption (name : String)
  | missingValue (name : String)
  | badNumber (name value : String)
  | extraArgument (value : String)
  | nullName
  deriving DecidableEq, Repr

def UsageFault.message : UsageFault → String
  | noCommand => "Missing command."
  | unknownCommand name => s!"No such command '{name}'."
  | unknownOption name => s!"No such option: {name}"
  | missingValue name => s!"Option '{name}' requires an argument."
  | badNumber name value => s!"Invalid value for '{name}': '{value}' is not a valid integer."
  | extraArgument value => s!"Got unexpected extra argument ({value})"
  | nullName => "embedded null byte"

namespace Arguments

/-- Takes the value of an option that the command knows. The latest value counts, but gaps are
added up. -/
def set (command : Command) (a : Arguments) (name value : String) : Except UsageFault Arguments :=
  if !command.valued.contains name then .error (.unknownOption name)
  else match name with
    | "--format" => .ok { a with format := some value }
    | "--config" => .ok { a with config := some value }
    | "--coverage-gap" => .ok { a with gaps := a.gaps ++ [value] }
    | "--fail-below" => .ok { a with failBelow := some value }
    | _ => .ok { a with budget := some value }

def setFlag? (command : Command) (a : Arguments) (name : String) : Option Arguments :=
  match command, name with
  | .mend, "--dry-run" => some { a with trial := true }
  | .mend, "--split" => some { a with divide := true }
  | .mend, "--no-split" => some { a with divide := false }
  | _, _ => none

def setProject (a : Arguments) (value : String) : Except UsageFault Arguments :=
  if a.project.isSome then .error (.extraArgument value) else .ok { a with project := some value }

def isOption (arg : String) : Bool := arg.startsWith "-" && arg != "-"

/-- **Reading the arguments after a command.** Two dashes say that no more options come. The value
of an option stands after an equals sign or is the next argument, whatever that is. -/
def read (command : Command) : Arguments → List String → Except UsageFault Arguments
  | a, [] => .ok a
  | a, arg :: args =>
    if arg = "--" then args.foldlM setProject a
    else if !isOption arg then (a.setProject arg).bind fun a => read command a args
    else match a.setFlag? command arg, Text.cut? '=' arg.toList with
      | some a, _ => read command a args
      | none, some (name, value) =>
        (a.set command (String.ofList name) (String.ofList value)).bind fun a => read command a args
      | none, none => match args with
        | [] => .error (if command.valued.contains arg then .missingValue arg else .unknownOption arg)
        | value :: args => (a.set command arg value).bind fun a => read command a args

end Arguments

namespace Options

def number? (name : String) : Option String → Except UsageFault (Option Int)
  | none => .ok none
  | some value => match Text.int? value.toList with
    | some n => .ok (some n)
    | none => .error (.badNumber name value)

def path? : Option String → Except UsageFault (Option Path)
  | none => .ok none
  | some value =>
    if (Path.ofString value).hasNull then .error .nullName else .ok (some (Path.ofString value))

def ofArguments (a : Arguments) : Except UsageFault Options := do
  let project ← path? a.project
  let config ← path? a.config
  let failBelow ← number? "--fail-below" a.failBelow
  let budget ← number? "--max-tokens" a.budget
  return {
    project := project.getD ⟨.here, []⟩, format := a.format, config, gaps := a.gaps, failBelow,
    trial := a.trial, divide := a.divide, budget := budget.getD 1500 }

end Options

def Request.ofCommand (verbose : Bool) : List String → Except UsageFault Request
  | [] => .error .noCommand
  | name :: args => match Command.ofName? name with
    | some command =>
      ((Arguments.read command {} args).bind Options.ofArguments).map (.perform verbose command)
    | none => .error (.unknownCommand name)

/-- **Reading a command line.** Two dashes say that no more options come before the command. -/
def Request.ofArguments (verbose : Bool) : List String → Except UsageFault Request
  | [] => .error .noCommand
  | arg :: args =>
    if arg = "--version" then .ok .tellVersion
    else if arg = "--verbose" then ofArguments true args
    else if arg = "--" then ofCommand verbose args
    else if Arguments.isOption arg then .error (.unknownOption arg)
    else ofCommand verbose (arg :: args)

/-! ## Files -/

/-- A place that a run looks at, and how many directories deep it looks below it. -/
structure Sight where
  place : Place
  depth : Nat
  deriving DecidableEq, Repr

def Options.sights (cwd : Place) (o : Options) : List Sight :=
  let dir := o.project.resolve cwd
  let config := match o.config with
    | some c => ((Path.ofPlace dir).append c).visited cwd
    | none => (Settings.ownNames ++ [Settings.sharedName]).map fun name => dir ++ [name]
  (o.project.visited cwd ++ config ++ [dir ++ [Project.legacyName]]).map (⟨·, 0⟩) ++
    [⟨dir ++ Project.rulesNames, 1⟩] ++ Project.skillNames.map fun names => ⟨dir ++ names, 2⟩

def Request.sights (cwd : Place) (args : List String) : List Sight :=
  match ofArguments false args with
  | .ok (.perform _ _ o) => o.sights cwd
  | _ => []

/-! ## Running -/

/-- A value that an option or the settings may not have, and the option that is to blame. -/
structure Refusal where
  hint : String
  message : String
  deriving DecidableEq, Repr

/-- How a run ends: with an exit code, refused, or stopped. -/
inductive Ending
  | exit (code : Nat)
  | refused (r : Refusal)
  | usage (f : UsageFault)
  | settings (f : Settings.Fault)
  | report (f : Report.Fault)
  | file (f : FileFault)
  deriving DecidableEq, Repr

/-- The exit code of a run; one that is stopped by what it finds ends like a failed one. -/
def Ending.code : Ending → Nat
  | exit code => code
  | refused _ => 2
  | usage _ => 2
  | _ => 1

def Ending.message? : Ending → Option String
  | exit _ => none
  | refused r => some s!"Invalid value for {r.hint}: {r.message}"
  | usage f => some f.message
  | settings f => some f.message
  | report f => some f.message
  | file f => some f.message

structure Outcome where
  tree : Tree
  printed : List String := []
  events : List Event := []
  ending : Ending := .exit 0

/-- What is printed, each page with a line feed of its own. Control sequences are for a terminal
only. -/
def Outcome.output (o : Outcome) (terminal : Bool) : String :=
  let text := String.join (o.printed.map (· ++ "\n"))
  if terminal then text else String.ofList (Text.withoutSequences 0 text.toList)

def Outcome.notes (o : Outcome) : String := String.join (o.events.map (·.line ++ "\n"))

namespace Command

/-- Settings that cannot be used are refused as a value of the option that names their file. A path
that cannot be used as a file, a number that is out of range, and values that lie too deep stop the
run. -/
def settingsEnding (f : Settings.Fault) : Ending :=
  match f with
  | .file f => .file f
  | .tooLarge => .settings f
  | .deepNesting => .settings f
  | .deepText => .settings f
  | _ => .refused ⟨"config", f.message⟩

def loadSettings (w : Workspace) (o : Options) : Except Ending Settings :=
  (Settings.load w o.project o.config).mapError settingsEnding

def pageFormat (o : Options) (s : Settings) : Except Ending Format :=
  match o.format with
  | none => .ok s.format
  | some name =>
    if name.isEmpty then .ok s.format
    else match Format.ofText? name.toList with
      | some f => .ok f
      | none => .error (.refused ⟨"--format", "format must be one of: human, json, markdown"⟩)

def shortFormat (o : Options) : Except Ending Format :=
  match o.format with
  | none => .ok .human
  | some name => match Format.ofText? name.toList with
    | some .human => .ok .human
    | some .json => .ok .json
    | _ => .error (.refused ⟨"--format", "format must be one of: human, json"⟩)

def selectChecks (s : Settings) : Except Ending (List Check) :=
  s.selection.checks.mapError fun ids => .refused ⟨"config.checks", Selection.unknownMessage ids⟩

def prepare (w : Workspace) (o : Options) : Except Ending (Settings × Format × List Check) := do
  let s ← loadSettings w o
  let f ← pageFormat o s
  let cs ← selectChecks s
  return (s, f, cs)

def openProject (w : Workspace) (sought : Tree → Project → List (List String)) (o : Options) :
    Except Ending Project :=
  (Project.ofPath w sought o.project).mapError .file

def gapsOf (o : Options) : List Gap := o.gaps.map fun e => ⟨e, []⟩

def fails (on : FailOn) (s : Survey) : Bool :=
  match on with
  | .never => false
  | .warning => 0 < s.errors || 0 < s.warnings
  | .error => 0 < s.errors

def exitOn (fails : Bool) : Ending := .exit (if fails then 1 else 0)

def runLint (time : String) (w : Workspace) (o : Options) : Except Ending Outcome := do
  let (s, f, cs) ← prepare w o
  let p ← openProject w Project.documentsSought o
  let survey := Survey.ofProject s.limits cs w.tree p
  let text := match f with
    | .json => (survey.data time).text
    | .markdown => survey.markdown
    | .human => survey.plain
  return ⟨w.tree, [text], Survey.events w.tree p, exitOn (fails s.failOn survey)⟩

def reportEnding : Report.Refusal → Ending
  | .unknownChecks ids => .refused ⟨"config.checks", Selection.unknownMessage ids⟩
  | .fault f => .report f

/-- Scores a project. What the survey notes is kept if the search for skills cannot go on. -/
def runScore (time : String) (w : Workspace) (o : Options) : Except Ending Outcome := do
  let (s, f, _) ← prepare w o
  let p ← openProject w Project.documentsSought o
  let events := Report.events w.tree p
  match openProject w Project.skillsSought o with
  | .error ending => return ⟨w.tree, [], events, ending⟩
  | .ok p =>
    let report ← (Report.ofProject s (gapsOf o) w.tree p).mapError reportEnding
    let text := match f with
      | .json => (report.data time).text
      | .markdown => report.markdown
      | .human => report.plain
    let low := match o.failBelow with
      | some n => report.percentage < n
      | none => false
    return ⟨w.tree, [text], events, exitOn low⟩

def runReview (time : String) (w : Workspace) (o : Options) : Except Ending Outcome := do
  let (s, f, cs) ← prepare w o
  let p ← openProject w Project.documentsSought o
  let review := Review.ofSurvey s.likeness (gapsOf o) (Survey.ofProject s.limits cs w.tree p)
  let text := match f with
    | .json => (review.data time).text
    | .markdown => review.markdown
    | .human => review.plain
  return ⟨w.tree, [text], Review.events w.tree p, .exit 0⟩

def runMend (w : Workspace) (o : Options) : Except Ending Outcome := do
  let f ← shortFormat o
  if o.budget ≤ 0 then throw (.refused ⟨"--max-tokens", "--max-tokens must be > 0"⟩)
  let p ← openProject w Project.rulesSought o
  match Mending.run ⟨o.trial, o.divide, o.budget⟩ w.tree p with
  | .error stop => return ⟨stop.run.tree, [], stop.run.events, .file stop.fault⟩
  | .ok run =>
    let text := match f with
      | .json => (run.done.data o.trial).text
      | _ => run.done.plain o.trial
    return ⟨run.tree, [text], run.events, .exit 0⟩

def runListChecks (w : Workspace) (o : Options) : Except Ending Outcome := do
  let f ← shortFormat o
  let s ← loadSettings w o
  let cs ← selectChecks s
  let lines := match f with
    | .json => [(Check.listData cs (s.source.map (·.text))).text]
    | _ => Check.all.map fun c => c.plain (cs.contains c)
  return ⟨w.tree, lines, [], .exit 0⟩

/-- **Running a command.** Nothing is changed and nothing is printed if it is refused. -/
def run (time : String) (w : Workspace) (c : Command) (o : Options) : Outcome :=
  let result := match c with
    | lint => runLint time w o
    | score => runScore time w o
    | review => runReview time w o
    | mend => runMend w o
    | listChecks => runListChecks w o
  match result with
  | .ok outcome => outcome
  | .error ending => { tree := w.tree, ending }

end Command

/-- **Running a command line.** Events are kept only if they are asked for. -/
def Request.run (time : String) (w : Workspace) (args : List String) : Outcome :=
  match Request.ofArguments false args with
  | .error f => { tree := w.tree, ending := .usage f }
  | .ok .tellVersion => { tree := w.tree, printed := [version] }
  | .ok (.perform verbose command options) =>
    let outcome := command.run time w options
    if verbose then outcome else { outcome with events := [] }

end AgentRules
