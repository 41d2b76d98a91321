import AgentRules.Settings
import AgentRules.Toml.Document
import AgentRules.Tree

/-!
# Settings files

Settings are read from a TOML file. It is the file that a user names, or the first of three files in
the project's directory. In a file of their own the settings stand in the tables named for the tool
or, if there are none, in the whole file; in the project file that tools share, only in the tables
named for the tool.
-/

namespace AgentRules.Settings

inductive Fault
  | nullName
  | missing (path : Path)
  | file (fault : FileFault)
  | undecodable (fault : Utf8.Fault)
  | malformed (path : Path)
  | longInteger (digits : Nat)
  | deepNesting
  | longText
  | deepText
  | notTable (field : String)
  | notStrings
  | notChoice (field : String) (names : List String)
  | notInteger (field : String)
  | notNumber (field : String)
  | tooLarge
  | warningRange
  | errorRange
  | thresholdRange
  | lengthRange
  deriving DecidableEq, Repr

/-- What is told of a fault. Of a malformed file only the path is told: the words in which a reader of
the format goes on to say what is wrong are left out. -/
def Fault.message : Fault → String
  | nullName => "embedded null byte"
  | missing path => s!"Config file does not exist: {path.text}"
  | file fault => fault.message
  | undecodable fault => fault.message
  | malformed path => s!"Invalid TOML in {path.text}"
  | longInteger digits =>
    s!"Exceeds the limit ({maxDigits} digits) for integer string conversion: value has {digits} digits; " ++
      "use sys.set_int_max_str_digits() to increase the limit"
  | deepNesting => "maximum recursion depth exceeded"
  | longText => longIntegerMessage
  | deepText => "maximum recursion depth exceeded while getting the repr of an object"
  | notTable field => s!"{field} must be a table/object"
  | notStrings => "Expected a list of strings"
  | notChoice field names => s!"{field} must be one of: " ++ ", ".intercalate names
  | notInteger field => s!"{field} must be an integer"
  | notNumber field => s!"{field} must be a number"
  | tooLarge => "int too large to convert to float"
  | warningRange => "lint.max_lines_warning must be > 0"
  | errorRange => "lint.max_lines_error must be greater than lint.max_lines_warning"
  | thresholdRange => "redundancy.threshold must be in (0, 1]"
  | lengthRange => "redundancy.min_line_length must be >= 0"

/-! ## Values -/

def table (field : String) : Option Toml → Except Fault Toml.Table
  | none => .ok []
  | some (.table ms) => .ok ms
  | some _ => .error (.notTable field)

def stringItems : List Toml → Except Fault (List String)
  | [] => .ok []
  | .string t :: vs => (stringItems vs).map (String.ofList t :: ·)
  | _ :: _ => .error .notStrings

def strings? : Option Toml → Except Fault (Option (List String))
  | none => .ok none
  | some (.array vs) => (stringItems vs).map some
  | some _ => .error .notStrings

def integer (field : String) (default : Int) : Option Toml → Except Fault Int
  | none => .ok default
  | some (.int n) => .ok n
  | some _ => .error (.notInteger field)

/-- A number; an integer that is out of range for the format is refused. -/
def number (field : String) (default : Binary64) : Option Toml → Except Fault Binary64
  | none => .ok default
  | some (.real x) => .ok x
  | some (.int n) => match Binary64.ofInt? n with
    | some x => .ok x
    | none => .error .tooLarge
  | some _ => .error (.notNumber field)

/-! ### Writing values out

A value that stands where a string belongs is written out before it is refused. Writing it goes
from the outside inwards and in the order of the members, and stops at the first integer that has
too many digits and at the first value that lies too deep.
-/

/-- How many values deep a value is written out. Settings have no such limit. It is one of the machine
that runs the reader, which allows a thousand calls in one another: so many are left of them where a
choice is read. -/
def textDepth : Nat := 985

mutual

def textFault? : Nat → Toml → Option Fault
  | 0, _ => some .deepText
  | _ + 1, .int n => if isLongInteger n then some .longText else none
  | depth + 1, .array vs => textFaultOfItems? depth vs
  | depth + 1, .table ms => textFaultOfMembers? depth ms
  | depth + 1, .tables latest => textFaultOfTables? depth latest
  | _ + 1, _ => none

def textFaultOfItems? (depth : Nat) : List Toml → Option Fault
  | [] => none
  | v :: vs => (textFault? depth v).or (textFaultOfItems? depth vs)

def textFaultOfMembers? (depth : Nat) : List (Text × Toml) → Option Fault
  | [] => none
  | (_, v) :: ms => (textFault? depth v).or (textFaultOfMembers? depth ms)

/-- The latest table comes last. -/
def textFaultOfTables? : Nat → List (List (Text × Toml)) → Option Fault
  | _, [] => none
  | 0, _ :: _ => some .deepText
  | depth + 1, ms :: earlier =>
    (textFaultOfTables? (depth + 1) earlier).or (textFaultOfMembers? depth ms)

end

/-- One of some choices by its name. Only a string names one. -/
def choice (field : String) (names : List String) (ofText? : Text → Option α) (default : α) :
    Option Toml → Except Fault α
  | none => .ok default
  | some (.string t) => match ofText? t with
    | some a => .ok a
    | none => .error (.notChoice field names)
  | some v => .error ((textFault? textDepth v).getD (.notChoice field names))

def get? (k : String) (t : Toml.Table) : Option Toml := Toml.Table.get? k.toList t

def limitsOf (t : Toml.Table) : Except Fault LineLimits := do
  let warning ← integer "lint.max_lines_warning" 150 (get? "max_lines_warning" t)
  let error ← integer "lint.max_lines_error" 300 (get? "max_lines_error" t)
  if warning ≤ 0 then throw .warningRange
  if error ≤ warning then throw .errorRange
  return ⟨warning, error⟩

def likenessOf (t : Toml.Table) : Except Fault Likeness := do
  let threshold ← number "redundancy.threshold" (.ofRat (mkRat 3 5)) (get? "threshold" t)
  if !((Binary64.finite 0).lt threshold && threshold.le (.finite 1)) then throw .thresholdRange
  let minLength ← integer "redundancy.min_line_length" 10 (get? "min_line_length" t)
  if minLength < 0 then throw .lengthRange
  return ⟨threshold, minLength⟩

def ofTable (source : Path) (t : Toml.Table) : Except Fault Settings := do
  let checks ← table "checks" (get? "checks" t)
  let lint ← table "lint" (get? "lint" t)
  let redundancy ← table "redundancy" (get? "redundancy" t)
  let format ← choice "format" (Format.all.map (·.name)) Format.ofText? .human (get? "format" t)
  let failOn ← choice "fail_on" (FailOn.all.map (·.name)) FailOn.ofText? .error (get? "fail_on" t)
  let enable ← strings? (get? "enable" checks)
  let disable ← strings? (get? "disable" checks)
  let limits ← limitsOf lint
  let likeness ← likenessOf redundancy
  return ⟨format, failOn, ⟨enable, disable.getD []⟩, limits, likeness, some source⟩

/-! ## Files -/

/-- The files that hold nothing but settings, in the order in which they are looked for. -/
def ownNames : List String := [".rule-doctor.toml", "rule-doctor.toml"]

def sharedName : String := "pyproject.toml"

def toolTable? (t : Toml.Table) : Option Toml.Table :=
  match get? "tool" t with
  | some (.table tools) => ["rule_doctor", "rule-doctor"].findSome? fun k => match get? k tools with
    | some (.table ms) => some ms
    | _ => none
  | _ => none

def part (path : Path) (t : Toml.Table) : Toml.Table :=
  (toolTable? t).getD (if path.name = sharedName then [] else t)

def readTable (t : Tree) (path : Path) (place : Place) : Except Fault Toml.Table :=
  match t.get? place with
  | some (.file bytes) => match Utf8.decode bytes with
    | .error f => .error (.undecodable f)
    | .ok text => match Toml.Table.ofText text with
      | .ok ms => .ok (part path ms)
      | .error .malformed => .error (.malformed path)
      | .error (.longInteger n) => .error (.longInteger n)
      | .error .deepNesting => .error .deepNesting
  | _ => .error (.file (.directory path))

def locate (w : Workspace) (path : Path) : Except Fault (Option Place) :=
  (w.locate path).mapError .file

/-- Reads the file that a user names; its path goes on from the project's directory. -/
def ofNamedFile (w : Workspace) (dir : Place) (config : Path) : Except Fault Settings :=
  let path := (Path.ofPlace dir).append config
  do match ← locate w path with
    | none => .error (.missing path)
    | some place => ofTable path (← readTable w.tree path place)

/-- Reads the shared file if it says anything, else takes the defaults. -/
def ofSharedFile (w : Workspace) (dir : Place) : Except Fault Settings :=
  let path := Path.ofPlace (dir ++ [sharedName])
  do match ← locate w path with
    | none => .ok {}
    | some place =>
      let ms ← readTable w.tree path place
      if ms.isEmpty then .ok {} else ofTable path ms

/-- Reads the first file that is there, and the shared file if there is none. -/
def ofFirstFile (w : Workspace) (dir : Place) : List String → Except Fault Settings
  | [] => ofSharedFile w dir
  | name :: names =>
    let path := Path.ofPlace (dir ++ [name])
    do match ← locate w path with
      | none => ofFirstFile w dir names
      | some place => ofTable path (← readTable w.tree path place)

def load (w : Workspace) (project : Path) (config? : Option Path) : Except Fault Settings :=
  let dir := project.resolve w.cwd
  if project.hasNull then .error .nullName
  else match config? with
    | some config => ofNamedFile w dir config
    | none => ofFirstFile w dir ownNames

end AgentRules.Settings
