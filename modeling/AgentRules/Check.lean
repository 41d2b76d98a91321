import AgentRules.Issue
import AgentRules.Rule
import AgentRules.Text.Case

/-!
# Checks

Four checks look at one document each: its header, its format, its wording and its length. They are
run in this order, whatever the order in which they are asked for.
-/

namespace AgentRules

structure LineLimits where
  warning : Int := 150
  error : Int := 300
  deriving DecidableEq, Repr

inductive Check
  | header
  | format
  | wording
  | length
  deriving DecidableEq, Repr

namespace Check

def all : List Check := [header, format, wording, length]

def id : Check → String
  | header => "frontmatter"
  | format => "legacy_format"
  | wording => "vague_phrases"
  | length => "file_length"

def name : Check → String
  | header => "FrontmatterCheck"
  | format => "LegacyFormatCheck"
  | wording => "VaguePhrasesCheck"
  | length => "FileLengthCheck"

def description : Check → String
  | header => "Requires a valid header with alwaysApply, a description, and list-style globs."
  | format => "Warns that a legacy rules file may be ignored in agent mode."
  | wording => "Flags platitudes an agent cannot act on, once per phrase."
  | length => "Flags documents too long to be reliably loaded into context."

/-! ## Header -/

def missingHeader : Issue :=
  ⟨.error, "Missing YAML frontmatter", some "Add --- block with description and alwaysApply: true", none⟩

def invalidHeader (error : String) : Issue :=
  ⟨.error, s!"Invalid YAML frontmatter: {error}",
    some "Fix the frontmatter indentation or run `rule-doctor fix`", none⟩

def missingAlways : Issue :=
  ⟨.error, "Missing alwaysApply: true",
    some "Add alwaysApply: true to frontmatter for agent mode", none⟩

def missingDescription : Issue :=
  ⟨.warning, "Missing description in frontmatter",
    some "Add a description so the agent knows when to apply this rule", none⟩

def badGlobs : Issue :=
  ⟨.error, "Bad glob syntax: use a YAML list, not a comma-separated string",
    some "Use globs:\n  - \"*.ts\"\n  - \"*.tsx\"", none⟩

/-- Whether a field holds anything: an empty text, an empty list and `false` do not. -/
def isFilled : Option Header.Value → Bool
  | some (.flag b) => b
  | some (.text t) => !t.isEmpty
  | some (.items ts) => !ts.isEmpty
  | none => false

/-- A text with a comma that is not written as a list. -/
def isCommaList : Option Header.Value → Bool
  | some (.text t) => t.contains ',' && (Text.trimLeft t).head? != some '['
  | _ => false

def headerIssues (r : Rule) : List Issue :=
  match r.kind, r.header with
  | .legacy, _ => []
  | .modern, .absent => [missingHeader]
  | .modern, .malformed => [invalidHeader "Invalid YAML indentation"]
  | .modern, .fields fs =>
    (if fs.get? "alwaysApply".toList = some (.flag true) then [] else [missingAlways]) ++
      (if isFilled (fs.get? "description".toList) then [] else [missingDescription]) ++
      (if isCommaList (fs.get? "globs".toList) then [badGlobs] else [])

/-! ## Format -/

def formatIssues (r : Rule) : List Issue :=
  match r.kind with
  | .modern => []
  | .legacy => [⟨.warning, ".cursorrules may be ignored in agent mode",
      some "Use .cursor/rules/*.mdc with alwaysApply: true for agent mode compatibility", none⟩]

/-! ## Wording -/

def vaguePhrases : List String :=
  ["write clean code", "follow best practices", "be consistent", "write maintainable code",
   "handle errors properly", "use proper naming", "keep it simple", "write readable code",
   "follow conventions", "use good patterns", "write efficient code", "be careful",
   "think before coding", "write good tests", "follow solid principles", "use common sense",
   "write quality code", "follow the style guide", "be thorough", "write robust code"]

def lineAt (t : Text) (place : Nat) : Nat := (t.take place).count '\n' + 1

/-- One issue a phrase, where the body in lower case first has it. -/
def wordingIssues (r : Rule) : List Issue :=
  let body := Text.lower r.body
  vaguePhrases.filterMap fun phrase =>
    (Text.indexOf? phrase.toList body).map fun i =>
      { severity := .warning
        message := s!"Vague rule detected: \"{phrase}\""
        hint := some "Replace with a concrete, checkable instruction"
        line := some (lineAt r.text (r.bodyStart + i)) }

/-! ## Length -/

def lengthIssues (limits : LineLimits) (r : Rule) : List Issue :=
  let n := (Text.rows r.text).length
  if limits.error < n then
    [⟨.error, s!"File is {n} lines (max recommended: {limits.warning})",
      some "Long files may exceed the context window. Split into multiple .mdc files", none⟩]
  else if limits.warning < n then
    [⟨.warning, s!"File is {n} lines, consider splitting (too long)",
      some "Shorter files are more reliably loaded into context.", none⟩]
  else []

def issues (limits : LineLimits) (r : Rule) : Check → List Issue
  | header => headerIssues r
  | format => formatIssues r
  | wording => wordingIssues r
  | length => lengthIssues limits r

end Check

def Rule.issues (limits : LineLimits) (cs : List Check) (r : Rule) : List Issue :=
  cs.flatMap (Check.issues limits r)

end AgentRules
