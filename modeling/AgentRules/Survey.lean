import AgentRules.Check.Selection
import AgentRules.Event

/-!
# Surveys

A survey reads the documents of a project one by one and has the checks look at each. A document
that cannot be read counts as a file with one error, and the survey goes on.
-/

namespace AgentRules

structure FileIssues where
  identifier : String
  issues : List Issue
  deriving DecidableEq, Repr

namespace FileIssues

def count (s : Severity) (f : FileIssues) : Nat := f.issues.countP (·.severity = s)

def errors (f : FileIssues) : Nat := f.count .error

def warnings (f : FileIssues) : Nat := f.count .warning

end FileIssues

/-- **Surveys.** The issues of every file, and the rules that could be read. -/
structure Survey where
  files : List FileIssues
  rules : List Rule
  deriving DecidableEq, Repr

namespace Survey

def errors (s : Survey) : Nat := s.files.foldr (fun f n => f.errors + n) 0

def warnings (s : Survey) : Nat := s.files.foldr (fun f n => f.warnings + n) 0

def passed (s : Survey) : Nat := s.files.countP (·.issues.isEmpty)

def unreadableIssue (f : Utf8.Fault) : Issue :=
  ⟨.error, s!"Could not read file: {f.message}",
    some "Check file permissions and encoding (UTF-8 expected)", none⟩

def fileIssues (limits : LineLimits) (cs : List Check) (t : Tree) (p : Project) (d : Project.Document) :
    FileIssues :=
  match p.readRule t d with
  | .ok r => ⟨p.identifier d, r.issues limits cs⟩
  | .error f => ⟨p.identifier d, [unreadableIssue f]⟩

def readableRules (t : Tree) (p : Project) : List Rule :=
  (p.documents t).filterMap fun d => (p.readRule t d).toOption

def ofProject (limits : LineLimits) (cs : List Check) (t : Tree) (p : Project) : Survey :=
  ⟨(p.documents t).map (fileIssues limits cs t p), readableRules t p⟩

def foundEvent (t : Tree) (p : Project) : Event := .found (p.documents t).length p.path

def events (t : Tree) (p : Project) : List Event :=
  foundEvent t p :: (p.documents t).filterMap fun d => match p.readRule t d with
    | .ok _ => none
    | .error f => some (.unreadable d.path f)

end Survey
end AgentRules
