import AgentRules.Budget
import AgentRules.Number.Binary64
import AgentRules.Number.Digits
import AgentRules.Settings
import AgentRules.Survey

/-!
# Health reports

The health of a project is measured six times. Each measurement earns some of its points, the
points add up to a percentage, and the percentage gives a grade.
-/

namespace AgentRules

inductive Status
  | pass
  | warn
  | fail
  | info
  deriving DecidableEq, Repr

def Status.name : Status → String
  | .pass => "pass"
  | .warn => "warn"
  | .fail => "fail"
  | .info => "info"

inductive Grade
  | a
  | b
  | c
  | d
  | f
  deriving DecidableEq, Repr

def Grade.name : Grade → String
  | .a => "A"
  | .b => "B"
  | .c => "C"
  | .d => "D"
  | .f => "F"

def Grade.ofPercentage (x : Binary64) : Grade :=
  let reached (n : Nat) : Bool := (Binary64.finite n).le x
  if reached 90 then .a else if reached 75 then .b else if reached 60 then .c
  else if reached 40 then .d else .f

/-- A kind of file in a project for which there are no rules. -/
structure Gap where
  extension : String
  suggested : List String := []
  deriving DecidableEq, Repr

structure Measure where
  name : String
  status : Status
  detail : String
  earned : Int
  points : Int
  deriving DecidableEq, Repr

structure Report where
  measures : List Measure
  score : Int
  points : Int
  grade : Grade
  percentage : Int
  deriving DecidableEq, Repr

namespace Report

inductive Fault
  | quotient
  | infinite
  | longSum
  deriving DecidableEq, Repr

def Fault.message : Fault → String
  | .quotient => "integer division result too large for a float"
  | .infinite => "cannot convert float infinity to integer"
  | .longSum => longIntegerMessage

/-- The percentage of the points that the score is; of no points it is zero. -/
def share (score points : Int) : Except Fault Binary64 :=
  if points = 0 then .ok (.finite 0)
  else match Binary64.ofQuotient? score points with
    | some x => .ok (x.map (· * 100))
    | none => .error .quotient

/-- **Adding up.** The percentage is rounded half upwards. Sums that could not be written are
refused. -/
def ofMeasures (ms : List Measure) : Except Fault Report :=
  let score := ms.foldr (fun m n => m.earned + n) 0
  let points := ms.foldr (fun m n => m.points + n) 0
  match share score points with
  | .error e => .error e
  | .ok x => match x.roundHalfUp? with
    | some n =>
      if isLongInteger score || isLongInteger points then .error .longSum
      else .ok ⟨ms, score, points, Grade.ofPercentage x, n⟩
    | none => .error .infinite

def plural (count : Nat) (noun : String) : String :=
  if count = 1 then s!"{count} {noun}" else s!"{count} {noun}s"

/-! ## Measurements -/

def existence (hasModern hasLegacy : Bool) : Measure :=
  if hasModern then ⟨"Rules exist", .pass, ".cursor/rules/ found with .mdc files", 20, 20⟩
  else if hasLegacy then
    ⟨"Rules exist", .warn, "Only .cursorrules found. Convert it to .mdc rules in .cursor/rules/", 5, 20⟩
  else ⟨"Rules exist", .fail, "No rules found. Add .mdc files under .cursor/rules/", 0, 20⟩

def freshness (hasModern hasLegacy : Bool) : Measure :=
  let name := "No legacy .cursorrules"
  if !hasLegacy then ⟨name, .pass, "Using modern .mdc format only", 10, 10⟩
  else if hasModern then
    ⟨name, .warn,
      ".cursorrules exists alongside .mdc rules and may cause conflicts. Consider removing it.", 5, 10⟩
  else ⟨name, .warn, "Using legacy .cursorrules. Convert it to .mdc rules.", 0, 10⟩

def cleanness (errors warnings : Nat) : Measure :=
  let name := "Lint checks"
  if errors = 0 && warnings = 0 then ⟨name, .pass, "All rules pass lint checks", 30, 30⟩
  else if errors = 0 then
    ⟨name, .warn, plural warnings "warning" ++ " found. Run `rule-doctor lint` to see details.", 20, 30⟩
  else
    ⟨name, .fail,
      plural errors "error" ++ ", " ++ plural warnings "warning" ++ ". Run `rule-doctor lint` to fix.",
      (10 - errors * 2 : Nat), 30⟩

def weight (tokens : Nat) : Measure :=
  let name := "Token budget"
  if tokens = 0 then ⟨name, .info, "No rules to measure", 0, 15⟩
  else if tokens < 2000 then ⟨name, .pass, s!"~{tokens} tokens, well within budget", 15, 15⟩
  else if tokens < 5000 then
    ⟨name, .warn, s!"~{tokens} tokens, getting heavy. Consider trimming or splitting rules.", 10, 15⟩
  else
    ⟨name, .fail,
      s!"~{tokens} tokens, very heavy. This is loaded into context on every request.", 5, 15⟩

def coverage (gaps : List Gap) : Measure :=
  let name := "Coverage"
  let missing := "Missing rules for: " ++ ", ".intercalate (gaps.map (·.extension))
  if gaps.isEmpty then ⟨name, .pass, "Rules cover your project file types", 15, 15⟩
  else if gaps.length ≤ 2 then ⟨name, .warn, missing, 10, 15⟩
  else ⟨name, .fail, missing, 5, 15⟩

def skills (found : Bool) : Measure :=
  let name := "Agent skills"
  if found then ⟨name, .pass, "Skills directory found", 10, 10⟩
  else
    ⟨name, .info, "No agent skills found. Skills are optional but help with complex workflows.", 5, 10⟩

def measurements (t : Tree) (p : Project) (gaps : List Gap) (s : Survey) : List Measure :=
  let hasModern := (p.documents t).any (·.kind = .modern)
  let hasLegacy := p.hasLegacy t
  [existence hasModern hasLegacy, freshness hasModern hasLegacy, cleanness s.errors s.warnings,
   weight (s.rules.foldr (fun r n => tokens r.text + n) 0), coverage gaps, skills (p.hasSkills t)]

inductive Refusal
  | unknownChecks (ids : List String)
  | fault (f : Fault)
  deriving DecidableEq, Repr

def ofProject (settings : Settings) (gaps : List Gap) (t : Tree) (p : Project) : Except Refusal Report :=
  match settings.selection.checks with
  | .error ids => .error (.unknownChecks ids)
  | .ok cs =>
    (ofMeasures (measurements t p gaps (Survey.ofProject settings.limits cs t p))).mapError .fault

/-- What scoring notes: a survey, and then the documents once more. -/
def events (t : Tree) (p : Project) : List Event := Survey.events t p ++ [Survey.foundEvent t p]

end Report
end AgentRules
