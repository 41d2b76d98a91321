import AgentRules.Mending
import AgentRules.Review

/-!
# Plain pages

What is found, as text for a terminal.
-/

namespace AgentRules

def page (ls : List String) : String := "\n".intercalate ls

def Severity.icon : Severity → String
  | .error => "✗"
  | .warning => "⚠"
  | .info => "ℹ"

def Status.icon : Status → String
  | .pass => "✓"
  | .warn => "⚠"
  | .fail => "✗"
  | .info => "ℹ"

def Issue.location (i : Issue) : String :=
  match i.line with
  | some n => s!" (line {n})"
  | none => ""

/-- An issue and, below it, its hint; an empty hint is left out. -/
def Issue.plain (i : Issue) : List String :=
  s!"  {i.severity.icon} {i.message}{i.location}" ::
    match i.hint with
    | some hint => if hint.isEmpty then [] else [s!"    → {hint}"]
    | none => []

namespace Survey

def noFiles : String := "No rule files found (.cursorrules or .cursor/rules/*.mdc)"

def filePlain (f : FileIssues) : List String :=
  f.identifier :: (if f.issues.isEmpty then ["  ✓ All checks passed"] else f.issues.flatMap (·.plain)) ++ [""]

/-- The counts of a survey; those that are zero are left out. -/
def counts (s : Survey) : String :=
  ", ".intercalate <|
    (if s.errors = 0 then [] else [Report.plural s.errors "error"]) ++
      (if s.warnings = 0 then [] else [Report.plural s.warnings "warning"]) ++
      (if s.passed = 0 then [] else [s!"{s.passed} passed"])

def rule : String := String.ofList (List.replicate 50 '─')

def plain (s : Survey) : String :=
  if s.files.isEmpty then noFiles else page (s.files.flatMap filePlain ++ [rule, s.counts])

end Survey

def Report.plain (r : Report) : String :=
  page <| s!"Health: {r.grade.name} ({r.percentage}%)  {r.score}/{r.points}" :: "" ::
    r.measures.map fun m => s!"{m.status.icon} {m.name}: {m.detail}"

/-- **A review in plain text.** The blanks at its end are taken off. -/
def Review.plain (r : Review) : String :=
  let text := page <| r.sections.flatMap fun s =>
    s.title :: (s.items.map fun i => s!"  [{i.tone.name}] {i.text}") ++ [""]
  String.ofList (Text.trimRight text.toList)

def Mending.plain (trial : Bool) (m : Mending) : String :=
  let repaired := if trial then "Would fix" else "Fixed"
  let divided := if trial then "Would split" else "Split"
  let ls := m.problems.map (fun p => "✗ " ++ p.message) ++
    m.repaired.map (fun name => s!"{repaired} {name}: frontmatter repaired") ++
    m.divisions.map (fun d => s!"{divided} {d.name} into " ++ ", ".intercalate d.parts) ++
    m.redundancies.map fun p =>
      s!"Review {p.first} and {p.second}: {p.percent}% overlap (manual merge needed)"
  page (if ls.isEmpty then ["Nothing to fix."] else ls)

def Check.plain (enabled : Bool) (c : Check) : String :=
  let state := if enabled then "enabled" else "disabled"
  s!"{c.id} ({state}): {c.description}"

end AgentRules
