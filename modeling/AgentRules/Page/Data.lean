import AgentRules.Json
import AgentRules.Mending
import AgentRules.Review

/-!
# Data pages

What is found, as JSON for other programs.
-/

namespace AgentRules

def version : String := "0.4.0"

def origin (time : String) : Json := .object [("generated_at", .str time), ("version", .str version)]

def Issue.data (i : Issue) : Json :=
  .object [("severity", .str i.severity.name), ("message", .str i.message),
    ("hint", .ofOption .str i.hint), ("line", .ofOption .int i.line)]

def FileIssues.data (f : FileIssues) : Json :=
  .object [("file", .str f.identifier), ("errors", .int f.errors), ("warnings", .int f.warnings),
    ("issues", .list (f.issues.map (·.data)))]

def Survey.data (time : String) (s : Survey) : Json :=
  .object [("files", .list (s.files.map (·.data))), ("total_errors", .int s.errors),
    ("total_warnings", .int s.warnings), ("total_passed", .int s.passed),
    ("no_files", .bool s.files.isEmpty), ("meta", origin time)]

def Measure.data (m : Measure) : Json :=
  .object [("name", .str m.name), ("status", .str m.status.name), ("detail", .str m.detail),
    ("earned", .int m.earned), ("max_points", .int m.points)]

def Report.data (time : String) (r : Report) : Json :=
  .object [("checks", .list (r.measures.map (·.data))), ("score", .int r.score),
    ("max_score", .int r.points), ("grade", .str r.grade.name), ("percentage", .int r.percentage),
    ("meta", origin time)]

def Review.Section.data (s : Review.Section) : Json :=
  .object [("title", .str s.title), ("items", .list (s.items.map fun i =>
    .object [("text", .str i.text), ("kind", .str i.tone.name)]))]

/-- A budget as data; the name of a rule's file stands under the given member. -/
def Budget.data (file : String) (b : Budget) : Json :=
  .object [("always_loaded", .int b.always), ("conditional_max", .int b.conditional),
    ("total", .int b.total), ("files", .list (b.entries.map fun e =>
      .object [(file, .str e.identifier), ("tokens", .int e.tokens), ("tier", .str e.tier.name)]))]

def pairData (first second : String) (more : List (String × Json)) : Json :=
  .object (("file_a", .str first) :: ("file_b", .str second) :: more)

def Review.data (time : String) (r : Review) : Json :=
  .object [("sections", .list (r.sections.map (·.data))), ("budget", r.budget.data "file"),
    ("conflicts", .list (r.comparison.conflicts.map fun p =>
      pairData p.first p.second [("reason", .str p.reason)])),
    ("redundant", .list (r.comparison.redundancies.map fun p =>
      pairData p.first p.second [("overlap_pct", .int p.percent), ("shared_lines", .int p.shared)])),
    ("lint_errors", .int r.errors), ("lint_warnings", .int r.warnings), ("meta", origin time)]

def Mending.data (trial : Bool) (m : Mending) : Json :=
  .object [("dry_run", .bool trial),
    ("fixed", .list (m.repaired.map fun name =>
      .object [("file", .str name), ("change", .str "frontmatter repaired")])),
    ("splits", .list (m.divisions.map fun d =>
      .object [("file", .str d.name), ("parts", .strings d.parts)])),
    ("deduped", .list (m.redundancies.map fun p =>
      pairData p.first p.second [("overlap_pct", .int p.percent)])),
    ("errors", .strings (m.problems.map (·.message)))]

/-- **The checks as data**, with those that are on, and the file that the choice comes from. -/
def Check.listData (on : List Check) (source : Option String) : Json :=
  .object [("checks", .list (Check.all.map fun c =>
      .object [("check_id", .str c.id), ("name", .str c.name), ("description", .str c.description),
        ("enabled", .bool (on.contains c))])),
    ("meta", .object [("config_source", .ofOption .str source)])]

def Settings.data (s : Settings) : Json :=
  .object [("format", .str s.format.name), ("fail_on", .str s.failOn.name),
    ("checks", .object [("enable", .ofOption .strings s.selection.enable),
      ("disable", .strings s.selection.disable)]),
    ("lint", .object [("max_lines_warning", .int s.limits.warning),
      ("max_lines_error", .int s.limits.error)]),
    ("redundancy", .object [("threshold", .real s.likeness.threshold),
      ("min_line_length", .int s.likeness.minLength)]),
    ("source", .ofOption (fun p => .str p.text) s.source)]

end AgentRules
