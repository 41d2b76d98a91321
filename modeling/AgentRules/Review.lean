import AgentRules.Report

/-!
# Reviews

A review puts all that is found in a project into six sections: the budget, the issues, the
conflicts, the redundancies, the gaps, and what could be done about them.
-/

namespace AgentRules

namespace Review

inductive Tone
  | pass
  | info
  | warning
  | error
  | fix
  deriving DecidableEq, Repr

def Tone.name : Tone → String
  | .pass => "pass"
  | .info => "info"
  | .warning => "warning"
  | .error => "error"
  | .fix => "fix"

def Tone.ofSeverity : Severity → Tone
  | .error => .error
  | .warning => .warning
  | .info => .info

structure Item where
  text : String
  tone : Tone
  deriving DecidableEq, Repr

structure Section where
  title : String
  items : List Item
  deriving DecidableEq, Repr

end Review

/-- **Reviews.** The sections, and what they were made from. -/
structure Review where
  sections : List Review.Section
  budget : Budget
  comparison : Comparison
  errors : Nat
  warnings : Nat
  deriving DecidableEq, Repr

namespace Review

/-- A section that says one thing if there is nothing else to say. -/
def sectionOr (title nothing : String) (items : List Item) : Section :=
  ⟨title, if items.isEmpty then [⟨nothing, .pass⟩] else items⟩

def above (limit n : Nat) : Tone := if limit < n then .warning else .info

def budgetSection (b : Budget) : Section :=
  ⟨"Token Budget",
    [⟨s!"Always loaded: ~{b.always} tokens", above 3000 b.always⟩,
     ⟨s!"Conditional (max): ~{b.conditional} tokens", .info⟩,
     ⟨s!"Total: ~{b.total} tokens", above 5000 b.total⟩] ++
      b.entries.map fun e =>
        ⟨s!"  {e.identifier}: ~{e.tokens} tokens ({e.tier.name})", above 1500 e.tokens⟩⟩

def issueSection (s : Survey) : Section :=
  sectionOr "Lint Issues" "No issues found" <| s.files.flatMap fun f =>
    f.issues.map fun i => ⟨s!"{f.identifier}: {i.message}", .ofSeverity i.severity⟩

def conflictSection (c : Comparison) : Section :=
  sectionOr "Conflicts" "No conflicts detected" <| c.conflicts.map fun p =>
    ⟨s!"{p.first} vs {p.second}: {p.reason}", .warning⟩

def redundancySection (c : Comparison) : Section :=
  sectionOr "Redundancy" "No redundant rules found" <| c.redundancies.map fun p =>
    ⟨s!"{p.first} and {p.second}: {p.percent}% overlap ({p.shared} shared lines)", .warning⟩

def gapText (g : Gap) : String :=
  let missing := s!"No rules for {g.extension} files."
  if g.suggested.isEmpty then missing
  else missing ++ " Consider adding: " ++ ", ".intercalate g.suggested

def gapSection (gaps : List Gap) : Section :=
  sectionOr "Coverage Gaps" "All detected file types have matching rules" <|
    gaps.map fun g => ⟨gapText g, .warning⟩

def fixSection (s : Survey) (b : Budget) (c : Comparison) : Section :=
  let legacy := if s.rules.any (·.kind = .legacy) then
    ["Convert .cursorrules to .mdc rules in .cursor/rules/"] else []
  let repair := if 0 < s.errors then
    ["Run `rule-doctor fix` to repair frontmatter and structural issues"] else []
  let heavy := (b.entries.filter fun e => 2000 < e.tokens).map fun e =>
    s!"Split {e.identifier} into smaller focused rules (~{e.tokens} tokens is heavy)"
  let always := if 5 < s.rules.countP (·.scope.always) then
    ["Too many alwaysApply rules. Convert some to glob-targeted rules to save tokens."] else []
  let merge := c.redundancies.map fun p => s!"Merge or deduplicate {p.first} and {p.second}"
  sectionOr "Suggested Fixes" "No fixes needed. Setup looks good." <|
    (legacy ++ repair ++ heavy ++ always ++ merge).map fun t => ⟨t, .fix⟩

def ofSurvey (likeness : Likeness) (gaps : List Gap) (s : Survey) : Review :=
  let b := Budget.ofRules s.rules
  let c := Comparison.ofRules likeness s.rules
  ⟨[budgetSection b, issueSection s, conflictSection c, redundancySection c, gapSection gaps,
    fixSection s b c], b, c, s.errors, s.warnings⟩

/-- **Reviewing a project**, unless checks are asked for that do not exist. -/
def ofProject (settings : Settings) (gaps : List Gap) (t : Tree) (p : Project) :
    Except (List String) Review :=
  settings.selection.checks.map fun cs =>
    ofSurvey settings.likeness gaps (Survey.ofProject settings.limits cs t p)

def events (t : Tree) (p : Project) : List Event :=
  Survey.events t p ++
    (conflicts (Survey.readableRules t p)).map fun c => .conflict c.first c.second

end Review
end AgentRules
