import AgentRules.Page.Plain

/-!
# Markdown pages

What is found, as a document with headings.
-/

namespace AgentRules

def Review.Tone.icon : Review.Tone → String
  | .pass => "✅"
  | .error => "❌"
  | .warning => "⚠️"
  | .fix => "🔧"
  | .info => "ℹ️"

def Issue.markdown (i : Issue) : String :=
  s!"{(Review.Tone.ofSeverity i.severity).icon} {i.message}{i.location}"

def Survey.markdown (s : Survey) : String :=
  page <| "# Rule Lint Report" :: "" ::
    if s.files.isEmpty then [noFiles]
    else s.files.flatMap fun f =>
      s!"## {f.identifier}" :: "" ::
        (if f.issues.isEmpty then [Review.Tone.pass.icon ++ " All checks passed"]
         else f.issues.map (·.markdown)) ++ [""]

def Report.markdown (r : Report) : String :=
  page <| ["# Rule Health Report", "",
      s!"**Grade: {r.grade.name}** ({r.percentage}%, {r.score}/{r.points})", "",
      "| Check | Status | Points | Detail |", "| --- | --- | --- | --- |"] ++
    r.measures.map fun m =>
      s!"| {m.name} | {m.status.name} | {m.earned}/{m.points} | {m.detail} |"

def Review.markdown (r : Review) : String :=
  page <| "# Rule Audit Report" :: "" ::
    r.sections.flatMap fun s =>
      s!"## {s.title}" :: "" :: (s.items.map fun i => s!"{i.tone.icon} {i.text}") ++ [""]

end AgentRules
