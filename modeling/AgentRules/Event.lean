import AgentRules.Project

/-!
# Events

What a run notes beside its answer, in the order in which it happens. An event is shown as one line
when a run is asked to tell more.
-/

namespace AgentRules

inductive Event
  | found (count : Nat) (project : Path)
  | unreadable (path : Path) (fault : Utf8.Fault)
  | conflict (first second : String)
  | repaired (path : Path)
  | skipped (path : Path) (fault : Utf8.Fault)
  deriving DecidableEq, Repr

namespace Event

def source : Event → String
  | found _ _ => "rule_doctor.loader"
  | unreadable _ _ => "rule_doctor.lint"
  | conflict _ _ => "rule_doctor.cross"
  | repaired _ => "rule_doctor.autofix"
  | skipped _ _ => "rule_doctor.autofix"

def message : Event → String
  | found count project => s!"found {count} rule documents under {project.text}"
  | unreadable path fault => s!"cannot read {path.text}: {fault.message}"
  | conflict first second => s!"conflict between {first} and {second}"
  | repaired path => s!"repaired frontmatter in {path.text}"
  | skipped path fault => s!"skipping unreadable {path.text}: {fault.message}"

def line (e : Event) : String := s!"DEBUG {e.source}: {e.message}"

end Event
end AgentRules
