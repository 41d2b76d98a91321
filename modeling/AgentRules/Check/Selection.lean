import AgentRules.Check

/-!
# Selecting checks

Checks are asked for and turned off by their ids. An id that no check has is refused, and all such
ids are named at once.
-/

namespace AgentRules

/-- Which checks are wanted: all of them or those listed, less the ones turned off. -/
structure Selection where
  enable : Option (List String) := none
  disable : List String := []
  deriving DecidableEq, Repr

namespace Selection

/-- The ids that no check has, each once, in the order of their code points. -/
def unknown (s : Selection) : List String :=
  let asked := s.enable.getD [] ++ s.disable
  sortNames ((asked.filter fun i => !Check.all.any (·.id = i)).eraseDups)

def wants (s : Selection) (c : Check) : Bool :=
  (match s.enable with
    | none => true
    | some ids => ids.contains c.id) && !s.disable.contains c.id

def checks (s : Selection) : Except (List String) (List Check) :=
  if s.unknown.isEmpty then .ok (Check.all.filter s.wants) else .error s.unknown

def unknownMessage (ids : List String) : String :=
  let names := ", ".intercalate ids
  s!"Unknown check ids: {names}"

end Selection
end AgentRules
