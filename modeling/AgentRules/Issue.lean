/-!
# Issues

What a check has to say about a document.
-/

namespace AgentRules

inductive Severity
  | error
  | warning
  | info
  deriving DecidableEq, Repr

def Severity.name : Severity → String
  | .error => "error"
  | .warning => "warning"
  | .info => "info"

/-- **Issues.** A line is counted from one, in the whole document. -/
structure Issue where
  severity : Severity
  message : String
  hint : Option String := none
  line : Option Int := none
  deriving DecidableEq, Repr

end AgentRules
