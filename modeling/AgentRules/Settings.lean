import AgentRules.Check.Selection
import AgentRules.Comparison
import AgentRules.Path

/-!
# Settings

What a user may choose: how pages are written, which issues make a run fail, which checks are run,
and the limits they go by.
-/

namespace AgentRules

inductive Format
  | human
  | json
  | markdown
  deriving DecidableEq, Repr

namespace Format

def all : List Format := [human, json, markdown]

def name : Format → String
  | human => "human"
  | json => "json"
  | markdown => "markdown"

def ofText? (t : Text) : Option Format := all.find? fun f => f.name.toList = Text.lower t

end Format

/-- The least severity that makes a run fail. -/
inductive FailOn
  | error
  | never
  | warning
  deriving DecidableEq, Repr

namespace FailOn

def all : List FailOn := [error, never, warning]

def name : FailOn → String
  | error => "error"
  | never => "never"
  | warning => "warning"

def ofText? (t : Text) : Option FailOn := all.find? fun f => f.name.toList = Text.lower t

end FailOn

/-- **Settings.** The source is the file that they come from. -/
structure Settings where
  format : Format := .human
  failOn : FailOn := .error
  selection : Selection := {}
  limits : LineLimits := {}
  likeness : Likeness := {}
  source : Option Path := none
  deriving Repr

end AgentRules
