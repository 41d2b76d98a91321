import AgentRules.Glob

/-!
# Rules

A rule is one document with the name under which it is reported. The legacy kind is a single file
without a header of its own meaning: it applies always and all of its text counts as body. A modern
document says in its header when it applies.
-/

namespace AgentRules

inductive Kind
  | modern
  | legacy
  deriving DecidableEq, Repr

def Kind.name : Kind → String
  | .modern => "modern"
  | .legacy => "legacy"

/-- Where a rule applies without being asked for. -/
structure Scope where
  always : Bool
  globs : List Text
  deriving DecidableEq, Repr

inductive Tier
  | always
  | glob
  | manual
  deriving DecidableEq, Repr

def Tier.name : Tier → String
  | .always => "always"
  | .glob => "glob"
  | .manual => "manual"

structure Rule where
  identifier : String
  kind : Kind
  text : Text
  deriving DecidableEq, Repr

/-- The scope that a header gives; without fields a document applies nowhere by itself. -/
def Header.scope (h : Header) : Scope where
  always := h.get? "alwaysApply".toList = some (.flag true)
  globs := Glob.ofValue (h.get? "globs".toList)

namespace Rule

def header (r : Rule) : Header := Header.ofText r.text

def body (r : Rule) : Text :=
  match r.kind with
  | .legacy => r.text
  | .modern => Header.body r.text

def scope (r : Rule) : Scope :=
  match r.kind with
  | .legacy => ⟨false, []⟩
  | .modern => r.header.scope

def tier (r : Rule) : Tier :=
  if r.kind = .legacy || r.scope.always then .always
  else if r.scope.globs.isEmpty then .manual
  else .glob

def bodyStart (r : Rule) : Nat :=
  match r.kind with
  | .legacy => 0
  | .modern => Header.extent r.text

end Rule
end AgentRules
