import AgentRules.Directive
import AgentRules.Issue
import AgentRules.Number.Binary64
import AgentRules.Rule

/-!
# Comparing rules

Every two rules of a project are compared, each pair once and in the order of the rules. They
conflict if they may apply together and their bodies contradict each other. They are redundant if
they share a large enough part of the smaller one's lines.
-/

namespace AgentRules

/-- Every two members of a list, the earlier one first. -/
def pairs : List α → List (α × α)
  | [] => []
  | a :: as => as.map (a, ·) ++ pairs as

/-! ## Conflicts -/

structure Conflict where
  first : String
  second : String
  reasons : List String
  deriving DecidableEq, Repr

def Conflict.severity (_ : Conflict) : Severity := .warning

def Conflict.reason (c : Conflict) : String := "; ".intercalate c.reasons

namespace Scope

def globsOverlap (a b : Scope) : Bool := a.globs.any fun p => b.globs.any fun q => Glob.overlap p q

/-- Whether two scopes may hold one file. -/
def meets (a b : Scope) : Bool := a.always || b.always || globsOverlap a b

end Scope

structure Profile where
  identifier : String
  scope : Scope
  stances : List Opposition.Stance
  deriving DecidableEq, Repr

namespace Profile

def ofRule (r : Rule) : Profile := ⟨r.identifier, r.scope, AgentRules.stances r.body⟩

def conflict? (a b : Profile) : Option Conflict :=
  if a.scope.meets b.scope then
    match opposedReasons Opposition.all a.stances b.stances with
    | [] => none
    | reasons => some ⟨a.identifier, b.identifier, reasons⟩
  else none

end Profile

def conflicts (rs : List Rule) : List Conflict :=
  (pairs (rs.map Profile.ofRule)).filterMap fun p => p.1.conflict? p.2

/-! ## Redundancy -/

/-- When two rules count as redundant: the part of lines they share, and the length above which a
line counts. -/
structure Likeness where
  threshold : Binary64 := .ofRat (mkRat 3 5)
  minLength : Int := 10
  deriving DecidableEq, Repr

structure Redundancy where
  first : String
  second : String
  percent : Int
  shared : Nat
  deriving DecidableEq, Repr

/-- The lines of a body that are longer than a given length once they are trimmed, each once. -/
def longLines (minLength : Int) (body : Text) : List Text :=
  (((Text.rows body).map Text.trim).filter fun l => minLength < l.length).eraseDups

/-- Compares the lines of two rules. The part is taken of the smaller number of lines. -/
def redundancy? (threshold : Binary64) (a b : String × List Text) : Option Redundancy :=
  if a.2.isEmpty || b.2.isEmpty then none
  else
    let shared := (a.2.filter b.2.contains).length
    let ratio := Binary64.ofRat (mkRat shared (min a.2.length b.2.length))
    if threshold.lt ratio then
      ((ratio.map (· * 100)).roundHalfUp?).map fun percent => ⟨a.1, b.1, percent, shared⟩
    else none

def redundancies (how : Likeness) (rs : List Rule) : List Redundancy :=
  (pairs (rs.map fun r => (r.identifier, longLines how.minLength r.body))).filterMap fun p =>
    redundancy? how.threshold p.1 p.2

structure Comparison where
  conflicts : List Conflict
  redundancies : List Redundancy
  deriving DecidableEq, Repr

def Comparison.ofRules (how : Likeness) (rs : List Rule) : Comparison :=
  ⟨AgentRules.conflicts rs, AgentRules.redundancies how rs⟩

end AgentRules
