import AgentRules.Text.Case

/-!
# Opposed directives

A directive is told by phrases that state it. Two directives are opposed if they cannot both be
followed, and two bodies contradict each other if one of them gives one directive and the other its
opposite.
-/

namespace AgentRules

/-- What a body may tell an agent to do: how it is reported, and the phrases that state it. -/
structure Directive where
  label : String
  phrases : List String

namespace Directive

def givenIn (d : Directive) (body : Text) : Bool := d.phrases.any fun p => Text.occursIn p.toList body

end Directive

structure Opposition where
  first : Directive
  second : Directive

namespace Opposition

def all : List Opposition :=
  [⟨⟨"always use semicolons", ["always use semicolons"]⟩,
    ⟨"never use semicolons", ["never use semicolons", "no semicolons"]⟩⟩,
   ⟨⟨"use single quotes", ["use single quotes"]⟩,
    ⟨"use double quotes", ["use double quotes"]⟩⟩,
   ⟨⟨"use tabs", ["use tabs"]⟩,
    ⟨"use spaces", ["use spaces"]⟩⟩,
   ⟨⟨"use css modules", ["use css modules"]⟩,
    ⟨"use tailwind / styled-components", ["use tailwind", "use styled-components"]⟩⟩,
   ⟨⟨"use relative imports", ["use relative imports"]⟩,
    ⟨"use absolute imports / path aliases", ["use absolute imports", "use path aliases"]⟩⟩,
   ⟨⟨"prefer classes", ["prefer classes"]⟩,
    ⟨"prefer functions", ["prefer functions", "prefer functional"]⟩⟩,
   ⟨⟨"use default exports", ["use default exports"]⟩,
    ⟨"use named exports", ["use named exports", "no default exports"]⟩⟩,
   ⟨⟨"use arrow functions", ["use arrow functions"]⟩,
    ⟨"use function declarations", ["use function declarations", "avoid arrow functions"]⟩⟩,
   ⟨⟨"use any", ["use any"]⟩,
    ⟨"never use any", ["never use any", "avoid any", "no any"]⟩⟩]

def reason (o : Opposition) : String :=
  s!"Conflicting style: \"{o.first.label}\" vs \"{o.second.label}\""

structure Stance where
  first : Bool
  second : Bool
  deriving DecidableEq, Repr

def stance (o : Opposition) (body : Text) : Stance := ⟨o.first.givenIn body, o.second.givenIn body⟩

/-- One body gives one of the directives and the other body the other. -/
def Stance.opposes (a b : Stance) : Bool := (a.first && b.second) || (a.second && b.first)

end Opposition

/-- A body in small letters, with the variants of ASCII letters made plain. -/
def plainLetters (body : Text) : Text := (Text.lower body).map Text.letter

def stances (body : Text) : List Opposition.Stance :=
  let plain := plainLetters body
  Opposition.all.map (·.stance plain)

def opposedReasons : List Opposition → List Opposition.Stance → List Opposition.Stance → List String
  | o :: os, a :: as, b :: bs =>
    if a.opposes b then o.reason :: opposedReasons os as bs else opposedReasons os as bs
  | _, _, _ => []

/-- **Contradictions.** A reason for every opposition between two bodies, in the order of the
table. -/
def contradictions (a b : Text) : List String := opposedReasons Opposition.all (stances a) (stances b)

end AgentRules
