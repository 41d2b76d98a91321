import AgentRules.Rule

/-!
# Token budgets

The weight of a text is counted in tokens of four characters, a part of one counted in full. A
budget lists the weight of every rule, the heaviest first, and adds up what is always loaded
and what may be loaded besides.
-/

namespace AgentRules

def tokens (t : Text) : Nat := (t.length + 3) / 4

namespace Budget

structure Entry where
  identifier : String
  tokens : Nat
  tier : Tier
  deriving DecidableEq, Repr

def Entry.ofRule (r : Rule) : Entry := ⟨r.identifier, AgentRules.tokens r.text, r.tier⟩

def sum (es : List Entry) : Nat := es.foldr (fun e n => e.tokens + n) 0

end Budget

/-- **Budgets.** The entries of some rules, the heaviest first. -/
structure Budget where
  entries : List Budget.Entry
  deriving DecidableEq, Repr

namespace Budget

/-- Rules of equal weight stay in their order. -/
def ofRules (rs : List Rule) : Budget :=
  ⟨(rs.map Entry.ofRule).mergeSort fun a b => b.tokens ≤ a.tokens⟩

def always (b : Budget) : Nat := sum (b.entries.filter (·.tier = .always))

def conditional (b : Budget) : Nat := sum (b.entries.filter (·.tier ≠ .always))

def total (b : Budget) : Nat := b.always + b.conditional

end Budget
end AgentRules
