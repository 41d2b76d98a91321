import AgentRules.Number.Binary64
import AgentRules.Text

/-!
# TOML values

The values of a TOML document, and tables that grow as a document is read. A path of keys leads
from a table through the tables below it; where it meets an array that headers have made it goes on
in the latest table of that array.
-/

namespace AgentRules

/-- **TOML values.** Of a date or a time nothing is kept. An array of tables that headers
have made holds the latest table first. -/
inductive Toml
  | bool (b : Bool)
  | int (n : Int)
  | real (x : Binary64)
  | string (t : Text)
  | moment
  | array (vs : List Toml)
  | table (members : List (Text × Toml))
  | tables (latest : List (List (Text × Toml)))

namespace Toml

abbrev Table := List (Text × Toml)

/-- Why a document is not read: it is not well-formed, an integer has too many digits, or values
lie too deep within values. -/
inductive Fault
  | malformed
  | longInteger (digits : Nat)
  | deepNesting
  deriving DecidableEq, Repr

namespace Table

def get? (k : Text) : Table → Option Toml
  | [] => none
  | (j, v) :: ms => if j = k then some v else get? k ms

def put (k : Text) (v : Toml) : Table → Table
  | [] => [(k, v)]
  | (j, w) :: ms => if j = k then (k, v) :: ms else (j, w) :: put k v ms

/-- Changes the table to which a path of keys leads. Tables that are missing on the way are made.
The path does not lead through other values. -/
def within (f : Table → Option Table) : List Text → Table → Option Table
  | [], t => f t
  | k :: ks, t => match t.get? k with
    | none => (within f ks []).map fun s => t.put k (.table s)
    | some (.table s) => (within f ks s).map fun s => t.put k (.table s)
    | some (.tables (s :: ss)) => (within f ks s).map fun s => t.put k (.tables (s :: ss))
    | some _ => none

def add (k : Text) (v : Toml) (t : Table) : Option Table :=
  if (t.get? k).isSome then none else some (t.put k v)

/-- Adds an empty table to an array of tables, which is made if need be. -/
def append (k : Text) (t : Table) : Option Table :=
  match t.get? k with
  | none => some (t.put k (.tables [[]]))
  | some (.tables ss) => some (t.put k (.tables ([] :: ss)))
  | some _ => none

end Table
end Toml
end AgentRules
