import AgentRules.Text
import AgentRules.Text.Printable
import AgentRules.Text.Utf8

/-!
# Paths

A path is a start and the names to follow from there. Empty names and single points are left out
when a path is read; two points stay, for where they lead depends on the files.
-/

namespace AgentRules

namespace Path

/-- Where a path starts: where the reader is, at the root, or at the root that two slashes name. -/
inductive Start
  | here
  | root
  | otherRoot
  deriving DecidableEq, Repr

def Start.text : Start → String
  | .here => ""
  | .root => "/"
  | .otherRoot => "//"

end Path

structure Path where
  start : Path.Start
  parts : List String
  deriving DecidableEq, Repr

namespace Path

def ofString (s : String) : Path where
  start := match s.toList with
    | '/' :: '/' :: '/' :: _ => .root
    | '/' :: '/' :: _ => .otherRoot
    | '/' :: _ => .root
    | _ => .here
  parts := ((Text.fields '/' s.toList).filter fun t => !t.isEmpty && t != ['.']).map String.ofList

def text (p : Path) : String :=
  if p.start = .here && p.parts.isEmpty then "." else p.start.text ++ "/".intercalate p.parts

/-- A path followed from the end of another; one with a start of its own is taken as it is. -/
def append (p q : Path) : Path := if q.start = .here then ⟨p.start, p.parts ++ q.parts⟩ else q

def below (p : Path) (names : List String) : Path := ⟨p.start, p.parts ++ names⟩

def hasNull (p : Path) : Bool := p.parts.any fun name => name.toList.contains '\x00'

def name (p : Path) : String := p.parts.getLast?.getD ""

/-- A path as seen from another one that it goes on from, and as it is if it does not. -/
def seenFrom (base p : Path) : Path :=
  if base.start = p.start && base.parts.isPrefixOf p.parts then
    ⟨.here, p.parts.drop base.parts.length⟩
  else p

/-! ## Quoted paths -/

def hexDigits : Nat → Nat → Text
  | 0, _ => []
  | k + 1, n => hexDigits k (n / 16) ++ [Utf8.hexDigit (n % 16)]

def quoteChar (mark c : Char) : Text :=
  let n := c.toNat
  if c = mark || c = '\\' then ['\\', c]
  else if c = '\n' then ['\\', 'n']
  else if c = '\r' then ['\\', 'r']
  else if c = '\t' then ['\\', 't']
  else if Text.isPrintable c then [c]
  else if n < 0x100 then '\\' :: 'x' :: hexDigits 2 n
  else if n < 0x10000 then '\\' :: 'u' :: hexDigits 4 n
  else '\\' :: 'U' :: hexDigits 8 n

/-- The path between single quotation marks, or double ones if it has a single one and no double
one; what cannot be printed is escaped. -/
def quoted (p : Path) : String :=
  let t := p.text.toList
  let mark := if t.contains '\'' && !t.contains '"' then '"' else '\''
  String.ofList (mark :: t.flatMap (quoteChar mark) ++ [mark])

end Path
end AgentRules
