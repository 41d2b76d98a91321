import AgentRules.Header
import AgentRules.Text.Word

/-!
# Globs

The patterns for file paths in a header, how they are read from the value of a field, and when two
of them may match one path. The test for overlap knows equal patterns, patterns for every path, and
patterns that end in the same file extension.
-/

namespace AgentRules.Glob

/-- Takes one quotation mark off each end. -/
def stripQuotes (t : Text) : Text :=
  let t := match t with
    | c :: r => if Text.isQuote c then r else c :: r
    | [] => []
  match t.getLast? with
  | some c => if Text.isQuote c then t.dropLast else t
  | none => t

def clean (ts : List Text) : List Text :=
  (ts.map fun t => stripQuotes (Text.trim t)).filter (!·.isEmpty)

/-- What stands after an opening bracket, without the closing one if that ends the text. -/
def inside (r : Text) : Text := if r.getLast? = some ']' then r.dropLast else r

/-- **Patterns of a field.** A list holds one pattern an item. A text in brackets holds patterns
between commas, and any other text is one pattern. -/
def ofValue : Option Header.Value → List Text
  | some (.items ts) => clean ts
  | some (.text t) => match Text.trim t with
    | [] => []
    | '[' :: r => clean (Text.fields ',' (inside r))
    | p => [p]
  | _ => []

def isUniversal (p : Text) : Bool := p = "**/*".toList || p = "**".toList

/-- The word at the end of a pattern, if a star and a point stand before it. A line feed at the
end is passed over. -/
def extension? (p : Text) : Option Text :=
  let r := match p.reverse with
    | '\n' :: r => r
    | r => r
  let word := r.takeWhile Text.isWord
  match word, r.dropWhile Text.isWord with
  | _ :: _, '.' :: '*' :: _ => some word.reverse
  | _, _ => none

def overlap (a b : Text) : Bool :=
  a = b || isUniversal a || isUniversal b ||
    match extension? a, extension? b with
    | some x, some y => x = y
    | _, _ => false

end AgentRules.Glob
