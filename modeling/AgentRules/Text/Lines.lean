import AgentRules.Text

/-!
# Lines

Two readings of a line end are in use. A header block is cut at every line boundary of Unicode;
a body is cut at line feeds only, which is `fields` at the line feed. What is read from a file
has its line ends made into line feeds first.
-/

namespace AgentRules.Text

def isBoundary (c : Char) : Bool :=
  let n := c.toNat
  (0xa ≤ n && n ≤ 0xd) || (0x1c ≤ n && n ≤ 0x1e) || n == 0x85 || n == 0x2028 || n == 0x2029

/-- **Lines.** A carriage return with its line feed is one boundary. A boundary ends a line, so
none follows the last one. -/
def lines : Text → List Text
  | [] => []
  | '\r' :: '\n' :: r => [] :: lines r
  | c :: r => if isBoundary c then [] :: lines r else push c (lines r)

/-- The lines of a body: always one more than there are line feeds. -/
def rows (t : Text) : List Text := fields '\n' t

/-- Every carriage return, with the line feed after it if there is one, becomes a line feed. -/
def unifyLineEnds : Text → Text
  | [] => []
  | '\r' :: '\n' :: r => '\n' :: unifyLineEnds r
  | c :: r => (if c = '\r' then '\n' else c) :: unifyLineEnds r

/-- The text after a line end, if the text starts with one: a line feed, or a carriage return
with its line feed. -/
def afterLineEnd? : Text → Option Text
  | '\n' :: r => some r
  | '\r' :: '\n' :: r => some r
  | _ => none

end AgentRules.Text
