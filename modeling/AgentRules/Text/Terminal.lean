import AgentRules.Text

/-!
# Control sequences

A terminal takes an escape character and an opening bracket, some parameters and a letter as a
command. What is written elsewhere goes without such sequences.
-/

namespace AgentRules.Text

/-- What may stand before the letter of a control sequence. -/
def isParameter (c : Char) : Bool := c.isDigit || c = ';' || c = '?'

/-- The number of characters of the control sequence that a text starts with. -/
def sequenceLength? : Text → Option Nat
  | '\x1b' :: '[' :: r => match r.dropWhile isParameter with
    | c :: _ => if c.isAlpha then some ((r.takeWhile isParameter).length + 3) else none
    | [] => none
  | _ => none

/-- Leaves out the control sequences. The count is of the characters still to be passed over, which
belong to a sequence that has been met already. -/
def withoutSequences : Nat → Text → Text
  | _, [] => []
  | n + 1, _ :: r => withoutSequences n r
  | 0, c :: r => match sequenceLength? (c :: r) with
    | some length => withoutSequences (length - 1) r
    | none => c :: withoutSequences 0 r

end AgentRules.Text
