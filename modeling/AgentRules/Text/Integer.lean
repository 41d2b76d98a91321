import AgentRules.Number.Digits
import AgentRules.Text.Blank

/-!
# Integers in text

A whole number may have blanks around it, a sign, digits of any script, and single low lines
between digits. The information separators are no such blanks.
-/

namespace AgentRules.Text

/-- The zeros of the decimal digits; the nine digits that follow each are in order. -/
def zeros : List Nat :=
  [0x30, 0x660, 0x6f0, 0x7c0, 0x966, 0x9e6, 0xa66, 0xae6, 0xb66, 0xbe6, 0xc66, 0xce6, 0xd66,
   0xde6, 0xe50, 0xed0, 0xf20, 0x1040, 0x1090, 0x17e0, 0x1810, 0x1946, 0x19d0, 0x1a80, 0x1a90,
   0x1b50, 0x1bb0, 0x1c40, 0x1c50, 0xa620, 0xa8d0, 0xa900, 0xa9d0, 0xa9f0, 0xaa50, 0xabf0, 0xff10,
   0x104a0, 0x10d30, 0x11066, 0x110f0, 0x11136, 0x111d0, 0x112f0, 0x11450, 0x114d0, 0x11650,
   0x116c0, 0x11730, 0x118e0, 0x11950, 0x11c50, 0x11d50, 0x11da0, 0x16a60, 0x16ac0, 0x16b50,
   0x1d7ce, 0x1d7d8, 0x1d7e2, 0x1d7ec, 0x1d7f6, 0x1e140, 0x1e2f0, 0x1e950, 0x1fbf0]

def digit? (c : Char) : Option Nat :=
  (zeros.find? fun z => z ≤ c.toNat && c.toNat < z + 10).map (c.toNat - ·)

/-- Reads digits that may have one low line between two of them, after the value read so far. -/
def readDigits (n : Nat) : Text → Option Nat
  | [] => some n
  | '_' :: c :: r => match digit? c with
    | some d => readDigits (10 * n + d) r
    | none => none
  | c :: r => match digit? c with
    | some d => readDigits (10 * n + d) r
    | none => none

/-- Reads a number without a sign, unless it has too many digits. -/
def nat? (t : Text) : Option Nat :=
  match t with
  | [] => none
  | c :: r =>
    if maxDigits < t.countP fun c => (digit? c).isSome then none else (digit? c).bind (readDigits · r)

/-- A blank that may stand around a number. -/
def isPadding (c : Char) : Bool := isBlank c && !(0x1c ≤ c.toNat && c.toNat ≤ 0x1f)

def int? (t : Text) : Option Int :=
  match (((t.dropWhile isPadding).reverse).dropWhile isPadding).reverse with
  | '-' :: r => (nat? r).map fun n => -(n : Int)
  | '+' :: r => (nat? r).map fun n => (n : Int)
  | r => (nat? r).map fun n => (n : Int)

end AgentRules.Text
