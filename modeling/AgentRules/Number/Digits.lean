/-!
# Digits of integers

An integer with too many decimal digits is neither read nor written.
-/

namespace AgentRules

def maxDigits : Nat := 4300

def isLongInteger (n : Int) : Bool := Nat.pow 10 maxDigits ≤ n.natAbs

def longIntegerMessage : String :=
  s!"Exceeds the limit ({maxDigits} digits) for integer string conversion; " ++
    "use sys.set_int_max_str_digits() to increase the limit"

end AgentRules
