/-!
# Double-precision numbers

A number of the binary64 format is a rational of the form m · 2^e with m below 2^53, an infinity,
or not a number. Every operation is done exactly on rationals and rounded once, to the nearest
number of the format, and to an even m where two are equally near. The sign of zero is not kept:
nothing here depends on it.
-/

namespace AgentRules

inductive Binary64
  | nan
  | infinite (negative : Bool)
  | finite (value : Rat)
  deriving DecidableEq, Repr

namespace Binary64

/-- A quotient of natural numbers to the nearest whole number, a half to the even neighbour. -/
def nearest (n d : Nat) : Nat :=
  let q := n / d
  let r := n % d
  if 2 * r < d then q else if d < 2 * r then q + 1 else q + q % 2

def power2 (e : Int) : Rat :=
  if 0 ≤ e then Nat.pow 2 e.toNat else mkRat 1 (Nat.pow 2 (-e).toNat)

/-- The exponent that leaves 53 binary digits of a positive quotient before the point, but not
less than the least exponent of the format. -/
def exponent (n d : Nat) : Int :=
  let k : Int := n.log2 - d.log2
  let above := if 0 ≤ k then d * Nat.pow 2 k.toNat ≤ n else d ≤ n * Nat.pow 2 (-k).toNat
  max (-1074) (if above then k - 52 else k - 53)

/-- The nearest whole multiple of the last binary place of a positive quotient. -/
def roundQuotient (n d : Nat) : Rat :=
  let e := exponent n d
  let m := if 0 ≤ e then nearest n (d * Nat.pow 2 e.toNat) else nearest (n * Nat.pow 2 (-e).toNat) d
  (m : Rat) * power2 e

/-- **Rounding.** A rational to the nearest number of the format. What would need an exponent
above the greatest one is infinite. -/
def ofRat (q : Rat) : Binary64 :=
  if q.num = 0 then finite 0
  else
    let x := roundQuotient q.num.natAbs q.den
    if Nat.pow 2 1024 ≤ x then infinite (q.num < 0)
    else finite (if q.num < 0 then -x else x)

/-- An exact operation, rounded. Infinities and not-a-number stay as they are. -/
def map (f : Rat → Rat) : Binary64 → Binary64
  | finite q => ofRat (f q)
  | x => x

/-- The number that a decimal numeral stands for: digits and a power of ten. A power of ten is at
least as far from one as the same power of eight, which tells what is far out of range. -/
def ofDecimal (negative : Bool) (digits : Nat) (exponent : Int) : Binary64 :=
  let size : Int := digits.log2 + 3 * exponent
  if digits = 0 then finite 0
  else if 0 < exponent && 1024 ≤ size then infinite negative
  else if exponent < 0 && size < -1080 then finite 0
  else
    let x : Rat := if 0 ≤ exponent then (digits * Nat.pow 10 exponent.toNat : Nat) else mkRat digits (Nat.pow 10 (-exponent).toNat)
    ofRat (if negative then -x else x)

def lt : Binary64 → Binary64 → Bool
  | finite a, finite b => a < b
  | infinite true, finite _ => true
  | infinite true, infinite false => true
  | finite _, infinite false => true
  | _, _ => false

def le (a b : Binary64) : Bool := lt a b || (a == b && a != nan)

def floor? : Binary64 → Option Int
  | finite q => some q.floor
  | _ => none

/-- The nearest whole number, a half upwards: half is added first, and the sum is rounded to the
format. -/
def roundHalfUp? (x : Binary64) : Option Int := (x.map (· + mkRat 1 2)).floor?

def ofInt? (n : Int) : Option Binary64 :=
  match ofRat n with
  | finite q => some (finite q)
  | _ => none

def ofQuotient? (a b : Int) : Option Binary64 :=
  match ofRat ((a : Rat) / b) with
  | finite q => some (finite q)
  | _ => none

end Binary64
end AgentRules
