import AgentRules.Number.Binary64

/-!
# Shortest decimals

The text of a double-precision number is the decimal with the fewest digits that reads back as
the same number, and of two such the nearer one.
-/

namespace AgentRules.Binary64

structure Numeral where
  digits : Nat
  exponent : Int
  deriving DecidableEq, Repr

def power10 (e : Int) : Rat :=
  if 0 ≤ e then Nat.pow 10 e.toNat else mkRat 1 (Nat.pow 10 (-e).toNat)

def Numeral.value (n : Numeral) : Rat := (n.digits : Rat) * power10 n.exponent

/-- The number of decimal places before the point of a positive rational, less one. -/
def magnitude (q : Rat) : Int :=
  let guess : Int := ((Nat.toDigits 10 q.num.natAbs).length : Int) - (Nat.toDigits 10 q.den).length
  if power10 guess ≤ q then guess else guess - 1

/-- Without the zero that a carry leaves at the end. -/
def Numeral.normal (n : Numeral) : Numeral :=
  if n.digits % 10 = 0 then ⟨n.digits / 10, n.exponent + 1⟩ else n

/-- The numeral of a given number of digits that is nearest among those that read back. -/
def numeral? (q : Rat) (places : Nat) : Option Numeral :=
  let e := magnitude q - places + 1
  let n := (q / power10 e).floor.toNat
  let below : Numeral := Numeral.normal ⟨n, e⟩
  let above : Numeral := Numeral.normal ⟨n + 1, e⟩
  let reads (x : Numeral) : Bool := ofRat x.value == finite q
  match reads below, reads above with
  | true, true => some (if q - below.value ≤ above.value - q then below else above)
  | true, false => some below
  | false, true => some above
  | false, false => none

/-- **Shortest numeral** of a positive number of the format: seventeen digits always do. -/
def shortest (q : Rat) : Numeral :=
  ((List.range 17).findSome? fun i => numeral? q (i + 1)).getD ⟨0, 0⟩

/-- Positional from a ten-thousandth up to sixteen places, else with an exponent. -/
def Numeral.text (n : Numeral) : String :=
  let ds := Nat.toDigits 10 n.digits
  let point : Int := ds.length + n.exponent
  let zeros (k : Int) : List Char := List.replicate k.toNat '0'
  if -3 ≤ point && point ≤ 0 then String.ofList ('0' :: '.' :: zeros (-point) ++ ds)
  else if 0 < point && point ≤ 16 then
    if point < ds.length then String.ofList (ds.take point.toNat ++ '.' :: ds.drop point.toNat)
    else String.ofList (ds ++ zeros n.exponent ++ ['.', '0'])
  else
    let fraction := if ds.length ≤ 1 then [] else '.' :: ds.drop 1
    String.ofList (ds.take 1 ++ fraction) ++ "e" ++ toString (point - 1)

def text : Binary64 → String
  | nan => "NaN"
  | infinite negative => if negative then "-Infinity" else "Infinity"
  | finite q =>
    if q = 0 then "0.0"
    else if q < 0 then "-" ++ (shortest (-q)).text
    else (shortest q).text

end AgentRules.Binary64
