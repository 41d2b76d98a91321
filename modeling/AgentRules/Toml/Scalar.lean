import AgentRules.Number.Digits
import AgentRules.Toml

/-!
# TOML scalars

Strings, numbers, dates and times. Each reader takes the longest value at the front of a text and
gives it back with the text after it. A number called the bound is not less than the length of the
text that a reader may take.
-/

namespace AgentRules.Toml

/-- What a reader gives: a value and the text after it. -/
abbrev Read (α : Type) := Except Fault (α × Text)

def malformed : Except Fault α := .error .malformed

def isSpace (c : Char) : Bool := c = ' ' || c = '\t'

def isSpaceOrFeed (c : Char) : Bool := isSpace c || c = '\n'

def skipSpace (t : Text) : Text := t.dropWhile isSpace

def isControl (c : Char) : Bool := (c.toNat < 0x20 && c != '\t') || c.toNat = 0x7f

/-! ## Strings -/

/-- The character with a number of so many hexadecimal digits. -/
def hexChar (count : Nat) (t : Text) : Read Text :=
  let digit (c : Char) : Option Nat :=
    if c.isDigit then some (c.toNat - '0'.toNat)
    else if 'a' ≤ c && c ≤ 'f' then some (c.toNat - 'a'.toNat + 10)
    else if 'A' ≤ c && c ≤ 'F' then some (c.toNat - 'A'.toNat + 10)
    else none
  match (t.take count).mapM digit with
  | some ds =>
    let n := ds.foldl (fun n d => 16 * n + d) 0
    if ds.length = count && n.isValidChar then .ok ([Char.ofNat n], t.drop count) else malformed
  | none => malformed

/-- What stands after a backslash in a basic string: the characters it means. In a string of many
lines a backslash at the end of a line takes away all space up to the next character. -/
def escape (many : Bool) : Text → Read Text
  | [] => malformed
  | c :: r =>
    if c = 'b' then .ok (['\x08'], r)
    else if c = 't' then .ok (['\t'], r)
    else if c = 'n' then .ok (['\n'], r)
    else if c = 'f' then .ok (['\x0c'], r)
    else if c = 'r' then .ok (['\r'], r)
    else if c = '"' then .ok (['"'], r)
    else if c = '\\' then .ok (['\\'], r)
    else if c = 'u' then hexChar 4 r
    else if c = 'U' then hexChar 8 r
    else if many && isSpaceOrFeed c then
      match skipSpace (c :: r) with
      | [] => .ok ([], [])
      | '\n' :: r => .ok ([], r.dropWhile isSpaceOrFeed)
      | _ => malformed
    else malformed

def basic (many : Bool) : Nat → Text → Read Text
  | 0, _ => malformed
  | _ + 1, [] => malformed
  | n + 1, '"' :: r =>
    if many then match r with
      | '"' :: '"' :: r => .ok ([], r)
      | r => (basic many n r).map fun p => ('"' :: p.1, p.2)
    else .ok ([], r)
  | n + 1, '\\' :: r => (escape many r).bind fun p =>
    (basic many n p.2).map fun q => (p.1 ++ q.1, q.2)
  | n + 1, c :: r =>
    if isControl c && !(many && c = '\n') then malformed
    else (basic many n r).map fun p => (c :: p.1, p.2)

def literal (t : Text) : Read Text :=
  match Text.cut? '\'' t with
  | some (s, r) => if s.any isControl then malformed else .ok (s, r)
  | none => malformed

def longLiteral (t : Text) : Read Text :=
  match Text.cutAt? ['\'', '\'', '\''] t with
  | some (s, r) => if s.any fun c => isControl c && c != '\n' then malformed else .ok (s, r)
  | none => malformed

/-- One or two more quotes right after the closing ones belong to the string. -/
def extraQuotes (mark : Char) (s r : Text) : Text × Text :=
  match r with
  | a :: b :: r' =>
    if a = mark && b = mark then (s ++ [mark, mark], r')
    else if a = mark then (s ++ [mark], b :: r') else (s, r)
  | [a] => if a = mark then (s ++ [mark], []) else (s, r)
  | [] => (s, [])

/-- A line feed right after the opening quotes does not belong to the string. -/
def dropFirstFeed : Text → Text
  | '\n' :: r => r
  | r => r

def shortString (bound : Nat) : Text → Read Text
  | '"' :: r => basic false bound r
  | '\'' :: r => literal r
  | _ => malformed

def quoted (bound : Nat) : Text → Read Text
  | '"' :: '"' :: '"' :: r =>
    (basic true bound (dropFirstFeed r)).map fun p => extraQuotes '"' p.1 p.2
  | '\'' :: '\'' :: '\'' :: r =>
    (longLiteral (dropFirstFeed r)).map fun p => extraQuotes '\'' p.1 p.2
  | t => shortString bound t

/-! ## Numbers -/

/-- Digits with single low lines between them, without the low lines, and the text after them. -/
def digitRun (isDigit : Char → Bool) : Text → Text × Text
  | '_' :: c :: r =>
    if isDigit c then
      let p := digitRun isDigit r
      (c :: p.1, p.2)
    else ([], '_' :: c :: r)
  | c :: r =>
    if isDigit c then
      let p := digitRun isDigit r
      (c :: p.1, p.2)
    else ([], c :: r)
  | [] => ([], [])

/-- Digits as above, the first of them not after a low line; none if there are no digits. -/
def digits? (isDigit : Char → Bool) : Text → Option (Text × Text)
  | c :: r =>
    if isDigit c then
      let p := digitRun isDigit r
      some (c :: p.1, p.2)
    else none
  | [] => none

def digitValue (c : Char) : Nat :=
  if c.isDigit then c.toNat - '0'.toNat else c.toLower.toNat - 'a'.toNat + 10

/-- Joins neighbours in a list of numerals. Each is a value beside the power of the base that its
digits take up. -/
def joinNumerals : List (Nat × Nat) → List (Nat × Nat)
  | a :: b :: rest => (a.1 * b.2 + b.1, a.2 * b.2) :: joinNumerals rest
  | rest => rest

/-- The value of numerals one after the other. They are joined for some rounds first, for it is
quicker to multiply numbers of one size. -/
def joined : Nat → List (Nat × Nat) → Nat
  | 0, ns => ns.foldl (fun value n => value * n.2 + n.1) 0
  | rounds + 1, ns => joined rounds (joinNumerals ns)

def natOf (base : Nat) (ds : Text) : Nat :=
  joined ds.length.log2 (ds.map fun c => (digitValue c, base))

def isHexDigit (c : Char) : Bool := c.isDigit || ('a' ≤ c && c ≤ 'f') || ('A' ≤ c && c ≤ 'F')

def based? : Text → Option (Nat × Text)
  | 'x' :: r => (digits? isHexDigit r).map fun p => (natOf 16 p.1, p.2)
  | 'b' :: r => (digits? (fun c => c = '0' || c = '1') r).map fun p => (natOf 2 p.1, p.2)
  | 'o' :: r => (digits? (fun c => '0' ≤ c && c ≤ '7') r).map fun p => (natOf 8 p.1, p.2)
  | _ => none

/-- The whole part of a decimal number: a zero alone, or digits that start with no zero. -/
def whole? : Text → Option (Text × Text)
  | '0' :: r => some (['0'], r)
  | t => digits? Char.isDigit t

def fraction? : Text → Option (Text × Text)
  | '.' :: r => digits? Char.isDigit r
  | _ => none

def sign : Text → Bool × Text
  | '-' :: r => (true, r)
  | '+' :: r => (false, r)
  | r => (false, r)

def power? : Text → Option (Int × Text)
  | c :: r =>
    if c = 'e' || c = 'E' then
      let (negative, r) := sign r
      (digits? Char.isDigit r).map fun p =>
        (if negative then -(natOf 10 p.1 : Int) else natOf 10 p.1, p.2)
    else none
  | [] => none

def decimal (t : Text) : Read Toml :=
  let (negative, r) := sign t
  match whole? r with
  | none => malformed
  | some (ds, r) =>
    let fraction := fraction? r
    let (fs, r) := fraction.getD ([], r)
    let power := power? r
    let (e, r) := power.getD (0, r)
    if fraction.isNone && power.isNone then
      if maxDigits < ds.length then .error (.longInteger ds.length)
      else .ok (.int (if negative then -(natOf 10 ds : Int) else natOf 10 ds), r)
    else .ok (.real (Binary64.ofDecimal negative (natOf 10 (ds ++ fs)) (e - fs.length)), r)

def special? (t : Text) : Option (Toml × Text) :=
  let (negative, r) := sign t
  match r with
  | 'i' :: 'n' :: 'f' :: r => some (.real (.infinite negative), r)
  | 'n' :: 'a' :: 'n' :: r => some (.real .nan, r)
  | _ => none

def number (t : Text) : Read Toml :=
  match t with
  | '0' :: r => match based? r with
    | some (n, r) => .ok (.int n, r)
    | none => decimal t
  | _ => match special? t with
    | some p => .ok p
    | none => decimal t

/-! ## Dates and times -/

def fixed? (count low high : Nat) (t : Text) : Option (Nat × Text) :=
  let ds := t.take count
  let n := natOf 10 ds
  if ds.length = count && ds.all Char.isDigit && low ≤ n && n ≤ high then some (n, t.drop count) else none

def mark? (m : Char) : Text → Option Text
  | c :: r => if c = m then some r else none
  | [] => none

def afterTime? (t : Text) : Option Text := do
  let (_, t) ← fixed? 2 0 23 t
  let t ← mark? ':' t
  let (_, t) ← fixed? 2 0 59 t
  let t ← mark? ':' t
  let (_, t) ← fixed? 2 0 59 t
  return match t with
  | '.' :: c :: r => if c.isDigit then r.dropWhile Char.isDigit else '.' :: c :: r
  | t => t

def afterOffset (t : Text) : Text :=
  let hours (r : Text) : Option Text := do
    let (_, r) ← fixed? 2 0 23 r
    let r ← mark? ':' r
    let (_, r) ← fixed? 2 0 59 r
    return r
  match t with
  | c :: r =>
    if c = 'Z' || c = 'z' then r
    else if c = '+' || c = '-' then (hours r).getD t
    else t
  | [] => []

def daysIn (year month : Nat) : Nat :=
  if month = 2 then
    if (year % 4 = 0 && year % 100 != 0) || year % 400 = 0 then 29 else 28
  else if month = 4 || month = 6 || month = 9 || month = 11 then 30 else 31

def date? (t : Text) : Option ((Nat × Nat × Nat) × Text) := do
  let (year, t) ← fixed? 4 0 9999 t
  let t ← mark? '-' t
  let (month, t) ← fixed? 2 1 12 t
  let t ← mark? '-' t
  let (day, t) ← fixed? 2 1 31 t
  return ((year, month, day), t)

def afterDate (t : Text) : Text :=
  match t with
  | c :: r =>
    if c = 'T' || c = 't' || c = ' ' then
      match afterTime? r with
      | some r => afterOffset r
      | none => t
    else t
  | [] => []

/-- A date, with a time or without, or a time of day; a day that its month does not have is
refused. -/
def moment? (t : Text) : Option (Read Toml) :=
  match date? t with
  | some ((year, month, day), r) =>
    let r := afterDate r
    some (if 1 ≤ year && day ≤ daysIn year month then .ok (.moment, r) else malformed)
  | none => (afterTime? t).map fun r => .ok (.moment, r)

/-- **A value without parts.** -/
def scalar (bound : Nat) (t : Text) : Read Toml :=
  match t with
  | '"' :: _ => (quoted bound t).map fun p => (.string p.1, p.2)
  | '\'' :: _ => (quoted bound t).map fun p => (.string p.1, p.2)
  | 't' :: 'r' :: 'u' :: 'e' :: r => .ok (.bool true, r)
  | 'f' :: 'a' :: 'l' :: 's' :: 'e' :: r => .ok (.bool false, r)
  | _ => match moment? t with
    | some read => read
    | none => number t

end AgentRules.Toml
