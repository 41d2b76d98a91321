import AgentRules.Number.Decimal
import AgentRules.Text.Utf8

/-!
# JSON

Values and their one-line text: members in the order of their names, a blank after each comma
and colon, and nothing but printable ASCII. A character above U+FFFF is written as two escapes.
-/

namespace AgentRules

inductive Json
  | null
  | bool (b : Bool)
  | int (n : Int)
  | real (x : Binary64)
  | str (s : String)
  | list (vs : List Json)
  | object (members : List (String × Json))

namespace Json

def escapeUnit (n : Nat) : List Char :=
  '\\' :: 'u' :: [n / 4096, n / 256 % 16, n / 16 % 16, n % 16].map Utf8.hexDigit

def escapeChar (c : Char) : List Char :=
  let n := c.toNat
  if c = '"' then ['\\', '"']
  else if c = '\\' then ['\\', '\\']
  else if 0x20 ≤ n && n < 0x7f then [c]
  else if c = '\n' then ['\\', 'n']
  else if c = '\r' then ['\\', 'r']
  else if c = '\t' then ['\\', 't']
  else if n = 0x8 then ['\\', 'b']
  else if n = 0xc then ['\\', 'f']
  else if n < 0x10000 then escapeUnit n
  else escapeUnit (0xd800 + (n - 0x10000) / 0x400) ++ escapeUnit (0xdc00 + (n - 0x10000) % 0x400)

def quote (s : String) : String := String.ofList ('"' :: s.toList.flatMap escapeChar ++ ['"'])

def sortMembers (ms : List (String × α)) : List (String × α) :=
  ms.mergeSort fun a b => nameLe a.1 b.1

mutual

def text : Json → String
  | null => "null"
  | bool b => if b then "true" else "false"
  | int n => toString n
  | real x => x.text
  | str s => quote s
  | list vs => "[" ++ ", ".intercalate (texts vs) ++ "]"
  | object ms => "\x7b" ++ ", ".intercalate ((sortMembers (memberTexts ms)).map Prod.snd) ++ "\x7d"

def texts : List Json → List String
  | [] => []
  | v :: vs => text v :: texts vs

def memberTexts : List (String × Json) → List (String × String)
  | [] => []
  | (k, v) :: ms => (k, quote k ++ ": " ++ text v) :: memberTexts ms

end

def ofOption (f : α → Json) : Option α → Json
  | none => null
  | some a => f a

def strings (ss : List String) : Json := list (ss.map str)

end Json
end AgentRules
