import AgentRules.Header

/-!
# Writing headers

Fields are written one a line. A list is written on its field's line, in brackets, with its items
in quotation marks; a text that would not be read back as it is stands in quotation marks too.
-/

namespace AgentRules.Header

/-- A text that means something else when it is written bare. -/
def needsQuotes (t : Text) : Bool :=
  t = "true".toList || t = "false".toList || t != Text.trim t ||
    (2 ≤ t.length && t.head? = some '"' && t.getLast? = some '"')

def quoted (t : Text) : Text := '"' :: t ++ ['"']

def flowList (ts : List Text) : Text :=
  '[' :: Text.join [',', ' '] (ts.map quoted) ++ [']']

def Value.written : Value → Text
  | .flag b => if b then "true".toList else "false".toList
  | .items ts => flowList ts
  | .text t => if needsQuotes t then quoted t else t

def fieldLine (f : Text × Value) : Text := f.1 ++ [':', ' '] ++ f.2.written

def dashes : Text := ['-', '-', '-']

def written (fs : Fields) : Text :=
  dashes ++ '\n' :: Text.join ['\n'] (fs.map fieldLine) ++ '\n' :: dashes ++ ['\n']

end AgentRules.Header
