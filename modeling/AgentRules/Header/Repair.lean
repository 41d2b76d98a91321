import AgentRules.Header.Written
import AgentRules.Text.Word

/-!
# Repairing headers

A document without a header gets a minimal one. A header whose indentation is not understood has
its stray indentation taken away, a blank put after a colon that follows a word at the start of a
line, and the patterns of its bracketed lists of globs put in quotation marks. Every other
document stays as it is, and the body is never touched.
-/

namespace AgentRules.Header

def minimal : Text := "---\ndescription: \nalwaysApply: false\n---\n".toList

/-! ## Indentation -/

/-- Takes the indentation of misplaced lines away. A line counts as the one before only if it is
not blank. -/
def dedent : Text → List Text → List Text
  | _, [] => []
  | previous, l :: ls =>
    if Text.allBlank l then l :: dedent previous ls
    else
      let l := if isMisplaced previous l then Text.trim l else l
      l :: dedent l ls

/-! ## Colons -/

/-- Puts a blank after the colon of a line that starts with a word and a colon and goes on with
no blank. -/
def spaceColon (line : Text) : Text :=
  let word := line.takeWhile Text.isWord
  match word, line.dropWhile Text.isWord with
  | _ :: _, ':' :: c :: r => if Text.isBlank c then line else word ++ ':' :: ' ' :: c :: r
  | _, _ => line

/-! ## Bracketed lists of globs -/

def globItems (inside : Text) : List Text :=
  ((Text.fields ',' inside).map fun t =>
    ((((Text.trim t).dropWhile Text.isQuote).reverse).dropWhile Text.isQuote).reverse).filter (!·.isEmpty)

/-- What stands between the brackets of a list of globs at the start of a text, and the number of
characters up to its end. -/
def flowGlobs? (t : Text) : Option (Text × Nat) :=
  (("globs:".toList).isPrefixOf? t).bind fun r => match Text.trimLeft r with
    | '[' :: s => (Text.cut? ']' s).map fun p =>
      (p.1, 6 + (r.takeWhile Text.isBlank).length + 1 + p.1.length + 1)
    | _ => none

/-- Quotes the items of bracketed lists of globs. The count is of the characters still to be
passed over, which belong to a list that has been written already. -/
def quoteGlobs : Nat → Text → Text
  | _, [] => []
  | n + 1, _ :: r => quoteGlobs n r
  | 0, c :: r => match flowGlobs? (c :: r) with
    | some (inside, length) =>
      "globs: ".toList ++ flowList (globItems inside) ++ quoteGlobs (length - 1) r
    | none => c :: quoteGlobs 0 r

/-- Quotes the items of every bracketed list of globs. No list goes on after the last bracket. -/
def quoteAllGlobs (t : Text) : Text :=
  let after := (t.reverse.takeWhile (· != ']')).reverse
  let before := (t.reverse.dropWhile (· != ']')).reverse
  quoteGlobs 0 before ++ after

def repairBlock (block : Text) : Text :=
  let rows := (dedent [] (Text.rows block)).map spaceColon
  quoteAllGlobs (Text.join ['\n'] rows)

def repair (t : Text) : Text :=
  match ofText t, cut? t with
  | absent, _ => minimal ++ t
  | malformed, some (block, rest) => dashes ++ '\n' :: repairBlock block ++ '\n' :: dashes ++ rest
  | _, _ => t

end AgentRules.Header
