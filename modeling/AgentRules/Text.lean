/-!
# Texts

A document is read character by character, so a text is the list of its characters. Here are
the cuts that need no knowledge of character classes: at a separator, at the first occurrence
of a pattern, and the order of texts by code point.
-/

namespace AgentRules

abbrev Text := List Char

namespace Text

def push (c : Char) : List Text → List Text
  | [] => [[c]]
  | l :: ls => (c :: l) :: ls

/-- **Fields.** The pieces of a text between the occurrences of a separator. There is always
one more piece than there are separators. -/
def fields (sep : Char) : Text → List Text
  | [] => [[]]
  | c :: r => if c = sep then [] :: fields sep r else push c (fields sep r)

/-- The inverse of `fields`, for a separator of any length. -/
def join (sep : Text) : List Text → Text
  | [] => []
  | [t] => t
  | t :: ts => t ++ sep ++ join sep ts

def cut? (sep : Char) : Text → Option (Text × Text)
  | [] => none
  | c :: r => if c = sep then some ([], r) else (cut? sep r).map fun p => (c :: p.1, p.2)

def cutAt? (p : Text) : Text → Option (Text × Text)
  | [] => none
  | c :: r => match p.isPrefixOf? (c :: r) with
    | some rest => some ([], rest)
    | none => (cutAt? p r).map fun q => (c :: q.1, q.2)

def indexOf? (p : Text) : Text → Option Nat
  | [] => if p.isEmpty then some 0 else none
  | c :: r => if p.isPrefixOf (c :: r) then some 0 else (indexOf? p r).map (· + 1)

def occursIn (p t : Text) : Bool := (indexOf? p t).isSome

/-- Texts in the order of their code points; a text comes after what it starts with. -/
def le : Text → Text → Bool
  | [], _ => true
  | _ :: _, [] => false
  | a :: s, b :: t => a < b || (a == b && le s t)

def isQuote (c : Char) : Bool := c = '"' || c = '\''

/-- A value that stands between two quotation marks loses them. -/
def unquote : Text → Text
  | '"' :: r => if r.getLast? = some '"' then r.dropLast else '"' :: r
  | t => t

end Text

def nameLe (a b : String) : Bool := Text.le a.toList b.toList

def sortNames (names : List String) : List String := names.mergeSort nameLe

end AgentRules
