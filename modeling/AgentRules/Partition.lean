import AgentRules.Budget

/-!
# Partitions

A document that is too heavy is divided. If its body has sections, as many of them as fit go into
each part, in order; else its paragraphs are halved. A document that would not come to two parts
with something in them is left whole.
-/

namespace AgentRules

/-- One part of a divided document and its place, counted from one. -/
structure Part where
  number : Nat
  body : Text
  deriving DecidableEq, Repr

def Part.suffix (p : Part) : String := s!"-part{p.number}"

namespace Partition

def mark : Text := ['#', '#', ' ']

/-- Cuts a text before every line that opens a section. The flag says that a line starts here. -/
def cutSections : Bool → Text → List Text
  | _, [] => [[]]
  | start, c :: r =>
    let rest := Text.push c (cutSections (c = '\n') r)
    if start && mark.isPrefixOf (c :: r) then [] :: rest else rest

/-- The sections of a body that are not blank; what stands before the first one is one too. -/
def sections (body : Text) : List Text := (cutSections true body).filter (!Text.allBlank ·)

/-- Cuts a text at runs of two or more line feeds. The flag says that such a run has begun. -/
def cutParagraphs : Bool → Text → List Text
  | _, [] => [[]]
  | false, '\n' :: r =>
    if r.head? = some '\n' then [] :: cutParagraphs true r else Text.push '\n' (cutParagraphs false r)
  | true, '\n' :: r => cutParagraphs true r
  | _, c :: r => Text.push c (cutParagraphs false r)

def paragraphs (body : Text) : List Text := (cutParagraphs false body).filter (!Text.allBlank ·)

/-- Groups sections in order. A section joins the group before it while their weights together do
not exceed the budget; the arguments are that group, the latest section first, and its weight. -/
def pack (budget : Int) : List Text → Nat → List Text → List (List Text)
  | group, _, [] => if group.isEmpty then [] else [group.reverse]
  | group, weight, s :: ss =>
    if !group.isEmpty && budget < weight + tokens s then
      group.reverse :: pack budget [s] (tokens s) ss
    else pack budget (s :: group) (weight + tokens s) ss

/-- The first half of the paragraphs and the rest; of an odd number the first half has one more. -/
def halves (ps : List Text) : List (List Text) :=
  let middle := (ps.length + 1) / 2
  [ps.take middle, ps.drop middle]

def chunks (budget : Int) (body : Text) : List Text :=
  let ss := sections body
  let cs :=
    if ss.length ≤ 1 then (halves (paragraphs body)).map (Text.join ['\n', '\n'])
    else (pack budget [] 0 ss).map (Text.join ['\n'])
  cs.filter (!Text.allBlank ·)

def number : Nat → List Text → List Part
  | _, [] => []
  | n, c :: cs => ⟨n, c⟩ :: number (n + 1) cs

end Partition

/-- **The parts of a document**, if it is too heavy and can be divided. -/
def partition? (budget : Int) (t : Text) : Option (List Part) :=
  if tokens t ≤ budget then none
  else
    let cs := Partition.chunks budget (Header.body t)
    if cs.length < 2 then none else some (Partition.number 1 cs)

end AgentRules
