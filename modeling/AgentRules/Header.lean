import AgentRules.Text.Blank
import AgentRules.Text.Lines

/-!
# Document headers

A document may start with a header: a line of three dashes, a block of lines, and three dashes at
the start of a line. The block holds one field a line, a key and a value with a colon between
them; a field without a value may be followed by its items, one a line after a dash. Reading a
header gives one of three answers: there is none, its indentation is not understood, or the
fields in the order in which their keys first appear.
-/

namespace AgentRules

namespace Header

inductive Value
  | flag (b : Bool)
  | text (t : Text)
  | items (ts : List Text)
  deriving DecidableEq, Repr

/-- Fields in the order in which their keys first appear; no key appears twice. -/
abbrev Fields := List (Text × Value)

namespace Fields

def get? (k : Text) : Fields → Option Value
  | [] => none
  | (j, v) :: fs => if j = k then some v else get? k fs

/-- A key that is there keeps its place and takes the new value; a new key comes last. -/
def put (k : Text) (v : Value) : Fields → Fields
  | [] => [(k, v)]
  | (j, w) :: fs => if j = k then (k, v) :: fs else (j, w) :: put k v fs

end Fields
end Header

inductive Header
  | absent
  | malformed
  | fields (fs : Header.Fields)
  deriving DecidableEq, Repr

namespace Header

/-! ## Where a header ends -/

def afterClose? (t : Text) : Option Text :=
  (Text.afterLineEnd? t).bind fun r => ['-', '-', '-'].isPrefixOf? r

/-- Cuts at the first line end with three dashes after it. -/
def cutBlock? : Text → Option (Text × Text)
  | [] => none
  | c :: r => match afterClose? (c :: r) with
    | some rest => some ([], rest)
    | none => (cutBlock? r).map fun p => (c :: p.1, p.2)

/-- **The header grammar.** Three dashes, a line end, the block, a line end, three dashes: the
block, which is as short as can be, and the text after the dashes. -/
def cut? : Text → Option (Text × Text)
  | '-' :: '-' :: '-' :: r => (Text.afterLineEnd? r).bind cutBlock?
  | _ => none

/-- The text after the header, without the line end that closes it. -/
def body (t : Text) : Text :=
  match cut? t with
  | none => t
  | some (_, rest) => (Text.afterLineEnd? rest).getD rest

def extent (t : Text) : Nat := t.length - (body t).length

/-! ## Fields -/

inductive Line
  | item (t : Text)
  | field (k v : Text)
  | other
  deriving DecidableEq, Repr

def Line.ofText (raw : Text) : Line :=
  match Text.trim raw with
  | ['-'] => .item []
  | '-' :: ' ' :: r => .item (Text.unquote (Text.trim r))
  | _ => match Text.cut? ':' raw with
    | some (k, v) => .field (Text.trim k) (Text.trim v)
    | none => .other

def Value.ofText (t : Text) : Value :=
  if t = "true".toList then .flag true
  else if t = "false".toList then .flag false
  else .text (Text.unquote t)

/-- The items before the first line that is none. -/
def itemsAtFront : List Line → List Text
  | .item t :: ls => t :: itemsAtFront ls
  | _ => []

/-- The value of a field: what its own line says or, if that is nothing, the items after it. -/
def Value.ofLines (v : Text) (after : List Line) : Value :=
  if v.isEmpty && !(itemsAtFront after).isEmpty then .items (itemsAtFront after) else Value.ofText v

/-- Adds the fields of some lines to those read before them. -/
def gather : Fields → List Line → Fields
  | fs, [] => fs
  | fs, .field k v :: ls => gather (fs.put k (Value.ofLines v ls)) ls
  | fs, _ :: ls => gather fs ls

/-! ## Indentation -/

def isIndented : Text → Bool
  | c :: _ => c = ' ' || c = '\t'
  | [] => false

def endsWithColon (t : Text) : Bool := (Text.trimRight t).getLast? = some ':'

/-- An indented line is in place if it is an item, or if the line before it ends with a colon. -/
def isMisplaced (previous line : Text) : Bool :=
  isIndented line && (Text.trim line).head? != some '-' && !endsWithColon previous

def wellIndented : Text → List Text → Bool
  | _, [] => true
  | previous, l :: ls => !isMisplaced previous l && wellIndented l ls

def blockLines (block : Text) : List Text := (Text.lines block).filter (!Text.allBlank ·)

def ofBlock (block : Text) : Header :=
  let ls := blockLines block
  if wellIndented [] ls then fields (gather [] (ls.map Line.ofText)) else malformed

def ofText (t : Text) : Header :=
  match cut? t with
  | none => absent
  | some (block, _) => ofBlock block

/-! ## Access -/

def isFound : Header → Bool
  | absent => false
  | _ => true

/-- Found, and its fields could be read. -/
def isOk : Header → Bool
  | fields _ => true
  | _ => false

def fields? : Header → Option Fields
  | fields fs => some fs
  | _ => none

def error? : Header → Option String
  | malformed => some "Invalid YAML indentation"
  | _ => none

def get? (h : Header) (k : Text) : Option Value := h.fields?.bind (·.get? k)

end Header
end AgentRules
