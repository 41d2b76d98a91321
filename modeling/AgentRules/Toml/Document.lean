import AgentRules.Toml.Scalar

/-!
# TOML documents

A document is a list of statements, one a line: a member with its value, the header of a table, or
the header of an array of tables. Tables that have been closed cannot be opened again: those with
a header of their own, those that dotted keys have made in an earlier section, and everything that
was written as a value.
-/

namespace AgentRules.Toml

/-! ## Keys and comments -/

def isKeyChar (c : Char) : Bool := c.isAlphanum || c = '-' || c = '_'

def keyPart (bound : Nat) (t : Text) : Read Text :=
  match t with
  | c :: _ =>
    if isKeyChar c then .ok (t.takeWhile isKeyChar, t.dropWhile isKeyChar) else shortString bound t
  | [] => malformed

def key : Nat → Text → Read (List Text)
  | 0, _ => malformed
  | n + 1, t => (keyPart (n + 1) t).bind fun p => match skipSpace p.2 with
    | '.' :: r => (key n (skipSpace r)).map fun q => (p.1 :: q.1, q.2)
    | r => .ok ([p.1], r)

def skipComment (t : Text) : Except Fault Text :=
  match t with
  | '#' :: r =>
    if (r.takeWhile (· != '\n')).any isControl then malformed else .ok (r.dropWhile (· != '\n'))
  | t => .ok t

def skipBetween : Nat → Text → Except Fault Text
  | 0, _ => malformed
  | n + 1, t => match t.dropWhile isSpaceOrFeed with
    | '#' :: r => (skipComment ('#' :: r)).bind (skipBetween n)
    | r => .ok r

/-! ## Values -/

def isWithin (closed : List (List Text)) (path : List Text) : Bool := closed.any (·.isPrefixOf path)

/-- How deep values may lie in one another: an array counts for two steps, an inline table for
three. The format has no such limit. It is one of the machine that runs the reader, which allows a
thousand calls in one another: so many are left of them where a value is read. -/
def maxDepth : Nat := 986

def arrayDepth : Nat := 2

def tableDepth : Nat := 3

/-- Whether later keys may not reach into a value. -/
def isWhole : Toml → Bool
  | .array _ => true
  | .table _ => true
  | _ => false

def addAt (path : List Text) (v : Toml) (t : Table) : Except Fault Table :=
  match path.getLast? with
  | some k => match Table.within (Table.add k v) path.dropLast t with
    | some t => .ok t
    | none => malformed
  | none => malformed

mutual

/-- **Values**, by a bound on the steps and by how much deeper values may lie in it. -/
def value : Nat → Nat → Text → Read Toml
  | 0, _, _ => malformed
  | n + 1, depth, '[' :: r =>
    if depth < arrayDepth then .error .deepNesting
    else (skipBetween (n + 1) r).bind fun r => match r with
      | ']' :: r => .ok (.array [], r)
      | r => (elements n (depth - arrayDepth) r).map fun p => (.array p.1, p.2)
  | n + 1, depth, '\x7b' :: r =>
    if depth < tableDepth then .error .deepNesting
    else match skipSpace r with
      | '\x7d' :: r => .ok (.table [], r)
      | r => (members n (depth - tableDepth) [] [] r).map fun p => (.table p.1, p.2)
  | n + 1, _, t => scalar (n + 1) t

/-- The elements of an array up to its closing bracket; a comma may stand after the last. -/
def elements : Nat → Nat → Text → Read (List Toml)
  | 0, _, _ => malformed
  | n + 1, depth, t => (value n depth t).bind fun p => (skipBetween (n + 1) p.2).bind fun r => match r with
    | ']' :: r => .ok ([p.1], r)
    | ',' :: r => (skipBetween (n + 1) r).bind fun r => match r with
      | ']' :: r => .ok ([p.1], r)
      | r => (elements n depth r).map fun q => (p.1 :: q.1, q.2)
    | _ => malformed

/-- The members of an inline table up to its closing brace, after those read so far; the paths to
the values that later keys may not reach into come first. -/
def members : Nat → Nat → List (List Text) → Table → Text → Read Table
  | 0, _, _, _, _ => malformed
  | n + 1, depth, closed, ms, t => (member n depth t).bind fun p =>
    if isWithin closed p.1.1 then malformed
    else (addAt p.1.1 p.1.2 ms).bind fun ms => match skipSpace p.2 with
      | '\x7d' :: r => .ok (ms, r)
      | ',' :: r => members n depth (if isWhole p.1.2 then p.1.1 :: closed else closed) ms (skipSpace r)
      | _ => malformed

def member : Nat → Nat → Text → Read (List Text × Toml)
  | 0, _, _ => malformed
  | n + 1, depth, t => (key (n + 1) t).bind fun p => match p.2 with
    | '=' :: r => (value n depth (skipSpace r)).map fun q => ((p.1, q.1), q.2)
    | _ => malformed

end

/-! ## Statements -/

structure Reading where
  root : Table := []
  /-- The path of the table that members are added to. -/
  here : List Text := []
  /-- Paths of tables that no header may open again. -/
  declared : List (List Text) := []
  /-- The dotted keys of this section, each with the path of the table that it starts from. -/
  dotted : List (List Text × List Text) := []
  /-- Paths of values that nothing may reach into. -/
  closed : List (List Text) := []

namespace Reading

/-- The paths of the tables that dotted keys go through, from a table on and without the last key. -/
def through (base path : List Text) : List (List Text) :=
  (List.range (path.length - 1)).map fun i => base ++ path.take (i + 1)

def passes (base path table : List Text) : Bool :=
  base.length < table.length && table.isPrefixOf (base ++ path.dropLast)

def addMember (s : Reading) (path : List Text) (v : Toml) : Except Fault Reading :=
  if s.declared.any (passes s.here path) then malformed
  else if isWithin s.closed (s.here ++ path.dropLast) then malformed
  else (addAt (s.here ++ path) v s.root).map fun root =>
    { s with
      root
      dotted := (s.here, path) :: s.dotted
      closed := if isWhole v then (s.here ++ path) :: s.closed else s.closed }

/-- Ends a section: the tables that its dotted keys have gone through are closed. -/
def endSection (s : Reading) : Reading :=
  { s with declared := (s.dotted.flatMap fun d => through d.1 d.2) ++ s.declared, dotted := [] }

def openTable (s : Reading) (path : List Text) : Except Fault Reading :=
  let s := s.endSection
  if s.declared.contains path || isWithin s.closed path then malformed
  else match Table.within some path s.root with
    | some root => .ok { s with root, here := path, declared := path :: s.declared }
    | none => malformed

def openElement (s : Reading) (path : List Text) : Except Fault Reading :=
  let s := s.endSection
  let free (paths : List (List Text)) := paths.filter fun p => !path.isPrefixOf p
  if isWithin s.closed path then malformed
  else match path.getLast? with
    | none => malformed
    | some k => match Table.within (Table.append k) path.dropLast s.root with
      | some root =>
        .ok { s with root, here := path, declared := path :: free s.declared, closed := free s.closed }
      | none => malformed

def statement (bound : Nat) (s : Reading) (t : Text) : Except Fault (Reading × Text) :=
  match t with
  | '[' :: '[' :: r => (key bound (skipSpace r)).bind fun p => match p.2 with
    | ']' :: ']' :: r => (s.openElement p.1).map (·, r)
    | _ => malformed
  | '[' :: r => (key bound (skipSpace r)).bind fun p => match p.2 with
    | ']' :: r => (s.openTable p.1).map (·, r)
    | _ => malformed
  | c :: _ =>
    if isKeyChar c || c = '"' || c = '\'' then
      (member (3 * bound) maxDepth t).bind fun p => (s.addMember p.1.1 p.1.2).map (·, p.2)
    else .ok (s, t)
  | [] => .ok (s, [])

def lines (bound : Nat) : Nat → Reading → Text → Except Fault Reading
  | 0, _, _ => malformed
  | n + 1, s, t => (s.statement bound (skipSpace t)).bind fun p =>
    (skipComment (skipSpace p.2)).bind fun r => match r with
      | [] => .ok p.1
      | '\n' :: r => lines bound n p.1 r
      | _ => malformed

end Reading

/-- A carriage return before a line feed is no part of a document. -/
def dropReturns : Text → Text
  | '\r' :: '\n' :: r => '\n' :: dropReturns r
  | c :: r => c :: dropReturns r
  | [] => []

def Table.ofText (t : Text) : Except Fault Table :=
  let t := dropReturns t
  let bound := t.length + 1
  (Reading.lines bound bound {} t).map (·.root)

end AgentRules.Toml
