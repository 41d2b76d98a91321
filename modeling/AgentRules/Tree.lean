import AgentRules.Path
import AgentRules.Text.Lines

/-!
# File trees

The files that a run can see: at each place, which is the list of names from the root, a file with
its bytes or a directory. No place is listed twice. The root is a directory. Every other place that
holds something lies in a directory, which `plant` takes care of.

Left out are links, and failures of the system that keeps the files: every directory can be listed, and
every file can be read, written and removed. What can go wrong is that a directory stands where a file
is asked for, that a name or a path is too long, and that the bytes of a file are not UTF-8.
-/

namespace AgentRules

/-- Names from the root. -/
abbrev Place := List String

inductive Node
  | file (bytes : Bytes)
  | directory
  deriving DecidableEq, Repr

structure Tree where
  entries : List (Place × Node)
  nodup : (entries.map (·.1)).Nodup
  deriving Repr

namespace Tree

def empty : Tree := ⟨[], List.nodup_nil⟩

def lookup (p : Place) : List (Place × Node) → Option Node
  | [] => none
  | (q, n) :: es => if q = p then some n else lookup p es

def get? (t : Tree) (p : Place) : Option Node :=
  if p.isEmpty then some .directory else lookup p t.entries

def insert (p : Place) (n : Node) : List (Place × Node) → List (Place × Node)
  | [] => [(p, n)]
  | (q, m) :: es => if q = p then (p, n) :: es else (q, m) :: insert p n es

theorem mem_map_fst_insert {p q : Place} {n : Node} : ∀ {es : List (Place × Node)},
    q ∈ (insert p n es).map (·.1) → q = p ∨ q ∈ es.map (·.1)
  | [], h => by simpa [insert] using h
  | (r, m) :: es, h => by
    by_cases hr : r = p
    · simp only [insert, hr, ite_true, List.map_cons, List.mem_cons] at h ⊢
      exact h.imp_right Or.inr
    · simp only [insert, hr, ite_false, List.map_cons, List.mem_cons] at h ⊢
      rcases h with h | h
      · exact Or.inr (Or.inl h)
      · exact (mem_map_fst_insert h).imp_right Or.inr

theorem nodup_insert (p : Place) (n : Node) : ∀ {es : List (Place × Node)},
    (es.map (·.1)).Nodup → ((insert p n es).map (·.1)).Nodup
  | [], _ => by simp [insert]
  | (r, m) :: es, h => by
    rw [List.map_cons, List.nodup_cons] at h
    by_cases hr : r = p
    · subst hr; simpa [insert] using h
    · simp only [insert, hr, ite_false, List.map_cons, List.nodup_cons]
      refine ⟨fun hm => ?_, nodup_insert p n h.2⟩
      rcases mem_map_fst_insert hm with hm | hm
      · exact hr hm
      · exact h.1 hm

def set (t : Tree) (p : Place) (n : Node) : Tree := ⟨insert p n t.entries, nodup_insert p n t.nodup⟩

def erase (t : Tree) (p : Place) : Tree :=
  ⟨t.entries.filter (·.1 ≠ p), t.nodup.sublist (List.filter_sublist.map _)⟩

def isFile (t : Tree) (p : Place) : Bool :=
  match t.get? p with
  | some (.file _) => true
  | _ => false

def isDirectory (t : Tree) (p : Place) : Bool := t.get? p = some .directory

def names (t : Tree) (dir : Place) : List String :=
  sortNames (t.entries.filterMap fun e => if e.1.dropLast = dir then e.1.getLast? else none)

/-- Makes a place and the places above it directories where there is nothing yet. -/
def makeDirectories (t : Tree) : Place → List String → Tree
  | _, [] => t
  | here, name :: rest =>
    let next := here ++ [name]
    let t := if (t.get? next).isSome then t else t.set next .directory
    t.makeDirectories next rest

def plant (t : Tree) (p : Place) (n : Node) : Tree :=
  match n with
  | .directory => t.makeDirectories [] p
  | .file _ => (t.makeDirectories [] p.dropLast).set p n

/-! ## Texts in files -/

/-- **Reading.** A file is read as UTF-8, and its line ends become line feeds. -/
def read? (t : Tree) (p : Place) : Option (Except Utf8.Fault Text) :=
  match t.get? p with
  | some (.file bytes) => some ((Utf8.decode bytes).map Text.unifyLineEnds)
  | _ => none

def write (t : Tree) (p : Place) (text : Text) : Tree := t.set p (.file (Utf8.encode text))

/-! ## Changes -/

inductive Change
  | write (place : Place) (bytes : Bytes)
  | remove (place : Place)
  deriving DecidableEq, Repr

/-- The files that one tree has otherwise than another, and those that it has no more. -/
def changes (before after : Tree) : List Change :=
  (after.entries.filterMap fun e => match e.2 with
    | .file bytes => if before.get? e.1 = some e.2 then none else some (.write e.1 bytes)
    | .directory => none) ++
  before.entries.filterMap fun e => if (after.get? e.1).isNone then some (.remove e.1) else none

end Tree

/-! ## Faults -/

inductive FileFault
  | directory (path : Path)
  | tooLong (path : Path)
  deriving DecidableEq, Repr

def FileFault.message : FileFault → String
  | directory path => s!"[Errno 21] Is a directory: {path.quoted}"
  | tooLong path => s!"[Errno 36] File name too long: {path.quoted}"

namespace Tree

def nameLimit : Nat := 255

/-- The number of bytes from which on a path is not followed at all. -/
def pathLimit : Nat := 4096

def isLongName (name : String) : Bool := nameLimit < name.utf8ByteSize

def isLongPath (p : Path) : Bool := pathLimit ≤ p.text.utf8ByteSize

/-- What keeps a file from being written at a place in a directory, which a path leads to. -/
def writeFault? (t : Tree) (path : Path) (place : Place) : Option FileFault :=
  if isLongPath path || isLongName path.name then some (.tooLong path)
  else if t.isDirectory place then some (.directory path)
  else none

/-! ## Following paths -/

/-- Where names lead to: to a place, to nothing, or to a name that is too long to be looked up. -/
inductive Found
  | place (p : Place)
  | nothing
  | longName
  deriving DecidableEq, Repr

/-- Follows names from a place. Each step starts in a directory, also one that leads back. -/
def follow (t : Tree) (here : Place) : List String → Found
  | [] => .place here
  | name :: rest =>
    if !t.isDirectory here then .nothing
    else if name = ".." then t.follow here.dropLast rest
    else if isLongName name then .longName
    else if (t.get? (here ++ [name])).isSome then t.follow (here ++ [name]) rest
    else .nothing

end Tree

def Path.origin (cwd : Place) (p : Path) : Place := if p.start = .here then cwd else []

def Path.goOn (here : Place) (name : String) : Place :=
  if name = ".." then here.dropLast else here ++ [name]

def Path.resolve (cwd : Place) (p : Path) : Place := p.parts.foldl goOn (p.origin cwd)

def Path.visited (cwd : Place) (p : Path) : List Place :=
  (List.range p.parts.length).map fun i => (p.parts.take (i + 1)).foldl goOn (p.origin cwd)

def Path.ofPlace (p : Place) : Path := ⟨.root, p⟩

structure Workspace where
  tree : Tree
  cwd : Place

namespace Workspace

/-- **The place of a path**, if there is something. A path that is too long is refused, and so is
one that comes to a name that is too long; but at a path that no file can have there is nothing. -/
def locate (w : Workspace) (p : Path) : Except FileFault (Option Place) :=
  if p.hasNull then .ok none
  else if Tree.isLongPath p then .error (.tooLong p)
  else match w.tree.follow (p.origin w.cwd) p.parts with
    | .place q => .ok (some q)
    | .nothing => .ok none
    | .longName => .error (.tooLong p)

end Workspace
end AgentRules
