import AgentRules.Comparison
import AgentRules.Event
import AgentRules.Header.Repair
import AgentRules.Partition

/-!
# Mending a project

Mending goes over the rules directory three times. First the headers are repaired, then the heavy
documents are divided, each into files of its own that take the place of the document, and last all
documents are compared for redundancy. A trial notes what would be done and writes nothing. What
cannot be read is reported once and passed over.
-/

namespace AgentRules

/-- How to mend: only on trial, with documents divided or not, and by which budget. -/
structure MendOptions where
  trial : Bool := false
  divide : Bool := true
  budget : Int := 1500
  deriving DecidableEq, Repr

namespace Mending

inductive Problem
  | noRules
  | unreadable (name : String) (fault : Utf8.Fault)
  deriving DecidableEq, Repr

def Problem.message : Problem → String
  | .noRules => "No .cursor/rules/ directory found"
  | .unreadable name fault => s!"Cannot read rule file {name}: {fault.message}"

structure Division where
  name : String
  parts : List String
  deriving DecidableEq, Repr

end Mending

/-- **What mending has done**, or would do. -/
structure Mending where
  repaired : List String := []
  divisions : List Mending.Division := []
  redundancies : List Redundancy := []
  problems : List Mending.Problem := []
  deriving DecidableEq, Repr

namespace Mending

/-- A run of mending: the files as they stand, what has been done, the places of unreadable
documents that have been reported, and what has been noted. -/
structure Run where
  tree : Tree
  done : Mending := {}
  reported : List Place := []
  events : List Event := []

namespace Run

def note (s : Run) (e : Event) : Run := { s with events := s.events ++ [e] }

/-- Reports a document that cannot be read, the first time only, and notes it every time. -/
def skip (s : Run) (d : Project.Document) (f : Utf8.Fault) : Run :=
  let s :=
    if s.reported.contains d.place then s
    else { s with
      reported := s.reported ++ [d.place]
      done := { s.done with problems := s.done.problems ++ [.unreadable d.name f] } }
  s.note (.skipped d.path f)

def write (trial : Bool) (s : Run) (p : Place) (t : Text) : Run :=
  if trial then s else { s with tree := s.tree.write p t }

/-! ## Headers -/

def repairOne (trial : Bool) (s : Run) (d : Project.Document) : Run :=
  match Project.readText s.tree d with
  | .error f => s.skip d f
  | .ok text =>
    let fixed := Header.repair text
    if fixed = text then s
    else
      let s := (s.write trial d.place fixed).note (.repaired d.path)
      { s with done := { s.done with repaired := s.done.repaired ++ [d.name] } }

def repairAll (trial : Bool) (s : Run) (ds : List Project.Document) : Run := ds.foldl (repairOne trial) s

/-! ## Parts -/

/-- A run that could not go on, because a part could not be written. -/
structure Stopped where
  run : Run
  fault : FileFault

def partName (d : Project.Document) (p : Part) : String :=
  (Project.stem? d.name).getD d.name ++ p.suffix ++ Project.ruleSuffix

/-- What the file for a part holds: the header of the document, if it has fields, and the part. -/
def partText (h : Header) (p : Part) : Text :=
  match h.fields? with
  | some fs => Header.written fs ++ p.body
  | none => p.body

def sibling (d : Project.Document) (name : String) : Project.Document :=
  ⟨⟨d.path.start, d.path.parts.dropLast ++ [name]⟩, d.place.dropLast ++ [name], d.kind⟩

def writePart (d : Project.Document) (h : Header) (s : Run) (p : Part) : Except Stopped Run :=
  let file := sibling d (partName d p)
  match s.tree.writeFault? file.path file.place with
  | some f => .error ⟨s, f⟩
  | none => .ok { s with tree := s.tree.write file.place (partText h p) }

def replaceByParts (s : Run) (d : Project.Document) (h : Header) (ps : List Part) : Except Stopped Run :=
  (ps.foldlM (writePart d h) s).map fun s => { s with tree := s.tree.erase d.place }

def divideOne (trial : Bool) (budget : Int) (s : Run) (d : Project.Document) : Except Stopped Run :=
  match Project.readText s.tree d with
  | .error f => .ok (s.skip d f)
  | .ok text => match partition? budget text with
    | none => .ok s
    | some ps =>
      let s := if trial then .ok s else s.replaceByParts d (Header.ofText text) ps
      s.map fun s => { s with
        done := { s.done with divisions := s.done.divisions ++ [⟨d.name, ps.map (partName d)⟩] } }

def divideAll (trial : Bool) (budget : Int) (s : Run) (ds : List Project.Document) : Except Stopped Run :=
  ds.foldlM (divideOne trial budget) s

/-! ## Redundancy -/

def readOne (p : Project) (s : Run × List Rule) (d : Project.Document) : Run × List Rule :=
  match p.readRule s.1.tree d with
  | .error f => (s.1.skip d f, s.2)
  | .ok r => (s.1, s.2 ++ [r])

def compare (p : Project) (s : Run) : Run :=
  let ds := p.documents s.tree
  let (s, rs) := ds.foldl (readOne p) (s.note (.found ds.length p.path), [])
  { s with done := { s.done with redundancies := AgentRules.redundancies {} rs } }

end Run

/-- **Mending a project.** -/
def run (options : MendOptions) (t : Tree) (p : Project) : Except Run.Stopped Run :=
  match p.rulesPlace? t with
  | none => .ok { tree := t, done := { problems := [.noRules] } }
  | some _ =>
    let s := Run.repairAll options.trial { tree := t } (p.modernDocuments t)
    let s :=
      if options.divide then s.divideAll options.trial options.budget (p.modernDocuments s.tree) else .ok s
    s.map (·.compare p)

end Mending
end AgentRules
