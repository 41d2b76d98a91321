import AgentRules.Rule
import AgentRules.Tree

/-!
# Projects

A project is a directory, named by the path under which a run is told about it. Its rule documents
are the legacy file, which comes first, and the files with the rule suffix in its rules directory,
in the order of their names.
-/

namespace AgentRules

/-- **Projects.** The path that a run is given and the place it leads to, if it leads anywhere. -/
structure Project where
  path : Path
  place? : Option Place
  deriving DecidableEq, Repr

namespace Project

def legacyName : String := ".cursorrules"

def rulesNames : List String := [".cursor", "rules"]

def ruleSuffix : String := ".mdc"

/-- The name of a rule document without its suffix; none for the name of anything else. -/
def stem? (name : String) : Option String :=
  match ruleSuffix.toList.reverse.isPrefixOf? name.toList.reverse with
  | some (c :: r) => some (String.ofList (c :: r).reverse)
  | _ => none

structure Document where
  path : Path
  place : Place
  kind : Kind
  deriving DecidableEq, Repr

def Document.name (d : Document) : String := d.path.name

def document (p : Project) (place : Place) (kind : Kind) (names : List String) : Document :=
  ⟨p.path.below names, place ++ names, kind⟩

def rulesPlace? (t : Tree) (p : Project) : Option Place :=
  match p.place? with
  | some place => if t.isDirectory (place ++ rulesNames) then some (place ++ rulesNames) else none
  | none => none

def hasLegacy (t : Tree) (p : Project) : Bool :=
  match p.place? with
  | some place => t.isFile (place ++ [legacyName])
  | none => false

def suffixedNames (t : Tree) (dir : Place) : List String :=
  (t.names dir).filter fun name => (stem? name).isSome

def ruleNames (t : Tree) (dir : Place) : List String :=
  (suffixedNames t dir).filter fun name => t.isFile (dir ++ [name])

def modernDocuments (t : Tree) (p : Project) : List Document :=
  match p.place?, p.rulesPlace? t with
  | some place, some dir =>
    (ruleNames t dir).map fun name => p.document place .modern (rulesNames ++ [name])
  | _, _ => []

def legacyDocuments (t : Tree) (p : Project) : List Document :=
  match p.place? with
  | some place =>
    if t.isFile (place ++ [legacyName]) then [p.document place .legacy [legacyName]] else []
  | none => []

def documents (t : Tree) (p : Project) : List Document :=
  p.legacyDocuments t ++ p.modernDocuments t

/-- The name under which a document is reported: its path as seen from the project. -/
def identifier (p : Project) (d : Document) : String := (p.path.seenFrom d.path).text

/-- Reads a document. One that is not there has no text. Nothing but bytes that are not UTF-8 keeps a
document from being read. -/
def readText (t : Tree) (d : Document) : Except Utf8.Fault Text := (t.read? d.place).getD (.ok [])

def readRule (t : Tree) (p : Project) (d : Document) : Except Utf8.Fault Rule :=
  (readText t d).map fun text => ⟨p.identifier d, d.kind, text⟩

structure Unreadable where
  path : Path
  fault : Utf8.Fault
  deriving DecidableEq, Repr

def Unreadable.message (u : Unreadable) : String :=
  s!"Cannot read rule file {u.path.text}: {u.fault.message}"

/-- **Loading.** All rules of a project; one that cannot be read is refused. -/
def rules (t : Tree) (p : Project) : Except Unreadable (List Rule) :=
  (p.documents t).mapM fun d => match p.readRule t d with
    | .ok r => .ok r
    | .error f => .error ⟨d.path, f⟩

/-! ## Skills -/

def skillNames : List (List String) := [[".claude", "skills"], [".cursor", "skills"], ["skills"]]

def skillName : String := "SKILL.md"

def isSkill (t : Tree) (dir : Place) : Bool := t.isDirectory dir && t.isFile (dir ++ [skillName])

def hasSkillIn (t : Tree) (dir : Place) : Bool :=
  (t.names dir).any fun name => isSkill t (dir ++ [name])

def hasSkills (t : Tree) (p : Project) : Bool :=
  match p.place? with
  | some place => skillNames.any fun names =>
      t.isDirectory (place ++ names) && hasSkillIn t (place ++ names)
  | none => false

/-! ## Looking up

To find files in a project, names are looked up one after the other. A project is opened for one
search, and it is refused if the search comes to a path that is too long.
-/

/-- What is looked up to find the documents in the rules directory. -/
def rulesSought (t : Tree) (p : Project) : List (List String) :=
  rulesNames :: match p.rulesPlace? t with
    | some dir => (suffixedNames t dir).map fun name => rulesNames ++ [name]
    | none => []

def documentsSought (t : Tree) (p : Project) : List (List String) := [legacyName] :: p.rulesSought t

/-- What is looked up in a directory to find a skill among some names. Nothing is after the first. -/
def skillSoughtAmong (t : Tree) (dir : Place) : List String → List (List String)
  | [] => []
  | name :: names =>
    let here := if t.isDirectory (dir ++ [name]) then [[name], [name, skillName]] else [[name]]
    if isSkill t (dir ++ [name]) then here else here ++ skillSoughtAmong t dir names

def skillSoughtIn (t : Tree) (place : Place) : List (List String) → List (List String)
  | [] => []
  | names :: more =>
    let dir := place ++ names
    if !t.isDirectory dir then names :: skillSoughtIn t place more
    else
      let here := names :: (skillSoughtAmong t dir (t.names dir)).map (names ++ ·)
      if hasSkillIn t dir then here else here ++ skillSoughtIn t place more

def skillsSought (t : Tree) (p : Project) : List (List String) :=
  match p.place? with
  | some place => skillSoughtIn t place skillNames
  | none => skillNames

/-- **Opening a project** for a search. -/
def ofPath (w : Workspace) (sought : Tree → Project → List (List String)) (p : Path) :
    Except FileFault Project := do
  let project : Project := ⟨p, (w.locate p).toOption.join⟩
  (sought w.tree project).forM fun names => discard (w.locate (p.below names))
  return project

end Project
end AgentRules
