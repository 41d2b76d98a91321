import AgentRules.Clock
import AgentRules.Command
import Std.Time.DateTime.Timestamp

/-!
# The program

Looks at the files that a command line is about, runs it, and carries out what it has changed.
-/

namespace AgentRules.Main

def pathText (p : Place) : String := (Path.ofPlace p).text

/-- Adds what is at a place, and below it down to a depth, to the files that have been seen. -/
def look : Nat → Place → Tree → IO Tree
  | depth, place, t => do
    let here := (← IO.currentDir) / (pathText place)
    if ← here.isDir then
      let t := t.plant place .directory
      match depth with
      | 0 => return t
      | depth + 1 => (← here.readDir).foldlM (fun t entry => look depth (place ++ [entry.fileName]) t) t
    else if ← here.pathExists then
      let bytes ← IO.FS.readBinFile here
      return t.plant place (.file bytes.data.toList)
    else return t

def apply : Tree.Change → IO Unit
  | .write place bytes => IO.FS.writeBinFile (pathText place) ⟨bytes.toArray⟩
  | .remove place => IO.FS.removeFile (pathText place)

end AgentRules.Main

open AgentRules in
def main (args : List String) : IO UInt32 := do
  let cwd := (Path.ofString (toString (← IO.currentDir))).parts
  let seen ← (Request.sights cwd args).foldlM
    (fun t s => Main.look s.depth s.place t) (Tree.empty.plant cwd .directory)
  let now ← Std.Time.Timestamp.now
  let outcome := Request.run (Clock.stamp now.toSecondsSinceUnixEpoch.val.toNat) ⟨seen, cwd⟩ args
  (Tree.changes seen outcome.tree).forM Main.apply
  IO.eprint outcome.notes
  IO.print (outcome.output (← (← IO.getStdout).isTty))
  match outcome.ending.message? with
  | some message => IO.eprintln s!"Error: {message}"
  | none => pure ()
  return outcome.ending.code.toUInt32
