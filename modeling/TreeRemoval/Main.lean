import TreeRemoval.Command.Run
import TreeRemoval.World.Basic

/-! # The command

A rehearsal of the command on a described file system. Standard input holds one line per node, as a
listing shows it; the log goes to standard output, and the listing afterwards to standard error.
-/

namespace TreeRemoval.Main

def edit? (line : String) : Option Edit :=
  match line.toList with
  | 'd' :: ' ' :: path => some (.directory (place path) 0)
  | 'f' :: ' ' :: path => some (.leaf (place path) .file 0)
  | 'o' :: ' ' :: path => some (.leaf (place path) .other 0)
  | 'l' :: ' ' :: rest =>
    let (path, target) := cutArrow rest
    some (.leaf (place path) (.link (String.ofList target)) 0)
  | _ => none
where
  place (path : List Char) : Location := Location.ofText (String.ofList path)
  /-- The path of a link and its target, which the first arrow parts. -/
  cutArrow : List Char → List Char × List Char
    | ' ' :: '-' :: '>' :: ' ' :: target => ([], target)
    | [] => ([], [])
    | c :: rest => (c :: (cutArrow rest).1, (cutArrow rest).2)

def worldOf (lines : List String) : World := .make (lines.filterMap edit?) "/" none [] (.ofList [])

def variableNames : List String :=
  ["TREEPURGE_FOLLOW_SYMLINKS", "TREEPURGE_GC_ON_FAILED_DELETE", "TREEPURGE_ENSURE_EMPTY",
    "TREEPURGE_LOG_LEVEL"]

partial def readLines (input : IO.FS.Stream) : IO (List String) := do
  let line ← input.getLine
  if line.isEmpty then return []
  return String.ofList (line.toList.filter (· ≠ '\n')) :: (← readLines input)

end TreeRemoval.Main

open TreeRemoval in
def main (args : List String) : IO UInt32 := do
  let lines ← Main.readLines (← IO.getStdin)
  let values ← Main.variableNames.mapM fun name => return (name, ← IO.getEnv name)
  let (transcript, world) := Command.run World.environment World.now
    (fun name => (values.lookup name).join) args (Main.worldOf lines)
  (← IO.getStdout).putStr transcript.output
  (← IO.getStderr).putStr transcript.errors
  for line in World.listing world.files do
    (← IO.getStderr).putStrLn line
  match transcript.ending with
  | .exit status => return status.toUInt32
  | .escaped e =>
    (← IO.getStderr).putStrLn e.message
    return 1
