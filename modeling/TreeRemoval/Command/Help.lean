import TreeRemoval.Command.Arguments

/-! # Usage and help

The texts for users of the command. Descriptions of options stand in a column of 54 characters and
end with the default that is in force.
-/

namespace TreeRemoval.Command

def versionText : String := "1.0.0"

def versionLine : String := "treepurge " ++ versionText ++ "\n"

def usage : String :=
  "usage: treepurge [-h] [--follow-symlinks] [--gc-on-failed-delete]\n" ++
  "                 [--ensure-empty]\n" ++
  "                 [--log-level \x7bDEBUG,INFO,WARNING,ERROR,CRITICAL\x7d] [--version]\n" ++
  "                 path\n"

def UsageError.text (e : UsageError) : String := usage ++ "treepurge: error: " ++ e.message ++ "\n"

def columnWidth : Nat := 54

def margin : String := String.ofList (List.replicate 24 ' ')

/-- A spelling and its description, which starts on the same line if there is room. -/
def item (spelling description : String) : String :=
  let start := "  " ++ spelling
  let lines := Text.wrap columnWidth description
  if start.length + 2 ≤ margin.length then
    let gap := String.ofList (List.replicate (margin.length - start.length) ' ')
    start ++ gap ++ ("\n" ++ margin).intercalate lines ++ "\n"
  else start ++ "\n" ++ String.join (lines.map fun line => margin ++ line ++ "\n")

def withDefault (description value : String) : String :=
  description ++ " (default: " ++ value ++ ")"

def flagText (b : Bool) : String := if b then "True" else "False"

def help (d : Defaults) : String :=
  usage ++
  "\ntreepurge - Recursively delete a directory tree, retrying flaky deletes\n" ++
  "\npositional arguments:\n" ++
  item "path" "File or directory to delete" ++
  "\noptions:\n" ++
  item "-h, --help" "show this help message and exit" ++
  item "--follow-symlinks"
    (withDefault "Delete the contents of symlinked directories instead of only the links"
      (flagText d.followSymlinks)) ++
  item "--gc-on-failed-delete"
    (withDefault "Run the garbage collector before retrying a failed delete"
      (flagText d.collectGarbage)) ++
  item "--ensure-empty"
    (withDefault "Keep the target as an empty directory instead of removing it"
      (flagText d.ensureEmpty)) ++
  item "--log-level \x7bDEBUG,INFO,WARNING,ERROR,CRITICAL\x7d"
    (withDefault "Logging level" d.logLevel) ++
  item "--version" "show program's version number and exit"

end TreeRemoval.Command
