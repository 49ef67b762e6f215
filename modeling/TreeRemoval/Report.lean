/-! # Failure reports

What is known after a tree deletion that did not fully succeed, and the text that tells it to an
operator: a subject line, then the paths that stayed, then the paths that are new.
-/

namespace TreeRemoval

def defaultMaxReported : Nat := 16

structure Report where
  root : String
  rootIsSymlink : Bool
  rootIsDirectory : Bool
  /-- Whether the root was eligible to be walked into. -/
  descended : Bool
  /-- Absolute paths that could not be deleted, in order of failure. -/
  failedPaths : List String := []
  /-- Whether as many paths failed as the cap allows. -/
  moreFailures : Bool := false
  /-- Absolute paths modified since the deletion started. -/
  newPaths : List String := []
  /-- Whether a pause before a retry was cancelled. -/
  interrupted : Bool := false
  maxReported : Int := defaultMaxReported
  deriving DecidableEq, Repr

namespace Report

variable (r : Report)

def newPathsTruncated : Bool := r.maxReported ≤ r.newPaths.length

def failedHelp : String :=
  "Failed to delete some children. This might happen because a process has files open " ++
    "or has its working directory set in the target directory."

def newHelp : String :=
  "New files were found. This might happen because a process is still writing to the target " ++
    "directory."

def interruptedHelp : String := "Deletion retries were interrupted by cancellation."

def subject : String :=
  "Unable to delete " ++ (if r.rootIsSymlink then "symlink to " else "") ++
    (if r.rootIsDirectory then "directory " else "file ") ++ "\x27" ++ r.root ++ "\x27"

def listing (help : String) (paths : List String) (more : Bool) : List String :=
  if paths.isEmpty then []
  else ("  " ++ help) :: (paths ++ if more then ["and more ..."] else []).map ("  - " ++ ·)

def lines : List String :=
  [r.subject] ++
    (if r.descended then
      listing failedHelp r.failedPaths r.moreFailures ++
        listing newHelp r.newPaths r.newPathsTruncated
    else []) ++
    (if r.interrupted then ["  " ++ interruptedHelp] else [])

def render : String := "\n".intercalate r.lines

end Report

end TreeRemoval
