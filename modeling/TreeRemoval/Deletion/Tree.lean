import TreeRemoval.Decimal.Rounded
import TreeRemoval.Deletion.Walk

/-! # Deleting and emptying trees

`deleteTree` removes a root with all below it; `ensureEmpty` keeps the root as an empty directory.
Both end with one log entry on the outcome of their walk, and fail with a report if anything stayed.
-/

namespace TreeRemoval.Deleter

open Deletion

variable {σ : Type} (d : Deleter σ) (followSymlinks : Bool)

/-- What a failed walk of a root is reported as. -/
def buildReport (root : Path) (startTime : Float) (run : Run) : Deletion σ Report := do
  let descended ← d.shouldFollow followSymlinks root
  let (failedPaths, newPaths) ← do
    if descended then
      let top ← d.absolute root
      let failedPaths := run.failed.items.filter (· ≠ top)
      let newPaths ← d.newPaths followSymlinks startTime failedPaths root
      pure (failedPaths, newPaths)
    else pure (run.failed.items, [])
  let rootIsSymlink ← perform (d.isSymlink root)
  let rootIsDirectory ← perform (d.environment.isDirectory root.text)
  return {
    root := root.text
    rootIsSymlink
    rootIsDirectory
    descended
    failedPaths
    moreFailures := run.failed.isFull
    newPaths
    interrupted := run.interrupted
    maxReported := d.maxReported }

/-- The fields that the final log entry of a walk always has. -/
def summary (root : Path) (startTime endTime : Float) (run : Run) : List (String × Log.Value) :=
  [("root", .text root.text), ("nodes_deleted", .int run.deleted), ("retries", .int run.retries),
    ("failures", .int run.failures),
    ("duration_seconds", .float (Decimal.roundPlaces 3 (endTime - startTime)))]

def failureSummary (report : Report) : List (String × Log.Value) :=
  [("failed_paths", .int report.failedPaths.length), ("new_paths", .int report.newPaths.length),
    ("more_failures", .bool report.moreFailures), ("interrupted", .bool report.interrupted)]

def finish (root : Path) (startTime : Float) (run : Run) : Deletion σ Unit := do
  let fields := summary root startTime (← reading d.now) run
  if run.failed.isEmpty then note .info "Tree deleted" fields
  else
    let report ← d.buildReport followSymlinks root startTime run
    note .error "Tree deletion failed" (fields ++ failureSummary report)
    let place ← d.absolute root
    throw (if run.interrupted then .cancelled place report else .incomplete place report)

def deleteBelow (root : Path) (includeRoot : Bool) : Deletion σ Run := do
  let startTime ← reading d.now
  note .debug "Deleting tree"
    [("root", .text root.text), ("follow_symlinks", .bool followSymlinks),
      ("start_time", .float startTime)]
  let run ← d.walk followSymlinks root includeRoot
  d.finish followSymlinks root startTime run
  return run

/-- Deletes a root and everything below it. It tells whether the root was there. -/
def deleteTree (root : Path) : Deletion σ Bool := do
  match ← perform (d.environment.look? root.text) with
  | none =>
    note .debug ("Nothing to delete: " ++ root.text)
    return false
  | some _ =>
    let _ ← d.deleteBelow followSymlinks root true
    return true

/-- Makes sure that there is an empty directory at a path. It tells whether anything was removed
for it. -/
def ensureEmpty (target : Path) : Deletion σ Bool := do
  match ← perform (d.environment.look? target.text) with
  | none =>
    perform (d.environment.ensureDirectory target)
    return false
  | some _ =>
    if ← d.shouldFollow followSymlinks target then
      let run ← d.deleteBelow followSymlinks target false
      return 0 < run.deleted
    else
      let _ ← d.deleteTree followSymlinks target
      perform (d.environment.ensureDirectory target)
      return true

def list (p : Path) : Deletion σ (List Path) := perform (d.environment.children p)

end TreeRemoval.Deleter
