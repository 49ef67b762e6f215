import TreeRemoval.BoundedSet
import TreeRemoval.Deletion.Attempt

/-! # Walks and scans

A walk attempts the nodes of a tree in post-order, siblings by name, and stops when its set of
failures is full. A directory whose listing fails is attempted as if it had no children. After a
failed walk, a scan looks for the paths that were modified since its start, in pre-order, until
there are as many as a report takes. Paths that failed do not count.
-/

namespace TreeRemoval

structure Run where
  failed : BoundedSet
  interrupted : Bool := false
  deleted : Nat := 0
  retries : Nat := 0
  failures : Nat := 0

/-- Texts of deeper paths are longer than any call takes. -/
def maxDepth : Nat := FileSystem.maxPathBytes + 1

namespace Deleter

open Deletion

variable {σ : Type} (d : Deleter σ)

/-- Whether a path is to be walked into: a directory, and no link unless links are followed. -/
def shouldFollow (followSymlinks : Bool) (p : Path) : Deletion σ Bool := do
  if ← perform (d.environment.isDirectory p.text) then
    if followSymlinks then return true else return !(← perform (d.isSymlink p))
  else return false

/-- The children of a directory, or nothing if the directory is gone. -/
def listChildren (p : Path) : Deletion σ (Option (List Path)) := do
  match ← observe (d.environment.children p) with
  | .ok children => return some children
  | .error (.system e) =>
    if e.errno.isMissing then
      note .debug ("Directory already gone: " ++ p.text)
      return none
    else
      note .warning "Unable to list directory"
        [("directory", .text p.text), ("error", .text e.message),
          ("error_type", .text e.errno.errorClass.name)]
      return some []
  | .error f => throw (.fault f)

/-- Attempts a node and books the outcome. It tells whether a failure has filled the set. -/
def deleteNode (run : Run) (p : Path) : Deletion σ (Run × Bool) := do
  match ← d.attempt p with
  | .first removed => return ({ run with deleted := run.deleted + removed.toNat }, false)
  | .second removed =>
    return ({ run with deleted := run.deleted + removed.toNat, retries := run.retries + 1 }, false)
  | .stuck _ _ => book { run with retries := run.retries + 1 }
  | .abandoned _ =>
    note .warning "Retry cancelled, continuing deletion" [("path", .text (← d.absolute p))]
    let _ ← d.absolute p
    book { run with retries := run.retries + 1, interrupted := true }
where
  book (run : Run) : Deletion σ (Run × Bool) := do
    let place ← d.absolute p
    let failed := run.failed.insert place
    return ({ run with failures := run.failures + 1, failed }, failed.isFull)

def visitEach (visit : Path → Run → Deletion σ (Run × Bool)) :
    List Path → Run → Deletion σ (Run × Bool)
  | [], run => return (run, false)
  | p :: rest, run => do
    match ← visit p run with
    | (run, true) => return (run, true)
    | (run, false) => visitEach visit rest run

variable (followSymlinks : Bool) (root : Path) (includeRoot : Bool)

/-- Attempts a node whose children have been visited, unless it is a root to be kept. It tells
whether the walk stops there. -/
def leave (p : Path) (run : Run) : Deletion σ (Run × Bool) := do
  if p = root ∧ includeRoot = false then return (run, false)
  else
    let (run, full) ← d.deleteNode run p
    if full then
      note .debug (s!"Failure limit of {d.maxReported} reached, aborting: " ++ root.text)
    return (run, full)

/-- Visits a node with all below it, down to some depth. -/
def visit : Nat → Path → Run → Deletion σ (Run × Bool)
  | 0, _, _ => throw .tooDeep
  | depth + 1, p, run => do
    if ← d.shouldFollow followSymlinks p then
      match ← d.listChildren p with
      | none => return (run, false)
      | some children =>
        match ← visitEach (visit depth) children run with
        | (run, true) => return (run, true)
        | (run, false) => d.leave root includeRoot p run
    else d.leave root includeRoot p run

def walk : Deletion σ Run := do
  let run : Run := { failed := .empty d.maxReported d.maxReported_pos }
  return (← d.visit followSymlinks root includeRoot maxDepth root run).1

/-! ### Scans -/

variable (startTime : Float) (top : String) (excluded : List String)

def scanEach (scan : Path → BoundedSet → Deletion σ BoundedSet) :
    List Path → BoundedSet → Deletion σ BoundedSet
  | [], found => return found
  | p :: rest, found => do
    if found.isFull then return found else scanEach scan rest (← scan p found)

/-- Looks at one path, and tells whether it is there and what is found with it. -/
def inspect (p : Path) (found : BoundedSet) : Deletion σ (Bool × BoundedSet) := do
  let place ← d.absolute p
  if place = top ∨ place ∈ excluded then return (true, found)
  else
    match ← perform (d.environment.look? p.text) with
    | none => return (false, found)
    | some status =>
      return (true, if status.modified ≥ startTime then found.insert place else found)

def scanBelow : Nat → Path → BoundedSet → Deletion σ BoundedSet
  | 0, _, _ => throw .tooDeep
  | depth + 1, p, found => do
    match ← d.inspect startTime top excluded p found with
    | (false, found) => return found
    | (true, found) =>
      if ← d.shouldFollow followSymlinks p then
        match ← d.listChildren p with
        | none => return found
        | some children => scanEach (scanBelow depth) children found
      else return found

def newPaths (root : Path) : Deletion σ (List String) := do
  let top ← d.absolute root
  let found := BoundedSet.empty d.maxReported d.maxReported_pos
  return (← d.scanBelow followSymlinks startTime top excluded maxDepth root found).items

end Deleter

end TreeRemoval
