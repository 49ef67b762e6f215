import TreeRemoval.Fault
import TreeRemoval.FileSystem.Calls

/-! # Environments

What a deletion needs from outside: file-system calls by path text, a pause, and a collection of
garbage. Nothing is assumed of the answers, so other processes and faults are part of it.
-/

namespace TreeRemoval

/-- The kinds of calls that faults and traces speak of. -/
inductive Call
  | stat | lstat | list | rmdir | unlink | mkdir | pause | collect
  deriving DecidableEq, Repr

def Call.all : List Call := [.stat, .lstat, .list, .rmdir, .unlink, .mkdir, .pause, .collect]

def Call.name : Call → String
  | stat => "stat"
  | lstat => "lstat"
  | list => "list"
  | rmdir => "rmdir"
  | unlink => "unlink"
  | mkdir => "mkdir"
  | pause => "sleep"
  | collect => "gc"

def Call.ofName? (name : String) : Option Call := all.find? (·.name = name)

def outcome {ε σ α : Type} (call : EStateM ε σ α) : EStateM ε σ (Except ε α) := fun s =>
  match call s with
  | .ok a s => .ok (.ok a) s
  | .error e s => .ok (.error e) s

/-- A call whose answer is waited for. A timeout ends the wait rather than the call, so it does not
name the path. -/
def awaited {σ α : Type} (call : EStateM Fault σ α) : EStateM Fault σ α := fun s =>
  match call s with
  | .error (.system ⟨.etimedout, _⟩) s => .error (.system ⟨.etimedout, none⟩) s
  | result => result

structure Environment (σ : Type) where
  stat : String → EStateM Fault σ Status
  lstat : String → EStateM Fault σ Status
  list : String → EStateM Fault σ (List Name)
  rmdir : String → EStateM Fault σ Unit
  unlink : String → EStateM Fault σ Unit
  mkdir : String → EStateM Fault σ Unit
  readLink : String → EStateM Fault σ String
  workingDirectory : EStateM Fault σ String
  pause : EStateM Fault σ Unit
  collect : EStateM Fault σ Unit

namespace Environment

variable {σ : Type} (env : Environment σ)

/-- Asks whether a look at a path shows something; a failing look shows nothing. -/
def shows (look : EStateM Fault σ Status) (test : Status → Bool) : EStateM Fault σ Bool := do
  match ← outcome look with
  | .ok status => return test status
  | .error fault => if fault.isNegative then return false else throw fault

def isDirectory (t : String) : EStateM Fault σ Bool := shows (env.stat t) (·.kind = .directory)

def pathExists (t : String) : EStateM Fault σ Bool := shows (env.stat t) fun _ => true

def isLink (t : String) : EStateM Fault σ Bool := shows (env.lstat t) (·.kind = .link)

def look? (t : String) : EStateM Fault σ (Option Status) := do
  match ← outcome (awaited (env.lstat t)) with
  | .ok status => return some status
  | .error (.system e) => if e.errno.isMissing then return none else throw (.system e)
  | .error fault => throw fault

/-- Removes a node without following links. It tells whether there was one; a node that vanishes in
between was not there. -/
def removeNode (t : String) : EStateM Fault σ Bool := do
  match ← env.look? t with
  | none => return false
  | some status =>
    match ← outcome (awaited (if status.kind = .directory then env.rmdir t else env.unlink t)) with
    | .ok _ => return true
    | .error (.system e) => if e.errno = .enoent then return false else throw (.system e)
    | .error fault => throw fault

/-- The absolute, normalised form of a path; only a relative path asks for the working
directory. -/
def absolute (p : Path) : EStateM Fault σ String := do
  if p.isAbsolute then return p.normalize.text
  else return (p.absolute (← env.workingDirectory)).text

def children (p : Path) : EStateM Fault σ (List Path) := do
  let names ← awaited (env.list p.text)
  return (names.mergeSort fun a b => a.text ≤ b.text).map p.child

/-- Makes a directory and the missing ones above it, given the reversed parts of its path. A
directory above that is there by the time it would be made is no failure; neither is one at the path
itself. A limit of the runtime on nested calls, which many missing directories may meet, is left
out. -/
def makeDirectories (anchor : Anchor) : List String → EStateM Fault σ Unit
  | [] => makeOne (Path.mk anchor []).text
  | part :: above => do
    if anchor ≠ .here || !above.isEmpty then
      let parent := (Path.mk anchor above.reverse).text
      if !(← env.pathExists parent) then
        match ← outcome (makeDirectories anchor above) with
        | .ok _ => pure ()
        | .error (.system e) =>
          if e.errno.errorClass = .alreadyExists then pure () else throw (.system e)
        | .error fault => throw fault
    makeOne (Path.mk anchor (part :: above).reverse).text
where
  makeOne (t : String) : EStateM Fault σ Unit := do
    match ← outcome (env.mkdir t) with
    | .ok _ => pure ()
    | .error (.system e) => if ← env.isDirectory t then pure () else throw (.system e)
    | .error fault => throw fault

def ensureDirectory (p : Path) : EStateM Fault σ Unit :=
  awaited (env.makeDirectories p.anchor p.parts.reverse)

end Environment

end TreeRemoval
