import TreeRemoval.Errno
import TreeRemoval.FileSystem.Basic

/-! # Resolving path texts

A path text is walked part by part from the root or the working directory. A link on the way is
replaced by its target; after forty links the walk gives up.
-/

namespace TreeRemoval

inductive Step where
  | stay
  | up
  | enter (name : Name)
  deriving DecidableEq

namespace Step

def ofText? (t : String) : Option Step :=
  if t = "." then some stay
  else if t = ".." then some up
  else (Name.ofText? t).map enter

def ofPath (t : String) : List Step := (pieceTexts t).filterMap ofText?

end Step

/-- Where a walk ends: in a directory that no name was needed for, or at a name in a directory. -/
inductive Arrival where
  | inside (place : Location)
  | entry (parent : Location) (name : Name) (node : Option Node)

namespace FileSystem

def linkLimit : Nat := 40

def maxPathBytes : Nat := 4095

variable (fs : FileSystem)

/-- A walk from a directory. A link to be followed is left to `follow`, together with the place of
the link's directory, its target and the steps after it. -/
def walkWith (follow : Location → String → List Step → Except Errno Arrival) (followLast : Bool) :
    Location → List Step → Except Errno Arrival
  | place, [] => .ok (.inside place)
  | place, .stay :: rest => walkWith follow followLast place rest
  | place, .up :: rest => walkWith follow followLast place.dropLast rest
  | place, .enter name :: rest =>
    if name.isTooLong then .error .enametoolong
    else
      match fs.get? (place ++ [name]) with
      | none => if rest.isEmpty then .ok (.entry place name none) else .error .enoent
      | some (.link target time) =>
        if rest.isEmpty && !followLast then .ok (.entry place name (some (.link target time)))
        else follow place target rest
      | some node =>
        if rest.isEmpty then .ok (.entry place name (some node))
        else if node.isDirectory then walkWith follow followLast (place ++ [name]) rest
        else .error .enotdir

def walk (followLast : Bool) : Nat → Location → List Step → Except Errno Arrival
  | 0 => walkWith fs (fun _ _ _ => .error .eloop) followLast
  | links + 1 => walkWith fs (fun place target rest =>
      walk followLast links (if Anchor.ofText target = .here then place else [])
        (Step.ofPath target ++ rest)) followLast

def resolve (workingDirectory : String) (followLast : Bool) (t : String) : Except Errno Arrival :=
  if t = "" then .error .enoent
  else if maxPathBytes < t.utf8ByteSize then .error .enametoolong
  else
    let start := if Anchor.ofText t = .here then Step.ofPath workingDirectory else []
    fs.walk followLast linkLimit [] (start ++ Step.ofPath t)

def nodeAt? : Arrival → Option Node
  | .inside place => fs.get? place
  | .entry _ _ node => node

end FileSystem

end TreeRemoval
