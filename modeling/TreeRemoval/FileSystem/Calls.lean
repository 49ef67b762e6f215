import TreeRemoval.FileSystem.Resolve

/-! # File-system calls

The calls that look at a tree and those that change it, by path text. A call that makes or removes
an entry may set the time of the directory that holds it.
-/

namespace TreeRemoval

inductive Kind
  | directory | file | other | link
  deriving DecidableEq, Repr

structure Status where
  kind : Kind
  modified : Float

def Node.kind : Node → Kind
  | directory .. => .directory
  | file .. => .file
  | other .. => .other
  | link .. => .link

def Node.status (node : Node) : Status := ⟨node.kind, node.modified⟩

namespace FileSystem

variable (fs : FileSystem) (workingDirectory : String)

def lookup (followLast : Bool) (t : String) : Except Errno Node := do
  let arrival ← fs.resolve workingDirectory followLast t
  match fs.nodeAt? arrival with
  | some node => .ok node
  | none => .error .enoent

def stat (t : String) : Except Errno Status :=
  (fs.lookup workingDirectory true t).map Node.status

def lstat (t : String) : Except Errno Status :=
  (fs.lookup workingDirectory false t).map Node.status

/-- The names in a directory, in order of creation. -/
def list (t : String) : Except Errno (List Name) := do
  match ← fs.lookup workingDirectory true t with
  | .directory _ es => .ok (es.map (·.1))
  | _ => .error .enotdir

def readLink (t : String) : Except Errno String := do
  match ← fs.lookup workingDirectory false t with
  | .link target _ => .ok target
  | _ => .error .einval

def touch (time : Option Float) (place : Location) : FileSystem :=
  match time with
  | some time => fs.setModified place time
  | none => fs

def removeEntry (time : Option Float) (parent : Location) (name : Name) : FileSystem :=
  (fs.remove (parent ++ [name])).touch time parent

/-- Why a directory that no name leads to cannot be removed: it is the root, or the last part of
the text is a dot or two. -/
def rmdirRefusal (t : String) : Errno :=
  match (Step.ofPath t).getLast? with
  | some .stay => .einval
  | some _ => .enotempty
  | none => .ebusy

def rmdir (time : Option Float) (t : String) : Except Errno FileSystem := do
  match ← fs.resolve workingDirectory false t with
  | .inside _ => .error (rmdirRefusal t)
  | .entry _ _ none => .error .enoent
  | .entry parent name (some (.directory _ es)) =>
    if es.isEmpty then .ok (fs.removeEntry time parent name) else .error .enotempty
  | .entry _ _ (some _) => .error .enotdir

def unlink (time : Option Float) (t : String) : Except Errno FileSystem := do
  match ← fs.resolve workingDirectory false t with
  | .inside _ => .error .eisdir
  | .entry _ _ none => .error .enoent
  | .entry parent name (some node) =>
    if node.isDirectory then .error .eisdir else .ok (fs.removeEntry time parent name)

def mkdir (time : Option Float) (t : String) : Except Errno FileSystem := do
  match ← fs.resolve workingDirectory false t with
  | .inside _ | .entry _ _ (some _) => .error .eexist
  | .entry parent name none =>
    let new := fs.put (parent ++ [name]) (.directory (time.getD 0) []) (.emptyDirectory _)
    .ok (new.touch time parent)

end FileSystem

end TreeRemoval
