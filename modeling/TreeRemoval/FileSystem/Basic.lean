import TreeRemoval.FileSystem.Node

/-! # File systems

A file system is a well-formed tree whose root is a directory. `Edit` is a change made from
outside, by place and without following links; it makes the directories that it needs.
-/

namespace TreeRemoval

structure FileSystem where
  root : Node
  root_isDirectory : root.isDirectory = true
  wellFormed : root.WellFormed

namespace Node

theorem WellFormed.of_get? {place : Location} {node below : Node} (h : node.WellFormed)
    (hb : node.get? place = some below) : below.WellFormed := by
  induction place generalizing node with
  | nil => cases hb; exact h
  | cons name rest ih =>
    cases node with
    | directory m es =>
      obtain ⟨child, hc, hb⟩ := Option.bind_eq_some_iff.1 hb
      exact ih (h.of_lookup hc) hb
    | file | other | link => cases hb

end Node

namespace FileSystem

def empty : FileSystem := ⟨.directory 0 [], rfl, .emptyDirectory 0⟩

variable (fs : FileSystem)

def get? (place : Location) : Option Node := fs.root.get? place

def isDirectoryAt (place : Location) : Bool := (fs.get? place).any Node.isDirectory

def put (place : Location) (new : Node) (h : new.WellFormed) : FileSystem :=
  if hp : place = [] then fs
  else ⟨Node.put new place fs.root, Node.isDirectory_put hp, .put h place fs.wellFormed⟩

def remove (place : Location) : FileSystem :=
  ⟨Node.remove place fs.root, by rw [Node.isDirectory_remove, fs.root_isDirectory],
    .remove place fs.wellFormed⟩

def setModified (place : Location) (time : Float) : FileSystem :=
  if place = [] then
    ⟨fs.root.setModified time, by simp [fs.root_isDirectory], fs.wellFormed.setModified time⟩
  else
    match h : fs.get? place with
    | some node => fs.put place (node.setModified time) ((fs.wellFormed.of_get? h).setModified time)
    | none => fs

def clear : FileSystem := ⟨.directory fs.root.modified [], rfl, .emptyDirectory _⟩

def withDirectory (place : Location) : FileSystem :=
  if fs.isDirectoryAt place then fs else fs.put place (.directory 0 []) (.emptyDirectory 0)

end FileSystem

/-- What an edit can put at a place besides a directory. -/
inductive Leaf where
  | file
  | other
  | link (target : String)
  deriving DecidableEq, Repr

def Leaf.node (time : Float) : Leaf → Node
  | file => .file time
  | other => .other time
  | link target => .link target time

theorem Leaf.wellFormed_node (time : Float) (leaf : Leaf) : (leaf.node time).WellFormed := by
  cases leaf with
  | file => exact .file _
  | other => exact .other _
  | link => exact .link _ _

inductive Edit where
  /-- Makes a directory, or sets the time of the one that is there. -/
  | directory (place : Location) (time : Float)
  /-- Puts a node in place of whatever is there; at the root it sets the time alone. -/
  | leaf (place : Location) (new : Leaf) (time : Float)
  /-- Removes what is there; at the root it removes all entries. -/
  | remove (place : Location)

namespace Edit

def apply (fs : FileSystem) : Edit → FileSystem
  | directory place time =>
    if fs.isDirectoryAt place then fs.setModified place time
    else fs.put place (.directory time []) (.emptyDirectory time)
  | .leaf place new time =>
    if place = [] then fs.setModified [] time
    else fs.put place (new.node time) (new.wellFormed_node time)
  | remove place =>
    if place = [] then fs.clear else (fs.withDirectory place.dropLast).remove place

def applyAll (fs : FileSystem) (edits : List Edit) : FileSystem := edits.foldl apply fs

end Edit

end TreeRemoval
