import TreeRemoval.Path.Basic

/-! # Nodes of a file system

A tree of directories, files, links and other nodes, each with the time of its last modification.
The entries of a directory stand in their order of creation, and no name stands there twice.
-/

namespace TreeRemoval

inductive Node where
  | directory (modified : Float) (entries : List (Name × Node))
  | file (modified : Float)
  | other (modified : Float)
  | link (target : String) (modified : Float)

/-- The place of a node: the names on the way from the root. -/
abbrev Location := List Name

namespace Node

def modified : Node → Float
  | directory m _ | file m | other m | link _ m => m

def isDirectory : Node → Bool
  | directory .. => true
  | _ => false

def isLink : Node → Bool
  | link .. => true
  | _ => false

/-- Names are distinct in every directory of the tree. -/
inductive WellFormed : Node → Prop
  | directory {m : Float} {es : List (Name × Node)} (nodup : (es.map (·.1)).Nodup)
      (each : ∀ e ∈ es, WellFormed e.2) : WellFormed (directory m es)
  | file (m : Float) : WellFormed (file m)
  | other (m : Float) : WellFormed (other m)
  | link (t : String) (m : Float) : WellFormed (link t m)

def without (name : Name) (es : List (Name × Node)) : List (Name × Node) :=
  es.filter (·.1 ≠ name)

def withEntry (name : Name) (node : Node) (es : List (Name × Node)) : List (Name × Node) :=
  without name es ++ [(name, node)]

def setModified (m : Float) : Node → Node
  | directory _ es => directory m es
  | file _ => file m
  | other _ => other m
  | link t _ => link t m

def get? : Location → Node → Option Node
  | [], node => some node
  | name :: rest, directory _ es => (es.lookup name).bind (get? rest)
  | _ :: _, _ => none

/-- Puts a node at a place. What is missing on the way, or is no directory, becomes a new one. -/
def put (new : Node) : Location → Node → Node
  | [], _ => new
  | name :: rest, directory m es =>
    directory m (withEntry name (put new rest ((es.lookup name).getD (directory 0 []))) es)
  | name :: rest, _ => directory 0 [(name, put new rest (directory 0 []))]

def remove : Location → Node → Node
  | [], node => node
  | [name], directory m es => directory m (without name es)
  | name :: rest, directory m es =>
    match es.lookup name with
    | some child => directory m (withEntry name (remove rest child) es)
    | none => directory m es
  | _ :: _, node => node

mutual

def descendants : Node → List (Location × Node)
  | directory _ es => descendantsOfEach es
  | _ => []

def descendantsOfEach : List (Name × Node) → List (Location × Node)
  | [] => []
  | (name, node) :: rest =>
    ([name], node) :: node.descendants.map (fun (place, below) => (name :: place, below)) ++
      descendantsOfEach rest

end

theorem WellFormed.emptyDirectory (m : Float) : WellFormed (.directory m []) :=
  .directory (by simp) (by simp)

theorem WellFormed.without {m : Float} {es : List (Name × Node)} (h : WellFormed (.directory m es))
    (name : Name) : WellFormed (.directory m (Node.without name es)) := by
  cases h with
  | directory nodup each =>
    exact .directory (nodup.sublist (List.filter_sublist.map _))
      fun e he => each e ((List.mem_filter.1 he).1)

theorem WellFormed.withEntry {m : Float} {es : List (Name × Node)}
    (h : WellFormed (.directory m es)) (name : Name) {node : Node} (hn : node.WellFormed) :
    WellFormed (.directory m (Node.withEntry name node es)) := by
  cases h.without name with
  | directory nodup each =>
    refine .directory ?_ ?_
    · simp only [Node.withEntry, List.map_append, List.map_cons, List.map_nil]
      refine List.nodup_append.2 ⟨nodup, by simp, ?_⟩
      simp only [List.mem_map, Node.without, List.mem_filter]
      rintro _ ⟨e, ⟨_, he⟩, rfl⟩ b hb
      simp_all
    · simp only [Node.withEntry, List.mem_append, List.mem_singleton]
      rintro e (he | rfl)
      · exact each e he
      · exact hn

theorem WellFormed.of_lookup {m : Float} {es : List (Name × Node)}
    (h : WellFormed (.directory m es)) {name : Name} {node : Node}
    (hn : es.lookup name = some node) : node.WellFormed := by
  cases h with
  | directory _ each =>
    obtain ⟨l, r, rfl, _⟩ := List.lookup_eq_some_iff.1 hn
    exact each (name, node) (by simp)

theorem WellFormed.put {new : Node} (hn : new.WellFormed) (place : Location) {node : Node}
    (h : node.WellFormed) : (Node.put new place node).WellFormed := by
  induction place generalizing node with
  | nil => exact hn
  | cons name rest ih =>
    cases node with
    | directory m es =>
      refine h.withEntry name (ih ?_)
      cases he : es.lookup name with
      | none => exact .emptyDirectory 0
      | some child => exact h.of_lookup he
    | file | other | link =>
      exact .directory (by simp) (by simpa using ih (.emptyDirectory 0))

theorem WellFormed.remove (place : Location) {node : Node} (h : node.WellFormed) :
    (Node.remove place node).WellFormed := by
  fun_induction Node.remove place node with
  | case1 => exact h
  | case2 name m es => exact h.without name
  | case3 name rest m es child hc hl ih => exact h.withEntry name (ih (h.of_lookup hl))
  | case4 => exact h
  | case5 => exact h

theorem isDirectory_put {new node : Node} {place : Location} (h : place ≠ []) :
    (put new place node).isDirectory = true := by
  cases place with
  | nil => exact absurd rfl h
  | cons name rest => cases node <;> rfl

theorem isDirectory_remove {node : Node} (place : Location) :
    (remove place node).isDirectory = node.isDirectory := by
  fun_cases remove place node <;> rfl

@[simp] theorem setModified_isDirectory (m : Float) (node : Node) :
    (setModified m node).isDirectory = node.isDirectory := by
  cases node <;> rfl

theorem WellFormed.setModified {node : Node} (h : node.WellFormed) (m : Float) :
    (Node.setModified m node).WellFormed := by
  cases h with
  | directory nodup each => exact .directory nodup each
  | file => exact .file _
  | other => exact .other _
  | link => exact .link _ _

end Node

end TreeRemoval
