import TreeRemoval.World.Event

/-! # An environment in memory

A file system with a working directory, a clock and events, and the environment that it makes. The
system error of a call names the path text that was passed to it.
-/

namespace TreeRemoval

/-- The readings of a clock to come; the last one repeats. -/
structure Clock where
  current : Float
  later : List Float := []

namespace Clock

def ofList (readings : List Float) : Clock :=
  match readings with
  | [] => ⟨1000, []⟩
  | reading :: later => ⟨reading, later⟩

def tick (c : Clock) : Float × Clock :=
  (c.current, match c.later with
    | [] => c
    | next :: later => ⟨next, later⟩)

end Clock

structure World where
  files : FileSystem
  workingDirectory : String
  /-- The time that changes give to the directory they happen in, if they do. -/
  changeTime : Option Float
  events : List Event
  clock : Clock

/-- The place that an absolute path text names without following links. -/
def Location.ofText (t : String) : Location :=
  (Path.ofText t).normalize.parts.filterMap Name.ofText?

namespace World

/-- The world after some edits of an empty file system. The working directory is made if it does not
lead to a directory. -/
def make (edits : List Edit) (workingDirectory : String) (changeTime : Option Float)
    (events : List Event) (clock : Clock) : World :=
  let files := Edit.applyAll .empty edits
  let files :=
    match files.stat "/" workingDirectory with
    | .ok ⟨.directory, _⟩ => files
    | _ => Edit.apply files (.directory (Location.ofText workingDirectory) 0)
  ⟨files, workingDirectory, changeTime, events, clock⟩

def fire (moment : Moment) (call : Call) (t : String) : EStateM Fault World Unit := fun w =>
  match Event.fire moment call t w.events w.files with
  | (events, files, none) => .ok () { w with events, files }
  | (events, files, some fault) => .error fault { w with events, files }

def work {α : Type} (t : String) (f : World → Except Errno (α × FileSystem)) :
    EStateM Fault World α := fun w =>
  if '\x00' ∈ t.toList then .error .nullByte w
  else
    match f w with
    | .ok (a, files) => .ok a { w with files }
    | .error e => .error (.system ⟨e, some t⟩) w

def call {α : Type} (c : Call) (t : String) (f : World → Except Errno (α × FileSystem)) :
    EStateM Fault World α := do
  fire .before c t
  let a ← work t f
  fire .after c t
  return a

def looking {α : Type} (f : FileSystem → String → Except Errno α) (w : World) :
    Except Errno (α × FileSystem) :=
  (f w.files w.workingDirectory).map (·, w.files)

def changing (f : FileSystem → String → Option Float → Except Errno FileSystem) (w : World) :
    Except Errno (Unit × FileSystem) :=
  (f w.files w.workingDirectory w.changeTime).map ((), ·)

def currentDirectory : EStateM Fault World String := fun w =>
  match w.files.stat w.workingDirectory w.workingDirectory with
  | .ok ⟨.directory, _⟩ => .ok w.workingDirectory w
  | _ => .error (.system ⟨.enoent, none⟩) w

/-- The text that the events of a pause match. -/
def pauseText : String := "0.01"

def environment : Environment World where
  stat t := call .stat t (looking fun files cwd => files.stat cwd t)
  lstat t := call .lstat t (looking fun files cwd => files.lstat cwd t)
  list t := call .list t (looking fun files cwd => files.list cwd t)
  rmdir t := call .rmdir t (changing fun files cwd time => files.rmdir cwd time t)
  unlink t := call .unlink t (changing fun files cwd time => files.unlink cwd time t)
  mkdir t := call .mkdir t (changing fun files cwd time => files.mkdir cwd time t)
  readLink t := work t (looking fun files cwd => files.readLink cwd t)
  workingDirectory := currentDirectory
  pause := call .pause pauseText (looking fun _ _ => .ok ())
  collect := call .collect "" (looking fun _ _ => .ok ())

def now (w : World) : Float × World :=
  let (time, clock) := w.clock.tick
  (time, { w with clock })

/-- A node's line in a listing: a letter for its kind, its path, and the target of a link. -/
def nodeLine (path : String) : Node → String
  | .directory .. => "d " ++ path
  | .file _ => "f " ++ path
  | .other _ => "o " ++ path
  | .link target _ => "l " ++ path ++ " -> " ++ target

def listing (files : FileSystem) : List String :=
  let nodes := files.root.descendants.map fun (place, node) =>
    ("/" ++ "/".intercalate (place.map Name.text), node)
  (nodes.mergeSort fun a b => a.1 ≤ b.1).map fun (path, node) => nodeLine path node

end World

end TreeRemoval
