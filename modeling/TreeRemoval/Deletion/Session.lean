import TreeRemoval.Environment
import TreeRemoval.Log.Record
import TreeRemoval.Report

/-! # Sessions

Deletions act on an environment's state and leave log entries behind. They fail with a fault of the
environment, with a node that cannot be deleted, or with a report on a tree.
-/

namespace TreeRemoval

inductive Failure where
  | fault (f : Fault)
  /-- One node could not be deleted; the cause is the error of the second try. -/
  | undeletable (path : Path) (absolute : String) (cause : SystemError)
  /-- Something in a tree could not be deleted. -/
  | incomplete (absolute : String) (report : Report)
  /-- The same, after a pause was cancelled. -/
  | cancelled (absolute : String) (report : Report)
  /-- A tree went deeper than path texts can reach. -/
  | tooDeep

namespace Failure

def undeletableMessage (path : Path) : String := "Unable to delete \x27" ++ path.text ++ "\x27"

def message : Failure → String
  | fault f => f.message
  | undeletable path _ _ => undeletableMessage path
  | incomplete _ report => report.render
  | cancelled _ report => "Deletion of " ++ report.root ++ " was cancelled"
  | tooDeep => "directories nested too deeply"

end Failure

/-- What a deletion does for one node, with the outcome. -/
inductive Act where
  /-- A try, which tells whether it removed the node. -/
  | tried (path : Path) (result : Except Fault Bool)
  /-- The pause between two tries. -/
  | paused (path : Path) (result : Except Fault Unit)

/-- The state of an environment together with what was said about the work, and with all tries and
pauses so far. -/
structure Session (σ : Type) where
  state : σ
  log : List Log.Entry := []
  acts : List Act := []

abbrev Deletion (σ : Type) := EStateM Failure (Session σ)

namespace Deletion

variable {σ α : Type}

/-- A call whose fault ends the deletion. -/
def perform (call : EStateM Fault σ α) : Deletion σ α := fun s =>
  match call s.state with
  | .ok a state => .ok a { s with state }
  | .error f state => .error (.fault f) { s with state }

def observe (call : EStateM Fault σ α) : Deletion σ (Except Fault α) := perform (outcome call)

def note (level : Log.Level) (message : String) (fields : List (String × Log.Value) := []) :
    Deletion σ Unit :=
  modify fun s => { s with log := s.log ++ [⟨level, message, fields⟩] }

def record (act : Act) : Deletion σ Unit := modify fun s => { s with acts := s.acts ++ [act] }

def reading (now : σ → Float × σ) : Deletion σ Float := fun s =>
  let (time, state) := now s.state
  .ok time { s with state }

end Deletion

end TreeRemoval
