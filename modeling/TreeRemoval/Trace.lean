import TreeRemoval.Environment

/-! # Traces

Any environment can be made to keep a trace of the calls that matter to a deletion: listings,
removals, pauses and collections with their outcomes, and the directories that were made.
-/

namespace TreeRemoval

structure TraceEntry where
  call : Call
  text : String
  fault : Option Fault
  deriving DecidableEq, Repr

/-- The word for a call's outcome: the symbol of a system error, or the class of another fault. -/
def TraceEntry.word (e : TraceEntry) : String :=
  match e.fault with
  | none => "ok"
  | some (.system e) => e.errno.symbol
  | some fault => fault.className

structure Traced (σ : Type) where
  state : σ
  trace : List TraceEntry := []

namespace Traced

variable {σ α : Type}

def lift (call : EStateM Fault σ α) : EStateM Fault (Traced σ) α := fun s =>
  match call s.state with
  | .ok a state => .ok a { s with state }
  | .error fault state => .error fault { s with state }

def reading (now : σ → Float × σ) : Traced σ → Float × Traced σ := fun s =>
  let (time, state) := now s.state
  (time, { s with state })

def always (c : Call) (t : String) (call : EStateM Fault σ α) : EStateM Fault (Traced σ) α :=
  fun s =>
    match call s.state with
    | .ok a state => .ok a ⟨state, s.trace ++ [⟨c, t, none⟩]⟩
    | .error fault state => .error fault ⟨state, s.trace ++ [⟨c, t, some fault⟩]⟩

def onSuccess (c : Call) (t : String) (call : EStateM Fault σ α) : EStateM Fault (Traced σ) α :=
  fun s =>
    match call s.state with
    | .ok a state => .ok a ⟨state, s.trace ++ [⟨c, t, none⟩]⟩
    | .error fault state => .error fault { s with state }

end Traced

/-- The environment with a trace of its calls; `pauseText` stands for the pause. -/
def Environment.traced {σ : Type} (pauseText : String) (env : Environment σ) :
    Environment (Traced σ) where
  stat t := Traced.lift (env.stat t)
  lstat t := Traced.lift (env.lstat t)
  list t := Traced.always .list t (env.list t)
  rmdir t := Traced.always .rmdir t (env.rmdir t)
  unlink t := Traced.always .unlink t (env.unlink t)
  mkdir t := Traced.onSuccess .mkdir t (env.mkdir t)
  readLink t := Traced.lift (env.readLink t)
  workingDirectory := Traced.lift env.workingDirectory
  pause := Traced.always .pause pauseText env.pause
  collect := Traced.always .collect "" env.collect

end TreeRemoval
