import TreeRemoval.Deletion.Session

/-! # Attempts on one node

A node is removed without following links. If the first try fails, there is a pause and one more
try. A node that is not there needs no removal.
-/

namespace TreeRemoval

structure Deleter (σ : Type) where
  environment : Environment σ
  /-- Seconds since 1970, to be compared with modification times. -/
  now : σ → Float × σ
  isSymlink : Path → EStateM Fault σ Bool
  /-- Whether garbage is collected before a second try. -/
  collectsGarbage : Bool
  /-- The cap on failed and on new paths. -/
  maxReported : Nat
  maxReported_pos : 0 < maxReported

inductive Attempt where
  /-- The first try settled it; it removed the node or found none. -/
  | first (removed : Bool)
  | second (removed : Bool)
  /-- Both tries failed. -/
  | stuck (absolute : String) (e : SystemError)
  /-- The first try failed and the pause was cancelled. -/
  | abandoned (e : SystemError)
  deriving DecidableEq, Repr

namespace Deleter

open Deletion

variable {σ : Type} (d : Deleter σ)

def absolute (p : Path) : Deletion σ String := perform (d.environment.absolute p)

/-- One try. A system error is an outcome, every other fault ends the deletion. -/
def tryOnce (p : Path) : Deletion σ (Except SystemError Bool) := do
  let result ← observe (d.environment.removeNode p.text)
  record (.tried p result)
  match result with
  | .ok removed => return .ok removed
  | .error (.system e) => return .error e
  | .error f => throw (.fault f)

/-- Unreachable objects may hold a file open until they are collected. -/
def pauseBeforeRetry : EStateM Fault σ Unit := do
  if d.collectsGarbage then d.environment.collect
  d.environment.pause

def attempt (p : Path) : Deletion σ Attempt := do
  match ← d.tryOnce p with
  | .ok removed => return .first removed
  | .error e =>
    let place ← d.absolute p
    note .debug
      (s!"Retrying removal of {place} after " ++ e.errno.errorClass.name ++ ": " ++ e.message)
    let result ← observe d.pauseBeforeRetry
    record (.paused p result)
    match result with
    | .ok _ =>
      match ← d.tryOnce p with
      | .ok removed => return .second removed
      | .error e => return .stuck (← d.absolute p) e
    | .error .cancelled => return .abandoned e
    | .error f => throw (.fault f)

/-- Deletes a single file, link or empty directory. It tells whether there was one. -/
def delete (p : Path) : Deletion σ Bool := do
  match ← d.attempt p with
  | .first removed | .second removed => return removed
  | .stuck place e => throw (.undeletable p place e)
  | .abandoned _ => throw (.fault .cancelled)

end Deleter

end TreeRemoval
