import TreeRemoval.Environment

/-! # Events

What happens around the calls of a run: edits made by others, and faults. An event waits for calls
of one kind, on a path or a name if it says so, skips some of them and answers a number of others.
-/

namespace TreeRemoval

inductive Moment
  | before | after
  deriving DecidableEq, Repr

inductive Disruption where
  | errno (e : Errno)
  | cancel
  | interrupt
  deriving DecidableEq, Repr

def Disruption.fault (t : String) : Disruption → Fault
  | errno e => .system ⟨e, some t⟩
  | cancel => .cancelled
  | interrupt => .interrupted

structure Event where
  call : Call
  path : Option String := none
  name : Option String := none
  moment : Moment := .before
  skip : Nat := 0
  times : Option Nat := none
  edits : List Edit := []
  disruption : Option Disruption := none
  /-- How many calls have matched so far. -/
  seen : Nat := 0

namespace Event

def isMatch (e : Event) (moment : Moment) (call : Call) (t : String) : Bool :=
  e.call = call && e.moment = moment && e.path.all (· = t) && e.name.all (· = lastPiece t)

def isDue (e : Event) : Bool := e.skip ≤ e.seen && e.times.all (e.seen < e.skip + ·)

def count (e : Event) : Event := { e with seen := e.seen + 1 }

/-- Goes through the events at one moment of a call. A disruption ends the round, so that later
events do not count the call. -/
def fire (moment : Moment) (call : Call) (t : String) :
    List Event → FileSystem → List Event × FileSystem × Option Fault
  | [], files => ([], files, none)
  | e :: rest, files =>
    if e.isMatch moment call t then
      if e.isDue then
        let files := Edit.applyAll files e.edits
        match e.disruption with
        | some disruption => (e.count :: rest, files, some (disruption.fault t))
        | none =>
          let (rest, files, fault) := fire moment call t rest files
          (e.count :: rest, files, fault)
      else
        let (rest, files, fault) := fire moment call t rest files
        (e.count :: rest, files, fault)
    else
      let (rest, files, fault) := fire moment call t rest files
      (e :: rest, files, fault)

end Event

end TreeRemoval
