import TreeRemoval.Errno
import TreeRemoval.Text.Quoted

/-! # Faults

The ways in which a call to the outside can fail: a system error on a path, a path text that no call
takes, a cancellation, or an interrupt from the keyboard.
-/

namespace TreeRemoval

structure SystemError where
  errno : Errno
  /-- The path text that was passed to the failing call, if it took one. -/
  path : Option String
  deriving DecidableEq, Repr

def SystemError.message (e : SystemError) : String :=
  s!"[Errno {e.errno.number}] " ++ e.errno.text ++
    match e.path with
    | some path => ": " ++ Text.quote path
    | none => ""

inductive Fault where
  | system (e : SystemError)
  | nullByte
  | cancelled
  | interrupted
  deriving DecidableEq, Repr

namespace Fault

def message : Fault → String
  | system e => e.message
  | nullByte => "embedded null byte"
  | cancelled | interrupted => ""

def className : Fault → String
  | system e => e.errno.errorClass.name
  | nullByte => "ValueError"
  | cancelled => "CancelledError"
  | interrupted => "KeyboardInterrupt"

/-- Whether a question about a path takes the fault for the answer no. -/
def isNegative : Fault → Bool
  | system _ | nullByte => true
  | cancelled | interrupted => false

end Fault

end TreeRemoval
