import TreeRemoval.Text.Case

/-! # Severity levels

The five levels of log records, in rising order. A level is set by its name in any case; a record's
level is chosen by a word, for which there are a few synonyms.
-/

namespace TreeRemoval.Log

inductive Level
  | debug | info | warning | error | critical
  deriving DecidableEq, Repr

namespace Level

def all : List Level := [debug, info, warning, error, critical]

def number : Level → Nat
  | debug => 10
  | info => 20
  | warning => 30
  | error => 40
  | critical => 50

def name : Level → String
  | debug => "DEBUG"
  | info => "INFO"
  | warning => "WARNING"
  | error => "ERROR"
  | critical => "CRITICAL"

def names : List String := all.map name

def ofText? (t : String) : Option Level := all.find? (·.name = Text.toUpper t)

end Level

/-- How a record is written: at which level, and whether with the error being handled. -/
structure Method where
  level : Level
  withError : Bool
  deriving DecidableEq, Repr

def methods : List (String × Method) :=
  [("debug", ⟨.debug, false⟩), ("info", ⟨.info, false⟩), ("warning", ⟨.warning, false⟩),
    ("warn", ⟨.warning, false⟩), ("error", ⟨.error, false⟩), ("exception", ⟨.error, true⟩),
    ("critical", ⟨.critical, false⟩), ("fatal", ⟨.critical, false⟩)]

/-- The method that a word names, or else its lower case, which names none. -/
def Method.ofText (t : String) : Except String Method :=
  match methods.lookup (Text.toLower t) with
  | some method => .ok method
  | none => .error (Text.toLower t)

end TreeRemoval.Log
