import TreeRemoval.Log.Level
import TreeRemoval.Log.Template
import TreeRemoval.Log.Timestamp

/-! # Log records

A record is written as one line of JSON: time, level, message, logger, then the error and the extra
fields if there are any.
-/

namespace TreeRemoval.Log

structure Record where
  /-- Seconds since 1970, as a clock reads them. Times beyond a platform's calendar are left out. -/
  created : Float := 0
  levelNumber : Int
  logger : String
  template : String
  args : List Value := []
  /-- The error being handled; the inner `none` says that there was none to speak of. -/
  error : Option (Option (ErrorKind × List Value)) := none
  extra : Value := .null

inductive FormatError where
  | level (e : Value.TextError)
  | template (e : TemplateError)
  | extra (e : Value.JsonError)
  deriving DecidableEq, Repr

namespace FormatError

def className : FormatError → String
  | level e => e.className
  | template e => e.className
  | extra e => e.className

def message : FormatError → String
  | level e => e.message
  | template e => e.message
  | extra e => e.message

end FormatError

def Level.nameOf (n : Int) : Except Value.TextError String :=
  if n = 0 then .ok "NOTSET"
  else
    match all.find? fun level => (level.number : Int) = n with
    | some level => .ok level.name
    | none => (Value.decimalText n).map ("Level " ++ ·)

theorem Level.nameOf_number (level : Level) : nameOf level.number = .ok level.name := by
  cases level <;> rfl

namespace Record

/-- The class and the message of an error, or the class alone if the message is empty. -/
def errorLine (kind : ErrorKind) (args : List Value) : String :=
  match (Value.error kind args).toText with
  | .ok "" => kind.qualifiedName
  | .ok message => kind.qualifiedName ++ ": " ++ message
  | .error _ => kind.qualifiedName ++ ": <exception str() failed>"

def errorFields : Option (Option (ErrorKind × List Value)) → List (String × Json)
  | none => []
  | some none => [("error", .string "NoneType: None"), ("error_type", .null)]
  | some (some (kind, args)) =>
    [("error", .string (errorLine kind args)), ("error_type", .string kind.name)]

variable (r : Record)

def extraFields : Except FormatError (List (String × Json)) :=
  if r.extra.isBlank then .ok []
  else
    match r.extra.toJson with
    | .ok extra => .ok [("extra_fields", extra)]
    | .error e => .error (.extra e)

def toJson : Except FormatError Json := do
  let level ← (Level.nameOf r.levelNumber).mapError .level
  let message ← (formatMessage r.template r.args).mapError .template
  let extra ← r.extraFields
  return .object
    ([("timestamp", .string (timestamp r.created)), ("level", .string level),
      ("message", .string message), ("logger", .string r.logger)] ++ errorFields r.error ++ extra)

def line : Except FormatError String := r.toJson.map Json.render

end Record

/-- What a program says about its work, before it is known whether a logger lets it pass. -/
structure Entry where
  level : Level
  message : String
  fields : List (String × Value) := []

def Entry.record (logger : String) (e : Entry) : Record where
  levelNumber := e.level.number
  logger
  template := e.message
  extra := .dictionary (e.fields.map fun (name, value) => (.text name, value))

end TreeRemoval.Log
