import TreeRemoval.Log.Record

/-! # Loggers

Loggers form a tree by their dotted names under the root logger. A record that passes its logger's
threshold goes to the streams of that logger and of all loggers above it. A logger that was never
set up has no stream; when it is asked to write, it counts as made after all others.
-/

namespace TreeRemoval.Log

/-- A logger's name; the root logger has none. -/
inductive LoggerName where
  | root
  | named (name : String)
  deriving DecidableEq, Repr

namespace LoggerName

def ofText (t : String) : LoggerName := if t = "" ∨ t = "root" then root else named t

def text : LoggerName → String
  | root => "root"
  | named name => name

end LoggerName

inductive Stream where
  | standardOutput
  | labelled (label : String)
  deriving DecidableEq, Repr

structure Logger where
  name : LoggerName
  threshold : Level
  stream : Stream
  deriving DecidableEq, Repr

structure UnknownLevel where
  text : String
  deriving DecidableEq, Repr

def UnknownLevel.message (e : UnknownLevel) : String :=
  "log level must be one of " ++ ", ".intercalate Level.names ++ ", got " ++ Text.quote e.text

structure UnknownMethod where
  name : String
  deriving DecidableEq, Repr

def UnknownMethod.message (e : UnknownMethod) : String :=
  "\x27Logger\x27 object has no attribute \x27" ++ e.name ++ "\x27"

structure Registry where
  loggers : List Logger
  deriving DecidableEq, Repr

namespace Registry

def empty : Registry := ⟨[]⟩

variable (r : Registry)

def find? (name : LoggerName) : Option Logger := r.loggers.find? (·.name = name)

/-- Whether a logger takes one below it from the loggers further above. One that is named with a
beginning of the root's own name does not take from the root what was there before it. -/
def takes (above below : LoggerName) : Bool :=
  let older :=
    if above.text.toList.isPrefixOf LoggerName.root.text.toList then
      r.loggers.takeWhile (·.name ≠ below)
    else r.loggers
  older.any (·.name = above)

/-- The loggers above one, nearest first, given what is left of its name, reversed. They stand
before its dots, of which one directly left of another is passed over. -/
def above (below : LoggerName) (passesDot : Bool) : List Char → List LoggerName
  | [] => [.root]
  | c :: rest =>
    if c = '.' ∧ passesDot = false ∧ rest ≠ [] then
      let name := LoggerName.named (String.ofList rest.reverse)
      if r.takes name below then name :: above name false rest else above below true rest
    else above below false rest

/-- The loggers whose streams get a logger's records: the logger, those above it, the root. -/
def lineage : LoggerName → List LoggerName
  | .root => [.root]
  | .named name => .named name :: r.above (.named name) false name.toList.reverse

/-- The threshold of a logger: its own, else that of the nearest logger above that has one. The
root lets warnings pass before it is set up. -/
def threshold (name : LoggerName) : Level :=
  match (r.lineage name).findSome? r.find? with
  | some logger => logger.threshold
  | none => .warning

def streams (name : LoggerName) : List Stream :=
  (r.lineage name).filterMap fun above => (r.find? above).map (·.stream)

/-- Sets a logger up. A logger that has a stream keeps it and changes its threshold alone. -/
def setUp (name : LoggerName) (level : String) (stream : Stream) :
    Except UnknownLevel (Logger × Registry) :=
  match Level.ofText? level with
  | none => .error ⟨level⟩
  | some threshold =>
    match r.find? name with
    | some logger =>
      let logger := { logger with threshold }
      .ok (logger, ⟨r.loggers.map fun l => if l.name = name then logger else l⟩)
    | none =>
      let logger : Logger := ⟨name, threshold, stream⟩
      .ok (logger, ⟨r.loggers ++ [logger]⟩)

/-- The lines that a record makes, each with its stream. A record that has no line makes none. -/
def write (name : LoggerName) (record : Record) : List (Stream × String) :=
  if (r.threshold name).number ≤ record.levelNumber then
    match record.line with
    | .ok line => (r.streams name).map (·, line)
    | .error _ => []
  else []

def writeAll (name : LoggerName) (entries : List Entry) : List (Stream × String) :=
  entries.flatMap fun entry => r.write name (entry.record name.text)

def log (name : LoggerName) (method message : String) (extra : List (Value × Value)) :
    Except UnknownMethod (List (Stream × String)) :=
  match Method.ofText method with
  | .error name => .error ⟨name⟩
  | .ok method =>
    .ok (r.write name
      { levelNumber := method.level.number
        logger := name.text
        template := message
        error := if method.withError then some none else none
        extra := .dictionary extra })

end Registry

end TreeRemoval.Log
