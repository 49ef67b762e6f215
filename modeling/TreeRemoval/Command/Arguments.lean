import TreeRemoval.Log.Level
import TreeRemoval.Text.Quoted
import TreeRemoval.Text.Wrap

/-! # Command-line arguments

One path and some options, mixed freely. A long option may be shortened as long as it stays unique;
after a double hyphen everything is positional. Options act from left to right, so a request for
help or the version wins over later errors, but an ambiguous option wins over everything.
-/

namespace TreeRemoval.Command

inductive Switch
  | help | followSymlinks | collectGarbage | ensureEmpty | logLevel | version
  deriving DecidableEq, Repr

namespace Switch

def spellings : List (String × Switch) :=
  [("-h", help), ("--help", help), ("--follow-symlinks", followSymlinks),
    ("--gc-on-failed-delete", collectGarbage), ("--ensure-empty", ensureEmpty),
    ("--log-level", logLevel), ("--version", version)]

def label (s : Switch) : String :=
  "/".intercalate ((spellings.filter (·.2 = s)).map (·.1))

end Switch

inductive UsageError where
  | ambiguous (arg : String) (spellings : List String)
  | ignoredValue (switch : Switch) (value : String)
  | missingValue (switch : Switch)
  | invalidLevel (value : String)
  | missingPath
  | unrecognized (args : List String)
  deriving DecidableEq, Repr

def UsageError.message : UsageError → String
  | ambiguous arg spellings =>
    "ambiguous option: " ++ arg ++ " could match " ++ ", ".intercalate spellings
  | ignoredValue switch value =>
    "argument " ++ switch.label ++ ": ignored explicit argument " ++ Text.quote value
  | missingValue switch => "argument " ++ switch.label ++ ": expected one argument"
  | invalidLevel value =>
    "argument --log-level: invalid choice: " ++ Text.quote value ++ " (choose from " ++
      ", ".intercalate (Log.Level.names.map Text.quote) ++ ")"
  | missingPath => "the following arguments are required: path"
  | unrecognized args => "unrecognized arguments: " ++ " ".intercalate args

inductive Token where
  | positional (arg : String)
  /-- The double hyphen. -/
  | separator
  /-- A switch, spelled short or long, with a value in the same argument if there is one. -/
  | switch (s : Switch) (short : Bool) (value : Option String)
  | unknown (arg : String)
  deriving DecidableEq, Repr

namespace Token

/-- A minus sign before digits, with or without a point; a line feed at the end does not count. -/
def isNegativeNumber (arg : String) : Bool :=
  match arg.toList with
  | '-' :: cs =>
    let cs := if cs.getLast? = some '\n' then cs.dropLast else cs
    let whole := cs.takeWhile Text.isDecimalDigit
    match cs.dropWhile Text.isDecimalDigit with
    | [] => !whole.isEmpty
    | '.' :: fraction => !fraction.isEmpty && fraction.all Text.isDecimalDigit
    | _ => false
  | _ => false

/-- An argument before its first equals sign, and what follows the sign. -/
def cutValue (arg : String) : String × Option String :=
  let cs := arg.toList
  let value := match cs.dropWhile (· ≠ '=') with
    | _ :: value => some (String.ofList value)
    | [] => none
  (String.ofList (cs.takeWhile (· ≠ '=')), value)

/-- An argument with a leading hyphen that no spelling explains. -/
def unexplained (arg : String) : Token :=
  if isNegativeNumber arg || arg.contains ' ' then positional arg else unknown arg

/-- An argument that is no spelling, not even before its equals sign: a long option cut short, or
the short one with something attached. -/
def abbreviated (arg : String) : Except UsageError Token :=
  if arg.startsWith "--" then
    let (start, value) := cutValue arg
    match Switch.spellings.filter fun (spelling, _) => spelling.startsWith start with
    | [] => .ok (unexplained arg)
    | [(_, s)] => .ok (switch s false value)
    | several => .error (.ambiguous arg (several.map (·.1)))
  else
    let (front, attached) := (arg.toList.take 2, arg.toList.drop 2)
    match Switch.spellings.lookup (String.ofList front) with
    | some s => .ok (switch s true (some (String.ofList attached)))
    | none => .ok (unexplained arg)

def ofArgument (arg : String) : Except UsageError Token :=
  if !arg.startsWith "-" || arg = "-" then .ok (positional arg)
  else
    match Switch.spellings.lookup arg with
    | some s => .ok (switch s (!arg.startsWith "--") none)
    | none =>
      match cutValue arg with
      | (start, some value) =>
        match Switch.spellings.lookup start with
        | some s => .ok (switch s (!start.startsWith "--") (some value))
        | none => abbreviated arg
      | (_, none) => abbreviated arg

def ofArguments : List String → Except UsageError (List Token)
  | [] => .ok []
  | "--" :: rest => .ok (separator :: rest.map positional)
  | arg :: rest => do
    let token ← ofArgument arg
    return token :: (← ofArguments rest)

def argument : Token → List String
  | positional arg | unknown arg => [arg]
  | separator => ["--"]
  | switch .. => []

def isSwitch : Token → Bool
  | switch .. | unknown _ => true
  | _ => false

end Token

structure Options where
  path : String
  followSymlinks : Bool
  collectGarbage : Bool
  ensureEmpty : Bool
  logLevel : String
  deriving DecidableEq, Repr

inductive Request where
  | perform (options : Options)
  | help
  | version
  | refuse (e : UsageError)
  deriving DecidableEq, Repr

/-- Options until an argument overrides them. -/
structure Defaults where
  followSymlinks : Bool := false
  collectGarbage : Bool := false
  ensureEmpty : Bool := false
  logLevel : String := "INFO"
  deriving DecidableEq, Repr

def isSet (value : Option String) : Bool :=
  match value with
  | some value => ["1", "true", "yes"].contains (Text.toLower value)
  | none => false

/-- The defaults that environment variables make. The level is not checked here. -/
def Defaults.ofVariables (variableOf : String → Option String) : Defaults where
  followSymlinks := isSet (variableOf "TREEPURGE_FOLLOW_SYMLINKS")
  collectGarbage := isSet (variableOf "TREEPURGE_GC_ON_FAILED_DELETE")
  ensureEmpty := isSet (variableOf "TREEPURGE_ENSURE_EMPTY")
  logLevel := Text.toUpper ((variableOf "TREEPURGE_LOG_LEVEL").getD "INFO")

/-- What has been understood so far. -/
structure Progress where
  defaults : Defaults
  path : Option String := none
  unrecognized : List String := []

namespace Progress

def finish (p : Progress) : Request :=
  match p.path with
  | none => .refuse .missingPath
  | some path =>
    if p.unrecognized.isEmpty then
      .perform ⟨path, p.defaults.followSymlinks, p.defaults.collectGarbage, p.defaults.ensureEmpty,
        p.defaults.logLevel⟩
    else .refuse (.unrecognized p.unrecognized)

def refuseAll (p : Progress) (tokens : List Token) : Progress :=
  { p with unrecognized := p.unrecognized ++ tokens.flatMap Token.argument }

/-- The arguments after the last switch. The path takes the separator next to it along. -/
def takeRest (p : Progress) (tokens : List Token) : Progress :=
  match p.path, tokens with
  | none, .positional path :: .separator :: rest => { p with path := some path }.refuseAll rest
  | none, .positional path :: rest => { p with path := some path }.refuseAll rest
  | none, .separator :: .positional path :: rest => { p with path := some path }.refuseAll rest
  | _, rest => p.refuseAll rest

/-- The short switch with letters attached: each has to be the same switch once more. Argument
readers differ on other letters: some give the help for the first one. No run that does work has
any. -/
def cluster (value : List Char) : Request :=
  match value.dropWhile (· = 'h') with
  | [] => if value.isEmpty then .refuse (.ignoredValue .help "") else .help
  | rest => .refuse (.ignoredValue .help (String.ofList rest))

def refuseValue (s : Switch) (short : Bool) (value : String) : Request :=
  if short then cluster value.toList else .refuse (.ignoredValue s value)

/-- A switch without value other than the level: the defaults it makes, or the request it is. -/
def apply (d : Defaults) : Switch → Defaults ⊕ Request
  | .help => .inr .help
  | .version => .inr .version
  | .followSymlinks => .inl { d with followSymlinks := true }
  | .collectGarbage => .inl { d with collectGarbage := true }
  | .ensureEmpty => .inl { d with ensureEmpty := true }
  | .logLevel => .inr (.refuse (.missingValue .logLevel))

def setLevel (d : Defaults) (value : String) : Defaults ⊕ Request :=
  if Log.Level.names.contains value then .inl { d with logLevel := value }
  else .inr (.refuse (.invalidLevel value))

def run (p : Progress) : List Token → Request
  | [] => p.finish
  | .switch .logLevel _ (some value) :: rest
  | .switch .logLevel _ none :: .positional value :: rest =>
    match setLevel p.defaults value with
    | .inl defaults => run { p with defaults } rest
    | .inr request => request
  | .switch s short (some value) :: _ => refuseValue s short value
  | .switch s _ none :: rest =>
    match apply p.defaults s with
    | .inl defaults => run { p with defaults } rest
    | .inr request => request
  | .unknown arg :: rest => run { p with unrecognized := p.unrecognized ++ [arg] } rest
  | .positional arg :: rest =>
    if rest.any Token.isSwitch then
      match p.path with
      | none => run { p with path := some arg } rest
      | some _ => run { p with unrecognized := p.unrecognized ++ [arg] } rest
    else (p.takeRest (.positional arg :: rest)).finish
  | .separator :: rest => (p.takeRest (.separator :: rest)).finish

end Progress

def Request.ofArguments (defaults : Defaults) (args : List String) : Request :=
  match Token.ofArguments args with
  | .error e => .refuse e
  | .ok tokens => Progress.run { defaults } tokens

end TreeRemoval.Command
