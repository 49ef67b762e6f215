import TreeRemoval.Command.Help
import TreeRemoval.Deletion.Settings
import TreeRemoval.Path.Real

/-! # Running the command

The command parses its arguments, checks the target, deletes or empties it, and ends with a status:
0 on success, 1 on failure, 2 for wrong usage, 130 after an interrupt. A cancellation has no status.
A target is refused if its normalised text, or the real path of that text, is a protected system
directory or lies in one.
-/

namespace TreeRemoval.Target

/-- Virtual file systems and directories of the operating system. -/
def protectedPaths : List String :=
  ["/", "/proc", "/sys", "/dev", "/run", "/var/run", "/boot", "/bin", "/sbin", "/lib", "/lib64",
    "/usr/bin", "/usr/sbin", "/usr/lib", "/etc"]

def isWithin (guarded t : String) : Bool :=
  t = guarded || (guarded ≠ "/" && (guarded ++ "/").toList.isPrefixOf t.toList)

def guardOf? (t : String) : Option String := protectedPaths.find? (isWithin · t)

/-- The refusal of a target, with its normalised text and the directory that protects it. -/
structure Refusal where
  target : String
  guarded : String
  deriving DecidableEq, Repr

def Refusal.message (r : Refusal) : String :=
  "Refusing to delete protected system path: " ++ r.target ++ " (resolves inside \x27" ++
    r.guarded ++ "\x27)"

variable {σ : Type} (env : Environment σ)

/-- The absolute path of a target, not normalised, if no protected directory is at stake. -/
def check (t : String) : EStateM Fault σ (Except Refusal Path) := do
  let given := Path.ofText t
  let target ←
    if given.isAbsolute then pure given
    else pure ((Path.ofText (← env.workingDirectory)).under given)
  let normal := target.normalize.text
  let real ← env.realPath normal
  match guardOf? normal, guardOf? real with
  | some guarded, _ | none, some guarded => return .error ⟨normal, guarded⟩
  | none, none => return .ok target

end TreeRemoval.Target

namespace TreeRemoval.Command

inductive Ending where
  | exit (status : Nat)
  /-- A cancellation, which is not the command's to handle. -/
  | escaped (e : Failure)

/-- What the command leaves behind besides its work. -/
structure Transcript where
  ending : Ending
  output : String := ""
  errors : String := ""

namespace Transcript

def refusal (message : String) : Transcript := ⟨.exit 1, "", "Fatal error: " ++ message ++ "\n"⟩

def ofFailure (output : String) (e : Failure) : Transcript :=
  match e with
  | .fault .interrupted => ⟨.exit 130, output, "\nOperation cancelled by user\n"⟩
  | .fault .cancelled | .cancelled .. => ⟨.escaped e, output, ""⟩
  | .undeletable .. | .incomplete .. => ⟨.exit 1, output, e.message ++ "\n"⟩
  | .fault _ | .tooDeep => ⟨.exit 1, output, "Fatal error: " ++ e.message ++ "\n"⟩

end Transcript

variable {σ : Type}

def startFields (target : Path) (o : Options) : List (String × Log.Value) :=
  [("version", .text versionText), ("path", .text target.text),
    ("follow_symlinks", .bool o.followSymlinks), ("gc_on_failed_delete", .bool o.collectGarbage),
    ("ensure_empty", .bool o.ensureEmpty)]

/-- The work on a target, between a first and perhaps a last log entry. -/
def work (d : Deleter σ) (target : Path) (o : Options) : Deletion σ Unit := do
  Deletion.note .info "Starting deletion" (startFields target o)
  let deleted ←
    if o.ensureEmpty then d.ensureEmpty o.followSymlinks target
    else d.deleteTree o.followSymlinks target
  if !deleted then Deletion.note .info "Nothing to delete" [("path", .text target.text)]

def output (registry : Log.Registry) (log : List Log.Entry) : String :=
  String.join ((registry.writeAll Deleter.loggerName log).map fun (_, line) => line ++ "\n")

def perform (env : Environment σ) (now : σ → Float × σ) (o : Options) (s : σ) : Transcript × σ :=
  match Target.check env o.path s with
  | .error f s => (.ofFailure "" (.fault f), s)
  | .ok (.error refusal) s => (.refusal refusal.message, s)
  | .ok (.ok target) s =>
    let settings : Settings σ :=
      { now := .given now
        isSymlink := .given (SymlinkTest.run env .look)
        collectsGarbage := o.collectGarbage
        logLevel := o.logLevel }
    match Deleter.make env settings .empty with
    | .error e => (.refusal e.message, s)
    | .ok (d, registry) =>
      match work d target o { state := s } with
      | .ok _ session => (⟨.exit 0, output registry session.log, ""⟩, session.state)
      | .error e session => (.ofFailure (output registry session.log) e, session.state)

def run (env : Environment σ) (now : σ → Float × σ) (variableOf : String → Option String)
    (args : List String) (s : σ) : Transcript × σ :=
  let defaults := Defaults.ofVariables variableOf
  match Request.ofArguments defaults args with
  | .help => (⟨.exit 0, help defaults, ""⟩, s)
  | .version => (⟨.exit 0, versionLine, ""⟩, s)
  | .refuse e => (⟨.exit 2, "", e.text⟩, s)
  | .perform o => perform env now o s

end TreeRemoval.Command
