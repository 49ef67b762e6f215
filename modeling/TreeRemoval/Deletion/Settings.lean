import TreeRemoval.Deletion.Tree
import TreeRemoval.Log.Registry

/-! # Settings of a deleter

A deleter is made from settings, which are checked one by one. All deleters write to one logger,
whose threshold is that of the deleter made last.
-/

namespace TreeRemoval

/-- A setting that should be a procedure, but may be some other value. -/
inductive Procedure (α : Type) where
  | given (run : α)
  | other (value : Log.Value)

structure Settings (σ : Type) where
  now : Procedure (σ → Float × σ)
  isSymlink : Procedure (Path → EStateM Fault σ Bool)
  collectsGarbage : Bool := false
  logLevel : String := "INFO"
  maxReported : Int := defaultMaxReported

inductive SettingsError where
  | notProcedure (setting : String) (value : Log.Value)
  | capTooSmall (cap : Int)
  | unknownLevel (e : Log.UnknownLevel)

def SettingsError.message : SettingsError → String
  | notProcedure setting value =>
    match value.shown with
    | .ok shown => setting ++ " must be callable, got " ++ shown
    | .error e => e.message
  | capTooSmall cap => s!"max_reported_paths must be >= 1, got {cap}"
  | unknownLevel e => e.message

/-- How a deleter tells links from other nodes. -/
inductive SymlinkTest where
  /-- By looking at the node. -/
  | look
  | always
  | never
  /-- By the last part of the path. -/
  | named (names : List String)
  deriving DecidableEq, Repr

def SymlinkTest.run {σ : Type} (env : Environment σ) (test : SymlinkTest) (p : Path) :
    EStateM Fault σ Bool :=
  match test with
  | look => env.isLink p.text
  | always => return true
  | never => return false
  | named names => return names.contains p.name

namespace Deleter

def loggerName : Log.LoggerName := .named "treepurge"

/-- The first setting that is refused decides the error. -/
def make {σ : Type} (env : Environment σ) (s : Settings σ) (registry : Log.Registry) :
    Except SettingsError (Deleter σ × Log.Registry) :=
  match s.now with
  | .other value => .error (.notProcedure "now" value)
  | .given now =>
    match s.isSymlink with
    | .other value => .error (.notProcedure "is_symlink" value)
    | .given isSymlink =>
      if h : 1 ≤ s.maxReported then
        match registry.setUp loggerName s.logLevel .standardOutput with
        | .error e => .error (.unknownLevel e)
        | .ok (_, registry) =>
          .ok (⟨env, now, isSymlink, s.collectsGarbage, s.maxReported.toNat, by omega⟩, registry)
      else .error (.capTooSmall s.maxReported)

end Deleter

end TreeRemoval
