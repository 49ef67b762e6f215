import TreeRemoval.Environment

/-! # Real paths

The path that an absolute path text means once its links are followed. A part that cannot be looked
at is taken as it is. On a loop of links the text is left unresolved from there on.
-/

namespace TreeRemoval

/-- Two path texts one after the other; an absolute second one stands alone. -/
def joinTexts (first second : String) : String :=
  if Anchor.ofText second ≠ .here then second
  else if first = "" ∨ first.toList.getLast? = some '/' then first ++ second
  else first ++ "/" ++ second

namespace RealPath

/-- A place known to be free of links, or a text that led into a loop. -/
inductive Resolved where
  | place (parts : List String)
  | looped (t : String)
  deriving DecidableEq, Repr

/-- The links met so far, with the places they stand for; a link without one is being followed. -/
abbrev Seen := List (List String × Option (List String))

def placeText (parts : List String) : String := "/" ++ "/".intercalate parts

/-- The deepest nesting of links within links. A limit of the runtime on nested calls may be met
before, and would be an error of the runtime; such limits are left out. -/
def maxNesting : Nat := 1000

variable {σ : Type} (env : Environment σ)

/-- Whether there is a link; what cannot be looked at is none. -/
def isLinkAt (parts : List String) : EStateM Fault σ Bool := do
  match ← outcome (env.lstat (placeText parts)) with
  | .ok status => return status.kind = .link
  | .error (.system _) => return false
  | .error fault => throw fault

/-- Goes through the pieces of a text from a place. The target of a link is left to `expand`. -/
def resolveWith (expand : List String → String → Seen → EStateM Fault σ (Resolved × Seen)) :
    List String → Seen → List String → EStateM Fault σ (Resolved × Seen)
  | place, seen, [] => return (.place place, seen)
  | place, seen, piece :: rest => do
    if piece = "" ∨ piece = "." then resolveWith expand place seen rest
    else if piece = ".." then resolveWith expand place.dropLast seen rest
    else
      let next := place ++ [piece]
      if !(← isLinkAt env next) then resolveWith expand next seen rest
      else
        match seen.lookup next with
        | some (some known) => resolveWith expand known seen rest
        | some none =>
          return (.looped (joinTexts (placeText next) ("/".intercalate rest)), seen)
        | none =>
          let target ← env.readLink (placeText next)
          match ← expand place target ((next, none) :: seen) with
          | (.place found, seen) => resolveWith expand found ((next, some found) :: seen) rest
          | (.looped t, seen) => return (.looped (joinTexts t ("/".intercalate rest)), seen)

def resolve : Nat → List String → String → Seen → EStateM Fault σ (Resolved × Seen)
  | 0, place, t, seen => return (.looped (joinTexts (placeText place) t), seen)
  | nesting + 1, place, t, seen =>
    resolveWith env (resolve nesting) (if Anchor.ofText t = .here then place else []) seen
      (pieceTexts t)

end RealPath

def Environment.realPath {σ : Type} (env : Environment σ) (t : String) :
    EStateM Fault σ String := do
  match (← RealPath.resolve env RealPath.maxNesting [] t []).1 with
  | .place parts => return RealPath.placeText parts
  | .looped t => return (Path.ofText t).normalize.text

end TreeRemoval
