/-! # Paths

A path is an anchor and the parts below it. Empty parts and single dots vanish when a text is read,
double dots stay; `normalize` then lets a double dot cancel the part before it. Texts of paths hold
characters only; halves of surrogate pairs, which no encoded path stands for, are left out.
-/

namespace TreeRemoval

def pieces : List Char → List (List Char)
  | [] => [[]]
  | c :: cs =>
    if c = '/' then [] :: pieces cs
    else
      match pieces cs with
      | [] => [[c]]
      | piece :: rest => (c :: piece) :: rest

theorem pieces_ne_nil (cs : List Char) : pieces cs ≠ [] := by
  cases cs with
  | nil => simp [pieces]
  | cons c cs =>
    unfold pieces
    split
    · simp
    · split <;> simp

theorem slash_notMem_of_mem_pieces {cs piece : List Char} (h : piece ∈ pieces cs) :
    '/' ∉ piece := by
  induction cs generalizing piece with
  | nil => simp_all [pieces]
  | cons c cs ih =>
    unfold pieces at h
    split at h
    · rcases List.mem_cons.1 h with rfl | h
      · simp
      · exact ih h
    · rename_i hc
      split at h
      · rename_i hp
        exact absurd hp (pieces_ne_nil cs)
      · rename_i p rest hp
        rcases List.mem_cons.1 h with rfl | h
        · simp only [List.mem_cons, not_or]
          exact ⟨fun h => hc h.symm, ih (hp ▸ List.mem_cons_self)⟩
        · exact ih (hp ▸ List.mem_cons_of_mem _ h)

def pieceTexts (t : String) : List String := (pieces t.toList).map String.ofList

def lastPiece (t : String) : String := (pieceTexts t).getLast?.getD ""

structure Name where
  text : String
  ne_empty : text ≠ ""
  ne_dot : text ≠ "."
  ne_dots : text ≠ ".."
  no_slash : '/' ∉ text.toList
  deriving DecidableEq

namespace Name

def ofText? (t : String) : Option Name :=
  if h : t ≠ "" ∧ t ≠ "." ∧ t ≠ ".." ∧ '/' ∉ t.toList then
    some ⟨t, h.1, h.2.1, h.2.2.1, h.2.2.2⟩
  else none

@[ext] theorem ext {a b : Name} (h : a.text = b.text) : a = b := by
  cases a; cases b; cases h; rfl

@[simp] theorem ofText?_text (n : Name) : ofText? n.text = some n := by
  simp [ofText?, n.ne_empty, n.ne_dot, n.ne_dots, n.no_slash]

/-- Longer names are refused by every file-system call. -/
def maxBytes : Nat := 255

def isTooLong (n : Name) : Bool := maxBytes < n.text.utf8ByteSize

end Name

/-- What a path text starts from: the working directory, or the root under one of its two names. -/
inductive Anchor
  | here | root | doubleRoot
  deriving DecidableEq, Repr

def Anchor.text : Anchor → String
  | here => ""
  | root => "/"
  | doubleRoot => "//"

/-- Exactly two leading slashes are kept as two; every other positive count means one. -/
def Anchor.ofText (t : String) : Anchor :=
  match t.toList with
  | '/' :: '/' :: '/' :: _ => root
  | '/' :: '/' :: _ => doubleRoot
  | '/' :: _ => root
  | _ => here

structure Path where
  anchor : Anchor
  parts : List String
  deriving DecidableEq, Repr

namespace Path

def ofText (t : String) : Path :=
  ⟨.ofText t, (pieceTexts t).filter fun piece => piece ≠ "" && piece ≠ "."⟩

def text (p : Path) : String :=
  let t := p.anchor.text ++ "/".intercalate p.parts
  if t = "" then "." else t

def isAbsolute (p : Path) : Bool := p.anchor ≠ .here

def child (p : Path) (n : Name) : Path := { p with parts := p.parts ++ [n.text] }

def name (p : Path) : String := p.parts.getLast?.getD ""

/-- `p` seen from `base`; an absolute path is the same from everywhere. -/
def under (base p : Path) : Path :=
  if p.isAbsolute then p else { base with parts := base.parts ++ p.parts }

/-- One more part on a reversed list of parts: a double dot removes a name before it, and vanishes
at the root. -/
def push (absolute : Bool) (parts : List String) (part : String) : List String :=
  if part ≠ ".." then part :: parts
  else
    match parts with
    | [] => if absolute then [] else [part]
    | last :: rest => if last = ".." then part :: last :: rest else rest

def normalize (p : Path) : Path :=
  { p with parts := (p.parts.foldl (push p.isAbsolute) []).reverse }

def absolute (workingDirectory : String) (p : Path) : Path :=
  ((ofText workingDirectory).under p).normalize

@[simp] theorem anchor_child (p : Path) (n : Name) : (p.child n).anchor = p.anchor := rfl

@[simp] theorem parts_child (p : Path) (n : Name) : (p.child n).parts = p.parts ++ [n.text] := rfl

end Path

end TreeRemoval
