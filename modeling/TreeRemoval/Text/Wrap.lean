import TreeRemoval.Text.Printable
import TreeRemoval.Text.WordTable

/-! # Wrapping text

A text is cut into chunks, which are blanks, words, parts of hyphenated words up to and with the
hyphen, and dashes between words. The chunks fill lines up to a width; a chunk that is wider than a
line is cut, after a hyphen if it has one.
-/

namespace TreeRemoval.Text

/-- The blanks of ASCII, at which lines may be broken. -/
def isBlank (c : Char) : Bool :=
  c = ' ' || c = '\t' || c = '\n' || c = '\r' || c = '\x0b' || c = '\x0c'

/-- White space of all scripts, which does not stay at the ends of lines. -/
def isSpace (c : Char) : Bool :=
  let n := c.toNat
  (9 ≤ n && n ≤ 13) || (28 ≤ n && n ≤ 32) || n = 0x85 || n = 0xA0 || n = 0x1680 ||
    (0x2000 ≤ n && n ≤ 0x200A) || n = 0x2028 || n = 0x2029 || n = 0x202F || n = 0x205F || n = 0x3000

def isDecimalDigit (c : Char) : Bool := c.isDigit || inRanges digitRanges c.toNat

def isWordChar (c : Char) : Bool := c.isAlphanum || c = '_' || inRanges wordRanges c.toNat

def isLetter (c : Char) : Bool := isWordChar c && !isDecimalDigit c

/-- A character after which a dash can follow a word. -/
def endsWord (c : Char) : Bool :=
  isWordChar c || c = '!' || c = '\x22' || c = '\x27' || c = '&' || c = '.' || c = ',' || c = '?'

/-- Whether a dash of two or more hyphens between words starts here; `before` holds the characters
before, nearest first. -/
def isDashAt (before rest : List Char) : Bool :=
  let hyphens := rest.takeWhile (· = '-')
  before.head?.any endsWord && 2 ≤ hyphens.length &&
    (rest.drop hyphens.length).head?.any isWordChar

/-- Whether a hyphen here, followed by `rest`, joins parts of a word that may be set apart. -/
def isHyphenAt (before rest : List Char) : Bool :=
  let joins := match before with
    | a :: '-' :: b :: _ => isLetter a && isLetter b
    | a :: b :: _ => isLetter a && isLetter b
    | _ => false
  let goesOn := match rest with
    | a :: '-' :: b :: _ => isLetter a && isLetter b
    | a :: b :: _ => isLetter a && isLetter b
    | _ => false
  joins && goesOn

inductive ChunkKind
  | blank | dash | word
  deriving DecidableEq, Repr

def kindAt (before : List Char) (c : Char) (rest : List Char) : ChunkKind :=
  if isBlank c then .blank else if isDashAt before (c :: rest) then .dash else .word

/-- The chunks of a text whose current chunk, reversed, is `chunk`. -/
def chunksFrom (before chunk : List Char) (kind : ChunkKind) : List Char → List (List Char)
  | [] => [chunk.reverse]
  | c :: rest =>
    let fresh := fun (_ : Unit) =>
      chunk.reverse :: chunksFrom (c :: before) [c] (kindAt before c rest) rest
    match kind with
    | .blank => if isBlank c then chunksFrom (c :: before) (c :: chunk) .blank rest else fresh ()
    | .dash => if c = '-' then chunksFrom (c :: before) (c :: chunk) .dash rest else fresh ()
    | .word =>
      if chunk.isEmpty then chunksFrom (c :: before) [c] (kindAt before c rest) rest
      else if c = '-' && isHyphenAt before rest then
        (c :: chunk).reverse :: chunksFrom (c :: before) [] .word rest
      else if isBlank c || isDashAt before (c :: rest) then fresh ()
      else chunksFrom (c :: before) (c :: chunk) .word rest

def chunks (cs : List Char) : List (List Char) :=
  (chunksFrom [] [] .word cs).filter (!·.isEmpty)

/-- The chunks that fit into the rest of a line, and the other ones. -/
def fitting (space : Nat) : List (List Char) → List (List Char) × List (List Char)
  | [] => ([], [])
  | chunk :: rest =>
    if chunk.length ≤ space then
      let (line, rest) := fitting (space - chunk.length) rest
      (chunk :: line, rest)
    else ([], chunk :: rest)

/-- Where a chunk that is wider than the space is cut: after its last hyphen within the space that
has something else before it, or else at the end of the space. -/
def cutAt (space : Nat) (chunk : List Char) : Nat :=
  let front := chunk.take space
  let upToHyphen := (front.reverse.dropWhile (· ≠ '-')).length
  if 1 < upToHyphen && (front.take (upToHyphen - 1)).any (· ≠ '-') then upToHyphen else space

/-- White space at the start of a line, except the first one, and at its end is dropped. -/
def dropSpaceAtEnd (line : List (List Char)) : List (List Char) :=
  if (line.getLast?.any (·.all isSpace)) then line.dropLast else line

/-- The lines that some chunks make; each round takes in a chunk or cuts one. -/
def linesOf (width : Nat) : Nat → Bool → List (List Char) → List (List Char)
  | 0, _, _ => []
  | _, _, [] => []
  | fuel + 1, isFirst, chunk :: rest =>
    let todo := if !isFirst && chunk.all isSpace then rest else chunk :: rest
    let (line, todo) := fitting width todo
    let (line, todo) := match todo with
      | wide :: rest =>
        if width < wide.length then
          let cut := cutAt (width - (line.map List.length).sum) wide
          (line ++ [wide.take cut], wide.drop cut :: rest)
        else (line, todo)
      | [] => (line, todo)
    let line := dropSpaceAtEnd line
    if line.isEmpty then linesOf width fuel isFirst todo
    else line.flatten :: linesOf width fuel false todo

def squeeze : List Char → List Char
  | [] => []
  | c :: rest =>
    if isBlank c then ' ' :: squeeze (rest.dropWhile isBlank) else c :: squeeze rest
termination_by cs => cs.length
decreasing_by
  · exact Nat.lt_succ_of_le (List.dropWhile_sublist _).length_le
  · exact Nat.lt_succ_self _

def trim (cs : List Char) : List Char :=
  ((cs.dropWhile isSpace).reverse.dropWhile isSpace).reverse

def wrap (width : Nat) (s : String) : List String :=
  let cs := trim (squeeze s.toList)
  (linesOf width (2 * cs.length + 1) true (chunks cs)).map String.ofList

end TreeRemoval.Text
