import TreeRemoval.Decimal.Shortest
import TreeRemoval.Text.Quoted

/-! # JSON values and their text

Values on one line of printable ASCII: items are parted by a comma and a blank, a name and its
value by a colon and a blank, and every other character of a string is escaped by its UTF-16 units.
-/

namespace TreeRemoval

inductive Json where
  | null
  | bool (b : Bool)
  | int (n : Int)
  | float (x : Float)
  | string (s : String)
  | array (items : List Json)
  | object (fields : List (String × Json))

namespace Json

def units (code : Nat) : List Nat :=
  if code < 0x10000 then [code]
  else [0xD800 + (code - 0x10000) / 0x400, 0xDC00 + (code - 0x10000) % 0x400]

def escapeUnit (unit : Nat) : List Char := '\\' :: 'u' :: Text.hex 4 unit

def escapeChar (c : Char) : List Char :=
  if c = '\x22' then ['\\', '\x22']
  else if c = '\\' then ['\\', '\\']
  else if c = '\n' then ['\\', 'n']
  else if c = '\r' then ['\\', 'r']
  else if c = '\t' then ['\\', 't']
  else if c = '\x0c' then ['\\', 'f']
  else if c = '\x08' then ['\\', 'b']
  else if 32 ≤ c.toNat ∧ c.toNat < 127 then [c]
  else (units c.toNat).flatMap escapeUnit

def renderString (s : String) : String :=
  String.ofList ('\x22' :: s.toList.flatMap escapeChar ++ ['\x22'])

def floatWords : Decimal.Words := ⟨"NaN", "Infinity"⟩

def renderFloat (x : Float) : String := Decimal.text floatWords x

mutual

/-- The text of a value. Whole numbers are written in full: one that is too long for a decimal text
is refused before, where a value is made JSON. -/
def render : Json → String
  | null => "null"
  | bool b => if b then "true" else "false"
  | int n => toString n
  | float x => renderFloat x
  | string s => renderString s
  | array items => "[" ++ ", ".intercalate (renderItems items) ++ "]"
  | object fields => "\x7b" ++ ", ".intercalate (renderFields fields) ++ "\x7d"

def renderItems : List Json → List String
  | [] => []
  | item :: rest => item.render :: renderItems rest

def renderFields : List (String × Json) → List String
  | [] => []
  | (name, value) :: rest => (renderString name ++ ": " ++ value.render) :: renderFields rest

end

end Json

end TreeRemoval
