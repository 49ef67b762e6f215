import TreeRemoval.Text.Printable

/-! # Escapes and quoted text

Numbers in a fixed count of lower-case hexadecimal digits, and text between quotation marks on one
line: the mark, backslashes and characters that do not print are written as escapes.
-/

namespace TreeRemoval.Text

def hexDigit (n : Nat) : Char := if n < 10 then Char.ofNat (48 + n) else Char.ofNat (87 + n)

def hexValue? (c : Char) : Option Nat :=
  let n := c.toNat
  if 48 ≤ n ∧ n ≤ 57 then some (n - 48)
  else if 97 ≤ n ∧ n ≤ 102 then some (n - 87)
  else if 65 ≤ n ∧ n ≤ 70 then some (n - 55)
  else none

theorem hexValue?_hexDigit {n : Nat} (h : n < 16) : hexValue? (hexDigit n) = some n := by
  have : ∀ m : Fin 16, hexValue? (hexDigit m) = some m.val := by decide
  exact this ⟨n, h⟩

/-- The last `width` hexadecimal digits of a number. -/
def hex : Nat → Nat → List Char
  | 0, _ => []
  | width + 1, n => hex width (n / 16) ++ [hexDigit (n % 16)]

def ofHex? (digits : List Char) : Option Nat :=
  digits.foldl (fun acc c => do return 16 * (← acc) + (← hexValue? c)) (some 0)

theorem ofHex?_hex (width n : Nat) : ofHex? (hex width n) = some (n % Nat.pow 16 width) := by
  induction width generalizing n with
  | zero => simp [hex, ofHex?, Nat.mod_one]
  | succ width ih =>
    have h : (hex width (n / 16)).foldl (fun acc c => do return 16 * (← acc) + (← hexValue? c))
        (some 0) = some (n / 16 % Nat.pow 16 width) := ih (n / 16)
    have d : hexValue? (hexDigit (n % 16)) = some (n % 16) :=
      hexValue?_hexDigit (Nat.mod_lt _ (by decide))
    simp only [ofHex?, hex, List.foldl_append, h, List.foldl_cons, List.foldl_nil, d]
    simp only [Option.pure_def, Option.bind_eq_bind, Option.bind_some, Option.some.injEq]
    have p : Nat.pow 16 (width + 1) = 16 * Nat.pow 16 width := Nat.mul_comm _ _
    rw [p, Nat.mod_mul]
    omega

/-- The mark around a text: the single one, unless the text holds it and no double one. -/
def quotationMark (cs : List Char) : Char :=
  if cs.contains '\x27' && !cs.contains '\x22' then '\x22' else '\x27'

def numericEscape (code : Nat) : List Char :=
  if code < 0x100 then '\\' :: 'x' :: hex 2 code
  else if code < 0x10000 then '\\' :: 'u' :: hex 4 code
  else '\\' :: 'U' :: hex 8 code

/-- One character inside the given mark; `plain` tells which characters need no escape. -/
def quoteChar (mark : Char) (plain : Char → Bool) (c : Char) : List Char :=
  if c = '\\' || c = mark then ['\\', c]
  else if c = '\n' then ['\\', 'n']
  else if c = '\r' then ['\\', 'r']
  else if c = '\t' then ['\\', 't']
  else if plain c then [c]
  else numericEscape c.toNat

def quoteChars (plain : Char → Bool) (cs : List Char) : List Char :=
  let mark := quotationMark cs
  mark :: cs.flatMap (quoteChar mark plain) ++ [mark]

def quote (s : String) : String := String.ofList (quoteChars isPrintable s.toList)

/-- Bytes as they are shown in messages, each as the character of its number. -/
def quoteBytes (bytes : List UInt8) : String :=
  String.ofList ('b' :: quoteChars (fun c => isPrintable c && c.toNat < 127)
    (bytes.map fun b => Char.ofNat b.toNat))

def escapeToAscii (s : String) : String :=
  String.ofList (s.toList.flatMap fun c => if c.toNat < 128 then [c] else numericEscape c.toNat)

def quoteList (texts : List String) : String :=
  "[" ++ ", ".intercalate (texts.map quote) ++ "]"

end TreeRemoval.Text
