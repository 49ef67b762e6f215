import TreeRemoval.Decimal.Reader
import TreeRemoval.Decimal.Rounded
import TreeRemoval.Log.Value

/-! # Message templates

A message with arguments is a template. A percent sign in it starts a directive, which is filled
with the next argument, or stands for itself before another one. All arguments have to be used; but
a single dictionary that is not empty is a table, in which directives look keys up. Limits of memory
are left out.
-/

namespace TreeRemoval.Log

inductive TemplateError where
  | tooManyArguments
  | tooFewArguments
  | incomplete
  | incompleteKey
  | notATable
  | missingKey (key : String)
  | widthTooBig
  | precisionTooBig
  | precisionTooLarge
  | amountNotInt
  | amountTooLarge (typeName : String)
  | notANumber (conversion : Char) (typeName : String)
  | notAnInteger (conversion : Char) (typeName : String)
  | notReal (typeName : String)
  | notFinite (nan : Bool)
  | tooLargeForFloat
  | notACharacter
  | characterOutOfRange
  /-- Half of a surrogate pair, which is no character of a text here. -/
  | halfCharacter (code : Nat)
  | unknownConversion (c : Char) (index : Nat)
  | text (e : Value.TextError)
  deriving DecidableEq, Repr

namespace TemplateError

def className : TemplateError → String
  | incomplete | incompleteKey | widthTooBig | precisionTooBig | notFinite true
  | unknownConversion .. => "ValueError"
  | precisionTooLarge | amountTooLarge _ | notFinite false | tooLargeForFloat
  | characterOutOfRange => "OverflowError"
  | missingKey _ => "KeyError"
  | halfCharacter _ => "UnicodeError"
  | text e => e.className
  | _ => "TypeError"

def message : TemplateError → String
  | tooManyArguments => "not all arguments converted during string formatting"
  | tooFewArguments => "not enough arguments for format string"
  | incomplete => "incomplete format"
  | incompleteKey => "incomplete format key"
  | notATable => "format requires a mapping"
  | missingKey key => Text.quote key
  | widthTooBig => "width too big"
  | precisionTooBig => "precision too big"
  | precisionTooLarge => "precision too large"
  | amountNotInt => "* wants int"
  | amountTooLarge typeName => "Python int too large to convert to " ++ typeName
  | notANumber conversion typeName =>
    "%" ++ conversion.toString ++ " format: a real number is required, not " ++ typeName
  | notAnInteger conversion typeName =>
    "%" ++ conversion.toString ++ " format: an integer is required, not " ++ typeName
  | notReal typeName => "must be real number, not " ++ typeName
  | notFinite nan =>
    "cannot convert float " ++ (if nan then "NaN" else "infinity") ++ " to integer"
  | tooLargeForFloat => "int too large to convert to float"
  | notACharacter => "%c requires int or char"
  | characterOutOfRange => "%c arg not in range(0x110000)"
  | halfCharacter code => "surrogate " ++ String.ofList (Text.numericEscape code)
  | unknownConversion c index =>
    "unsupported format character \x27" ++
      (if 31 ≤ c.toNat ∧ c.toNat < 127 then c.toString else "?") ++ "\x27 (0x" ++
      String.ofList (Nat.toDigits 16 c.toNat) ++ ") at index " ++ toString index
  | text e => e.message

end TemplateError

/-! ### Directives -/

/-- A width or a precision: left out, written in digits, or taken from the next argument. -/
inductive Amount where
  | none
  | digits (n : Nat)
  | next
  deriving DecidableEq, Repr

/-- The key in parentheses at the front of a directive. -/
inductive Key where
  | none
  | named (name : String)
  | unclosed
  deriving DecidableEq, Repr

structure Directive where
  key : Key
  flags : List Char
  width : Amount
  precision : Amount
  /-- The conversion; there is none if the template ends before it. -/
  conversion : Option Char
  /-- How many characters the directive has after its percent sign. -/
  size : Nat
  deriving DecidableEq, Repr

/-- A key up to the parenthesis that closes it; parentheses in it are paired. -/
def Key.close (depth : Nat) (seen : List Char) : List Char → Key × List Char
  | [] => (.unclosed, [])
  | c :: rest =>
    if c = '(' then close (depth + 1) (seen ++ [c]) rest
    else if c = ')' then
      match depth with
      | 0 => (.named (String.ofList seen), rest)
      | depth + 1 => close depth (seen ++ [c]) rest
    else close depth (seen ++ [c]) rest

def Key.read : List Char → Key × List Char
  | '(' :: rest => close 0 [] rest
  | cs => (.none, cs)

def Amount.read : List Char → Amount × List Char
  | '*' :: rest => (.next, rest)
  | cs =>
    match Decimal.spanDigits cs with
    | ([], _) => (.none, cs)
    | (ds, rest) => (.digits (Decimal.ofDigits ds), rest)

/-- A precision follows a point, after which zero may be left out. -/
def Amount.readPrecision : List Char → Amount × List Char
  | '.' :: rest =>
    match Amount.read rest with
    | (.none, rest) => (.digits 0, rest)
    | found => found
  | cs => (.none, cs)

def Directive.read (cs : List Char) : Directive :=
  let (key, rest) := Key.read cs
  let (flags, rest) := rest.span fun c => c ∈ ['-', '+', ' ', '#', '0']
  let (width, rest) := Amount.read rest
  let (precision, rest) := Amount.readPrecision rest
  -- A letter for the length of a number has no effect.
  let rest := match rest with
    | 'h' :: rest | 'l' :: rest | 'L' :: rest => rest
    | rest => rest
  { key, flags, width, precision, conversion := rest.head?, size := cs.length - rest.length + 1 }

/-! ### Conversions -/

/-- The form in which a value is written, with nothing left to be taken from the arguments. -/
structure Layout where
  leftAligned : Bool
  zeroFilled : Bool
  alternate : Bool
  /-- What stands before a number that is not negative. -/
  sign : List Char
  width : Nat
  precision : Option Nat
  deriving DecidableEq, Repr

namespace Layout

variable (l : Layout)

def padded (cs : List Char) : List Char :=
  let gap := List.replicate (l.width - cs.length) ' '
  if l.leftAligned then cs ++ gap else gap ++ cs

def text (t : Except Value.TextError String) : Except TemplateError (List Char) :=
  match t with
  | .ok t =>
    match l.precision with
    | some precision => .ok (l.padded (t.toList.take precision))
    | none => .ok (l.padded t.toList)
  | .error e => .error (.text e)

/-- A number: its sign, the mark of its base, and its digits. Zeros that fill the width stand before
the digits. -/
def number (negative : Bool) (mark digits : List Char) : List Char :=
  let front := (if negative then ['-'] else l.sign) ++ mark
  if l.zeroFilled && !l.leftAligned then
    front ++ List.replicate (l.width - front.length - digits.length) '0' ++ digits
  else l.padded (front ++ digits)

def integer (base : Nat) (mark : List Char) (n : Int) : List Char :=
  let digits := Nat.toDigits base n.natAbs
  l.number (n < 0) mark (Decimal.zeros (l.precision.getD 0 - digits.length) ++ digits)

def checkPrecision : Except TemplateError Unit :=
  if 2147483644 < l.precision.getD 0 then .error .precisionTooLarge else .ok ()

def decimal (conversion : Char) (v : Value) : Except TemplateError (List Char) := do
  let n ← match v.number? with
    | some (.inl n) => pure n
    | some (.inr x) =>
      match Decimal.truncate? x with
      | some n => pure n
      | none => throw (.notFinite x.isNaN)
    | none => throw (.notANumber conversion v.typeName)
  l.checkPrecision
  if IsShort n then return l.integer 10 [] n else throw (.text .tooLong)

def based (conversion : Char) (v : Value) : Except TemplateError (List Char) := do
  let some n := v.whole? | throw (.notAnInteger conversion v.typeName)
  l.checkPrecision
  let base := if conversion = 'o' then 8 else 16
  let cs := l.integer base (if l.alternate then ['0', conversion.toLower] else []) n
  return if conversion = 'X' then cs.map Char.toUpper else cs

def real (style : Decimal.Style) (capital : Bool) (v : Value) :
    Except TemplateError (List Char) := do
  let parts ← match v.number? with
    | some (.inl n) =>
      match Decimal.Parts.ofInt? n with
      | some parts => pure parts
      | none => throw .tooLargeForFloat
    | some (.inr x) => pure (Decimal.parts x)
    | none => throw (.notReal v.typeName)
  let cs := l.number parts.isNegative [] (style.text l.alternate (l.precision.getD 6) parts)
  return if capital then cs.map Char.toUpper else cs

def character (v : Value) : Except TemplateError (List Char) :=
  match v with
  | .text s =>
    match s.toList with
    | [c] => .ok (l.padded [c])
    | _ => .error .notACharacter
  | v =>
    match v.whole? with
    | some n =>
      if n < 0 ∨ 0x110000 ≤ n then .error .characterOutOfRange
      else if n.toNat.isValidChar then .ok (l.padded [Char.ofNat n.toNat])
      else .error (.halfCharacter n.toNat)
    | none => .error .notACharacter

/-- A value written by a conversion, which stands at some index of the template. -/
def convert (conversion : Char) (index : Nat) (v : Value) : Except TemplateError (List Char) :=
  match conversion with
  | 's' => l.text v.toText
  | 'r' => l.text v.shown
  | 'a' => l.text (v.shown.map Text.escapeToAscii)
  | 'd' | 'i' | 'u' => l.decimal conversion v
  | 'o' | 'x' | 'X' => l.based conversion v
  | 'e' | 'E' => l.real .exponential (conversion = 'E') v
  | 'f' | 'F' => l.real .fixed (conversion = 'F') v
  | 'g' | 'G' => l.real .general (conversion = 'G') v
  | 'c' => l.character v
  | _ => .error (.unknownConversion conversion index)

end Layout

/-! ### Filling -/

/-- What directives take values from: a table, if there is one, and the arguments to come. -/
structure Arguments where
  table : Option (List (Value × Value))
  pending : List Value

def Arguments.of : List Value → Arguments
  | [.dictionary (pair :: pairs)] =>
    ⟨some (pair :: pairs), [.dictionary (pair :: pairs)]⟩
  | args => ⟨none, args⟩

abbrev Filling := StateT Arguments (Except TemplateError)

def nextArgument : Filling Value := do
  match (← get).pending with
  | [] => throw .tooFewArguments
  | v :: rest =>
    modify fun args => { args with pending := rest }
    return v

/-- The value of a key takes the place of all arguments. -/
def Key.choose : Key → Filling Unit
  | none => return ()
  | named name => do
    let some pairs := (← get).table | throw .notATable
    match pairs.find? fun (key, _) => key.sameKey (.text name) with
    | some (_, v) => modify fun args => { args with pending := [v] }
    | .none => throw (.missingKey name)
  | unclosed => do
    if (← get).table.isSome then throw .incompleteKey else throw .notATable

/-- A width, and whether it was given as a negative number, which aligns to the left. -/
def Amount.width : Amount → Filling (Nat × Bool)
  | none => return (0, false)
  | digits n => if 0x7FFFFFFFFFFFFFFF < n then throw .widthTooBig else return (n, false)
  | next => do
    let some n := (← nextArgument).whole? | throw .amountNotInt
    if n < -0x8000000000000000 ∨ 0x7FFFFFFFFFFFFFFF < n then throw (.amountTooLarge "C ssize_t")
    -- The least number has no negative in its type; it stands for no width.
    if n < 0 then return ((-n).toNat % 0x8000000000000000, true) else return (n.toNat, false)

def Amount.precision : Amount → Filling (Option Nat)
  | none => return .none
  | digits n => if 0x7FFFFFFF < n then throw .precisionTooBig else return some n
  | next => do
    let some n := (← nextArgument).whole? | throw .amountNotInt
    if n < -0x80000000 ∨ 0x7FFFFFFF < n then throw (.amountTooLarge "C int")
    return some n.toNat

def Directive.fill (d : Directive) (index : Nat) : Filling (List Char) := do
  d.key.choose
  let (width, turned) ← d.width.width
  let precision ← d.precision.precision
  let some conversion := d.conversion | throw .incomplete
  let layout : Layout :=
    { leftAligned := turned || d.flags.contains '-'
      zeroFilled := d.flags.contains '0'
      alternate := d.flags.contains '#'
      sign :=
        if d.flags.contains '+' then ['+'] else if d.flags.contains ' ' then [' '] else []
      width
      precision }
  layout.convert conversion (index + d.size) (← nextArgument)

/-- The rest of a template, filled. The first characters of it are passed over, as a directive has
read them already; `index` counts the characters before it. -/
def fill : Nat → Nat → List Char → Filling (List Char)
  | _, _, [] => do
    let args ← get
    if args.table.isNone && !args.pending.isEmpty then throw .tooManyArguments else return []
  | passed + 1, index, _ :: rest => fill passed (index + 1) rest
  | 0, index, c :: rest => do
    if c ≠ '%' then return c :: (← fill 0 (index + 1) rest)
    else if rest.head? = some '%' then return '%' :: (← fill 1 (index + 1) rest)
    else
      let directive := Directive.read rest
      let text ← directive.fill index
      return text ++ (← fill directive.size (index + 1) rest)

/-- The message of a template. Without arguments it is the template itself. -/
def formatMessage (template : String) (args : List Value) : Except TemplateError String :=
  if args.isEmpty then .ok template
  else ((fill 0 0 template.toList).run' (.of args)).map String.ofList

end TreeRemoval.Log
