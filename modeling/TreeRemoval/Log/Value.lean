import TreeRemoval.Decimal.Shortest
import TreeRemoval.Errno
import TreeRemoval.Json.Basic
import TreeRemoval.Path.Basic
import TreeRemoval.Text.Quoted

/-! # Values in log records

The values that a record's fields and arguments may have. A value has a plain text, a shown form
that tells texts from numbers, and a JSON form. Each of them may be missing, as for a value that
holds a very long whole number.
-/

namespace TreeRemoval.Log

/-- How many decimal digits a whole number may be written with. -/
def digitLimit : Nat := 4300

def IsShort (n : Int) : Prop := n.natAbs < Nat.pow 10 digitLimit

instance (n : Int) : Decidable (IsShort n) := inferInstanceAs (Decidable (_ < _))

inductive ErrorKind
  | system (errorClass : ErrorClass)
  | value | runtime | key | undeletable | cancelled
  deriving DecidableEq, Repr

namespace ErrorKind

def name : ErrorKind → String
  | system errorClass => errorClass.name
  | value => "ValueError"
  | runtime => "RuntimeError"
  | key => "KeyError"
  | undeletable => "IOFailure"
  | cancelled => "CancelledError"

/-- The name with the module of its definition, which the built-in classes do without. -/
def qualifiedName : ErrorKind → String
  | undeletable => "treepurge.report.IOFailure"
  | cancelled => "asyncio.exceptions.CancelledError"
  | kind => kind.name

def ofName? : String → Option ErrorKind
  | "ValueError" => some value
  | "RuntimeError" => some runtime
  | "KeyError" => some key
  | "IOFailure" => some undeletable
  | "CancelledError" => some cancelled
  | name => (ErrorClass.ofName? name).map system

end ErrorKind

inductive Value where
  | null
  | bool (b : Bool)
  | int (n : Int)
  | float (x : Float)
  | text (s : String)
  | list (items : List Value)
  | tuple (items : List Value)
  | dictionary (pairs : List (Value × Value))
  | path (p : Path)
  | bytes (content : List UInt8)
  | error (kind : ErrorKind) (args : List Value)

namespace Value

def typeName : Value → String
  | null => "NoneType"
  | bool _ => "bool"
  | int _ => "int"
  | float _ => "float"
  | text _ => "str"
  | list _ => "list"
  | tuple _ => "tuple"
  | dictionary _ => "dict"
  | path _ => "PosixPath"
  | bytes _ => "bytes"
  | error kind _ => kind.name

/-- Whether a value counts as nothing: no value, false, zero, or empty. -/
def isBlank : Value → Bool
  | null => true
  | bool b => !b
  | int n => n == 0
  | float x => x == 0
  | text s => s.isEmpty
  | list items | tuple items => items.isEmpty
  | dictionary pairs => pairs.isEmpty
  | bytes content => content.isEmpty
  | path _ | error .. => false

def isNull : Value → Bool
  | null => true
  | _ => false

/-- The whole number that a value counts as; truth values count as one and zero. -/
def whole? : Value → Option Int
  | bool b => some (if b then 1 else 0)
  | int n => some n
  | _ => none

def number? : Value → Option (Int ⊕ Float)
  | float x => some (.inr x)
  | v => v.whole?.map .inl

def floatWords : Decimal.Words := ⟨"nan", "inf"⟩

/-- Why a value has no text: it holds a whole number that is too long to be written in decimal, or
it is an error with a message that is no text. -/
inductive TextError where
  | tooLong
  | notText (typeName : String)
  deriving DecidableEq, Repr

namespace TextError

def className : TextError → String
  | tooLong => "ValueError"
  | notText _ => "TypeError"

def message : TextError → String
  | tooLong =>
    s!"Exceeds the limit ({digitLimit} digits) for integer string conversion; " ++
      "use sys.set_int_max_str_digits() to increase the limit"
  | notText typeName => "__str__ returned non-string (type " ++ typeName ++ ")"

end TextError

def decimalText (n : Int) : Except TextError String :=
  if IsShort n then .ok (toString n) else .error .tooLong

def tupleText (shown : List String) : String :=
  match shown with
  | [item] => "(" ++ item ++ ",)"
  | items => "(" ++ ", ".intercalate items ++ ")"

/-- Whether a system error with these arguments is about a file, which it has third of up to five.
For a call that would block, a number in its place counts what has been written. -/
def namesFile (c : ErrorClass) : List Value → Bool
  | _ :: _ :: file :: more =>
    !file.isNull && more.length ≤ 2 && !(c = .wouldBlock && file.number?.isSome)
  | _ => false

/-- What goes with the arguments that an error keeps. A system error sets its files apart, and a
failed removal keeps its message alone. -/
def kept {α : Type} (kind : ErrorKind) (args : List Value) (items : List α) : List α :=
  match kind with
  | .system c => if namesFile c args then items.take 2 else items
  | .undeletable => items.take 1
  | _ => items

/-- The end of a system error's message, which shows the files that it is about. -/
def filesText (c : ErrorClass) (args : List Value) (shown : List (Except TextError String)) :
    Except TextError String :=
  if namesFile c args then
    match args, shown with
    | [_, _, _, _, second], [_, _, file, _, other] =>
      if second.isNull then return ": " ++ (← file)
      else return ": " ++ (← file) ++ " -> " ++ (← other)
    | _, _ :: _ :: file :: _ => return ": " ++ (← file)
    | _, _ => return ""
  else return ""

def plainMessage (texts shown : List (Except TextError String)) : Except TextError String :=
  match texts, shown with
  | [], _ => .ok ""
  | [item], _ => item
  | _, shown => tupleText <$> shown.mapM id

/-- An error's message from its arguments, given their texts and their shown forms. A system error
has a number and a reason if there are two arguments up to five. -/
def errorMessage (kind : ErrorKind) (args : List Value)
    (texts shown : List (Except TextError String)) : Except TextError String :=
  match kind, args, texts with
  | .undeletable, text s :: _, _ => .ok s
  | .undeletable, v :: _, _ => .error (.notText v.typeName)
  | .key, [_], _ => plainMessage shown shown
  | .system c, _ :: _ :: more, number :: reason :: _ =>
    if more.length ≤ 3 then do
      return "[Errno " ++ (← number) ++ "] " ++ (← reason) ++ (← filesText c args shown)
    else plainMessage texts shown
  | _, _, _ => plainMessage texts shown

mutual

def shown : Value → Except TextError String
  | null => .ok "None"
  | bool b => .ok (if b then "True" else "False")
  | int n => decimalText n
  | float x => .ok (Decimal.text floatWords x)
  | text s => .ok (Text.quote s)
  | list items => return "[" ++ ", ".intercalate (← (shownEach items).mapM id) ++ "]"
  | tuple items => return tupleText (← (shownEach items).mapM id)
  | dictionary pairs => return "\x7b" ++ ", ".intercalate (← (shownPairs pairs).mapM id) ++ "\x7d"
  | path p => .ok ("PosixPath(" ++ Text.quote p.text ++ ")")
  | bytes content => .ok (Text.quoteBytes content)
  | error kind args =>
    return kind.name ++ "(" ++ ", ".intercalate (← (kept kind args (shownEach args)).mapM id) ++ ")"

def shownEach : List Value → List (Except TextError String)
  | [] => []
  | item :: rest => item.shown :: shownEach rest

def shownPairs : List (Value × Value) → List (Except TextError String)
  | [] => []
  | (key, value) :: rest =>
    (return (← key.shown) ++ ": " ++ (← value.shown)) :: shownPairs rest

end

mutual

def toText : Value → Except TextError String
  | text s => .ok s
  | path p => .ok p.text
  | error kind args => errorMessage kind args (textEach args) (shownEach args)
  | v => v.shown

def textEach : List Value → List (Except TextError String)
  | [] => []
  | item :: rest => item.toText :: textEach rest

end

/-- The error of a class with some arguments. A general system error with a number is of the class
of its number. -/
def errorOf (kind : ErrorKind) (args : List Value) : Value :=
  match kind, args with
  | .system .general, number :: _ :: more =>
    match number.whole?.bind fun n => Errno.all.find? fun e => (e.number : Int) = n with
    | some e => if more.length ≤ 3 then error (.system e.errorClass) args else error kind args
    | none => error kind args
  | _, _ => error kind args

/-- Why a value has no JSON form: something in it has no text, or a key is of a type that is no key
in JSON. -/
inductive JsonError where
  | text (e : TextError)
  | badKey (typeName : String)
  deriving DecidableEq, Repr

namespace JsonError

def className : JsonError → String
  | text e => e.className
  | badKey _ => "TypeError"

def message : JsonError → String
  | text e => e.message
  | badKey typeName => "keys must be str, int, float, bool or None, not " ++ typeName

end JsonError

def keyText : Value → Except JsonError String
  | null => .ok "null"
  | bool b => .ok (if b then "true" else "false")
  | int n => (decimalText n).mapError .text
  | float x => .ok (Json.renderFloat x)
  | text s => .ok s
  | v => .error (.badKey v.typeName)

mutual

/-- The JSON form, in which a tuple is an array and a value that JSON lacks is its plain text. A
whole number has one if it has a decimal text. -/
def toJson : Value → Except JsonError Json
  | null => .ok .null
  | bool b => .ok (.bool b)
  | int n => if IsShort n then .ok (.int n) else .error (.text .tooLong)
  | float x => .ok (.float x)
  | text s => .ok (.string s)
  | list items | tuple items => return .array (← toJsonEach items)
  | dictionary pairs => return .object (← toJsonPairs pairs)
  | v => (v.toText.map .string).mapError .text

def toJsonEach : List Value → Except JsonError (List Json)
  | [] => .ok []
  | item :: rest => do
    let item ← item.toJson
    return item :: (← toJsonEach rest)

def toJsonPairs : List (Value × Value) → Except JsonError (List (String × Json))
  | [] => .ok []
  | (key, value) :: rest => do
    let key ← keyText key
    let value ← value.toJson
    return (key, value) :: (← toJsonPairs rest)

end

def sameNumber : Int ⊕ Float → Int ⊕ Float → Bool
  | .inl a, .inl b => a == b
  | .inr x, .inr y => x == y
  | .inl a, .inr x | .inr x, .inl a =>
    Decimal.truncate? x == some a && Decimal.isWhole x

mutual

/-- Whether two values are one key of a dictionary. -/
def sameKey : Value → Value → Bool
  | null, null => true
  | text s, text t => s == t
  | path p, path q => p == q
  | bytes a, bytes b => a == b
  | tuple a, tuple b => sameKeys a b
  | v, w =>
    match v.number?, w.number? with
    | some a, some b => sameNumber a b
    | _, _ => false

def sameKeys : List Value → List Value → Bool
  | [], [] => true
  | a :: as, b :: bs => sameKey a b && sameKeys as bs
  | _, _ => false

end

/-- The pairs of a dictionary after one more assignment: a key that is there keeps its place. -/
def assign (pairs : List (Value × Value)) (key value : Value) : List (Value × Value) :=
  if pairs.any fun (k, _) => k.sameKey key then
    pairs.map fun (k, v) => if k.sameKey key then (k, value) else (k, v)
  else pairs ++ [(key, value)]

def dictionaryOf (pairs : List (Value × Value)) : Value :=
  dictionary (pairs.foldl (fun acc (key, value) => assign acc key value) [])

end Value

end TreeRemoval.Log
