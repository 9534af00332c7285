import Monary.Cmonary.Columns

/-!
# Values of the Python side

* `PyExn` : exceptions, with the text of the source as a template and its arguments;
* `PyValue` : the dictionaries and lists that queries and pipelines are;
* `encodeAscii` : `str.encode('ascii')`; `pyInt` : `int(...)` of a string.

Python 3, where `bytes_type` is `bytes`.
-/

namespace Monary
open CInt

inductive ExnKind where
  | valueError | typeError | runtimeError | attributeError | keyError | unicodeEncodeError
  | unboundLocalError | generatorExit | other
  deriving DecidableEq, Repr

inductive PyArg where
  | str (s : String)
  | int (n : Int)
  deriving DecidableEq, Repr

/-- An exception; `message` is the template that `%` fills in with `args`. -/
structure PyExn where
  kind : ExnKind
  message : String
  args : List PyArg
  deriving DecidableEq, Repr

inductive PyValue where
  | none
  | bool (b : Bool)
  | int (n : Int)
  | str (s : String)
  | bytes (b : Bytes)
  | list (xs : List PyValue)
  | tuple (xs : List PyValue)
  | dict (xs : List (String × PyValue))
  | other (n : Nat)

/-- `s.encode('ascii')`. -/
def encodeAscii (s : String) : Except PyExn Bytes :=
  if s.toList.all (·.toNat < 128) then .ok (s.toList.map fun c => UInt8.ofNat c.toNat)
  else .error ⟨.unicodeEncodeError, "'ascii' codec can't encode %r: ordinal not in range(128)", [.str s]⟩

/-- What depends on the Unicode version of the interpreter: the decimal digits beyond ASCII. -/
class PyImpl where
  decimal : Char → Option Nat

/-- No character beyond ASCII is a digit. -/
@[reducible] def PyImpl.ascii : PyImpl := ⟨fun _ => none⟩

/-- `str.isspace` of a character. -/
def isSpace (c : Char) : Bool :=
  (0x09 ≤ c.toNat && c.toNat ≤ 0x0D) || (0x1C ≤ c.toNat && c.toNat ≤ 0x20) ||
    (0x2000 ≤ c.toNat && c.toNat ≤ 0x200A) ||
    [0x85, 0xA0, 0x1680, 0x2028, 0x2029, 0x202F, 0x205F, 0x3000].contains c.toNat

section Int
variable [PyImpl]

def decimalValue (c : Char) : Option Nat :=
  if '0' ≤ c ∧ c ≤ '9' then some (c.toNat - '0'.toNat) else PyImpl.decimal c

/-- The digits behind the first, an underscore being allowed between two. -/
def moreDigits (n : Nat) : List Char → Option Nat
  | [] => some n
  | '_' :: c :: cs => do moreDigits (10 * n + (← decimalValue c)) cs
  | c :: cs => do moreDigits (10 * n + (← decimalValue c)) cs

def digits : List Char → Option Nat
  | [] => none
  | c :: cs => do moreDigits (← decimalValue c) cs

/-- `int(s)` for a string, `none` being its `ValueError`. -/
def pyInt (s : List Char) : Option Int :=
  let s := ((s.dropWhile isSpace).reverse.dropWhile isSpace).reverse
  match s with
  | '+' :: cs => (digits cs).map fun n => (n : Int)
  | '-' :: cs => (digits cs).map fun n => -(n : Int)
  | cs => (digits cs).map fun n => (n : Int)

end Int

/-- The integers `int` reads in plain decimal notation. -/
example [PyImpl] : pyInt " -1_024 ".toList = some (-1024) := by rfl

end Monary
