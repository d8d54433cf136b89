import Mathlib.Algebra.Group.Int.Defs
import Mathlib.Algebra.Group.Nat.Defs
import SuperNova.Lib.Text

/-!
# 64-bit integers and their texts

The saturating arithmetic and the parser of Rust, and the integers of SQLite: a text is cast by its
longest numeric prefix, and arithmetic that leaves the 64-bit range goes on in doubles.
-/

namespace Int64

def minI64 : Int := -(2 ^ 63)
def maxI64 : Int := 2 ^ 63 - 1

def inRange (n : Int) : Bool := minI64 ≤ n && n ≤ maxI64

/-- the nearest 64-bit integer -/
def saturate (n : Int) : Int := max minI64 (min n maxI64)

def saturatingMul (a b : Int) : Int := saturate (a * b)
def saturatingAdd (a b : Int) : Int := saturate (a + b)

/-- `Ord::clamp` -/
def clamp (n lo hi : Int) : Int := max lo (min n hi)

/-! ## texts -/

def digitVal (c : Char) : Int := (c.toNat : Int) - 48

/-- the value of a list of digits -/
def ofDigits (l : List Char) : Int := l.foldl (fun n c => n * 10 + digitVal c) 0

def splitSign : List Char → Bool × List Char
  | '-' :: l => (true, l)
  | '+' :: l => (false, l)
  | l => (false, l)

def signed (negative : Bool) (n : Int) : Int := if negative then -n else n

/-- `str::parse::<i64>` -/
def parse? (s : String) : Option Int :=
  let (negative, digits) := splitSign s.toList
  let n := signed negative (ofDigits digits)
  if digits ≠ [] ∧ digits.all Char.isDigit ∧ inRange n then some n else none

/-- the white space that SQLite skips before a number -/
def isSqlSpace (c : Char) : Bool := c.toNat == 32 || (9 ≤ c.toNat && c.toNat ≤ 13)

/-- `CAST(… AS INTEGER)` of a text -/
def castText (l : List Char) : Int :=
  let (negative, rest) := splitSign (l.dropWhile isSqlSpace)
  saturate (signed negative (ofDigits (rest.takeWhile Char.isDigit)))

/-! ## SQLite's arithmetic -/

/-- a natural number, rounded to `2 ^ 53` (half to even) -/
def roundNat (n : Nat) : Nat :=
  let e := n.log2 - 52
  let q := n / 2 ^ e
  let r := n % 2 ^ e
  if 2 * r < 2 ^ e then q * 2 ^ e
  else if 2 ^ e < 2 * r then (q + 1) * 2 ^ e
  else (q + q % 2) * 2 ^ e

/-- the nearest double of an integer -/
def toDouble (n : Int) : Int := n.sign * (roundNat n.natAbs : Int)

/-- INTEGER, or a REAL that is a whole number -/
inductive SqlNum where
  | int (n : Int)
  | real (n : Int)

namespace SqlNum

def value : SqlNum → Int
  | int n => n
  | real n => n

/-- an operation on integers, in doubles when an argument or the result is not an INTEGER -/
def arith (op : Int → Int → Int) : SqlNum → SqlNum → SqlNum
  | int a, int b =>
    if inRange (op a b) then int (op a b) else real (toDouble (op (toDouble a) (toDouble b)))
  | a, b => real (toDouble (op (toDouble a.value) (toDouble b.value)))

def add : SqlNum → SqlNum → SqlNum := arith (· + ·)
def mul : SqlNum → SqlNum → SqlNum := arith (· * ·)

/-- `MAX` of two numbers -/
def maximum (a b : SqlNum) : SqlNum := if a.value < b.value then b else a

end SqlNum

end Int64
