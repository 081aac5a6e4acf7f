import Mathlib.Algebra.Group.Int.Defs
import Mathlib.Algebra.Group.Nat.Defs
import Mathlib.Data.List.Lex

/-!
# Bytes, strings and number conversions

`std::string` and `std::vector<u_char>` are lists of bytes.  A call that can
throw, or that reads memory it does not own, returns in `Throws`.
-/

/-- `std::string` compares its characters as unsigned bytes. -/
instance UInt8.instLinearOrder : LinearOrder UInt8 where
  le_refl := UInt8.le_refl
  le_trans _ _ _ := UInt8.le_trans
  le_antisymm _ _ := UInt8.le_antisymm
  le_total := UInt8.le_total
  lt_iff_le_not_ge _ _ := by
    simp only [UInt8.lt_iff_toNat_lt, UInt8.le_iff_toNat_le]
    omega
  toDecidableLE := inferInstance
  toDecidableEq := inferInstance
  toDecidableLT := inferInstance

namespace Webserv

abbrev Bytes := List UInt8

/-- The bytes of a string literal of the source. -/
def ascii (s : String) : Bytes := s.toUTF8.data.toList

namespace Byte

def nul : UInt8 := 0
def tab : UInt8 := 9
def lf : UInt8 := 10
def cr : UInt8 := 13
def space : UInt8 := 32
def hash : UInt8 := 35
def plus : UInt8 := 43
def minus : UInt8 := 45
def dot : UInt8 := 46
def zero : UInt8 := 48
def colon : UInt8 := 58
def semicolon : UInt8 := 59
def equals : UInt8 := 61
def leftBrace : UInt8 := 123
def rightBrace : UInt8 := 125

end Byte

/-- Ways a call can end without returning. -/
inductive Fault where
  /-- `std::out_of_range` -/
  | outOfRange
  /-- `std::bad_optional_access` -/
  | badOptionalAccess
  /-- `std::ios_base::failure` -/
  | iosFailure
  /-- a read outside the object: undefined behaviour -/
  | outOfBounds
deriving DecidableEq, Repr

abbrev Throws := Except Fault

/-! ## Strings -/

/-- `s.find(c, pos)` and `std::find(s.begin() + pos, s.end(), c)`. -/
def find (s : Bytes) (c : UInt8) (pos : Nat) : Option Nat :=
  ((s.drop pos).idxOf? c).map (pos + ·)

/-- `s.substr(pos)` -/
def substrFrom (s : Bytes) (pos : Nat) : Throws Bytes :=
  if s.length < pos then .error .outOfRange else .ok (s.drop pos)

/-- `s.substr(pos, n)` -/
def substr (s : Bytes) (pos n : Nat) : Throws Bytes :=
  if s.length < pos then .error .outOfRange else .ok ((s.drop pos).take n)

/-- What a reader of `s.c_str()` sees: the bytes before the first NUL. -/
def cStr (s : Bytes) : Bytes := s.takeWhile (· ≠ Byte.nul)

/-- `std::string(reinterpret_cast<char*>(v.data()))`: no terminator is added
    to a vector, so the length search runs out of `v` unless `v` holds a NUL. -/
def stringFromData (v : Bytes) : Throws Bytes :=
  if Byte.nul ∈ v then .ok (cStr v) else .error .outOfBounds

/-- The bytes in `[first, last)`. -/
def slice (s : Bytes) (first last : Nat) : Bytes := (s.take last).drop first

/-! ## Numbers -/

/-- Number of values of `size_t` and of `unsigned long`. -/
def sizeLimit : Nat := 2 ^ 64

/-- `std::isspace` in the C locale. -/
def isSpace (c : UInt8) : Bool := c = Byte.space || (Byte.tab ≤ c && c ≤ Byte.cr)

def isDigit (c : UInt8) : Bool := Byte.zero ≤ c && c ≤ 57

def digitsValue (ds : Bytes) : Nat :=
  ds.foldl (fun n d => 10 * n + (d.toNat - 48)) 0

/-- An optional sign: is it a minus, and what follows it. -/
def scanSign : Bytes → Bool × Bytes
  | [] => (false, [])
  | c :: cs =>
    if c = Byte.minus then (true, cs)
    else if c = Byte.plus then (false, cs)
    else (false, c :: cs)

/-- The part `strtol` and `strtoul` share: blanks, a sign, and the longest run
    of digits; `none` if there is no digit. -/
def scanNumber (s : Bytes) : Option (Bool × Nat) :=
  -- blanks stand in front of the sign only
  let (negative, rest) := scanSign (s.dropWhile isSpace)
  let digits := rest.takeWhile isDigit
  if digits = [] then none else some (negative, digitsValue digits)

/-- Exceptions of `std::stoul`. -/
inductive StoulError where
  | invalidArgument
  | outOfRange
deriving DecidableEq, Repr

/-- `std::stoul(s)`: trailing text is ignored and a minus wraps around. -/
def stoul (s : Bytes) : Except StoulError Nat :=
  match scanNumber s with
  | none => .error .invalidArgument
  | some (negative, n) =>
    -- the value without its sign is what overflows
    if sizeLimit ≤ n then .error .outOfRange
    else .ok (if negative then (sizeLimit - n) % sizeLimit else n)

/-- `std::atoi(s.c_str())`: `strtol`, which saturates, converted to `int`. -/
def atoi (s : Bytes) : Int :=
  match scanNumber s with
  | none => 0
  | some (negative, n) =>
    let long : Int := if negative then max (-(2 ^ 63)) (-n) else min (2 ^ 63 - 1) n
    -- the conversion keeps the low 32 bits
    long.bmod (2 ^ 32)

/-- `std::to_string(size_t)` -/
def toDecimal (n : Nat) : Bytes :=
  if n < 10 then [Byte.zero + UInt8.ofNat n]
  else toDecimal (n / 10) ++ [Byte.zero + UInt8.ofNat (n % 10)]

/-- `std::to_string(int)` -/
def toDecimalInt (i : Int) : Bytes :=
  if i < 0 then Byte.minus :: toDecimal i.natAbs else toDecimal i.natAbs

end Webserv
