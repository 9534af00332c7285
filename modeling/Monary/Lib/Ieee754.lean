import Mathlib

/-!
# Binary floating-point formats

* `Format`, `binary32`, `binary64` : width of the exponent and of the fraction;
* `Format.decode` : what a bit pattern denotes (`Value`), a finite value being exactly
  `(-1)^neg * m * 2^e`;
* `Value.trunc` : truncation toward zero;
* `Format.round` : the bit pattern nearest to `(-1)^neg * m * 2^e`, ties to even, overflowing to
  infinity.
-/

namespace Ieee754

structure Format where
  expBits : Nat
  fracBits : Nat
  deriving DecidableEq, Repr

def binary32 : Format := ⟨8, 23⟩
def binary64 : Format := ⟨11, 52⟩

/-- What a bit pattern denotes; `finite neg m e` is `(-1)^neg * m * 2^e`. -/
inductive Value where
  | nan
  | inf (neg : Bool)
  | finite (neg : Bool) (m : Nat) (e : Int)
  deriving DecidableEq, Repr

namespace Format
variable (f : Format)

/-- The exponent of the last fraction bit of a subnormal number. -/
def minExp : Int := 2 - 2 ^ (f.expBits - 1) - f.fracBits

def signWeight : Nat := 2 ^ (f.expBits + f.fracBits)

/-- The bit pattern of positive infinity. -/
def infBits : Nat := (2 ^ f.expBits - 1) * 2 ^ f.fracBits

def decode (bits : Nat) : Value :=
  let frac := bits % 2 ^ f.fracBits
  let exp := bits / 2 ^ f.fracBits % 2 ^ f.expBits
  let neg := bits / f.signWeight % 2 = 1
  if exp = 2 ^ f.expBits - 1 then
    if frac = 0 then .inf neg else .nan
  else if exp = 0 then .finite neg frac f.minExp
  else .finite neg (2 ^ f.fracBits + frac) (f.minExp + (exp - 1 : Nat))

/-- `m / 2^s` to the nearest natural number, ties to even. -/
def shiftRound (m s : Nat) : Nat :=
  let q := m / 2 ^ s
  let r := m % 2 ^ s
  if 2 ^ s < 2 * r ∨ 2 ^ s = 2 * r ∧ q % 2 = 1 then q + 1 else q

/-- The bit pattern nearest to `(-1)^neg * m * 2^e`. The unit of the last place is chosen so that the
quotient has `fracBits + 1` bits, or is the smallest one; the leading bit of the quotient then adds
one to the exponent field by itself, and so does a quotient that rounding carried over. -/
def round (neg : Bool) (m : Nat) (e : Int) : Nat :=
  let ulp := max ((Nat.log2 m : Int) + e - f.fracBits) f.minExp
  let q := if ulp ≤ e then m * 2 ^ (e - ulp).toNat else shiftRound m (ulp - e).toNat
  let bits := if m = 0 then 0 else (ulp - f.minExp).toNat * 2 ^ f.fracBits + q
  (if neg then f.signWeight else 0) + min bits f.infBits

end Format

/-- Truncation toward zero; there is none for a NaN or an infinity. -/
def Value.trunc : Value → Option Int
  | .nan => none
  | .inf _ => none
  | .finite neg m e =>
    let mag : Nat := if 0 ≤ e then m * 2 ^ e.toNat else m / 2 ^ (-e).toNat
    some (if neg then -(mag : Int) else mag)

/-- The pattern of an integer in a format, rounded if it has too many digits. -/
def Format.ofInt (f : Format) (n : Int) : Nat := f.round (n < 0) n.natAbs 0

-- 1.5, -2.25 and the smallest subnormal double; 2^53 + 1 is a tie and goes to the even neighbour
example : (binary64.decode 0x3FF8000000000000).trunc = some 1 := by decide
example : (binary64.decode 0xC002000000000000).trunc = some (-2) := by decide
example : binary64.decode 1 = .finite false 1 (-1074) := by decide
example : binary64.ofInt (2 ^ 53 + 1) = binary64.ofInt (2 ^ 53) := by decide
example : binary32.ofInt (-3) = 0xC0400000 := by decide

end Ieee754
