/-! The exact value of a double, as a sign and `significand · 2^exponent`. -/
namespace PageContent.Decimal

structure Binary where
  negative : Bool
  significand : Nat
  exponent : Int
  deriving DecidableEq, Repr

def leastNormal : Nat := 0x10000000000000

namespace Binary

def ofFloat? (x : Float) : Option Binary :=
  let bits : Nat := x.toBits.toNat
  let negative := bits / 0x8000000000000000 == 1
  let field : Nat := bits / leastNormal % 2048
  let fraction := bits % leastNormal
  if field == 2047 then none
  else if field == 0 then some ⟨negative, fraction, -1074⟩
  else some ⟨negative, leastNormal + fraction, Int.ofNat field - 1075⟩

def isInteger (b : Binary) : Bool := b.significand % Nat.pow 2 (-b.exponent).toNat == 0

def numerator (b : Binary) : Nat := b.significand * Nat.pow 2 b.exponent.toNat
def denominator (b : Binary) : Nat := Nat.pow 2 (-b.exponent).toNat

end Binary

def digits (width n : Nat) : List Char :=
  let ds := Nat.toDigits 10 n
  List.replicate (width - ds.length) '0' ++ ds

end PageContent.Decimal
