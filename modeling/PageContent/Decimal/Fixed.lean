import PageContent.Decimal.Binary

/-! Decimal text with a fixed number of places, rounded from the exact value; a
half goes to the even neighbour. -/
namespace PageContent.Decimal

def roundToEven (num den : Nat) : Nat :=
  let q := num / den
  let twice := 2 * (num % den)
  if twice < den then q
  else if den < twice then q + 1
  else if q % 2 == 0 then q else q + 1

def fixed (places : Nat) (b : Binary) : List Char :=
  let n := roundToEven (b.numerator * Nat.pow 10 places) b.denominator
  let ds := digits (places + 1) n
  let whole := ds.length - places
  (if b.negative then ['-'] else []) ++ ds.take whole ++ '.' :: ds.drop whole

end PageContent.Decimal
