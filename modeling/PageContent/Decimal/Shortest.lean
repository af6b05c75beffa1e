import PageContent.Decimal.Binary

/-! The fewest decimal digits that read back. A double is the value of every
decimal between the midpoints to its neighbours, the midpoints themselves
included when its significand is even. -/
namespace PageContent.Decimal

structure Window where
  low : Nat
  value : Nat
  high : Nat
  den : Nat
  closed : Bool
  deriving DecidableEq, Repr

def Binary.window (b : Binary) : Window :=
  let scale := Nat.pow 2 (b.exponent - 2).toNat
  let m := 4 * b.significand
  let below := if b.significand == leastNormal && -1074 < b.exponent then 1 else 2
  ⟨(m - below) * scale, m * scale, (m + 2) * scale, Nat.pow 2 (2 - b.exponent).toNat,
   b.significand % 2 == 0⟩

namespace Window

def holds (w : Window) (n : Nat) : Bool :=
  if w.closed then w.low ≤ n && n ≤ w.high else w.low < n && n < w.high

def onGrid? (w : Window) (place : Int) : Option Nat :=
  let up := Nat.pow 10 (-place).toNat
  let den := w.den * Nat.pow 10 place.toNat
  let w : Window := ⟨w.low * up, w.value * up, w.high * up, den, w.closed⟩
  let n := w.value / w.den
  match w.holds (n * w.den), w.holds ((n + 1) * w.den) with
  | true, true => some (if 2 * w.value < (2 * n + 1) * w.den then n else n + 1)
  | true, false => some n
  | false, true => some (n + 1)
  | false, false => none

def magnitude (w : Window) : Int :=
  Int.ofNat (Nat.toDigits 10 (w.value * Nat.pow 10 324 / w.den)).length - 324

-- Seventeen digits tell any two doubles apart.
def shortest (w : Window) : Nat × Int :=
  let grids := (List.range 17).map fun i => w.magnitude - 1 - Int.ofNat i
  (grids.findSome? fun place => (w.onGrid? place).map (·, place)).getD (0, 0)

end Window

def positional (n : Nat) (place : Int) : List Char :=
  let places := (-place).toNat
  let ds := digits (places + 1) (n * Nat.pow 10 place.toNat)
  let whole := ds.length - places
  let fraction := ((ds.drop whole).reverse.dropWhile (· == '0')).reverse
  ds.take whole ++ (if fraction.isEmpty then [] else '.' :: fraction)

def shortest (b : Binary) : List Char :=
  let (n, place) := b.window.shortest
  (if b.negative then ['-'] else []) ++ positional n place

end PageContent.Decimal
