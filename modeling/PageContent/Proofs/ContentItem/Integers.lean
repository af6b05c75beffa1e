import PageContent.Proofs.ContentItem.Reading

/-! What digits are read as, however many there are, and what is read back from the text of an
integer. The digits are added up in a machine integer that stops at its ends. -/
namespace PageContent.Lexeme

inductive Sign where
  | none
  | plus
  | minus
  deriving DecidableEq, Repr

namespace Sign

def text : Sign → Bytes
  | none => []
  | plus => [Octet.plus]
  | minus => [Octet.minus]

def of : Sign → Int → Int
  | minus, n => -n
  | _, n => n

end Sign

def saturated (n : Int) : Int64 :=
  if n < Int64.minValue.toInt then Int64.minValue
  else if Int64.maxValue.toInt < n then Int64.maxValue
  else Int64.ofInt n

def grown (n : Int64) (d : UInt8) : Int64 :=
  saturated ((saturated (n.toInt * 10)).toInt + Octet.digitValue d)

theorem saturatedInt (n : Int) : (saturated n).toInt =
    max (-0x8000000000000000) (min n 0x7fffffffffffffff) := by
  have least : Int64.minValue.toInt = -0x8000000000000000 := by decide
  have greatest : Int64.maxValue.toInt = 0x7fffffffffffffff := by decide
  unfold saturated
  split
  · omega
  split
  · omega
  · rw [Int64.toInt_ofInt_of_le (by omega) (by omega)]
    omega

theorem grownInt {n : Int64} {k : Nat} (same : n.toInt = k) (d : UInt8) :
    (grown n d).toInt = (min (k * 10 + Octet.digitValue d) largest : Nat) := by
  rw [grown, saturatedInt, saturatedInt, same, largest]
  omega

theorem grownDecimal (ds : Bytes) :
    (ds.foldl grown 0).toInt = (min (decimal ds) largest : Nat) := by
  have run (n : Int64) (k : Nat) (same : n.toInt = k) : (ds.foldl grown n).toInt =
      (ds.foldl (fun n d => min (n * 10 + Octet.digitValue d) largest) k : Nat) := by
    induction ds generalizing n k with
    | nil => exact same
    | cons d rest ih => exact ih _ _ (grownInt same d)
  rw [run 0 0 rfl, ← clampedDecimal, clamped]

theorem signedInt (s : Sign) (ds : Bytes) :
    (intValue (s == .minus) ds).toInt = s.of (min (decimal ds) largest : Nat) := by
  have bound := Nat.min_le_right (decimal ds) largest
  have signed (n : Int) : (if (s == .minus) = true then -n else n) = s.of n := by cases s <;> rfl
  have within (n : Nat) (small : n ≤ largest) : -2 ^ 63 ≤ s.of n ∧ s.of n < 2 ^ 63 := by
    simp only [largest] at small
    cases s <;> simp only [Sign.of] <;> omega
  rw [intValue, clampedDecimal, signed]
  exact Int64.toInt_ofInt_of_le (within _ bound).1 (within _ bound).2

theorem signedExact (s : Sign) (ds : Bytes) :
    intValue (s == .minus) ds = saturated (s.of (decimal ds)) ↔
      ¬(s = .minus ∧ largest < decimal ds) := by
  rw [← Int64.toInt_inj, signedInt, saturatedInt, largest]
  cases s <;> simp only [Sign.of, reduceCtorEq, false_and, not_false_eq_true, true_and,
    iff_true] <;> omega

theorem skipTwice (inComment : Bool) (bytes : Bytes) :
    skipBlanks false (skipBlanks inComment bytes) = skipBlanks inComment bytes := by
  fun_induction skipBlanks inComment bytes with
  | case1 => rfl
  | case2 | case3 | case4 => assumption
  | case5 inComment b rest outside percent blank =>
    simp [skipBlanks, percent, blank]

theorem signText (s : Sign) {ds : Bytes} (some : ds ≠ [])
    (digits : ∀ d ∈ ds, Octet.isDigit d = true) (tail : Bytes) :
    sign (s.text ++ ds ++ tail) = (s == .minus, ds ++ tail) := by
  cases s with
  | none => exact signDigits some digits tail
  | plus => rfl
  | minus => rfl

theorem showsInteger (s : Sign) {ds tail : Bytes} (some : ds ≠ [])
    (digits : ∀ d ∈ ds, Octet.isDigit d = true) (ended : Ended tail) :
    Lexer.Shows (s.text ++ ds ++ tail) (.value (.int (intValue (s == .minus) ds))) tail := by
  have read := intNumber (signText s some digits tail) some digits ended
  cases ds with
  | nil => exact absurd rfl some
  | cons d rest =>
    have digit := digits d List.mem_cons_self
    cases s with
    | none => exact Lexer.showsNumber read (.inl digit)
    | plus => exact Lexer.showsNumber read (.inr ⟨.inr rfl, d, _, rfl, digit⟩)
    | minus => exact Lexer.showsNumber read (.inr ⟨.inl rfl, d, _, rfl, digit⟩)

theorem showsWritten (n : Int64) {tail : Bytes} (ended : Ended tail) :
    Lexer.Shows ((Scalar.int n).written ++ tail)
      (.value (.int (if n = Int64.minValue then n + 1 else n))) tail := by
  by_cases least : n = Int64.minValue
  · subst least
    have digits : ∀ c ∈ Nat.toDigits 10 (2 ^ 63), c.isDigit = true :=
      fun c member => Nat.isDigit_of_mem_toDigits (by decide) (by decide) member
    have value : intValue (Sign.minus == .minus) (ascii (Nat.toDigits 10 (2 ^ 63))) =
        Int64.minValue + 1 := by
      rw [← Int64.toInt_inj, signedInt, decimalDigits]
      decide
    have shown := showsInteger .minus (by simp [ascii]) (digitsOctets digits) ended
    rw [value] at shown
    exact shown
  · rw [if_neg least]
    exact Lexer.showsScalar (fun same => least (Scalar.int.inj same)) ended

/-- The digits of an integer are read as their value, capped before the sign is put to it: no
sum on the way leaves the machine integers, and the value is the nearest machine integer but for
a minus before digits that reach the least one. So what is written for the least integer, alone
of all integers, is read back as the one after it. -/
theorem integersRead (s : Sign) {ds tail : Bytes} {l : Lexer} (nonempty : ds ≠ [])
    (digits : ∀ d ∈ ds, Octet.isDigit d = true) (ended : Ended tail)
    (starts : skipBlanks false l.rest = s.text ++ ds ++ tail) :
    (∃ (pos : Nat) (n : Int64),
      l.next = (some (.ok (pos, .value (.int n))), ⟨l.data, tail⟩) ∧
      n.toInt = s.of (min (decimal ds) largest : Nat) ∧
      (n = saturated (s.of (decimal ds)) ↔ ¬(s = .minus ∧ largest < decimal ds)) ∧
      n.toInt = s.of (ds.foldl grown 0).toInt ∧
      ∀ front, front <+: ds →
        (front.foldl grown 0).toInt = (min (decimal front) largest : Nat)) ∧
    ∀ (n : Int64) (data : Bytes), ∃ pos,
      (Lexer.mk data ((Scalar.int n).written ++ tail)).next =
        (some (.ok (pos, .value (.int (if n = Int64.minValue then n + 1 else n)))),
          ⟨data, tail⟩) := by
  refine ⟨?_, fun n data => (showsWritten n ended).next data⟩
  obtain ⟨b, rest, found, read⟩ := showsInteger s nonempty digits ended
  have shown : Lexer.Shows l.rest _ tail := ⟨b, rest, by rw [← skipTwice, starts, found], read⟩
  obtain ⟨pos, next⟩ := shown.next l.data
  refine ⟨pos, _, next, signedInt s ds, signedExact s ds, ?_, fun front _ => grownDecimal front⟩
  rw [signedInt, grownDecimal]

theorem integersReadBothEnds :
    (∃ pos, (Lexer.ofData (ascii " +99999999999999999999]".toList)).next =
      (some (.ok (pos, .value (.int Int64.maxValue))),
        ⟨ascii " +99999999999999999999]".toList, [Octet.bracketClose]⟩)) ∧
    ∃ pos, (Lexer.mk [] ((Scalar.int (Int64.minValue + 1)).written ++ [Octet.bracketClose])).next =
      (some (.ok (pos, .value (.int (Int64.minValue + 1)))), ⟨[], [Octet.bracketClose]⟩) := by
  have digits : ∀ d ∈ List.replicate 20 (0x39 : UInt8), Octet.isDigit d = true := by
    decide +kernel
  obtain ⟨⟨pos, n, next, -, exact, -⟩, written⟩ := @integersRead .plus (List.replicate 20 0x39)
    [Octet.bracketClose] (.ofData (ascii " +99999999999999999999]".toList)) (by decide) digits
    rfl rfl
  have greatest : n = Int64.maxValue := exact.mpr (by simp)
  exact ⟨⟨pos, greatest ▸ next⟩, written (Int64.minValue + 1) []⟩

theorem leastPassedOver :
    (Scalar.int Int64.minValue).written = ascii "-9223372036854775808".toList ∧
    saturated (Sign.minus.of (decimal (ascii "9223372036854775808".toList))) = Int64.minValue ∧
    (Lexer.ofData (ascii "-9223372036854775808".toList)).next.1 =
      some (.ok (0, .value (.int (Int64.minValue + 1)))) ∧
    Int64.minValue + 1 ≠ Int64.minValue := by
  refine ⟨?_, ?_, ?_, ?_⟩
  · decide +kernel
  · decide +kernel
  · rfl
  · decide

end PageContent.Lexeme
