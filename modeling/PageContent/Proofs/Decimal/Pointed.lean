import Mathlib.Algebra.Group.Nat.Defs
import PageContent.Operand.Written

/-! The text of a real is an optional minus sign, digits, a point and digits, whichever
double it is the text of. -/
namespace PageContent.Decimal

structure Pointed (whole places : List Char) : Prop where
  before : whole ≠ []
  after : places ≠ []
  wholeDigits : ∀ c : Char, c ∈ whole → c.isDigit = true
  placesDigits : ∀ c : Char, c ∈ places → c.isDigit = true

theorem digitsDigit {width n : Nat} {c : Char} (h : c ∈ digits width n) : c.isDigit := by
  simp only [digits, List.mem_append, List.mem_replicate] at h
  obtain ⟨-, rfl⟩ | member := h
  · rfl
  · exact Nat.isDigit_of_mem_toDigits (by decide) (by decide) member

theorem digitsLength (width n : Nat) : width ≤ (digits width n).length := by
  simp only [digits, List.length_append, List.length_replicate]
  omega

theorem digitsValue (width n : Nat) : Nat.ofDigitChars 10 (digits width n) 0 = n := by
  rw [digits, Nat.ofDigitChars_append, Nat.ofDigitChars_replicate_zero, Nat.mul_zero,
    Nat.ofDigitChars_ten_toDigits]

theorem multipleOfZeros {ds : List Char} {whole : Nat} (zeros : ∀ c ∈ ds.drop whole, c = '0') :
    Nat.ofDigitChars 10 ds 0 = 10 ^ (ds.drop whole).length * Nat.ofDigitChars 10 (ds.take whole) 0 := by
  have tail : ds.drop whole = List.replicate (ds.drop whole).length '0' :=
    List.eq_replicate_of_mem zeros
  have value := Nat.ofDigitChars_append (b := 10) (l := ds.take whole) (m := ds.drop whole) 0
  rw [List.take_append_drop] at value
  rw [value, tail, Nat.ofDigitChars_replicate_zero, List.length_replicate]

theorem fixedPointed (places : Nat) (h : 0 < places) (b : Binary) : ∃ whole last,
    fixed places b = (if b.negative then ['-'] else []) ++ (whole ++ '.' :: last) ∧
      Pointed whole last := by
  let ds := digits (places + 1) (roundToEven (b.numerator * Nat.pow 10 places) b.denominator)
  have long : places + 1 ≤ ds.length := digitsLength _ _
  refine ⟨ds.take (ds.length - places), ds.drop (ds.length - places), ?_, ?_, ?_, ?_, ?_⟩
  · simp [fixed, ds]
  · exact List.ne_nil_of_length_pos (by rw [List.length_take]; omega)
  · exact List.ne_nil_of_length_pos (by rw [List.length_drop]; omega)
  · exact fun c member => digitsDigit (List.mem_of_mem_take member)
  · exact fun c member => digitsDigit (List.mem_of_mem_drop member)

theorem positionalPointed {n : Nat} {place : Int}
    (h : ∀ k, n * Nat.pow 10 place.toNat ≠ 10 ^ (-place).toNat * k) :
    ∃ whole last, positional n place = whole ++ '.' :: last ∧ Pointed whole last := by
  let ds := digits ((-place).toNat + 1) (n * Nat.pow 10 place.toNat)
  have long : (-place).toNat + 1 ≤ ds.length := digitsLength _ _
  let after := ds.drop (ds.length - (-place).toNat)
  have length : after.length = (-place).toNat := by
    rw [List.length_drop]
    omega
  have some : ∃ c ∈ after.reverse, (c == '0') = false := by
    refine Classical.byContradiction fun none => ?_
    have zeros : ∀ c ∈ after, c = '0' := by
      intro c member
      refine Classical.byContradiction fun other => ?_
      exact none ⟨c, List.mem_reverse.mpr member, by simpa using other⟩
    have value := multipleOfZeros zeros
    rw [digitsValue, length] at value
    exact h _ value
  have kept : after.reverse.dropWhile (· == '0') ≠ [] := by
    obtain ⟨c, member, other⟩ := some
    intro empty
    have zeros := List.all_takeWhile (p := (· == '0')) (l := after.reverse)
    have whole := List.takeWhile_append_dropWhile (p := (· == '0')) (l := after.reverse)
    rw [empty, List.append_nil] at whole
    rw [whole, List.all_eq_true] at zeros
    simp [zeros c member] at other
  have kept' : ((after.reverse.dropWhile (· == '0')).reverse).isEmpty = false := by
    simpa using kept
  refine ⟨ds.take (ds.length - (-place).toNat), (after.reverse.dropWhile (· == '0')).reverse,
    ?_, ?_, ?_, ?_, ?_⟩
  · change ds.take _ ++ (if ((after.reverse.dropWhile (· == '0')).reverse).isEmpty then _ else _) = _
    rw [kept']
    rfl
  · exact List.ne_nil_of_length_pos (by rw [List.length_take]; omega)
  · simpa using kept
  · exact fun c member => digitsDigit (List.mem_of_mem_take member)
  · intro c member
    have inside := (List.dropWhile_suffix _).subset (List.mem_reverse.mp member)
    exact digitsDigit (List.mem_of_mem_drop (List.mem_reverse.mp inside))

namespace Window

theorem holdsWithin {w : Window} {n : Nat} (h : w.holds n = true) : w.low ≤ n ∧ n ≤ w.high := by
  unfold holds at h
  split at h
  · simpa using h
  · simp only [Bool.and_eq_true, decide_eq_true_eq] at h
    omega

theorem holdsInside {w : Window} {n : Nat} (above : w.low < n) (below : n < w.high) :
    w.holds n = true := by
  unfold holds
  split <;> simp <;> omega

theorem onGridWithin {w : Window} {place : Int} {n : Nat} (h : w.onGrid? place = some n) :
    w.low * Nat.pow 10 (-place).toNat ≤ n * (w.den * Nat.pow 10 place.toNat) ∧
    n * (w.den * Nat.pow 10 place.toNat) ≤ w.high * Nat.pow 10 (-place).toNat := by
  simp only [onGrid?] at h
  split at h
  · rename_i lower upper
    split at h <;> cases h
    · exact holdsWithin lower
    · exact holdsWithin upper
  · rename_i lower upper
    cases h
    exact holdsWithin lower
  · rename_i lower upper
    cases h
    exact holdsWithin upper
  · contradiction

theorem onGridSome {w : Window} {place : Int} (below : w.low ≤ w.value) (above : w.value < w.high)
    (positive : 0 < w.den)
    (fine : w.low * Nat.pow 10 (-place).toNat + w.den * Nat.pow 10 place.toNat <
      w.high * Nat.pow 10 (-place).toNat) : ∃ n, w.onGrid? place = some n := by
  let up := Nat.pow 10 (-place).toNat
  let step := w.den * Nat.pow 10 place.toNat
  let n := w.value * up / step
  have unit : 0 < up := Nat.pow_pos (by decide)
  have stepPositive : 0 < step := Nat.mul_pos positive (Nat.pow_pos (by decide))
  have floor : n * step ≤ w.value * up := Nat.div_mul_le_self _ _
  have next : w.value * up < (n + 1) * step := by
    have := Nat.lt_div_mul_add stepPositive (a := w.value * up)
    rw [Nat.add_mul, Nat.one_mul]
    exact this
  have lowest : w.low * up ≤ w.value * up := Nat.mul_le_mul_right _ below
  have highest : w.value * up < w.high * up := Nat.mul_lt_mul_of_pos_right above unit
  have width : w.low * up + step < w.high * up := fine
  have later : (n + 1) * step = n * step + step := by rw [Nat.add_mul, Nat.one_mul]
  let scaled : Window := ⟨w.low * up, w.value * up, w.high * up, step, w.closed⟩
  have hit : scaled.holds (n * step) = true ∨ scaled.holds ((n + 1) * step) = true := by
    by_cases lower : w.low * up < n * step
    · exact .inl (holdsInside lower (by change n * step < w.high * up; omega))
    · refine .inr (holdsInside ?_ ?_)
      · change w.low * up < (n + 1) * step
        omega
      · change (n + 1) * step < w.high * up
        omega
  simp only [onGrid?]
  split
  · exact ⟨_, rfl⟩
  · exact ⟨_, rfl⟩
  · exact ⟨_, rfl⟩
  · rename_i lower upper
    obtain yes | yes := hit
    · exact absurd (yes.symm.trans lower) (by decide)
    · exact absurd (yes.symm.trans upper) (by decide)

theorem shortestOnGrid {w : Window} (h : ∃ n, w.onGrid? (w.magnitude - 17) = some n) :
    w.onGrid? w.shortest.2 = some w.shortest.1 := by
  obtain ⟨n, finest⟩ := h
  cases found : (((List.range 17).map fun i => w.magnitude - 1 - Int.ofNat i).findSome?
      fun place => (w.onGrid? place).map (·, place)) with
  | none =>
    rw [List.findSome?_eq_none_iff] at found
    have member : w.magnitude - 17 ∈
        (List.range 17).map fun i => w.magnitude - 1 - Int.ofNat i := by
      refine List.mem_map.mpr ⟨16, by simp, ?_⟩
      simp only [Int.ofNat_eq_natCast]
      omega
    simpa [finest] using found _ member
  | some pair =>
    obtain ⟨place, -, at'⟩ := List.exists_of_findSome?_eq_some found
    obtain ⟨m, here, rfl⟩ := Option.map_eq_some_iff.mp at'
    simp only [shortest, found, Option.getD_some]
    exact here

end Window

namespace Binary

structure Double (b : Binary) : Prop where
  significand : b.significand < 2 * leastNormal
  exponent : -1074 ≤ b.exponent

theorem ofFloatDouble {x : Float} {b : Binary} (h : ofFloat? x = some b) : b.Double := by
  simp only [ofFloat?] at h
  have fraction : x.toBits.toNat % leastNormal < leastNormal := Nat.mod_lt _ (by decide)
  split at h
  · contradiction
  split at h
  · cases h
    exact ⟨by simp only; omega, Int.le_refl _⟩
  · rename_i normal
    simp only [beq_iff_eq] at normal
    cases h
    refine ⟨by simp only; omega, ?_⟩
    simp only [Int.ofNat_eq_natCast]
    omega

def below (b : Binary) : Nat := if b.significand == leastNormal && -1074 < b.exponent then 1 else 2

theorem belowBounds (b : Binary) : 1 ≤ b.below ∧ b.below ≤ 2 ∧
    (b.below = 1 → b.significand = leastNormal) := by
  unfold below
  split
  · rename_i least
    simp only [Bool.and_eq_true, beq_iff_eq] at least
    exact ⟨by decide, by decide, fun _ => least.1⟩
  · exact ⟨by decide, by decide, fun h => by contradiction⟩

variable {b : Binary}

theorem notInteger (h : b.isInteger = false) :
    b.exponent < 0 ∧ ∀ k, b.significand ≠ 2 ^ (-b.exponent).toNat * k := by
  simp only [isInteger, beq_eq_false_iff_ne] at h
  constructor
  · refine Classical.byContradiction fun big => h ?_
    have zero : (-b.exponent).toNat = 0 := by omega
    rw [zero]
    exact Nat.mod_one _
  · intro k same
    exact h (same ▸ Nat.mul_mod_right _ _)

theorem windowOf (small : b.exponent < 0) : b.window =
    ⟨4 * b.significand - b.below, 4 * b.significand, 4 * b.significand + 2,
      4 * 2 ^ (-b.exponent).toNat, b.significand % 2 == 0⟩ := by
  have scale : (b.exponent - 2).toNat = 0 := by omega
  have power : (2 - b.exponent).toNat = (-b.exponent).toNat + 2 := by omega
  have den : Nat.pow 2 ((-b.exponent).toNat + 2) = 4 * 2 ^ (-b.exponent).toNat := by
    change 2 ^ _ = _
    rw [Nat.pow_add, Nat.mul_comm]
  have one : Nat.pow 2 0 = 1 := rfl
  simp only [window, scale, power, den, one, Nat.mul_one]
  rfl

theorem windowInteger (h : b.isInteger = false) (k : Nat) :
    ¬ (b.window.low ≤ k * b.window.den ∧ k * b.window.den ≤ b.window.high) := by
  obtain ⟨small, other⟩ := notInteger h
  obtain ⟨least, most, -⟩ := belowBounds b
  rw [windowOf small]
  simp only
  rintro ⟨above, under⟩
  have quarters : k * (4 * 2 ^ (-b.exponent).toNat) = 4 * (2 ^ (-b.exponent).toNat * k) := by
    rw [Nat.mul_comm k, Nat.mul_assoc]
  exact other k (by omega)

theorem tenPower (k : Nat) : 0 < 10 ^ k := Nat.pow_pos (by decide)

theorem gridBound {k a b length value den count : Nat}
    (grid : a * 10 ^ (k + 17) = b * 10 ^ length) (some : 0 < length)
    (long : 10 ^ (length - 1) ≤ count) (floor : count * den ≤ value * 10 ^ k) :
    den * a * 10 ^ 16 ≤ b * value := by
  refine Nat.le_of_mul_le_mul_right ?_ (tenPower (k + 1))
  have first : 10 ^ length = 10 * 10 ^ (length - 1) := by
    rw [← Nat.pow_succ', Nat.succ_eq_add_one, Nat.sub_add_cancel some]
  have places : k + 17 = 16 + (k + 1) := by omega
  calc den * a * 10 ^ 16 * 10 ^ (k + 1) = den * (a * 10 ^ (k + 17)) := by
        rw [places, Nat.pow_add 10 16, Nat.mul_assoc den a, Nat.mul_assoc, Nat.mul_assoc a]
    _ = den * (b * (10 * 10 ^ (length - 1))) := by rw [grid, first]
    _ = 10 * b * (10 ^ (length - 1) * den) := by
        rw [Nat.mul_comm den, Nat.mul_left_comm b 10, Nat.mul_assoc, Nat.mul_assoc, Nat.mul_assoc]
    _ ≤ 10 * b * (count * den) := Nat.mul_le_mul_left _ (Nat.mul_le_mul_right _ long)
    _ ≤ 10 * b * (value * 10 ^ k) := Nat.mul_le_mul_left _ floor
    _ = b * value * 10 ^ (k + 1) := by
        rw [Nat.pow_succ, Nat.mul_assoc, Nat.mul_assoc, Nat.mul_comm 10, Nat.mul_assoc,
          Nat.mul_assoc]

theorem gridParts {k length : Nat} {place : Int} (h : place = Int.ofNat length - Int.ofNat (k + 17)) :
    Nat.pow 10 place.toNat * 10 ^ (k + 17) = Nat.pow 10 (-place).toNat * 10 ^ length := by
  rw [Nat.pow_eq, Nat.pow_eq, ← Nat.pow_add, ← Nat.pow_add]
  simp only [Int.ofNat_eq_natCast] at h
  have same : place.toNat + (k + 17) = (-place).toNat + length := by omega
  rw [same]

theorem firstDigit {n : Nat} (h : 0 < n) : 10 ^ ((Nat.toDigits 10 n).length - 1) ≤ n := by
  have one : 0 < (Nat.toDigits 10 n).length := Nat.length_toDigits_pos
  refine Nat.le_of_not_lt fun short => ?_
  by_cases single : (Nat.toDigits 10 n).length - 1 = 0
  · rw [single, Nat.pow_zero] at short
    omega
  · have fewer := (Nat.length_toDigits_le_iff (b := 10) (by decide)
      (Nat.pos_of_ne_zero single)).mpr short
    omega

theorem magnitudeDigits (w : Window) : ∃ k, (∀ e ≤ 1074, 2 ^ e ≤ 10 ^ k) ∧ w.magnitude =
    Int.ofNat (Nat.toDigits 10 (w.value * 10 ^ k / w.den)).length - Int.ofNat k := by
  obtain ⟨k, places⟩ : ∃ k, k = 324 := ⟨_, rfl⟩
  have whole : (324 : Int) = Int.ofNat k := by
    rw [places]
    rfl
  have exact : w.magnitude =
      Int.ofNat (Nat.toDigits 10 (w.value * Nat.pow 10 k / w.den)).length - Int.ofNat k := by
    rw [Window.magnitude, ← places, whole]
  refine ⟨k, fun e most => Nat.le_trans (Nat.pow_le_pow_right (by decide) most) ?_, exact⟩
  rw [places]
  decide +kernel

theorem finestGrid (double : b.Double) (h : b.isInteger = false) :
    b.window.low * Nat.pow 10 (-(b.window.magnitude - 17)).toNat +
      b.window.den * Nat.pow 10 (b.window.magnitude - 17).toNat <
    b.window.high * Nat.pow 10 (-(b.window.magnitude - 17)).toNat := by
  obtain ⟨small, other⟩ := notInteger h
  obtain ⟨least, most, atLeast⟩ := belowBounds b
  have positive : 0 < b.significand := by
    have := other 0
    omega
  let w := b.window
  obtain ⟨k, deep, magnitude⟩ := magnitudeDigits w
  let count := w.value * 10 ^ k / w.den
  let length := (Nat.toDigits 10 count).length
  have value : w.value = 4 * b.significand := by simp only [w, windowOf small]
  have width : w.high = w.low + (2 + b.below) := by
    simp only [w, windowOf small]
    omega
  have den : 0 < w.den := by
    simp only [w, windowOf small]
    exact Nat.mul_pos (by decide) (Nat.pow_pos (by decide))
  have four : 4 ≤ w.value := by omega
  have some : 0 < count := by
    have depth : (-b.exponent).toNat ≤ 1074 := by
      have := double.exponent
      omega
    have power := deep _ depth
    refine Nat.div_pos ?_ den
    calc w.den = 4 * 2 ^ (-b.exponent).toNat := by simp only [w, windowOf small]
      _ ≤ 4 * 10 ^ k := Nat.mul_le_mul_left _ power
      _ ≤ w.value * 10 ^ k := Nat.mul_le_mul four (Nat.le_refl _)
  have place : w.magnitude - 17 = Int.ofNat length - Int.ofNat (k + 17) := by
    change w.magnitude = Int.ofNat length - Int.ofNat k at magnitude
    simp only [magnitude, Int.ofNat_eq_natCast]
    omega
  have grid := gridParts place
  have unit : 0 < Nat.pow 10 (-(w.magnitude - 17)).toNat := tenPower _
  have bound := gridBound grid Nat.length_toDigits_pos (firstDigit some)
    (Nat.div_mul_le_self _ _)
  change w.low * _ + w.den * _ < w.high * _
  generalize Nat.pow 10 (-(w.magnitude - 17)).toNat = up at bound unit ⊢
  generalize Nat.pow 10 (w.magnitude - 17).toNat = down at bound ⊢
  have fits : w.value < (2 + b.below) * 10 ^ 16 := by
    have := double.significand
    simp only [leastNormal] at this atLeast
    omega
  have narrow : w.den * down * 10 ^ 16 < up * (2 + b.below) * 10 ^ 16 := by
    rw [Nat.mul_assoc up]
    exact Nat.lt_of_le_of_lt bound (Nat.mul_lt_mul_of_pos_left fits unit)
  have narrow' := Nat.lt_of_mul_lt_mul_right narrow
  rw [width, Nat.add_mul, Nat.mul_comm (2 + b.below)]
  omega

theorem shortestPointed (double : b.Double) (h : b.isInteger = false) : ∃ whole places,
    shortest b = (if b.negative then ['-'] else []) ++ (whole ++ '.' :: places) ∧
      Pointed whole places := by
  obtain ⟨small, -⟩ := notInteger h
  let w := b.window
  have value : w.low ≤ w.value ∧ w.value < w.high ∧ 0 < w.den := by
    simp only [w, windowOf small]
    exact ⟨by omega, by omega, Nat.mul_pos (by decide) (Nat.pow_pos (by decide))⟩
  have hit := Window.shortestOnGrid
    (Window.onGridSome value.1 value.2.1 value.2.2 (finestGrid double h))
  obtain ⟨above, below⟩ := Window.onGridWithin hit
  -- an integer that the digits stood for would lie in the window
  have other : ∀ k, w.shortest.1 * Nat.pow 10 w.shortest.2.toNat ≠
      10 ^ (-w.shortest.2).toNat * k := by
    intro k same
    have unit : 0 < 10 ^ (-w.shortest.2).toNat := tenPower _
    have scaled : w.shortest.1 * (w.den * Nat.pow 10 w.shortest.2.toNat) =
        k * w.den * 10 ^ (-w.shortest.2).toNat := by
      rw [Nat.mul_left_comm, same, Nat.mul_left_comm, Nat.mul_comm, Nat.mul_comm w.den]
    change w.low * 10 ^ (-w.shortest.2).toNat ≤ w.shortest.1 * (w.den * _) at above
    change w.shortest.1 * (w.den * _) ≤ w.high * 10 ^ (-w.shortest.2).toNat at below
    rw [scaled] at above below
    exact windowInteger h k
      ⟨Nat.le_of_mul_le_mul_right above unit, Nat.le_of_mul_le_mul_right below unit⟩
  obtain ⟨whole, places, text, pointed⟩ := positionalPointed other
  exact ⟨whole, places, by simp only [shortest]; rw [← text], pointed⟩

end Binary

theorem realTextPointed (x : Float) : ∃ (negative : Bool) (whole places : List Char),
    Scalar.realText x = (if negative then ['-'] else []) ++ (whole ++ '.' :: places) ∧
      Pointed whole places := by
  unfold Scalar.realText
  cases found : Binary.ofFloat? x with
  | none => exact ⟨false, ['0'], ['0'], rfl, by simp, by simp, by simp, by simp⟩
  | some b =>
    simp only
    split
    · obtain ⟨whole, places, text, pointed⟩ := fixedPointed 1 (by decide) b
      exact ⟨b.negative, whole, places, text, pointed⟩
    · rename_i h
      obtain ⟨whole, places, text, pointed⟩ :=
        Binary.shortestPointed (Binary.ofFloatDouble found) (by simpa using h)
      exact ⟨b.negative, whole, places, text, pointed⟩

end PageContent.Decimal
