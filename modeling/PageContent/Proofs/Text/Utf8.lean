import Mathlib.Algebra.Group.Nat.Defs
import PageContent.Text.Utf8

/-! What is written in UTF-8 is read back, and what is read from ill-formed octets is
written with octets that were there or with octets above ASCII. -/
namespace PageContent.Utf8

theorem ofNatToNat {n : Nat} (h : n < 256) : (UInt8.ofNat n).toNat = n := by
  simpa using h

theorem plainOctet {n : Nat} (h : n < 0x80) (rest : Bytes) :
    chars none (UInt8.ofNat n :: rest) = Char.ofNat n :: chars none rest := by
  have same := @ofNatToNat n (by omega)
  have low : UInt8.ofNat n < 0x80 := by
    rw [UInt8.lt_iff_toNat_lt, same]
    exact h
  simp only [chars, start, if_pos low, same]
  rfl

theorem leadOctet {n : Nat} (h : n < 256) (high : 0x80 ≤ n) {p : Partial}
    (found : lead? (UInt8.ofNat n) = some p) (rest : Bytes) :
    chars none (UInt8.ofNat n :: rest) = chars (some p) rest := by
  have above : ¬ UInt8.ofNat n < 0x80 := by
    rw [UInt8.lt_iff_toNat_lt, ofNatToNat h]
    exact Nat.not_lt.mpr high
  simp only [chars, start, if_neg above, found]
  rfl

theorem lastOctet {low high : UInt8} {bits n : Nat} (h : n < 256) (above : low.toNat ≤ n)
    (below : n ≤ high.toNat) (rest : Bytes) :
    chars (some ⟨0, low, high, bits⟩) (UInt8.ofNat n :: rest) =
      Char.ofNat (bits * 64 + n % 64) :: chars none rest := by
  have inside : (decide (low ≤ UInt8.ofNat n) && decide (UInt8.ofNat n ≤ high)) = true := by
    simp [UInt8.le_iff_toNat_le, ofNatToNat h, above, below]
  simp only [chars, inside, if_pos, ofNatToNat h]

theorem innerOctet {due : Nat} {low high : UInt8} {bits n : Nat} (h : n < 256)
    (above : low.toNat ≤ n) (below : n ≤ high.toNat) (rest : Bytes) :
    chars (some ⟨due + 1, low, high, bits⟩) (UInt8.ofNat n :: rest) =
      chars (some ⟨due, 0x80, 0xbf, bits * 64 + n % 64⟩) rest := by
  have inside : (decide (low ≤ UInt8.ofNat n) && decide (UInt8.ofNat n ≤ high)) = true := by
    simp [UInt8.le_iff_toNat_le, ofNatToNat h, above, below]
  simp only [chars, inside, if_pos, ofNatToNat h]

theorem leadTwo {n : Nat} (above : 0xc2 ≤ n) (below : n ≤ 0xdf) :
    lead? (UInt8.ofNat n) = some ⟨0, 0x80, 0xbf, n % 32⟩ := by
  unfold lead?
  simp only [ofNatToNat (show n < 256 by omega)]
  rw [if_pos (by simp [above, below])]

theorem leadThree {n : Nat} (above : 0xe0 ≤ n) (below : n ≤ 0xef) :
    lead? (UInt8.ofNat n) = some
      ⟨1, if n = 0xe0 then 0xa0 else 0x80, if n = 0xed then 0x9f else 0xbf, n % 16⟩ := by
  unfold lead?
  simp only [ofNatToNat (show n < 256 by omega)]
  rw [if_neg (by simp; omega)]
  by_cases overlong : n = 0xe0
  · simp [overlong]
  by_cases surrogate : n = 0xed
  · simp [surrogate]
  simp only [beq_iff_eq, overlong, surrogate, if_false]
  rw [if_pos (by simp; omega)]

theorem leadFour {n : Nat} (above : 0xf0 ≤ n) (below : n ≤ 0xf4) :
    lead? (UInt8.ofNat n) = some
      ⟨2, if n = 0xf0 then 0x90 else 0x80, if n = 0xf4 then 0x8f else 0xbf, n % 8⟩ := by
  have cases : n = 0xf0 ∨ n = 0xf1 ∨ n = 0xf2 ∨ n = 0xf3 ∨ n = 0xf4 := by omega
  rcases cases with rfl | rfl | rfl | rfl | rfl <;> rfl

theorem charBounds (c : Char) : c.toNat < 0xd800 ∨ 0xdfff < c.toNat ∧ c.toNat < 0x110000 := c.valid

theorem charRead (c : Char) (rest : Bytes) :
    chars none (String.utf8EncodeChar c ++ rest) = c :: chars none rest := by
  have valid := charBounds c
  have back : c = Char.ofNat c.toNat := (Char.ofNat_toNat c).symm
  unfold Char.toNat at valid back
  unfold String.utf8EncodeChar
  dsimp only
  generalize c.val.toNat = v at valid back ⊢
  rw [back]
  split
  · exact plainOctet (by omega) rest
  split
  · rw [List.cons_append, leadOctet (by omega) (by omega) (leadTwo (by omega) (by omega)),
      List.cons_append, lastOctet (by omega) (by simp) (by simp; omega), List.nil_append]
    congr 2
    omega
  split
  · have second : (if v / 4096 % 16 + 224 = 0xe0 then 0xa0 else 0x80 : UInt8).toNat ≤
        v / 64 % 64 + 128 := by
      split <;> simp
      omega
    have second' : v / 64 % 64 + 128 ≤
        (if v / 4096 % 16 + 224 = 0xed then 0x9f else 0xbf : UInt8).toNat := by
      split <;> simp <;> omega
    rw [List.cons_append, leadOctet (by omega) (by omega) (leadThree (by omega) (by omega)),
      List.cons_append, innerOctet (by omega) second second', List.cons_append,
      lastOctet (by omega) (by simp) (by simp; omega), List.nil_append]
    congr 2
    omega
  · have second : (if v / 262144 % 8 + 240 = 0xf0 then 0x90 else 0x80 : UInt8).toNat ≤
        v / 4096 % 64 + 128 := by
      split <;> simp
      omega
    have second' : v / 4096 % 64 + 128 ≤
        (if v / 262144 % 8 + 240 = 0xf4 then 0x8f else 0xbf : UInt8).toNat := by
      split <;> simp <;> omega
    rw [List.cons_append, leadOctet (by omega) (by omega) (leadFour (by omega) (by omega)),
      List.cons_append, innerOctet (by omega) second second', List.cons_append,
      innerOctet (by omega) (by simp) (by simp; omega), List.cons_append,
      lastOctet (by omega) (by simp) (by simp; omega), List.nil_append]
    congr 2
    omega

theorem charsRead (cs : List Char) : chars none (cs.flatMap String.utf8EncodeChar) = cs := by
  induction cs with
  | nil => rfl
  | cons c rest ih => rw [List.flatMap_cons, charRead, ih]

theorem decodeEncode (s : String) : decode (encode s) = s := by
  rw [decode, encode, charsRead, String.ofList_toList]

def Partial.least (p : Partial) : Nat := (p.bits * 64 + p.low.toNat % 64) * 64 ^ p.due
def Partial.greatest (p : Partial) : Nat :=
  (p.bits * 64 + p.high.toNat % 64) * 64 ^ p.due + (64 ^ p.due - 1)

structure Partial.Sound (p : Partial) : Prop where
  above : 0x80 ≤ p.least
  apart : p.greatest < 0xd800 ∨ 0xdfff < p.least
  below : p.greatest < 0x110000
  low : 0x80 ≤ p.low.toNat
  high : p.high.toNat ≤ 0xbf

theorem leadSound {b : UInt8} {p : Partial} (h : lead? b = some p) : p.Sound := by
  have bound : b.toNat < 256 := b.toNat_lt
  simp only [lead?] at h
  generalize b.toNat = n at h bound
  repeat' split at h
  all_goals try contradiction
  all_goals cases h
  all_goals simp only [Bool.and_eq_true, decide_eq_true_eq, beq_iff_eq] at *
  all_goals constructor <;> simp [Partial.least, Partial.greatest]
  all_goals omega

theorem nextSound {due bits : Nat} {low high b : UInt8}
    (h : (Partial.mk (due + 1) low high bits).Sound) (above : low ≤ b) (below : b ≤ high) :
    (Partial.mk due 0x80 0xbf (bits * 64 + b.toNat % 64)).Sound := by
  obtain ⟨least, apart, greatest, lowest, highest⟩ := h
  rw [UInt8.le_iff_toNat_le] at above below
  have step : low.toNat % 64 ≤ b.toNat % 64 ∧ b.toNat % 64 ≤ high.toNat % 64 := by
    simp only at lowest highest
    omega
  have up : (bits * 64 + low.toNat % 64) * 64 ^ (due + 1) ≤
      (bits * 64 + b.toNat % 64) * 64 ^ (due + 1) :=
    Nat.mul_le_mul_right _ (by omega)
  have down : (bits * 64 + b.toNat % 64) * 64 ^ (due + 1) ≤
      (bits * 64 + high.toNat % 64) * 64 ^ (due + 1) :=
    Nat.mul_le_mul_right _ (by omega)
  have unit : 1 ≤ 64 ^ due := Nat.pow_pos (by decide)
  have first : ((bits * 64 + b.toNat % 64) * 64 + 0) * 64 ^ due =
      (bits * 64 + b.toNat % 64) * 64 ^ (due + 1) := by
    rw [Nat.pow_succ, Nat.add_zero, Nat.mul_assoc, Nat.mul_comm 64]
  have last : ((bits * 64 + b.toNat % 64) * 64 + 63) * 64 ^ due =
      (bits * 64 + b.toNat % 64) * 64 ^ (due + 1) + 63 * 64 ^ due := by
    rw [Nat.add_mul, Nat.pow_succ, Nat.mul_assoc, Nat.mul_comm 64]
  have more : 64 ^ (due + 1) = 64 * 64 ^ due := by rw [Nat.pow_succ, Nat.mul_comm]
  simp only [Partial.least, Partial.greatest] at least apart greatest
  constructor <;> simp only [Partial.least, Partial.greatest, UInt8.reduceToNat, Nat.reduceMod] <;>
    omega

theorem lastSound {bits : Nat} {low high b : UInt8} (h : (Partial.mk 0 low high bits).Sound)
    (above : low ≤ b) (below : b ≤ high) :
    0x80 ≤ (Char.ofNat (bits * 64 + b.toNat % 64)).toNat := by
  obtain ⟨least, apart, greatest, lowest, highest⟩ := h
  rw [UInt8.le_iff_toNat_le] at above below
  simp only [Partial.least, Partial.greatest] at least apart greatest lowest highest
  have valid : (bits * 64 + b.toNat % 64).isValidChar := by
    unfold Nat.isValidChar
    omega
  have value : (Char.ofNat (bits * 64 + b.toNat % 64)).toNat = bits * 64 + b.toNat % 64 := by
    rw [Char.ofNat, dif_pos valid]
    rfl
  omega

def Known (bytes : Bytes) (c : Char) : Prop :=
  0x80 ≤ c.toNat ∨ ∃ b ∈ bytes, b < 0x80 ∧ c = Char.ofNat b.toNat

theorem Known.later {b : UInt8} {rest : Bytes} {c : Char} (h : Known rest c) : Known (b :: rest) c := by
  obtain high | ⟨b', member, low, same⟩ := h
  · exact .inl high
  · exact .inr ⟨b', List.mem_cons_of_mem _ member, low, same⟩

theorem startKnown {b : UInt8} {rest : Bytes} {c : Char} (h : c ∈ (start b).1) :
    Known (b :: rest) c := by
  unfold start at h
  split at h
  · rename_i low
    exact .inr ⟨b, List.mem_cons_self, low, by simpa using h⟩
  · split at h
    · simp at h
    · obtain rfl : c = replacement := by simpa using h
      exact .inl (by decide)

theorem startSound {b : UInt8} {p : Partial} (h : (start b).2 = some p) : p.Sound := by
  unfold start at h
  split at h
  · contradiction
  · split at h
    · rename_i found
      cases h
      exact leadSound found
    · contradiction

theorem charsKnown {p : Option Partial} {bytes : Bytes} (sound : ∀ q, p = some q → q.Sound)
    {c : Char} (h : c ∈ chars p bytes) : Known bytes c := by
  induction bytes generalizing p with
  | nil =>
    cases p with
    | none => simp [chars] at h
    | some q =>
      obtain rfl : c = replacement := by simpa [chars] using h
      exact .inl (by decide)
  | cons b rest ih =>
    cases p with
    | none =>
      simp only [chars, List.mem_append] at h
      obtain now | later := h
      · exact startKnown now
      · exact (ih (fun q begun => startSound begun) later).later
    | some q =>
      obtain ⟨due, low, high, bits⟩ := q
      have qSound := sound _ rfl
      simp only [chars] at h
      split at h
      · rename_i inside
        simp only [Bool.and_eq_true, decide_eq_true_eq] at inside
        cases due with
        | zero =>
          obtain rfl | later := List.mem_cons.mp h
          · exact .inl (lastSound qSound inside.1 inside.2)
          · exact (ih (by simp) later).later
        | succ due =>
          refine (ih ?_ h).later
          intro q same
          cases same
          exact nextSound qSound inside.1 inside.2
      · simp only [List.cons_append, List.mem_cons, List.mem_append] at h
        obtain ill | now | later := h
        · exact .inl (ill ▸ by decide)
        · exact startKnown now
        · exact (ih (fun q begun => startSound begun) later).later

theorem encodeCons (c : Char) (cs : List Char) :
    encode (String.ofList (c :: cs)) = String.utf8EncodeChar c ++ encode (String.ofList cs) := by
  simp [encode]

theorem encodePlain {c : Char} (h : c.toNat < 0x80) :
    String.utf8EncodeChar c = [UInt8.ofNat c.toNat] := by
  unfold String.utf8EncodeChar
  exact if_pos (Nat.le_of_lt_succ h)

theorem encodeHigh {c : Char} (h : 0x80 ≤ c.toNat) {b : UInt8} (member : b ∈ String.utf8EncodeChar c) :
    0x80 ≤ b := by
  have valid := charBounds c
  unfold Char.toNat at h valid
  unfold String.utf8EncodeChar at member
  dsimp only at member
  generalize c.val.toNat = v at h valid member
  rw [if_neg (by omega)] at member
  have high (n : Nat) (above : 0x80 ≤ n) (below : n < 256) : 0x80 ≤ UInt8.ofNat n := by
    rw [UInt8.le_iff_toNat_le, ofNatToNat below]
    exact above
  split at member
  · simp only [List.mem_cons, List.not_mem_nil, or_false] at member
    obtain rfl | rfl := member <;> exact high _ (by omega) (by omega)
  split at member
  · simp only [List.mem_cons, List.not_mem_nil, or_false] at member
    obtain rfl | rfl | rfl := member <;> exact high _ (by omega) (by omega)
  · simp only [List.mem_cons, List.not_mem_nil, or_false] at member
    obtain rfl | rfl | rfl | rfl := member <;> exact high _ (by omega) (by omega)

theorem plainChar {b : UInt8} (low : b < 0x80) : (Char.ofNat b.toNat).toNat = b.toNat := by
  have bound : b.toNat < 0x80 := UInt8.lt_iff_toNat_lt.mp low
  have valid : b.toNat.isValidChar := .inl (by omega)
  rw [Char.ofNat, dif_pos valid]
  rfl

theorem encodeDecodeMember {bytes : Bytes} {b : UInt8} (h : b ∈ encode (decode bytes)) :
    0x80 ≤ b ∨ b ∈ bytes := by
  simp only [encode, decode, String.toList_ofList, List.mem_flatMap] at h
  obtain ⟨c, read, member⟩ := h
  obtain high | ⟨b', there, low, rfl⟩ := charsKnown (p := none) (by simp) read
  · exact .inl (encodeHigh high member)
  · have same := plainChar low
    have bound : b'.toNat < 0x80 := UInt8.lt_iff_toNat_lt.mp low
    rw [encodePlain (by omega), same, UInt8.ofNat_toNat, List.mem_singleton] at member
    exact .inr (member ▸ there)

theorem encodeDecodePlain {b : UInt8} (low : b < 0x80) (rest : Bytes) :
    encode (decode (b :: rest)) = b :: encode (decode rest) := by
  have same := plainChar low
  have bound : b.toNat < 0x80 := UInt8.lt_iff_toNat_lt.mp low
  have read : chars none (b :: rest) = Char.ofNat b.toNat :: chars none rest := by
    simp [chars, start, low]
  rw [decode, read, encodeCons, encodePlain (by omega), same, UInt8.ofNat_toNat]
  rfl

theorem begunHead {p : Partial} (sound : p.Sound) (bytes : Bytes) :
    ∃ c cs, chars (some p) bytes = c :: cs ∧ 0x80 ≤ c.toNat := by
  induction bytes generalizing p with
  | nil => exact ⟨replacement, [], rfl, by decide⟩
  | cons b rest ih =>
    obtain ⟨due, low, high, bits⟩ := p
    simp only [chars]
    split
    · rename_i inside
      simp only [Bool.and_eq_true, decide_eq_true_eq] at inside
      cases due with
      | zero => exact ⟨_, _, rfl, lastSound sound inside.1 inside.2⟩
      | succ due => exact ih (nextSound sound inside.1 inside.2)
    · exact ⟨replacement, _, rfl, by decide⟩

theorem encodeDecodeHigh {b : UInt8} (high : ¬ b < 0x80) (rest : Bytes) :
    ∃ b' rest', encode (decode (b :: rest)) = b' :: rest' ∧ 0x80 ≤ b' := by
  have head : ∃ c cs, chars none (b :: rest) = c :: cs ∧ 0x80 ≤ c.toNat := by
    simp only [chars, start, if_neg high]
    cases found : lead? b with
    | none => exact ⟨replacement, _, rfl, by decide⟩
    | some p => exact begunHead (leadSound found) rest
  obtain ⟨c, cs, read, above⟩ := head
  rw [decode, read, encodeCons]
  cases octets : String.utf8EncodeChar c with
  | nil => exact absurd octets String.utf8EncodeChar_ne_nil
  | cons b' more => exact ⟨b', _, rfl, encodeHigh above (octets ▸ List.mem_cons_self)⟩

theorem encodeDecodeLow {bytes : Bytes} (low : ∀ b ∈ encode (decode bytes), b < 0x80) :
    encode (decode bytes) = bytes := by
  induction bytes with
  | nil => rfl
  | cons b rest ih =>
    by_cases plain : b < 0x80
    · rw [encodeDecodePlain plain] at low ⊢
      rw [ih fun c member => low c (List.mem_cons_of_mem _ member)]
    · obtain ⟨b', rest', octets, high⟩ := encodeDecodeHigh plain rest
      rw [octets] at low
      exact absurd (low b' List.mem_cons_self) (UInt8.not_lt.mpr high)

end PageContent.Utf8
