import PageContent.Operand.Written
import PageContent.Proofs.Decimal.Pointed
import PageContent.Proofs.Text.Utf8
import PageContent.Token.Lexeme

/-! The text of a scalar, up to a blank or a delimiter, is read as that scalar. Of a real
it is only said that it is read as a real. -/
namespace PageContent

theorem allOctets {p : UInt8 → Bool}
    (h : (List.range 256).all (fun n => p (UInt8.ofNat n)) = true) (b : UInt8) : p b = true := by
  have found := List.all_eq_true.mp h b.toNat (List.mem_range.mpr b.toNat_lt)
  rwa [UInt8.ofNat_toNat] at found

def Ended (tail : Bytes) : Prop := tail.head?.all Octet.endsWord = true

namespace Ended

theorem nil : Ended [] := rfl

theorem cons {b : UInt8} {rest : Bytes} (h : Octet.endsWord b = true) : Ended (b :: rest) := by
  simpa [Ended] using h

theorem head {b : UInt8} {rest : Bytes} (h : Ended (b :: rest)) : Octet.endsWord b = true := by
  simpa [Ended] using h

end Ended

namespace Lexeme

theorem endedAppend {bytes tail : Bytes} (h : Ended bytes) (ended : Ended tail) :
    Ended (bytes ++ tail) := by
  cases bytes with
  | nil => exact ended
  | cons b rest => exact h

theorem takeEnded {p : UInt8 → Bool} {word tail : Bytes} (h : ∀ b ∈ word, p b = true)
    (stops : ∀ b, Octet.endsWord b = true → p b = false) (ended : Ended tail) :
    (word ++ tail).takeWhile p = word ∧ (word ++ tail).dropWhile p = tail := by
  have none : tail.takeWhile p = [] ∧ tail.dropWhile p = tail := by
    cases tail with
    | nil => exact ⟨rfl, rfl⟩
    | cons b rest => simp [stops b ended.head]
  rw [List.takeWhile_append_of_pos h, List.dropWhile_append_of_pos h, none.1, none.2]
  simp

theorem hexPairRead (b : UInt8) :
    Octet.fromHex? (Octet.hexDigit (b >>> 4)) = some (b >>> 4) ∧
    Octet.fromHex? (Octet.hexDigit (b &&& 0x0f)) = some (b &&& 0x0f) ∧
    (b >>> 4) <<< 4 ||| (b &&& 0x0f) = b := by
  have each := allOctets (p := fun b =>
    Octet.fromHex? (Octet.hexDigit (b >>> 4)) == some (b >>> 4) &&
    Octet.fromHex? (Octet.hexDigit (b &&& 0x0f)) == some (b &&& 0x0f) &&
    ((b >>> 4) <<< 4 ||| (b &&& 0x0f)) == b) (by decide +kernel) b
  simpa [and_assoc] using each

theorem plainInName {b : UInt8} (h : Scalar.needsHash b = false) :
    Octet.endsWord b = false ∧ (b == Octet.hash) = false := by
  have each := allOctets (p := fun b =>
    Scalar.needsHash b || (Octet.endsWord b == false && (b == Octet.hash) == false))
    (by decide +kernel) b
  simpa [h] using each

theorem nameStop {tail : Bytes} (ended : Ended tail) : nameBody tail = ([], tail) := by
  cases tail with
  | nil => rfl
  | cons b rest =>
    unfold nameBody
    simp [ended.head]

theorem namePlain {b : UInt8} (goes : Octet.endsWord b = false) (other : (b == Octet.hash) = false)
    (rest : Bytes) : nameBody (b :: rest) = (b :: (nameBody rest).1, (nameBody rest).2) := by
  rw [nameBody.eq_def]
  simp [goes, other]

theorem nameRead (octets : Bytes) {tail : Bytes} (ended : Ended tail) :
    nameBody (octets.flatMap Scalar.nameOctet ++ tail) = (octets, tail) := by
  induction octets with
  | nil => exact nameStop ended
  | cons b rest ih =>
    rw [List.flatMap_cons, Scalar.nameOctet]
    cases hashed : Scalar.needsHash b with
    | true =>
      obtain ⟨high, low, whole⟩ := hexPairRead b
      simp [Octet.hexPair, nameBody, high, low, ih, whole]
      decide
    | false =>
      obtain ⟨goes, other⟩ := plainInName hashed
      simp only [Bool.false_eq_true, if_false, List.cons_append, List.nil_append]
      rw [namePlain goes other, ih]

theorem stringStep {mode mode' : Mode} {depth depth' : Nat} {b : UInt8} {out rest : Bytes}
    (h : move mode depth b = ⟨out, some (mode', depth')⟩) :
    stringBody mode depth (b :: rest) =
      (stringBody mode' depth' rest).map fun (string, left) => (out ++ string, left) := by
  simp only [stringBody, h]

theorem octalTripleRead (b : UInt8) : Octet.isOctal (Octet.zero + (b >>> 6)) = true ∧
    Octet.isOctal (Octet.zero + ((b >>> 3) &&& 7)) = true ∧
    Octet.isOctal (Octet.zero + (b &&& 7)) = true ∧
    octal [Octet.zero + (b >>> 6), Octet.zero + ((b >>> 3) &&& 7), Octet.zero + (b &&& 7)] = b := by
  have each := allOctets (p := fun b => Octet.isOctal (Octet.zero + (b >>> 6)) &&
    Octet.isOctal (Octet.zero + ((b >>> 3) &&& 7)) && Octet.isOctal (Octet.zero + (b &&& 7)) &&
    octal [Octet.zero + (b >>> 6), Octet.zero + ((b >>> 3) &&& 7), Octet.zero + (b &&& 7)] == b)
    (by decide +kernel) b
  simpa [and_assoc] using each

theorem stringOctetRead (b : UInt8) (rest : Bytes) :
    stringBody .plain 0 (Scalar.stringOctet b ++ rest) =
      (stringBody .plain 0 rest).map fun (string, left) => (b :: string, left) := by
  have escape {c d : UInt8} (h : move .escape 0 c = ⟨[d], some (.plain, 0)⟩) :
      stringBody .plain 0 (Octet.backslash :: c :: rest) =
        (stringBody .plain 0 rest).map fun (string, left) => (d :: string, left) := by
    have first : move .plain 0 Octet.backslash = ⟨[], some (.escape, 0)⟩ := rfl
    rw [stringStep first, stringStep h, Option.map_map]
    rfl
  unfold Scalar.stringOctet
  split
  · rename_i bracket
    simp only [Bool.or_eq_true, beq_iff_eq] at bracket
    obtain (rfl | rfl) | rfl := bracket <;> exact escape rfl
  split
  · rename_i same
    rw [beq_iff_eq] at same
    subst same
    exact escape rfl
  split
  · rename_i same
    rw [beq_iff_eq] at same
    subst same
    exact escape rfl
  split
  · rename_i same
    rw [beq_iff_eq] at same
    subst same
    exact escape rfl
  split
  · rename_i brackets _ _ _ _
    simp only [Bool.or_eq_true, not_or] at brackets
    have plain : move .plain 0 b = ⟨[b], some (.plain, 0)⟩ := by
      simp [move, plainMove, brackets]
    exact stringStep plain
  · obtain ⟨first, second, third, value⟩ := octalTripleRead b
    have start : move .plain 0 Octet.backslash = ⟨[], some (.escape, 0)⟩ := rfl
    have one : move .escape 0 (Octet.zero + (b >>> 6)) =
        ⟨[], some (.digits [Octet.zero + (b >>> 6)], 0)⟩ := by simp [move, first]
    have two : move (.digits [Octet.zero + (b >>> 6)]) 0 (Octet.zero + ((b >>> 3) &&& 7)) =
        ⟨[], some (.digits [Octet.zero + (b >>> 6), Octet.zero + ((b >>> 3) &&& 7)], 0)⟩ := by
      simp [move, second]
    have three : move (.digits [Octet.zero + (b >>> 6), Octet.zero + ((b >>> 3) &&& 7)]) 0
        (Octet.zero + (b &&& 7)) = ⟨[b], some (.plain, 0)⟩ := by simp [move, third, value]
    simp only [Octet.octalTriple, List.cons_append, List.nil_append]
    rw [stringStep start, stringStep one, stringStep two, stringStep three, Option.map_map,
      Option.map_map, Option.map_map]
    rfl

theorem stringRead (octets tail : Bytes) :
    stringBody .plain 0 (octets.flatMap Scalar.stringOctet ++ Octet.parenClose :: tail) =
      some (octets, tail) := by
  induction octets with
  | nil => rfl
  | cons b rest ih =>
    rw [List.flatMap_cons, List.append_assoc, stringOctetRead, ih]
    rfl

theorem asciiAppend (cs ds : List Char) : ascii (cs ++ ds) = ascii cs ++ ascii ds :=
  List.map_append

theorem digitOctet {c : Char} (h : c.isDigit = true) :
    Octet.isDigit c.toUInt8 = true ∧ Octet.digitValue c.toUInt8 = c.toNat - '0'.toNat := by
  simp only [Char.isDigit, Bool.and_eq_true, decide_eq_true_eq] at h
  obtain ⟨above, below⟩ := h
  have above' : 48 ≤ c.toNat := UInt32.le_iff_toNat_le.mp above
  have below' : c.toNat ≤ 57 := UInt32.le_iff_toNat_le.mp below
  have same : c.toUInt8.toNat = c.toNat := by
    change c.toNat % 256 = c.toNat
    exact Nat.mod_eq_of_lt (by omega)
  constructor
  · simp only [Octet.isDigit, Bool.and_eq_true, decide_eq_true_eq, UInt8.le_iff_toNat_le, same]
    exact ⟨above', below'⟩
  · rw [Octet.digitValue, same]
    rfl

theorem digitsOctets {cs : List Char} (h : ∀ c ∈ cs, c.isDigit = true) :
    ∀ b ∈ ascii cs, Octet.isDigit b = true := by
  intro b member
  obtain ⟨c, there, rfl⟩ := List.mem_map.mp member
  exact (digitOctet (h c there)).1

theorem digitGoes {b : UInt8} (h : Octet.endsWord b = true) : Octet.isDigit b = false := by
  have each := allOctets (p := fun b => !Octet.endsWord b || !Octet.isDigit b) (by decide +kernel) b
  simpa [h] using each

def decimal (ds : Bytes) : Nat := ds.foldl (fun n d => n * 10 + Octet.digitValue d) 0

theorem clampedDecimal (ds : Bytes) : clamped ds = min (decimal ds) largest := by
  have capped (n : Nat) : ds.foldl (fun n d => min (n * 10 + Octet.digitValue d) largest)
      (min n largest) = min (ds.foldl (fun n d => n * 10 + Octet.digitValue d) n) largest := by
    induction ds generalizing n with
    | nil => rfl
    | cons d rest ih =>
      have step : min (min n largest * 10 + Octet.digitValue d) largest =
          min (n * 10 + Octet.digitValue d) largest := by
        simp only [largest]
        omega
      rw [List.foldl_cons, step, ih, List.foldl_cons]
  exact capped 0

theorem decimalDigits (n : Nat) : decimal (ascii (Nat.toDigits 10 n)) = n := by
  have digits (cs : List Char) (h : ∀ c ∈ cs, c.isDigit = true) (n : Nat) :
      (ascii cs).foldl (fun n d => n * 10 + Octet.digitValue d) n =
        Nat.ofDigitChars 10 cs n := by
    induction cs generalizing n with
    | nil => rfl
    | cons c rest ih =>
      rw [Nat.ofDigitChars_cons, ← ih fun c member => h c (List.mem_cons_of_mem _ member)]
      simp only [ascii, List.map_cons, List.foldl_cons, (digitOctet (h c List.mem_cons_self)).2,
        Nat.mul_comm n 10]
  have value := digits (Nat.toDigits 10 n)
    (fun c member => Nat.isDigit_of_mem_toDigits (by decide) (by decide) member) 0
  rwa [Nat.ofDigitChars_ten_toDigits] at value

theorem clampedDigits {n : Nat} (h : n ≤ largest) : clamped (ascii (Nat.toDigits 10 n)) = n := by
  rw [clampedDecimal, decimalDigits, Nat.min_eq_left h]

theorem signMinus (rest : Bytes) : sign (Octet.minus :: rest) = (true, rest) := rfl

theorem signDigits {ds : Bytes} (some : ds ≠ []) (h : ∀ d ∈ ds, Octet.isDigit d = true)
    (tail : Bytes) : sign (ds ++ tail) = (false, ds ++ tail) := by
  cases ds with
  | nil => exact absurd rfl some
  | cons d rest =>
    have each := allOctets (p := fun b => !Octet.isDigit b ||
      (b == Octet.minus) == false && (b == Octet.plus) == false) (by decide +kernel) d
    simp only [h d List.mem_cons_self, Bool.not_true, Bool.false_or, Bool.and_eq_true,
      beq_iff_eq] at each
    simp [sign, each]

theorem intNumber {negative : Bool} {input whole tail : Bytes}
    (signed : sign input = (negative, whole ++ tail)) (some : whole ≠ [])
    (digits : ∀ b ∈ whole, Octet.isDigit b = true) (ended : Ended tail) :
    number input = (.ok (.value (.int (intValue negative whole))), tail) := by
  obtain ⟨taken, left⟩ := takeEnded digits (fun _ => digitGoes) ended
  have whole' : whole.isEmpty = false := by simpa using some
  simp only [number, signed, taken, left, whole']
  cases tail with
  | nil => rfl
  | cons b rest =>
    have each := allOctets (p := fun b => !Octet.endsWord b || (b == Octet.dot) == false)
      (by decide +kernel) b
    simp only [ended.head, Bool.not_true, Bool.false_or, beq_iff_eq] at each
    simp [each]

theorem realNumber {negative : Bool} {input whole places tail : Bytes}
    (signed : sign input = (negative, whole ++ Octet.dot :: (places ++ tail))) (some : whole ≠ [])
    (digits : ∀ b ∈ whole, Octet.isDigit b = true)
    (after : ∀ b ∈ places, Octet.isDigit b = true) (ended : Ended tail) :
    number input = (.ok (.value (.real (realValue negative whole places))), tail) := by
  obtain ⟨taken, left⟩ := takeEnded after (fun _ => digitGoes) ended
  have whole' : whole.isEmpty = false := by simpa using some
  have point : Octet.isDigit Octet.dot = false := rfl
  simp only [number, signed]
  rw [List.takeWhile_append_of_pos digits, List.dropWhile_append_of_pos digits,
    List.dropWhile_cons_of_neg (by simp [point]), List.takeWhile_cons_of_neg (by simp [point])]
  simp [taken, left, whole']

theorem digitsRead {n : Nat} (h : n ≤ largest) {tail : Bytes} (ended : Ended tail) :
    number (ascii (Nat.toDigits 10 n) ++ tail) =
      (.ok (.value (.int (Int64.ofInt n))), tail) := by
  have digits : ∀ c ∈ Nat.toDigits 10 n, c.isDigit = true :=
    fun c member => Nat.isDigit_of_mem_toDigits (by decide) (by decide) member
  have some : ascii (Nat.toDigits 10 n) ≠ [] := by simp [ascii]
  rw [intNumber (signDigits some (digitsOctets digits) tail) some (digitsOctets digits) ended,
    intValue, clampedDigits h]
  rfl

theorem intRead {n : Int64} (h : n ≠ Int64.minValue) {tail : Bytes} (ended : Ended tail) :
    number (ascii (Scalar.intText n.toInt) ++ tail) = (.ok (.value (.int n)), tail) := by
  have least := n.le_toInt
  have greatest := n.toInt_lt
  have other : n.toInt ≠ -2 ^ 63 := fun same => h (Int64.toInt_inj.mp same)
  have bound : n.toInt.natAbs ≤ largest := by
    simp only [largest]
    omega
  have digits : ∀ c ∈ Nat.toDigits 10 n.toInt.natAbs, c.isDigit = true :=
    fun c member => Nat.isDigit_of_mem_toDigits (by decide) (by decide) member
  by_cases negative : n.toInt < 0
  · have text : Scalar.intText n.toInt = '-' :: Nat.toDigits 10 n.toInt.natAbs := by
      simp [Scalar.intText, negative]
    have signed : sign (ascii (Scalar.intText n.toInt) ++ tail) =
        (true, ascii (Nat.toDigits 10 n.toInt.natAbs) ++ tail) := by
      rw [text]
      exact signMinus _
    have value : -(n.toInt.natAbs : Int) = n.toInt := by omega
    rw [intNumber signed (by simp [ascii]) (digitsOctets digits) ended, intValue,
      clampedDigits bound]
    simp only [if_pos, value, Int64.ofInt_toInt]
  · have text : Scalar.intText n.toInt = Nat.toDigits 10 n.toInt.natAbs := by
      simp [Scalar.intText, negative]
    have value : (n.toInt.natAbs : Int) = n.toInt := by omega
    rw [text, digitsRead bound ended, value, Int64.ofInt_toInt]

def readReal (x : Float) : Float :=
  match number (ascii (Scalar.realText x)) with
  | (.ok (.value (.real y)), _) => y
  | _ => x

theorem realRead (x : Float) {tail : Bytes} (ended : Ended tail) :
    number (ascii (Scalar.realText x) ++ tail) = (.ok (.value (.real (readReal x))), tail) := by
  obtain ⟨negative, whole, places, text, pointed⟩ := Decimal.realTextPointed x
  have some : ascii whole ≠ [] := by simpa [ascii] using pointed.before
  have signed (tail : Bytes) : sign (ascii (Scalar.realText x) ++ tail) =
      (negative, ascii whole ++ Octet.dot :: (ascii places ++ tail)) := by
    have apart : ascii (whole ++ '.' :: places) ++ tail =
        ascii whole ++ Octet.dot :: (ascii places ++ tail) := by
      simp [ascii]
      rfl
    rw [text]
    cases negative with
    | true =>
      rw [← apart]
      exact signMinus _
    | false =>
      have plain := signDigits some (digitsOctets pointed.wholeDigits)
        (Octet.dot :: (ascii places ++ tail))
      rw [← apart] at plain ⊢
      exact plain
  have read (tail : Bytes) (ended : Ended tail) := realNumber (signed tail) some
    (digitsOctets pointed.wholeDigits) (digitsOctets pointed.placesDigits) ended
  have alone := read [] .nil
  rw [List.append_nil] at alone
  rw [read tail ended, readReal, alone]

structure Word (b : UInt8) (rest : Bytes) : Prop where
  starts : Octet.endsWord b = false
  wordy : Octet.isDigit b = false
  goesOn : ∀ c ∈ rest, Octet.endsWord c = false
  signed : b = Octet.plus ∨ b = Octet.minus →
    ∀ c, rest.head? = some c → Octet.isDigit c = false ∧ c ≠ Octet.dot
  pointed : b = Octet.dot → ∀ c, rest.head? = some c → Octet.isDigit c = false

theorem startsExact (b : UInt8) : Octet.endsWord b = false ↔ Octet.isBlank b = false ∧
    b ≠ Octet.percent ∧ b ≠ Octet.slash ∧ b ≠ Octet.parenOpen ∧ b ≠ Octet.less ∧
    b ≠ Octet.greater ∧ b ≠ Octet.bracketOpen ∧ b ≠ Octet.bracketClose ∧ b ≠ Octet.braceOpen ∧
    b ≠ Octet.braceClose ∧ b ≠ Octet.parenClose := by
  simp only [Octet.endsWord, Octet.isDelimiter, Bool.or_eq_false_iff, beq_eq_false_iff_ne]
  grind

theorem wordLexeme {b : UInt8} {rest : Bytes} (h : Word b rest) {tail : Bytes} (ended : Ended tail) :
    lexeme b (rest ++ tail) = (.ok (.ofWord (Utf8.decode (b :: rest))), tail) := by
  obtain ⟨taken, left⟩ := takeEnded (p := (!Octet.endsWord ·))
    (fun c member => by simp [h.goesOn c member]) (fun c ends => by simp [ends]) ended
  have read : word b (rest ++ tail) = (.ok (.ofWord (Utf8.decode (b :: rest))), tail) := by
    rw [word, taken, left]
  obtain ⟨-, -, h1, h2, h3, h4, h5, h6, h7, h8, h9⟩ := (startsExact b).mp h.starts
  have next : ∀ c, (rest ++ tail).head? = some c →
      rest.head? = some c ∨ Octet.isDigit c = false ∧ c ≠ Octet.dot := by
    intro c first
    cases rest with
    | cons d more => exact .inl first
    | nil =>
      cases tail with
      | nil => simp at first
      | cons d more =>
        cases first
        refine .inr ⟨digitGoes ended.head, ?_⟩
        intro point
        have ends := ended.head
        rw [point] at ends
        exact absurd ends (by decide)
  rw [← read]
  unfold lexeme
  simp only [beq_iff_eq, h1, h2, h3, h4, h5, h6, h7, h8, h9, if_false, h.wordy, Bool.or_eq_true]
  split
  · rename_i sign
    split
    · rename_i empty
      rw [empty]
    · rename_i c more found
      have none := next c (by rw [found]; rfl)
      rw [if_neg, found]
      obtain here | other := none
      · have := h.signed sign c here
        simp [this]
      · simp [other]
  split
  · rename_i point
    split
    · rename_i empty
      rw [empty]
    · rename_i c more found
      have none := next c (by rw [found]; rfl)
      rw [if_neg, found]
      obtain here | other := none
      · simp [h.pointed point c here]
      · simp [other]
  · simp

theorem highGoes {b : UInt8} (h : 0x80 ≤ b) : Octet.endsWord b = false ∧ Octet.isDigit b = false ∧
    b ≠ Octet.plus ∧ b ≠ Octet.minus ∧ b ≠ Octet.dot := by
  have each := allOctets (p := fun b => !decide (0x80 ≤ b) || (Octet.endsWord b == false &&
    Octet.isDigit b == false && b != Octet.plus && b != Octet.minus && b != Octet.dot))
    (by decide +kernel) b
  simpa [h, and_assoc] using each

theorem rewrittenGoes {word : Bytes} (h : ∀ c ∈ word, Octet.endsWord c = false) {c : UInt8}
    (member : c ∈ Utf8.encode (Utf8.decode word)) : Octet.endsWord c = false := by
  obtain high | there := Utf8.encodeDecodeMember member
  · exact (highGoes high).1
  · exact h c there

theorem rewrittenHead {word : Bytes} {c : UInt8}
    (first : (Utf8.encode (Utf8.decode word)).head? = some c) : word.head? = some c ∨ 0x80 ≤ c := by
  cases word with
  | nil => simp [Utf8.encode, Utf8.decode, Utf8.chars] at first
  | cons b rest =>
    by_cases low : b < 0x80
    · rw [Utf8.encodeDecodePlain low] at first
      exact .inl first
    · obtain ⟨b', rest', octets, high⟩ := Utf8.encodeDecodeHigh low rest
      rw [octets] at first
      cases first
      exact .inr high

theorem Word.rewritten {b : UInt8} {rest : Bytes} (h : Word b rest) : ∃ b' rest',
    Utf8.encode (Utf8.decode (b :: rest)) = b' :: rest' ∧ Word b' rest' := by
  by_cases low : b < 0x80
  · refine ⟨b, _, Utf8.encodeDecodePlain low rest, h.starts, h.wordy, ?_, ?_, ?_⟩
    · exact fun c member => rewrittenGoes h.goesOn member
    · intro sign c first
      obtain here | high := rewrittenHead first
      · exact h.signed sign c here
      · obtain ⟨-, digit, -, -, point⟩ := highGoes high
        exact ⟨digit, point⟩
    · intro point c first
      obtain here | high := rewrittenHead first
      · exact h.pointed point c here
      · exact (highGoes high).2.1
  · obtain ⟨b', rest', octets, high⟩ := Utf8.encodeDecodeHigh low rest
    obtain ⟨starts, wordy, plus, minus, dot⟩ := highGoes high
    refine ⟨b', rest', octets, starts, wordy, ?_, ?_, fun point => absurd point dot⟩
    · intro c member
      refine @rewrittenGoes (b :: rest) ?_ c (octets ▸ List.mem_cons_of_mem _ member)
      intro c there
      obtain rfl | later := List.mem_cons.mp there
      · exact h.starts
      · exact h.goesOn c later
    · intro sign
      obtain same | same := sign
      · exact absurd same plus
      · exact absurd same minus

def Spoken (name : String) : Prop :=
  ∃ b rest, Utf8.encode name = b :: rest ∧ Word b rest ∧ Token.ofWord name = .keyword name

theorem wordKeyword {word name : String} (read : Token.ofWord word = .keyword name) :
    word = name := by
  simp only [Token.ofWord] at read
  split at read
  · contradiction
  split at read
  · contradiction
  split at read
  · contradiction
  · exact Token.keyword.inj read

theorem Word.spoken {b : UInt8} {rest : Bytes} (h : Word b rest)
    {name : String} (read : Token.ofWord (Utf8.decode (b :: rest)) = .keyword name) :
    Spoken name := by
  have same := wordKeyword read
  obtain ⟨b', rest', octets, word⟩ := h.rewritten
  exact ⟨b', rest', same ▸ octets, word, same ▸ read⟩

end Lexeme

end PageContent
