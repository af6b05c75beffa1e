import PageContent.Proofs.Token.Shorter
import PageContent.Proofs.Token.Spelled

/-! What is read off some octets stays what is read when more octets come after them, if
these begin where any word would end. -/
namespace PageContent

namespace Lexeme
variable {tail : Bytes}

theorem takeFollowed {p : UInt8 → Bool} (stops : ∀ b, Octet.endsWord b = true → p b = false)
    (ended : Ended tail) (bytes : Bytes) :
    (bytes ++ tail).takeWhile p = bytes.takeWhile p ∧
      (bytes ++ tail).dropWhile p = bytes.dropWhile p ++ tail := by
  induction bytes with
  | nil => exact @takeEnded p [] tail (by simp) stops ended
  | cons b rest ih =>
    cases goes : p b with
    | true => simp [goes, ih]
    | false => simp [goes]

theorem hexStops {b : UInt8} (h : Octet.endsWord b = true) : Octet.fromHex? b = none := by
  have each := allOctets (p := fun b => !Octet.endsWord b || (Octet.fromHex? b).isNone)
    (by decide +kernel) b
  simpa [h] using each

theorem nameFollowed (ended : Ended tail) (bytes : Bytes) :
    nameBody (bytes ++ tail) = ((nameBody bytes).1, (nameBody bytes).2 ++ tail) := by
  fun_induction nameBody bytes with
  | case1 => exact nameStop ended
  | case2 b rest ends => simp [nameBody.eq_def, ends]
  | case3 b goes hash c d after high low readLow readHigh name left found ih =>
    rw [found] at ih
    rw [nameBody.eq_def]
    simp [goes, hash, readHigh, readLow, ih]
  | case4 b goes hash c d after cut ih =>
    rw [← ih, nameBody.eq_def]
    simp only [goes, hash, List.cons_append, if_true, if_false, Bool.false_eq_true]
  | case5 b goes hash c ih =>
    rw [← ih, nameBody.eq_def]
    simp only [goes, hash, List.cons_append, List.nil_append, if_true, if_false, Bool.false_eq_true]
    cases tail with
    | nil => rfl
    | cons d more => simp [hexStops ended.head]
  | case6 b goes hash =>
    rw [nameBody.eq_def]
    simp only [goes, hash, List.cons_append, List.nil_append, if_true, if_false, Bool.false_eq_true]
    cases tail with
    | nil => rfl
    | cons c more =>
      cases more with
      | nil => exact nameStop ended
      | cons d more => simp [hexStops ended.head, nameStop ended]
  | case7 b rest goes plain name left found ih =>
    rw [found] at ih
    rw [List.cons_append, namePlain (by simpa using goes) (by simpa using plain), ih]

theorem stringFollowed {mode : Mode} {depth : Nat} {bytes string left : Bytes}
    (ok : stringBody mode depth bytes = some (string, left)) (tail : Bytes) :
    stringBody mode depth (bytes ++ tail) = some (string, left ++ tail) := by
  induction bytes generalizing mode depth string left with
  | nil => simp [stringBody] at ok
  | cons b rest ih =>
    simp only [stringBody, List.cons_append] at ok ⊢
    split at ok
    · cases ok
      rfl
    · obtain ⟨⟨more, left'⟩, later, same⟩ := Option.map_eq_some_iff.mp ok
      cases same
      rw [ih later]
      rfl

theorem hexFollowed {high : Option UInt8} {bytes string left : Bytes}
    (ok : hexBody high bytes = (.ok string, left)) (tail : Bytes) :
    hexBody high (bytes ++ tail) = (.ok string, left ++ tail) := by
  fun_induction hexBody high bytes generalizing string left with
  | case1 => simp at ok
  | case2 high b rest closes =>
    cases ok
    simp [hexBody, closes]
  | case3 b rest inside low readLow high more left' found ih =>
    obtain ⟨value, rfl⟩ : ∃ value, more = .ok value := by
      cases more with
      | ok value => exact ⟨value, rfl⟩
      | error flaw => simp [Except.map] at ok
    cases ok
    simp [hexBody, inside, readLow, ih found, Except.map]
  | case4 b rest inside high readHigh ih => simp [hexBody, inside, readHigh, ih ok]
  | case5 high b rest inside none blank ih => simp [hexBody, inside, none, blank, ih ok]
  | case6 => simp at ok

theorem signFollowed (b : UInt8) (rest tail : Bytes) :
    sign (b :: rest ++ tail) = ((sign (b :: rest)).1, (sign (b :: rest)).2 ++ tail) := by
  simp only [sign, List.cons_append]
  split
  · rfl
  · split <;> rfl

theorem pointGoes {b : UInt8} (h : Octet.endsWord b = true) : (b == Octet.dot) = false := by
  have each := allOctets (p := fun b => !Octet.endsWord b || (b == Octet.dot) == false)
    (by decide +kernel) b
  simpa only [h, Bool.not_true, Bool.false_or, beq_iff_eq] using each

theorem numberFollowed (ended : Ended tail) {b : UInt8} {rest left : Bytes} {token}
    (found : number (b :: rest) = (token, left)) :
    number (b :: (rest ++ tail)) = (token, left ++ tail) := by
  suffices same : number (b :: rest ++ tail) =
      ((number (b :: rest)).1, (number (b :: rest)).2 ++ tail) by
    rw [found] at same
    exact same
  simp only [number, signFollowed]
  obtain ⟨taken, left⟩ := takeFollowed (fun _ => digitGoes) ended (sign (b :: rest)).2
  rw [taken, left]
  cases (sign (b :: rest)).2.dropWhile Octet.isDigit with
  | nil =>
    cases tail with
    | nil => rfl
    | cons c more => simp [pointGoes ended.head]
  | cons c more =>
    simp only [List.cons_append]
    split
    · obtain ⟨taken, left⟩ := takeFollowed (fun _ => digitGoes) ended more
      rw [taken, left]
    · rfl

theorem wordFollowed (ended : Ended tail) {b : UInt8} {rest left : Bytes} {token}
    (found : word b rest = (token, left)) : word b (rest ++ tail) = (token, left ++ tail) := by
  obtain ⟨taken, dropped⟩ := takeFollowed (p := (!Octet.endsWord ·)) (fun c ends => by simp [ends])
    ended rest
  cases found
  simp only [word, taken, dropped]

theorem hexStringFollowed {bytes left : Bytes} {token : Token}
    (ok : hexString bytes = (.ok token, left)) (tail : Bytes) :
    hexString (bytes ++ tail) = (.ok token, left ++ tail) := by
  rcases found : hexBody none bytes with ⟨_ | string, left'⟩
  · simp [hexString, found, Except.map] at ok
  · have again := hexFollowed found tail
    simp only [hexString, found] at ok
    cases ok
    simp [hexString, again, Except.map]

theorem lexemeFollowed (ended : Ended tail) {b : UInt8} {rest left : Bytes} {token : Token}
    (ok : lexeme b rest = (.ok token, left)) :
    lexeme b (rest ++ tail) = (.ok token, left ++ tail) := by
  revert ok
  fun_cases lexeme b rest
  case case1 found =>
    rintro ⟨⟩
    have more := nameFollowed ended rest
    simp only [found] at more
    simp only [lexeme, *, if_true]
  case case2 found =>
    rintro ⟨⟩
    have more := stringFollowed found tail
    simp only [lexeme, *, if_true, if_false, Bool.false_eq_true]
  case case4 => simp [hexString, hexBody, Except.map]
  case case6 =>
    intro ok
    have more := hexStringFollowed ok tail
    simp only [lexeme, *, List.cons_append, if_true, if_false, Bool.false_eq_true] at more ⊢
  case case3 | case7 | case9 | case14 => simp
  case case5 | case8 | case10 | case11 | case12 | case13 =>
    rintro ⟨⟩
    simp only [lexeme, *, List.cons_append, if_true, if_false, Bool.false_eq_true]
  case case15 | case18 =>
    intro ok
    have more := wordFollowed ended ok
    cases tail with
    | nil => simp only [lexeme, *, List.append_nil, if_true, if_false, Bool.false_eq_true] at more ⊢
    | cons c rest =>
      simp only [lexeme, *, List.nil_append, digitGoes ended.head, pointGoes ended.head, if_true,
        if_false, Bool.false_eq_true, Bool.or_false] at more ⊢
  case case16 | case19 =>
    intro ok
    have more := numberFollowed ended ok
    simp only [lexeme, *, List.cons_append, if_true, if_false, Bool.false_eq_true] at more ⊢
  case case17 | case20 =>
    intro ok
    have more := wordFollowed ended ok
    simp only [lexeme, *, List.cons_append, if_true, if_false, Bool.false_eq_true] at more ⊢
  case case21 =>
    intro ok
    have more := numberFollowed ended ok
    simp only [lexeme, *, if_true, if_false, Bool.false_eq_true] at more ⊢
  case case22 =>
    intro ok
    have more := wordFollowed ended ok
    simp only [lexeme, *, if_false, Bool.false_eq_true] at more ⊢

theorem skipFollowed {inComment : Bool} {bytes left : Bytes} {b : UInt8}
    (found : skipBlanks inComment bytes = b :: left) (tail : Bytes) :
    skipBlanks inComment (bytes ++ tail) = b :: (left ++ tail) := by
  fun_induction skipBlanks inComment bytes with
  | case1 => contradiction
  | case2 c rest ih => simp [skipBlanks, ← ih found]
  | case3 inComment c rest comment starts ih => simp [skipBlanks, comment, starts, ← ih found]
  | case4 inComment c rest comment other blank ih =>
    simp [skipBlanks, comment, other, blank, ← ih found]
  | case5 inComment c rest comment other solid =>
    cases found
    simp [skipBlanks, comment, other, solid]

theorem skipOver {inComment : Bool} {bytes : Bytes} (all : skipBlanks inComment bytes = [])
    (rest : Bytes) :
    skipBlanks inComment (bytes ++ Octet.lineFeed :: rest) = skipBlanks false rest := by
  fun_induction skipBlanks inComment bytes with
  | case1 inComment => cases inComment <;> rfl
  | case2 c rest ih => simp [skipBlanks, ← ih all]
  | case3 inComment c rest comment starts ih => simp [skipBlanks, comment, starts, ← ih all]
  | case4 inComment c rest comment other blank ih =>
    simp [skipBlanks, comment, other, blank, ← ih all]
  | case5 => contradiction

def Marked (marker : Bytes) (alone : Bool) (before : Option UInt8) (input : Bytes) : Prop :=
  input = (upTo marker alone before input).1 ++ (marker ++ (upTo marker alone before input).2)

theorem markedOrAll (marker : Bytes) (alone : Bool) (before : Option UInt8) (input : Bytes) :
    (Marked marker alone before input ∧ Ended (upTo marker alone before input).2) ∨
    upTo marker alone before input = (input, []) := by
  induction input generalizing before with
  | nil => exact .inr rfl
  | cons b rest ih =>
    simp only [Marked, upTo]
    split
    · rename_i here
      simp only [Bool.and_eq_true] at here
      obtain ⟨after, whole⟩ := List.isPrefixOf_iff_prefix.mp here.1.1
      refine .inl ⟨?_, here.2⟩
      rw [← whole, List.drop_left, List.nil_append]
    · obtain ⟨marked, ended⟩ | all := ih (some b)
      · exact .inl ⟨congrArg (b :: ·) marked, ended⟩
      · exact .inr (by rw [all])

theorem prefixFollowed {marker input : Bytes} (fits : marker.length ≤ input.length) (tail : Bytes) :
    marker.isPrefixOf (input ++ tail) = marker.isPrefixOf input := by
  rw [Bool.eq_iff_iff, List.isPrefixOf_iff_prefix, List.isPrefixOf_iff_prefix]
  constructor
  · intro marks
    exact List.prefix_of_prefix_length_le marks (List.prefix_append input tail) fits
  · intro marks
    exact marks.trans (List.prefix_append input tail)

theorem endsFollowed (ended : Ended tail) (bytes : Bytes) :
    (bytes ++ tail).head?.all Octet.endsWord = bytes.head?.all Octet.endsWord := by
  cases bytes with
  | nil => exact ended
  | cons b rest => rfl

theorem upToFollowed (ended : Ended tail) {marker : Bytes} (some : marker ≠ []) {alone : Bool}
    {before : Option UInt8} {input : Bytes} (marked : Marked marker alone before input) :
    upTo marker alone before (input ++ tail) =
      ((upTo marker alone before input).1, (upTo marker alone before input).2 ++ tail) := by
  induction input generalizing before with
  | nil => simp [Marked, upTo, some] at marked
  | cons b rest ih =>
    have fits : marker.length ≤ (b :: rest).length := by
      rw [marked]
      simp only [List.length_append]
      omega
    have marks := prefixFollowed fits tail
    have after := @List.drop_append_of_le_length _ _ tail _ fits
    have ends := endsFollowed ended ((b :: rest).drop marker.length)
    rw [List.cons_append] at marks after
    simp only [Marked, upTo] at marked
    simp only [List.cons_append, upTo, marks, after, ends]
    split
    · rfl
    · rename_i other
      rw [if_neg other] at marked
      rw [ih (List.cons.inj marked).2]

def dropFirstBlank : Bytes → Bytes
  | [] => []
  | b :: rest => if Octet.isBlank b then rest else b :: rest

theorem rawDataExact (marker : Bytes) (alone : Bool) (input : Bytes) :
    rawData marker alone input =
      (dropLastBlank (upTo marker alone none (dropFirstBlank input)).1,
        (upTo marker alone none (dropFirstBlank input)).2) := by
  cases input <;> rfl

theorem rawDataFollowed (ended : Ended tail) {marker : Bytes} (some : marker ≠ []) {alone : Bool}
    {input : Bytes} (marked : Marked marker alone none (dropFirstBlank input)) :
    rawData marker alone (input ++ tail) =
      ((rawData marker alone input).1, (rawData marker alone input).2 ++ tail) := by
  have first : dropFirstBlank (input ++ tail) = dropFirstBlank input ++ tail := by
    cases input with
    | nil => simp [Marked, upTo, dropFirstBlank, some] at marked
    | cons b rest =>
      simp only [dropFirstBlank, List.cons_append]
      split <;> rfl
  simp only [rawDataExact, first, upToFollowed ended some marked]

end Lexeme
end PageContent
