import PageContent.Proofs.Operand.Reread
import PageContent.Proofs.Token.Shorter

/-! Reading items without counting steps, and what is read from the text of an operand. -/
namespace PageContent

namespace Lexer

def Shows (bytes : Bytes) (token : Token) (left : Bytes) : Prop :=
  ∃ b rest, Lexeme.skipBlanks false bytes = b :: rest ∧ Lexeme.lexeme b rest = (.ok token, left)

theorem Shows.next {bytes left : Bytes} {token : Token} (h : Shows bytes token left)
    (data : Bytes) : ∃ pos, (Lexer.mk data bytes).next = (some (.ok (pos, token)), ⟨data, left⟩) := by
  obtain ⟨b, rest, found, read⟩ := h
  refine ⟨(Lexer.mk data (b :: rest)).position, ?_⟩
  simp only [Lexer.next, found, read]

theorem showsFirst {b : UInt8} {rest left : Bytes} {token : Token}
    (blank : Octet.isBlank b = false) (comment : (b == Octet.percent) = false)
    (read : Lexeme.lexeme b rest = (.ok token, left)) : Shows (b :: rest) token left :=
  ⟨b, rest, by simp [Lexeme.skipBlanks, blank, comment], read⟩

theorem showsKeyword {name : String} (h : Lexeme.Spoken name) {tail : Bytes} (ended : Ended tail) :
    Shows (Utf8.encode name ++ tail) (.keyword name) tail := by
  obtain ⟨b, rest, octets, word, read⟩ := h
  obtain ⟨blank, comment, -⟩ := (Lexeme.startsExact b).mp word.starts
  have back : Utf8.decode (b :: rest) = name := by rw [← octets, Utf8.decodeEncode]
  rw [octets, List.cons_append]
  refine showsFirst blank (by simpa using comment) ?_
  rw [Lexeme.wordLexeme word ended, back, read]

theorem showsName (name : String) {tail : Bytes} (ended : Ended tail) :
    Shows (Scalar.nameText name ++ tail) (.value (.name name)) tail := by
  refine showsFirst rfl rfl ?_
  simp [Lexeme.lexeme, Lexeme.nameRead _ ended, Utf8.decodeEncode]

theorem showsNumber {b : UInt8} {rest left : Bytes} {token : Token}
    (read : Lexeme.number (b :: rest) = (.ok token, left))
    (starts : Octet.isDigit b = true ∨ (b = Octet.minus ∨ b = Octet.plus) ∧
      ∃ c more, rest = c :: more ∧ Octet.isDigit c = true) :
    Shows (b :: rest) token left := by
  obtain digit | ⟨rfl | rfl, c, more, rfl, digit⟩ := starts
  · have each := allOctets (p := fun b => !Octet.isDigit b || (Octet.isBlank b == false &&
      (b == Octet.percent) == false && (b == Octet.slash) == false &&
      (b == Octet.parenOpen) == false && (b == Octet.less) == false &&
      (b == Octet.greater) == false && (b == Octet.bracketOpen) == false &&
      (b == Octet.bracketClose) == false && (b == Octet.braceOpen) == false &&
      (b == Octet.braceClose) == false && (b == Octet.parenClose) == false &&
      (b == Octet.plus) == false && (b == Octet.minus) == false && (b == Octet.dot) == false))
      (by decide +kernel) b
    simp only [digit, Bool.not_true, Bool.false_or, Bool.and_eq_true, beq_iff_eq, and_assoc] at each
    obtain ⟨blank, comment, others⟩ := each
    refine showsFirst blank comment ?_
    simp [Lexeme.lexeme, others, digit, read]
  all_goals
    refine showsFirst rfl rfl ?_
    rw [← read]
    simp [Lexeme.lexeme, digit]
    rfl

theorem showsSigned {negative : Bool} {cs : List Char} {more left : Bytes} {token : Token}
    (some : cs ≠ []) (digits : ∀ c ∈ cs, c.isDigit = true)
    (read : Lexeme.number (ascii ((if negative then ['-'] else []) ++ cs) ++ more) =
      (.ok token, left)) :
    Shows (ascii ((if negative then ['-'] else []) ++ cs) ++ more) token left := by
  cases cs with
  | nil => exact absurd rfl some
  | cons c rest =>
    have digit := (Lexeme.digitOctet (digits c List.mem_cons_self)).1
    cases negative with
    | true => exact showsNumber read (.inr ⟨.inl rfl, c.toUInt8, _, rfl, digit⟩)
    | false => exact showsNumber read (.inl digit)

theorem showsDigits {n : Nat} (h : n ≤ Lexeme.largest) {tail : Bytes} (ended : Ended tail) :
    Shows (ascii (Nat.toDigits 10 n) ++ tail) (.value (.int (Int64.ofInt n))) tail :=
  @showsSigned false _ _ _ _ Nat.toDigits_ne_nil
    (fun _ member => Nat.isDigit_of_mem_toDigits (by decide) (by decide) member)
    (Lexeme.digitsRead h ended)

theorem plainWord {b : UInt8} {rest : Bytes} (h : (b :: rest).all (fun c => !Octet.endsWord c &&
    !Octet.isDigit c && c != Octet.plus && c != Octet.minus && c != Octet.dot) = true) :
    Lexeme.Word b rest := by
  simp only [List.all_cons, List.all_eq_true, Bool.and_eq_true, Bool.not_eq_true', bne_iff_ne] at h
  obtain ⟨⟨⟨⟨⟨starts, wordy⟩, plus⟩, minus⟩, dot⟩, goesOn⟩ := h
  refine ⟨starts, wordy, fun c member => (goesOn c member).1.1.1.1, ?_, fun same => absurd same dot⟩
  rintro (same | same)
  · exact absurd same plus
  · exact absurd same minus

theorem showsWord {b : UInt8} {rest tail : Bytes} (h : (b :: rest).all (fun c => !Octet.endsWord c &&
    !Octet.isDigit c && c != Octet.plus && c != Octet.minus && c != Octet.dot) = true)
    (ended : Ended tail) :
    Shows (b :: rest ++ tail) (.ofWord (Utf8.decode (b :: rest))) tail := by
  have word := plainWord h
  obtain ⟨blank, comment, -⟩ := (Lexeme.startsExact b).mp word.starts
  exact showsFirst blank (by simpa using comment) (Lexeme.wordLexeme word ended)

theorem showsScalar {s : Scalar} (h : s.Readable) {tail : Bytes} (ended : Ended tail) :
    Shows (s.written ++ tail) (.value s.reread) tail := by
  cases s with
  | null => exact @showsWord _ [0x75, 0x6c, 0x6c] _ rfl ended
  | bool value =>
    cases value with
    | true => exact @showsWord _ [0x72, 0x75, 0x65] _ rfl ended
    | false => exact @showsWord _ [0x61, 0x6c, 0x73, 0x65] _ rfl ended
  | int n =>
    have other : n ≠ Int64.minValue := fun same => h (congrArg Scalar.int same)
    have read := Lexeme.intRead other ended
    unfold Scalar.written Scalar.intText at *
    have digits := @showsSigned (decide (n.toInt < 0)) (Nat.toDigits 10 n.toInt.natAbs) tail tail
      (.value (.int n)) Nat.toDigits_ne_nil
      (fun _ member => Nat.isDigit_of_mem_toDigits (by decide) (by decide) member)
    simp only [decide_eq_true_eq] at digits
    exact digits read
  | real x =>
    have read := Lexeme.realRead x ended
    obtain ⟨negative, whole, places, text, pointed⟩ := Decimal.realTextPointed x
    unfold Scalar.written
    simp only
    rw [text, ← List.append_assoc, Lexeme.asciiAppend, List.append_assoc] at read ⊢
    exact showsSigned pointed.before pointed.wholeDigits read
  | name text => exact showsName text ended
  | string octets =>
    have read := Lexeme.stringRead octets tail
    refine showsFirst rfl rfl ?_
    simp [Lexeme.lexeme, read]
    rfl

end Lexer

namespace Assembly

def read (stack : List Frame) (l : Lexer) : Option (Except Fault (Nat × Item)) × Lexer :=
  readItem (l.rest.length + 1) stack l

theorem readEnough {fuel fuel' : Nat} {stack : List Frame} {l : Lexer} (h : l.rest.length < fuel)
    (h' : l.rest.length < fuel') : readItem fuel stack l = readItem fuel' stack l := by
  induction fuel generalizing fuel' stack l with
  | zero => exact absurd h (Nat.not_lt_zero _)
  | succ fuel ih =>
    cases fuel' with
    | zero => exact absurd h' (Nat.not_lt_zero _)
    | succ fuel' =>
      simp only [readItem]
      rcases token : l.next with ⟨_ | fault | ⟨pos, t⟩, l'⟩
      · rfl
      · rfl
      · have shorter := Lexer.nextShorter token
        simp only
        cases step pos t stack with
        | error fault => rfl
        | ok progress =>
          cases progress with
          | item item => rfl
          | inside inner => exact ih (by omega) (by omega)

def resume (data : Bytes) (pos : Nat) (left : Bytes) :
    Progress → Option (Except Fault (Nat × Item)) × Lexer
  | .item item => (some (.ok (pos, item)), ⟨data, left⟩)
  | .inside stack => read stack ⟨data, left⟩

theorem readStep {stack : List Frame} {data bytes left : Bytes} {pos : Nat} {token : Token}
    (shown : (Lexer.mk data bytes).next = (some (.ok (pos, token)), ⟨data, left⟩))
    {progress : Progress} (ok : step pos token stack = .ok progress) :
    read stack ⟨data, bytes⟩ = resume data pos left progress := by
  have shorter := Lexer.nextShorter shown
  simp only [read, readItem, shown, ok]
  cases progress with
  | item item => rfl
  | inside inner => exact readEnough shorter (Nat.lt_succ_self _)

theorem readBlank {stack : List Frame} {data bytes : Bytes} {b : UInt8}
    (blank : Octet.isBlank b = true) : read stack ⟨data, b :: bytes⟩ = read stack ⟨data, bytes⟩ := by
  have plain := allOctets (p := fun b => !Octet.isBlank b || (b == Octet.percent) == false)
    (by decide +kernel) b
  simp only [blank, Bool.not_true, Bool.false_or, beq_iff_eq] at plain
  have same : (Lexer.mk data (b :: bytes)).next = (Lexer.mk data bytes).next := by
    simp only [Lexer.next, Lexeme.skipBlanks, plain, blank, if_true, Bool.false_eq_true, if_false]
  rw [read, List.length_cons, readItem, same, ← readItem]
  exact readEnough (by simp only; omega) (Nat.lt_succ_self _)

theorem endedBlank {b : UInt8} (blank : Octet.isBlank b = true) (rest : Bytes) :
    Ended (b :: rest) := .cons (by simp [Octet.endsWord, blank])

theorem numberValue (n : UInt32) : (Int64.ofInt n.toNat).toInt = n.toNat := by
  have bound := n.toNat_lt
  exact Int64.toInt_ofInt_of_le (by omega) (by omega)

theorem unsignedRead (n : UInt32) : unsigned? (Int64.ofInt n.toNat) = some n := by
  have bound := n.toNat_lt
  unfold unsigned?
  rw [numberValue, if_pos (by omega)]
  simp

theorem numberReadable (n : UInt32) :
    Operand.Readable (.scalar none (.int (Int64.ofInt n.toNat))) := by
  intro same
  have value := numberValue n
  rw [Scalar.int.inj same, Int64.toInt_minValue] at value
  omega

theorem numberWritten (n : UInt32) :
    (Operand.scalar none (.int (Int64.ofInt n.toNat))).written = ascii (Nat.toDigits 10 n.toNat) := by
  have positive : ¬ ((n.toNat : Int) < 0) := by omega
  simp only [Operand.written, Scalar.written, Scalar.intText, numberValue, if_neg positive,
    List.nil_append, Int.natAbs_natCast]

theorem numberFits (n : UInt32) : n.toNat ≤ Lexeme.largest := by
  have bound := n.toNat_lt
  simp only [Lexeme.largest]
  omega

theorem spokenR : Lexeme.Spoken "R" := ⟨0x52, [], rfl, Lexer.plainWord rfl, rfl⟩

def parts (r : Ref) : List Operand :=
  [.scalar none (.int (Int64.ofInt r.gen.toNat)), .scalar none (.int (Int64.ofInt r.num.toNat))]

theorem referenceParts (r : Ref) (items : List Operand) :
    reference? (parts r ++ items) = some (.ref none r :: items) := by
  simp [parts, reference?, unsignedRead]

theorem refText (r : Ref) : ascii r.text.toList = ascii (Nat.toDigits 10 r.num.toNat) ++
    (Octet.space :: (ascii (Nat.toDigits 10 r.gen.toNat) ++ (Octet.space :: Utf8.encode "R"))) := by
  simp [Ref.text, ascii]
  exact ⟨rfl, by decide⟩

theorem readRef (r : Ref) {data tail : Bytes} (ended : Ended tail) (frame : Frame)
    (outer : List Frame) : ∃ pos, read (frame :: outer) ⟨data, ascii r.text.toList ++ tail⟩ =
      resume data pos tail (place (.ref none r) (frame :: outer)) := by
  have space : Octet.isBlank Octet.space = true := rfl
  rw [refText, List.append_assoc, List.cons_append, List.append_assoc, List.cons_append]
  obtain ⟨_, num⟩ := (Lexer.showsDigits (numberFits r.num) (endedBlank space _)).next data
  obtain ⟨_, gen⟩ := (Lexer.showsDigits (numberFits r.gen) (endedBlank space _)).next data
  obtain ⟨pos, keyword⟩ := (Lexer.showsKeyword spokenR ended).next data
  let one : Operand := .scalar none (.int (Int64.ofInt r.num.toNat))
  have first : read (frame :: outer) _ =
      read (⟨frame.bracket, frame.start, one :: frame.items⟩ :: outer) _ := readStep num rfl
  have second : read (⟨frame.bracket, frame.start, one :: frame.items⟩ :: outer) _ =
      read (⟨frame.bracket, frame.start, parts r ++ frame.items⟩ :: outer) _ := readStep gen rfl
  refine ⟨pos, ?_⟩
  rw [first, readBlank space, second, readBlank space]
  refine readStep keyword ?_
  simp only [step, if_pos, referenceParts]
  rfl

def interleaved : List (String × Operand) → List Operand
  | [] => []
  | (k, o) :: rest => .ofName k :: o :: interleaved rest

theorem pairsInterleaved (es : List (String × Operand)) : pairs (interleaved es) = .ok es := by
  induction es with
  | nil => rfl
  | cons entry rest ih => simp [interleaved, pairs, Operand.ofName, Operand.name?, ih, Except.map]

theorem interleavedEven (es : List (String × Operand)) : (interleaved es).length % 2 = 0 := by
  induction es with
  | nil => rfl
  | cons entry rest ih =>
    simp only [interleaved, List.length_cons]
    omega

theorem entriesInterleaved {es : List (String × Operand)} (h : Dict.Distinct es) :
    entries (interleaved es) = .ok es := by
  rw [entries, if_pos (interleavedEven es), pairsInterleaved, Except.map, Dict.ofListSelf h]

mutual

theorem readOperand : (o : Operand) → o.Readable → (data tail : Bytes) → Ended tail →
    (stack : List Frame) → (stack = [] → o.kind ≠ .ref) →
    ∃ pos, read stack ⟨data, o.written ++ tail⟩ = resume data pos tail (place o.reread stack)
  | .scalar _ s, readable, data, tail, ended, stack, _ => by
    obtain ⟨pos, shown⟩ := (Lexer.showsScalar readable ended).next data
    exact ⟨pos, readStep shown rfl⟩
  | .ref _ r, _, data, tail, ended, stack, inner => by
    cases stack with
    | nil => exact absurd rfl (inner rfl)
    | cons frame outer => exact readRef r ended frame outer
  | .array _ items, readable, data, tail, ended, stack, _ => by
    let left := Operand.writtenItems items ++ Octet.bracketClose :: tail
    have text : (Operand.array none items).written ++ tail = Octet.bracketOpen :: left := by
      simp [Operand.written, left]
    have opened : Lexer.Shows (Octet.bracketOpen :: left) .arrayOpen left :=
      Lexer.showsFirst rfl rfl rfl
    obtain ⟨start, shown⟩ := opened.next data
    obtain ⟨pos, inside⟩ := readArray items readable data tail start [] stack
    have first : read stack ⟨data, Octet.bracketOpen :: left⟩ =
        read (⟨.array, start, []⟩ :: stack) ⟨data, left⟩ := readStep shown rfl
    exact ⟨pos, by rw [Operand.written] at text ⊢; rw [text, first, inside]; rfl⟩
  | .dict _ es, readable, data, tail, ended, stack, _ => by
    let left := Operand.writtenEntries es ++ Octet.greater :: Octet.greater :: tail
    have text : (Operand.dict none es).written ++ tail = Octet.less :: Octet.less :: left := by
      simp [Operand.written, left]
    have opened : Lexer.Shows (Octet.less :: Octet.less :: left) .dictOpen left :=
      Lexer.showsFirst rfl rfl rfl
    obtain ⟨start, shown⟩ := opened.next data
    have distinct : Dict.Distinct (Operand.rereadEntries es) := by
      rw [Dict.Distinct, Operand.keysReread]
      exact readable.1
    obtain ⟨pos, inside⟩ := readDict es readable.2 data tail start [] stack _
      (entriesInterleaved distinct)
    have first : read stack ⟨data, Octet.less :: Octet.less :: left⟩ =
        read (⟨.dict, start, []⟩ :: stack) ⟨data, left⟩ := readStep shown rfl
    exact ⟨pos, by rw [Operand.written] at text ⊢; rw [text, first, inside]; rfl⟩

theorem readArray : (os : List Operand) → Operand.ReadableItems os → (data tail : Bytes) →
    (start : Nat) → (items : List Operand) → (stack : List Frame) → ∃ pos,
    read (⟨.array, start, items⟩ :: stack)
        ⟨data, Operand.writtenItems os ++ Octet.bracketClose :: tail⟩ =
      resume data pos tail (place (.array none (items.reverse ++ Operand.rereadItems os)) stack)
  | [], _, data, tail, start, items, stack => by
    have closed : Lexer.Shows (Octet.bracketClose :: tail) .arrayClose tail :=
      Lexer.showsFirst rfl rfl rfl
    obtain ⟨pos, shown⟩ := closed.next data
    refine ⟨pos, readStep shown ?_⟩
    simp [step, Operand.rereadItems]
  | o :: rest, readable, data, tail, start, items, stack => by
    let later := Operand.writtenItems rest ++ Octet.bracketClose :: tail
    let between : Bytes := if rest.isEmpty then [] else [Octet.space]
    have text : Operand.writtenItems (o :: rest) ++ Octet.bracketClose :: tail =
        o.written ++ (between ++ later) := by
      simp [Operand.writtenItems, between, later]
    have ended : Ended (between ++ later) := by
      cases rest with
      | nil => exact .cons rfl
      | cons o' rest' => exact .cons rfl
    obtain ⟨_, first⟩ := readOperand o readable.1 data (between ++ later) ended
      (⟨.array, start, items⟩ :: stack) (by simp)
    have skipped : read (⟨.array, start, o.reread :: items⟩ :: stack) ⟨data, between ++ later⟩ =
        read (⟨.array, start, o.reread :: items⟩ :: stack) ⟨data, later⟩ := by
      cases rest with
      | nil => rfl
      | cons o' rest' => exact readBlank rfl
    obtain ⟨pos, others⟩ := readArray rest readable.2 data tail start (o.reread :: items) stack
    refine ⟨pos, ?_⟩
    rw [text, first]
    change read (⟨.array, start, o.reread :: items⟩ :: stack) ⟨data, between ++ later⟩ = _
    rw [skipped, others, Operand.rereadItems, List.reverse_cons, List.append_assoc,
      List.singleton_append]

theorem readDict : (es : List (String × Operand)) → Operand.ReadableEntries es →
    (data tail : Bytes) → (start : Nat) → (items : List Operand) → (stack : List Frame) →
    (d : Dict Operand) →
    entries (items.reverse ++ interleaved (Operand.rereadEntries es)) = .ok d → ∃ pos,
    read (⟨.dict, start, items⟩ :: stack)
        ⟨data, Operand.writtenEntries es ++ Octet.greater :: Octet.greater :: tail⟩ =
      resume data pos tail (place (.dict none d) stack)
  | [], _, data, tail, start, items, stack, d, whole => by
    have closed : Lexer.Shows (Octet.greater :: Octet.greater :: tail) .dictClose tail :=
      Lexer.showsFirst rfl rfl rfl
    obtain ⟨pos, shown⟩ := closed.next data
    refine ⟨pos, readStep shown ?_⟩
    simp only [Operand.rereadEntries, interleaved, List.append_nil] at whole
    simp [step, whole]
  | (k, o) :: rest, readable, data, tail, start, items, stack, d, whole => by
    let later := Operand.writtenEntries rest ++ Octet.greater :: Octet.greater :: tail
    have text : Operand.writtenEntries ((k, o) :: rest) ++ Octet.greater :: Octet.greater :: tail =
        Scalar.nameText k ++ (Octet.space :: (o.written ++ (Octet.space :: later))) := by
      simp [Operand.writtenEntries, later]
    have space : Octet.isBlank Octet.space = true := rfl
    obtain ⟨_, key⟩ := (Lexer.showsName k (endedBlank space _)).next data
    have first : read (⟨.dict, start, items⟩ :: stack) _ =
      read (⟨.dict, start, .ofName k :: items⟩ :: stack) _ := readStep key rfl
    obtain ⟨_, value⟩ := readOperand o readable.1 data (Octet.space :: later)
      (endedBlank space _) (⟨.dict, start, .ofName k :: items⟩ :: stack) (by simp)
    obtain ⟨pos, others⟩ := readDict rest readable.2 data tail start
      (o.reread :: .ofName k :: items) stack d (by
        rw [← whole]
        simp [Operand.rereadEntries, interleaved])
    refine ⟨pos, ?_⟩
    rw [text, first, readBlank space, value]
    change read (⟨.dict, start, o.reread :: .ofName k :: items⟩ :: stack) _ = _
    rw [readBlank space, others]

end

end Assembly

end PageContent
