import PageContent.Instruction
import PageContent.Proofs.ContentItem.Readable

/-! What a reader yields from the text of operands, instructions and images, one after the
other. -/
namespace PageContent

namespace Assembly

theorem readSuffix {fuel : Nat} {stack : List Frame} {l l' : Lexer} {found}
    (h : readItem fuel stack l = (found, l')) : l'.rest <:+ l.rest := by
  induction fuel generalizing stack l with
  | zero => cases h; exact List.suffix_rfl
  | succ fuel ih =>
    simp only [readItem] at h
    split at h
    · rename_i shown
      have after := Lexer.nextSuffix shown
      split at h <;> cases h <;> exact after
    · rename_i shown
      cases h
      exact Lexer.nextSuffix shown
    · rename_i shown
      have after := Lexer.nextSuffix shown
      split at h
      · cases h
        exact after
      · cases h
        exact after
      · exact (ih h).trans after

theorem nextSuffix {l l' : Lexer} {found} (h : next l = (found, l')) : l'.rest <:+ l.rest :=
  readSuffix h

theorem nextShorter {l l' : Lexer} {found} (h : next l = (some found, l')) :
    l'.rest.length < l.rest.length := by
  simp only [next, readItem] at h
  split at h
  · simp at h
  · rename_i shown
    cases h
    exact Lexer.nextShorter shown
  · rename_i shown
    have shorter := Lexer.nextShorter shown
    split at h
    · cases h
      exact shorter
    · cases h
      exact shorter
    · exact Nat.lt_of_le_of_lt (readSuffix h).length_le shorter

theorem rawDataSuffix (l : Lexer) (marker : Bytes) : (l.rawData marker).2.rest <:+ l.rest :=
  Lexeme.rawDataSuffix marker _ l.rest

theorem readEntriesSuffix {fuel : Nat} {l l' : Lexer} {values}
    (h : readEntries fuel l = (values, l')) : l'.rest <:+ l.rest := by
  induction fuel generalizing l l' values with
  | zero => cases h; exact List.suffix_rfl
  | succ fuel ih =>
    simp only [readEntries] at h
    split at h
    · rename_i found
      cases h
      exact nextSuffix found
    · rename_i found
      cases h
      exact nextSuffix found
    · rename_i value left found
      rcases later : readEntries fuel left with ⟨rest, last⟩
      simp only [later] at h
      cases h
      exact (ih later).trans (nextSuffix found)
    · rename_i found
      split at h <;> cases h <;> exact nextSuffix found

theorem readImageSuffix {l l' : Lexer} {item} (h : readImage l = (item, l')) :
    l'.rest <:+ l.rest := by
  simp only [readImage] at h
  split at h
  · rename_i read
    cases h
    exact readEntriesSuffix read
  · rename_i values left read
    have entries := readEntriesSuffix read
    split at h
    · cases h
      exact entries
    · have raw (marker : Bytes) := (rawDataSuffix left marker).trans entries
      split at h
      · split at h
        · rename_i found
          have after := (nextSuffix found).trans (raw _)
          split at h <;> cases h <;> exact after
        · rename_i last _ found
          cases h
          exact (nextSuffix found).trans (raw _)
      · cases h
        exact raw _

theorem readImageRead {l l' : Lexer} {item : ContentItem} (made : readImage l = (.ok item, l')) :
    ∃ values data es raw, readEntries (l.rest.length + 1) l = (.ok values, data) ∧
      entries values = .ok es ∧ item = .image es raw := by
  simp only [readImage] at made
  split at made
  · cases made
  · rename_i values data read
    split at made
    · cases made
    · rename_i es collected
      refine ⟨values, data, es, ?_⟩
      split at made
      · repeat' split at made
        all_goals cases made
        exact ⟨_, read, collected, rfl⟩
      · cases made
        exact ⟨_, read, collected, rfl⟩

theorem readEntriesEnough {fuel fuel' : Nat} {l : Lexer} (h : l.rest.length < fuel)
    (h' : l.rest.length < fuel') : readEntries fuel l = readEntries fuel' l := by
  induction fuel generalizing fuel' l with
  | zero => exact absurd h (Nat.not_lt_zero _)
  | succ fuel ih =>
    cases fuel' with
    | zero => exact absurd h' (Nat.not_lt_zero _)
    | succ fuel' =>
      simp only [readEntries]
      rcases found : next l with ⟨_ | fault | ⟨pos, value | name⟩, l'⟩
      · rfl
      · rfl
      · have shorter := nextShorter found
        simp only
        rw [@ih fuel' l' (by omega) (by omega)]
      · rfl

end Assembly

namespace ContentItem.Reader

theorem nextShorter {r r' : Reader} {found} (h : r.next = (some found, r')) :
    r'.lexer.rest.length < r.lexer.rest.length := by
  simp only [next] at h
  split at h
  · simp at h
  · split at h
    · simp at h
    · rename_i found
      cases h
      exact Assembly.nextShorter found
    · rename_i found
      cases h
      exact Assembly.nextShorter found
    · rename_i found
      have shorter := Assembly.nextShorter found
      split at h
      · split at h
        · rename_i image
          cases h
          exact Nat.lt_of_le_of_lt (Assembly.readImageSuffix image).length_le shorter
        · rename_i image
          cases h
          exact Nat.lt_of_le_of_lt (Assembly.readImageSuffix image).length_le shorter
      · cases h
        exact shorter

theorem runEnough {fuel fuel' : Nat} {r : Reader} (h : r.lexer.rest.length < fuel)
    (h' : r.lexer.rest.length < fuel') : run fuel r = run fuel' r := by
  induction fuel generalizing fuel' r with
  | zero => exact absurd h (Nat.not_lt_zero _)
  | succ fuel ih =>
    cases fuel' with
    | zero => exact absurd h' (Nat.not_lt_zero _)
    | succ fuel' =>
      simp only [run]
      rcases found : r.next with ⟨_ | read, r'⟩
      · rfl
      · have shorter := nextShorter found
        simp only
        rw [@ih fuel' r' (by omega) (by omega)]

end ContentItem.Reader

namespace Lexeme

theorem markedExact {bytes : Bytes} :
    Lexer.imageEnd.isPrefixOf bytes = true ↔ ∃ after, bytes = 0x45 :: 0x49 :: after := by
  rw [List.isPrefixOf_iff_prefix]
  constructor
  · rintro ⟨after, same⟩
    exact ⟨after, same.symm⟩
  · rintro ⟨after, same⟩
    exact ⟨after, same.symm⟩

theorem upToMarker {before : Option UInt8} {raw tail : Bytes} (clear : Clear before raw)
    (ended : Ended tail) : upTo Lexer.imageEnd true before
      (raw ++ Octet.space :: (Lexer.imageEnd ++ tail)) = (raw ++ [Octet.space], tail) := by
  induction raw generalizing before with
  | nil =>
    have last : upTo Lexer.imageEnd true (some Octet.space) (Lexer.imageEnd ++ tail) = ([], tail) := by
      have ends : tail.head?.all Octet.endsWord = true := ended
      change upTo Lexer.imageEnd true _ (0x45 :: 0x49 :: tail) = _
      rw [upTo, if_pos]
      · rfl
      · simp [Lexer.imageEnd, ascii, ends]
        decide
    rw [List.nil_append, upTo, last, if_neg]
    · rfl
    · simp only [Bool.and_eq_true, not_and]
      intro marked
      obtain ⟨after, same⟩ := markedExact.mp marked.1
      exact absurd (List.cons.inj same).1 (by decide)
  | cons b rest ih =>
    obtain ⟨other, later⟩ := clear
    rw [List.cons_append, upTo, ih later, if_neg]
    · rfl
    · intro here
      simp only [Bool.and_eq_true, Bool.not_true, Bool.false_or] at here
      obtain ⟨⟨marked, alone⟩, ends⟩ := here
      obtain ⟨after, same⟩ := markedExact.mp marked
      obtain ⟨rfl, second⟩ := List.cons.inj same
      cases rest with
      | nil => exact absurd (List.cons.inj second).1 (by decide)
      | cons c more =>
        obtain ⟨rfl, -⟩ := List.cons.inj second
        refine other ⟨rfl, alone, ?_⟩
        cases more with
        | nil => exact .nil
        | cons d more => exact ends

theorem rawDataMarker {raw tail : Bytes} (clear : Clear none raw) (ended : Ended tail) :
    rawData Lexer.imageEnd true
      (Octet.space :: (raw ++ Octet.space :: (Lexer.imageEnd ++ tail))) = (raw, tail) := by
  have space : Octet.isBlank Octet.space = true := rfl
  simp only [rawData, space, if_true, upToMarker clear ended, dropLastBlank,
    List.getLast?_concat, Option.any_some, List.dropLast_concat]

end Lexeme

namespace Assembly

def readValues (l : Lexer) : Except Fault (List Operand) × Lexer :=
  readEntries (l.rest.length + 1) l

theorem valuesStep {l l' : Lexer} {pos : Nat} {value : Operand}
    (found : next l = (some (.ok (pos, .operand value)), l')) :
    readValues l = ((readValues l').1.map (value :: ·), (readValues l').2) := by
  have shorter := nextShorter found
  have enough := @readEntriesEnough l.rest.length (l'.rest.length + 1) l' shorter (Nat.lt_succ_self _)
  simp only [readValues, readEntries, found, enough]

theorem valuesBlank {data bytes : Bytes} {b : UInt8} (blank : Octet.isBlank b = true) :
    readValues ⟨data, b :: bytes⟩ = readValues ⟨data, bytes⟩ := by
  have same : next ⟨data, b :: bytes⟩ = next ⟨data, bytes⟩ := readBlank blank
  have enough := @readEntriesEnough (bytes.length + 1 + 1) (bytes.length + 1) ⟨data, bytes⟩
    (by simp only; omega) (Nat.lt_succ_self _)
  have step : readValues ⟨data, b :: bytes⟩ = readEntries (bytes.length + 1 + 1) ⟨data, bytes⟩ := by
    simp only [readValues, List.length_cons, readEntries, same]
  rw [step, enough, readValues]

def entriesText (es : List (String × Operand)) : Bytes :=
  es.flatMap fun (k, o) => Octet.space :: Scalar.nameText k ++ Octet.space :: o.written

theorem spokenID : Lexeme.Spoken "ID" := ⟨0x49, [0x44], rfl, Lexer.plainWord rfl, rfl⟩
theorem spokenBI : Lexeme.Spoken "BI" := ⟨0x42, [0x49], rfl, Lexer.plainWord rfl, rfl⟩
theorem spokenEI : Lexeme.Spoken "EI" := ⟨0x45, [0x49], rfl, Lexer.plainWord rfl, rfl⟩

theorem nextOperand {o : Operand} (readable : o.Readable) (direct : o.kind ≠ .ref)
    (data : Bytes) {tail : Bytes} (ended : Ended tail) : ∃ pos,
    next ⟨data, o.written ++ tail⟩ = (some (.ok (pos, .operand o.reread)), ⟨data, tail⟩) :=
  readOperand o readable data tail ended [] (fun _ => direct)

theorem nextKeyword {name : String} (spoken : Lexeme.Spoken name) (data : Bytes) {tail : Bytes}
    (ended : Ended tail) : ∃ pos,
    next ⟨data, Utf8.encode name ++ tail⟩ = (some (.ok (pos, .keyword name)), ⟨data, tail⟩) := by
  obtain ⟨pos, shown⟩ := (Lexer.showsKeyword spoken ended).next data
  have found : read [] _ = resume data pos tail (.item (.keyword name)) := readStep shown rfl
  exact ⟨pos, found⟩

theorem readValuesText {es : List (String × Operand)}
    (readable : ∀ k o, (k, o) ∈ es → o.Readable ∧ o.kind ≠ .ref) (data : Bytes) {left : Bytes}
    (ended : Ended left) :
    readValues ⟨data, entriesText es ++ Octet.space :: (Utf8.encode "ID" ++ left)⟩ =
      (.ok (interleaved (Operand.rereadEntries es)), ⟨data, left⟩) := by
  have space : Octet.isBlank Octet.space = true := rfl
  induction es with
  | nil =>
    obtain ⟨pos, found⟩ := nextKeyword spokenID data ended
    change readValues ⟨data, Octet.space :: _⟩ = _
    rw [valuesBlank space]
    simp only [readValues, readEntries, found, if_pos]
    rfl
  | cons entry rest ih =>
    obtain ⟨k, o⟩ := entry
    obtain ⟨first, direct⟩ := readable k o List.mem_cons_self
    have later := ih (fun k o member => readable k o (List.mem_cons_of_mem _ member))
    let after := entriesText rest ++ Octet.space :: (Utf8.encode "ID" ++ left)
    have text : entriesText ((k, o) :: rest) ++ Octet.space :: (Utf8.encode "ID" ++ left) =
        Octet.space :: (Scalar.nameText k ++ Octet.space :: (o.written ++ after)) := by
      simp [entriesText, after]
    have ended' : Ended after := by
      cases rest with
      | nil => exact endedBlank space _
      | cons entry' rest' => exact endedBlank space _
    obtain ⟨_, key⟩ := nextOperand (o := .scalar none (.name k)) (fun same => by contradiction)
      (fun same => by contradiction) data
      (endedBlank space (o.written ++ after))
    obtain ⟨_, value⟩ := nextOperand first direct data ended'
    rw [text, valuesBlank space]
    change readValues ⟨data, (Operand.scalar none (.name k)).written ++ _⟩ = _
    rw [valuesStep key, valuesBlank space, valuesStep value, later]
    rfl

theorem interleavedReread {es : Dict Operand} (distinct : Dict.Distinct es) :
    entries (interleaved (Operand.rereadEntries es)) = .ok (Operand.rereadEntries es) := by
  refine entriesInterleaved ?_
  rw [Dict.Distinct, Operand.keysReread]
  exact distinct

theorem readImageText {es : Dict Operand} {raw : Bytes} (distinct : Dict.Distinct es)
    (readable : ∀ k o, (k, o) ∈ es → o.Readable ∧ o.kind ≠ .ref)
    (plain : isSelfEnding es = false) (clear : Lexeme.Clear none raw) (data : Bytes) {tail : Bytes}
    (ended : Ended tail) :
    readImage ⟨data, entriesText es ++ Octet.space :: (Utf8.encode "ID" ++
        Octet.space :: (raw ++ Octet.space :: (Lexer.imageEnd ++ tail)))⟩ =
      (.ok (.image (Operand.rereadEntries es) raw), ⟨data, tail⟩) := by
  have space : Octet.isBlank Octet.space = true := rfl
  have values := readValuesText readable data
    (endedBlank space (raw ++ Octet.space :: (Lexer.imageEnd ++ tail)))
  simp only [readValues] at values
  simp only [readImage, values, interleavedReread distinct, Operand.selfEndingReread, plain,
    Bool.false_eq_true, if_false, Lexer.rawData, beq_self_eq_true, Lexeme.rawDataMarker clear ended]

theorem readImageSealed {es : Dict Operand} {raw : Bytes} (distinct : Dict.Distinct es)
    (readable : ∀ k o, (k, o) ∈ es → o.Readable ∧ o.kind ≠ .ref)
    (ending : isSelfEnding es = true) (whole : Lexeme.Sealed raw) (data : Bytes) {tail : Bytes}
    (ended : Ended tail) :
    readImage ⟨data, entriesText es ++ Octet.space :: (Utf8.encode "ID" ++
        Octet.space :: (raw ++ Octet.space :: (Lexer.imageEnd ++ tail)))⟩ =
      (.ok (.image (Operand.rereadEntries es) (Lexeme.resealed raw)), ⟨data, tail⟩) := by
  have space : Octet.isBlank Octet.space = true := rfl
  have other : (ascii85End == Lexer.imageEnd) = false := rfl
  have values := readValuesText readable data
    (endedBlank space (raw ++ Octet.space :: (Lexer.imageEnd ++ tail)))
  obtain ⟨body, read, same⟩ :=
    Lexeme.rawDataResealed whole (endedBlank space (Lexer.imageEnd ++ tail))
  obtain ⟨pos, found⟩ := nextKeyword spokenEI data ended
  have last : next ⟨data, Octet.space :: (Lexer.imageEnd ++ tail)⟩ =
      (some (.ok (pos, .keyword "EI")), ⟨data, tail⟩) := (readBlank space).trans found
  simp only [readValues] at values
  simp only [readImage, values, interleavedReread distinct, Operand.selfEndingReread, ending,
    if_true, Lexer.rawData, other, read, last, same]

end Assembly

namespace ContentItem

def Yields (bytes : Bytes) (items : List ContentItem) : Prop :=
  ∀ data, ∃ placed : List (Nat × ContentItem),
    (Reader.all ⟨⟨data, bytes⟩, false⟩).1 = placed.map .ok ∧ placed.map Prod.snd = items

namespace Yields
variable {bytes left tail : Bytes} {items : List ContentItem}

theorem nil : Yields [] [] := fun _ => ⟨[], rfl, rfl⟩

theorem allBlank {b : UInt8} (blank : Octet.isBlank b = true) (data bytes : Bytes) :
    (Reader.mk ⟨data, b :: bytes⟩ false).all = (Reader.mk ⟨data, bytes⟩ false).all := by
  have next : Assembly.next ⟨data, b :: bytes⟩ = Assembly.next ⟨data, bytes⟩ :=
    Assembly.readBlank blank
  have enough := @Reader.runEnough (bytes.length + 1 + 1) (bytes.length + 1) ⟨⟨data, bytes⟩, false⟩
    (by simp only; omega) (Nat.lt_succ_self _)
  have first : (Reader.mk ⟨data, b :: bytes⟩ false).next = (Reader.mk ⟨data, bytes⟩ false).next := by
    simp only [Reader.next, next, Bool.false_eq_true, if_false]
  have step : (Reader.mk ⟨data, b :: bytes⟩ false).all =
      Reader.run (bytes.length + 1 + 1) ⟨⟨data, bytes⟩, false⟩ := by
    simp only [Reader.all, List.length_cons, Reader.run, first]
  rw [step, enough]
  rfl

theorem blank {b : UInt8} (blank : Octet.isBlank b = true) (h : Yields bytes items) :
    Yields (b :: bytes) items := fun data => by
  rw [allBlank blank]
  exact h data

theorem unblank {b : UInt8} (blank : Octet.isBlank b = true) (h : Yields (b :: bytes) items) :
    Yields bytes items := fun data => by
  rw [← allBlank blank]
  exact h data

theorem cons {item : ContentItem} (found : ∀ data, ∃ pos,
      (Reader.mk ⟨data, bytes⟩ false).next = (some (.ok (pos, item)), ⟨⟨data, left⟩, false⟩))
    (h : Yields left items) : Yields bytes (item :: items) := by
  intro data
  obtain ⟨pos, found⟩ := found data
  obtain ⟨placed, all, same⟩ := h data
  have shorter : left.length < bytes.length := Reader.nextShorter found
  have enough := @Reader.runEnough bytes.length (left.length + 1) ⟨⟨data, left⟩, false⟩
    shorter (Nat.lt_succ_self _)
  have step : (Reader.mk ⟨data, bytes⟩ false).all.1 =
      .ok (pos, item) :: (Reader.run bytes.length ⟨⟨data, left⟩, false⟩).1 := by
    simp only [Reader.all, Reader.run, found]
  refine ⟨(pos, item) :: placed, ?_, by simp [same]⟩
  rw [step, enough]
  exact congrArg (_ :: ·) all

theorem operand {o : Operand} (readable : o.Readable) (direct : o.kind ≠ .ref) (ended : Ended tail)
    (h : Yields tail items) : Yields (o.written ++ tail) (.operand o.reread :: items) := by
  refine h.cons fun data => ?_
  obtain ⟨pos, found⟩ := Assembly.nextOperand readable direct data ended
  exact ⟨pos, by simp [Reader.next, found]⟩

theorem operator {name : String} (spoken : Lexeme.Spoken name) (other : name ≠ "BI")
    (ended : Ended tail) (h : Yields tail items) :
    Yields (Utf8.encode name ++ tail) (.operator name :: items) := by
  refine h.cons fun data => ?_
  obtain ⟨pos, found⟩ := Assembly.nextKeyword spoken data ended
  exact ⟨pos, by simp [Reader.next, found, other]⟩

theorem imageRead {es : Dict Operand} {raw : Bytes} {item : ContentItem}
    (read : ∀ data, Assembly.readImage ⟨data, Assembly.entriesText es ++ Octet.space ::
      (Utf8.encode "ID" ++ Octet.space :: (raw ++ Octet.space :: (Lexer.imageEnd ++ tail)))⟩ =
      (.ok item, ⟨data, tail⟩)) (h : Yields tail items) :
    Yields (Instruction.imageLine es raw ++ tail) (item :: items) := by
  let after := Assembly.entriesText es ++ Octet.space :: (Utf8.encode "ID" ++
    Octet.space :: (raw ++ Octet.space :: (Lexer.imageEnd ++ tail)))
  have text : Instruction.imageLine es raw ++ tail = Utf8.encode "BI" ++ after := by
    have start : ascii ['B', 'I'] = Utf8.encode "BI" := by decide
    have data : ascii [' ', 'I', 'D', ' '] =
        Octet.space :: (Utf8.encode "ID" ++ [Octet.space]) := by decide
    have stop : ascii [' ', 'E', 'I'] = Octet.space :: Lexer.imageEnd := rfl
    simp [Instruction.imageLine, after, Assembly.entriesText, start, data, stop]
  have ended' : Ended after := by
    cases es with
    | nil => exact Assembly.endedBlank rfl _
    | cons entry rest => exact Assembly.endedBlank rfl _
  rw [text]
  refine h.cons fun data => ?_
  obtain ⟨pos, found⟩ := Assembly.nextKeyword Assembly.spokenBI data ended'
  exact ⟨pos, by simp only [Reader.next, found, if_pos]; simp only [after, read]; rfl⟩

theorem image {es : Dict Operand} {raw : Bytes} (distinct : Dict.Distinct es)
    (readable : ∀ k o, (k, o) ∈ es → o.Readable ∧ o.kind ≠ .ref)
    (plain : Assembly.isSelfEnding es = false) (clear : Lexeme.Clear none raw) (ended : Ended tail)
    (h : Yields tail items) : Yields (Instruction.imageLine es raw ++ tail)
      (.image (Operand.rereadEntries es) raw :: items) :=
  h.imageRead fun data => Assembly.readImageText distinct readable plain clear data ended

theorem sealedImage {es : Dict Operand} {raw : Bytes} (distinct : Dict.Distinct es)
    (readable : ∀ k o, (k, o) ∈ es → o.Readable ∧ o.kind ≠ .ref)
    (ending : Assembly.isSelfEnding es = true) (whole : Lexeme.Sealed raw) (ended : Ended tail)
    (h : Yields tail items) : Yields (Instruction.imageLine es raw ++ tail)
      (.image (Operand.rereadEntries es) (Lexeme.resealed raw) :: items) :=
  h.imageRead fun data => Assembly.readImageSealed distinct readable ending whole data ended

end Yields

def spelled : Operand → List ContentItem
  | .ref _ r => [.operand (.scalar none (.int (Int64.ofInt r.num.toNat))),
    .operand (.scalar none (.int (Int64.ofInt r.gen.toNat))), .operator "R"]
  | o => [.operand o.reread]

theorem Yields.spelled {o : Operand} {tail : Bytes} {items : List ContentItem}
    (readable : o.Readable) (ended : Ended tail) (h : Yields tail items) :
    Yields (o.written ++ tail) (ContentItem.spelled o ++ items) := by
  have space : Octet.isBlank Octet.space = true := rfl
  cases o with
  | ref b r =>
    have last := operator Assembly.spokenR (by decide) ended h
    have gen := operand (Assembly.numberReadable r.gen) (fun same => by contradiction)
      (Assembly.endedBlank space _) (last.blank space)
    have num := operand (Assembly.numberReadable r.num) (fun same => by contradiction)
      (Assembly.endedBlank space _) (gen.blank space)
    have text : (Operand.ref b r).written ++ tail = ascii (Nat.toDigits 10 r.num.toNat) ++
        (Octet.space :: (ascii (Nat.toDigits 10 r.gen.toNat) ++
          (Octet.space :: (Utf8.encode "R" ++ tail)))) := by
      rw [Operand.written, Assembly.refText]
      simp
    rw [Assembly.numberWritten, Assembly.numberWritten] at num
    rw [text]
    exact num
  | scalar b s => exact operand readable (by cases s <;> simp [Operand.kind, Scalar.kind]) ended h
  | array b os => exact operand readable (fun same => by contradiction) ended h
  | dict b es => exact operand readable (fun same => by contradiction) ended h

theorem Yields.line {name : String} {os : List Operand} {tail : Bytes} {items : List ContentItem}
    (readable : Operand.ReadableItems os) (spoken : Lexeme.Spoken name) (other : name ≠ "BI")
    (ended : Ended tail) (h : Yields tail items) :
    Yields (instructionLine name os ++ tail)
      (os.flatMap ContentItem.spelled ++ .operator name :: items) := by
  induction os with
  | nil => exact operator spoken other ended h
  | cons o rest ih =>
    have later := (ih readable.2).blank (b := Octet.space) rfl
    have first := Yields.spelled readable.1 (Assembly.endedBlank rfl _) later
    simpa [instructionLine] using first

end ContentItem

end PageContent
