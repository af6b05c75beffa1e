import PageContent.Proofs.ContentItem.Reading
import PageContent.Proofs.ContentItem.Sealed

/-! What every item that a reader yields is known to be: its values and names are read back
from their text, no value at the top is a reference, and raw image data holds no marker of
its own end. -/
namespace PageContent

namespace Lexeme

def Clear (before : Option UInt8) : Bytes → Prop
  | [] => True
  | b :: rest =>
    ¬ (Lexer.imageEnd.isPrefixOf (b :: rest) = true ∧ before.all Octet.isBlank = true ∧
      Ended ((b :: rest).drop 2)) ∧ Clear (some b) rest

theorem upToClear {before : Option UInt8} {data more left tail : Bytes} (ended : Ended tail)
    (h : upTo Lexer.imageEnd true before (data ++ tail) = (data ++ more, left)) :
    Clear before data := by
  induction data generalizing before with
  | nil => trivial
  | cons b rest ih =>
    simp only [List.cons_append, upTo] at h
    split at h
    · simp at h
    · rename_i other
      simp only [Prod.mk.injEq, List.cons.injEq, true_and] at h
      refine ⟨?_, ih (Prod.ext h.1 h.2)⟩
      rintro ⟨marked, alone, ends⟩
      apply other
      cases rest with
      | nil => simp [Lexer.imageEnd, ascii] at marked
      | cons c more =>
        have ends' : ((more ++ tail).head?.all Octet.endsWord) = true := endedAppend ends ended
        have marked' : Lexer.imageEnd.isPrefixOf (b :: (c :: more ++ tail)) = true := by
          simpa [Lexer.imageEnd, ascii] using marked
        simp only [marked', alone, Bool.true_and, Bool.not_true, Bool.false_or]
        exact ends'

theorem upToParts (marker : Bytes) (before : Option UInt8) (input : Bytes) :
    ∃ after, input = (upTo marker true before input).1 ++ after ∧
      (after = [] ∨ ((upTo marker true before input).1.getLast?.or before).all Octet.isBlank) := by
  induction input generalizing before with
  | nil => exact ⟨[], rfl, .inl rfl⟩
  | cons b rest ih =>
    simp only [upTo]
    split
    · rename_i here
      simp only [Bool.and_eq_true, Bool.not_true, Bool.false_or] at here
      exact ⟨b :: rest, rfl, .inr here.1.2⟩
    · obtain ⟨after, whole, ends⟩ := ih (some b)
      refine ⟨after, congrArg (b :: ·) whole, ends.imp_right fun alone => ?_⟩
      rw [List.getLast?_cons]
      cases last : (upTo marker true (some b) rest).1.getLast? with
      | none => simpa [last] using alone
      | some c => simpa [last] using alone

theorem upToSuffix (marker : Bytes) (alone : Bool) (before : Option UInt8) (input : Bytes) :
    (upTo marker alone before input).2 <:+ input := by
  induction input generalizing before with
  | nil => exact List.suffix_rfl
  | cons b rest ih =>
    simp only [upTo]
    split
    · exact List.drop_suffix _ _
    · exact (ih (some b)).trans (List.suffix_cons b rest)

theorem rawDataSuffix (marker : Bytes) (alone : Bool) (input : Bytes) :
    (rawData marker alone input).2 <:+ input := by
  cases input with
  | nil => exact upToSuffix marker alone none []
  | cons b rest =>
    simp only [rawData]
    split
    · exact (upToSuffix marker alone none rest).trans (List.suffix_cons b rest)
    · exact upToSuffix marker alone none (b :: rest)

theorem clearOf {input : Bytes} :
    Clear none (dropLastBlank (upTo Lexer.imageEnd true none input).1) := by
  obtain ⟨after, whole, ends⟩ := upToParts Lexer.imageEnd none input
  rcases found : upTo Lexer.imageEnd true none input with ⟨data, left⟩
  rw [found] at whole ends
  simp only at whole ends ⊢
  unfold dropLastBlank
  split
  · -- the blank that is dropped ends the data
    rename_i blank
    rcases List.eq_nil_or_concat data with rfl | ⟨rest, b, rfl⟩
    · simp at blank
    · rw [List.concat_eq_append] at *
      simp only [List.getLast?_concat, Option.any_some] at blank
      rw [List.dropLast_concat]
      have ended : Ended (b :: after) := .cons (by simp [Octet.endsWord, blank])
      refine @upToClear _ _ [b] left _ ended ?_
      rw [whole, List.append_assoc, List.singleton_append] at found
      exact found
  · rename_i blank
    obtain rfl | alone := ends
    · refine @upToClear _ _ [] left _ .nil ?_
      rw [whole] at found
      rw [found, List.append_nil]
    · -- a marker after no blank is the first thing in the input
      cases last : data.getLast? with
      | none =>
        rw [List.getLast?_eq_none_iff.mp last]
        trivial
      | some b => simp_all

theorem skipBlanksStops {bytes rest : Bytes} {b : UInt8} {inComment : Bool}
    (h : skipBlanks inComment bytes = b :: rest) : Octet.isBlank b = false ∧ b ≠ Octet.percent := by
  fun_induction skipBlanks inComment bytes with
  | case1 => contradiction
  | case2 b' rest' ih => exact ih h
  | case3 inComment b' rest' _ _ ih => exact ih h
  | case4 inComment b' rest' _ _ _ ih => exact ih h
  | case5 inComment b' rest' _ comment blank =>
    cases h
    exact ⟨by simpa using blank, by simpa using comment⟩

end Lexeme

theorem Lexer.rawDataClear (l : Lexer) : Lexeme.Clear none (l.rawData Lexer.imageEnd).1 := by
  simp only [Lexer.rawData, Lexeme.rawData]
  exact Lexeme.clearOf

theorem Lexer.nextRead {l l' : Lexer} {pos : Nat} {token : Token}
    (h : l.next = (some (.ok (pos, token)), l')) : Lexeme.Read token := by
  simp only [Lexer.next] at h
  split at h
  · simp at h
  · rename_i b rest found
    obtain ⟨blank, comment⟩ := Lexeme.skipBlanksStops found
    rcases read : Lexeme.lexeme b rest with ⟨flaw | t, left⟩
    · simp [read] at h
    · simp only [read, Prod.mk.injEq, Option.some.injEq, Except.ok.injEq] at h
      obtain ⟨⟨-, rfl⟩, -⟩ := h
      exact Lexeme.lexemeRead blank comment read

namespace Assembly

def Item.Readable : Item → Prop
  | .operand value => value.Readable ∧ value.kind ≠ .ref
  | .keyword name => Lexeme.Spoken name

def StackReadable (stack : List Frame) : Prop := ∀ frame ∈ stack, Operand.ReadableItems frame.items

def Progress.Readable : Progress → Prop
  | .item read => read.Readable
  | .inside stack => StackReadable stack

theorem placeReadable {value : Operand} {stack : List Frame} (h : value.Readable)
    (direct : value.kind ≠ .ref) (around : StackReadable stack) : (place value stack).Readable := by
  cases stack with
  | nil => exact ⟨h, direct⟩
  | cons frame outer =>
    change StackReadable (_ :: outer)
    intro f member
    obtain rfl | later := List.mem_cons.mp member
    · exact ⟨h, around frame List.mem_cons_self⟩
    · exact around f (List.mem_cons_of_mem _ later)

theorem scalarReadable {s : Scalar} (h : s.Readable) : (Operand.ofScalar s).Readable := by
  cases s with
  | real x => exact fun same => by contradiction
  | _ => exact h

theorem referenceReadable {items after : List Operand} (h : reference? items = some after)
    (readable : Operand.ReadableItems items) : Operand.ReadableItems after := by
  unfold reference? at h
  split at h
  · split at h
    · cases h
      exact ⟨trivial, readable.2.2⟩
    · contradiction
  · contradiction

theorem pairsMember {items : List Operand} {es : List (String × Operand)} (h : pairs items = .ok es)
    {k : String} {o : Operand} (member : (k, o) ∈ es) : o ∈ items := by
  induction items using pairs.induct generalizing es with
  | case1 => cases h; simp at member
  | case2 => simp [pairs] at h
  | case3 key value rest name found ih =>
    simp only [pairs, found] at h
    cases later : pairs rest with
    | error flaw => simp [later, Except.map] at h
    | ok es' =>
      simp only [later, Except.map, Except.ok.injEq] at h
      subst h
      obtain same | there := List.mem_cons.mp member
      · cases same
        simp
      · exact List.mem_cons_of_mem _ (List.mem_cons_of_mem _ (ih later there))
  | case4 key value rest found =>
    simp [pairs, found] at h

theorem entriesMember {items : List Operand} {d : Dict Operand} (h : entries items = .ok d) :
    Dict.Distinct d ∧ ∀ k o, (k, o) ∈ d → o ∈ items := by
  unfold entries at h
  split at h
  · cases found : pairs items with
    | error flaw => simp [found, Except.map] at h
    | ok es =>
      simp only [found, Except.map, Except.ok.injEq] at h
      subst h
      exact ⟨Dict.ofListDistinct es, fun k o member => pairsMember found (Dict.ofListMember member)⟩
  · contradiction

theorem entriesReadable {items : List Operand} {d : Dict Operand} (h : entries items = .ok d)
    (readable : Operand.ReadableItems items) : (Operand.dict none d).Readable := by
  obtain ⟨distinct, members⟩ := entriesMember h
  refine ⟨distinct, Operand.readableEntries.mpr fun k o there => ?_⟩
  exact Operand.readableItems.mp readable o (members k o there)

theorem readableReverse {items : List Operand} (h : Operand.ReadableItems items) :
    Operand.ReadableItems items.reverse := by
  rw [Operand.readableItems] at h ⊢
  exact fun o member => h o (List.mem_reverse.mp member)

theorem StackReadable.push {frame : Frame} {outer : List Frame}
    (h : Operand.ReadableItems frame.items) (around : StackReadable outer) :
    StackReadable (frame :: outer) := by
  intro f member
  obtain rfl | later := List.mem_cons.mp member
  · exact h
  · exact around f later

theorem StackReadable.outer {frame : Frame} {outer : List Frame}
    (h : StackReadable (frame :: outer)) :
    Operand.ReadableItems frame.items ∧ StackReadable outer :=
  ⟨h frame List.mem_cons_self, fun f member => h f (List.mem_cons_of_mem _ member)⟩

theorem stepReadable {pos : Nat} {token : Token} {stack : List Frame} {progress : Progress}
    (h : step pos token stack = .ok progress) (read : Lexeme.Read token)
    (around : StackReadable stack) : progress.Readable := by
  cases token with
  | value s =>
    cases h
    exact placeReadable (scalarReadable read) (by cases s <;> simp [Scalar.kind]) around
  | keyword name =>
    simp only [step] at h
    split at h
    · cases h
      exact read
    · split at h
      · rename_i frame outer items folded
        cases h
        split at folded
        · exact around.outer.2.push (referenceReadable folded around.outer.1)
        · contradiction
      · contradiction
  | arrayOpen => cases h; exact StackReadable.push trivial around
  | braceOpen => cases h; exact StackReadable.push trivial around
  | dictOpen => cases h; exact StackReadable.push trivial around
  | arrayClose =>
    simp only [step] at h
    split at h
    · cases h
      refine placeReadable ?_ (by simp [Operand.kind]) around.outer.2
      exact readableReverse around.outer.1
    · contradiction
  | braceClose =>
    simp only [step] at h
    split at h
    · cases h
      refine placeReadable ?_ (by simp [Operand.kind]) around.outer.2
      exact readableReverse around.outer.1
    · contradiction
  | dictClose =>
    simp only [step] at h
    split at h
    · split at h
      · rename_i d found
        cases h
        refine placeReadable ?_ (by simp [Operand.kind]) around.outer.2
        exact entriesReadable found (readableReverse around.outer.1)
      · contradiction
    · contradiction

theorem readReadable {fuel : Nat} {stack : List Frame} {l l' : Lexer} {pos : Nat} {item : Item}
    (h : readItem fuel stack l = (some (.ok (pos, item)), l')) (around : StackReadable stack) :
    item.Readable := by
  induction fuel generalizing stack l with
  | zero => simp [readItem] at h
  | succ fuel ih =>
    simp only [readItem] at h
    split at h
    · split at h <;> simp at h
    · simp at h
    · rename_i token _ shown
      split at h
      · simp at h
      · rename_i read ok
        cases h
        exact stepReadable ok (Lexer.nextRead shown) around
      · rename_i inner ok
        exact ih h (stepReadable ok (Lexer.nextRead shown) around)

theorem nextReadable {l l' : Lexer} {pos : Nat} {item : Item}
    (h : next l = (some (.ok (pos, item)), l')) : item.Readable :=
  readReadable h (fun _ member => by simp at member)

theorem readEntriesReadable {fuel : Nat} {l l' : Lexer} {values : List Operand}
    (h : readEntries fuel l = (.ok values, l')) : ∀ o ∈ values, o.Readable ∧ o.kind ≠ .ref := by
  induction fuel generalizing l l' values with
  | zero => simp [readEntries] at h
  | succ fuel ih =>
    simp only [readEntries] at h
    split at h
    · simp at h
    · simp at h
    · rename_i value left found
      rcases later : readEntries fuel left with ⟨fault | rest, last⟩
      · simp [later, Except.map] at h
      · simp only [later, Except.map, Prod.mk.injEq, Except.ok.injEq] at h
        obtain ⟨rfl, -⟩ := h
        intro o member
        obtain rfl | there := List.mem_cons.mp member
        · exact nextReadable found
        · exact ih later o there
    · split at h
      · cases h
        simp
      · simp at h

end Assembly

namespace ContentItem

def Readable : ContentItem → Prop
  | operand value => value.Readable ∧ value.kind ≠ .ref
  | operator name => Lexeme.Spoken name ∧ name ≠ "BI"
  | image entries data => Dict.Distinct entries ∧
    (∀ k o, (k, o) ∈ entries → o.Readable ∧ o.kind ≠ .ref) ∧
    (Assembly.isSelfEnding entries = false → Lexeme.Clear none data) ∧
    (Assembly.isSelfEnding entries = true → Lexeme.Sealed data)

end ContentItem

theorem Assembly.readImageReadable {l l' : Lexer} {item : ContentItem}
    (h : readImage l = (.ok item, l')) : item.Readable := by
  simp only [readImage] at h
  split at h
  · simp at h
  · rename_i values left read
    have readable := readEntriesReadable read
    split at h
    · simp at h
    · rename_i d found
      obtain ⟨distinct, members⟩ := entriesMember found
      have values : ∀ k o, (k, o) ∈ d → o.Readable ∧ o.kind ≠ .ref :=
        fun k o there => readable o (members k o there)
      split at h
      · rename_i ending
        split at h
        · split at h
          · cases h
            exact ⟨distinct, values, fun other => absurd (ending.symm.trans other) (by decide),
              fun _ => Lexeme.rawDataSealed _⟩
          · simp at h
        · simp at h
      · rename_i plain
        cases h
        exact ⟨distinct, values, fun _ => Lexer.rawDataClear _, fun ending => absurd ending plain⟩

namespace ContentItem.Reader

theorem nextReadable {r r' : Reader} {pos : Nat} {item : ContentItem}
    (h : r.next = (some (.ok (pos, item)), r')) : item.Readable := by
  simp only [next] at h
  split at h
  · simp at h
  · split at h
    · simp at h
    · simp at h
    · rename_i found
      cases h
      exact Assembly.nextReadable found
    · rename_i name left found
      split at h
      · split at h
        · rename_i image
          cases h
          exact Assembly.readImageReadable image
        · simp at h
      · rename_i other
        cases h
        exact ⟨Assembly.nextReadable found, other⟩

theorem runReadable {fuel : Nat} {r : Reader} {pos : Nat} {item : ContentItem}
    (h : .ok (pos, item) ∈ (run fuel r).1) : item.Readable := by
  induction fuel generalizing r with
  | zero => simp [run] at h
  | succ fuel ih =>
    simp only [run] at h
    split at h
    · simp at h
    · rename_i read r' found
      obtain rfl | later := List.mem_cons.mp h
      · exact nextReadable found
      · exact ih later

end ContentItem.Reader

theorem ContentItem.ofDataReadable {data : Bytes} {pos : Nat} {item : ContentItem}
    (h : .ok (pos, item) ∈ ContentItem.ofData data) : item.Readable :=
  ContentItem.Reader.runReadable h

end PageContent
