import PageContent.Proofs.ContentItem.Followed

/-! Items that are read behind other data are the items of what is read, at later places. -/
namespace PageContent

def Fault.later (n : Nat) : Fault → Fault
  | .token pos flaw => .token (pos + n) flaw
  | .malformed name flaw offset => .malformed name flaw (offset.map (· + n))
  | other => other

def readLater {α : Type} (n : Nat) : Except Fault (Nat × α) → Except Fault (Nat × α)
  | .ok (pos, value) => .ok (pos + n, value)
  | .error fault => .error (fault.later n)

namespace Lexer

def behind (front : Bytes) (l : Lexer) : Lexer := ⟨front ++ l.data, l.rest⟩

def Within (l : Lexer) : Prop := l.rest.length ≤ l.data.length

variable {l l' : Lexer}

theorem Within.left (h : l.Within) (data : l'.data = l.data)
    (shorter : l'.rest.length ≤ l.rest.length) : l'.Within := by
  rw [Within, data]
  exact Nat.le_trans shorter h

theorem positionBehind (h : l.Within) (front : Bytes) :
    (l.behind front).position = l.position + front.length := by
  have within : l.rest.length ≤ l.data.length := h
  simp only [position, behind, List.length_append]
  omega

theorem nextBehind (h : l.Within) (front : Bytes) :
    (l.behind front).next =
      (l.next.1.map (readLater front.length), l.next.2.behind front) := by
  have blanks := (Lexeme.skipBlanksSuffix false l.rest).length_le
  have place := positionBehind (l := ⟨l.data, Lexeme.skipBlanks false l.rest⟩)
    (h.left rfl blanks) front
  simp only [behind] at place
  simp only [next, behind]
  split
  · rfl
  · rename_i b rest starts
    simp only [place]
    rcases Lexeme.lexeme b rest with ⟨flaw | token, left⟩
    · cases flaw <;> rfl
    · rfl

theorem nextKeepsWithin (h : l.Within) : l.next.2.Within := by
  rcases shown : l.next with ⟨_ | read, l'⟩
  · exact h.left (by rw [← nextData l, shown]) (by rw [nextEnd shown]; exact Nat.zero_le _)
  · exact h.left (by rw [← nextData l, shown]) (Nat.le_of_lt (nextShorter shown))

end Lexer

namespace Assembly
variable {l l' : Lexer}

def Frame.later (n : Nat) (frame : Frame) : Frame := { frame with start := frame.start + n }

def Progress.later (n : Nat) : Progress → Progress
  | .item value => .item value
  | .inside stack => .inside (stack.map (Frame.later n))

theorem placeLater (n : Nat) (value : Operand) (stack : List Frame) :
    place value (stack.map (Frame.later n)) = (place value stack).later n := by
  cases stack <;> rfl

theorem stepLater (n pos : Nat) (token : Token) (stack : List Frame) :
    step (pos + n) token (stack.map (Frame.later n)) =
      ((step pos token stack).map (Progress.later n)).mapError (Fault.later n) := by
  cases token with
  | value s => exact congrArg Except.ok (placeLater n _ stack)
  | arrayOpen | braceOpen | dictOpen => rfl
  | arrayClose | braceClose =>
    rcases stack with _ | ⟨⟨bracket, start, items⟩, outer⟩
    · rfl
    · cases bracket with
      | array => exact congrArg Except.ok (placeLater n _ outer)
      | dict => rfl
  | dictClose =>
    rcases stack with _ | ⟨⟨bracket, start, items⟩, outer⟩
    · rfl
    · cases bracket with
      | array => rfl
      | dict =>
        simp only [step, List.map_cons, Frame.later]
        cases entries items.reverse with
        | error flaw => rfl
        | ok d => exact congrArg Except.ok (placeLater n _ outer)
  | keyword name =>
    rcases stack with _ | ⟨⟨bracket, start, items⟩, outer⟩
    · rfl
    · simp only [step, List.map_cons, Frame.later]
      split <;> rfl

theorem readItemBehind (h : l.Within) (front : Bytes) (fuel : Nat) (stack : List Frame) :
    readItem fuel (stack.map (Frame.later front.length)) (l.behind front) =
      ((readItem fuel stack l).1.map (readLater front.length),
        (readItem fuel stack l).2.behind front) := by
  induction fuel generalizing stack l with
  | zero => rfl
  | succ fuel ih =>
    have within := Lexer.nextKeepsWithin h
    simp only [readItem, Lexer.nextBehind h]
    rcases shown : l.next with ⟨_ | fault | ⟨pos, token⟩, l'⟩ <;> rw [shown] at within
    · cases stack <;> rfl
    · rfl
    · simp only [Option.map_some, readLater, stepLater]
      cases step pos token stack with
      | error fault => rfl
      | ok progress =>
        cases progress with
        | item value => rfl
        | inside stack => exact ih within stack

theorem nextBehind (h : l.Within) (front : Bytes) :
    next (l.behind front) = ((next l).1.map (readLater front.length), (next l).2.behind front) :=
  readItemBehind h front _ []

theorem nextKeepsWithin (h : l.Within) : (next l).2.Within :=
  h.left (nextData l) (nextSuffix rfl).length_le

theorem readEntriesBehind (h : l.Within) (front : Bytes) (fuel : Nat) :
    readEntries fuel (l.behind front) =
      ((readEntries fuel l).1.mapError (Fault.later front.length),
        (readEntries fuel l).2.behind front) := by
  induction fuel generalizing l with
  | zero => rfl
  | succ fuel ih =>
    have within := nextKeepsWithin h
    simp only [readEntries, nextBehind h]
    rcases shown : next l with ⟨_ | fault | ⟨pos, value | name⟩, l'⟩ <;> rw [shown] at within
    · rfl
    · rfl
    · simp only [Option.map_some, readLater, ih within]
      rcases readEntries fuel l' with ⟨_ | values, left⟩ <;> rfl
    · simp only [Option.map_some, readLater]
      split <;> rfl

theorem readImageBehind (h : l.Within) (front : Bytes) :
    readImage (l.behind front) =
      ((readImage l).1.mapError (Fault.later front.length), (readImage l).2.behind front) := by
  have values := readEntriesBehind h front (l.rest.length + 1)
  have within : (readEntries (l.rest.length + 1) l).2.Within :=
    h.left (readEntriesData _ l) (readEntriesSuffix rfl).length_le
  have size : (l.behind front).rest.length = l.rest.length := rfl
  simp only [readImage, size, values]
  rcases read : readEntries (l.rest.length + 1) l with ⟨fault | values, left⟩ <;> rw [read] at within
  · rfl
  · have kept : (Except.ok values : Except Fault (List Operand)).mapError
        (Fault.later front.length) = .ok values := rfl
    simp only [kept]
    cases entries values with
    | error flaw => rfl
    | ok d =>
      have raw (marker : Bytes) : (left.behind front).rawData marker =
          ((left.rawData marker).1, (left.rawData marker).2.behind front) := rfl
      have further : (left.rawData ascii85End).2.Within :=
        within.left rfl (rawDataSuffix left ascii85End).length_le
      simp only [raw, nextBehind further]
      split
      · rcases next (left.rawData ascii85End).2 with ⟨_ | fault | ⟨pos, value | name⟩, l'⟩
        · rfl
        · rfl
        · rfl
        · simp only [Option.map_some, readLater]
          split <;> rfl
      · rfl

end Assembly

namespace ContentItem.Reader
variable {r r' : Reader}

def behind (front : Bytes) (r : Reader) : Reader := ⟨r.lexer.behind front, r.failed⟩

theorem nextBehind (h : r.lexer.Within) (front : Bytes) :
    (r.behind front).next = (r.next.1.map (readLater front.length), r.next.2.behind front) := by
  have within := Assembly.nextKeepsWithin h
  obtain ⟨l, failed⟩ := r
  cases failed with
  | true => rfl
  | false =>
    simp only [Reader.next, behind, Assembly.nextBehind h, Bool.false_eq_true, if_false]
    rcases shown : Assembly.next l with ⟨_ | fault | ⟨pos, value | name⟩, l'⟩ <;> rw [shown] at within
    · rfl
    · rfl
    · rfl
    · simp only [Option.map_some, readLater]
      split
      · rw [Assembly.readImageBehind within]
        rcases Assembly.readImage l' with ⟨fault | item, left⟩ <;> rfl
      · rfl

theorem runBehind (h : r.lexer.Within) (front : Bytes) (fuel : Nat) :
    (run fuel (r.behind front)).1 = (run fuel r).1.map (readLater front.length) := by
  induction fuel generalizing r with
  | zero => rfl
  | succ fuel ih =>
    simp only [run, nextBehind h]
    rcases found : r.next with ⟨_ | read, r'⟩
    · rfl
    · have within : r'.lexer.Within :=
        h.left (by rw [← nextData r, found]) (Nat.le_of_lt (nextShorter found))
      simp only [Option.map_some, ih within, List.map_cons]

end ContentItem.Reader

theorem ContentItem.ofDataFollowed {data : Bytes} (ends : (Reader.ofData data).ImagesEnd)
    (fine : ∀ read ∈ ofData data, read.isOk = true) (rest : Bytes) :
    ofData (data ++ Octet.lineFeed :: rest) =
      ofData data ++ (ofData rest).map (readLater (data.length + 1)) := by
  have joined := Reader.allFollowed rfl ends fine rest
  have behind := Reader.runBehind (r := .ofData rest) (Nat.le_refl _) (data ++ [Octet.lineFeed])
    (rest.length + 1)
  have text : (Reader.ofData rest).behind (data ++ [Octet.lineFeed]) =
      ⟨⟨data ++ Octet.lineFeed :: rest, rest⟩, false⟩ := by
    simp [Reader.behind, Reader.ofData, Lexer.behind, Lexer.ofData]
  rw [text, List.length_append, List.length_singleton] at behind
  exact joined.trans (congrArg _ behind)

end PageContent
