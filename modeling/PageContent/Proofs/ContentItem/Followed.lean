import PageContent.Proofs.ContentItem.Yielding
import PageContent.Proofs.Token.Followed

/-! Items read without a fault are read all the same when a line feed and more data come
after their data, and what is read after it is what that data alone holds, further on. -/
namespace PageContent

namespace Lexer

def followed (tail : Bytes) (l : Lexer) : Lexer := ⟨l.data ++ tail, l.rest ++ tail⟩

variable {tail : Bytes} {l l' : Lexer}

theorem positionFollowed (tail : Bytes) (l : Lexer) : (l.followed tail).position = l.position := by
  simp only [position, followed, List.length_append]
  exact Nat.add_sub_add_right _ _ _

theorem nextData (l : Lexer) : l.next.2.data = l.data := by
  simp only [next]
  split <;> rfl

theorem nextFollowed (ended : Ended tail) {read} (found : l.next = (some (.ok read), l')) :
    (l.followed tail).next = (some (.ok read), l'.followed tail) := by
  simp only [next] at found
  split at found
  · simp at found
  · rename_i b rest starts
    rcases token : Lexeme.lexeme b rest with ⟨flaw | token, left⟩
    · simp [token] at found
    · simp only [token] at found
      cases found
      have starts' := Lexeme.skipFollowed starts tail
      have position := positionFollowed tail ⟨l.data, b :: rest⟩
      simp only [followed, List.cons_append] at position
      simp only [next, followed, starts', Lexeme.lexemeFollowed ended token, starts, position]

theorem nextOver (found : l.next = (none, l')) (rest : Bytes) :
    (l.followed (Octet.lineFeed :: rest)).next =
      (Lexer.mk (l.data ++ Octet.lineFeed :: rest) rest).next := by
  simp only [next] at found
  split at found
  · rename_i all
    simp only [next, followed, Lexeme.skipOver all]
  · simp at found

end Lexer

namespace Assembly
variable {tail : Bytes} {l l' : Lexer}

theorem readItemFollowed (ended : Ended tail) {fuel fuel' : Nat} (more : fuel ≤ fuel')
    {stack : List Frame} {read} (found : readItem fuel stack l = (some (.ok read), l')) :
    readItem fuel' stack (l.followed tail) = (some (.ok read), l'.followed tail) := by
  induction fuel generalizing fuel' stack l with
  | zero => simp [readItem] at found
  | succ fuel ih =>
    obtain ⟨fuel', rfl⟩ := Nat.exists_eq_add_of_le' (Nat.le_of_add_left_le more)
    simp only [readItem] at found
    split at found
    · split at found <;> simp at found
    · simp at found
    · rename_i pos token l₁ shown
      simp only [readItem, Lexer.nextFollowed ended shown]
      split at found
      · simp at found
      · cases found
        rfl
      · exact ih (by omega) found

theorem nextFollowed (ended : Ended tail) {read} (found : next l = (some (.ok read), l')) :
    next (l.followed tail) = (some (.ok read), l'.followed tail) := by
  refine readItemFollowed ended ?_ found
  simp only [Lexer.followed, List.length_append]
  omega

theorem readEntriesFollowed (ended : Ended tail) {fuel fuel' : Nat} (more : fuel ≤ fuel')
    {values : List Operand} (found : readEntries fuel l = (.ok values, l')) :
    readEntries fuel' (l.followed tail) = (.ok values, l'.followed tail) := by
  induction fuel generalizing fuel' l values with
  | zero => simp [readEntries] at found
  | succ fuel ih =>
    obtain ⟨fuel', rfl⟩ := Nat.exists_eq_add_of_le' (Nat.le_of_add_left_le more)
    simp only [readEntries] at found
    split at found
    · simp at found
    · simp at found
    · rename_i pos value l₁ shown
      simp only [readEntries, nextFollowed ended shown]
      rcases later : readEntries fuel l₁ with ⟨_ | rest, l₂⟩
      · simp [later, Except.map] at found
      · simp only [later, Except.map] at found
        cases found
        rw [ih (by omega) later]
        rfl
    · rename_i pos name l₁ shown
      simp only [readEntries, nextFollowed ended shown]
      split at found
      · rename_i data
        cases found
        rw [if_pos data]
      · simp at found

def ImageEnds (l : Lexer) : Prop := ∀ values left d,
  readEntries (l.rest.length + 1) l = (.ok values, left) → entries values = .ok d →
  isSelfEnding d = false →
  Lexeme.Marked Lexer.imageEnd true none (Lexeme.dropFirstBlank left.rest)

theorem rawDataFollowed (ended : Ended tail) {marker : Bytes} (some : marker ≠ [])
    (marked : Lexeme.Marked marker (marker == Lexer.imageEnd) none
      (Lexeme.dropFirstBlank l.rest)) :
    (l.followed tail).rawData marker = ((l.rawData marker).1, (l.rawData marker).2.followed tail) := by
  simp only [Lexer.rawData, Lexer.followed, Lexeme.rawDataFollowed ended some marked]

theorem readImageFollowed (ended : Ended tail) (ends : ImageEnds l) {item : ContentItem}
    (found : readImage l = (.ok item, l')) :
    readImage (l.followed tail) = (.ok item, l'.followed tail) := by
  simp only [readImage] at found
  split at found
  · simp at found
  · rename_i values left read
    have enough : l.rest.length + 1 ≤ (l.followed tail).rest.length + 1 := by
      simp only [Lexer.followed, List.length_append]
      omega
    have read' := readEntriesFollowed ended enough read
    simp only [readImage, read']
    split at found
    · simp at found
    · rename_i d collected
      split at found
      · rename_i own
        rw [if_pos own]
        obtain ⟨marked, -⟩ | all := Lexeme.markedOrAll ascii85End
          (ascii85End == Lexer.imageEnd) none (Lexeme.dropFirstBlank left.rest)
        · rw [rawDataFollowed ended (by decide) marked]
          split at found
          · rename_i pos name l₁ shown
            simp only [nextFollowed ended shown]
            split at found
            · rename_i stops
              cases found
              rw [if_pos stops]
            · simp at found
          · simp at found
        · have atEnd : (left.rawData ascii85End).2 = ⟨left.data, []⟩ := by
            simp only [Lexer.rawData, Lexeme.rawDataExact, all]
          rw [atEnd] at found
          cases found
      · rename_i plain
        have marked := ends values left d read collected (by simpa using plain)
        rw [if_neg plain, rawDataFollowed ended (by decide) marked]
        cases found
        rfl

theorem readItemData (fuel : Nat) (stack : List Frame) (l : Lexer) :
    (readItem fuel stack l).2.data = l.data := by
  induction fuel generalizing stack l with
  | zero => rfl
  | succ fuel ih =>
    have first := Lexer.nextData l
    simp only [readItem]
    split <;> rename_i shown <;> rw [shown] at first
    · split <;> exact first
    · exact first
    · split
      · exact first
      · exact first
      · exact (ih _ _).trans first

theorem nextData (l : Lexer) : (next l).2.data = l.data := readItemData _ _ l

theorem readEntriesData (fuel : Nat) (l : Lexer) : (readEntries fuel l).2.data = l.data := by
  induction fuel generalizing l with
  | zero => rfl
  | succ fuel ih =>
    have first := nextData l
    simp only [readEntries]
    split <;> rename_i shown <;> rw [shown] at first
    · exact first
    · exact first
    · exact (ih _).trans first
    · split <;> exact first

theorem readImageData (l : Lexer) : (readImage l).2.data = l.data := by
  have values := readEntriesData (l.rest.length + 1) l
  simp only [readImage]
  split <;> rename_i read <;> rw [read] at values
  · exact values
  · rename_i left
    split
    · exact values
    · split
      · have last := (nextData (left.rawData ascii85End).2).trans values
        split <;> rename_i shown <;> rw [shown] at last
        · split <;> exact last
        · exact last
      · exact values

theorem placeInside {value : Operand} {stack stack' : List Frame}
    (h : place value stack = .inside stack') : stack' ≠ [] := by
  cases stack <;> cases h
  exact List.cons_ne_nil _ _

theorem stepInside {pos : Nat} {token : Token} {stack stack' : List Frame}
    (h : step pos token stack = .ok (.inside stack')) : stack' ≠ [] := by
  unfold step at h
  split at h
  · exact placeInside (Except.ok.inj h)
  · cases h
    exact List.cons_ne_nil _ _
  · cases h
    exact List.cons_ne_nil _ _
  · cases h
    exact List.cons_ne_nil _ _
  · split at h
    · exact placeInside (Except.ok.inj h)
    · simp at h
  · split at h
    · exact placeInside (Except.ok.inj h)
    · simp at h
  · split at h
    · split at h
      · exact placeInside (Except.ok.inj h)
      · simp at h
    · simp at h
  · split at h
    · simp at h
    · split at h
      · cases h
        exact List.cons_ne_nil _ _
      · simp at h

theorem readInside {fuel : Nat} {stack : List Frame} (enough : l.rest.length < fuel)
    (inside : stack ≠ []) : (readItem fuel stack l).1 ≠ none := by
  induction fuel generalizing stack l with
  | zero => exact absurd enough (Nat.not_lt_zero _)
  | succ fuel ih =>
    simp only [readItem]
    split
    · cases stack with
      | nil => exact absurd rfl inside
      | cons frame outer => simp
    · simp
    · rename_i shown
      have shorter := Lexer.nextShorter shown
      split
      · simp
      · simp
      · rename_i stepped
        exact ih (by omega) (stepInside stepped)

theorem nextEnds (found : next l = (none, l')) : ∃ l', l.next = (none, l') := by
  simp only [next, readItem] at found
  split at found
  · rename_i shown
    exact ⟨_, shown⟩
  · simp at found
  · rename_i shown
    split at found
    · simp at found
    · simp at found
    · rename_i stepped
      have nothing := readInside (Lexer.nextShorter shown) (stepInside stepped)
      rw [found] at nothing
      contradiction

theorem nextOver (found : next l = (none, l')) (rest : Bytes) :
    next (l.followed (Octet.lineFeed :: rest)) = next ⟨l.data ++ Octet.lineFeed :: rest, rest⟩ := by
  obtain ⟨_, shown⟩ := nextEnds found
  have same := Lexer.nextOver shown rest
  have read : next (l.followed (Octet.lineFeed :: rest)) =
      readItem ((l.followed (Octet.lineFeed :: rest)).rest.length + 1) []
        ⟨l.data ++ Octet.lineFeed :: rest, rest⟩ := by
    simp only [next, readItem, same]
  rw [read]
  refine readEnough ?_ (Nat.lt_succ_self _)
  simp only [Lexer.followed, List.length_append, List.length_cons]
  omega

end Assembly

namespace ContentItem.Reader
variable {tail : Bytes} {r r' r'' : Reader}

def followed (tail : Bytes) (r : Reader) : Reader := ⟨r.lexer.followed tail, r.failed⟩

inductive Reaches (r : Reader) : Reader → Prop where
  | start : Reaches r r
  | next {r' r'' read} (before : Reaches r r') (found : r'.next = (some read, r'')) : Reaches r r''

def ImagesEnd (r : Reader) : Prop := ∀ r' pos l, Reaches r r' →
  Assembly.next r'.lexer = (some (.ok (pos, .keyword "BI")), l) → Assembly.ImageEnds l

theorem Reaches.after {read} (found : r.next = (some read, r')) (later : Reaches r' r'') :
    Reaches r r'' := by
  induction later with
  | start => exact .next .start found
  | next _ found' ih => exact .next ih found'

theorem Reaches.first (h : Reaches r r'') :
    r'' = r ∨ ∃ read r', r.next = (some read, r') ∧ Reaches r' r'' := by
  induction h with
  | start => exact .inl rfl
  | next before found ih =>
    obtain rfl | ⟨read, r', first, between⟩ := ih
    · exact .inr ⟨_, _, found, .start⟩
    · exact .inr ⟨read, r', first, .next between found⟩

theorem ImagesEnd.next (h : r.ImagesEnd) {read} (found : r.next = (some read, r')) :
    r'.ImagesEnd :=
  fun r'' pos l later => h r'' pos l (later.after found)

theorem ImagesEnd.of
    (here : ∀ pos l, Assembly.next r.lexer = (some (.ok (pos, .keyword "BI")), l) →
      Assembly.ImageEnds l)
    (later : ∀ read r', r.next = (some read, r') → r'.ImagesEnd) : r.ImagesEnd := by
  intro r'' pos l reached shown
  obtain rfl | ⟨read, r', found, between⟩ := reached.first
  · exact here pos l shown
  · exact later read r' found r'' pos l between shown

theorem nextFollowed (ended : Ended tail) (ends : r.ImagesEnd) {read}
    (found : r.next = (some (.ok read), r')) :
    (r.followed tail).next = (some (.ok read), r'.followed tail) := by
  simp only [Reader.next] at found
  split at found
  · simp at found
  · rename_i working
    have working' : (r.followed tail).failed = false := by simpa [followed] using working
    have lexer : (r.followed tail).lexer = r.lexer.followed tail := rfl
    simp only [Reader.next, working', lexer, Bool.false_eq_true, if_false]
    split at found
    · simp at found
    · simp at found
    · rename_i shown
      cases found
      simp only [Assembly.nextFollowed ended shown]
      rfl
    · rename_i pos name l shown
      simp only [Assembly.nextFollowed ended shown]
      split at found
      · rename_i starts
        subst starts
        rw [if_pos rfl]
        split at found
        · rename_i image
          cases found
          simp only [Assembly.readImageFollowed ended (ends r pos l .start shown) image]
          rfl
        · simp at found
      · rename_i other
        cases found
        rw [if_neg other]
        rfl

theorem allNone (found : r.next = (none, r')) : r.all.1 = [] := by
  simp only [all, run, found]

theorem allSome {read} (found : r.next = (some read, r')) : r.all.1 = read :: r'.all.1 := by
  have enough := runEnough (nextShorter found) (Nat.lt_succ_self _)
  simp only [all, run, found, enough]

theorem allNext (same : r.next = r'.next) : r.all.1 = r'.all.1 := by
  rcases found : r.next with ⟨_ | read, left⟩
  · rw [allNone found, allNone (same.symm.trans found)]
  · rw [allSome found, allSome (same.symm.trans found)]

theorem nextOver (working : r.failed = false) (found : r.next = (none, r')) (rest : Bytes) :
    (r.followed (Octet.lineFeed :: rest)).next =
      (Reader.mk ⟨r.lexer.data ++ Octet.lineFeed :: rest, rest⟩ false).next := by
  have ended : ∃ l, Assembly.next r.lexer = (none, l) := by
    simp only [Reader.next, working, Bool.false_eq_true, if_false] at found
    split at found
    · rename_i shown
      exact ⟨_, shown⟩
    · simp at found
    · simp at found
    · split at found
      · split at found <;> simp at found
      · simp at found
  obtain ⟨l, shown⟩ := ended
  have lexer : (r.followed (Octet.lineFeed :: rest)).lexer =
      r.lexer.followed (Octet.lineFeed :: rest) := rfl
  have working' : (r.followed (Octet.lineFeed :: rest)).failed = false := working
  simp only [Reader.next, working', lexer, Assembly.nextOver shown, Bool.false_eq_true, if_false]

theorem nextWorking (working : r.failed = false) {read} (found : r.next = (some (.ok read), r')) :
    r'.failed = false := by
  simp only [Reader.next, working, Bool.false_eq_true, if_false] at found
  split at found
  · simp at found
  · simp at found
  · cases found
    rfl
  · split at found
    · split at found
      · cases found
        rfl
      · simp at found
    · cases found
      rfl

theorem nextData (r : Reader) : r.next.2.lexer.data = r.lexer.data := by
  simp only [Reader.next]
  split
  · rfl
  · have read := Assembly.nextData r.lexer
    split <;> rename_i shown <;> rw [shown] at read
    · exact read
    · exact read
    · exact read
    · rename_i l
      have image := Assembly.readImageData l
      split
      · split <;> rename_i shown' <;> rw [shown'] at image <;> exact image.trans read
      · exact read

theorem allFollowed (working : r.failed = false) (ends : r.ImagesEnd)
    (fine : ∀ read ∈ r.all.1, read.isOk = true) (rest : Bytes) :
    (r.followed (Octet.lineFeed :: rest)).all.1 = r.all.1 ++
      (Reader.mk ⟨r.lexer.data ++ Octet.lineFeed :: rest, rest⟩ false).all.1 := by
  induction size : r.lexer.rest.length using Nat.strongRecOn generalizing r with
  | ind size ih =>
    subst size
    rcases found : r.next with ⟨_ | read, r'⟩
    · rw [allNone found, List.nil_append]
      exact allNext (nextOver working found rest)
    · rw [allSome found] at fine ⊢
      cases read with
      | error fault => exact absurd (fine _ List.mem_cons_self) (by simp [Except.isOk, Except.toBool])
      | ok read =>
        have ended : Ended (Octet.lineFeed :: rest) := .cons rfl
        have later := ih _ (nextShorter found) (nextWorking working found) (ends.next found)
          (fun read member => fine read (List.mem_cons_of_mem _ member)) rfl
        have data := nextData r
        rw [found] at data
        rw [allSome (nextFollowed ended ends found), later, data, List.cons_append]

end ContentItem.Reader

end PageContent
