import PageContent.Proofs.ContentItem.Behind
import PageContent.Proofs.Token.Fitting

/-! Reading always goes on: one reading either comes to the end of the data or past the first
octet that is neither blank nor in a comment. So readings in a row come to an end, whether they
find tokens or faults. -/
namespace PageContent

namespace Lexeme

def EndsLine (b : UInt8) : Prop := b = Octet.lineFeed ∨ b = Octet.carriageReturn

inductive Gap : Bytes → Prop where
  | nil : Gap []
  | blank {b rest} (blank : Octet.isBlank b = true) (after : Gap rest) : Gap (b :: rest)
  | comment {text b rest} (inside : ∀ c ∈ text, ¬EndsLine c) (ends : EndsLine b)
      (after : Gap rest) : Gap (Octet.percent :: (text ++ b :: rest))

inductive Silent : Bytes → Prop where
  | gap {bytes} (gap : Gap bytes) : Silent bytes
  | cut {gap text} (before : Gap gap) (inside : ∀ c ∈ text, ¬EndsLine c) :
      Silent (gap ++ Octet.percent :: text)

structure Starts (bytes gap : Bytes) (b : UInt8) (rest : Bytes) : Prop where
  split : bytes = gap ++ b :: rest
  gap : Gap gap
  solid : Octet.isBlank b = false
  plain : b ≠ Octet.percent

theorem goesWithin {b : UInt8} (inside : ¬EndsLine b) :
    (b != Octet.lineFeed && b != Octet.carriageReturn) = true := by
  simpa [EndsLine] using inside

theorem stopsAfter {b : UInt8} (ends : EndsLine b) :
    (b != Octet.lineFeed && b != Octet.carriageReturn) = false := by
  obtain rfl | rfl := ends <;> rfl

theorem commentCut {text : Bytes} (inside : ∀ c ∈ text, ¬EndsLine c) :
    skipBlanks true text = [] := by
  induction text with
  | nil => rfl
  | cons c rest ih =>
    rw [List.forall_mem_cons] at inside
    rw [skipBlanks, if_pos rfl, goesWithin inside.1, ih inside.2]

theorem commentSkipped {text : Bytes} {b : UInt8} (inside : ∀ c ∈ text, ¬EndsLine c)
    (ends : EndsLine b) (rest : Bytes) :
    skipBlanks true (text ++ b :: rest) = skipBlanks false rest := by
  induction text with
  | nil => rw [List.nil_append, skipBlanks, if_pos rfl, stopsAfter ends]
  | cons c more ih =>
    rw [List.forall_mem_cons] at inside
    rw [List.cons_append, skipBlanks, if_pos rfl, goesWithin inside.1, ih inside.2]

theorem lineEnd (bytes : Bytes) : (∀ c ∈ bytes, ¬EndsLine c) ∨
    ∃ text b rest, bytes = text ++ b :: rest ∧ (∀ c ∈ text, ¬EndsLine c) ∧ EndsLine b := by
  induction bytes with
  | nil => exact .inl (by simp)
  | cons c more ih =>
    by_cases ends : EndsLine c
    · exact .inr ⟨[], c, more, rfl, by simp, ends⟩
    obtain inside | ⟨text, b, rest, split, inside, ends'⟩ := ih
    · exact .inl (List.forall_mem_cons.mpr ⟨ends, inside⟩)
    · exact .inr ⟨c :: text, b, rest, by rw [split]; rfl, List.forall_mem_cons.mpr ⟨ends, inside⟩,
        ends'⟩

theorem Gap.skipped {gap : Bytes} (h : Gap gap) (rest : Bytes) :
    skipBlanks false (gap ++ rest) = skipBlanks false rest := by
  induction h with
  | nil => rfl
  | @blank b more blank after ih =>
    have other : b ≠ Octet.percent := by
      rintro rfl
      exact absurd blank (by decide)
    simp [skipBlanks, other, blank, ih]
  | comment inside ends after ih =>
    rw [List.cons_append, List.append_assoc, List.cons_append]
    simp [skipBlanks, commentSkipped inside ends, ih]

theorem Silent.skipped {bytes : Bytes} (h : Silent bytes) : skipBlanks false bytes = [] := by
  cases h with
  | gap gap => simpa [skipBlanks] using gap.skipped []
  | cut before inside =>
    rw [before.skipped]
    simp [skipBlanks, commentCut inside]

theorem Starts.skipped {bytes gap rest : Bytes} {b : UInt8} (h : Starts bytes gap b rest) :
    skipBlanks false bytes = b :: rest := by
  rw [h.split, h.gap.skipped]
  simp [skipBlanks, h.solid, h.plain]

theorem Gap.append {front gap : Bytes} (first : Gap front) (last : Gap gap) :
    Gap (front ++ gap) := by
  induction first with
  | nil => exact last
  | blank blank _ ih => exact .blank blank ih
  | comment inside ends _ ih =>
    rw [List.cons_append, List.append_assoc, List.cons_append]
    exact .comment inside ends ih

theorem Silent.behind {front bytes : Bytes} (first : Gap front) (h : Silent bytes) :
    Silent (front ++ bytes) := by
  cases h with
  | gap gap => exact .gap (first.append gap)
  | cut before inside =>
    rw [← List.append_assoc]
    exact .cut (first.append before) inside

theorem Starts.behind {front bytes gap rest : Bytes} {b : UInt8} (first : Gap front)
    (h : Starts bytes gap b rest) : Starts (front ++ bytes) (front ++ gap) b rest :=
  ⟨by rw [h.split, List.append_assoc], first.append h.gap, h.solid, h.plain⟩

theorem silentOrBehind {front bytes : Bytes} (first : Gap front)
    (h : Silent bytes ∨ ∃ gap b rest, Starts bytes gap b rest) :
    Silent (front ++ bytes) ∨ ∃ gap b rest, Starts (front ++ bytes) gap b rest := by
  obtain silent | ⟨gap, b, rest, starts⟩ := h
  · exact .inl (silent.behind first)
  · exact .inr ⟨front ++ gap, b, rest, starts.behind first⟩

theorem silentOrStarts (bytes : Bytes) : Silent bytes ∨ ∃ gap b rest, Starts bytes gap b rest := by
  match bytes with
  | [] => exact .inl (.gap .nil)
  | b :: rest =>
    by_cases blank : Octet.isBlank b = true
    · exact silentOrBehind (.blank blank .nil) (silentOrStarts rest)
    by_cases comment : b = Octet.percent
    · subst comment
      obtain inside | ⟨text, b, more, rfl, inside, ends⟩ := lineEnd rest
      · exact .inl (.cut .nil inside)
      · have later := silentOrBehind (.comment inside ends .nil) (silentOrStarts more)
        simpa using later
    · exact .inr ⟨[], b, rest, rfl, .nil, by simpa using blank, comment⟩
termination_by bytes.length

end Lexeme

namespace Lexer
open Lexeme

/-- One reading: the end of the data where no token starts before it, or else a token or a fault,
and a new position past the octet where the token starts. -/
inductive Passes (l : Lexer) : Option (Except Fault (Nat × Token)) → Lexer → Prop where
  | ended {l'} (silent : Silent l.rest) (last : l'.position = l.data.length) : Passes l none l'
  | read {l' item gap b rest} (starts : Starts l.rest gap b rest)
      (beyond : l.position + gap.length < l'.position) (inside : l'.position ≤ l.data.length)
      (placed : ∀ pos token, item = .ok (pos, token) → pos = l.position + gap.length) :
      Passes l (some item) l'

inductive Reads : Lexer → List (Except Fault (Nat × Token)) → Lexer → Prop where
  | done {l l'} (found : l.next = (none, l')) : Reads l [] l'
  | more {l l' item items last} (found : l.next = (some item, l')) (later : Reads l' items last) :
      Reads l (item :: items) last

def starts : List (Except Fault (Nat × Token)) → List Nat
  | [] => []
  | .ok (pos, _) :: items => pos :: starts items
  | .error _ :: items => starts items

variable {l l' : Lexer}

theorem silentNext (silent : Silent l.rest) : l.next = (none, ⟨l.data, []⟩) := by
  simp only [next, silent.skipped]

theorem passes (within : l.Within) {read} (found : l.next = (read, l')) : Passes l read l' := by
  obtain silent | ⟨gap, b, rest, starts⟩ := silentOrStarts l.rest
  · cases (silentNext silent).symm.trans found
    exact .ended silent rfl
  · have whole := congrArg List.length starts.split
    have left := (lexemeSuffix b rest).length_le
    have within : l.rest.length ≤ l.data.length := within
    rw [List.length_append, List.length_cons] at whole
    simp only [next, starts.skipped] at found
    cases found
    refine .read starts ?_ ?_ ?_
    · simp only [position]
      omega
    · simp only [position]
      omega
    · intro pos token same
      split at same
      · cases same
        simp only [position, List.length_cons]
        omega
      · cases same

theorem endedExact : l.next.1 = none ↔ Silent l.rest := by
  constructor
  · intro none
    obtain silent | ⟨gap, b, rest, starts⟩ := silentOrStarts l.rest
    · exact silent
    · simp [next, starts.skipped] at none
  · intro silent
    rw [silentNext silent]

theorem withinSeek (data : Bytes) (pos : Nat) : ((ofData data).seek pos).Within := by
  simp [Within, ofData, seek]

theorem seekPosition (data : Bytes) (pos : Nat) :
    ((ofData data).seek pos).position = min pos data.length := by
  simp only [position, seek, ofData, List.length_drop]
  omega

theorem seekBack (suffix : l.rest <:+ l.data) : (ofData l.data).seek l.position = l := by
  rw [seek, ofData, position, ← List.suffix_iff_eq_drop.mp suffix]

theorem runReads {fuel : Nat} (enough : l.rest.length < fuel) :
    Reads l (run fuel l).1 (run fuel l).2 := by
  induction fuel generalizing l with
  | zero => exact absurd enough (Nat.not_lt_zero _)
  | succ fuel ih =>
    rcases found : l.next with ⟨_ | item, l'⟩
    · simp only [run, found]
      exact .done found
    · have shorter := nextShorter found
      simp only [run, found]
      exact .more found (ih (by omega))

theorem Reads.run {items last} (h : Reads l items last) {fuel : Nat}
    (enough : l.rest.length < fuel) : run fuel l = (items, last) := by
  induction h generalizing fuel with
  | done found =>
    cases fuel with
    | zero => contradiction
    | succ fuel => simp only [Lexer.run, found]
  | more found later ih =>
    cases fuel with
    | zero => contradiction
    | succ fuel =>
      have shorter := nextShorter found
      have rest := @ih fuel (by omega)
      simp only [Lexer.run, found, rest]

theorem allReads (l : Lexer) : Reads l l.all.1 l.all.2 := runReads (Nat.lt_succ_self _)

theorem readsExact {items last} : Reads l items last ↔ l.all = (items, last) := by
  constructor
  · exact fun reads => reads.run (Nat.lt_succ_self _)
  · intro all
    have reads := allReads l
    rw [all] at reads
    exact reads

theorem Reads.bounded {items last} (h : Reads l items last) (within : l.Within) :
    last.position = l.data.length ∧ l.position + items.length ≤ l.data.length ∧
      (∀ pos ∈ starts items, l.position ≤ pos) ∧ (starts items).Pairwise (· < ·) := by
  induction h with
  | done found =>
    cases passes within found with
    | ended silent last => exact ⟨last, Nat.sub_le _ _, by simp [starts], .nil⟩
  | @more l l' item items last found later ih =>
    have data := nextData l
    have within' := nextKeepsWithin within
    rw [found] at data within'
    obtain ⟨ended, count, above, ordered⟩ := ih within'
    rw [data] at ended count
    cases passes within found with
    | read _ beyond inside placed =>
      refine ⟨ended, by rw [List.length_cons]; omega, ?_⟩
      cases item with
      | error fault => exact ⟨fun pos member => by have := above pos member; omega, ordered⟩
      | ok read =>
        obtain ⟨pos, token⟩ := read
        have first := placed pos token rfl
        have after (other : Nat) (member : other ∈ starts items) : pos < other := by
          have := above other member
          omega
        refine ⟨?_, List.pairwise_cons.mpr ⟨after, ordered⟩⟩
        intro other member
        obtain rfl | later := List.mem_cons.mp member
        · omega
        · have := after other later
          omega

/-- From any position, a reading finds nothing more exactly where only blanks and comments are
left, and then stands at the end of the data. Any other reading, of a token or a fault, stands
past the first octet that is neither, which is where a token starts, and no number on the way is
too large for a machine when the data is short. Readings in a row are therefore no more than the
octets, and their tokens start at greater and greater positions. -/
theorem readsOnward (data : Bytes) (pos : Nat) {l : Lexer} (start : l = (ofData data).seek pos) :
    l.position = min pos data.length ∧
    Passes l l.next.1 l.next.2 ∧ (l.next.1 = none ↔ Silent l.rest) ∧
    (data.length < 2 ^ 31 → Bounded.next l.position l.rest =
      some (l.next.1, ⟨l.next.2.position, l.next.2.rest⟩)) ∧
    l.next.2 = (ofData data).seek l.next.2.position ∧
    (∀ items last, Reads l items last ↔ l.all = (items, last)) ∧
    l.all.2.position = data.length ∧ l.position + l.all.1.length ≤ data.length ∧
    (∀ first ∈ starts l.all.1, l.position ≤ first) ∧ (starts l.all.1).Pairwise (· < ·) := by
  subst start
  have within := withinSeek data pos
  have suffix : ((ofData data).seek pos).next.2.rest <:+ data :=
    (nextSuffix rfl).trans (List.drop_suffix pos data)
  have back := seekBack (l := ((ofData data).seek pos).next.2) (by rw [nextData]; exact suffix)
  rw [nextData] at back
  exact ⟨seekPosition data pos, passes within rfl, endedExact,
    fun short => Bounded.nextExact ⟨short, within⟩, back.symm, fun _ _ => readsExact,
    (allReads _).bounded within⟩

def faultyText : Bytes := ascii " %x\n<4g>7 +.".toList

theorem readsOnwardPastFaults :
    Passes ((ofData faultyText).seek 1) (some (.error (.token 4 .hexString)))
      ((ofData faultyText).seek 6) ∧
    Bounded.next 1 (faultyText.drop 1) =
      some (some (.error (.token 4 .hexString)), ⟨6, ascii "g>7 +.".toList⟩) ∧
    ∃ items last, Reads ((ofData faultyText).seek 1) items last ∧ last.position = 12 ∧
      items.length = 5 ∧ starts items = [6, 8] := by
  obtain ⟨-, passes, -, fits, -, exact, last, -⟩ := readsOnward faultyText 1 rfl
  exact ⟨passes, fits (by decide), _, _, (exact _ _).mpr rfl, last, rfl, rfl⟩

end Lexer

end PageContent
