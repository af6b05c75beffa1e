import PageContent.Proofs.Builder.Listing
import PageContent.Proofs.ContentItem.Assembled
import PageContent.Proofs.Token.Faulty

/-! The same octets inside a bracket and before a name. Inside the bracket everything stands on
one more frame, and the bracket that closes stands where the name would. -/
namespace PageContent

def closing : Bytes := [Octet.lineFeed, Octet.bracketClose]

def naming : Bytes := Octet.lineFeed :: ascii ['f', 'o', 'o']

theorem closingBarren : Lexeme.Barren closing := by
  refine ⟨⟨_, rfl⟩, by decide, fun high => ?_⟩
  cases high <;> exact ⟨_, rfl⟩

theorem namingBarren : Lexeme.Barren naming := by
  refine ⟨⟨_, rfl⟩, by decide, fun high => ?_⟩
  cases high <;> exact ⟨_, rfl⟩

namespace Lexer

variable {l l' : Lexer}

theorem nextFaulty {tail : Bytes} (barren : Lexeme.Barren tail) {fault : Fault}
    (found : l.next = (some (.error fault), l')) :
    ∃ fault l', (l.followed tail).next = (some (.error fault), l') := by
  simp only [next] at found
  split at found
  · simp at found
  · rename_i b rest starts
    rcases token : Lexeme.lexeme b rest with ⟨flaw | token, left⟩
    · obtain ⟨flaw', left', later⟩ := Lexeme.lexemeFaulty barren token
      have starts' := Lexeme.skipFollowed starts tail
      exact ⟨_, _, by simp only [next, followed, starts', later]; rfl⟩
    · simp [token] at found

theorem nextClosing (found : l.next = (none, l')) : ∃ pos,
    (l.followed closing).next = (some (.ok (pos, .arrayClose)), ⟨l.data ++ closing, []⟩) :=
  ⟨_, nextOver found [Octet.bracketClose]⟩

theorem nextNaming (found : l.next = (none, l')) : ∃ pos,
    (l.followed naming).next = (some (.ok (pos, .keyword "foo")), ⟨l.data ++ naming, []⟩) :=
  ⟨_, nextOver found (ascii ['f', 'o', 'o'])⟩

end Lexer

namespace Assembly

variable {l l' : Lexer} {pos : Nat} {token : Token} {inner : List Frame} {frame : Frame}

def above (frame : Frame) : Progress → Progress
  | .item (.operand value) => .inside [{ frame with items := value :: frame.items }]
  | .item (.keyword name) => .item (.keyword name)
  | .inside stack => .inside (stack ++ [frame])

theorem placeAbove (frame : Frame) (value : Operand) (inner : List Frame) :
    place value (inner ++ [frame]) = above frame (place value inner) := by
  cases inner <;> rfl

theorem aboveInside (frame : Frame) {progress : Progress}
    (complete : ∀ name, progress ≠ .item (.keyword name)) :
    ∃ stack, stack ≠ [] ∧ above frame progress = .inside stack := by
  rcases progress with (value | name) | stack
  · exact ⟨_, List.cons_ne_nil _ _, rfl⟩
  · exact absurd rfl (complete name)
  · exact ⟨stack ++ [frame], by simp, rfl⟩

theorem stepAbove (array : frame.bracket = .array) (pos : Nat)
    (within : inner ≠ [] ∨
      token ≠ .arrayClose ∧ token ≠ .braceClose ∧ ∀ name, token ≠ .keyword name) :
    step pos token (inner ++ [frame]) = (step pos token inner).map (above frame) := by
  obtain ⟨bracket, start, items⟩ := frame
  obtain rfl : bracket = .array := array
  cases token with
  | value s => exact congrArg Except.ok (placeAbove _ _ _)
  | arrayOpen | braceOpen | dictOpen => rfl
  | arrayClose | braceClose =>
    rcases inner with _ | ⟨⟨bracket, start, items⟩, outer⟩
    · simp at within
    · cases bracket with
      | array => exact congrArg Except.ok (placeAbove _ _ _)
      | dict => rfl
  | dictClose =>
    rcases inner with _ | ⟨⟨bracket, start, items⟩, outer⟩
    · rfl
    · cases bracket with
      | array => rfl
      | dict =>
        simp only [step, List.cons_append]
        cases entries items.reverse with
        | error flaw => rfl
        | ok d => exact congrArg Except.ok (placeAbove _ _ _)
  | keyword name =>
    rcases inner with _ | ⟨f, outer⟩
    · simp at within
    · simp only [step, List.cons_append]
      split <;> rfl

theorem readFault {stack : List Frame} {fault : Fault} (shown : l.next = (some (.error fault), l')) :
    read stack l = (some (.error fault), l') := by
  simp only [read, readItem, shown]

theorem readLeft {stack : List Frame} (inside : stack ≠ []) (data : Bytes) :
    ∃ fault, read stack ⟨data, []⟩ = (some (.error fault), ⟨data, []⟩) := by
  cases stack with
  | nil => exact absurd rfl inside
  | cons frame outer => exact ⟨_, rfl⟩

end Assembly

namespace ContentItem

theorem foldedSome {pending : List Operand} {items : List ContentItem}
    (some : pending ≠ [] ∨ items ≠ []) : folded pending items ≠ [] := by
  induction items generalizing pending with
  | nil => simpa [folded] using some
  | cons item rest ih =>
    cases item with
    | operand value => exact ih (.inl (List.cons_ne_nil _ _))
    | image entries data => simp [folded]
    | operator name =>
      simp only [folded]
      split
      · rename_i two
        refine ih (.inl ?_)
        rintro rfl
        split at two
        · unfold Assembly.reference? at two
          repeat' split at two
          all_goals cases two
        · cases two
      · simp [line]

theorem lineEnds {before os : List Operand} {name : String} {item : ContentItem}
    {rest : List ContentItem} (other : ∀ o, item ≠ .operand o)
    (same : before.map .operand ++ item :: rest = line name os) :
    before = os ∧ item = .operator name ∧ rest = [] := by
  induction before generalizing os with
  | nil =>
    cases os with
    | nil =>
      obtain ⟨rfl, rfl⟩ := List.cons.inj same
      exact ⟨rfl, rfl, rfl⟩
    | cons o os => exact absurd (List.cons.inj same).1 (other o)
  | cons o before ih =>
    cases os with
    | nil => cases (List.cons.inj same).1
    | cons o' os =>
      obtain ⟨head, tail⟩ := List.cons.inj same
      cases head
      obtain ⟨rfl, ends⟩ := ih tail
      exact ⟨rfl, ends⟩

inductive Verdict (pending : List Operand)
    (boxed named : List (Except Fault (Nat × ContentItem))) : Prop where
  | whole {pos : Nat} {os : List Operand} {placed : List (Nat × ContentItem)}
      (array : boxed = [.ok (pos, .operand (.array none os))]) (fine : named = placed.map .ok)
      (told : folded pending (placed.map (·.2)) = line "foo" os)
  | apart (unboxed : ∀ pos value, boxed ≠ [.ok (pos, .operand value)])
      (unlined : ∀ (placed : List (Nat × ContentItem)) os, named = placed.map .ok →
        folded pending (placed.map (·.2)) ≠ line "foo" os)

namespace Verdict

variable {pending : List Operand} {boxed named : List (Except Fault (Nat × ContentItem))}

theorem faulty {fault : Fault} (unboxed : ∀ pos value, boxed ≠ [.ok (pos, .operand value)]) :
    Verdict pending boxed [.error fault] := by
  refine .apart unboxed fun placed os fine => ?_
  cases placed <;> cases fine

theorem waits {pending' : List Operand} {item : ContentItem} (pos : Nat)
    (same : ∀ rest, folded pending (item :: rest) = folded pending' rest)
    (h : Verdict pending' boxed named) : Verdict pending boxed (.ok (pos, item) :: named) := by
  cases h with
  | @whole _ os placed array fine told =>
    have fine' : .ok (pos, item) :: named = ((pos, item) :: placed).map .ok := congrArg _ fine
    exact .whole array fine' ((same _).trans told)
  | apart unboxed unlined =>
    refine .apart unboxed fun placed os fine => ?_
    cases placed with
    | nil => cases fine
    | cons first rest =>
      obtain ⟨head, tail⟩ := List.cons.inj fine
      cases head
      rw [List.map_cons, same]
      exact unlined rest os tail

theorem stands {item : ContentItem} (pos : Nat) (other : ∀ o, item ≠ .operand o)
    (same : ∀ rest, folded pending (item :: rest) =
      pending.reverse.map .operand ++ item :: folded [] rest)
    (more : item = .operator "foo" → named ≠ [])
    (unboxed : ∀ pos value, boxed ≠ [.ok (pos, .operand value)]) :
    Verdict pending boxed (.ok (pos, item) :: named) := by
  refine .apart unboxed fun placed os fine told => ?_
  cases placed with
  | nil => cases fine
  | cons first rest =>
    obtain ⟨head, tail⟩ := List.cons.inj fine
    cases head
    rw [List.map_cons, same] at told
    obtain ⟨-, name, last⟩ := lineEnds other told
    refine foldedSome (.inr ?_) last
    intro empty
    refine more name ?_
    rw [tail, List.map_eq_nil_iff.mp empty, List.map_nil]

end Verdict

namespace Reader
open Assembly (Frame step above reference?)

variable {l l' : Lexer}

theorem continuedSome (some : l.next.1 ≠ none) : continued (Assembly.next l) ≠ [] := by
  rcases found : Assembly.next l with ⟨_ | fault | ⟨pos, value | name⟩, l'⟩
  · obtain ⟨l', ends⟩ := Assembly.nextEnds found
    rw [ends] at some
    exact absurd rfl some
  · exact List.cons_ne_nil _ _
  · exact List.cons_ne_nil _ _
  · simp only [continued]
    split
    · split <;> exact List.cons_ne_nil _ _
    · exact List.cons_ne_nil _ _

theorem followedSome {tail : Bytes} (barren : Lexeme.Barren tail)
    (more : ∀ l', l.next = (none, l') → (l.followed tail).next.1 ≠ none) :
    continued (Assembly.next (l.followed tail)) ≠ [] := by
  refine continuedSome ?_
  rcases shown : l.next with ⟨_ | fault | read, l'⟩
  · exact more l' shown
  · obtain ⟨fault', l', later⟩ := Lexer.nextFaulty barren shown
    simp [later]
  · simp [Lexer.nextFollowed barren.ended shown]

theorem closingSome (l : Lexer) : continued (Assembly.next (l.followed closing)) ≠ [] := by
  refine followedSome closingBarren fun l' shown => ?_
  obtain ⟨pos, later⟩ := Lexer.nextClosing shown
  simp [later]

theorem namingSome (l : Lexer) : continued (Assembly.next (l.followed naming)) ≠ [] := by
  refine followedSome namingBarren fun l' shown => ?_
  obtain ⟨pos, later⟩ := Lexer.nextNaming shown
  simp [later]

theorem verdictClosed {pending items : List Operand} {fault : Fault} (pos : Nat) (l : Lexer) :
    Verdict pending (continued (some (.ok (pos, .operand (.array none items))), l.followed closing))
      [.error fault] := by
  refine .faulty fun pos value same => ?_
  rw [continued, allContinued] at same
  exact closingSome l (List.cons.inj same).2

def boxed (l : Lexer) (inner : List Frame) (start : Nat) (pending : List Operand) :
    List (Except Fault (Nat × ContentItem)) :=
  continued (Assembly.read (inner ++ [⟨.array, start, pending⟩]) (l.followed closing))

def named (l : Lexer) (inner : List Frame) : List (Except Fault (Nat × ContentItem)) :=
  continued (Assembly.read inner (l.followed naming))

theorem verdictEnd (shown : l.next = (none, l')) (inner : List Frame) (start : Nat)
    (pending : List Operand) : Verdict pending (boxed l inner start pending) (named l inner) := by
  obtain ⟨p, closes⟩ := Lexer.nextClosing shown
  obtain ⟨q, names⟩ := Lexer.nextNaming shown
  rw [boxed, named, Assembly.readToken closes, Assembly.readToken names]
  cases inner with
  | nil =>
    have told : folded pending [.operator "foo"] = line "foo" pending.reverse := by simp [folded]
    exact @Verdict.whole _ _ _ p _ [(q, .operator "foo")] rfl rfl told
  | cons frame outer =>
    have inside : frame :: outer ≠ [] := List.cons_ne_nil _ _
    have refused : step q (.keyword "foo") (frame :: outer) =
        .error (.token q (.operatorInside "foo")) := by simp [step]
    rw [refused, Assembly.stepAbove rfl p (.inl inside)]
    cases stepped : step p .arrayClose (frame :: outer) with
    | error fault => exact .faulty fun pos value same => by cases same
    | ok progress =>
      obtain ⟨stack, some, same⟩ := Assembly.aboveInside ⟨.array, start, pending⟩
        fun name is => Assembly.stepWithin inside (stepped.trans (congrArg _ is))
      obtain ⟨fault, left⟩ := Assembly.readLeft some (l.data ++ closing)
      simp only [Except.map, same, left]
      exact .faulty fun pos value same => by cases same

theorem verdictStep {pos : Nat} {token : Token} (inner : List Frame) (start : Nat)
    (pending : List Operand) (shown : l.next = (some (.ok (pos, token)), l'))
    (within : inner ≠ [] ∨ token ≠ .arrayClose ∧ token ≠ .braceClose ∧ ∀ name, token ≠ .keyword name)
    (later : ∀ inner pending, Verdict pending (boxed l' inner start pending) (named l' inner)) :
    Verdict pending (boxed l inner start pending) (named l inner) := by
  rw [boxed, named, Assembly.readToken (Lexer.nextFollowed closingBarren.ended shown),
    Assembly.readToken (Lexer.nextFollowed namingBarren.ended shown),
    Assembly.stepAbove rfl pos within]
  cases stepped : step pos token inner with
  | error fault => exact .faulty fun pos value same => by cases same
  | ok progress =>
    rcases progress with (value | name) | stack
    · have rest := later [] (value :: pending)
      change Verdict pending (boxed l' [] start (value :: pending))
        (.ok (pos, .operand value) :: (Reader.mk (l'.followed naming) false).all.1)
      rw [allContinued]
      exact rest.waits pos fun _ => rfl
    · obtain rfl := Assembly.stepKeyword stepped
      obtain inside | ⟨-, -, other⟩ := within
      · exact absurd stepped (Assembly.stepWithin inside)
      · exact absurd rfl (other name)
    · exact later stack pending

-- A name right inside the bracket is a fault, unless it folds a reference there.
theorem verdictKeyword {pos : Nat} {name : String} (start : Nat) (pending : List Operand)
    (shown : l.next = (some (.ok (pos, .keyword name)), l'))
    (later : ∀ pending, Verdict pending (boxed l' [] start pending) (named l' [])) :
    Verdict pending (boxed l [] start pending) (named l []) := by
  rw [boxed, named, Assembly.readToken (Lexer.nextFollowed closingBarren.ended shown),
    Assembly.readToken (Lexer.nextFollowed namingBarren.ended shown)]
  simp only [step, List.nil_append]
  cases folds : if name = "R" then reference? pending else none with
  | some pending' =>
    obtain rfl : name = "R" := by
      by_cases same : name = "R"
      · exact same
      · rw [if_neg same] at folds
        cases folds
    have rest := later pending'
    change Verdict pending (boxed l' [] start pending')
      (.ok (pos, .operator "R") :: (Reader.mk (l'.followed naming) false).all.1)
    rw [allContinued]
    rw [if_pos rfl] at folds
    refine rest.waits pos fun rest => ?_
    simp only [folded, if_true, folds]
  | none =>
    have unboxed (fault : Fault) (pos : Nat) (value : Operand) :
        [Except.error fault] ≠ [.ok (pos, ContentItem.operand value)] := fun same => by cases same
    by_cases image : name = "BI"
    · simp only [continued, if_pos image]
      rcases made : Assembly.readImage (l'.followed naming) with ⟨fault | item, left⟩
      · exact .faulty (unboxed _)
      · obtain ⟨-, -, es, raw, -, -, rfl⟩ := Assembly.readImageRead made
        exact .stands pos (fun o same => by cases same) (fun rest => rfl)
          (fun same => by cases same) (unboxed _)
    · simp only [continued, if_neg image]
      refine .stands pos (fun o same => by cases same) (fun rest => ?_) ?_ (unboxed _)
      · simp only [folded, folds, line, List.append_assoc, List.singleton_append]
      · rw [allContinued]
        exact fun _ => namingSome l'

theorem verdict (l : Lexer) (inner : List Frame) (start : Nat) (pending : List Operand) :
    Verdict pending (boxed l inner start pending) (named l inner) := by
  induction size : l.rest.length using Nat.strongRecOn generalizing l inner pending with
  | ind size ih =>
    subst size
    rcases shown : l.next with ⟨_ | fault | ⟨pos, token⟩, l'⟩
    · exact verdictEnd shown inner start pending
    · obtain ⟨fault₁, l₁, boxes⟩ := Lexer.nextFaulty closingBarren shown
      obtain ⟨fault₂, l₂, names⟩ := Lexer.nextFaulty namingBarren shown
      rw [boxed, named, Assembly.readFault boxes, Assembly.readFault names]
      exact .faulty fun pos value same => by cases same
    · have later (inner : List Frame) (pending : List Operand) :=
        ih _ (Lexer.nextShorter shown) l' inner pending rfl
      cases inner with
      | cons frame outer =>
        exact verdictStep _ start pending shown (.inl (List.cons_ne_nil _ _)) later
      | nil =>
        cases token with
        | arrayClose | braceClose =>
          rw [boxed, named, Assembly.readToken (Lexer.nextFollowed closingBarren.ended shown),
            Assembly.readToken (Lexer.nextFollowed namingBarren.ended shown)]
          exact verdictClosed pos l'
        | keyword name => exact verdictKeyword start pending shown (later [])
        | value | arrayOpen | braceOpen | dictOpen | dictClose =>
          exact verdictStep _ start pending shown (.inr (by simp)) later

end Reader

end ContentItem

end PageContent
