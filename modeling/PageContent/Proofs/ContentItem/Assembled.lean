import PageContent.Proofs.ContentItem.Followed
import PageContent.Proofs.ContentItem.Nested

/-! The items of a stream without images are those of its tokens, read by recursion. -/
namespace PageContent

namespace Lexer

variable {l l' : Lexer}

theorem runEnough {fuel fuel' : Nat} (h : l.rest.length < fuel) (h' : l.rest.length < fuel') :
    run fuel l = run fuel' l := by
  induction fuel generalizing fuel' l with
  | zero => exact absurd h (Nat.not_lt_zero _)
  | succ fuel ih =>
    cases fuel' with
    | zero => exact absurd h' (Nat.not_lt_zero _)
    | succ fuel' =>
      simp only [run]
      rcases shown : l.next with ⟨_ | read, l'⟩
      · rfl
      · have shorter := nextShorter shown
        simp only
        rw [@ih l' fuel' (by omega) (by omega)]

theorem allNone (shown : l.next = (none, l')) : l.all.1 = [] := by
  simp only [all, run, shown]

theorem allSome {read} (shown : l.next = (some read, l')) : l.all.1 = read :: l'.all.1 := by
  have enough := runEnough (nextShorter shown) (Nat.lt_succ_self _)
  simp only [all, run, shown, enough]

def upToFault : List (Except Fault (Nat × Token)) → List (Nat × Token) × Option Fault
  | [] => ([], none)
  | .error fault :: _ => ([], some fault)
  | .ok token :: rest => (token :: (upToFault rest).1, (upToFault rest).2)

def delivered (l : Lexer) : List (Nat × Token) × Option Fault := upToFault l.all.1

theorem deliveredNone (shown : l.next = (none, l')) : l.delivered = ([], none) := by
  rw [delivered, allNone shown]
  rfl

theorem deliveredFault {fault : Fault} (shown : l.next = (some (.error fault), l')) :
    l.delivered = ([], some fault) := by
  rw [delivered, allSome shown]
  rfl

theorem deliveredToken {token : Nat × Token} (shown : l.next = (some (.ok token), l')) :
    l.delivered = (token :: l'.delivered.1, l'.delivered.2) := by
  rw [delivered, allSome shown]
  rfl

end Lexer

namespace Assembly

theorem placeKeyword {value : Operand} {stack : List Frame} {name : String} :
    place value stack ≠ .item (.keyword name) := by
  cases stack <;> simp [place]

theorem stepKeyword {pos : Nat} {token : Token} {stack : List Frame} {name : String}
    (made : step pos token stack = .ok (.item (.keyword name))) : token = .keyword name := by
  cases token with
  | value s => exact absurd (Except.ok.inj made) placeKeyword
  | arrayOpen | braceOpen | dictOpen => cases made
  | arrayClose | braceClose =>
    simp only [step] at made
    split at made
    · exact absurd (Except.ok.inj made) placeKeyword
    · cases made
  | dictClose =>
    simp only [step] at made
    split at made
    · split at made
      · exact absurd (Except.ok.inj made) placeKeyword
      · cases made
    · cases made
  | keyword other =>
    simp only [step] at made
    split at made
    · cases made
      rfl
    · split at made <;> cases made

theorem stepWithin {pos : Nat} {token : Token} {stack : List Frame} {name : String}
    (inside : stack ≠ []) :
    step pos token stack ≠ .ok (.item (.keyword name)) := by
  intro made
  cases stepKeyword made
  cases stack with
  | nil => exact inside rfl
  | cons frame outer =>
    simp only [step] at made
    split at made <;> cases made

theorem readToken {l l' : Lexer} {pos : Nat} {token : Token} {stack : List Frame}
    (shown : l.next = (some (.ok (pos, token)), l')) : read stack l =
      match step pos token stack with
      | .error fault => (some (.error fault), l')
      | .ok (.item item) => (some (.ok (pos, item)), l')
      | .ok (.inside stack) => read stack l' := by
  have enough (stack : List Frame) : readItem l.rest.length stack l' = read stack l' :=
    readEnough (Lexer.nextShorter shown) (Nat.lt_succ_self _)
  simp only [read, readItem, shown] at enough ⊢
  cases step pos token stack with
  | error fault => rfl
  | ok progress =>
    cases progress with
    | item item => rfl
    | inside inner => exact enough inner

end Assembly

namespace ContentItem.Reader
open Assembly (Item Frame step assembled)

variable {l l' : Lexer} {pos : Nat}

def continued : Option (Except Fault (Nat × Item)) × Lexer → List (Except Fault (Nat × ContentItem))
  | (none, _) => []
  | (some (.error fault), _) => [.error fault]
  | (some (.ok (pos, .operand value)), l) => .ok (pos, .operand value) :: (Reader.mk l false).all.1
  | (some (.ok (pos, .keyword name)), l) =>
    if name = "BI" then match Assembly.readImage l with
      | (.ok item, l) => .ok (pos, item) :: (Reader.mk l false).all.1
      | (.error fault, _) => [.error fault]
    else .ok (pos, .operator name) :: (Reader.mk l false).all.1

theorem allContinued (l : Lexer) : (Reader.mk l false).all.1 = continued (Assembly.next l) := by
  have stopped (l' : Lexer) : (Reader.mk l' true).all.1 = [] := allNone rfl
  rcases found : Assembly.next l with ⟨_ | fault | ⟨pos, value | name⟩, l'⟩
  · have ends : (Reader.mk l false).next = (none, ⟨l', false⟩) := by simp [next, found]
    exact allNone ends
  · have fails : (Reader.mk l false).next = (some (.error fault), ⟨l', true⟩) := by
      simp [next, found]
    rw [allSome fails, stopped]
    rfl
  · have yields : (Reader.mk l false).next = (some (.ok (pos, .operand value)), ⟨l', false⟩) := by
      simp [next, found]
    exact allSome yields
  · by_cases image : name = "BI"
    · rw [continued, if_pos image]
      rcases made : Assembly.readImage l' with ⟨fault | item, left⟩
      · have fails : (Reader.mk l false).next = (some (.error fault), ⟨left, true⟩) := by
          simp [next, found, image, made]
        rw [allSome fails, stopped]
      · have yields : (Reader.mk l false).next = (some (.ok (pos, item)), ⟨left, false⟩) := by
          simp [next, found, image, made]
        exact allSome yields
    · have yields : (Reader.mk l false).next = (some (.ok (pos, .operator name)), ⟨l', false⟩) := by
        simp [next, found, image]
      rw [continued, if_neg image]
      exact allSome yields

theorem continuedItem {item : Item} (other : item ≠ .keyword "BI") :
    continued (some (.ok (pos, item)), l) =
      .ok (pos, item.content) :: continued (Assembly.next l) := by
  rw [← allContinued]
  cases item with
  | operand value => rfl
  | keyword name => exact if_neg fun same => other (congrArg _ same)

theorem readAssembled (l : Lexer) (stack : List Frame)
    (plain : ∀ t ∈ l.delivered.1, t.2 ≠ .keyword "BI") :
    continued (Assembly.read stack l) = assembled l.delivered.2 stack l.delivered.1 := by
  induction size : l.rest.length using Nat.strongRecOn generalizing l stack with
  | ind size ih =>
    subst size
    rcases shown : l.next with ⟨_ | fault | ⟨pos, token⟩, l'⟩
    · rw [Lexer.deliveredNone shown]
      cases stack <;> simp [Assembly.read, Assembly.readItem, shown, assembled, continued]
    · rw [Lexer.deliveredFault shown]
      cases stack <;> simp [Assembly.read, Assembly.readItem, shown, assembled, continued]
    · rw [Lexer.deliveredToken shown] at plain ⊢
      have later (stack : List Frame) := ih _ (Lexer.nextShorter shown) l' stack
        (fun t member => plain t (List.mem_cons_of_mem _ member)) rfl
      rw [Assembly.readToken shown]
      cases stepped : step pos token stack with
      | error fault =>
        rw [Assembly.assembledFault stepped]
        rfl
      | ok progress =>
        rw [Assembly.assembledStep stepped]
        cases progress with
        | inside inner => exact later inner
        | item item =>
          have other : item ≠ .keyword "BI" := by
            rintro rfl
            exact plain _ List.mem_cons_self (Assembly.stepKeyword stepped)
          exact (continuedItem other).trans (congrArg _ (later []))

/-- As long as no image begins, a reader yields what the tokens give when they are read by
recursion, up to and with the first fault. -/
theorem allNested (l : Lexer) (plain : ∀ t ∈ l.delivered.1, t.2 ≠ .keyword "BI") :
    (Reader.mk l false).all.1 = Nested.items l.delivered.2 l.delivered.1 := by
  rw [allContinued, ← Assembly.assembledItems]
  exact readAssembled l [] plain

def nestedText : Bytes :=
  ascii ['[', '<', '<', '/', 'K', ' ', '1', '/', 'K', ' ', '2', ' ', '0', ' ', 'R', '>', '>', '{', '}',
    ']', 'g', ' ', '3', ' ', '>', '>']

theorem allNestedText :
    (∀ t ∈ (Lexer.ofData nestedText).delivered.1, t.2 ≠ .keyword "BI") ∧
    (Reader.mk (Lexer.ofData nestedText) false).all.1 =
      Nested.items none (Lexer.ofData nestedText).delivered.1 ∧
    (Reader.mk (Lexer.ofData nestedText) false).all.1 =
      [.ok (19, .operand (.array none [.dict none [("K", .ref none ⟨2, 0⟩)], .array none []])),
        .ok (20, .operator "g"), .ok (22, .operand (.scalar none (.int 3))),
        .error (.token 24 (.closes .dict))] := by
  have plain : ∀ t ∈ (Lexer.ofData nestedText).delivered.1, t.2 ≠ .keyword "BI" := by decide +kernel
  exact ⟨plain, allNested _ plain, rfl⟩

end ContentItem.Reader

end PageContent
