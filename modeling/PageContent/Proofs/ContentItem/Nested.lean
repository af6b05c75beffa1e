import PageContent.ContentItem
import PageContent.Fault

/-! Containers read by recursion, one call for what stands between two brackets, and the stack
of open brackets that does the same. -/
namespace PageContent

namespace Nested

abbrev Placed := Nat × Token

inductive Role where
  | value (scalar : Scalar)
  | word (name : String)
  | opens (bracket : Bracket)
  | closes (bracket : Bracket)

def role : Token → Role
  | .value s => .value s
  | .keyword name => .word name
  | .arrayOpen | .braceOpen => .opens .array
  | .dictOpen => .opens .dict
  | .arrayClose | .braceClose => .closes .array
  | .dictClose => .closes .dict

def pointer? : Operand → Operand → Option Operand
  | .scalar _ (.int num), .scalar _ (.int gen) =>
    (Assembly.unsigned? num).bind fun num =>
      (Assembly.unsigned? gen).map fun gen => .ref none ⟨num, gen⟩
  | _, _ => none

def folded? : List Operand → Option (List Operand)
  | [num, gen] => (pointer? num gen).map fun o => [o]
  | o :: rest => (folded? rest).map (o :: ·)
  | [] => none

def keyed (d : Dict Operand) : List Operand → Except DictFlaw (Dict Operand)
  | key :: value :: rest => match key.name? with
    | some name => keyed (d.set name value) rest
    | none => .error (.keyKind key.kind)
  | _ => .ok d

def closed (items : List Operand) : Bracket → Except DictFlaw Operand
  | .array => .ok (.array none items)
  | .dict => if items.length % 2 = 1 then .error .oddCount else (keyed [] items).map (.dict none)

structure Taken (tokens : List Placed) where
  value : Operand
  last : Nat
  left : List Placed
  shorter : left.length < tokens.length

def Taken.within {tokens tokens' : List Placed} (fewer : tokens.length ≤ tokens'.length)
    (taken : Taken tokens) : Taken tokens' :=
  { taken with shorter := Nat.lt_of_lt_of_le taken.shorter fewer }

/-- The rest of a container which was opened at `start` and has `items` so far. When the tokens
end, reading stops with `stop`, or as the container is not closed. -/
def content (stop : Option Fault) (bracket : Bracket) (start : Nat) (items : List Operand) :
    (tokens : List Placed) → Except Fault (Taken tokens)
  | [] => .error (stop.getD (.token start (.unclosed bracket)))
  | (pos, token) :: rest => match role token with
    | .value s =>
      (content stop bracket start (items ++ [.ofScalar s]) rest).map (.within (Nat.le_succ _))
    | .opens inner => match content stop inner pos [] rest with
      | .error fault => .error fault
      | .ok taken =>
        have shorter := Nat.lt_succ_of_lt taken.shorter
        (content stop bracket start (items ++ [taken.value]) taken.left).map
          (.within (Nat.le_of_lt shorter))
    | .closes other =>
      if other = bracket then match closed items bracket with
        | .ok value => .ok ⟨value, pos, rest, Nat.lt_succ_self _⟩
        | .error flaw => .error (.token pos (.entries flaw))
      else .error (.token pos (.closes other))
    | .word name => match if name = "R" then folded? items else none with
      | some items => (content stop bracket start items rest).map (.within (Nat.le_succ _))
      | none => .error (.token pos (.operatorInside name))
termination_by tokens => tokens.length

def items (stop : Option Fault) : List Placed → List (Except Fault (Nat × ContentItem))
  | [] => stop.toList.map .error
  | (pos, token) :: rest => match role token with
    | .value s => .ok (pos, .operand (.ofScalar s)) :: items stop rest
    | .word name => .ok (pos, .operator name) :: items stop rest
    | .opens bracket => match content stop bracket pos [] rest with
      | .error fault => [.error fault]
      | .ok taken =>
        have := Nat.lt_succ_of_lt taken.shorter
        .ok (taken.last, .operand taken.value) :: items stop taken.left
    | .closes bracket => [.error (.token pos (.closes bracket))]
termination_by tokens => tokens.length

theorem pointerReference (num gen : Operand) (below : List Operand) :
    Assembly.reference? (gen :: num :: below) = (pointer? num gen).map (· :: below) := by
  fun_cases pointer? num gen with
  | case1 _ num _ gen =>
    simp only [Assembly.reference?]
    cases Assembly.unsigned? num <;> cases Assembly.unsigned? gen <;> rfl
  | case2 _ _ other =>
    unfold Assembly.reference?
    split
    · rename_i same
      cases same
      exact (other _ _ _ _ rfl rfl).elim
    · rfl

theorem foldedEnd (num gen : Operand) (before : List Operand) :
    folded? (before ++ [num, gen]) = (pointer? num gen).map fun o => before ++ [o] := by
  induction before with
  | nil => rfl
  | cons o before ih =>
    rw [List.cons_append, folded?, ih, Option.map_map]
    · rfl
    · intro _ same
      have length := congrArg List.length same
      simp at length

theorem foldedReverse (items : List Operand) :
    folded? items.reverse = (Assembly.reference? items).map List.reverse := by
  match items with
  | [] => rfl
  | [o] =>
    have short : Assembly.reference? [o] = none := by
      unfold Assembly.reference?
      split
      · rename_i same
        cases same
      · rfl
    rw [short]
    rfl
  | gen :: num :: below =>
    rw [pointerReference, List.reverse_cons, List.reverse_cons, List.append_assoc]
    refine (foldedEnd num gen below.reverse).trans ?_
    cases pointer? num gen <;> simp

theorem pairsKeyed (d : Dict Operand) (items : List Operand) (even : items.length % 2 = 0) :
    (Assembly.pairs items).map (·.foldl (fun d (k, v) => d.set k v) d) = keyed d items := by
  fun_induction keyed d items with
  | case1 d key value rest name isName ih =>
    have tail := ih (by simp only [List.length_cons] at even; omega)
    rw [← tail, Assembly.pairs, isName]
    cases Assembly.pairs rest <;> rfl
  | case2 d key value rest noName => rw [Assembly.pairs, noName]; rfl
  | case3 items d short =>
    match items with
    | [] => rfl
    | [_] => simp at even
    | key :: value :: rest => exact (short key value rest rfl).elim

theorem closedDict (items : List Operand) :
    closed items .dict = (Assembly.entries items).map (.dict none) := by
  rw [closed, Assembly.entries]
  rcases Nat.mod_two_eq_zero_or_one items.length with even | odd
  · rw [if_pos even, if_neg (by omega), ← pairsKeyed [] items even]
    rfl
  · rw [if_pos odd, if_neg (by omega)]
    rfl

end Nested

namespace Assembly
open Nested (Placed Role role)

def Item.content : Item → ContentItem
  | .operand value => .operand value
  | .keyword name => .operator name

def assembled (stop : Option Fault) : List Frame → List Placed →
    List (Except Fault (Nat × ContentItem))
  | [], [] => stop.toList.map .error
  | frame :: _, [] => [.error (stop.getD (.token frame.start (.unclosed frame.bracket)))]
  | stack, (pos, token) :: rest => match step pos token stack with
    | .error fault => [.error fault]
    | .ok (.item item) => .ok (pos, item.content) :: assembled stop [] rest
    | .ok (.inside stack) => assembled stop stack rest

def goneOn (stop : Option Fault) (pos : Nat) (rest : List Placed) :
    Progress → List (Except Fault (Nat × ContentItem))
  | .item item => .ok (pos, item.content) :: assembled stop [] rest
  | .inside stack => assembled stop stack rest

section

variable {stop : Option Fault} {pos : Nat} {token : Token} {stack : List Frame}
  {rest : List Placed}

theorem assembledStep {progress : Progress} (ok : step pos token stack = .ok progress) :
    assembled stop stack ((pos, token) :: rest) = goneOn stop pos rest progress := by
  cases stack <;> rw [assembled, ok] <;> cases progress <;> rfl

theorem assembledFault {fault : Fault} (failed : step pos token stack = .error fault) :
    assembled stop stack ((pos, token) :: rest) = [.error fault] := by
  cases stack <;> rw [assembled, failed]

theorem stepValue {s : Scalar} (isValue : role token = .value s) :
    step pos token stack = .ok (place (.ofScalar s) stack) := by
  cases token <;> cases isValue
  rfl

theorem stepOpens {bracket : Bracket} (opens : role token = .opens bracket) :
    step pos token stack = .ok (.inside (⟨bracket, pos, []⟩ :: stack)) := by
  cases token <;> cases opens <;> rfl

theorem stepCloses {bracket : Bracket} (closes : role token = .closes bracket) (start : Nat)
    (items : List Operand) :
    step pos token (⟨bracket, start, items⟩ :: stack) =
      match Nested.closed items.reverse bracket with
      | .ok value => .ok (place value stack)
      | .error flaw => .error (.token pos (.entries flaw)) := by
  cases token with
  | arrayClose | braceClose => cases closes; rfl
  | dictClose =>
    cases closes
    rw [Nested.closedDict, step]
    cases entries items.reverse <;> rfl
  | _ => cases closes

theorem stepStray {bracket : Bracket} (closes : role token = .closes bracket)
    (other : ∀ frame ∈ stack.head?, frame.bracket ≠ bracket) :
    step pos token stack = .error (.token pos (.closes bracket)) := by
  cases stack with
  | nil => cases token <;> cases closes <;> rfl
  | cons frame outer =>
    obtain ⟨open', start, items⟩ := frame
    have other := other _ rfl
    cases open' <;> cases token <;> cases closes <;> first | rfl | exact absurd rfl other

theorem stepWord {name : String} (word : role token = .word name) (frame : Frame) :
    step pos token (frame :: stack) =
      match if name = "R" then Nested.folded? frame.items.reverse else none with
      | some items => .ok (.inside ({ frame with items := items.reverse } :: stack))
      | none => .error (.token pos (.operatorInside name)) := by
  cases token <;> cases word
  rw [Nested.foldedReverse, step]
  by_cases isR : name = "R"
  · rw [if_pos isR, if_pos isR]
    cases reference? frame.items <;> simp
  · rw [if_neg isR, if_neg isR]

theorem stepOutside {name : String} (word : role token = .word name) :
    step pos token [] = .ok (.item (.keyword name)) := by
  cases token <;> cases word
  rfl

def placed (stop : Option Fault) (outer : List Frame) {tokens : List Placed} :
    Except Fault (Nested.Taken tokens) → List (Except Fault (Nat × ContentItem))
  | .error fault => [.error fault]
  | .ok taken => goneOn stop taken.last taken.left (place taken.value outer)

theorem placedWithin {outer : List Frame} {tokens tokens' : List Placed}
    (fewer : tokens.length ≤ tokens'.length) (read : Except Fault (Nested.Taken tokens)) :
    placed stop outer (read.map (.within fewer)) = placed stop outer read := by
  cases read <;> rfl

theorem placeOpen (value : Operand) (bracket : Bracket) (start : Nat) (items : List Operand)
    (outer : List Frame) : place value (⟨bracket, start, items.reverse⟩ :: outer) =
      .inside (⟨bracket, start, (items ++ [value]).reverse⟩ :: outer) := by
  rw [List.reverse_append]
  rfl

def Agrees (stop : Option Fault) (tokens : List Placed) : Prop :=
  ∀ bracket start items outer,
    assembled stop (⟨bracket, start, items.reverse⟩ :: outer) tokens =
      placed stop outer (Nested.content stop bracket start items tokens)

theorem agreesValue {s : Scalar} (isValue : role token = .value s) (later : Agrees stop rest) :
    Agrees stop ((pos, token) :: rest) := by
  intro bracket start items outer
  rw [assembledStep (stepValue isValue), placeOpen, Nested.content, isValue]
  dsimp only
  rw [placedWithin]
  exact later _ _ _ _

theorem agreesOpens {inner : Bracket} (opens : role token = .opens inner)
    (later : ∀ left : List Placed, left.length ≤ rest.length → Agrees stop left) :
    Agrees stop ((pos, token) :: rest) := by
  intro bracket start items outer
  have read := later rest (Nat.le_refl _) inner pos [] (⟨bracket, start, items.reverse⟩ :: outer)
  rw [assembledStep (stepOpens opens), Nested.content, opens]
  refine read.trans ?_
  dsimp only
  -- The inner container fails for both, or the outer one goes on behind it.
  cases Nested.content stop inner pos [] rest with
  | error fault => rfl
  | ok taken =>
    rw [placedWithin, placed, placeOpen]
    exact later taken.left (Nat.le_of_lt taken.shorter) _ _ _ _

theorem agreesCloses {other : Bracket} (closes : role token = .closes other) :
    Agrees stop ((pos, token) :: rest) := by
  intro bracket start items outer
  rw [Nested.content, closes]
  dsimp only
  by_cases same : other = bracket
  · subst same
    have closing : step pos token (⟨other, start, items.reverse⟩ :: outer) = _ :=
      stepCloses closes start items.reverse
    rw [List.reverse_reverse] at closing
    rw [if_pos rfl]
    cases made : Nested.closed items other with
    | error flaw =>
      rw [made] at closing
      exact assembledFault closing
    | ok value =>
      rw [made] at closing
      exact assembledStep closing
  · rw [if_neg same]
    exact assembledFault (stepStray closes (by simpa using Ne.symm same))

theorem agreesWord {name : String} (word : role token = .word name) (later : Agrees stop rest) :
    Agrees stop ((pos, token) :: rest) := by
  intro bracket start items outer
  have spoken : step pos token (⟨bracket, start, items.reverse⟩ :: outer) = _ :=
    stepWord word ⟨bracket, start, items.reverse⟩
  rw [List.reverse_reverse] at spoken
  rw [Nested.content, word]
  dsimp only
  cases folds : if name = "R" then Nested.folded? items else none with
  | none =>
    rw [folds] at spoken
    exact assembledFault spoken
  | some items' =>
    rw [folds] at spoken
    dsimp only
    rw [assembledStep spoken, placedWithin]
    exact later _ _ _ _

theorem agrees (tokens : List Placed) : Agrees stop tokens := by
  induction size : tokens.length using Nat.strongRecOn generalizing tokens with
  | ind size ih =>
    subst size
    cases tokens with
    | nil =>
      intro bracket start items outer
      rw [Nested.content]
      rfl
    | cons first rest =>
      obtain ⟨pos, token⟩ := first
      have later (left : List Placed) (fewer : left.length ≤ rest.length) : Agrees stop left :=
        ih _ (Nat.lt_succ_of_le fewer) left rfl
      cases plays : role token with
      | value s => exact agreesValue plays (later rest (Nat.le_refl _))
      | opens inner => exact agreesOpens plays later
      | closes other => exact agreesCloses plays
      | word name => exact agreesWord plays (later rest (Nat.le_refl _))

theorem assembledItems (tokens : List Placed) :
    assembled stop [] tokens = Nested.items stop tokens := by
  induction size : tokens.length using Nat.strongRecOn generalizing tokens with
  | ind size ih =>
    subst size
    cases tokens with
    | nil =>
      rw [Nested.items]
      rfl
    | cons first rest =>
      obtain ⟨pos, token⟩ := first
      have later (left : List Placed) (fewer : left.length ≤ rest.length) :
          assembled stop [] left = Nested.items stop left :=
        ih _ (Nat.lt_succ_of_le fewer) left rfl
      rw [Nested.items]
      cases plays : role token with
      | value s =>
        rw [assembledStep (stepValue plays), ← later rest (Nat.le_refl _)]
        rfl
      | opens bracket =>
        have read : assembled stop [⟨bracket, pos, []⟩] rest = _ := agrees rest bracket pos [] []
        rw [assembledStep (stepOpens plays)]
        refine read.trans ?_
        dsimp only
        cases Nested.content stop bracket pos [] rest with
        | error fault => rfl
        | ok taken =>
          dsimp only
          rw [← later taken.left (Nat.le_of_lt taken.shorter)]
          rfl
      | closes bracket => exact assembledFault (stepStray plays (by simp))
      | word name =>
        rw [assembledStep (stepOutside plays), ← later rest (Nat.le_refl _)]
        rfl

end

end Assembly

end PageContent
