import PageContent.Drawing.Show
import PageContent.Proofs.OperatorTree.Links

/-! Drawing is performing operators one after the other, each block's start and end around what
it holds. Most of them neither save nor restore, and mark no content. -/
namespace PageContent

/-- No beginning closes more than it opens, and in the end all is closed. -/
structure Balanced {α : Type} (opens closes : α → Bool) (l : List α) : Prop where
  opened : ∀ n, (l.take n).countP closes ≤ (l.take n).countP opens
  ended : l.countP closes = l.countP opens

namespace Balanced
variable {α : Type} {opens closes : α → Bool} {l l' : List α}

theorem bounded : Balanced opens closes l ↔
    (∀ n ≤ l.length, (l.take n).countP closes ≤ (l.take n).countP opens) ∧
      l.countP closes = l.countP opens := by
  refine ⟨fun h => ⟨fun n _ => h.opened n, h.ended⟩, fun h => ⟨fun n => ?_, h.2⟩⟩
  by_cases inside : n ≤ l.length
  · exact h.1 n inside
  · rw [List.take_of_length_le (by omega)]
    exact Nat.le_of_eq h.2

instance : Decidable (Balanced opens closes l) := decidable_of_iff _ bounded.symm

theorem nil : Balanced opens closes ([] : List α) := ⟨fun n => by simp, rfl⟩

theorem append (first : Balanced opens closes l) (later : Balanced opens closes l') :
    Balanced opens closes (l ++ l') where
  opened n := by
    rw [List.take_append, List.countP_append, List.countP_append]
    exact Nat.add_le_add (first.opened n) (later.opened _)
  ended := by rw [List.countP_append, List.countP_append, first.ended, later.ended]

theorem enclose {a b : α} (h : Balanced opens closes l) (start : opens a = true ∧ closes a = false)
    (stop : opens b = false ∧ closes b = true) : Balanced opens closes (a :: l ++ [b]) where
  opened n := by
    cases n with
    | zero => simp
    | succ n =>
      have inner := h.opened n
      have last : ([b].take (n - l.length)).countP closes ≤ 1 :=
        Nat.le_trans List.countP_le_length (List.length_take_le' _ _)
      rw [List.cons_append, List.take_succ_cons, List.take_append, List.countP_cons,
        List.countP_cons, List.countP_append, List.countP_append, start.1, start.2]
      simp only [if_true, Bool.false_eq_true, if_false]
      omega
  ended := by simp [List.countP_append, start, stop, h.ended]

end Balanced

namespace Drawing

structure Dispatch where
  name : String
  operands : List Operand
  deriving Repr

mutual

def dispatchesOf : Outline → List Dispatch
  | .node _ (.block start _) children =>
    ⟨start.name, start.operands⟩ :: dispatches children ++ [⟨start.endName, []⟩]
  | .node _ (.image _ _) _ => []
  | .node _ op _ => [⟨op.name, op.operands⟩]

def dispatches : List Outline → List Dispatch
  | [] => []
  | o :: rest => dispatchesOf o ++ dispatches rest

end

def performAll (encoding : Encoding) (s : State) : List Dispatch → Outcome
  | [] => s.silent
  | d :: rest =>
    let (s, events) := perform encoding s d.name d.operands
    let (s, more) := performAll encoding s rest
    (s, events ++ more)

theorem dispatchesAppend (as bs : List Outline) :
    dispatches (as ++ bs) = dispatches as ++ dispatches bs := by
  induction as with
  | nil => rfl
  | cons o rest ih => simp only [List.cons_append, dispatches, ih, List.append_assoc]

section
variable (encoding : Encoding)

theorem performAllAppend (s : State) (as bs : List Dispatch) :
    performAll encoding s (as ++ bs) =
      ((performAll encoding (performAll encoding s as).1 bs).1,
        (performAll encoding s as).2 ++ (performAll encoding (performAll encoding s as).1 bs).2) := by
  induction as generalizing s with
  | nil => rfl
  | cons d rest ih => simp only [List.cons_append, performAll, ih, List.append_assoc]

theorem performOne (s : State) (d : Dispatch) :
    performAll encoding s [d] = perform encoding s d.name d.operands := by
  simp [performAll, State.silent]

theorem drawNode (s : State) (id : Nat) (op : Instruction) {children : List Outline}
    (below : ∀ s, drawAll encoding s children = performAll encoding s (dispatches children)) :
    draw encoding s (.node id op children) =
      performAll encoding s (dispatchesOf (.node id op children)) := by
  cases op with
  | block start stop =>
    simp only [draw, dispatchesOf, List.cons_append, performAll, performAllAppend, below,
      State.silent, List.append_nil, List.append_assoc]
  | image entries data => rw [draw, dispatchesOf, performAll]
  | simple k => rw [draw, dispatchesOf, performOne] <;> exact fun _ _ same => by cases same
  | unknown name os => rw [draw, dispatchesOf, performOne] <;> exact fun _ _ same => by cases same

theorem drawAllPerformed (s : State) (os : List Outline) :
    drawAll encoding s os = performAll encoding s (dispatches os) := by
  induction os using Outline.forest generalizing s with
  | nil => rfl
  | cons id op children rest below later =>
    simp only [drawAll, dispatches, performAllAppend, drawNode encoding s id op below, later]

end

inductive Tag where
  | opened (name : String) (properties : Option Operand)
  | closed
  deriving Repr

namespace Tag

@[simp] def isOpened : Tag → Bool
  | opened _ _ => true
  | closed => false

@[simp] def isClosed : Tag → Bool
  | opened _ _ => false
  | closed => true

end Tag

def Event.tag? : Event → Option Tag
  | .beginTag name properties => some (.opened name properties)
  | .endTag => some .closed
  | _ => none

def ctmAfter (ctm : Matrix) : List Event → Matrix
  | [] => ctm
  | .ctm m :: rest => ctmAfter m rest
  | _ :: rest => ctmAfter ctm rest

theorem ctmAfterAppend (ctm : Matrix) (as bs : List Event) :
    ctmAfter ctm (as ++ bs) = ctmAfter (ctmAfter ctm as) bs := by
  induction as generalizing ctm with
  | nil => rfl
  | cons e rest ih => cases e <;> exact ih _

theorem performRestore {encoding : Encoding} {s : State} {ctm : Matrix} {text : TextState}
    {below : List (Matrix × TextState)} (saved : s.saved = (ctm, text) :: below)
    (operands : List Operand) :
    perform encoding s "Q" operands = (⟨ctm, text, below⟩, [.ctm ctm]) := by
  cases s
  subst saved
  rfl

theorem performUnsaved {encoding : Encoding} {s : State} (unsaved : s.saved = [])
    (operands : List Operand) : perform encoding s "Q" operands = s.silent := by
  cases s
  subst unsaved
  rfl

structure Plain (s : State) (o : Outcome) : Prop where
  saved : o.1.saved = s.saved
  tags : o.2.filterMap Event.tag? = []
  ctm : ctmAfter s.ctm o.2 = o.1.ctm

namespace Plain
variable {s : State} {o : Outcome}

theorem silent (s : State) : Plain s s.silent := ⟨rfl, rfl, rfl⟩

theorem setCtm (s : State) (m : Matrix) : Plain s (s.setCtm m) := ⟨rfl, rfl, rfl⟩

theorem ofText {text : TextState} (h : Plain { s with text } o) : Plain s o :=
  ⟨h.saved, h.tags, h.ctm⟩

theorem setText (s : State) (text : TextState) : Plain s (s.setText text) := ofText (silent _)

theorem append {o' : Outcome} (first : Plain s o) (later : Plain o.1 o') :
    Plain s (o'.1, o.2 ++ o'.2) where
  saved := later.saved.trans first.saved
  tags := by rw [List.filterMap_append, first.tags, later.tags, List.append_nil]
  ctm := by rw [ctmAfterAppend, first.ctm, later.ctm]

theorem write (s : State) (cs : List Char) : Plain s (s.write cs) := by
  induction cs generalizing s with
  | nil => exact silent s
  | cons c rest ih =>
    have later : Plain s ((s.advance c).write rest) := ofText (ih (s.advance c))
    exact ⟨later.saved, later.tags, later.ctm⟩

variable (encoding : Encoding)

theorem writeOperand (s : State) (o : Option Operand) : Plain s (s.writeOperand encoding o) := by
  unfold State.writeOperand
  split
  · exact write s _
  · exact silent s

theorem writeItems (s : State) (os : List Operand) : Plain s (s.writeItems encoding os) := by
  induction os generalizing s with
  | nil => exact silent s
  | cons o rest ih =>
    unfold State.writeItems
    cases o.number? with
    | some adjust => exact (setText s _).append (ih _)
    | none => exact (writeOperand encoding s (some o)).append (ih _)

theorem assign (s : State) (operands : List Operand) (f : TextState → Float → TextState) :
    Plain s (Drawing.assign s operands f) := by
  unfold Drawing.assign
  split
  · exact setText s _
  · exact silent s

theorem performed (s : State) {name : String} (operands : List Operand)
    (other : name ∉ ["q", "Q", "BMC", "BDC", "EMC"]) :
    Plain s (perform encoding s name operands) := by
  unfold perform
  split
  · exact absurd (by decide) other
  · exact absurd (by decide) other
  · split
    · exact setCtm s _
    · exact silent s
  · exact setText s _
  · exact absurd (by decide) other
  · exact absurd (by decide) other
  · exact absurd (by decide) other
  · split <;> exact ⟨rfl, rfl, rfl⟩
  · split <;> exact ⟨rfl, rfl, rfl⟩
  · split
    · exact setText s _
    · exact silent s
  · exact assign s operands _
  · exact assign s operands _
  · exact assign s operands _
  · exact assign s operands _
  · exact assign s operands _
  · split
    · exact ofText (silent _)
    · exact silent s
  · split
    · exact ofText (silent _)
    · exact silent s
  · split
    · exact setText s _
    · exact silent s
  · exact ofText (silent _)
  · exact writeOperand encoding s _
  · exact ofText (writeOperand encoding _ _)
  · exact ofText (writeOperand encoding _ _)
  · exact writeItems encoding s _
  · exact silent s

end Plain

end Drawing

end PageContent
