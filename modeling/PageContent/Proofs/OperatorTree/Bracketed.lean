import PageContent.Proofs.Builder.Alone
import PageContent.Proofs.Builder.Joined
import PageContent.Proofs.ContentItem.Enclosed
import PageContent.Proofs.OperatorTree.Sole

/-! What stands before a name is read as its operands just as it is read as the items of an array
in brackets. -/
namespace PageContent

namespace ContentItem

theorem lineOfUnbound {items : List ContentItem} {name : String} {os : List Operand}
    (same : items.map unbound = line name os) :
    ∃ os', items = line name os' ∧ Operand.unboundItems os' = os := by
  induction items generalizing os with
  | nil => cases os <;> cases same
  | cons item rest ih =>
    cases os with
    | nil =>
      obtain ⟨head, tail⟩ := List.cons.inj same
      cases item with
      | operator other =>
        cases head
        exact ⟨[], by rw [List.map_eq_nil_iff.mp tail]; rfl, rfl⟩
      | operand value => cases head
      | image entries data => cases head
    | cons o os =>
      obtain ⟨head, tail⟩ := List.cons.inj same
      obtain ⟨os', line, whole⟩ := ih tail
      cases item with
      | operand value =>
        cases head
        exact ⟨value :: os', by rw [line]; rfl, by rw [Operand.unboundItems, whole]⟩
      | operator other => cases head
      | image entries data => cases head

end ContentItem

namespace Builder
open ContentItem (folded line)

theorem addLineFolded {b : Builder} {items : List ContentItem} {os : List Operand}
    (told : folded b.pending items = line "foo" os) :
    b.addEach items = (b.cleared.append ((Instruction.unknown "foo" os).bind b.binding), none) := by
  induction items generalizing b with
  | nil =>
    have last : ContentItem.operator "foo" ∈ b.pending.reverse.map ContentItem.operand := by
      rw [show b.pending.reverse.map ContentItem.operand = line "foo" os from told]
      exact List.mem_append_right _ List.mem_cons_self
    obtain ⟨value, -, same⟩ := List.mem_map.mp last
    cases same
  | cons item rest ih =>
    cases item with
    | operand value => exact ih (b := { b with pending := value :: b.pending }) told
    | image entries data =>
      obtain ⟨-, same, -⟩ := ContentItem.lineEnds (fun o same => by cases same) told
      cases same
    | operator name =>
      simp only [folded] at told
      cases folds : if name = "R" then Assembly.reference? b.pending else none with
      | some pending =>
        rw [folds] at told
        have step : b.add (.operator name) = ({ b with pending }, none) := by
          simp only [add, operator, folds]
        rw [addEach, step]
        exact ih (b := { b with pending }) told
      | none =>
        rw [folds, line, List.append_assoc] at told
        obtain ⟨rfl, same, last⟩ := ContentItem.lineEnds (fun o same => by cases same) told
        cases same
        cases rest with
        | cons more rest => exact absurd last (ContentItem.foldedSome (.inr (List.cons_ne_nil _ _)))
        | nil =>
          have step := added (Took.unknown (fun isR => absurd isR (by decide))
            (show Signature.find? "foo" = none by decide) : Took b (.operator "foo") _)
          simp only [addEach, step]

theorem addItemsPlaced {b b' : Builder} {items : List (Except Fault (Nat × ContentItem))}
    (run : b.addItems items = (b', none)) : ∃ placed : List (Nat × ContentItem),
    items = placed.map .ok ∧ b.addEach (placed.map (·.2)) = (b', none) := by
  induction items generalizing b with
  | nil => exact ⟨[], rfl, run⟩
  | cons read rest ih =>
    obtain ⟨pos, item, b₁, rfl, first, later⟩ := addItemsCons.mp run
    obtain ⟨placed, rfl, each⟩ := ih later
    exact ⟨(pos, item) :: placed, rfl, by simp only [List.map_cons, addEach, added first, each]⟩

end Builder

theorem Outline.sole {os : List Outline} (one : ids os = [0]) : ∃ op, os = [.node 0 op []] := by
  have none (os : List Outline) (none : ids os = []) : os = [] := by
    cases os with
    | nil => rfl
    | cons o rest =>
      obtain ⟨id, op, children⟩ := o
      cases none
  cases os with
  | nil => cases one
  | cons o rest =>
    obtain ⟨id, op, children⟩ := o
    obtain ⟨rfl, others⟩ := List.cons.inj one
    obtain ⟨below, later⟩ := List.append_eq_nil_iff.mp others
    obtain rfl := none children below
    obtain rfl := none rest later
    exact ⟨op, rfl⟩

namespace OperatorTree
open ContentItem (folded line)

theorem soleLine (data : Bytes) (binding : Binding) (params : Params) (n : Nat)
    (os : List Operand) :
    (∃ t os', parse data binding params = .ok t ∧ t.size = 1 ∧
      t.op? 0 = some (.unknown "foo" os') ∧ Operand.unboundItems os' = Operand.unboundItems os) ↔
    ∃ (placed : List (Nat × ContentItem)) (os' : List Operand),
      (ContentItem.ofData data).map (readLater n) = placed.map .ok ∧
      folded [] (placed.map (·.2)) = line "foo" os' ∧
      Operand.unboundItems os' = Operand.unboundItems os := by
  have later := Builder.addItemsLater (Builder.new binding params) n (ContentItem.ofData data)
  constructor
  · rintro ⟨t, os', parsed, one, sole, same⟩
    obtain ⟨b, run, finished⟩ := parseExact.mp parsed
    rw [run] at later
    obtain ⟨placed, read, each⟩ := Builder.addItemsPlaced later
    obtain ⟨inner, levels, builds, told⟩ :=
      Builder.listingRun (Builder.buildsNew binding params) each
    obtain ⟨rfl, clear⟩ := Builder.finishedTree finished
    have inOrder := builds.inOrder
    rw [one] at inOrder
    obtain ⟨op, outline⟩ := Outline.sole inOrder
    rw [outline] at told
    have member : (0, op) ∈ Outline.entries (plug inner levels) := by
      simp [outline, Outline.entries, Outline.entriesOf]
    cases (builds.spells.op member).symm.trans sole
    rw [clear, Outline.listingLeaf] at told
    have whole : (folded [] (placed.map (·.2))).map ContentItem.unbound =
        line "foo" (Operand.unboundItems os') := by
      rw [← ContentItem.lineUnbound]
      simpa [Instruction.lead, Instruction.close, folded, plug, Outline.listing,
        Builder.new] using told.symm
    obtain ⟨os'', told, bound⟩ := ContentItem.lineOfUnbound whole
    exact ⟨placed, os'', read, told, bound.trans same⟩
  · rintro ⟨placed, os', read, told, same⟩
    have run := Builder.addItemsEach (Builder.addLineFolded (b := .new binding params) told)
    rw [← read, later] at run
    obtain ⟨reached, fault⟩ := Prod.mk.inj run
    have added : (Builder.new binding params).addItems (ContentItem.ofData data) =
        ((Builder.new binding params).append ((Instruction.unknown "foo" os').bind binding), none) :=
      Prod.ext reached (Option.map_eq_none_iff.mp fault)
    refine ⟨_, Operand.bindItems binding os', parseExact.mpr ⟨_, added, rfl⟩, rfl, rfl, ?_⟩
    rw [Operand.unboundBindItems, same]

theorem ofDataBoxed (w : Bytes) : ContentItem.ofData (Octet.bracketOpen :: w ++ closing) =
    ContentItem.Reader.boxed ⟨Octet.bracketOpen :: w, w⟩ [] 0 [] := by
  have start : (Lexer.ofData (Octet.bracketOpen :: w ++ closing)).position = 0 := Nat.sub_self _
  have first : (Lexer.ofData (Octet.bracketOpen :: w ++ closing)).next =
      (some (.ok ((Lexer.ofData (Octet.bracketOpen :: w ++ closing)).position, .arrayOpen)),
        Lexer.followed closing ⟨Octet.bracketOpen :: w, w⟩) := rfl
  rw [start] at first
  have read := ContentItem.Reader.allContinued (Lexer.ofData (Octet.bracketOpen :: w ++ closing))
  exact read.trans (congrArg _ (Assembly.readToken first))

theorem ofDataNamed (w : Bytes) : (ContentItem.ofData (w ++ naming)).map (readLater 1) =
    ContentItem.Reader.named ⟨Octet.bracketOpen :: w, w⟩ [] := by
  have behind := ContentItem.Reader.runBehind (r := .ofData (w ++ naming)) (Nat.le_refl _)
    [Octet.bracketOpen] ((w ++ naming).length + 1)
  have read := ContentItem.Reader.allContinued (Lexer.followed naming ⟨Octet.bracketOpen :: w, w⟩)
  exact behind.symm.trans read

/-- Whatever stands between them, brackets hold one array of some items and nothing else exactly
if a name in place of the closing bracket is read as one operator with these items as its
operands. -/
theorem bracketedExact (w : Bytes) (binding : Binding) (params : Params) (os : List Operand) :
    (∃ pos items,
      ContentItem.ofData (Octet.bracketOpen :: w ++ [Octet.lineFeed, Octet.bracketClose]) =
        [.ok (pos, .operand (.array none items))] ∧
      Operand.unboundItems items = Operand.unboundItems os) ↔
    ∃ t items, parse (w ++ Octet.lineFeed :: ascii ['f', 'o', 'o']) binding params = .ok t ∧
      t.size = 1 ∧ t.op? 0 = some (.unknown "foo" items) ∧
      Operand.unboundItems items = Operand.unboundItems os := by
  have boxed := ofDataBoxed w
  rw [closing] at boxed
  have sole := soleLine (w ++ naming) binding params 1 os
  rw [ofDataNamed] at sole
  refine Iff.trans ?_ sole.symm
  rw [boxed]
  cases ContentItem.Reader.verdict ⟨Octet.bracketOpen :: w, w⟩ [] 0 [] with
  | @whole pos items placed array fine told =>
    rw [array, fine]
    constructor
    · rintro ⟨pos', items', read, same⟩
      cases read
      exact ⟨placed, items, rfl, told, same⟩
    · rintro ⟨placed', items', read, told', same⟩
      obtain rfl := (List.map_inj_right fun _ _ => Except.ok.inj).mp read
      obtain rfl := (ContentItem.lineInjective (told.symm.trans told')).2
      exact ⟨pos, items, rfl, same⟩
  | apart unboxed unlined =>
    constructor
    · rintro ⟨pos, items, read, -⟩
      exact absurd read (unboxed pos _)
    · rintro ⟨placed, items, read, told, -⟩
      exact absurd told (unlined placed items read)

example : ContentItem.ofData (ascii ['[', '3', ' ', '0', ' ', 'R', '%', '\n', ']']) =
    [.ok (8, .operand (.array none [.ref none ⟨3, 0⟩]))] := rfl

end OperatorTree

end PageContent
