import PageContent.Proofs.Builder.Listing
import PageContent.Proofs.Outcome

/-! Two builders with the same operands waiting and the same blocks open accept the same
items, and stay alike: what they have built differs by bindings, by how far operators are
numbered on, and by what stood there before. -/
namespace PageContent

namespace Known

def unbound (k : Known) : Known := { k with operands := Operand.unboundItems k.operands }

@[simp] theorem endNameUnbound (k : Known) : k.unbound.endName = k.endName := rfl

end Known

namespace Instruction

def unbound : Instruction → Instruction
  | simple k => simple k.unbound
  | unknown name operands => unknown name (Operand.unboundItems operands)
  | block start stop => block start.unbound (stop.map Known.unbound)
  | image entries data => image (Operand.unboundEntries entries) data

end Instruction

open Outline

structure Place where
  done : List Outline
  shift : Nat

namespace Place

def inside (p : Place) (os : List Outline) : List Outline :=
  Outline.map (· + p.shift) Instruction.unbound os

def whole (p : Place) (os : List Outline) : List Outline := p.done ++ p.inside os

@[simp] theorem insideAppend (p : Place) (as bs : List Outline) :
    p.inside (as ++ bs) = p.inside as ++ p.inside bs := by
  simp [inside]

@[simp] theorem wholeAppend (p : Place) (as bs : List Outline) :
    p.whole (as ++ bs) = p.whole as ++ p.inside bs := by
  simp [whole]

theorem insideNode (p : Place) (id : Nat) (op : Instruction) (children : List Outline) :
    p.inside [.node id op children] = [.node (id + p.shift) op.unbound (p.inside children)] := by
  simp [inside, map, mapIn]

end Place

inductive Matched (p q : Place) :
    List Outline → List Level → List Outline → List Level → Prop where
  | top {inner inner'} (same : p.whole inner = q.whole inner') : Matched p q inner [] inner' []
  | level {inner inner' l l' outer outer'} (number : l.id + p.shift = l'.id + q.shift)
      (start : l.start.unbound = l'.start.unbound) (same : p.inside inner = q.inside inner')
      (around : Matched p q l.before outer l'.before outer') :
      Matched p q inner (l :: outer) inner' (l' :: outer')

namespace Matched
variable {p q : Place} {inner inner' : List Outline} {levels levels' : List Level}

theorem symm (h : Matched p q inner levels inner' levels') :
    Matched q p inner' levels' inner levels := by
  induction h with
  | top same => exact .top same.symm
  | level number start same _ ih => exact .level number.symm start.symm same.symm ih

theorem append {id id' : Nat} {op op' : Instruction} {children children' : List Outline}
    (h : Matched p q inner levels inner' levels') (number : id + p.shift = id' + q.shift)
    (same : op.unbound = op'.unbound) (below : p.inside children = q.inside children') :
    Matched p q (inner ++ [.node id op children]) levels
      (inner' ++ [.node id' op' children']) levels' := by
  cases h with
  | top before => exact .top (by simp [Place.insideNode, before, number, same, below])
  | level number' start before around =>
    exact .level number' start (by simp [Place.insideNode, before, number, same, below]) around

theorem depth (h : Matched p q inner levels inner' levels') : levels.length = levels'.length := by
  induction h with
  | top => rfl
  | level _ _ _ _ ih => simp [ih]

theorem plug (h : Matched p q inner levels inner' levels') :
    p.whole (PageContent.plug inner levels) = q.whole (PageContent.plug inner' levels') := by
  induction levels generalizing inner inner' levels' with
  | nil => cases h with | top same => exact same
  | cons l outer ih =>
    cases h with
    | @level _ _ _ l' _ _ number start same around =>
      have begins : (Instruction.block l.start none).unbound =
          (Instruction.block l'.start none).unbound := by
        simp [Instruction.unbound, start]
      have around' := ih (around.append number begins same)
      exact around'

end Matched

namespace Builder

structure Twins (p q : Place) (b c : Builder) : Prop where
  params : b.params = c.params
  pending : b.pending = c.pending
  number : b.tree.size + p.shift = c.tree.size + q.shift
  grown : ∃ inner levels inner' levels', b.Builds inner levels ∧ c.Builds inner' levels' ∧
    Matched p q inner levels inner' levels'

namespace Twins
variable {p q : Place} {b c : Builder}

theorem symm (h : Twins p q b c) : Twins q p c b := by
  obtain ⟨inner, levels, inner', levels', hb, hc, matched⟩ := h.grown
  exact ⟨h.params.symm, h.pending.symm, h.number.symm, inner', levels', inner, levels, hc, hb,
    matched.symm⟩

theorem depth (h : Twins p q b c) : b.openBlocks.length = c.openBlocks.length := by
  obtain ⟨inner, levels, inner', levels', hb, hc, matched⟩ := h.grown
  simp [hb.opened, hc.opened, matched.depth]

theorem opener (h : Twins p q b c) :
    b.opener?.map Known.unbound = c.opener?.map Known.unbound := by
  obtain ⟨inner, levels, inner', levels', hb, hc, matched⟩ := h.grown
  rw [hb.opener, hc.opener]
  cases matched with
  | top => rfl
  | level _ start _ _ => simp [start]

theorem endName (h : Twins p q b c) : b.opener?.map Known.endName = c.opener?.map Known.endName := by
  have same := congrArg (Option.map Known.endName) h.opener
  simpa [Option.map_map, Function.comp_def] using same

theorem fits (h : Twins p q b c) {name s} (f : b.Fits name s) : c.Fits name s := by
  rw [Fits, ← h.pending]
  exact f

theorem waiting (h : Twins p q b c) (pending : List Operand) :
    Twins p q { b with pending } { c with pending } := by
  obtain ⟨inner, levels, inner', levels', hb, hc, matched⟩ := h.grown
  exact ⟨h.params, rfl, h.number, inner, levels, inner', levels', hb.waiting _, hc.waiting _, matched⟩

theorem append (h : Twins p q b c) {op op' : Instruction} (same : op.unbound = op'.unbound) :
    Twins p q (b.append op) (c.append op') := by
  obtain ⟨inner, levels, inner', levels', hb, hc, matched⟩ := h.grown
  refine ⟨h.params, h.pending, ?_, _, _, _, _, hb.append op, hc.append op', ?_⟩
  · have number := h.number
    simp only [Builder.append, OperatorTree.sizePush]
    omega
  · exact matched.append h.number same rfl

theorem enter (h : Twins p q b c) {start start' : Known} (same : start.unbound = start'.unbound) :
    Twins p q
      { b.append (.block start none) with openBlocks := b.tree.size :: b.openBlocks }
      { c.append (.block start' none) with openBlocks := c.tree.size :: c.openBlocks } := by
  obtain ⟨inner, levels, inner', levels', hb, hc, matched⟩ := h.grown
  refine ⟨h.params, h.pending, ?_, _, _, _, _, hb.enter start, hc.enter start', ?_⟩
  · have number := h.number
    simp only [Builder.append, OperatorTree.sizePush]
    omega
  · exact .level h.number same rfl matched

theorem knownOf (h : Twins p q b c) (s : Signature) :
    (b.knownOf s).unbound = (c.knownOf s).unbound := by
  simp [Builder.knownOf, Known.unbound, h.pending]

theorem took (h : Twins p q b c) {item b'} (step : Took b item b') :
    ∃ c', Took c item c' ∧ Twins p q b' c' := by
  have cleared : Twins p q b.cleared c.cleared := h.waiting []
  cases step with
  | operand o => exact ⟨_, .operand o, by rw [h.pending]; exact h.waiting _⟩
  | fold two => exact ⟨_, .fold (h.pending ▸ two), h.waiting _⟩
  | unknown whole absent =>
    refine ⟨_, .unknown (h.pending ▸ whole) absent, cleared.append ?_⟩
    simp [Instruction.bind, Instruction.unbound, h.pending]
  | plain f opens closes =>
    refine ⟨_, .plain (h.fits f) opens closes, cleared.append ?_⟩
    simp [Instruction.unbound, h.knownOf]
  | @stray name s f opens closes lenient other =>
    have other' : ∀ start, c.opener? = some start → start.endName ≠ s.name := by
      intro start innermost
      have same := h.endName
      rw [innermost, Option.map_some] at same
      obtain ⟨start', innermost', equal⟩ := Option.map_eq_some_iff.mp same
      exact equal ▸ other start' innermost'
    refine ⟨_, .stray (h.fits f) opens closes (h.params ▸ lenient) other', cleared.append ?_⟩
    simp [Instruction.unbound, h.knownOf]
  | enter f opens room =>
    rw [h.params, h.depth] at room
    exact ⟨_, .enter (h.fits f) opens room, cleared.enter (h.knownOf _)⟩
  | @leave name s id outer start f opens closes opened innermost same =>
    obtain ⟨inner, levels, inner', levels', hb, hc, matched⟩ := cleared.grown
    have sameName := h.endName
    rw [innermost, Option.map_some] at sameName
    obtain ⟨start', innermost', equal⟩ := Option.map_eq_some_iff.mp sameName.symm
    cases matched with
    | top =>
      have empty : b.openBlocks = [] := hb.opened
      simp [empty] at opened
    | @level _ _ l l' outer₁ outer₂ number begins same' around =>
      have opened₁ : b.openBlocks = l.id :: outer₁.map Level.id := hb.opened
      have opened₂ : c.openBlocks = l'.id :: outer₂.map Level.id := hc.opened
      cases opened.symm.trans opened₁
      refine ⟨_, .leave (h.fits f) opens closes opened₂ innermost' (equal.trans same), ?_⟩
      refine ⟨h.params, rfl, ?_, _, _, _, _, hb.leave (b.knownOf s), hc.leave (c.knownOf s), ?_⟩
      · simpa [OperatorTree.modify, OperatorTree.size] using h.number
      · exact around.append number (by simp [Instruction.unbound, begins, h.knownOf]) same'
  | image clear =>
    refine ⟨_, .image (h.pending ▸ clear), h.append ?_⟩
    simp [Instruction.bind, Instruction.unbound]

theorem addItems (h : Twins p q b c) {items b'} (ok : b.addItems items = (b', none)) :
    ∃ c', c.addItems items = (c', none) ∧ Twins p q b' c' := by
  induction items generalizing b c with
  | nil => cases ok; exact ⟨c, rfl, h⟩
  | cons read rest ih =>
    obtain ⟨pos, item, b₁, rfl, first, ok⟩ := addItemsCons.mp ok
    obtain ⟨c₁, second, twins⟩ := h.took first
    obtain ⟨c', run, last⟩ := ih twins ok
    exact ⟨c', addItemsCons.mpr ⟨pos, item, c₁, rfl, second, run⟩, last⟩

theorem toTree (h : Twins p q b c) {t} (ok : b.toTree = .ok t) :
    ∃ t', c.toTree = .ok t' ∧ p.whole t.outline = q.whole t'.outline := by
  obtain ⟨inner, levels, inner', levels', hb, hc, matched⟩ := h.grown
  obtain ⟨same, clear⟩ := finishedTree ok
  subst same
  have clear' : c.pending = [] := h.pending ▸ clear
  have finished : c.toTree = .ok c.tree := by
    simp only [Builder.toTree, clear, clear', hb.opened, hc.opened, h.params] at ok ⊢
    cases matched with
    | top => rfl
    | level =>
      simp only [List.map_cons] at ok ⊢
      split at ok
      · contradiction
      · split at ok
        · contradiction
        · simp_all
  refine ⟨c.tree, finished, ?_⟩
  rw [hb.spells.outline, hc.spells.outline]
  exact matched.plug

end Twins

end Builder

end PageContent
