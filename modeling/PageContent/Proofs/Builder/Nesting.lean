import PageContent.Builder
import PageContent.Proofs.OperatorTree.Outline

/-! A builder's tree is an outline with a path of open blocks down its right edge. What
an accepted item does to a builder, case by case, and what that does to the outline. -/
namespace PageContent
open Outline

structure Level where
  id : Nat
  start : Known
  before : List Outline

def plug (inner : List Outline) : List Level → List Outline
  | [] => inner
  | l :: outer => plug (l.before ++ [.node l.id (.block l.start none) inner]) outer

def outside : List Level → List (Nat × Instruction)
  | [] => []
  | l :: outer => outside outer ++ (entries l.before ++ [(l.id, .block l.start none)])

theorem entriesPlug (inner : List Outline) (levels : List Level) :
    entries (plug inner levels) = outside levels ++ entries inner := by
  induction levels generalizing inner with
  | nil => rfl
  | cons l outer ih => simp [plug, outside, ih, entries, entriesOf]

theorem graftPlug {p : Nat} (leaf : Outline) (inner : List Outline) {levels : List Level}
    (inside : p ∉ (outside levels).map Prod.fst) :
    graft p leaf (plug inner levels) = plug (graft p leaf inner) levels := by
  induction levels generalizing inner with
  | nil => rfl
  | cons l outer ih =>
    simp only [outside, List.map_append, List.mem_append, List.map_cons, List.map_nil,
      List.mem_singleton, not_or, ← idsEntries] at inside
    rw [plug, ih _ inside.1, plug, graftAppend, graftElsewhere inside.2.1]
    simp [graft, graftIn, Ne.symm inside.2.2]

theorem revisePlug {id : Nat} (f : Instruction → Instruction) (inner : List Outline)
    {levels : List Level} (inside : id ∉ (outside levels).map Prod.fst) :
    revise id f (plug inner levels) = plug (revise id f inner) levels := by
  induction levels generalizing inner with
  | nil => rfl
  | cons l outer ih =>
    simp only [outside, List.map_append, List.mem_append, List.map_cons, List.map_nil,
      List.mem_singleton, not_or, ← idsEntries] at inside
    rw [plug, ih _ inside.1, plug, reviseAppend, reviseElsewhere inside.2.1]
    simp [revise, reviseIn, Ne.symm inside.2.2]

namespace Builder

def opener? (b : Builder) : Option Known :=
  match b.openBlocks with
  | [] => none
  | id :: _ => match b.tree.op? id with
    | some (.block start _) => some start
    | _ => none

structure Builds (b : Builder) (inner : List Outline) (levels : List Level) : Prop where
  spells : b.tree.Spells (plug inner levels)
  opened : b.openBlocks = levels.map Level.id
  inOrder : ids (plug inner levels) = List.range b.tree.size

theorem buildsNew (binding : Binding) (params : Params) : Builds (new binding params) [] [] :=
  ⟨OperatorTree.spellsEmpty, rfl, rfl⟩

theorem Builds.waiting {b : Builder} {inner levels} (h : Builds b inner levels)
    (pending : List Operand) : Builds { b with pending } inner levels :=
  ⟨h.spells, h.opened, h.inOrder⟩

theorem Builds.apart {b : Builder} {inner l outer} (h : Builds b inner (l :: outer)) :
    l.id ∉ (outside outer).map Prod.fst ∧ l.id ∉ ids l.before ∧ l.id ∉ ids inner := by
  have once := h.spells.once
  rw [idsEntries, entriesPlug] at once
  simp only [outside, List.map_append, List.map_cons, List.map_nil, ← idsEntries,
    List.nodup_append] at once
  grind

theorem Builds.opener {b : Builder} {inner levels} (h : Builds b inner levels) :
    b.opener? = levels.head?.map Level.start := by
  cases levels with
  | nil => simp [opener?, h.opened]
  | cons l outer =>
    have there : (l.id, Instruction.block l.start none) ∈ entries (plug inner (l :: outer)) := by
      simp [entriesPlug, outside]
    simp [opener?, h.opened, h.spells.op there]

theorem Builds.append {b : Builder} {inner levels} (h : Builds b inner levels) (op : Instruction) :
    Builds (b.append op) (inner ++ [.node b.tree.size op []]) levels := by
  have valid : ∀ p, b.openBlocks.head? = some p → p < b.tree.size := by
    intro p found
    cases levels with
    | nil => simp [h.opened] at found
    | cons l outer =>
      rw [h.opened] at found
      cases Option.some.inj found
      rw [← h.spells.all, idsEntries, entriesPlug]
      simp [outside]
  have attached : attach b.openBlocks.head? (.node b.tree.size op []) (plug inner levels) =
      plug (inner ++ [.node b.tree.size op []]) levels := by
    cases levels with
    | nil => simp [h.opened, attach, plug]
    | cons l outer =>
      obtain ⟨above, before, _⟩ := h.apart
      simp only [h.opened, List.map_cons, List.head?_cons, attach, plug]
      rw [graftPlug _ _ above, graftAppend, graftElsewhere before]
      simp [graft, graftIn]
  have grown := h.spells.push op valid
  rw [attached] at grown
  refine ⟨grown, h.opened, ?_⟩
  have order := h.inOrder
  simp only [idsEntries, entriesPlug] at order ⊢
  simp only [Builder.append, OperatorTree.sizePush, entriesAppend, entries, entriesOf,
    List.append_nil, List.map_append, List.map_cons, List.map_nil, List.range_succ, ← order,
    List.append_assoc]

theorem Builds.enter {b : Builder} {inner levels} (h : Builds b inner levels) (start : Known) :
    Builds { b.append (.block start none) with openBlocks := b.tree.size :: b.openBlocks }
      [] (⟨b.tree.size, start, inner⟩ :: levels) := by
  have grown := h.append (.block start none)
  exact ⟨grown.spells, by simp [h.opened], grown.inOrder⟩

theorem Builds.leave {b : Builder} {inner l outer} (h : Builds b inner (l :: outer))
    (stop : Known) :
    Builds { b with tree := b.tree.modify l.id (closed stop), openBlocks := outer.map Level.id }
      (l.before ++ [.node l.id (.block l.start (some stop)) inner]) outer := by
  obtain ⟨above, before, below⟩ := h.apart
  have revised : revise l.id (closed stop) (plug inner (l :: outer)) =
      plug (l.before ++ [.node l.id (.block l.start (some stop)) inner]) outer := by
    rw [plug, revisePlug _ _ above, reviseAppend, reviseElsewhere before]
    simp [revise, reviseIn, reviseElsewhere below, closed]
  have changed := h.spells.modify l.id (closed stop)
  have order := idsRevise l.id (closed stop) (plug inner (l :: outer))
  rw [revised] at changed order
  refine ⟨changed, rfl, ?_⟩
  rw [order, h.inOrder]
  simp [OperatorTree.modify, OperatorTree.size]

end Builder

end PageContent
