import PageContent.Proofs.Builder.Accepted
import PageContent.Proofs.OperatorTree.Visited

/-! What holds of a builder whatever it was fed, items it refused and data it broke off
included. A refused item changes no operator; at most it takes the operands that wait. -/
namespace PageContent
open Outline

namespace Operand

mutual

theorem bindBindings {p : Option Binding → Bool} {b : Binding} (yes : p (some b) = true) :
    (o : Operand) → (o.bind b).bindings p = true
  | scalar _ _ => yes
  | ref _ _ => yes
  | array _ items => by simp [bind, bindings, yes, bindItemsBindings yes items]
  | dict _ entries => by simp [bind, bindings, yes, bindEntriesBindings yes entries]

theorem bindItemsBindings {p : Option Binding → Bool} {b : Binding} (yes : p (some b) = true) :
    (os : List Operand) → bindingsOfItems p (bindItems b os) = true
  | [] => rfl
  | o :: rest => by
    simp [bindItems, bindingsOfItems, bindBindings yes o, bindItemsBindings yes rest]

theorem bindEntriesBindings {p : Option Binding → Bool} {b : Binding} (yes : p (some b) = true) :
    (es : List (String × Operand)) → bindingsOfEntries p (bindEntries b es) = true
  | [] => rfl
  | (_, o) :: rest => by
    simp [bindEntries, bindingsOfEntries, bindBindings yes o, bindEntriesBindings yes rest]

end

theorem bindBound (b : Binding) (o : Operand) : (o.bind b).isBoundTo b = true :=
  bindBindings (by simp) o

theorem bindItemsBound {b : Binding} {os : List Operand} :
    ∀ o ∈ bindItems b os, o.isBoundTo b = true := by
  rw [bindItems_eq_map]
  intro o member
  obtain ⟨o, _, rfl⟩ := List.mem_map.mp member
  exact bindBound b o

end Operand

def Known.Fits (k : Known) : Prop :=
  Signature.find? k.name = some k.signature ∧
    k.signature.take k.operands = .ok k.operands.length

namespace Instruction

def knowns : Instruction → List Known
  | simple k => [k]
  | block start stop => start :: stop.toList
  | unknown _ _ | image _ _ => []

structure Proper (b : Binding) (op : Instruction) : Prop where
  fits : ∀ k ∈ op.knowns, k.Fits
  ended : ∀ start stop, op = block start (some stop) →
    Signature.closer? start.name = some stop.name
  bound : ∀ o ∈ op.allOperands, o.isBoundTo b = true

theorem Proper.simple {b : Binding} {k : Known} (fits : k.Fits)
    (bound : ∀ o ∈ k.operands, o.isBoundTo b = true) : (simple k).Proper b :=
  ⟨by simpa [knowns] using fits, by simp, bound⟩

theorem Proper.begun {b : Binding} {k : Known} (fits : k.Fits)
    (bound : ∀ o ∈ k.operands, o.isBoundTo b = true) : (block k none).Proper b :=
  ⟨by simpa [knowns] using fits, by simp, by simpa [allOperands] using bound⟩

theorem Proper.close {b : Binding} {start stop : Known} (begun : (block start none).Proper b)
    (ended : (Instruction.simple stop).Proper b)
    (same : Signature.closer? start.name = some stop.name) :
    (block start (some stop)).Proper b := by
  refine ⟨?_, ?_, ?_⟩
  · have first := begun.fits
    have last := ended.fits
    simp only [knowns, Option.toList_none, Option.toList_some, List.mem_cons, List.not_mem_nil,
      or_false, forall_eq_or_imp, forall_eq] at first last ⊢
    exact ⟨first, last⟩
  · rintro _ _ ⟨⟩
    exact same
  · have first := begun.bound
    have last := ended.bound
    simp only [allOperands, Option.toList_none, List.flatMap_nil, List.append_nil,
      Option.toList_some, List.flatMap_cons, List.mem_append] at first last ⊢
    rintro o (inside | inside)
    · exact first o inside
    · exact last o inside

theorem Proper.unknown (b : Binding) (name : String) (os : List Operand) :
    ((Instruction.unknown name os).bind b).Proper b :=
  ⟨by simp [Instruction.bind, knowns], by simp [Instruction.bind], Operand.bindItemsBound⟩

theorem Proper.image (b : Binding) (es : Dict Operand) (raw : Bytes) :
    ((Instruction.image es raw).bind b).Proper b := by
  refine ⟨by simp [Instruction.bind, knowns], by simp [Instruction.bind], ?_⟩
  simp only [Instruction.bind, allOperands, Operand.bindEntriesMap, List.map_map]
  intro o member
  obtain ⟨⟨_, o⟩, _, rfl⟩ := List.mem_map.mp member
  exact Operand.bindBound b o

end Instruction

namespace Builder

inductive Feed where
  | item (item : ContentItem)
  | data (data : Bytes)
  deriving Repr

def feed (b : Builder) : Feed → Step
  | .item item => b.add item
  | .data data => b.addData data

def fedAll (b : Builder) (feeds : List Feed) : Builder :=
  feeds.foldl (fun b f => (b.feed f).1) b

structure Standing (b : Builder) (inner : List Outline) (levels : List Level) : Prop where
  builds : Builds b inner levels
  deep : levels.length ≤ b.params.depthLimit
  opens : ∀ l ∈ levels, (Signature.closer? l.start.name).isSome
  proper : ∀ e ∈ entries (plug inner levels), e.2.Proper b.binding
  ended : ∀ id start, (id, .block start none) ∈ entries (plug inner levels) →
    id ∈ levels.map Level.id

theorem standingNew (binding : Binding) (params : Params) : Standing (new binding params) [] [] :=
  ⟨buildsNew binding params, Nat.zero_le _, by simp, by simp [plug, entries],
    by simp [plug, entries]⟩

theorem outsideOpened {levels : List Level} {l : Level} (member : l ∈ levels) :
    (l.id, Instruction.block l.start none) ∈ outside levels := by
  induction levels with
  | nil => simp at member
  | cons l' outer ih =>
    rcases List.mem_cons.mp member with rfl | around
    · simp [outside]
    · simp [outside, ih around]

theorem entriesAdded (inner : List Outline) (levels : List Level) (id : Nat) (op : Instruction) :
    entries (plug (inner ++ [.node id op []]) levels) =
      entries (plug inner levels) ++ [(id, op)] := by
  simp [entriesPlug, entries, entriesOf]

namespace Standing
variable {b : Builder} {inner : List Outline} {levels : List Level}

theorem waiting (h : Standing b inner levels) (pending : List Operand) :
    Standing { b with pending } inner levels :=
  ⟨h.builds.waiting pending, h.deep, h.opens, h.proper, h.ended⟩

theorem append (h : Standing b inner levels) {op : Instruction} (proper : op.Proper b.binding)
    (leaf : ∀ start, op ≠ .block start none) :
    Standing (b.append op) (inner ++ [.node b.tree.size op []]) levels := by
  refine ⟨h.builds.append op, h.deep, h.opens, ?_, ?_⟩
  · rw [entriesAdded]
    intro e member
    rcases List.mem_append.mp member with old | new
    · exact h.proper e old
    · rw [List.mem_singleton.mp new]
      exact proper
  · rw [entriesAdded]
    intro id start member
    rcases List.mem_append.mp member with old | new
    · exact h.ended id start old
    · cases List.mem_singleton.mp new
      exact absurd rfl (leaf start)

theorem enter (h : Standing b inner levels) {start : Known}
    (proper : (Instruction.block start none).Proper b.binding)
    (opens : (Signature.closer? start.name).isSome)
    (room : b.openBlocks.length < b.params.depthLimit) :
    Standing { b.append (.block start none) with openBlocks := b.tree.size :: b.openBlocks }
      [] (⟨b.tree.size, start, inner⟩ :: levels) := by
  refine ⟨h.builds.enter start, ?_, ?_, ?_, ?_⟩
  · rw [h.builds.opened, List.length_map] at room
    exact room
  · intro l member
    rcases List.mem_cons.mp member with rfl | around
    · exact opens
    · exact h.opens l around
  · rw [plug, entriesAdded]
    intro e member
    rcases List.mem_append.mp member with old | new
    · exact h.proper e old
    · rw [List.mem_singleton.mp new]
      exact proper
  · rw [plug, entriesAdded]
    intro id other member
    rcases List.mem_append.mp member with old | new
    · exact List.mem_cons_of_mem _ (h.ended id other old)
    · cases List.mem_singleton.mp new
      exact List.mem_cons_self

theorem leave {l : Level} {outer : List Level} (h : Standing b inner (l :: outer)) {stop : Known}
    (proper : (Instruction.simple stop).Proper b.binding) (same : l.start.endName = stop.name) :
    Standing { b with tree := b.tree.modify l.id (closed stop), openBlocks := outer.map Level.id }
      (l.before ++ [.node l.id (.block l.start (some stop)) inner]) outer := by
  have closes : Signature.closer? l.start.name = some stop.name := by
    obtain ⟨name, found⟩ := Option.isSome_iff_exists.mp (h.opens l List.mem_cons_self)
    rw [Known.endName, found, Option.getD_some] at same
    rw [found, same]
  obtain ⟨above, before, below⟩ := h.builds.apart
  have begun := h.proper (l.id, .block l.start none) (by simp [entriesPlug, outside])
  have changed : ∀ e ∈ entries (plug (l.before ++ [.node l.id (.block l.start (some stop)) inner])
      outer), e = (l.id, .block l.start (some stop)) ∨
        e ∈ entries (plug inner (l :: outer)) ∧ e.1 ≠ l.id := by
    rw [idsEntries, List.mem_map] at before below
    rw [List.mem_map] at above
    intro e member
    simp only [entriesPlug, outside, entriesAppend, entries, entriesOf, List.append_nil,
      List.mem_append, List.mem_cons, List.not_mem_nil, or_false] at member ⊢
    rcases member with around | earlier | rfl | inside
    · exact .inr ⟨.inl (.inl around), fun same => above ⟨e, around, same⟩⟩
    · exact .inr ⟨.inl (.inr (.inl earlier)), fun same => before ⟨e, earlier, same⟩⟩
    · exact .inl rfl
    · exact .inr ⟨.inr inside, fun same => below ⟨e, inside, same⟩⟩
  refine ⟨h.builds.leave stop, Nat.le_of_succ_le h.deep,
    fun l' around => h.opens l' (List.mem_cons_of_mem _ around), ?_, ?_⟩
  · intro e member
    rcases changed e member with rfl | ⟨old, _⟩
    · exact begun.close proper closes
    · exact h.proper e old
  · intro id start member
    rcases changed _ member with new | ⟨old, other⟩
    · cases new
    · exact (List.mem_cons.mp (h.ended id start old)).resolve_left other

end Standing

theorem fitsKnown {b : Builder} {name s} (fits : b.Fits name s) : (b.knownOf s).Fits := by
  obtain ⟨found, takes⟩ := fits
  refine ⟨?_, ?_⟩
  · rw [knownOfName, findName found]
    exact found
  · have length : (b.knownOf s).operands.length = b.pending.length := by
      simp [knownOf, Operand.bindItems_eq_map]
    rw [length, ← takes]
    exact s.takeKinds (Operand.bindKinds _ _)

theorem standingTook {b b' : Builder} {inner levels item} (h : Standing b inner levels)
    (step : Took b item b') : ∃ inner' levels', Standing b' inner' levels' := by
  have cleared : Standing b.cleared inner levels := h.waiting []
  have bound : ∀ s, ∀ o ∈ (b.knownOf s).operands, o.isBoundTo b.binding = true :=
    fun _ => Operand.bindItemsBound
  cases step with
  | operand o => exact ⟨_, _, h.waiting _⟩
  | fold two => exact ⟨_, _, h.waiting _⟩
  | unknown whole absent => exact ⟨_, _, cleared.append (.unknown _ _ _) (by simp [Instruction.bind])⟩
  | plain fits opens closes =>
    exact ⟨_, _, cleared.append (.simple (fitsKnown fits) (bound _)) (by simp)⟩
  | stray fits opens closes lenient other =>
    exact ⟨_, _, cleared.append (.simple (fitsKnown fits) (bound _)) (by simp)⟩
  | enter fits opens room =>
    exact ⟨_, _, cleared.enter (.begun (fitsKnown fits) (bound _)) opens room⟩
  | @leave name s id outer start fits opens closes opened innermost same =>
    cases levels with
    | nil => simp [h.builds.opened] at opened
    | cons l around =>
      rw [h.builds.opened] at opened
      obtain ⟨rfl, rfl⟩ := List.cons.inj opened
      have start' : l.start = start := by simpa [h.builds.opener] using innermost
      exact ⟨_, _, cleared.leave (.simple (fitsKnown fits) (bound s)) (start' ▸ same)⟩
  | image clear => exact ⟨_, _, h.append (.image _ _ _) (by simp [Instruction.bind])⟩

theorem enterRefused {b : Builder} {start fault} (refused : (b.enter start).2 = some fault) :
    (b.enter start).1 = b := by
  unfold enter at refused ⊢
  split at refused
  · rename_i full
    rw [if_pos full]
  · simp at refused

theorem leaveRefused {b : Builder} {stop fault} (refused : (b.leave stop).2 = some fault) :
    (b.leave stop).1 = b := by
  rcases leaveCases b stop with ⟨_, _, _, _, _, _, eq⟩ | ⟨_, eq⟩
  · simp [eq] at refused
  · rw [eq] at refused ⊢
    split at refused
    · rename_i strict
      rw [if_pos strict]
    · simp at refused

theorem knownRefused {b : Builder} {s fault} (refused : (b.known s).2 = some fault) :
    (b.known s).1 = b ∨ (b.known s).1 = b.cleared := by
  revert refused
  unfold known
  dsimp only
  split
  · exact fun _ => .inl rfl
  · split
    · exact fun _ => .inl rfl
    · split
      · exact fun refused => .inr (enterRefused refused)
      · split
        · exact fun refused => .inr (leaveRefused refused)
        · simp

theorem addRefused {b : Builder} {item fault} (refused : (b.add item).2 = some fault) :
    (b.add item).1 = b ∨ (b.add item).1 = b.cleared := by
  cases item with
  | operand o => simp [add] at refused
  | image es raw =>
    simp only [add] at refused ⊢
    split at refused
    · simp at refused
    · rename_i waiting
      exact .inl (by rw [if_neg waiting])
  | operator name =>
    revert refused
    simp only [add, operator]
    split
    · simp
    · split
      · exact knownRefused
      · simp

section
variable {motive : Builder → Prop}
  (taken : ∀ {b b' item}, motive b → Took b item b' → motive b')
  (dropped : ∀ {b}, motive b → motive b.cleared)
include taken dropped

theorem addInduction {b : Builder} (h : motive b) (item : ContentItem) : motive (b.add item).1 := by
  cases outcome : (b.add item).2 with
  | none => exact taken h (took (Prod.ext rfl outcome))
  | some fault =>
    rcases addRefused outcome with same | cleared
    · rw [same]
      exact h
    · rw [cleared]
      exact dropped h

theorem itemsInduction {b : Builder} (h : motive b)
    (items : List (Except Fault (Nat × ContentItem))) : motive (b.addItems items).1 := by
  induction items generalizing b with
  | nil => exact h
  | cons read rest ih =>
    cases read with
    | error fault => exact h
    | ok placed =>
      have first := addInduction taken dropped h placed.2
      simp only [addItems]
      split
      · rename_i accepted
        rw [accepted] at first
        exact ih first
      · rename_i refused
        rw [refused] at first
        exact first

theorem fedInduction {b : Builder} (h : motive b) (feeds : List Feed) : motive (b.fedAll feeds) := by
  induction feeds generalizing b with
  | nil => exact h
  | cons f rest ih =>
    cases f with
    | item item => exact ih (addInduction taken dropped h item)
    | data data => exact ih (itemsInduction taken dropped h (ContentItem.ofData data))

end

theorem fedKept (b : Builder) (feeds : List Feed) :
    (b.fedAll feeds).params = b.params ∧ (b.fedAll feeds).binding = b.binding := by
  refine fedInduction (motive := fun c => c.params = b.params ∧ c.binding = b.binding) ?_ id
    ⟨rfl, rfl⟩ feeds
  intro c c' item same step
  exact ⟨step.kept.1.trans same.1, step.kept.2.trans same.2⟩

theorem fedStanding {b : Builder} (h : ∃ inner levels, Standing b inner levels)
    (feeds : List Feed) : ∃ inner levels, Standing (b.fedAll feeds) inner levels := by
  refine fedInduction (motive := fun c => ∃ inner levels, Standing c inner levels) ?_ ?_ h feeds
  · rintro c c' item ⟨inner, levels, standing⟩ step
    exact standingTook standing step
  · rintro c ⟨inner, levels, standing⟩
    exact ⟨inner, levels, standing.waiting []⟩

-- `openBlocks` lists the latest first, so what follows a block there is the block around it.
theorem innermostLast {t : OperatorTree} {inner : List Outline} {levels : List Level}
    (h : t.Linked none none t.head t.tail (plug inner levels)) :
    (∃ first, t.Linked (levels.head?.map Level.id) none first
      (t.lastUnder (levels.head?.map Level.id)) inner) ∧
    ∀ k l, levels[k]? = some l → t.lastUnder (levels[k + 1]?.map Level.id) = some l.id := by
  induction levels generalizing inner with
  | nil => exact ⟨⟨_, h⟩, by simp⟩
  | cons l outer ih =>
    obtain ⟨⟨first, around⟩, rest⟩ := ih h
    obtain ⟨last, below⟩ := around.lastNode
    refine ⟨below, ?_⟩
    rintro (_ | k) l' found
    · cases found
      simpa [List.head?_eq_getElem?] using last
    · exact rest k l' found

/-- What holds of a builder at every point of every run, with the binding and the params it
was made with. -/
structure Consistent (binding : Binding) (params : Params) (b : Builder) : Prop where
  linked : b.tree.isLinked = true
  deep : b.openBlocks.length ≤ params.depthLimit
  unended : ∀ id, id ∈ b.openBlocks ↔ ∃ start, b.tree.op? id = some (.block start none)
  innermost : ∀ k id, b.openBlocks[k]? = some id →
    b.tree.lastUnder b.openBlocks[k + 1]? = some id
  ended : ∀ id start stop, b.tree.op? id = some (.block start (some stop)) →
    Signature.closer? start.name = some stop.name
  fits : ∀ id op, b.tree.op? id = some op → ∀ k ∈ op.knowns, k.Fits
  bound : ∀ id op, b.tree.op? id = some op → ∀ o ∈ op.allOperands, o.isBoundTo binding = true

theorem Standing.consistent {b : Builder} {inner levels} (h : Standing b inner levels) :
    Consistent b.binding b.params b := by
  have proper : ∀ {id op}, b.tree.op? id = some op → op.Proper b.binding :=
    fun found => h.proper _ (h.builds.spells.entry found)
  refine ⟨h.builds.spells.isLinked, ?_, ?_, ?_, fun _ start stop found =>
    (proper found).ended start stop rfl, fun _ _ found => (proper found).fits,
    fun _ _ found => (proper found).bound⟩
  · rw [h.builds.opened, List.length_map]
    exact h.deep
  · intro id
    rw [h.builds.opened]
    constructor
    · intro opened
      obtain ⟨l, member, rfl⟩ := List.mem_map.mp opened
      refine ⟨l.start, h.builds.spells.op ?_⟩
      rw [entriesPlug]
      exact List.mem_append_left _ (outsideOpened member)
    · rintro ⟨start, found⟩
      exact h.ended id start (h.builds.spells.entry found)
  · intro k id found
    rw [h.builds.opened] at found ⊢
    rw [List.getElem?_map, Option.map_eq_some_iff] at found
    obtain ⟨l, found, rfl⟩ := found
    rw [List.getElem?_map]
    exact (innermostLast h.builds.spells.linked).2 k l found

/-- No run, whatever it is fed and whatever of that is refused, takes a builder out of step:
its links agree, its open blocks are the blocks without an end and stand along the right edge
of the tree, each end is the one its block asks for, and every operator has the operands it
takes, all with the binding of the builder. -/
theorem fedConsistent (binding : Binding) (params : Params) (feeds : List Feed) :
    Consistent binding params ((new binding params).fedAll feeds) := by
  obtain ⟨inner, levels, standing⟩ := fedStanding ⟨[], [], standingNew binding params⟩ feeds
  obtain ⟨sameParams, sameBinding⟩ := fedKept (new binding params) feeds
  have consistent := standing.consistent
  rw [sameParams, sameBinding] at consistent
  exact consistent

end Builder

end PageContent
