import PageContent.Proofs.Builder.Accepted
import PageContent.Proofs.Builder.Feeding
import PageContent.Proofs.OperatorTree.Spots

/-! Params decide which content is accepted and nothing else: whatever they are, the tree is
the one that any others would give. -/
namespace PageContent
open Outline

def Spot.Admitted (p : Params) (s : Spot) : Prop :=
  (s.op.isBlock = true → s.depth < p.depthLimit) ∧
  ∀ k, s.op = .simple k → Signature.isCloser k.name = true → p.strictBlocks = false

def held : List Level → List Spot
  | [] => []
  | l :: outer =>
    held outer ++ (spots outer.length l.before ++ [⟨l.id, outer.length, .block l.start none⟩])

theorem spotsPlug (inner : List Outline) (levels : List Level) :
    spots 0 (plug inner levels) = held levels ++ spots levels.length inner := by
  induction levels generalizing inner with
  | nil => rfl
  | cons l outer ih => simp [plug, held, ih, spots, spotsOf, Instruction.begun]

theorem acceptedSpots {binding : Binding} {p : Params} {around : List Known} {os : List Outline}
    (h : Accepted binding p around os) : ∀ s ∈ spots around.length os, s.Admitted p := by
  induction os using forest generalizing around with
  | nil => simp [spots]
  | cons id op children rest below later =>
    obtain ⟨⟨accepted, inside⟩, after⟩ := h
    intro s member
    simp only [spots, spotsOf, List.mem_append, List.mem_cons] at member
    rcases member with (rfl | under) | further
    · refine ⟨fun block => ?_, fun k same closes => ?_⟩
      · cases op with
        | block start stop => exact accepted.2.2.1
        | _ => simp [Instruction.begun, Instruction.isBlock] at block
      · cases op with
        | simple k' =>
          obtain rfl : k' = k := by simpa [Instruction.begun] using same
          exact (accepted.2.2 closes).1
        | _ => simp [Instruction.begun] at same
    · cases op with
      | block start stop => exact below inside s under
      | _ =>
        obtain rfl : children = [] := inside
        simp [spots] at under
    · exact later after s further

namespace Builder
variable {b b' : Builder} {inner : List Outline} {levels : List Level}

def under (p : Params) (b : Builder) : Builder := { b with params := p }

theorem Builds.spotsAppend (h : Builds b inner levels) (op : Instruction) :
    spots 0 (b.append op).tree.outline =
      spots 0 b.tree.outline ++ [⟨b.tree.size, b.openBlocks.length, op.begun⟩] := by
  rw [(h.append op).spells.outline, h.spells.outline, spotsPlug, spotsPlug, h.opened]
  simp [spots, spotsOf]

theorem Builds.spotAdded (h : Builds b inner levels) (op : Instruction) :
    ⟨b.tree.size, b.openBlocks.length, op.begun⟩ ∈ spots 0 (b.append op).tree.outline := by
  rw [h.spotsAppend]
  exact List.mem_append_right _ (List.mem_singleton_self _)

theorem Builds.spotsLeave {l : Level} {outer : List Level} (h : Builds b inner (l :: outer))
    (stop : Known) :
    spots 0 (b.tree.modify l.id (closed stop)).outline = spots 0 b.tree.outline := by
  rw [(h.leave stop).spells.outline, h.spells.outline, spotsPlug, spotsPlug]
  simp [held, spots, spotsOf, Instruction.begun]

theorem Builds.took (h : Builds b inner levels) {item} (step : Took b item b') :
    (∃ inner' levels', Builds b' inner' levels') ∧
      ∃ more, spots 0 b'.tree.outline = spots 0 b.tree.outline ++ more := by
  have cleared : Builds b.cleared inner levels := h.waiting []
  cases step with
  | operand o => exact ⟨⟨_, _, h.waiting _⟩, [], by simp⟩
  | fold two => exact ⟨⟨_, _, h.waiting _⟩, [], by simp⟩
  | unknown whole absent => exact ⟨⟨_, _, cleared.append _⟩, _, cleared.spotsAppend _⟩
  | plain fits opens closes => exact ⟨⟨_, _, cleared.append _⟩, _, cleared.spotsAppend _⟩
  | stray fits opens closes lenient other =>
    exact ⟨⟨_, _, cleared.append _⟩, _, cleared.spotsAppend _⟩
  | enter fits opens room => exact ⟨⟨_, _, cleared.enter _⟩, _, cleared.spotsAppend _⟩
  | @leave name s id outer start fits opens closes opened innermost same =>
    cases levels with
    | nil => simp [h.opened] at opened
    | cons l around =>
      rw [h.opened] at opened
      obtain ⟨rfl, rfl⟩ := List.cons.inj opened
      exact ⟨⟨_, _, cleared.leave (b.knownOf s)⟩, [], by simpa using cleared.spotsLeave (b.knownOf s)⟩
  | image clear => exact ⟨⟨_, _, h.append _⟩, _, h.spotsAppend _⟩

theorem Took.under (h : Builds b inner levels) {item} (step : Took b item b') {p : Params}
    (admitted : ∀ s ∈ spots 0 b'.tree.outline, s.Admitted p) :
    Took (b.under p) item (b'.under p) := by
  have cleared : Builds b.cleared inner levels := h.waiting []
  cases step with
  | operand o => exact .operand o
  | fold two => exact .fold two
  | unknown whole absent => exact .unknown whole absent
  | plain fits opens closes => exact .plain fits opens closes
  | @stray name s fits opens closes lenient other =>
    have added := admitted _ (cleared.spotAdded (.simple (b.knownOf s)))
    exact .stray fits opens closes (added.2 (b.knownOf s) rfl closes) other
  | @enter name s fits opens room =>
    have added := admitted _ (cleared.spotAdded (.block (b.knownOf s) none))
    exact .enter fits opens (added.1 rfl)
  | leave fits opens closes opened innermost same =>
    exact .leave fits opens closes opened innermost same
  | image clear => exact .image clear

theorem Builds.addItems {items : List (Except Fault (Nat × ContentItem))}
    (h : Builds b inner levels) (run : b.addItems items = (b', none)) :
    (∃ inner' levels', Builds b' inner' levels') ∧
      ∃ more, spots 0 b'.tree.outline = spots 0 b.tree.outline ++ more := by
  induction items generalizing b inner levels with
  | nil => cases run; exact ⟨⟨_, _, h⟩, [], by simp⟩
  | cons read rest ih =>
    obtain ⟨pos, item, b₁, -, first, later⟩ := addItemsCons.mp run
    obtain ⟨⟨_, _, h₁⟩, added, grown⟩ := h.took first
    obtain ⟨builds, more, rest⟩ := ih h₁ later
    exact ⟨builds, added ++ more, by rw [rest, grown, List.append_assoc]⟩

theorem addItemsUnder {items : List (Except Fault (Nat × ContentItem))} (h : Builds b inner levels)
    (run : b.addItems items = (b', none)) {p : Params}
    (admitted : ∀ s ∈ spots 0 b'.tree.outline, s.Admitted p) :
    (b.under p).addItems items = (b'.under p, none) := by
  induction items generalizing b inner levels with
  | nil => cases run; rfl
  | cons read rest ih =>
    obtain ⟨pos, item, b₁, rfl, first, later⟩ := addItemsCons.mp run
    obtain ⟨⟨_, _, h₁⟩, -⟩ := h.took first
    obtain ⟨-, more, grown⟩ := h₁.addItems later
    have soFar : ∀ s ∈ spots 0 b₁.tree.outline, s.Admitted p := fun s member =>
      admitted s (grown ▸ List.mem_append_left more member)
    exact addItemsCons.mpr ⟨pos, item, b₁.under p, rfl, first.under h soFar, ih h₁ later⟩

theorem sizeTook {item : ContentItem} (step : Took b item b') :
    b'.tree.size ≤ b.tree.size + 1 := by
  cases step with
  | leave => simp [OperatorTree.modify, OperatorTree.size]
  | _ => simp [Builder.append, OperatorTree.sizePush]

theorem sizeItems {items : List (Except Fault (Nat × ContentItem))}
    (run : b.addItems items = (b', none)) : b'.tree.size ≤ b.tree.size + items.length := by
  induction items generalizing b with
  | nil => cases run; exact Nat.le_add_right _ _
  | cons read rest ih =>
    obtain ⟨pos, item, b₁, -, first, later⟩ := addItemsCons.mp run
    have one := sizeTook first
    have others := ih later
    rw [List.length_cons]
    omega

theorem treeExact {t : OperatorTree} : b.toTree = .ok t ↔ b.tree = t ∧ b.pending = [] ∧
    (b.params.strictBlocks = true → b.openBlocks = []) := by
  constructor
  · intro finished
    obtain ⟨same, clear⟩ := finishedTree finished
    refine ⟨same, clear, fun strict => ?_⟩
    cases opened : b.openBlocks with
    | nil => rfl
    | cons id outer => simp [toTree, clear, opened, strict] at finished
  · rintro ⟨rfl, clear, closed⟩
    cases opened : b.openBlocks with
    | nil => simp [toTree, clear, opened]
    | cons id outer =>
      have lenient : b.params.strictBlocks ≠ true := fun strict => by simp [closed strict] at opened
      simp [toTree, clear, opened, lenient]

theorem openUnended {binding : Binding} {p : Params} {data : Bytes}
    (run : (new binding p).addData data = (b, none)) (id : Nat) :
    id ∈ b.openBlocks ↔ ∃ start, b.tree.op? id = some (.block start none) := by
  obtain ⟨inner, levels, standing⟩ := fedStanding ⟨[], [], standingNew binding p⟩ [.data data]
  have fed : (new binding p).fedAll [.data data] = b := congrArg Prod.fst run
  rw [fed] at standing
  exact standing.consistent.unended id

end Builder

theorem ContentItem.Reader.runCount (fuel : Nat) (r : Reader) :
    (r.run fuel).1.length ≤ r.lexer.rest.length := by
  induction fuel generalizing r with
  | zero => exact Nat.zero_le _
  | succ fuel ih =>
    rw [run]
    split
    · exact Nat.zero_le _
    · rename_i item r' found
      have shorter := nextShorter found
      have others := ih r'
      simp only [List.length_cons]
      omega

def Instruction.Admitted (p : Params) (depth : Nat) : Instruction → Prop
  | block _ stop => depth < p.depthLimit ∧ (p.strictBlocks = true → stop.isSome = true)
  | simple k => p.strictBlocks = true → k.name ≠ "ET" ∧ k.name ≠ "EMC"
  | _ => True

theorem Spot.admitted {p : Params} {depth : Nat} {op : Instruction} (id : Nat) :
    op.Admitted p depth ↔ (Spot.mk id depth op.begun).Admitted p ∧
      (p.strictBlocks = true → ∀ start, op ≠ .block start none) := by
  cases op with
  | block start stop => cases stop <;> simp [Instruction.Admitted, Spot.Admitted,
      Instruction.begun, Instruction.isBlock]
  | simple k =>
    simp [Instruction.Admitted, Spot.Admitted, Instruction.begun, Instruction.isBlock,
      Signature.isCloser]
    grind
  | _ => simp [Instruction.Admitted, Spot.Admitted, Instruction.begun, Instruction.isBlock]

namespace OperatorTree

theorem parseUnder {data : Bytes} {binding : Binding} {p q : Params} {t : OperatorTree}
    (parsed : parse data binding p = .ok t)
    (admitted : ∀ s ∈ spots 0 t.outline, s.Admitted q)
    (closed : q.strictBlocks = true → ∀ id start, t.op? id ≠ some (.block start none)) :
    parse data binding q = .ok t := by
  obtain ⟨b, run, finished⟩ := parseExact.mp parsed
  obtain ⟨rfl, clear, -⟩ := Builder.treeExact.mp finished
  have again := Builder.addItemsUnder (Builder.buildsNew binding p) run admitted
  refine parseExact.mpr ⟨b.under q, again, Builder.treeExact.mpr ⟨rfl, clear, fun strict => ?_⟩⟩
  refine List.eq_nil_iff_forall_not_mem.mpr fun id opened => ?_
  obtain ⟨start, found⟩ := (Builder.openUnended run id).mp opened
  exact closed strict id start found

theorem parseClosed {data : Bytes} {binding : Binding} {p : Params} {t : OperatorTree}
    (parsed : parse data binding p = .ok t) (strict : p.strictBlocks = true) (id : Nat)
    (start : Known) : t.op? id ≠ some (.block start none) := by
  intro found
  obtain ⟨b, run, finished⟩ := parseExact.mp parsed
  obtain ⟨rfl, clear, closed⟩ := Builder.treeExact.mp finished
  have opened := (Builder.openUnended run id).mpr ⟨start, found⟩
  rw [closed ((Builder.addItemsKept run).1 ▸ strict)] at opened
  contradiction

theorem parseSize {data : Bytes} {binding : Binding} {p : Params} {t : OperatorTree}
    (parsed : parse data binding p = .ok t) : t.size ≤ data.length := by
  obtain ⟨b, run, finished⟩ := parseExact.mp parsed
  obtain ⟨rfl, -, -⟩ := Builder.treeExact.mp finished
  have fewer := Builder.sizeItems run
  have count := ContentItem.Reader.runCount (data.length + 1) (.ofData data)
  simp only [Builder.new, empty, OperatorTree.size, Array.size_empty, Nat.zero_add] at fewer
  exact Nat.le_trans fewer count

/-- Params only filter: content is accepted with a tree exactly if it is without any demands,
with a limit that content of its length cannot reach, and every operator of that same tree is
one that the params admit where it stands. -/
theorem parseFilters (data : Bytes) (binding : Binding) (p : Params) (tag : Option String)
    (unlimited : Nat) (room : data.length ≤ unlimited) (t : OperatorTree) :
    parse data binding p = .ok t ↔
      parse data binding ⟨false, tag, unlimited⟩ = .ok t ∧
        ∀ id op, t.op? id = some op → op.Admitted p (t.depth id) := by
  constructor
  · intro parsed
    obtain ⟨spells, -, accepted⟩ := parseAccepted parsed
    refine ⟨parseUnder parsed (fun s member => ⟨fun _ => ?_, fun _ _ _ => rfl⟩) nofun, ?_⟩
    · have bounded := spotsBounded s member
      rw [spells.count] at bounded
      have size := parseSize parsed
      simp only
      omega
    · intro id op found
      refine (Spot.admitted id).mpr ⟨acceptedSpots accepted _ (spells.spot found), ?_⟩
      rintro strict start rfl
      exact parseClosed parsed strict id start found
  · rintro ⟨parsed, admitted⟩
    obtain ⟨spells, -, -⟩ := parseAccepted parsed
    refine parseUnder parsed ?_ ?_
    · intro s member
      obtain ⟨op, found, begun⟩ := spells.spotOp member
      have here := ((Spot.admitted s.id).mp (admitted s.id op found)).1
      rw [spells.depth member, begun] at here
      exact here
    · intro strict id start found
      exact ((Spot.admitted id).mp (admitted id _ found)).2 strict start rfl

def nestedBlocks : Bytes :=
  ascii ['/', 'P', ' ', 'B', 'M', 'C', ' ', 'B', 'T', ' ', 'E', 'T', ' ', 'n', ' ', 'E', 'M', 'C']

theorem parseFiltersNested : nestedBlocks.length ≤ 2 ^ 64 - 1 ∧ ∃ t, t.size = 3 ∧
    parse nestedBlocks ⟨1, ⟨1, 0⟩⟩ ⟨false, none, 2 ^ 64 - 1⟩ = .ok t ∧
    ∀ id op, t.op? id = some op → op.Admitted ⟨true, none, 2⟩ (t.depth id) := by
  have length : nestedBlocks.length = 18 := rfl
  have room : nestedBlocks.length ≤ 2 ^ 64 - 1 := by
    rw [length]
    decide
  exact ⟨room, _, rfl,
    (parseFilters nestedBlocks ⟨1, ⟨1, 0⟩⟩ ⟨true, none, 2⟩ none (2 ^ 64 - 1) room _).mp rfl⟩

end OperatorTree

end PageContent
