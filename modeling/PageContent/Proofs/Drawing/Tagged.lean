import Mathlib.Data.List.Forall2
import PageContent.Proofs.Builder.Accepted
import PageContent.Proofs.ContentStream.Regrouped
import PageContent.Proofs.Drawing.Performed
import PageContent.Proofs.Signature.Matched

/-! Content whose blocks all had to match is drawn with tags that nest: each block of marked
content begins one tag, named by its first operand, and ends it behind what it holds. -/
namespace PageContent
open Outline

namespace Signature

theorem firstFits {s : Signature} {operands : List Operand} {mask : KindSet}
    (taken : s.take operands = .ok operands.length) (fixed : s.least = s.arity)
    (first : s.masks[0]? = some mask) :
    ∃ o, operands[0]? = some o ∧ mask.accepts o.kind = true := by
  obtain ⟨most, least, fits⟩ := takeOk taken
  have inside : 0 < s.masks.length := (List.getElem?_eq_some_iff.mp first).1
  rw [arity] at fixed most
  obtain ⟨mask', o, mask'', there, accepted⟩ := fits (operands.length - 1) (by omega)
  rw [List.getElem?_reverse (by omega), show operands.length - 1 - (operands.length - 1) = 0 by omega]
    at there
  rw [List.getElem?_reverse (by omega),
    show s.masks.length - 1 - (operands.length - 1) = 0 by omega, first] at mask''
  cases mask''
  exact ⟨o, there, accepted⟩

end Signature

theorem Operand.nameOfKind {o : Operand} (kind : o.kind = .name) : ∃ name, o.name? = some name := by
  cases o with
  | scalar b s =>
    cases s with
    | name text => exact ⟨text, rfl⟩
    | _ => cases kind
  | _ => cases kind

namespace Known

def isMark (k : Known) : Bool := k.name = "BMC" || k.name = "BDC"

def tag? (k : Known) : Option Drawing.Tag :=
  (k.operands[0]?.bind Operand.name?).map fun name => .opened name k.operands[1]?

theorem Accepted.marked {b : Binding} {k : Known} (accepted : k.Accepted b) (mark : k.isMark = true) :
    ∃ name, k.operands[0]?.bind Operand.name? = some name := by
  have shape : k.signature.least = k.signature.arity ∧ k.signature.masks[0]? = some .name := by
    have found := accepted.found
    simp only [isMark, Bool.or_eq_true, decide_eq_true_eq] at mark
    obtain same | same := mark
    · rw [same] at found
      rw [← Option.some.inj found]
      decide
    · rw [same] at found
      rw [← Option.some.inj found]
      decide
  obtain ⟨o, there, accepts⟩ := Signature.firstFits accepted.takes shape.1 shape.2
  obtain ⟨name, named⟩ := Operand.nameOfKind ((KindSet.accepts_of _ _).mp accepts).symm
  exact ⟨name, by rw [there]; exact named⟩

end Known

namespace Instruction

def mark? : Instruction → Option Known
  | block start _ => if start.isMark then some start else none
  | _ => none

theorem leafMark (op : Instruction) (leaf : op.isBlock = false) : op.mark? = none := by
  cases op with
  | block start stop => cases leaf
  | _ => rfl

end Instruction

theorem Outline.leafHollow {b : Binding} {params : Params} {around : List Known} {id : Nat}
    {op : Instruction} {children : List Outline}
    (accepted : AcceptedOf b params around (.node id op children)) (leaf : op.isBlock = false) :
    children = [] := by
  cases op with
  | block start stop => cases leaf
  | _ => exact accepted.2

def OperatorTree.marks (t : OperatorTree) : List Known :=
  t.nodes.toList.filterMap fun n => n.op.mark?

namespace Drawing

inductive Marks : List Outline → List Tag → Prop where
  | nil : Marks [] []
  | marked {id op start name children rest inner later} (mark : op.mark? = some start)
      (named : start.operands[0]?.bind Operand.name? = some name) (below : Marks children inner)
      (after : Marks rest later) : Marks (.node id op children :: rest)
        (.opened name start.operands[1]? :: inner ++ [.closed] ++ later)
  | passed {id op children rest inner later} (none : op.mark? = none)
      (below : Marks children inner) (after : Marks rest later) :
      Marks (.node id op children :: rest) (inner ++ later)

namespace Marks
variable {os : List Outline} {tags : List Tag}

theorem balanced (h : Marks os tags) : Balanced Tag.isOpened Tag.isClosed tags := by
  induction h with
  | nil => exact .nil
  | marked mark named below after inside later =>
    exact (inside.enclose ⟨rfl, rfl⟩ ⟨rfl, rfl⟩).append later
  | passed none below after inside later => exact inside.append later

theorem begun (h : Marks os tags) : (tags.filter Tag.isOpened).map some =
    ((entries os).filterMap fun e => e.2.mark?).map Known.tag? := by
  induction h with
  | nil => rfl
  | marked mark named below after inside later =>
    simp [entries, entriesOf, List.filter_cons, mark, Known.tag?, named, inside, later]
  | passed none below after inside later => simp [entries, entriesOf, none, inside, later]

end Marks

section
variable {encoding : Encoding} {s : State}

theorem performTags {name : String} (operands : List Operand)
    (other : name ∉ ["BMC", "BDC", "EMC"]) :
    (perform encoding s name operands).2.filterMap Event.tag? = [] := by
  by_cases save : name = "q"
  · subst save
    rfl
  by_cases restore : name = "Q"
  · subst restore
    cases saved : s.saved with
    | nil => rw [performUnsaved saved]; rfl
    | cons entry below => rw [performRestore saved]; rfl
  · refine (Plain.performed encoding s operands ?_).tags
    simpa [save, restore] using other

theorem performMark {start : Known} (mark : start.isMark = true) {name : String}
    (named : start.operands[0]?.bind Operand.name? = some name) :
    perform encoding s start.name start.operands = (s, [.beginTag name start.operands[1]?]) := by
  have tag : tag? start.operands = some name := by rwa [tag?, List.head?_eq_getElem?]
  simp only [Known.isMark, Bool.or_eq_true, decide_eq_true_eq] at mark
  unfold perform
  obtain same | same := mark
  · simp only [same, tag]
  · simp only [same, tag]

variable {b : Binding} {params : Params}

theorem leafTags {around : List Known} {op : Instruction} (strict : params.strictBlocks = true)
    (accepted : op.Accepted b params around) (leaf : op.isBlock = false) (id : Nat)
    (children : List Outline) :
    (draw encoding s (.node id op children)).2.filterMap Event.tag? = [] := by
  cases op with
  | simple k =>
    obtain ⟨-, opens, closes⟩ := accepted
    simp only [draw, Instruction.name, Instruction.operands]
    refine performTags _ fun special => ?_
    simp only [List.mem_cons, List.not_mem_nil, or_false] at special
    obtain same | same | same := special
    · simp [same, Signature.closer?] at opens
    · simp [same, Signature.closer?] at opens
    · have lenient := (closes (by simp [same, Signature.isCloser])).1
      rw [strict] at lenient
      cases lenient
  | unknown name operands =>
    obtain ⟨absent, -⟩ := accepted
    simp only [draw, Instruction.name, Instruction.operands]
    refine performTags _ fun special => ?_
    simp only [List.mem_cons, List.not_mem_nil, or_false] at special
    obtain rfl | rfl | rfl := special
    · exact absurd absent (by decide)
    · exact absurd absent (by decide)
    · exact absurd absent (by decide)
  | image entries data => simp [draw, State.silent]
  | block start stop => cases leaf

theorem markedEnd {start : Known} (mark : start.isMark = true) :
    perform encoding s start.endName [] = (s, [.endTag]) := by
  simp only [Known.isMark, Bool.or_eq_true, decide_eq_true_eq] at mark
  obtain same | same := mark
  · rw [Known.endName, same]
    rfl
  · rw [Known.endName, same]
    rfl

theorem textNames {start : Known} (opens : (Signature.closer? start.name).isSome)
    (plain : start.isMark = false) : start.name = "BT" ∧ start.endName = "ET" := by
  have text : start.name = "BT" := by
    simp only [Known.isMark, Bool.or_eq_false_iff, decide_eq_false_iff_not] at plain
    simpa [Signature.closer?, plain] using opens
  rw [Known.endName, text]
  exact ⟨rfl, rfl⟩

end

theorem marksDrawn {encoding : Encoding} {b : Binding} {params : Params}
    (strict : params.strictBlocks = true) {around : List Known} {os : List Outline}
    (accepted : Accepted b params around os) (s : State) :
    Marks os ((drawAll encoding s os).2.filterMap Event.tag?) := by
  induction os using forest generalizing around s with
  | nil => exact .nil
  | cons id op children rest below later =>
    obtain ⟨node, others⟩ := accepted
    simp only [drawAll, List.filterMap_append]
    cases leaf : op.isBlock with
    | false =>
      obtain rfl : children = [] := leafHollow node leaf
      rw [leafTags strict node.1 leaf]
      exact .passed (op.leafMark leaf) .nil (later others _)
    | true =>
      cases op with
      | block start stop =>
        obtain ⟨here, contents⟩ := node
        have inside := below contents (perform encoding s start.name start.operands).1
        simp only [draw, List.filterMap_append]
        cases mark : start.isMark with
        | true =>
          obtain ⟨name, named⟩ := here.1.marked mark
          rw [performMark mark named] at inside ⊢
          rw [markedEnd mark]
          exact .marked (by simp [Instruction.mark?, mark]) named inside (later others _)
        | false =>
          obtain ⟨starts, ends⟩ := textNames here.2.1 mark
          rw [performTags _ (by simp [starts]), performTags _ (by simp [ends]), List.nil_append,
            List.append_nil]
          exact .passed (by simp [Instruction.mark?, mark]) inside (later others _)
      | _ => cases leaf

end Drawing

namespace OperatorTree

theorem entriesInOrder {t : OperatorTree} (spells : t.Spells t.outline)
    (order : ids t.outline = List.range t.size) :
    (entries t.outline).map Prod.snd = t.nodes.toList.map OperatorNode.op := by
  rw [← List.map_inj_right (fun _ _ => Option.some.inj), List.map_map, List.map_map]
  have listed : (entries t.outline).map (some ∘ Prod.snd) = (ids t.outline).map t.op? := by
    rw [idsEntries, List.map_map]
    exact List.map_congr_left fun e member => (spells.op member).symm
  rw [listed, order]
  refine List.ext_getElem? fun i => ?_
  simp only [List.getElem?_map, Array.getElem?_toList]
  by_cases inside : i < t.size
  · rw [List.getElem?_range inside, Option.map_some, OperatorTree.op?,
      Array.getElem?_eq_getElem inside]
    rfl
  · rw [List.getElem?_eq_none (by simpa using inside), Array.getElem?_eq_none (Nat.not_lt.mp inside)]
    rfl

end OperatorTree

namespace ContentStream

theorem addAllSound {d : Document} {b b' : Builder} {inner : List Outline} {levels : List Level}
    {backing : List Backing} (h : b.Sound inner levels) (run : addAll d b backing = .ok b') :
    (∃ inner' levels', b'.Sound inner' levels') ∧ b'.params = b.params := by
  induction backing generalizing b inner levels with
  | nil => cases run; exact ⟨⟨inner, levels, h⟩, rfl⟩
  | cons s rest ih =>
    obtain ⟨data, b₁, -, taken, more⟩ := addAllCons.mp run
    obtain ⟨inner₁, levels₁, h₁⟩ := Builder.soundRun h
      (fun pos item member => ContentItem.ofDataReadable member) taken
    obtain ⟨sound, params⟩ := ih h₁ more
    exact ⟨sound, params.trans (Builder.addItemsKept taken).1⟩

theorem readAccepted {d : Document} {id : Nat} {backing : List Backing} {params : Params}
    {s : ContentStream} (ok : read d id backing params = .ok s) :
    s.tree.Spells s.tree.outline ∧ ids s.tree.outline = List.range s.tree.size ∧
      ∃ b, Accepted b params [] s.tree.outline := by
  obtain ⟨first, rest, b, t, -, run, closed, rfl⟩ := readOk.mp ok
  obtain ⟨⟨inner, levels, h⟩, params'⟩ :=
    addAllSound ⟨Builder.buildsNew _ params, trivial, trivial⟩ run
  obtain ⟨spells, order, accepted⟩ := h.tree closed
  rw [params'] at accepted
  exact ⟨spells, order, _, accepted⟩

def Strict (s : ContentStream) : Prop :=
  ∃ (d : Document) (id : Nat) (nodes : List Nat) (params : Params), params.strictBlocks = true ∧
    (make d id nodes params = .ok s ∨ ∃ gs, groups d id nodes params = .ok gs ∧ s ∈ gs)

theorem Strict.read {s : ContentStream} (h : s.Strict) : ∃ d id backing params,
    params.strictBlocks = true ∧ ContentStream.read d id backing params = .ok s := by
  obtain ⟨d, id, nodes, params, strict, made | ⟨gs, ok, member⟩⟩ := h
  · obtain ⟨backing, -, ok⟩ := bindOk.mp made
    exact ⟨d, id, backing, params, strict, ok⟩
  · obtain ⟨-, -, -, each⟩ := groupsOf ok
    exact ⟨d, s.id, s.backing, params, strict, each s member⟩

end ContentStream

namespace Drawing

def runEach (encoding : Encoding) (s : State) : List OperatorTree → List (List Event)
  | [] => []
  | t :: rest =>
    let (s, events) := run encoding s [t]
    events :: runEach encoding s rest

theorem runTrees (encoding : Encoding) (s : State) (t : OperatorTree) (rest : List OperatorTree) :
    run encoding s (t :: rest) =
      ((run encoding (run encoding s [t]).1 rest).1,
        (run encoding s [t]).2 ++ (run encoding (run encoding s [t]).1 rest).2) := by
  simp only [run, List.flatMap_cons, List.flatMap_nil, List.append_nil, drawAllPerformed,
    dispatchesAppend, performAllAppend]

theorem runFlat (encoding : Encoding) (s : State) (ts : List OperatorTree) :
    (run encoding s ts).2 = (runEach encoding s ts).flatten := by
  induction ts generalizing s with
  | nil => rfl
  | cons t rest ih => rw [runTrees, runEach, List.flatten_cons, ih]

structure Tagged (t : OperatorTree) (tags : List Tag) : Prop where
  balanced : Balanced Tag.isOpened Tag.isClosed tags
  nested : Marks t.outline tags
  begun : (tags.filter Tag.isOpened).map some = t.marks.map Known.tag?
  paired : tags.countP Tag.isOpened = t.marks.length ∧ tags.countP Tag.isClosed = t.marks.length

theorem tagged (encoding : Encoding) (s : State) {c : ContentStream} (strict : c.Strict) :
    Tagged c.tree ((run encoding s [c.tree]).2.filterMap Event.tag?) := by
  obtain ⟨d, id, backing, params, strict, ok⟩ := strict.read
  obtain ⟨spells, order, b, accepted⟩ := ContentStream.readAccepted ok
  have marks : Marks c.tree.outline ((run encoding s [c.tree]).2.filterMap Event.tag?) := by
    rw [run, List.flatMap_singleton]
    exact marksDrawn strict accepted s
  have listed : c.tree.marks = (entries c.tree.outline).filterMap fun e => e.2.mark? := by
    have same := congrArg (List.filterMap Instruction.mark?)
      (OperatorTree.entriesInOrder spells order)
    rw [List.filterMap_map, List.filterMap_map] at same
    exact same.symm
  have begun := listed ▸ marks.begun
  have count : ((run encoding s [c.tree]).2.filterMap Event.tag?).countP
      Tag.isOpened = c.tree.marks.length := by
    simpa [List.countP_eq_length_filter] using congrArg List.length begun
  exact ⟨marks.balanced, marks, begun, count, marks.balanced.ended.trans count⟩

/-- Drawing content streams in which every block had to match begins and ends tags in balance
within each of them: one tag around what a block of marked content holds and no other, named by
the first operand of the block. -/
theorem tagsNested (encoding : Encoding) (s : State) {streams : List ContentStream}
    (strict : ∀ c ∈ streams, c.Strict) :
    (run encoding s (streams.map ContentStream.tree)).2 =
      (runEach encoding s (streams.map ContentStream.tree)).flatten ∧
    List.Forall₂ (fun c events => Tagged c.tree (events.filterMap Event.tag?)) streams
      (runEach encoding s (streams.map ContentStream.tree)) := by
  refine ⟨runFlat encoding s _, ?_⟩
  induction streams generalizing s with
  | nil => exact .nil
  | cons c rest ih =>
    obtain ⟨first, later⟩ := List.forall_mem_cons.mp strict
    exact .cons (tagged encoding s first) (ih _ later)

def markedStreams : Document :=
  ⟨1, #[⟨.stream [] (ascii ['/', 'A', ' ', 'B', 'M', 'C', ' ', 'B', 'T']), some ⟨1, 0⟩⟩,
    ⟨.stream [] (ascii ['/', 'B', '/', 'P', ' ', 'B', 'D', 'C', ' ', 'E', 'M', 'C', ' ', 'E', 'T', ' ',
      'E', 'M', 'C']), some ⟨2, 0⟩⟩,
    ⟨.stream [] (ascii ['/', 'C', ' ', 'B', 'M', 'C', ' ', 'E', 'M', 'C']), some ⟨3, 0⟩⟩],
    #[.node 0, .node 1, .node 2], []⟩

def strictParams : Params := { Params.default with strictBlocks := true }

def Tag.name? : Tag → Option String
  | opened name _ => some name
  | closed => none

def tagNames (streams : List ContentStream) : List (List (Option String)) :=
  (runEach .latin1 (.initial .identity) (streams.map ContentStream.tree)).map fun events =>
    (events.filterMap Event.tag?).map Tag.name?

theorem tagsNestedOfTwo : ∃ gs, ContentStream.groups markedStreams 0 [0, 1, 2] strictParams = .ok gs ∧
    tagNames gs = [[some "A", some "B", none, none], [some "C", none]] ∧
    (∀ c ∈ gs, c.Strict) ∧
    List.Forall₂ (fun c events => Tagged c.tree (events.filterMap Event.tag?)) gs
      (runEach .latin1 (.initial .identity) (gs.map ContentStream.tree)) := by
  have evaluated : (ContentStream.groups markedStreams 0 [0, 1, 2] strictParams).toOption.map tagNames =
      some [[some "A", some "B", none, none], [some "C", none]] := by decide +kernel
  cases read : ContentStream.groups markedStreams 0 [0, 1, 2] strictParams with
  | error fault => simp [read, Except.toOption] at evaluated
  | ok gs =>
    simp only [read, Except.toOption, Option.map_some, Option.some.injEq] at evaluated
    have strict : ∀ c ∈ gs, c.Strict := fun c member =>
      ⟨markedStreams, 0, [0, 1, 2], strictParams, rfl, .inr ⟨gs, read, member⟩⟩
    exact ⟨gs, rfl, evaluated, strict, (tagsNested .latin1 (.initial .identity) strict).2⟩

end Drawing

end PageContent
