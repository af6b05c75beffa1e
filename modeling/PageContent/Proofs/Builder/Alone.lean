import PageContent.Proofs.Builder.Feeding
import PageContent.Proofs.Builder.Rebuilt
import PageContent.Proofs.Operand.Exact

/-! Operators that are written one by one, as any may be made, and what a builder makes of
their text. An operator whose name is the end of a block may end one that an operator before it
began. -/
namespace PageContent
open Outline

namespace Instruction

def told (op : Instruction) : List ContentItem := op.lead.map ContentItem.unbound

def Exact (op : Instruction) : Prop :=
  (∀ o ∈ op.allOperands, o.Readable ∧ o.Realless) ∧
    ∀ es raw, op = image es raw → Dict.Distinct es

def Legible : Instruction → Prop
  | image es raw => (ContentItem.image es raw).Readable
  | op => (ContentItem.operator op.name).Readable ∧
    (op.name = "R" → Assembly.reference? op.operands.reverse = none)

def resealed : Instruction → Instruction
  | image es raw => image es (if Assembly.isSelfEnding es then Lexeme.resealed raw else raw)
  | op => op

def awaited (name : String) (ends : List String) : List String :=
  match Signature.closer? name with
  | some stop => stop :: ends
  | none => if ends.head? = some name then ends.tail else ends

def leaves (ends : List String) : Instruction → List String
  | image _ _ => ends
  | block start _ =>
    if (Signature.closer? start.name).isSome then ends else awaited start.name ends
  | op => awaited op.name ends

def kept (ends : List String) : List Instruction → List Instruction
  | [] => []
  | op :: rest =>
    if ends.head? = some op.name then kept (op.leaves ends) rest
    else op :: kept (op.leaves ends) rest

def spelledAlone : Instruction → List ContentItem
  | block start stop => (block start stop).spelledLead ++
    if (Signature.closer? start.name).isSome then (block start stop).spelledClose else []
  | op => op.resealed.spelledLead

theorem keptSublist (ends : List String) (ops : List Instruction) : (kept ends ops).Sublist ops := by
  induction ops generalizing ends with
  | nil => exact .refl _
  | cons op rest ih =>
    rw [kept]
    split
    · exact (ih _).cons op
    · exact (ih _).cons_cons op

theorem Exact.line {op : Instruction} (exact : op.Exact) :
    Operand.ReadableItems op.operands ∧ Operand.ReallessItems op.operands := by
  have within : ∀ o ∈ op.operands, o ∈ op.allOperands := by
    intro o member
    cases op with
    | image es raw => simp [operands] at member
    | block start stop => exact List.mem_append_left _ member
    | _ => exact member
  exact ⟨Operand.readableItems.mpr fun o member => (exact.1 o (within o member)).1,
    Operand.reallessItems fun o member => (exact.1 o (within o member)).2⟩

theorem Exact.image {es : Dict Operand} {raw : Bytes} (exact : (image es raw).Exact) :
    Dict.Distinct es ∧ Operand.ReallessEntries es := by
  refine ⟨exact.2 es raw rfl, Operand.reallessEntries fun k o member => ?_⟩
  exact (exact.1 o (List.mem_map.mpr ⟨(k, o), member, rfl⟩)).2

variable {op : Instruction} {tail : Bytes} {items : List ContentItem}

theorem yieldsAlone (exact : op.Exact) (legible : op.Legible) (h : ContentItem.Yields tail items) :
    ContentItem.Yields (op.written ++ Octet.lineFeed :: tail) (op.spelledAlone ++ items) := by
  have line : Octet.isBlank Octet.lineFeed = true := rfl
  have ended : Ended (Octet.lineFeed :: tail) := Assembly.endedBlank line _
  have readable := exact.line.1
  have next := h.blank line
  cases op with
  | image es raw =>
    obtain ⟨distinct, values, clear, whole⟩ := legible
    cases ending : Assembly.isSelfEnding es with
    | false =>
      have read := next.image distinct values ending (clear ending) ended
      simpa [spelledAlone, resealed, spelledLead, written, opening, ending] using read
    | true =>
      have read := next.sealedImage distinct values ending (whole ending) ended
      simpa [spelledAlone, resealed, spelledLead, written, opening, ending] using read
  | simple k =>
    have read := next.line readable legible.1.1 legible.1.2 ended
    simpa [spelledAlone, resealed, spelledLead, written, opening, Known.written, name,
      operands] using read
  | unknown name os =>
    have read := next.line readable legible.1.1 legible.1.2 ended
    simpa [spelledAlone, resealed, spelledLead, written, opening, Instruction.name,
      operands] using read
  | block start stop =>
    cases opens : (Signature.closer? start.name).isSome with
    | false =>
      have none' : start.endName = "" := by
        simp only [Option.isSome_eq_false_iff, Option.isNone_iff_eq_none] at opens
        rw [Known.endName, opens, Option.getD_none]
      have read := (next.blank line).line readable legible.1.1 legible.1.2 (Assembly.endedBlank line _)
      have empty : Utf8.encode "" = [] := by decide
      simpa [spelledAlone, spelledLead, spelledClose, written, Known.written, name,
        opens, none', empty, operands] using read
    | true =>
      obtain ⟨spoken, other⟩ := spokenEnd opens
      have closed := (next.operator spoken other ended).blank line
      have read := closed.line readable legible.1.1 legible.1.2 (Assembly.endedBlank line _)
      simpa [spelledAlone, spelledLead, spelledClose, written, Known.written, name,
        opens, operands] using read

end Instruction

def OperatorTree.told (t : OperatorTree) : List (List ContentItem) :=
  (entries t.outline).map fun e => e.2.told

namespace ContentItem

theorem lineUnbound (name : String) (os : List Operand) :
    (line name os).map unbound = line name (Operand.unboundItems os) := by
  induction os with
  | nil => rfl
  | cons o rest ih => exact congrArg (operand o.unbound :: ·) ih

end ContentItem

namespace Builder

structure Telling (b : Builder) (ends : List String) (said : List (List ContentItem)) : Prop where
  builds : ∃ inner levels, Builds b inner levels ∧ levels.map (fun l => l.start.endName) = ends ∧
    (entries (plug inner levels)).map (fun e => e.2.told) = said
  clear : b.pending = []
  closers : ∀ stop ∈ ends, Signature.isCloser stop = true

namespace Telling
variable {b c : Builder} {ends : List String} {said : List (List ContentItem)} {name : String}
  {os : List Operand}

theorem opener (h : Telling b ends said) : b.opener?.map Known.endName = ends.head? := by
  obtain ⟨inner, levels, builds, rfl, -⟩ := h.builds
  rw [builds.opener, List.head?_map, Option.map_map]
  rfl

theorem append (h : Telling b ends said) {op : Instruction} {told : List ContentItem}
    (tells : op.told = told) : Telling (b.append op) ends (said ++ [told]) := by
  obtain ⟨inner, levels, builds, waits, same⟩ := h.builds
  refine ⟨⟨_, levels, builds.append op, waits, ?_⟩, h.clear, h.closers⟩
  rw [entriesAdded, List.map_append, same, ← tells]
  rfl

theorem enter (h : Telling b ends said) {start : Known} {told : List ContentItem} {stop : String}
    (opens : Signature.closer? start.name = some stop)
    (tells : (Instruction.block start none).told = told) :
    Telling { b.append (.block start none) with openBlocks := b.tree.size :: b.openBlocks }
      (stop :: ends) (said ++ [told]) := by
  obtain ⟨inner, levels, builds, waits, same⟩ := h.builds
  have name : start.endName = stop := by rw [Known.endName, opens, Option.getD_some]
  refine ⟨⟨_, _, builds.enter start, ?_, ?_⟩, h.clear, ?_⟩
  · rw [List.map_cons, waits, name]
  · rw [plug, entriesAdded, List.map_append, same, ← tells]
    rfl
  · intro e member
    obtain rfl | around := List.mem_cons.mp member
    · rw [← name]
      exact (closerFits h.clear (by rw [opens]; rfl)).2.2
    · exact h.closers e around

theorem leave (h : Telling b ends said) {id : Nat} {outer : List Nat} (stop : Known)
    (opened : b.openBlocks = id :: outer) :
    Telling { b with tree := b.tree.modify id (closed stop), openBlocks := outer } ends.tail
      said := by
  obtain ⟨inner, levels, builds, rfl, rfl⟩ := h.builds
  cases levels with
  | nil => simp [builds.opened] at opened
  | cons l around =>
    rw [builds.opened] at opened
    obtain ⟨rfl, rfl⟩ := List.cons.inj opened
    refine ⟨⟨_, _, builds.leave stop, rfl, ?_⟩, h.clear,
      fun e member => h.closers e (List.mem_cons_of_mem _ member)⟩
    simp [entriesPlug, outside, entries, entriesOf, Instruction.told, Instruction.lead]

end Telling

theorem unknownName {name : String} (absent : Signature.find? name = none) :
    Signature.closer? name = none ∧ Signature.isCloser name = false := by
  have other : ∀ known, (Signature.find? known).isSome = true → name ≠ known := by
    rintro _ found rfl
    rw [absent] at found
    cases found
  simp [Signature.closer?, Signature.isCloser, other "BT" (by decide), other "BMC" (by decide),
    other "BDC" (by decide), other "ET" (by decide), other "EMC" (by decide)]

theorem openerName {name : String} (opens : (Signature.closer? name).isSome = true) :
    Signature.isCloser name = false := by
  unfold Signature.closer? at opens
  split at opens
  · rename_i text
    rw [text]
    rfl
  · split at opens
    · rename_i marked
      obtain same | same : name = "BMC" ∨ name = "BDC" := by simpa using marked
      · rw [same]
        rfl
      · rw [same]
        rfl
    · cases opens

theorem readyTells (b : Builder) {os : List Operand} (exact : Operand.ReallessItems os)
    (name : String) : (ContentItem.line name
      (Operand.bindItems b.binding (b.ready os).pending.reverse)).map ContentItem.unbound =
      (ContentItem.line name os).map ContentItem.unbound := by
  rw [ContentItem.lineUnbound, ContentItem.lineUnbound]
  simp [ready, Operand.rereadItemsExact os exact]

namespace Telling
variable {b c : Builder} {ends : List String} {said : List (List ContentItem)} {name : String}
  {os : List Operand}

theorem apart (h : Telling b ends said)
    (other : ∀ start, b.opener? = some start → start.endName ≠ name) : ends.head? ≠ some name := by
  intro same
  rw [← h.opener] at same
  obtain ⟨start, innermost, ended⟩ := Option.map_eq_some_iff.mp same
  exact other start innermost ended

theorem goesOn (h : Telling b ends said) (plain : Signature.isCloser name = false) :
    ends.head? ≠ some name := by
  intro same
  have closes := h.closers name (List.mem_of_mem_head? same)
  rw [plain] at closes
  cases closes

theorem adds (h : Telling b ends said) {op : Instruction} (opens : Signature.closer? name = none)
    (apart : ends.head? ≠ some name) {told : List ContentItem} (tells : op.told = told) :
    Telling (b.append op) (Instruction.awaited name ends)
      (if ends.head? = some name then said else said ++ [told]) := by
  rw [Instruction.awaited, opens, if_neg apart]
  simp only [if_neg apart]
  exact h.append tells

theorem line (h : Telling b ends said) (exact : Operand.ReallessItems os)
    (whole : name = "R" → Assembly.reference? os.reverse = none)
    (run : b.addEach (os.flatMap ContentItem.spelled ++ [.operator name]) = (c, none)) :
    Telling c (Instruction.awaited name ends) (if ends.head? = some name then said
      else said ++ [(ContentItem.line name os).map ContentItem.unbound]) := by
  rw [addEachAppend (addReady h.clear os)] at run
  obtain ⟨c', step, last⟩ := addEachCons run
  cases last
  have ready := readyCleared h.clear os
  have tells := readyTells b exact
  cases step with
  | fold two =>
    have folds := readyFolds b os
    rw [two, whole rfl] at folds
    cases folds
  | unknown _ absent =>
    obtain ⟨opens, closes⟩ := unknownName absent
    rw [ready]
    exact h.adds opens (h.goesOn closes) (tells name)
  | plain fits opens closes =>
    obtain rfl := findName fits.1
    rw [ready]
    exact h.adds opens (h.goesOn closes) (tells _)
  | stray fits opens closes lenient other =>
    obtain rfl := findName fits.1
    rw [ready]
    exact h.adds opens (h.apart other) (tells _)
  | @enter _ s fits opens room =>
    obtain rfl := findName fits.1
    obtain ⟨stop, closer⟩ := Option.isSome_iff_exists.mp opens
    rw [ready, Instruction.awaited, closer]
    simp only [if_neg (h.goesOn (openerName opens))]
    have begins : Signature.closer? ((b.ready os).knownOf s).name = some stop := closer
    exact h.enter begins (tells _)
  | @leave _ s id outer start fits opens closes opened innermost same =>
    obtain rfl := findName fits.1
    have awaits := h.opener
    rw [show b.opener? = some start from innermost, Option.map_some, same] at awaits
    rw [Instruction.awaited, opens]
    simp only [← awaits, if_pos]
    have left := h.leave ((b.ready os).knownOf s) opened
    rw [← ready] at left
    exact left

end Telling
end Builder
end PageContent
