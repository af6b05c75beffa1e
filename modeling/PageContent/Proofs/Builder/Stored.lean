import PageContent.Page.Edit
import PageContent.Proofs.Builder.Alone
import PageContent.Proofs.OperatorTree.RoundTrip

/-! What is read of the text of some operators, written one by one behind the mark of an edit. -/
namespace PageContent
open Outline

namespace ContentItem

theorem lineImage {name : String} {os : List Operand} {es : Dict Operand} {raw : Bytes} :
    line name os ≠ [.image es raw] := by
  intro same
  have last := congrArg List.getLast? same
  simp [line] at last

end ContentItem

namespace Instruction
variable {b : Binding} {params : Params} {around : List Known} {op other : Instruction}

theorem Accepted.legible (h : op.Accepted b params around) : op.Legible := by
  have notR {k : Known} (known : k.Accepted b) : k.name ≠ "R" := by
    intro same
    have found := known.found
    rw [same, Builder.findR] at found
    cases found
  cases op with
  | simple k => exact ⟨h.1.spoken, fun same => absurd same (notR h.1)⟩
  | block start stop => exact ⟨h.1.spoken, fun same => absurd same (notR h.1)⟩
  | image es raw => exact h.1
  | unknown name os =>
    obtain ⟨absent, spoken, whole, -⟩ := h
    refine ⟨⟨spoken, ?_⟩, whole⟩
    rintro rfl
    exact absurd absent (by decide)

theorem toldLine (leaf : ∀ es raw, op ≠ image es raw) :
    op.told = ContentItem.line op.name (Operand.unboundItems op.operands) := by
  cases op with
  | image es raw => exact absurd rfl (leaf es raw)
  | _ => exact ContentItem.lineUnbound _ _

theorem boundSame (b : Binding) {es es' : Dict Operand}
    (same : Operand.unboundEntries es = Operand.unboundEntries es') :
    Operand.bindEntries b es = Operand.bindEntries b es' := by
  rw [← Operand.bindUnboundEntries b es, same, Operand.bindUnboundEntries]

theorem foldsSame {os os' : List Operand} (b : Binding)
    (same : Operand.unboundItems os = Operand.unboundItems os') :
    (Assembly.reference? os.reverse).isSome = (Assembly.reference? os'.reverse).isSome := by
  have bound : Operand.bindItems b os.reverse = Operand.bindItems b os'.reverse := by
    have whole := congrArg (List.reverse ∘ Operand.bindItems b) same
    simp only [Function.comp_apply, Operand.bindUnboundItems] at whole
    simpa [Operand.bindItems_eq_map] using whole
  rw [← Operand.referenceBind b, bound, Operand.referenceBind]

theorem legibleLine (leaf : ∀ es raw, op ≠ image es raw) :
    op.Legible ↔ (ContentItem.operator op.name).Readable ∧
      (op.name = "R" → Assembly.reference? op.operands.reverse = none) := by
  cases op with
  | image es raw => exact absurd rfl (leaf es raw)
  | _ => exact Iff.rfl

theorem Legible.alikeImage {es es' : Dict Operand} {raw raw' : Bytes} (b : Binding)
    (h : (image es' raw').Legible) (exact : (image es raw).Exact)
    (same : (image es' raw').told = (image es raw).told) : (image es raw).Legible := by
  obtain ⟨-, values, clear, whole⟩ := h
  obtain ⟨entries, rfl⟩ : Operand.unboundEntries es' = Operand.unboundEntries es ∧ raw' = raw := by
    simpa [told, lead, ContentItem.unbound] using same
  have bound := boundSame b entries
  have filters := congrArg Assembly.isSelfEnding bound
  rw [Operand.selfEndingBind, Operand.selfEndingBind] at filters
  rw [filters] at clear whole
  refine ⟨exact.image.1, fun k o member => ⟨(exact.1 o ?_).1, ?_⟩, clear, whole⟩
  · exact List.mem_map.mpr ⟨(k, o), member, rfl⟩
  · have there : (k, o.bind b) ∈ Operand.bindEntries b es := by
      rw [Operand.bindEntriesMap]
      exact List.mem_map.mpr ⟨(k, o), member, rfl⟩
    rw [← bound, Operand.bindEntriesMap] at there
    obtain ⟨⟨k', o'⟩, member', equal⟩ := List.mem_map.mp there
    obtain ⟨rfl, alike⟩ := Prod.mk.inj equal
    have kind := congrArg Operand.kind alike
    rw [Operand.kind_bind, Operand.kind_bind] at kind
    exact kind ▸ (values k' o' member').2

theorem Legible.alike (b : Binding) (h : other.Legible) (exact : op.Exact)
    (same : other.told = op.told) : op.Legible := by
  by_cases image' : ∃ es raw, op = image es raw
  · obtain ⟨es, raw, rfl⟩ := image'
    cases other with
    | image es' raw' => exact h.alikeImage b exact same
    | _ => exact absurd ((toldLine (by simp)).symm.trans same) ContentItem.lineImage
  · have leaf : ∀ es raw, op ≠ image es raw := fun es raw here => image' ⟨es, raw, here⟩
    have leaf' : ∀ es raw, other ≠ image es raw := by
      rintro es raw rfl
      exact ContentItem.lineImage ((toldLine leaf).symm.trans same.symm)
    rw [toldLine leaf, toldLine leaf'] at same
    obtain ⟨name, operands⟩ := ContentItem.lineInjective same
    obtain ⟨readable, whole⟩ := (legibleLine leaf').mp h
    rw [name] at readable whole
    refine (legibleLine leaf).mpr ⟨readable, fun isR => ?_⟩
    have folds := foldsSame b operands
    rw [whole isR, Option.isSome_none] at folds
    exact Option.isNone_iff_eq_none.mp (Option.isSome_eq_false_iff.mp folds.symm)

end Instruction

namespace Builder

theorem addEachSplit {b c : Builder} {items more : List ContentItem}
    (run : b.addEach (items ++ more) = (c, none)) : ∃ b₁, b.addEach items = (b₁, none) ∧
      b₁.addEach more = (c, none) := by
  induction items generalizing b with
  | nil => exact ⟨b, rfl, run⟩
  | cons item rest ih =>
    obtain ⟨b₁, first, later⟩ := addEachCons run
    obtain ⟨b₂, inside, last⟩ := ih later
    exact ⟨b₂, (addEachStep first rest).trans inside, last⟩

theorem addEachItems {b c : Builder} {placed : List (Nat × ContentItem)}
    (run : b.addItems (placed.map .ok) = (c, none)) :
    b.addEach (placed.map Prod.snd) = (c, none) := by
  induction placed generalizing b with
  | nil => exact run
  | cons entry rest ih =>
    obtain ⟨pos, item, b₁, read, first, later⟩ := addItemsCons.mp run
    cases read
    exact (addEachStep first _).trans (ih later)

namespace Telling
variable {b c : Builder} {ends : List String} {said : List (List ContentItem)}

theorem ended {stop : String} (h : Telling b (stop :: ends) said)
    (closes : Signature.closer? stop = none) (run : b.addEach [.operator stop] = (c, none)) :
    Telling c ends said := by
  have last := @line b c (stop :: ends) said stop [] h trivial (fun _ => rfl) run
  simpa [Instruction.awaited, closes] using last

theorem alone (h : Telling b ends said) {op : Instruction} (exact : op.Exact) (legible : op.Legible)
    (run : b.addEach op.spelledAlone = (c, none)) : Telling c (op.leaves ends)
      (if ends.head? = some op.name then said else said ++ [op.resealed.told]) := by
  have realless := exact.line.2
  cases op with
  | image es raw =>
    obtain ⟨b₁, step, last⟩ := addEachCons run
    cases last
    cases step
    have name : (Instruction.image es raw).name = "BI" := rfl
    rw [name, if_neg (h.goesOn rfl)]
    refine h.append ?_
    simp [Instruction.told, Instruction.bind, Instruction.lead, ContentItem.unbound,
      Instruction.resealed, Operand.rereadEntriesExact es exact.image.2]
  | simple k => exact h.line realless legible.2 run
  | unknown name os => exact h.line realless legible.2 run
  | block start stop =>
    rw [Instruction.spelledAlone] at run
    rw [Instruction.leaves]
    split at run
    · rename_i opens
      obtain ⟨stop, closer⟩ := Option.isSome_iff_exists.mp opens
      have same : start.endName = stop := by rw [Known.endName, closer, Option.getD_some]
      have closes := (closerFits h.clear opens).2.1
      have other := h.goesOn (openerName opens)
      obtain ⟨b₁, begun, last⟩ := addEachSplit run
      have inside := h.line realless legible.2 begun
      simp only [Instruction.name, Instruction.awaited, closer, other, if_false] at inside
      rw [same] at closes
      rw [Instruction.spelledClose, same] at last
      rw [if_pos opens, Instruction.name, if_neg other]
      exact inside.ended closes last
    · rename_i opens
      rw [List.append_nil] at run
      rw [if_neg opens]
      exact h.line realless legible.2 run

theorem all (h : Telling b ends said) {ops : List Instruction} (exact : ∀ op ∈ ops, op.Exact)
    (legible : ∀ op ∈ ops, op.Legible)
    (run : b.addEach (ops.flatMap Instruction.spelledAlone) = (c, none)) : ∃ ends',
    Telling c ends' (said ++ (Instruction.kept ends ops).map fun op => op.resealed.told) := by
  induction ops generalizing b ends said with
  | nil =>
    cases run
    exact ⟨ends, by simpa [Instruction.kept] using h⟩
  | cons op rest ih =>
    obtain ⟨b₁, first, later⟩ := addEachSplit run
    have step := h.alone (exact op List.mem_cons_self) (legible op List.mem_cons_self) first
    obtain ⟨ends', whole⟩ := ih step (fun o member => exact o (List.mem_cons_of_mem _ member))
      (fun o member => legible o (List.mem_cons_of_mem _ member)) later
    refine ⟨ends', ?_⟩
    rw [Instruction.kept]
    split at whole
    · rename_i ended
      rw [if_pos ended]
      exact whole
    · rename_i goes
      rw [if_neg goes]
      simpa using whole

end Telling

theorem tellingNew (binding : Binding) (params : Params) : Telling (new binding params) [] [] :=
  ⟨⟨[], [], buildsNew binding params, rfl, rfl⟩, rfl, by simp⟩

end Builder

namespace OperatorTree
variable {ops : List Instruction} {binding : Binding} {params : Params} {t : OperatorTree}

def linesOf (ops : List Instruction) : Bytes :=
  ops.flatMap fun op => op.written ++ [Octet.lineFeed]

theorem yieldsLines (exact : ∀ op ∈ ops, op.Exact) (legible : ∀ op ∈ ops, op.Legible) :
    ContentItem.Yields (linesOf ops) (ops.flatMap Instruction.spelledAlone) := by
  induction ops with
  | nil => exact .nil
  | cons op rest ih =>
    have later := ih (fun o member => exact o (List.mem_cons_of_mem _ member))
      (fun o member => legible o (List.mem_cons_of_mem _ member))
    have read := Instruction.yieldsAlone (exact op List.mem_cons_self)
      (legible op List.mem_cons_self) later
    simpa [linesOf] using read

theorem linesTold (exact : ∀ op ∈ ops, op.Exact) (legible : ∀ op ∈ ops, op.Legible)
    (parsed : parse (linesOf ops) binding params = .ok t) :
    t.told = (Instruction.kept [] ops).map fun op => op.resealed.told := by
  obtain ⟨b, run, finished⟩ := parseExact.mp parsed
  obtain ⟨placed, read, items⟩ := yieldsLines exact legible (linesOf ops)
  have added : (Builder.new binding params).addItems (placed.map .ok) = (b, none) := by
    rw [← run]
    exact congrArg _ read.symm
  have each := Builder.addEachItems added
  rw [items] at each
  obtain ⟨ends, telling⟩ := (Builder.tellingNew binding params).all exact legible each
  obtain ⟨inner, levels, builds, -, said⟩ := telling.builds
  obtain ⟨rfl, -⟩ := Builder.finishedTree finished
  rw [told, builds.spells.outline, said, List.nil_append]

theorem linesLegible (exact : ∀ op ∈ ops, op.Exact)
    (parsed : parse (linesOf ops) binding params = .ok t) (same : t.told = ops.map Instruction.told) :
    ∀ op ∈ ops, op.Legible := by
  obtain ⟨-, -, accepted⟩ := parseAccepted parsed
  intro op member
  have there : op.told ∈ t.told := by
    rw [same]
    exact List.mem_map_of_mem member
  obtain ⟨e, stands, tells⟩ := List.mem_map.mp there
  obtain ⟨around, here⟩ := acceptedEntries accepted stands
  exact here.legible.alike binding (exact op member) tells

theorem resealedTold {op : Instruction} (same : op.resealed.told = op.told) : op.resealed = op := by
  cases op with
  | image es raw =>
    have raws : (if Assembly.isSelfEnding es then Lexeme.resealed raw else raw) = raw := by
      simpa [Instruction.told, Instruction.resealed, Instruction.lead, ContentItem.unbound] using same
    rw [Instruction.resealed, raws]
  | _ => rfl

theorem linesExact (exact : ∀ op ∈ ops, op.Exact)
    (parsed : parse (linesOf ops) binding params = .ok t) : t.told = ops.map Instruction.told ↔
      (∀ op ∈ ops, op.Legible ∧ op.resealed = op) ∧ Instruction.kept [] ops = ops := by
  constructor
  · intro same
    have legible := linesLegible exact parsed same
    have stored := (linesTold exact legible parsed).symm.trans same
    have whole : Instruction.kept [] ops = ops := by
      refine (Instruction.keptSublist [] ops).eq_of_length ?_
      simpa using congrArg List.length stored
    rw [whole] at stored
    exact ⟨fun op member => ⟨legible op member,
      resealedTold (List.map_inj_left.mp stored op member)⟩, whole⟩
  · rintro ⟨faithful, whole⟩
    rw [linesTold exact (fun op member => (faithful op member).1) parsed, whole]
    exact List.map_congr_left fun op member => congrArg Instruction.told (faithful op member).2

end OperatorTree

def Instruction.mark (tag : String) : Instruction := .simple ⟨.fixed "MP" [.name], [.ofName tag]⟩

namespace Params
variable {params : Params}

def marks (params : Params) : List Instruction := params.editTag.toList.map .mark

theorem composedPieces (pieces : List Bytes) : Action.composed params pieces =
    (params.marks.map Instruction.written ++ pieces).flatMap fun piece => piece ++ [Octet.lineFeed] := by
  have line (tag : String) : (Instruction.mark tag).written =
      Scalar.nameText tag ++ Octet.space :: Utf8.encode "MP" := by
    simp [Instruction.mark, Instruction.written, Instruction.opening, Known.written, Known.name,
      instructionLine, Operand.ofName, Operand.written, Scalar.written, Signature.fixed]
  have text : Octet.space :: Utf8.encode "MP" ++ [Octet.lineFeed] = ascii [' ', 'M', 'P', '\n'] := by
    decide
  cases tag : params.editTag with
  | none => simp [Action.composed, marks, tag]
  | some name => simp [Action.composed, marks, tag, line, ← text]

theorem composedLines (ops : List Instruction) :
    Action.composed params (ops.map Instruction.written) =
      OperatorTree.linesOf (params.marks ++ ops) := by
  rw [composedPieces, ← List.map_append, List.flatMap_map, OperatorTree.linesOf]

theorem marksFaithful : ∀ op ∈ params.marks, op.Exact ∧ op.Legible ∧ op.resealed = op := by
  intro op member
  obtain ⟨tag, -, rfl⟩ := List.mem_map.mp member
  have spoken : Lexeme.Spoken "MP" := ⟨0x4d, [0x50], rfl, Lexer.plainWord rfl, rfl⟩
  have apart : "MP" ≠ "BI" ∧ "MP" ≠ "R" := by decide
  refine ⟨⟨?_, by simp [Instruction.mark]⟩, ⟨⟨spoken, apart.1⟩, fun isR => absurd isR apart.2⟩, rfl⟩
  simp [Instruction.mark, Instruction.allOperands, Operand.ofName, Operand.Readable,
    Operand.Realless, Scalar.Readable, Scalar.kind]

theorem keptMarks (ops : List Instruction) :
    Instruction.kept [] (params.marks ++ ops) = params.marks ++ Instruction.kept [] ops := by
  have leaves (tag : String) : (Instruction.mark tag).leaves [] = [] := by
    have plain : Signature.closer? "MP" = none := by decide
    change Instruction.awaited "MP" [] = []
    simp [Instruction.awaited, plain]
  cases tag : params.editTag with
  | none => simp [marks, tag]
  | some name => simp [marks, tag, Instruction.kept, leaves]

end Params

theorem OperatorTree.composedExact {ops : List Instruction} {binding : Binding} {params : Params}
    {t : OperatorTree} (exact : ∀ op ∈ ops, op.Exact)
    (parsed : parse (Action.composed params (ops.map Instruction.written)) binding params = .ok t) :
    t.told = (params.marks ++ ops).map Instruction.told ↔
      (∀ op ∈ ops, op.Legible ∧ op.resealed = op) ∧ Instruction.kept [] ops = ops := by
  rw [Params.composedLines] at parsed
  have exact' : ∀ op ∈ params.marks ++ ops, op.Exact := by
    intro op member
    obtain mark | given := List.mem_append.mp member
    · exact (Params.marksFaithful op mark).1
    · exact exact op given
  rw [linesExact exact' parsed, Params.keptMarks, List.append_cancel_left_eq]
  refine and_congr_left fun _ => ⟨fun all op given => all op (List.mem_append_right _ given), ?_⟩
  intro faithful op member
  obtain mark | given := List.mem_append.mp member
  · exact (Params.marksFaithful op mark).2
  · exact faithful op given

end PageContent
