import PageContent.Proofs.Builder.Rebuilt

/-! The canonical text of a tree that was read is read as the same tree. -/
namespace PageContent
open Outline

namespace Known

def blur (k : Known) : Known := { k with operands := Operand.blurItems k.operands }

end Known

namespace Instruction

def blur : Instruction → Instruction
  | simple k => simple k.blur
  | unknown name os => unknown name (Operand.blurItems os)
  | block start stop => block start.blur (stop.map Known.blur)
  | image es raw => image (Operand.blurEntries es) raw

def finished : Instruction → Instruction
  | block start none => block start (some start.stop)
  | op => op

theorem blurAgain {b : Binding} {params : Params} {around : List Known} {op : Instruction}
    (h : op.Accepted b params around) : (op.again b).blur = op.finished.blur := by
  cases op with
  | simple k =>
    simp only [again, finished, blur, Known.blur, Operand.blurRereadItems, h.1.settled.bound]
  | unknown name os =>
    simp only [again, finished, blur, Operand.blurRereadItems, h.2.2.2.bound]
  | image es raw =>
    simp only [again, finished, blur, Operand.blurRereadEntries, h.2]
  | block start stop =>
    obtain ⟨known, -, -, ends⟩ := h
    cases stop with
    | none => simp only [again, finished, blur, Known.blur, Operand.blurRereadItems, known.settled.bound]
    | some stop =>
      rw [ends stop rfl]
      simp only [again, finished, blur, Known.blur, Operand.blurRereadItems, known.settled.bound]

end Instruction

theorem Outline.acceptedEntries {b : Binding} {params : Params} {around : List Known}
    {os : List Outline} (h : Accepted b params around os) {e : Nat × Instruction}
    (member : e ∈ entries os) : ∃ around', e.2.Accepted b params around' := by
  induction os using forest generalizing around with
  | nil => simp [entries] at member
  | cons i op children rest below later =>
    obtain ⟨⟨here, contents⟩, others⟩ := h
    simp only [entries, entriesOf, List.mem_append, List.mem_cons] at member
    obtain (rfl | inside) | after := member
    · exact ⟨around, here⟩
    · cases op with
      | block start stop => exact below contents inside
      | _ =>
        obtain rfl : children = [] := contents
        simp [entries] at inside
    · exact later others after

theorem Outline.mapCongr {f f' : Instruction → Instruction} {os : List Outline}
    (h : ∀ e ∈ entries os, f e.2 = f' e.2) : map id f os = map id f' os := by
  induction os using forest with
  | nil => rfl
  | cons i op children rest below later =>
    simp only [entries, entriesOf, List.mem_append, List.mem_cons] at h
    simp only [map, mapIn, h (i, op) (.inl (.inl rfl)),
      below fun e member => h e (.inl (.inr member)), later fun e member => h e (.inr member)]

namespace Builder

theorem addItemsEach {b c : Builder} {placed : List (Nat × ContentItem)}
    (run : b.addEach (placed.map Prod.snd) = (c, none)) : b.addItems (placed.map .ok) = (c, none) := by
  induction placed generalizing b with
  | nil => exact run
  | cons entry rest ih =>
    obtain ⟨pos, item⟩ := entry
    obtain ⟨b₁, first, later⟩ := addEachCons run
    exact addItemsCons.mpr ⟨pos, item, b₁, rfl, first, ih later⟩

end Builder

namespace OperatorTree

theorem writtenLines (os : List Outline) : writtenBelow os ++ [Octet.lineFeed] =
    Octet.lineFeed :: os.flatMap fun o => o.written ++ [Octet.lineFeed] := by
  induction os with
  | nil => rfl
  | cons o rest ih =>
    have step : writtenBelow (o :: rest) ++ [Octet.lineFeed] =
        Octet.lineFeed :: (o.written ++ (writtenBelow rest ++ [Octet.lineFeed])) := by
      simp [writtenBelow]
    rw [step, ih]
    simp

theorem yieldsWritten {t : OperatorTree} {b : Binding} {params : Params}
    (accepted : Accepted b params [] t.outline) (plain : Plain t.outline) :
    ContentItem.Yields t.written (spelled t.outline) := by
  have last : ContentItem.Yields [Octet.lineFeed] [] := .blank rfl .nil
  have below := yieldsBelow accepted plain (.cons rfl) last
  rw [writtenLines, List.append_nil] at below
  exact below.unblank rfl

/-- The canonical text of a tree is read as that tree: the same operators with the same links,
names, operands and data. Only a real may come back as another real, and a block that was left
open has its end. -/
theorem writtenRead {data : Bytes} {binding : Binding} {params : Params} {t : OperatorTree}
    (parsed : parse data binding params = .ok t)
    (plain : ∀ i es raw, t.op? i = some (.image es raw) → Assembly.isSelfEnding es = false) :
    ∃ t', parse t.written binding params = .ok t' ∧
      t'.revised Instruction.blur = t.revised (Instruction.blur ∘ Instruction.finished) := by
  obtain ⟨spells, order, accepted⟩ := parseAccepted parsed
  have plain' : Plain t.outline := fun i es raw member => plain i es raw (spells.op member)
  obtain ⟨placed, read, items⟩ := yieldsWritten accepted plain' t.written
  have start : Builder.Rebuilding (Builder.new binding params) binding params [] [] [] :=
    ⟨Builder.buildsNew binding params, rfl, rfl, rfl, rfl⟩
  obtain ⟨b, run, -, built⟩ := Builder.rebuilt start accepted (by
    rw [order, List.length_range]
    exact List.range_eq_range')
  rw [← items] at run
  have added : (Builder.new binding params).addItems (ContentItem.ofData t.written) = (b, none) := by
    rw [← Builder.addItemsEach run]
    exact congrArg _ read
  have opened : b.openBlocks = [] := built.builds.opened
  have finished : b.toTree = .ok b.tree := by
    simp [Builder.toTree, built.clear, opened]
  refine ⟨b.tree, parseExact.mpr ⟨b, added, finished⟩, ?_⟩
  refine built.builds.spells.same spells ?_
  rw [plug, List.nil_append, mapMap]
  refine mapCongr fun e member => ?_
  obtain ⟨around, here⟩ := acceptedEntries accepted member
  exact Instruction.blurAgain here

def leftOpen : Bytes :=
  ascii ['B', 'T', ' ', 'R', ' ', 'E', 'M', 'C', ' ', 'B', 'I', ' ', '/', 'W', ' ', '.', '5', ' ',
    'I', 'D', ' ', 'x', ' ', 'E', 'I']

def isPlain : Instruction → Bool
  | .image es _ => !Assembly.isSelfEnding es
  | _ => true

theorem writtenReadOfOpen : ∃ t t', parse leftOpen ⟨1, ⟨5, 0⟩⟩ .default = .ok t ∧ t.size = 4 ∧
    parse t.written ⟨1, ⟨5, 0⟩⟩ .default = .ok t' ∧
    t'.revised Instruction.blur = t.revised (Instruction.blur ∘ Instruction.finished) := by
  have evaluated : (parse leftOpen ⟨1, ⟨5, 0⟩⟩ .default).toOption.any
      (fun t => t.size = 4 && t.nodes.all (isPlain ∘ OperatorNode.op)) = true := by decide +kernel
  cases parsed : parse leftOpen ⟨1, ⟨5, 0⟩⟩ .default with
  | error fault => simp [parsed, Except.toOption] at evaluated
  | ok t =>
    simp only [parsed, Except.toOption, Option.any_some, Bool.and_eq_true, decide_eq_true_eq,
      Array.all_eq_true_iff_forall_mem] at evaluated
    obtain ⟨size, each⟩ := evaluated
    obtain ⟨t', read, same⟩ := writtenRead parsed fun i es raw found => by
      obtain ⟨n, there, op⟩ := Option.map_eq_some_iff.mp found
      have checked := each n (Array.mem_of_getElem? there)
      simpa [isPlain, op] using checked
    exact ⟨t, t', rfl, size, read, same⟩

end OperatorTree

end PageContent
