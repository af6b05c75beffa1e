import PageContent.Proofs.Builder.Accepted

/-! The text of an accepted outline yields items that build the outline again, with every
block closed. -/
namespace PageContent
open Outline

namespace Instruction

def again (b : Binding) : Instruction → Instruction
  | simple k => simple { k with operands := Operand.bindItems b (Operand.rereadItems k.operands) }
  | unknown name os => unknown name (Operand.bindItems b (Operand.rereadItems os))
  | block start _ => block
      { start with operands := Operand.bindItems b (Operand.rereadItems start.operands) }
      (some start.stop)
  | image es raw => image (Operand.bindEntries b (Operand.rereadEntries es)) raw

def spelledLead : Instruction → List ContentItem
  | image es raw => [.image (Operand.rereadEntries es) raw]
  | op => op.operands.flatMap ContentItem.spelled ++ [.operator op.name]

def spelledClose : Instruction → List ContentItem
  | block start _ => [.operator start.endName]
  | _ => []

end Instruction

namespace Outline

mutual

def spelledOf : Outline → List ContentItem
  | node _ op children => op.spelledLead ++ spelled children ++ op.spelledClose

def spelled : List Outline → List ContentItem
  | [] => []
  | o :: rest => spelledOf o ++ spelled rest

end

def Plain (os : List Outline) : Prop :=
  ∀ id es raw, (id, .image es raw) ∈ entries os → Assembly.isSelfEnding es = false

variable {b : Binding} {params : Params}

theorem endNames {start : Known} (opens : (Signature.closer? start.name).isSome = true) :
    start.endName = "ET" ∨ start.endName = "EMC" := by
  unfold Known.endName
  unfold Signature.closer? at opens ⊢
  split at opens
  · rename_i text
    exact .inl (by simp [text])
  · split at opens
    · rename_i other marked
      exact .inr (by rw [if_neg other, if_pos marked]; rfl)
    · simp at opens

theorem spokenEnd {start : Known} (opens : (Signature.closer? start.name).isSome = true) :
    Lexeme.Spoken start.endName ∧ start.endName ≠ "BI" := by
  obtain same | same := endNames opens
  · rw [same]
    exact ⟨⟨0x45, [0x54], rfl, Lexer.plainWord rfl, rfl⟩, by decide⟩
  · rw [same]
    exact ⟨⟨0x45, [0x4d, 0x43], rfl, Lexer.plainWord rfl, rfl⟩, by decide⟩

theorem yieldsBelow {os : List Outline} {around : List Known} (accepted : Accepted b params around os)
    (plain : Plain os) {tail : Bytes} {items : List ContentItem} (ended : Ended tail)
    (h : ContentItem.Yields tail items) :
    ContentItem.Yields (writtenBelow os ++ tail) (spelled os ++ items) := by
  induction os using forest generalizing around tail items with
  | nil => exact h
  | cons id op children rest below later =>
    obtain ⟨⟨here, contents⟩, others⟩ := accepted
    have plainBelow : Plain children := fun id es raw member =>
      plain id es raw (by simp [entries, entriesOf, member])
    have plainLater : Plain rest := fun id es raw member =>
      plain id es raw (by simp [entries, entriesOf, member])
    have more := later others plainLater ended h
    have ended' : Ended (writtenBelow rest ++ tail) := by
      cases rest with
      | nil => exact ended
      | cons o rest => exact Assembly.endedBlank rfl _
    have text : writtenBelow (.node id op children :: rest) ++ tail =
        Octet.lineFeed :: ((Outline.node id op children).written ++ (writtenBelow rest ++ tail)) := by
      simp [writtenBelow]
    have yielded : spelled (.node id op children :: rest) ++ items =
        op.spelledLead ++ (spelled children ++ (op.spelledClose ++ (spelled rest ++ items))) := by
      simp [spelled, spelledOf]
    rw [text, yielded]
    refine .blank rfl ?_
    cases op with
    | simple k =>
      obtain rfl : children = [] := contents
      have line := more.line here.1.settled.readable here.1.spoken.1 here.1.spoken.2 ended'
      simpa [Instruction.spelledLead, Instruction.spelledClose, spelled, Instruction.operands,
        Instruction.name, Outline.written, Instruction.opening, Known.written] using line
    | unknown name os =>
      obtain rfl : children = [] := contents
      obtain ⟨absent, spoken, -, settled⟩ := here
      have other : name ≠ "BI" := by
        rintro rfl
        exact absurd absent (by decide)
      have line := more.line settled.readable spoken other ended'
      simpa [Instruction.spelledLead, Instruction.spelledClose, spelled, Instruction.operands,
        Instruction.name, Outline.written, Instruction.opening] using line
    | block start stop =>
      obtain ⟨start', opens, -, -⟩ := here
      obtain ⟨spoken, other⟩ := spokenEnd opens
      have closed := (more.operator spoken other ended').blank (b := Octet.lineFeed) rfl
      have inner := below contents plainBelow (Assembly.endedBlank rfl _) closed
      have ended'' : Ended (writtenBelow children ++
          Octet.lineFeed :: (Utf8.encode start.endName ++ (writtenBelow rest ++ tail))) := by
        cases children with
        | nil => exact Assembly.endedBlank rfl _
        | cons o more => exact Assembly.endedBlank rfl _
      have line := inner.line start'.settled.readable start'.spoken.1 start'.spoken.2 ended''
      simpa [Instruction.spelledLead, Instruction.spelledClose, Instruction.operands,
        Instruction.name, Outline.written, Known.written] using line
    | image es raw =>
      obtain rfl : children = [] := contents
      obtain ⟨⟨distinct, values, clear, -⟩, -⟩ := here
      have plain' : Assembly.isSelfEnding es = false :=
        plain id es raw (by simp [entries, entriesOf])
      have line := more.image distinct values plain' (clear plain') ended'
      simpa [Instruction.spelledLead, Instruction.spelledClose, spelled,
        Outline.written, Instruction.opening] using line

end Outline

namespace Builder

theorem addEachStep {b c : Builder} {item : ContentItem} (step : Took b item c)
    (rest : List ContentItem) : b.addEach (item :: rest) = c.addEach rest := by
  simp [addEach, added step]

theorem addEachAppend {b c : Builder} {items : List ContentItem} (run : b.addEach items = (c, none))
    (more : List ContentItem) : b.addEach (items ++ more) = c.addEach more := by
  induction items generalizing b with
  | nil => cases run; rfl
  | cons item rest ih =>
    obtain ⟨b₁, first, later⟩ := addEachCons run
    rw [List.cons_append, addEachStep first, ih later]

theorem addSpelled (b : Builder) (os : List Operand) : b.addEach (os.flatMap ContentItem.spelled) =
    ({ b with pending := (Operand.rereadItems os).reverse ++ b.pending }, none) := by
  induction os generalizing b with
  | nil => rfl
  | cons o rest ih =>
    have first : b.addEach (ContentItem.spelled o) =
        ({ b with pending := o.reread :: b.pending }, none) := by
      cases o with
      | ref _ r =>
        let two : Builder := { b with pending := Assembly.parts r ++ b.pending }
        have folded : Took two (.operator "R") { b with pending := .ref none r :: b.pending } :=
          .fold (Assembly.referenceParts r b.pending)
        exact addEachStep folded []
      | scalar _ s => rfl
      | array _ items => rfl
      | dict _ es => rfl
    rw [List.flatMap_cons, addEachAppend first, ih, Operand.rereadItems, List.reverse_cons,
      List.append_assoc, List.singleton_append]

structure Rebuilding (b : Builder) (binding : Binding) (params : Params) (around : List Known)
    (inner : List Outline) (levels : List Level) : Prop where
  builds : Builds b inner levels
  binding : b.binding = binding
  params : b.params = params
  clear : b.pending = []
  around : (levels.map Level.start).map Known.endName = around.map Known.endName

theorem Rebuilding.append {b : Builder} {binding params around inner levels}
    (h : Rebuilding b binding params around inner levels) (op : Instruction) :
    Rebuilding (b.append op) binding params around (inner ++ [.node b.tree.size op []]) levels :=
  ⟨h.builds.append op, h.binding, h.params, h.clear, h.around⟩

theorem fitsAgain {b : Builder} {binding : Binding} {k : Known} (h : k.Accepted binding)
    (waiting : b.pending = (Operand.rereadItems k.operands).reverse) :
    b.Fits k.name k.signature := by
  refine ⟨h.found, ?_⟩
  rw [waiting, List.reverse_reverse, List.length_reverse]
  have length : (Operand.rereadItems k.operands).length = k.operands.length := by
    simp [Operand.rereadItemsMap]
  rw [length, ← h.takes]
  exact k.signature.takeKinds (Operand.rereadKinds _)

def ready (b : Builder) (os : List Operand) : Builder :=
  { b with pending := (Operand.rereadItems os).reverse }

theorem addReady {b : Builder} (clear : b.pending = []) (os : List Operand) :
    b.addEach (os.flatMap ContentItem.spelled) = (b.ready os, none) := by
  rw [addSpelled, clear, List.append_nil]
  rfl

theorem addLine {b c : Builder} {os : List Operand} {name : String} (clear : b.pending = [])
    (step : Took (b.ready os) (.operator name) c) :
    b.addEach (os.flatMap ContentItem.spelled ++ [.operator name]) = (c, none) := by
  rw [addEachAppend (addReady clear os)]
  exact addEachStep step []

theorem readyCleared {b : Builder} (clear : b.pending = []) (os : List Operand) :
    (b.ready os).cleared = b := by
  cases b
  cases clear
  rfl

theorem readyFolds (b : Builder) (os : List Operand) :
    (Assembly.reference? (b.ready os).pending).isSome =
      (Assembly.reference? os.reverse).isSome := by
  have reversed : (b.ready os).pending = Operand.rereadItems os.reverse := by
    simp [ready, Operand.rereadItemsMap]
  rw [reversed, Operand.referenceReread]

theorem Rebuilding.opener {b : Builder} {binding params around inner levels}
    (h : Rebuilding b binding params around inner levels) :
    b.opener?.map Known.endName = around.head?.map Known.endName := by
  rw [h.builds.opener, ← List.head?_map, ← List.head?_map, h.around, List.head?_map]

theorem rebuiltLeaf {b : Builder} {binding params around inner levels} {op : Instruction}
    (h : Rebuilding b binding params around inner levels) (accepted : op.Accepted binding params around)
    (leaf : ∀ start stop, op ≠ .block start stop) :
    b.addEach op.spelledLead = (b.append (op.again binding), none) := by
  cases op with
  | simple k =>
    obtain ⟨known, opens, closes⟩ := accepted
    have fits : (b.ready k.operands).Fits k.name k.signature := fitsAgain known rfl
    have same : (b.ready k.operands).cleared.append
        (.simple ((b.ready k.operands).knownOf k.signature)) =
        b.append ((Instruction.simple k).again binding) := by
      rw [readyCleared h.clear, knownOf]
      simp [ready, h.binding, Instruction.again]
    rw [← same]
    refine addLine h.clear ?_
    cases closer : Signature.isCloser k.name with
    | false => exact .plain fits opens closer
    | true =>
      obtain ⟨lenient, other⟩ := closes closer
      refine .stray fits opens closer (by simpa [ready, h.params] using lenient) ?_
      intro start innermost equal
      have opener := h.opener
      have innermost' : b.opener? = some start := innermost
      rw [innermost', Option.map_some] at opener
      obtain ⟨start', first, same'⟩ := Option.map_eq_some_iff.mp opener.symm
      exact other start' first (same'.trans equal)
  | unknown name os =>
    obtain ⟨absent, -, whole, -⟩ := accepted
    have same : (b.ready os).cleared.append
        ((Instruction.unknown name (b.ready os).pending.reverse).bind (b.ready os).binding) =
        b.append ((Instruction.unknown name os).again binding) := by
      rw [readyCleared h.clear]
      simp [ready, h.binding, Instruction.again, Instruction.bind]
    rw [← same]
    refine addLine h.clear (.unknown (fun isR => ?_) absent)
    have folds := readyFolds b os
    rw [whole isR, Option.isSome_none, Option.isSome_eq_false_iff,
      Option.isNone_iff_eq_none] at folds
    exact folds
  | block start stop => exact absurd rfl (leaf start stop)
  | image es raw =>
    have same : b.append ((Instruction.image (Operand.rereadEntries es) raw).bind b.binding) =
        b.append ((Instruction.image es raw).again binding) := by
      simp [h.binding, Instruction.again, Instruction.bind]
    rw [← same]
    exact addEachStep (.image h.clear) []

theorem closerFits {b : Builder} {start : Known} (clear : b.pending = [])
    (opens : (Signature.closer? start.name).isSome = true) :
    b.Fits start.endName (Signature.fixed start.endName []) ∧
      Signature.closer? start.endName = none ∧ Signature.isCloser start.endName = true := by
  obtain same | same := endNames opens
  · rw [same, Fits, clear]
    exact ⟨⟨by decide, rfl⟩, by decide, by decide⟩
  · rw [same, Fits, clear]
    exact ⟨⟨by decide, rfl⟩, by decide, by decide⟩

theorem rebuiltStart {b : Builder} {binding params around inner levels} {start : Known}
    (h : Rebuilding b binding params around inner levels) (known : start.Accepted binding)
    (opens : (Signature.closer? start.name).isSome = true)
    (room : around.length < params.depthLimit) : ∃ c start',
    b.addEach (start.operands.flatMap ContentItem.spelled ++ [.operator start.name]) = (c, none) ∧
    start' = ⟨start.signature, Operand.bindItems binding (Operand.rereadItems start.operands)⟩ ∧
    c.tree.size = b.tree.size + 1 ∧
    Rebuilding c binding params (start :: around) [] (⟨b.tree.size, start', inner⟩ :: levels) := by
  have fits : (b.ready start.operands).Fits start.name start.signature := fitsAgain known rfl
  have inside : levels.length = around.length := by
    simpa using congrArg List.length h.around
  have room' : (b.ready start.operands).openBlocks.length <
      (b.ready start.operands).params.depthLimit := by
    simp only [ready, h.params, h.builds.opened, List.length_map, inside]
    exact room
  refine ⟨_, (b.ready start.operands).knownOf start.signature,
    addLine h.clear (.enter fits opens room'), ?_, ?_, ?_⟩
  · simp [knownOf, ready, h.binding]
  · simp [readyCleared h.clear, Builder.append, OperatorTree.sizePush]
  · rw [readyCleared h.clear]
    exact ⟨h.builds.enter _, h.binding, h.params, h.clear, congrArg (_ :: ·) h.around⟩

theorem rebuiltStop {b : Builder} {binding params around inner levels} {start : Known} {l : Level}
    (h : Rebuilding b binding params (start :: around) inner (l :: levels))
    (opens : (Signature.closer? start.name).isSome = true) : ∃ c,
    b.addEach [.operator start.endName] = (c, none) ∧ c.tree.size = b.tree.size ∧
    Rebuilding c binding params around
      (l.before ++ [.node l.id (.block l.start (some start.stop)) inner]) levels := by
  obtain ⟨fits, opens', closes⟩ := closerFits h.clear opens
  obtain ⟨sameEnd, sameAround⟩ := List.cons.inj h.around
  have opened : b.openBlocks = l.id :: levels.map Level.id := h.builds.opened
  have innermost : b.opener? = some l.start := h.builds.opener
  have step : Took b (.operator start.endName) _ :=
    .leave fits opens' closes opened innermost sameEnd
  have stop : b.knownOf (Signature.fixed start.endName []) = start.stop := by
    rw [knownOf, h.clear]
    rfl
  rw [stop] at step
  refine ⟨_, addEachStep step [], ?_, ?_⟩
  · simp [OperatorTree.modify, OperatorTree.size]
  · have left := h.builds.leave start.stop
    exact ⟨left.waiting [], h.binding, h.params, rfl, sameAround⟩

theorem orderParts {id first : Nat} {op : Instruction} {children rest : List Outline}
    (h : ids (.node id op children :: rest) =
      List.range' first (ids (.node id op children :: rest)).length) :
    id = first ∧ ids children = List.range' (first + 1) (ids children).length ∧
      ids rest = List.range' (first + 1 + (ids children).length) (ids rest).length := by
  simp only [ids, idsOf, List.cons_append, List.length_cons, List.length_append,
    List.range'_succ, List.cons.injEq] at h
  obtain ⟨same, h⟩ := h
  rw [← List.range'_append_1] at h
  obtain ⟨below, later⟩ := List.append_inj h (by simp)
  exact ⟨same, below, later⟩

theorem rebuiltNode {op : Instruction} {children : List Outline} {b : Builder}
    {binding params around inner levels}
    (h : Rebuilding b binding params around inner levels)
    (accepted : AcceptedOf binding params around (.node b.tree.size op children))
    (below : ∀ {c : Builder} {around inner levels}, Rebuilding c binding params around inner levels →
      Accepted binding params around children → c.tree.size = b.tree.size + 1 → ∃ c',
        c.addEach (spelled children) = (c', none) ∧
        c'.tree.size = c.tree.size + (ids children).length ∧
        Rebuilding c' binding params around
          (inner ++ Outline.map id (Instruction.again binding) children) levels) : ∃ c,
    b.addEach (spelledOf (.node b.tree.size op children)) = (c, none) ∧
    c.tree.size = b.tree.size + 1 + (ids children).length ∧
    Rebuilding c binding params around
      (inner ++ [mapIn id (Instruction.again binding) (.node b.tree.size op children)]) levels := by
  obtain ⟨here, contents⟩ := accepted
  have simple (leaf : ∀ start stop, op ≠ .block start stop) (hollow : children = [])
      (open' : op.spelledClose = []) : ∃ c,
      b.addEach (spelledOf (.node b.tree.size op children)) = (c, none) ∧
      c.tree.size = b.tree.size + 1 + (ids children).length ∧
      Rebuilding c binding params around
        (inner ++ [mapIn id (Instruction.again binding) (.node b.tree.size op children)]) levels := by
    subst hollow
    refine ⟨_, ?_, ?_, h.append (op.again binding)⟩
    · simp only [spelledOf, spelled, open', List.append_nil]
      exact rebuiltLeaf h here leaf
    · simp [Builder.append, OperatorTree.sizePush, ids]
  cases op with
  | simple k => exact simple (fun _ _ same => by contradiction) contents rfl
  | unknown name os => exact simple (fun _ _ same => by contradiction) contents rfl
  | image es raw => exact simple (fun _ _ same => by contradiction) contents rfl
  | block start stop =>
    obtain ⟨known, opens, room, -⟩ := here
    obtain ⟨c₁, start', run₁, same, size₁, h₁⟩ := rebuiltStart h known opens room
    obtain ⟨c₂, run₂, size₂, h₂⟩ := below h₁ contents size₁
    obtain ⟨c₃, run₃, size₃, h₃⟩ := rebuiltStop h₂ opens
    refine ⟨c₃, ?_, by omega, ?_⟩
    · simp only [spelledOf, Instruction.spelledLead, Instruction.spelledClose,
        Instruction.operands, Instruction.name]
      rw [List.append_assoc, addEachAppend run₁, addEachAppend run₂, run₃]
    · subst same
      simpa [mapIn, Instruction.again] using h₃

theorem rebuilt {os : List Outline} {b : Builder} {binding params around inner levels}
    (h : Rebuilding b binding params around inner levels)
    (accepted : Accepted binding params around os)
    (order : ids os = List.range' b.tree.size (ids os).length) : ∃ c,
    b.addEach (spelled os) = (c, none) ∧ c.tree.size = b.tree.size + (ids os).length ∧
    Rebuilding c binding params around
      (inner ++ Outline.map id (Instruction.again binding) os) levels := by
  induction os using forest generalizing b around inner levels with
  | nil => exact ⟨b, rfl, rfl, by simpa [Outline.map] using h⟩
  | cons i op children rest below later =>
    obtain ⟨rfl, orderBelow, orderLater⟩ := orderParts order
    obtain ⟨c, run, size, h₁⟩ := rebuiltNode h accepted.1 fun h' accepted' size' =>
      below h' accepted' (size' ▸ orderBelow)
    obtain ⟨c', run', size', h₂⟩ := later h₁ accepted.2 (size ▸ orderLater)
    refine ⟨c', ?_, ?_, ?_⟩
    · rw [spelled, addEachAppend run, run']
    · simp only [ids, idsOf, List.length_append, List.length_cons]
      omega
    · simpa [Outline.map] using h₂

end Builder

end PageContent
