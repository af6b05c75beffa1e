import PageContent.Proofs.Builder.Listing
import PageContent.Proofs.ContentItem.Yielding

/-! What is known of every operator of a tree that was read: its operands and its name are
read back from their text, and it would be accepted again where it stands. -/
namespace PageContent
open Outline

namespace Operand

theorem bindKeys (b : Binding) (es : List (String × Operand)) :
    (bindEntries b es).map Prod.fst = es.map Prod.fst := by
  induction es with
  | nil => rfl
  | cons entry rest ih => simp [bindEntries, ih]

mutual

theorem bindReadable (b : Binding) : (o : Operand) → o.Readable → (o.bind b).Readable
  | scalar _ _, h => h
  | ref _ _, _ => trivial
  | array _ items, h => bindReadableItems b items h
  | dict _ es, h => ⟨by rw [Dict.Distinct, bindKeys]; exact h.1, bindReadableEntries b es h.2⟩

theorem bindReadableItems (b : Binding) :
    (os : List Operand) → ReadableItems os → ReadableItems (bindItems b os)
  | [], _ => trivial
  | o :: rest, h => ⟨bindReadable b o h.1, bindReadableItems b rest h.2⟩

theorem bindReadableEntries (b : Binding) :
    (es : List (String × Operand)) → ReadableEntries es → ReadableEntries (bindEntries b es)
  | [], _ => trivial
  | (_, o) :: rest, h => ⟨bindReadable b o h.1, bindReadableEntries b rest h.2⟩

end

theorem bindKinds (b : Binding) (os : List Operand) : (bindItems b os).map kind = os.map kind := by
  induction os with
  | nil => rfl
  | cons o rest ih => simp [bindItems, ih]

theorem rereadKinds (os : List Operand) : (rereadItems os).map kind = os.map kind := by
  induction os with
  | nil => rfl
  | cons o rest ih => simp [rereadItems, ih]

theorem bindEntriesMap (b : Binding) (es : List (String × Operand)) :
    bindEntries b es = es.map fun (k, o) => (k, o.bind b) := by
  induction es with
  | nil => rfl
  | cons entry rest ih => simp [bindEntries, ih]

theorem intReread {o : Operand} {b : Option Binding} {n : Int64}
    (h : o.reread = .scalar b (.int n)) : ∃ b', o = .scalar b' (.int n) := by
  cases o with
  | scalar b' s =>
    cases s with
    | int m =>
      simp only [reread, Scalar.reread, ofScalar, scalar.injEq, Scalar.int.injEq] at h
      exact ⟨b', by rw [h.2]⟩
    | _ => simp [reread, Scalar.reread, ofScalar, ofReal] at h
  | _ => simp [reread] at h

theorem referenceNone {os : List Operand}
    (h : ∀ b g b' n rest, os ≠ .scalar b (.int g) :: .scalar b' (.int n) :: rest) :
    Assembly.reference? os = none := by
  unfold Assembly.reference?
  split
  · exact absurd rfl (h _ _ _ _ _)
  · rfl

theorem referenceReread (os : List Operand) :
    (Assembly.reference? (rereadItems os)).isSome = (Assembly.reference? os).isSome := by
  by_cases two : ∃ b g b' n rest, os = .scalar b (.int g) :: .scalar b' (.int n) :: rest
  · obtain ⟨b, g, b', n, rest, rfl⟩ := two
    simp only [rereadItems, reread, Scalar.reread, ofScalar, Assembly.reference?]
    split <;> rfl
  · have other : ∀ b g b' n rest, os ≠ .scalar b (.int g) :: .scalar b' (.int n) :: rest :=
      fun b g b' n rest same => two ⟨b, g, b', n, rest, same⟩
    rw [referenceNone other, referenceNone]
    intro b g b' n rest same
    cases os with
    | nil => simp [rereadItems] at same
    | cons o more =>
      cases more with
      | nil => simp [rereadItems] at same
      | cons o' more =>
        obtain ⟨first, later⟩ := List.cons.inj same
        obtain ⟨_, rfl⟩ := intReread first
        obtain ⟨_, rfl⟩ := intReread (List.cons.inj later).1
        exact other _ _ _ _ _ rfl

theorem referenceBind (b : Binding) (os : List Operand) :
    (Assembly.reference? (bindItems b os)).isSome = (Assembly.reference? os).isSome := by
  rw [← referenceReread, rereadBindItems, referenceReread]

theorem selfEndingBind (b : Binding) (es : Dict Operand) :
    Assembly.isSelfEnding (bindEntries b es) = Assembly.isSelfEnding es := by
  rw [← selfEndingReread, rereadBindEntries, selfEndingReread]

structure Settled (b : Binding) (os : List Operand) : Prop where
  readable : ReadableItems os
  bound : bindItems b os = os

theorem settledBind (b : Binding) {os : List Operand} (h : ReadableItems os) :
    Settled b (bindItems b os) :=
  ⟨bindReadableItems b os h, bindItemsTwice b os⟩

end Operand

namespace Signature

theorem rejectedKinds {masks : List KindSet} {os os' : List Operand}
    (h : os.map Operand.kind = os'.map Operand.kind) : rejected? masks os = rejected? masks os' := by
  induction masks generalizing os os' with
  | nil => simp [rejected?]
  | cons mask masks ih =>
    cases os with
    | nil =>
      cases os' with
      | nil => rfl
      | cons o' rest' => simp at h
    | cons o rest =>
      cases os' with
      | nil => simp at h
      | cons o' rest' =>
        obtain ⟨first, later⟩ := List.cons.inj h
        simp only [rejected?, first, ih later]

theorem takeKinds (s : Signature) {os os' : List Operand}
    (h : os.map Operand.kind = os'.map Operand.kind) : s.take os = s.take os' := by
  have length : os.length = os'.length := by simpa using congrArg List.length h
  have reversed : os.reverse.map Operand.kind = os'.reverse.map Operand.kind := by
    rw [List.map_reverse, List.map_reverse, h]
  simp only [take, length, rejectedKinds reversed]

end Signature

structure Known.Accepted (b : Binding) (k : Known) : Prop where
  found : Signature.find? k.name = some k.signature
  takes : k.signature.take k.operands = .ok k.operands.length
  spoken : Lexeme.Spoken k.name ∧ k.name ≠ "BI"
  settled : Operand.Settled b k.operands

def Known.stop (start : Known) : Known := ⟨Signature.fixed start.endName [], []⟩

namespace Instruction

def Accepted (b : Binding) (params : Params) (around : List Known) : Instruction → Prop
  | simple k => k.Accepted b ∧ Signature.closer? k.name = none ∧
    (Signature.isCloser k.name = true → params.strictBlocks = false ∧
      ∀ start, around.head? = some start → start.endName ≠ k.name)
  | unknown name os => Signature.find? name = none ∧ Lexeme.Spoken name ∧
    (name = "R" → Assembly.reference? os.reverse = none) ∧ Operand.Settled b os
  | block start stop => start.Accepted b ∧ (Signature.closer? start.name).isSome ∧
    around.length < params.depthLimit ∧ ∀ k, stop = some k → k = start.stop
  | image es raw => (ContentItem.image es raw).Readable ∧ Operand.bindEntries b es = es

end Instruction

namespace Outline
variable (b : Binding) (params : Params)

mutual

def AcceptedOf (around : List Known) : Outline → Prop
  | node _ op children => op.Accepted b params around ∧ match op with
    | .block start _ => Accepted (start :: around) children
    | _ => children = []

def Accepted (around : List Known) : List Outline → Prop
  | [] => True
  | o :: rest => AcceptedOf around o ∧ Accepted around rest

end

variable {b params}

theorem acceptedAppend {around : List Known} {as bs : List Outline} :
    Accepted b params around (as ++ bs) ↔
      Accepted b params around as ∧ Accepted b params around bs := by
  induction as with
  | nil => simp [Accepted]
  | cons o rest ih => simp [Accepted, ih, and_assoc]

end Outline

def AcceptedOpen (b : Binding) (params : Params) (inner : List Outline) : List Level → Prop
  | [] => Accepted b params [] inner
  | l :: outer => Accepted b params (l.start :: outer.map Level.start) inner ∧
    l.start.Accepted b ∧ (Signature.closer? l.start.name).isSome ∧
    outer.length < params.depthLimit ∧ AcceptedOpen b params l.before outer

namespace AcceptedOpen
variable {b : Binding} {params : Params} {inner : List Outline} {levels : List Level}

theorem inside (h : AcceptedOpen b params inner levels) :
    Accepted b params (levels.map Level.start) inner := by
  cases levels with
  | nil => exact h
  | cons l outer => exact h.1

theorem append (h : AcceptedOpen b params inner levels) {o : Outline}
    (added : AcceptedOf b params (levels.map Level.start) o) :
    AcceptedOpen b params (inner ++ [o]) levels := by
  have grown : Accepted b params (levels.map Level.start) (inner ++ [o]) :=
    acceptedAppend.mpr ⟨h.inside, added, trivial⟩
  cases levels with
  | nil => exact grown
  | cons l outer => exact ⟨grown, h.2⟩

theorem plug (h : AcceptedOpen b params inner levels) :
    Accepted b params [] (PageContent.plug inner levels) := by
  induction levels generalizing inner with
  | nil => exact h
  | cons l outer ih =>
    obtain ⟨contents, start, opens, room, around⟩ := h
    refine ih (around.append ⟨⟨start, opens, ?_, fun k none => by contradiction⟩, contents⟩)
    simpa using room

end AcceptedOpen

namespace Builder

theorem closerTakes {b : Builder} {name s} (fits : b.Fits name s)
    (closes : Signature.isCloser s.name = true) :
    b.pending = [] ∧ s = Signature.fixed s.name [] := by
  obtain ⟨found, takes⟩ := fits
  have same := findName found
  rw [same] at closes
  simp only [Signature.isCloser, Bool.or_eq_true, decide_eq_true_eq] at closes
  have fixed : s = Signature.fixed s.name [] := by
    rw [same]
    obtain rfl | rfl := closes
    · exact Option.some.inj (found.symm.trans (by decide))
    · exact Option.some.inj (found.symm.trans (by decide))
  refine ⟨?_, fixed⟩
  rw [fixed] at takes
  simp only [Signature.take, Signature.fixed, Signature.arity, List.length_nil, Nat.min_zero,
    Nat.lt_irrefl, if_false, List.reverse_nil, Signature.rejected?, Except.ok.injEq] at takes
  exact List.length_eq_zero_iff.mp takes.symm

theorem fitsAccepted {b : Builder} {name s} (fits : b.Fits name s)
    (spoken : Lexeme.Spoken name ∧ name ≠ "BI") (waiting : Operand.ReadableItems b.pending) :
    (b.knownOf s).Accepted b.binding := by
  obtain ⟨found, takes⟩ := fits
  have same := findName found
  have length : (Operand.bindItems b.binding b.pending.reverse).length = b.pending.length := by
    simp [Operand.bindItems_eq_map]
  refine ⟨?_, ?_, ?_, ?_⟩
  · rw [knownOfName, same]
    exact found
  · rw [knownOf, length, ← takes]
    exact s.takeKinds (Operand.bindKinds _ _)
  · rw [knownOfName, same]
    exact spoken
  · exact Operand.settledBind _ (Assembly.readableReverse waiting)

structure Sound (b : Builder) (inner : List Outline) (levels : List Level) : Prop where
  builds : Builds b inner levels
  accepted : AcceptedOpen b.binding b.params inner levels
  waiting : Operand.ReadableItems b.pending

theorem Sound.append {b : Builder} {inner levels} (h : Sound b inner levels) {op : Instruction}
    (accepted : op.Accepted b.binding b.params (levels.map Level.start))
    (leaf : ∀ start stop, op ≠ .block start stop) :
    Sound (b.append op) (inner ++ [.node b.tree.size op []]) levels := by
  refine ⟨h.builds.append op, h.accepted.append ⟨accepted, ?_⟩, h.waiting⟩
  split
  · rename_i start stop
    exact absurd rfl (leaf start stop)
  · rfl

theorem Sound.cleared {b : Builder} {inner levels} (h : Sound b inner levels) :
    Sound b.cleared inner levels := ⟨h.builds.waiting [], h.accepted, trivial⟩

theorem soundStep {b b' : Builder} {inner levels item} (h : Sound b inner levels)
    (readable : item.Readable) (step : Took b item b') : ∃ inner' levels', Sound b' inner' levels' := by
  have waiting := Assembly.readableReverse h.waiting
  have opener : b.opener? = (levels.map Level.start).head? := by
    rw [h.builds.opener, List.head?_map]
  cases step with
  | operand o => exact ⟨_, _, h.builds.waiting _, h.accepted, readable.1, h.waiting⟩
  | fold two =>
    exact ⟨_, _, h.builds.waiting _, h.accepted, Assembly.referenceReadable two h.waiting⟩
  | @unknown name whole absent =>
    refine ⟨_, _, h.cleared.append ?_ (by intro _ _ same; contradiction)⟩
    refine ⟨absent, readable.1, fun isR => ?_, Operand.settledBind _ waiting⟩
    have same : (Operand.bindItems b.binding b.pending.reverse).reverse =
        Operand.bindItems b.binding b.pending := by
      simp [Operand.bindItems_eq_map]
    have whole' := Operand.referenceBind b.binding b.pending
    rw [whole isR, Option.isSome_none, Option.isSome_eq_false_iff, Option.isNone_iff_eq_none] at whole'
    exact (congrArg Assembly.reference? same).trans whole'
  | plain fits opens closes =>
    refine ⟨_, _, h.cleared.append ?_ (by intro _ _ same; contradiction)⟩
    exact ⟨fitsAccepted fits readable h.waiting, opens, fun yes => absurd (yes.symm.trans closes)
      (by decide)⟩
  | stray fits opens closes lenient other =>
    refine ⟨_, _, h.cleared.append ?_ (by intro _ _ same; contradiction)⟩
    refine ⟨fitsAccepted fits readable h.waiting, opens, fun _ => ⟨lenient, fun start first => ?_⟩⟩
    exact other start (opener.trans first)
  | enter fits opens room =>
    refine ⟨_, _, h.cleared.builds.enter _, ?_, trivial⟩
    rw [h.builds.opened, List.length_map] at room
    exact ⟨trivial, fitsAccepted fits readable h.waiting, opens, room, h.accepted⟩
  | @leave name s id outer start fits opens closes opened innermost same =>
    cases levels with
    | nil => simp [h.builds.opened] at opened
    | cons l around =>
      rw [h.builds.opened] at opened
      obtain ⟨rfl, rfl⟩ := List.cons.inj opened
      obtain ⟨contents, begins, opens', room, before⟩ := h.accepted
      refine ⟨_, _, h.cleared.builds.leave (b.knownOf s), ?_, trivial⟩
      refine AcceptedOpen.append before ⟨⟨begins, opens', by simpa using room, ?_⟩, contents⟩
      rintro k ⟨⟩
      obtain ⟨clear, fixed⟩ := closerTakes fits closes
      have start' : start = l.start := by
        simpa [h.builds.opener] using innermost.symm
      rw [Known.stop, ← start', same, ← fixed, knownOf, clear]
      rfl
  | @image es raw clear =>
    refine ⟨_, _, h.append ?_ (by intro _ _ same; contradiction)⟩
    obtain ⟨distinct, values, clear, whole⟩ := readable
    have filters := Operand.selfEndingBind b.binding es
    refine ⟨⟨?_, ?_, by rwa [filters], by rwa [filters]⟩, Operand.bindEntriesTwice b.binding es⟩
    · rw [Dict.Distinct, Operand.bindKeys]
      exact distinct
    · intro k o member
      rw [Operand.bindEntriesMap] at member
      obtain ⟨⟨k', o'⟩, there, same⟩ := List.mem_map.mp member
      cases same
      obtain ⟨readable, direct⟩ := values k o' there
      exact ⟨Operand.bindReadable _ o' readable, by simpa using direct⟩

theorem soundRun {b b' : Builder} {inner levels items} (h : Sound b inner levels)
    (readable : ∀ pos item, .ok (pos, item) ∈ items → item.Readable)
    (run : b.addItems items = (b', none)) : ∃ inner' levels', Sound b' inner' levels' := by
  induction items generalizing b inner levels with
  | nil => cases run; exact ⟨_, _, h⟩
  | cons read rest ih =>
    obtain ⟨pos, item, b₁, rfl, first, later⟩ := addItemsCons.mp run
    obtain ⟨inner₁, levels₁, h₁⟩ := soundStep h (readable pos item List.mem_cons_self) first
    exact ih h₁ (fun pos item member => readable pos item (List.mem_cons_of_mem _ member)) later

end Builder

theorem OperatorTree.parseExact {data : Bytes} {binding : Binding} {params : Params}
    {t : OperatorTree} : OperatorTree.parse data binding params = .ok t ↔ ∃ b,
      (Builder.new binding params).addItems (ContentItem.ofData data) = (b, none) ∧
      b.toTree = .ok t := by
  unfold OperatorTree.parse Builder.addData
  rcases (Builder.new binding params).addItems (ContentItem.ofData data) with ⟨b, _ | fault⟩
  · simp
  · simp

theorem Builder.Sound.tree {b : Builder} {inner levels} (h : Sound b inner levels)
    {t : OperatorTree} (finished : b.toTree = .ok t) :
    t.Spells t.outline ∧ ids t.outline = List.range t.size ∧
      Accepted b.binding b.params [] t.outline := by
  obtain ⟨rfl, -⟩ := Builder.finishedTree finished
  rw [h.builds.spells.outline]
  exact ⟨h.builds.spells, h.builds.inOrder, h.accepted.plug⟩

theorem OperatorTree.parseAccepted {data : Bytes} {binding : Binding} {params : Params}
    {t : OperatorTree} (parsed : OperatorTree.parse data binding params = .ok t) :
    t.Spells t.outline ∧ ids t.outline = List.range t.size ∧
      Accepted binding params [] t.outline := by
  obtain ⟨b, run, finished⟩ := OperatorTree.parseExact.mp parsed
  obtain ⟨inner, levels, h⟩ := Builder.soundRun
    ⟨Builder.buildsNew binding params, trivial, trivial⟩
    (fun pos item member => ContentItem.ofDataReadable member) run
  obtain ⟨params', binding'⟩ := Builder.addItemsKept run
  have read := h.tree finished
  rw [params', binding'] at read
  exact read

end PageContent
