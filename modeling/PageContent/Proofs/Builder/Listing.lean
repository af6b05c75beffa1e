import PageContent.Proofs.Builder.Taking
import PageContent.Proofs.Operand.Unbound

/-! Nothing that goes into a builder is lost, doubled or moved: listed depth first, its
tree gives the items back, with the references that `R` makes of two integers. -/
namespace PageContent

namespace ContentItem

def line (name : String) (operands : List Operand) : List ContentItem :=
  operands.map operand ++ [operator name]

theorem lineInjective {name name' : String} {os os' : List Operand}
    (same : line name os = line name' os') : name = name' ∧ os = os' := by
  obtain ⟨operands, last⟩ := List.append_inj' same rfl
  exact ⟨by simpa using last, (List.map_inj_right fun _ _ => operand.inj).mp operands⟩

-- An `R` that makes a reference of the operands before it is part of that reference.
def folded (pending : List Operand) : List ContentItem → List ContentItem
  | [] => pending.reverse.map operand
  | operand o :: rest => folded (o :: pending) rest
  | operator name :: rest =>
    match if name = "R" then Assembly.reference? pending else none with
    | some pending => folded pending rest
    | none => line name pending.reverse ++ folded [] rest
  | image entries data :: rest =>
    pending.reverse.map operand ++ image entries data :: folded [] rest

theorem unboundLine (b : Binding) (name : String) (os : List Operand) :
    (line name (Operand.bindItems b os)).map unbound = (line name os).map unbound := by
  simp [line, Operand.bindItems_eq_map, unbound, Function.comp_def]

end ContentItem

namespace Instruction
open ContentItem

def lead : Instruction → List ContentItem
  | simple k => line k.name k.operands
  | unknown name operands => line name operands
  | block start _ => line start.name start.operands
  | image entries data => [.image entries data]

def close : Instruction → List ContentItem
  | block _ (some stop) => line stop.name stop.operands
  | _ => []

end Instruction

namespace Outline

mutual

def listingOf : Outline → List ContentItem
  | node _ op children => op.lead ++ listing children ++ op.close

def listing : List Outline → List ContentItem
  | [] => []
  | o :: rest => listingOf o ++ listing rest

end

@[simp] theorem listingAppend (as bs : List Outline) :
    listing (as ++ bs) = listing as ++ listing bs := by
  induction as with
  | nil => simp [listing]
  | cons o rest ih => simp [listing, ih]

theorem listingLeaf (id : Nat) (op : Instruction) :
    listing [.node id op []] = op.lead ++ op.close := by
  simp [listing, listingOf]

end Outline

open Outline

def begun : List Level → List ContentItem
  | [] => []
  | l :: outer => begun outer ++ listing l.before ++ (Instruction.block l.start none).lead

theorem listingPlug (inner : List Outline) (levels : List Level) :
    listing (plug inner levels) = begun levels ++ listing inner := by
  induction levels generalizing inner with
  | nil => rfl
  | cons l outer ih => simp [plug, begun, ih, listing, listingOf, Instruction.close]

namespace Builder
open ContentItem

def addEach (b : Builder) : List ContentItem → Step
  | [] => (b, none)
  | item :: rest => match b.add item with
    | (b, none) => addEach b rest
    | (b, some fault) => (b, some fault)

theorem addEachCons {b b' : Builder} {item rest} (ok : b.addEach (item :: rest) = (b', none)) :
    ∃ c, Took b item c ∧ c.addEach rest = (b', none) := by
  unfold addEach at ok
  split at ok
  · rename_i c first
    exact ⟨c, took first, ok⟩
  · simp at ok

theorem foldedFits {b : Builder} {name s} (fits : b.Fits name s) (rest : List ContentItem) :
    folded b.pending (.operator name :: rest) = line name b.pending.reverse ++ folded [] rest := by
  have notR : name ≠ "R" := by
    rintro rfl
    simp [Fits, findR] at fits
  simp [folded, notR]

theorem unboundKnown {b : Builder} {name s} (fits : b.Fits name s) :
    (line (b.knownOf s).name (b.knownOf s).operands).map unbound =
      (line name b.pending.reverse).map unbound := by
  rw [knownOfName, findName fits.1]
  exact unboundLine b.binding name b.pending.reverse

theorem finishedTree {b : Builder} {t} (finished : b.toTree = .ok t) :
    b.tree = t ∧ b.pending = [] := by
  unfold toTree at finished
  split at finished
  · contradiction
  · rename_i clear
    have clear' : b.pending = [] := by simpa using clear
    split at finished
    · cases finished; exact ⟨rfl, clear'⟩
    · split at finished
      · contradiction
      · cases finished; exact ⟨rfl, clear'⟩

theorem listingStep {b c : Builder} {inner levels item} (h : Builds b inner levels)
    (step : Took b item c) : ∃ inner' levels', Builds c inner' levels' ∧
    ∀ rest, (listing (plug inner' levels') ++ folded c.pending rest).map unbound =
      (listing (plug inner levels) ++ folded b.pending (item :: rest)).map unbound := by
  have cleared : Builds b.cleared inner levels := h.waiting []
  cases step with
  | operand o => exact ⟨inner, levels, h.waiting _, fun _ => rfl⟩
  | fold two => exact ⟨inner, levels, h.waiting _, fun rest => by simp [folded, two]⟩
  | @unknown name whole absent =>
    refine ⟨_, _, cleared.append _, fun rest => ?_⟩
    have whole' : (if name = "R" then Assembly.reference? b.pending else none) = none := by
      split
      · rename_i isR
        exact whole isR
      · rfl
    have same := unboundLine b.binding name b.pending.reverse
    simp [listingPlug, listingLeaf, folded, whole', Instruction.bind, Instruction.lead,
      Instruction.close, Builder.append, Builder.cleared, same]
  | plain fits opens closes =>
    refine ⟨_, _, cleared.append _, fun rest => ?_⟩
    have same := unboundKnown fits
    rw [foldedFits fits]
    simp [listingPlug, listingLeaf, Instruction.lead, Instruction.close, Builder.append,
      Builder.cleared] at same ⊢
    simp [same]
  | stray fits opens closes lenient other =>
    refine ⟨_, _, cleared.append _, fun rest => ?_⟩
    have same := unboundKnown fits
    rw [foldedFits fits]
    simp [listingPlug, listingLeaf, Instruction.lead, Instruction.close, Builder.append,
      Builder.cleared] at same ⊢
    simp [same]
  | enter fits opens room =>
    refine ⟨_, _, cleared.enter _, fun rest => ?_⟩
    have same := unboundKnown fits
    rw [foldedFits fits]
    simp [listingPlug, listing, begun, Instruction.lead, Builder.append, Builder.cleared]
      at same ⊢
    simp [same]
  | @leave name s id outer start fits opens closes opened innermost same =>
    cases levels with
    | nil => simp [h.opened] at opened
    | cons l outer' =>
      rw [h.opened] at opened
      cases opened
      refine ⟨_, _, cleared.leave (b.knownOf s), fun rest => ?_⟩
      have same := unboundKnown fits
      rw [foldedFits fits]
      simp [listingPlug, listing, listingOf, begun, Instruction.lead, Instruction.close,
        Builder.cleared] at same ⊢
      simp [same]
  | image clear =>
    refine ⟨_, _, h.append _, fun rest => ?_⟩
    simp [listingPlug, listingLeaf, folded, Instruction.bind, Instruction.lead,
      Instruction.close, Builder.append, clear, unbound]

theorem listingRun {b b' : Builder} {inner levels items} (h : Builds b inner levels)
    (accepted : b.addEach items = (b', none)) : ∃ inner' levels', Builds b' inner' levels' ∧
    (listing (plug inner' levels') ++ folded b'.pending []).map unbound =
      (listing (plug inner levels) ++ folded b.pending items).map unbound := by
  induction items generalizing b inner levels with
  | nil => cases accepted; exact ⟨inner, levels, h, rfl⟩
  | cons item rest ih =>
    obtain ⟨c, first, accepted⟩ := addEachCons accepted
    obtain ⟨inner', levels', grown, step⟩ := listingStep h first
    obtain ⟨inner'', levels'', last, run⟩ := ih grown accepted
    exact ⟨inner'', levels'', last, run.trans (step rest)⟩

/-- Every operator stands in the outline once, and listed depth first they give back every
item that went in, in its order and with its operator. -/
theorem listingExact {binding : Binding} {params : Params} {items b t}
    (accepted : (new binding params).addEach items = (b, none)) (finished : b.toTree = .ok t) :
    ids t.outline = List.range t.size ∧
      (listing t.outline).map unbound = (folded [] items).map unbound := by
  obtain ⟨inner, levels, h, run⟩ := listingRun (buildsNew binding params) accepted
  obtain ⟨same, clear⟩ := finishedTree finished
  subst same
  rw [h.spells.outline]
  exact ⟨h.inOrder, by simpa [plug, listing, new, clear, folded] using run⟩

theorem listingOfNested : ∃ b t,
    (new ⟨1, ⟨5, 0⟩⟩ .default).addEach
      [.operand (.scalar none (.int 4)), .operand (.scalar none (.int 0)), .operator "R",
       .operator "x", .operand (.ofName "T"), .operator "BMC", .operator "ET",
       .image [("W", .scalar none (.int 1))] [0x41], .operator "EMC", .operator "BT"] = (b, none) ∧
    b.toTree = .ok t ∧ ids t.outline = List.range t.size ∧
    (listing t.outline).map unbound = (folded []
      [.operand (.scalar none (.int 4)), .operand (.scalar none (.int 0)), .operator "R",
       .operator "x", .operand (.ofName "T"), .operator "BMC", .operator "ET",
       .image [("W", .scalar none (.int 1))] [0x41], .operator "EMC", .operator "BT"]).map
      unbound := by
  refine ⟨_, _, rfl, rfl, ?_⟩
  exact @listingExact ⟨1, ⟨5, 0⟩⟩ .default _ _ _ rfl rfl

end Builder

end PageContent
