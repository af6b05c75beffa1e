import PageContent.Proofs.Builder.Listing
import PageContent.Proofs.Signature.Matched

/-! An operator that is made of a name and operands, and what a fresh builder does with the
same operands and the name after them. -/
namespace PageContent.Builder
open ContentItem

variable {binding : Binding} {params : Params} {name : String} {s : Signature}
  {operands : List Operand}

/-- How the two can end: both refuse a kind or a lack of operands, or both refuse that some are
left over, or the builder holds the operator that was made and nothing else. -/
inductive Agrees (binding : Binding) (s : Signature) (operands : List Operand) :
    Except Fault Known → Step → Prop where
  | mismatched (b : Builder) (m : Mismatch) : Agrees binding s operands
      (.error (.content s.name (.operand m))) (b, some (.content s.name (.operand m)))
  | left (b : Builder) (n : Nat) : Agrees binding s operands
      (.error (.content s.name (.surplus n))) (b, some (.content s.name (.excess n)))
  | holds (b : Builder) (op : Instruction) (sole : b.tree = OperatorTree.empty.push op none)
      (clear : b.pending = []) (known : op.signature? = some s)
      (bound : op.operands = Operand.bindItems binding operands) :
      Agrees binding s operands (.ok ⟨s, operands⟩) (b, none)

theorem addEachOperands (b : Builder) (operands : List Operand) (rest : List ContentItem) :
    b.addEach (operands.map operand ++ rest) =
      { b with pending := operands.reverse ++ b.pending }.addEach rest := by
  induction operands generalizing b with
  | nil => rfl
  | cons o more ih =>
    have first := ih { b with pending := o :: b.pending }
    simpa [addEach, add] using first

def waiting (binding : Binding) (params : Params) (operands : List Operand) : Builder :=
  { new binding params with pending := operands.reverse }

theorem addEachLine : (new binding params).addEach (line name operands) =
    (waiting binding params operands).add (.operator name) := by
  rw [line, addEachOperands]
  simp only [addEach, new, List.append_nil, waiting]
  split <;> simp_all

theorem addKnown (b : Builder) (found : Signature.find? s.name = some s) :
    b.add (.operator s.name) = b.known s := by
  have other : s.name ≠ "R" := by
    intro isR
    rw [isR, findR] at found
    contradiction
  simp only [add, operator, if_neg other, found]

theorem waitingTakes (found : Signature.find? s.name = some s)
    (taken : s.take operands = .ok operands.length) (lenient : params.strictBlocks = false)
    (room : 1 ≤ params.depthLimit) : Agrees binding s operands (.ok ⟨s, operands⟩)
      ((waiting binding params operands).add (.operator s.name)) := by
  have fits : (waiting binding params operands).Fits s.name s := by
    simpa [Fits, waiting, found] using taken
  have bound : ((waiting binding params operands).knownOf s).operands =
      Operand.bindItems binding operands :=
    congrArg (Operand.bindItems binding) (List.reverse_reverse operands)
  cases opens : Signature.closer? s.name with
  | some stop =>
    rw [added (.enter fits (by simp [opens]) room)]
    exact .holds _ (.block _ none) rfl rfl rfl bound
  | none =>
    cases closes : Signature.isCloser s.name with
    | true =>
      have other : (waiting binding params operands).opener? = none := rfl
      rw [added (.stray fits opens closes lenient (by simp [other]))]
      exact .holds _ (.simple _) rfl rfl rfl bound
    | false =>
      rw [added (.plain fits opens closes)]
      exact .holds _ (.simple _) rfl rfl rfl bound

theorem agrees (lenient : params.strictBlocks = false) (room : 1 ≤ params.depthLimit)
    (found : Signature.find? s.name = some s) : Agrees binding s operands
      (Known.make s.name operands) ((new binding params).addEach (line s.name operands)) := by
  rw [addEachLine]
  simp only [Known.make, found]
  cases taken : s.take operands with
  | error m =>
    rw [addKnown _ found]
    simp only [known, waiting, List.reverse_reverse, taken]
    exact .mismatched _ m
  | ok n =>
    have most := (Signature.takeOk taken).most
    by_cases all : n = operands.length
    · subst all
      simp only [if_true]
      exact waitingTakes found taken lenient room
    · have fewer : n < operands.length := by omega
      rw [addKnown _ found]
      simp only [known, waiting, List.reverse_reverse, taken, if_neg all, if_pos fewer]
      exact .left _ _

/-- Operands and a name of the table make an operator exactly if a fresh builder that nests
blocks at all and takes stray ends accepts them. It then holds the operator, of the same
signature and with the same operands up to their binding, and else the two faults name the
same operator and the same position, or both no position. -/
theorem madeAsAdded (binding : Binding) {params : Params} {name : String}
    (lenient : params.strictBlocks = false) (room : 1 ≤ params.depthLimit)
    (listed : name ∈ Signature.table.map Signature.name) (operands : List Operand) :
    ((∃ k, Known.make name operands = .ok k) ↔
      ∃ b, (new binding params).addEach (line name operands) = (b, none)) ∧
    (∀ k b, Known.make name operands = .ok k →
      (new binding params).addEach (line name operands) = (b, none) →
      ∃ op, b.tree = OperatorTree.empty.push op none ∧ b.pending = [] ∧
        op.signature? = some k.signature ∧
        Operand.unboundItems op.operands = Operand.unboundItems k.operands) ∧
    ∀ fault fault' b, Known.make name operands = .error fault →
      (new binding params).addEach (line name operands) = (b, some fault') →
      ∃ flaw flaw', fault = .malformed name flaw none ∧ fault' = .malformed name flaw' none ∧
        flaw.position? = flaw'.position? := by
  obtain ⟨s, found⟩ : ∃ s, Signature.find? name = some s := by
    obtain ⟨s, member, same⟩ := List.mem_map.mp listed
    exact Option.isSome_iff_exists.mp (List.find?_isSome.mpr ⟨s, member, by simpa using same⟩)
  obtain rfl := findName found
  have both : Agrees binding s operands (Known.make s.name operands)
      ((new binding params).addEach (line s.name operands)) := agrees lenient room found
  generalize Known.make s.name operands = made at both ⊢
  generalize (new binding params).addEach (line s.name operands) = added at both ⊢
  cases both with
  | mismatched b m => simp [Fault.content]
  | left b n => simp [Fault.content, ContentFlaw.position?]
  | holds b op sole clear known bound =>
    refine ⟨by simp, ?_, by simp⟩
    intro k b' made added
    cases made
    cases added
    exact ⟨op, sole, clear, known, by rw [bound, Operand.unboundBindItems]⟩

theorem madeAsAddedOfBlock : ∃ k b op,
    Params.default.strictBlocks = false ∧ 1 ≤ Params.default.depthLimit ∧
    "BDC" ∈ Signature.table.map Signature.name ∧
    Known.make "BDC" [.ofName "Span", .dict none []] = .ok k ∧
    (new ⟨1, ⟨5, 0⟩⟩ .default).addEach (line "BDC" [.ofName "Span", .dict none []]) = (b, none) ∧
    b.tree = OperatorTree.empty.push op none ∧ op.signature? = some k.signature ∧
    Operand.unboundItems op.operands = Operand.unboundItems k.operands := by
  have listed : "BDC" ∈ Signature.table.map Signature.name := by decide
  obtain ⟨-, same, -⟩ := @madeAsAdded ⟨1, ⟨5, 0⟩⟩ .default "BDC" rfl (by decide) listed
    [.ofName "Span", .dict none []]
  obtain ⟨op, sole, -, known, bound⟩ := same _ _ rfl rfl
  exact ⟨_, _, op, rfl, by decide, listed, rfl, rfl, sole, known, bound⟩

end PageContent.Builder
