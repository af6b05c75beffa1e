import PageContent.Proofs.Operand.Exact
import PageContent.Proofs.OperatorTree.RoundTrip

/-! A line of operands and a name that the table does not have is read as one operator, which
has taken them all. -/
namespace PageContent

namespace Builder

theorem addUnknown {b : Builder} (clear : b.pending = []) {name : String}
    (absent : Signature.find? name = none) {os : List Operand}
    (whole : name = "R" → Assembly.reference? os.reverse = none) :
    b.addEach (os.flatMap ContentItem.spelled ++ [.operator name]) =
      (b.append (.unknown name (Operand.bindItems b.binding (Operand.rereadItems os))), none) := by
  have folds := readyFolds b os
  have step : Took (b.ready os) (.operator name) _ := .unknown (fun isR => by
    rw [whole isR, Option.isSome_none, Option.isSome_eq_false_iff,
      Option.isNone_iff_eq_none] at folds
    exact folds) absent
  rw [addLine clear step, readyCleared clear]
  simp [ready, Instruction.bind]

end Builder

namespace OperatorTree

theorem soleRead (binding : Binding) (params : Params) {name : String}
    (spoken : Lexeme.Spoken name) (absent : Signature.find? name = none) {os : List Operand}
    (readable : Operand.ReadableItems os)
    (whole : name = "R" → Assembly.reference? os.reverse = none) :
    parse (instructionLine name os) binding params =
      .ok (empty.push (.unknown name (Operand.bindItems binding (Operand.rereadItems os))) none) := by
  have other : name ≠ "BI" := by
    rintro rfl
    exact absurd absent (by decide)
  have yields := ContentItem.Yields.line readable spoken other .nil .nil
  rw [List.append_nil] at yields
  obtain ⟨placed, read, items⟩ := yields (instructionLine name os)
  have run := Builder.addUnknown (b := Builder.new binding params) rfl absent whole
  rw [← items] at run
  have added : (Builder.new binding params).addData (instructionLine name os) = _ :=
    (congrArg _ read).trans (Builder.addItemsEach run)
  exact parseExact.mpr ⟨_, added, rfl⟩

/-- Operands without reals and without the least integer, written one after the other before a
name that is in no table, are read as one operator of that name. Its operands are the ones
given at every depth, all bound to the place of the text. -/
theorem operandsRead (binding : Binding) (params : Params) {os : List Operand}
    (readable : Operand.ReadableItems os) (realless : Operand.ReallessItems os) :
    parse (instructionLine "foo" os) binding params =
      .ok (empty.push (.unknown "foo" (Operand.bindItems binding os)) none) := by
  have spoken : Lexeme.Spoken "foo" := ⟨0x66, [0x6f, 0x6f], rfl, Lexer.plainWord rfl, rfl⟩
  have same : Operand.bindItems binding (Operand.rereadItems os) = Operand.bindItems binding os := by
    rw [← Operand.bindUnboundItems, Operand.rereadItemsExact os realless, Operand.bindUnboundItems]
  have read := soleRead binding params spoken (by decide) readable fun isR => absurd isR (by decide)
  rwa [same] at read

def nestedOperands : List Operand :=
  [.scalar none (.int (-7)), .ref none ⟨0xffffffff, 0⟩,
    .array none [.array none [], .ofName "", .dict none
      [("A #é", .ref none ⟨3, 65535⟩), ("", .scalar none (.string [0x28, 0x5c, 0x0a, 0xff]))],
      .scalar none .null, .ofName "R"],
    .dict none []]

theorem operandsReadOfNested : Operand.ReadableItems nestedOperands ∧
    Operand.ReallessItems nestedOperands ∧
    parse (instructionLine "foo" nestedOperands) ⟨1, ⟨5, 0⟩⟩ .default =
      .ok (empty.push (.unknown "foo" (Operand.bindItems ⟨1, ⟨5, 0⟩⟩ nestedOperands)) none) := by
  have readable : Operand.ReadableItems nestedOperands := by
    simp [nestedOperands, Operand.ReadableItems, Operand.ReadableEntries, Operand.Readable,
      Operand.ofName, Scalar.Readable, Dict.Distinct]
  have realless : Operand.ReallessItems nestedOperands := by
    simp [nestedOperands, Operand.ReallessItems, Operand.ReallessEntries, Operand.Realless,
      Operand.ofName, Scalar.kind]
  exact ⟨readable, realless, operandsRead _ _ readable realless⟩

end OperatorTree

end PageContent
