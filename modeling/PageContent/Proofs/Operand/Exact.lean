import PageContent.Proofs.Operand.Reread
import PageContent.Proofs.Operand.Unbound

/-! Without reals, the text of an operand is read as the very operand, and operands that are
alike apart from their bindings are alike once they are bound. -/
namespace PageContent.Operand

mutual

def Realless : Operand → Prop
  | scalar _ s => s.kind ≠ .real
  | ref _ _ => True
  | array _ items => ReallessItems items
  | dict _ entries => ReallessEntries entries

def ReallessItems : List Operand → Prop
  | [] => True
  | o :: rest => Realless o ∧ ReallessItems rest

def ReallessEntries : List (String × Operand) → Prop
  | [] => True
  | (_, o) :: rest => Realless o ∧ ReallessEntries rest

end

theorem reallessItems {os : List Operand} (h : ∀ o ∈ os, o.Realless) : ReallessItems os := by
  induction os with
  | nil => trivial
  | cons o rest ih => exact ⟨h o List.mem_cons_self, ih fun o' later => h o' (List.mem_cons_of_mem _ later)⟩

theorem reallessEntries {es : List (String × Operand)} (h : ∀ k o, (k, o) ∈ es → o.Realless) :
    ReallessEntries es := by
  induction es with
  | nil => trivial
  | cons entry rest ih =>
    exact ⟨h entry.1 entry.2 List.mem_cons_self,
      ih fun k o later => h k o (List.mem_cons_of_mem _ later)⟩

theorem scalarExact {b : Option Binding} {s : Scalar} (h : s.kind ≠ .real) :
    (ofScalar s.reread).unbound = (scalar b s).unbound := by
  cases s with
  | real x => exact absurd rfl h
  | _ => rfl

mutual

theorem rereadExact : (o : Operand) → o.Realless → o.reread.unbound = o.unbound
  | scalar _ _, h => scalarExact h
  | ref _ _, _ => rfl
  | array _ items, h => by simp [reread, unbound, rereadItemsExact items h]
  | dict _ es, h => by simp [reread, unbound, rereadEntriesExact es h]

theorem rereadItemsExact : (os : List Operand) → ReallessItems os →
    unboundItems (rereadItems os) = unboundItems os
  | [], _ => rfl
  | o :: rest, h => by
    simp [rereadItems, unboundItems, rereadExact o h.1, rereadItemsExact rest h.2]

theorem rereadEntriesExact : (es : List (String × Operand)) → ReallessEntries es →
    unboundEntries (rereadEntries es) = unboundEntries es
  | [], _ => rfl
  | (k, o) :: rest, h => by
    simp [rereadEntries, unboundEntries, rereadExact o h.1, rereadEntriesExact rest h.2]

end

mutual

theorem bindUnbound (b : Binding) : (o : Operand) → o.unbound.bind b = o.bind b
  | scalar _ _ => rfl
  | ref _ _ => rfl
  | array _ items => by simp [unbound, bind, bindUnboundItems b items]
  | dict _ es => by simp [unbound, bind, bindUnboundEntries b es]

theorem bindUnboundItems (b : Binding) :
    (os : List Operand) → bindItems b (unboundItems os) = bindItems b os
  | [] => rfl
  | o :: rest => by simp [unboundItems, bindItems, bindUnbound b o, bindUnboundItems b rest]

theorem bindUnboundEntries (b : Binding) : (es : List (String × Operand)) →
    bindEntries b (unboundEntries es) = bindEntries b es
  | [] => rfl
  | (k, o) :: rest => by
    simp [unboundEntries, bindEntries, bindUnbound b o, bindUnboundEntries b rest]

end

end PageContent.Operand
