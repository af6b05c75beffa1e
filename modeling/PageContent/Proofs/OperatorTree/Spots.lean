import PageContent.Proofs.OperatorTree.Visited

/-! How deep each operator of an outline stands, and that the links of a table which spells
the outline tell the same. -/
namespace PageContent

def Instruction.begun : Instruction → Instruction
  | block start _ => block start none
  | other => other

structure Spot where
  id : Nat
  depth : Nat
  op : Instruction

namespace Outline

mutual

def spotsOf (depth : Nat) : Outline → List Spot
  | node id op children => ⟨id, depth, op.begun⟩ :: spots (depth + 1) children

def spots (depth : Nat) : List Outline → List Spot
  | [] => []
  | o :: rest => spotsOf depth o ++ spots depth rest

end

@[simp] theorem spotsAppend (depth : Nat) (as bs : List Outline) :
    spots depth (as ++ bs) = spots depth as ++ spots depth bs := by
  induction as with
  | nil => simp [spots]
  | cons o rest ih => simp [spots, ih]

theorem spotsEntries (depth : Nat) (os : List Outline) :
    (spots depth os).map (fun s => (s.id, s.op)) = (entries os).map fun e => (e.1, e.2.begun) := by
  induction os using forest generalizing depth with
  | nil => rfl
  | cons id op children rest below later =>
    simp [spots, spotsOf, entries, entriesOf, below, later]

theorem spotsBounded {depth : Nat} {os : List Outline} :
    ∀ s ∈ spots depth os, s.depth < depth + (ids os).length := by
  induction os using forest generalizing depth with
  | nil => simp [spots]
  | cons id op children rest below later =>
    intro s member
    simp only [ids, idsOf, List.length_append, List.length_cons]
    simp only [spots, spotsOf, List.mem_append, List.mem_cons] at member
    rcases member with (rfl | inside) | after
    · exact Nat.lt_add_of_pos_right (by omega)
    · have inside := below s inside
      omega
    · have after := later s after
      omega

end Outline

namespace OperatorTree
open Outline
variable {t : OperatorTree} {os : List Outline}

-- The fuel need not be said exactly: any that is enough for the operators around is.
theorem Linked.depth {parent prev first last : Option Nat} {n : Nat}
    (h : t.Linked parent prev first last os)
    (around : ∀ fuel, n ≤ fuel → (t.ancestors fuel parent).length = n) :
    ∀ s ∈ spots n os, ∀ fuel, s.depth ≤ fuel →
      (t.ancestors fuel (t.parent? s.id)).length = s.depth := by
  induction h generalizing n with
  | nil => simp [spots]
  | @cons parent prev last id node children rest found before above below later ihBelow ihLater =>
    have parent' : t.parent? id = parent := by simp [parent?, found, above]
    have inside : ∀ fuel, n + 1 ≤ fuel → (t.ancestors fuel (some id)).length = n + 1 := by
      intro fuel enough
      obtain ⟨fuel, rfl⟩ := Nat.exists_eq_add_of_le' (Nat.le_of_add_left_le enough)
      simp [ancestors, parent', around fuel (by omega)]
    intro s member
    simp only [spots, spotsOf, List.mem_append, List.mem_cons] at member
    rcases member with (rfl | under) | after
    · simp only [parent']
      exact around
    · exact ihBelow inside s under
    · exact ihLater around s after

theorem Spells.depth (h : t.Spells os) {s : Spot} (member : s ∈ spots 0 os) :
    t.depth s.id = s.depth := by
  have bounded := spotsBounded s member
  rw [h.count, Nat.zero_add] at bounded
  refine h.linked.depth (fun fuel _ => ?_) s member t.size (Nat.le_of_lt bounded)
  cases fuel <;> rfl

theorem Spells.spot (h : t.Spells os) {id : Nat} {op : Instruction} (found : t.op? id = some op) :
    ⟨id, t.depth id, op.begun⟩ ∈ spots 0 os := by
  have begun : (id, op.begun) ∈ (entries os).map fun e => (e.1, e.2.begun) :=
    List.mem_map.mpr ⟨(id, op), h.entry found, rfl⟩
  rw [← spotsEntries 0, List.mem_map] at begun
  obtain ⟨s, member, same⟩ := begun
  obtain ⟨rfl, sameOp⟩ := Prod.mk.inj same
  rw [h.depth member, ← sameOp]
  exact member

theorem Spells.spotOp (h : t.Spells os) {s : Spot} (member : s ∈ spots 0 os) :
    ∃ op, t.op? s.id = some op ∧ op.begun = s.op := by
  have begun : (s.id, s.op) ∈ (spots 0 os).map fun s => (s.id, s.op) :=
    List.mem_map.mpr ⟨s, member, rfl⟩
  rw [spotsEntries, List.mem_map] at begun
  obtain ⟨⟨id, op⟩, there, same⟩ := begun
  obtain ⟨rfl, begun⟩ := Prod.mk.inj same
  exact ⟨op, h.op there, begun⟩

end OperatorTree

end PageContent
