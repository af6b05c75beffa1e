import PageContent.Proofs.OperatorTree.Outline

/-! A visit of a table whose links spell an outline meets each operator once, and what a
chain ends with is what its outline ends with. -/
namespace PageContent
open Outline

namespace OperatorTree
variable {t : OperatorTree} {parent prev first last : Option Nat} {os : List Outline}

-- Each operator costs one unit of fuel and the end of each chain another, but the chains below
-- an operator are over before its siblings come, so one unit beyond the operators is enough.
theorem Linked.visit (h : t.Linked parent prev first last os) (once : (ids os).Nodup)
    {fuel : Nat} (enough : (ids os).length < fuel) {seen : List Nat}
    (fresh : ∀ id ∈ ids os, id ∉ seen) :
    t.visit last parent fuel first prev seen = some ((ids os).reverse ++ seen) := by
  induction h generalizing fuel seen with
  | nil =>
    obtain ⟨fuel, rfl⟩ := Nat.exists_eq_succ_of_ne_zero (Nat.ne_of_gt enough)
    simp [OperatorTree.visit, ids]
  | @cons parent prev last id n children rest found before above below later ihBelow ihLater =>
    obtain ⟨fuel, rfl⟩ := Nat.exists_eq_succ_of_ne_zero (Nat.ne_of_gt (Nat.zero_lt_of_lt enough))
    simp only [ids, idsOf, List.cons_append, List.length_cons, List.length_append, List.nodup_cons,
      List.mem_append, not_or, List.nodup_append, List.mem_cons] at once enough fresh
    obtain ⟨⟨notBelow, notLater⟩, onceBelow, onceLater, apart⟩ := once
    have unseen : id ∉ seen := fresh id (.inl rfl)
    have freshBelow : ∀ child ∈ ids children, child ∉ id :: seen := by grind
    have freshLater : ∀ later ∈ ids rest, later ∉ (ids children).reverse ++ id :: seen := by grind
    have enoughBelow : (ids children).length < fuel := by omega
    have enoughLater : (ids rest).length < fuel := by omega
    have inside := ihBelow onceBelow enoughBelow freshBelow
    have after := ihLater onceLater enoughLater freshLater
    simp [OperatorTree.visit, found, unseen, before, above, inside, after, ids, idsOf]

theorem Spells.isLinked (h : t.Spells os) : t.isLinked = true := by
  have fresh : ∀ id ∈ ids os, id ∉ ([] : List Nat) := fun _ _ => List.not_mem_nil
  have visited := h.linked.visit h.once (Nat.lt_succ_of_le (Nat.le_of_eq h.count)) fresh
  simp [OperatorTree.isLinked, visited, h.count]

theorem Spells.entry (h : t.Spells os) {id : Nat} {op : Instruction} (found : t.op? id = some op) :
    (id, op) ∈ entries os := by
  have old : id < t.size := by
    simp only [op?, Option.map_eq_some_iff, Array.getElem?_eq_some_iff] at found
    obtain ⟨_, ⟨bound, -⟩, -⟩ := found
    exact bound
  have there := (h.all id).mpr old
  rw [idsEntries, List.mem_map] at there
  obtain ⟨⟨_, op'⟩, member, rfl⟩ := there
  rwa [Option.some.inj (found.symm.trans (h.op member))]

theorem Linked.lastNode {id : Nat} {op : Instruction} {children : List Outline}
    (h : t.Linked parent prev first last (os ++ [.node id op children])) :
    last = some id ∧
      ∃ first', t.Linked (some id) none first' (t.lastUnder (some id)) children := by
  induction os generalizing prev first with
  | nil =>
    cases h with
    | @cons _ _ _ _ n _ _ found before above below later =>
      rcases later.lastOf with ⟨_, _, ends⟩ | ⟨_, _, _, _, member, _⟩
      · refine ⟨ends, n.firstChild, ?_⟩
        simpa [lastUnder, found] using below
      · simp [ids] at member
  | cons o rest ih =>
    cases h with
    | cons found before above below later => exact ih later

end OperatorTree

end PageContent
